import TreeQuery.Proofs.Chain.Rewriting

/-!
# What a replacement leaves alone

A new tree shares with the old one whatever nothing was done to.  The nodes on
the way to a selected one are copied only if something below them has changed,
and a copy keeps the elements of the children that stayed the same, so that a
mapper which hands a node back as it is leaves no trace.
-/

namespace TreeQuery

namespace Element

def below? (e : Element) : List Nat → Option Element
  | [] => some e
  | i :: rest => e.children[i]?.bind fun c => c.below? rest

end Element

structure Call where
  given : Node
  returned : Node

namespace Node

open Navigable

/-!
# Places below a node
-/

theorem descend?_map_element (n : Node) (place : List Nat) :
    (n.descend? place).map (·.element) = n.element.below? place := by
  induction place generalizing n with
  | nil => rfl
  | cons i rest ih =>
      rw [descend?, Element.below?, ← child?_map_element]
      cases n.child? i with
      | none => rfl
      | some c => exact ih c

theorem exists_sharesElement_iff {n m : Node} {place : List Nat} :
    (∃ r, n.descend? place = some r ∧ r.sharesElement m = true) ↔
      n.element.below? place = some m.element := by
  rw [← descend?_map_element, Option.map_eq_some_iff]
  simp only [sharesElement, decide_eq_true_eq]

theorem mem_descendantsOrSelf_of_descend? {n m : Node} {place : List Nat}
    (h : n.descend? place = some m) : m ∈ descendantsOrSelf n := by
  induction place generalizing n with
  | nil =>
      cases h
      exact self_mem_descendantsOrSelf _
  | cons i rest ih =>
      rcases Option.bind_eq_some_iff.mp h with ⟨c, hc, hm⟩
      exact descendantsOrSelf_child_subset (mem_children_of_child? hc) (ih hm)

/-!
# Sharing
-/

/-- Nothing was done to `m`, seen from `n`: no selected node stands strictly above it there, and
whatever was selected at or below it came back from the mapper as it was given. -/
structure Untouched (selected : List Node) (calls : List (Node × Call)) (n m : Node) : Prop where
  above : ∀ x ∈ selected, x ∈ descendantsOrSelf n → m ∈ descendantsOrSelf x → x = m
  below : ∀ x call, (x, call) ∈ calls → x ∈ descendantsOrSelf m → call.returned = call.given

/-- At every place below `n` that nothing was done to, `result` has the same element. -/
def Shares (selected : List Node) (calls : List (Node × Call)) (n result : Node) : Prop :=
  ∀ place m, n.descend? place = some m → Untouched selected calls n m →
    ∃ r, result.descend? place = some r ∧ r.sharesElement m = true

theorem shares_self (selected : List Node) (calls : List (Node × Call)) (n : Node) :
    Shares selected calls n n :=
  fun _ m hm _ => ⟨m, hm, decide_eq_true rfl⟩

theorem Shares.mono {selected selected' : List Node} {calls calls' : List (Node × Call)}
    {n result : Node} (h : Shares selected calls n result) (hselected : selected ⊆ selected')
    (hcalls : calls ⊆ calls') : Shares selected' calls' n result := by
  -- The more calls and the more selected nodes there are, the less is left alone.
  intro place m hm huntouched
  refine h place m hm ⟨?_, ?_⟩
  · intro x hx
    exact huntouched.above x (hselected hx)
  · intro x call hcall
    exact huntouched.below x call (hcalls hcall)

end Node

/-!
# Calls of a mapper
-/

namespace Replacing

variable {T A B : Type}

theorem Ends.and {m : Replacing T A} {t : T} {stamp : Nat} {post post' : A → T → Nat → Prop}
    (h : Ends m t stamp post) (h' : Ends m t stamp post') :
    Ends m t stamp fun a t' stamp' => post a t' stamp' ∧ post' a t' stamp' :=
  ⟨h, h'⟩

def recorded (mapper : Node → Replacing T Node) (n : Node) : Replacing (T × List Call) Node :=
  fun (t, calls) => do
    let (result, t') ← (mapper n).run t
    return (result, t', calls ++ [⟨n, result⟩])

theorem ends_recorded {mapper : Node → Replacing T Node} {n : Node} {t : T} {calls : List Call}
    {stamp : Nat} {post : Node → T × List Call → Nat → Prop} :
    Ends (recorded mapper n) (t, calls) stamp post ↔
      Ends (mapper n) t stamp fun result t' stamp' =>
        post result (t', calls ++ [⟨n, result⟩]) stamp' :=
  Iff.rfl

def Answers (mapper : Node → Replacing T Node) (call : Call) : Prop :=
  ∃ t stamp, Ends (mapper call.given) t stamp fun result _ _ => result = call.returned

theorem ends_answers (mapper : Node → Replacing T Node) (n : Node) (t : T) (stamp : Nat) :
    Ends (mapper n) t stamp fun result _ _ => Answers mapper ⟨n, result⟩ :=
  ⟨t, stamp, rfl⟩

def Mirrors (m : Replacing T A) (m' : Replacing (T × List Call) A) : Prop :=
  ∀ t calls stamp, Ends m' (t, calls) stamp fun a state stamp' =>
    Ends m t stamp fun b t' stamp'' => b = a ∧ t' = state.1 ∧ stamp'' = stamp'

theorem mirrors_pure {a : A} : Mirrors (T := T) (pure a) (pure a) :=
  fun _ _ _ => ⟨rfl, rfl, rfl⟩

theorem mirrors_recorded (mapper : Node → Replacing T Node) (n : Node) :
    Mirrors (mapper n) (recorded mapper n) :=
  fun _ _ _ => ⟨rfl, rfl, rfl⟩

theorem Mirrors.bind {m : Replacing T A} {m' : Replacing (T × List Call) A}
    {k : A → Replacing T B} {k' : A → Replacing (T × List Call) B} (hm : Mirrors m m')
    (hk : ∀ a, Mirrors (k a) (k' a)) : Mirrors (m >>= k) (m' >>= k') := by
  intro t calls stamp
  rw [ends_bind]
  apply (hm t calls stamp).imp
  intro a state stamp' hplain
  apply (hk a state.1 state.2 stamp').imp
  intro b last stamp'' hlast
  rw [ends_bind]
  apply hplain.imp
  rintro _ _ _ ⟨rfl, rfl, rfl⟩
  exact hlast

end Replacing

namespace Plan

open Navigable Replacing

variable {T : Type} {plan : Plan} {mapper : Node → Replacing T Node}

theorem mirrors_withRebuilt (n : Node) (children made : List Node) :
    Mirrors (withRebuilt (T := T) n children made) (withRebuilt n children made) := by
  unfold withRebuilt
  split
  · exact mirrors_pure
  · exact fun _ _ _ => ⟨rfl, rfl, rfl⟩

mutual

theorem mirrors_rebuild : ∀ tree : Rose Node,
    Mirrors (plan.rebuild mapper tree) (plan.rebuild (recorded mapper) tree)
  | .node n branches => by
      rw [rebuild, rebuild]
      split
      · refine (mirrors_rebuildAll branches).bind fun made => ?_
        refine (mirrors_withRebuilt n _ made).bind fun updated => ?_
        split
        · exact mirrors_recorded mapper updated
        · exact mirrors_pure
      · exact mirrors_pure

theorem mirrors_rebuildAll : ∀ trees : List (Rose Node),
    Mirrors (plan.rebuildAll mapper trees) (plan.rebuildAll (recorded mapper) trees)
  | [] => by
      rw [rebuildAll, rebuildAll]
      exact mirrors_pure
  | tree :: trees => by
      rw [rebuildAll, rebuildAll]
      refine (mirrors_rebuild tree).bind fun first => ?_
      exact (mirrors_rebuildAll trees).bind fun rest => mirrors_pure

end

/-!
# What rebuilding shares
-/

/-- How a node was rebuilt: the calls that this took, each with the node it was made for, and what
they left alone. -/
structure Traced (mapper : Node → Replacing T Node) (selected : List Node) (n result : Node)
    (calls : List (Node × Call)) : Prop where
  nodes : calls.map Prod.fst = n.selectedBelow selected
  answers : ∀ x call, (x, call) ∈ calls → Answers mapper call
  kept : (∀ x call, (x, call) ∈ calls → call.returned = call.given) → result = n
  shares : Node.Shares selected calls n result
  given : ∀ x call, (x, call) ∈ calls →
    Node.Shares (selected.filter (· ≠ x)) calls x call.given

inductive TracedAll (mapper : Node → Replacing T Node) (selected : List Node) :
    List Node → List Node → List (Node × Call) → Prop where
  | nil : TracedAll mapper selected [] [] []
  | cons {n result : Node} {ns results : List Node} {first rest : List (Node × Call)}
      (hn : Traced mapper selected n result first)
      (hns : TracedAll mapper selected ns results rest) :
      TracedAll mapper selected (n :: ns) (result :: results) (first ++ rest)

variable {selected : List Node}

namespace TracedAll

variable {ns results : List Node} {calls : List (Node × Call)}

theorem nodes (h : TracedAll mapper selected ns results calls) :
    calls.map Prod.fst = ns.flatMap (Node.selectedBelow selected) := by
  induction h with
  | nil => rfl
  | cons hn _ ih => rw [List.map_append, List.flatMap_cons, hn.nodes, ih]

theorem mem_descendantsOrSelf {n : Node} (h : TracedAll mapper selected n.children results calls)
    {x : Node} {call : Call} (hcall : (x, call) ∈ calls) : x ∈ descendantsOrSelf n := by
  have hx : x ∈ calls.map Prod.fst := List.mem_map_of_mem hcall
  rw [h.nodes] at hx
  rcases List.mem_flatMap.mp hx with ⟨c, hc, hxc⟩
  apply Navigable.descendantsOrSelf_child_subset hc
  exact Navigable.mem_descendantsOrSelf_iff_mem_line.mpr (Node.mem_selectedBelow_iff.mp hxc).2

theorem kept (h : TracedAll mapper selected ns results calls)
    (hcalls : ∀ x call, (x, call) ∈ calls → call.returned = call.given) : results = ns := by
  induction h with
  | nil => rfl
  | cons hn _ ih =>
      rw [hn.kept fun x call hcall => hcalls x call (List.mem_append_left _ hcall),
        ih fun x call hcall => hcalls x call (List.mem_append_right _ hcall)]

theorem getElem? (h : TracedAll mapper selected ns results calls) {i : Nat} {n : Node}
    (hi : ns[i]? = some n) : ∃ result first, results[i]? = some result ∧
      Traced mapper selected n result first ∧ first ⊆ calls := by
  induction h generalizing i with
  | nil => simp at hi
  | @cons m result _ _ first rest hm _ ih =>
      cases i with
      | zero =>
          cases hi
          exact ⟨result, first, rfl, hm, List.subset_append_left first rest⟩
      | succ i =>
          rcases ih hi with ⟨result, part, hresult, htraced, hpart⟩
          exact ⟨result, part, hresult, htraced,
            List.Subset.trans hpart (List.subset_append_right first rest)⟩

theorem of_mem (h : TracedAll mapper selected ns results calls) {x : Node} {call : Call}
    (hcall : (x, call) ∈ calls) : ∃ n result first, Traced mapper selected n result first ∧
      (x, call) ∈ first ∧ first ⊆ calls := by
  induction h with
  | nil => cases hcall
  | @cons n result _ _ first rest hn _ ih =>
      rcases List.mem_append.mp hcall with hfirst | hrest
      · exact ⟨n, result, first, hn, hfirst, List.subset_append_left first rest⟩
      · rcases ih hrest with ⟨n, result, part, htraced, hmem, hpart⟩
        exact ⟨n, result, part, htraced, hmem,
          List.Subset.trans hpart (List.subset_append_right first rest)⟩

end TracedAll

theorem ends_withRebuilt_element {n : Node} {made : List Node} {state : T} {stamp : Nat} :
    Ends (withRebuilt n n.children made) state stamp fun updated state' _ =>
      state' = state ∧ (made = n.children → updated = n) ∧
        updated.element.children = made.map (·.element) := by
  unfold withRebuilt
  by_cases hsame : made = n.children
  · rw [if_pos hsame, ends_pure, hsame]
    exact ⟨rfl, fun _ => rfl, (Node.children_map_element n).symm⟩
  · rw [if_neg hsame]
    exact ⟨rfl, fun h => absurd h hsame, rfl⟩

/-- Before a node is given to the mapper it shares with the old one everything below it that was
left alone, whether it was selected itself or not. -/
theorem shares_updated {n updated : Node} {made : List Node} {calls : List (Node × Call)}
    (h : TracedAll mapper selected n.children made calls)
    (hkept : made = n.children → updated = n)
    (hupdated : updated.element.children = made.map (·.element)) :
    Node.Shares (selected.filter (· ≠ n)) calls n updated := by
  intro place m hm huntouched
  rw [Node.exists_sharesElement_iff]
  cases place with
  | nil =>
      cases hm
      rw [hkept (h.kept fun x call hcall => huntouched.below x call hcall
        (h.mem_descendantsOrSelf hcall))]
      rfl
  | cons i rest =>
      rcases Option.bind_eq_some_iff.mp hm with ⟨c, hc, hmc⟩
      rcases h.getElem? (Node.children_getElem? hc) with ⟨result, first, hresult, htraced, hfirst⟩
      have hchild := Node.mem_children_of_child? hc
      have hbelow : Node.Untouched selected first c m := by
        refine ⟨?_, fun x call hcall => huntouched.below x call (hfirst hcall)⟩
        intro x hx hxc hmx
        have hxn : x ≠ n := by
          intro heq
          exact Navigable.notMem_descendantsOrSelf_child hchild (heq ▸ hxc)
        exact huntouched.above x (List.mem_filter.mpr ⟨hx, decide_eq_true hxn⟩)
          (Navigable.descendantsOrSelf_child_subset hchild hxc) hmx
      rw [Element.below?, hupdated, List.getElem?_map, hresult]
      exact Node.exists_sharesElement_iff.mp (htraced.shares rest m hmc hbelow)

theorem TracedAll.given {n : Node} {made : List Node} {calls : List (Node × Call)}
    (h : TracedAll mapper selected n.children made calls) {x : Node} {call : Call}
    (hcall : (x, call) ∈ calls) : Node.Shares (selected.filter (· ≠ x)) calls x call.given := by
  rcases h.of_mem hcall with ⟨_, _, _, htraced, hmem, hfirst⟩
  exact (htraced.given x call hmem).mono (List.Subset.refl _) hfirst

theorem TracedAll.answers {ns made : List Node} {calls : List (Node × Call)}
    (h : TracedAll mapper selected ns made calls) {x : Node} {call : Call}
    (hcall : (x, call) ∈ calls) : Answers mapper call := by
  rcases h.of_mem hcall with ⟨_, _, _, htraced, hmem, _⟩
  exact htraced.answers x call hmem

theorem traced_of_unselected {n updated : Node} {made : List Node} {calls : List (Node × Call)}
    (hn : n ∉ selected) (h : TracedAll mapper selected n.children made calls)
    (hkept : made = n.children → updated = n)
    (hupdated : updated.element.children = made.map (·.element)) :
    Traced mapper selected n updated calls where
  nodes := by rw [Node.selectedBelow_eq, if_neg hn, List.append_nil, h.nodes]
  answers _ _ := h.answers
  kept hcalls := hkept (h.kept hcalls)
  shares := (shares_updated h hkept hupdated).mono List.filter_sublist.subset (List.Subset.refl _)
  given _ _ := h.given

theorem traced_of_selected {n updated result : Node} {made : List Node}
    {calls : List (Node × Call)} (hn : n ∈ selected)
    (h : TracedAll mapper selected n.children made calls)
    (hkept : made = n.children → updated = n)
    (hupdated : updated.element.children = made.map (·.element))
    (hresult : Answers mapper ⟨updated, result⟩) :
    Traced mapper selected n result (calls ++ [(n, ⟨updated, result⟩)]) := by
  have hlast : (n, Call.mk updated result) ∈ calls ++ [(n, ⟨updated, result⟩)] :=
    List.mem_append_right _ (List.mem_singleton_self _)
  have hsame : (∀ x call, (x, call) ∈ calls ++ [(n, ⟨updated, result⟩)] →
      call.returned = call.given) → result = n := by
    intro hcalls
    have hchildren := h.kept fun x call hcall => hcalls x call (List.mem_append_left _ hcall)
    exact (hcalls n _ hlast).trans (hkept hchildren)
  refine ⟨?_, ?_, hsame, ?_, ?_⟩
  · rw [List.map_append, h.nodes, Node.selectedBelow_eq, if_pos hn]
    rfl
  · intro x call hcall
    rcases List.mem_append.mp hcall with hbefore | hself
    · exact h.answers hbefore
    · cases List.mem_singleton.mp hself
      exact hresult
  · intro place m hm huntouched
    have hmn := Node.mem_descendantsOrSelf_of_descend? hm
    have heq : n = m := huntouched.above n hn (Navigable.self_mem_descendantsOrSelf n) hmn
    rw [← heq] at hm huntouched ⊢
    have hresult : result = n := by
      apply hsame
      intro x call hcall
      apply huntouched.below x call hcall
      rcases List.mem_append.mp hcall with hbefore | hself
      · exact h.mem_descendantsOrSelf hbefore
      · cases List.mem_singleton.mp hself
        exact Navigable.self_mem_descendantsOrSelf n
    rw [hresult]
    exact ⟨n, hm, decide_eq_true rfl⟩
  · intro x call hcall
    rcases List.mem_append.mp hcall with hbefore | hself
    · exact (h.given hbefore).mono (List.Subset.refl _)
        (List.subset_append_left ..)
    · cases List.mem_singleton.mp hself
      exact (shares_updated h hkept hupdated).mono (List.Subset.refl _)
        (List.subset_append_left ..)

def Traces (plan : Plan) (mapper : Node → Replacing T Node) (selected : List Node) (n : Node) :
    Prop :=
  ∀ t calls stamp, Ends (plan.rebuild (recorded mapper) (subtree n)) (t, calls) stamp
    fun result state _ => ∃ more, state.2 = calls ++ more.map Prod.snd ∧
      Traced mapper selected n result more

theorem ends_rebuildAll_traced {ns : List Node} (h : ∀ n ∈ ns, Traces plan mapper selected n)
    {t : T} {calls : List Call} {stamp : Nat} :
    Ends (plan.rebuildAll (recorded mapper) (ns.map subtree)) (t, calls) stamp
      fun made state _ => ∃ more, state.2 = calls ++ more.map Prod.snd ∧
        TracedAll mapper selected ns made more := by
  induction ns generalizing t calls stamp with
  | nil =>
      rw [List.map_nil, rebuildAll, ends_pure]
      exact ⟨[], (List.append_nil _).symm, .nil⟩
  | cons n rest ih =>
      rw [List.map_cons, rebuildAll, ends_bind]
      apply (h n List.mem_cons_self t calls stamp).imp
      rintro result ⟨t', _⟩ stamp' ⟨first, rfl, hfirst⟩
      rw [ends_bind]
      apply (ih fun m hm => h m (List.mem_cons_of_mem n hm)).imp
      rintro made ⟨t'', _⟩ stamp'' ⟨more, rfl, hmore⟩
      rw [ends_pure]
      refine ⟨first ++ more, ?_, .cons hfirst hmore⟩
      rw [List.map_append, List.append_assoc]

theorem traces_of_covers {n : Node} (hplan : plan.Covers selected n) :
    Traces plan mapper selected n := by
  induction n using induction_children with
  | h n ih =>
      intro t calls stamp
      have hself := Navigable.self_mem_descendantsOrSelf n
      rw [subtree_eq, rebuild]
      by_cases hmarked : n ∈ plan.marked
      · rw [if_pos hmarked, ends_bind]
        apply (ends_rebuildAll_traced fun c hc => ih c hc (hplan.child hc)).imp
        rintro made ⟨t', _⟩ stamp' ⟨more, rfl, hmade⟩
        rw [ends_bind, map_label_subtree]
        apply ends_withRebuilt_element.imp
        rintro updated _ stamp'' ⟨rfl, hkept, hupdated⟩
        by_cases hselected : n ∈ selected
        · rw [if_pos ((hplan.matched n hself).mpr hselected), ends_recorded]
          apply (ends_answers mapper updated t' stamp'').imp
          intro result _ _ hresult
          refine ⟨more ++ [(n, ⟨updated, result⟩)], ?_,
            traced_of_selected hselected hmade hkept hupdated hresult⟩
          rw [List.map_append, List.append_assoc]
          rfl
        · rw [if_neg (mt (hplan.matched n hself).mp hselected), ends_pure]
          exact ⟨more, rfl, traced_of_unselected hselected hmade hkept hupdated⟩
      · have hdisjoint : ∀ m ∈ descendantsOrSelf n, m ∉ selected := by
          intro m hm hselected
          exact hmarked (hplan.marked n hself m hselected hm)
        rw [if_neg hmarked, ends_pure]
        refine ⟨[], (List.append_nil _).symm, ?_, nofun, fun _ => rfl, ?_, nofun⟩
        · rw [Node.selectedBelow_of_disjoint hdisjoint]
          rfl
        · exact Node.shares_self selected [] n

end Plan

namespace Chain

open Navigable Replacing

variable {S T : Type}

theorem mirrors_replace (c : Chain) (g : Setting S Node) (caller : S)
    (mapper : Node → Replacing T Node) (start : Node) :
    Mirrors (c.replace g caller mapper start) (c.replace g caller (recorded mapper) start) := by
  unfold replace
  rcases c.run g caller start with ⟨outcome, left⟩
  cases outcome with
  | error e => exact mirrors_pure
  | ok _ => exact (Plan.mirrors_rebuild _).bind fun result => mirrors_pure

theorem ends_replace_traced {c : Chain} {g : Setting S Node} {caller : S}
    (mapper : Node → Replacing T Node) {start : Node} (t : T) (stamp : Nat)
    (hok : (c.run g caller start).1 = .ok ()) :
    Ends (c.replace g caller (recorded mapper) start) (t, []) stamp fun outcome state _ =>
      ∃ result calls, outcome = .ok result ∧ state.2 = calls.map Prod.snd ∧
        Plan.Traced mapper (c.run g caller start).2.selected start result calls := by
  unfold replace
  generalize c.run g caller start = reached at hok ⊢
  rcases reached with ⟨outcome, left⟩
  dsimp only at hok
  have htraces : Plan.Traces _ mapper left.selected start :=
    Plan.traces_of_covers (Plan.covers_ofSelected start left.selected)
  rw [hok]
  dsimp only
  rw [ends_bind]
  apply (htraces t [] stamp).imp
  rintro result state _ ⟨calls, hstate, htraced⟩
  rw [ends_pure]
  exact ⟨result, calls, rfl, hstate, htraced⟩

/-- A replacement that succeeds makes one call for each selected node at or below the start, the
deeper ones first.  Every place below the start that nothing was done to has the element it had
before, and the same is true below each node that the mapper is given.  In particular a mapper that
hands all nodes back, or a chain that selects nothing there, gives the start itself. -/
theorem replace_shares (mapper : Node → Replacing T Node) (c : Chain) (g : Setting S Node)
    (caller : S) (start : Node) (t : T) (stamp : Nat)
    (hok : (c.run g caller start).1 = .ok ()) :
    let selected := (c.run g caller start).2.selected
    let below := start.selectedBelow selected
    Ends (c.replace g caller (recorded mapper) start) (t, []) stamp fun outcome state stamp' =>
      let calls := below.zip state.2
      Ends (c.replace g caller mapper start) t stamp (fun outcome' t' stamp'' =>
          outcome' = outcome ∧ t' = state.1 ∧ stamp'' = stamp') ∧
        state.2.length = below.length ∧
        (∀ call ∈ state.2, Answers mapper call) ∧
        ∃ result, outcome = .ok result ∧
          start.Shares selected calls result ∧
          (∀ x call, (x, call) ∈ calls →
            x.Shares (selected.filter (· ≠ x)) calls call.given) ∧
          ((∀ n t' stamp', Ends (mapper n) t' stamp' fun made _ _ => made = n) →
            result = start) ∧
          ((∀ x ∈ selected, x ∉ descendantsOrSelf start) → state.2 = [] ∧ result = start) ∧
          ∀ place m, start.descend? place = some m →
            (∀ x ∈ selected, x ∈ descendantsOrSelf start →
              m ∉ descendantsOrSelf x ∧ x ∉ descendantsOrSelf m) →
            ∃ r, result.descend? place = some r ∧ r.sharesElement m = true := by
  intro selected below
  have hmirrors := mirrors_replace c g caller mapper start t [] stamp
  have htraced := ends_replace_traced mapper t stamp hok
  apply (hmirrors.and htraced).imp
  rintro outcome state stamp' ⟨hmirrors, result, calls, houtcome, hstate, htraced⟩
  have hnodes : calls.map Prod.fst = below := htraced.nodes
  have hzip : below.zip state.2 = calls := (List.zip_of_prod hnodes hstate.symm).symm
  have hselected : ∀ x call, (x, call) ∈ calls → x ∈ selected ∧ x ∈ descendantsOrSelf start := by
    intro x call hcall
    have hx : x ∈ below := hnodes ▸ List.mem_map_of_mem hcall
    rw [Navigable.mem_descendantsOrSelf_iff_mem_line]
    exact Node.mem_selectedBelow_iff.mp hx
  rw [hzip, hstate]
  refine ⟨hmirrors, ?_, ?_, result, houtcome, htraced.shares, htraced.given, ?_, ?_, ?_⟩
  · rw [← hnodes, List.length_map, List.length_map]
  · intro call hcall
    rcases List.mem_map.mp hcall with ⟨⟨x, _⟩, hmem, rfl⟩
    exact htraced.answers x _ hmem
  · intro hidentity
    apply htraced.kept
    intro x call hcall
    rcases htraced.answers x call hcall with ⟨t', stamp'', hanswer⟩
    exact hanswer.symm.trans (hidentity call.given t' stamp'')
  · intro hnone
    have hcalls : calls = [] := by
      rw [List.eq_nil_iff_forall_not_mem]
      rintro ⟨x, call⟩ hcall
      exact hnone x (hselected x call hcall).1 (hselected x call hcall).2
    exact ⟨by rw [hcalls]; rfl, htraced.kept (by rw [hcalls]; exact nofun)⟩
  · intro place m hm hapart
    apply htraced.shares place m hm
    constructor
    · intro x hx hxstart hmx
      exact absurd hmx (hapart x hx hxstart).1
    · intro x call hcall hxm
      exact absurd hxm (hapart x (hselected x call hcall).1 (hselected x call hcall).2).2

/-- In the sample forest a mapper is given all leaves and renames one of them.  The leaf before it
is shared, although what stands above both has changed. -/
theorem replace_shares_forest :
    let mapper : Node → Replacing Unit Node := fun n =>
      if n.idOrDash = "e" then liftM (n.renamed "bush") else pure n
    let g : Setting Nat Node := ⟨.empty, .standard, ⟨none, none, none⟩⟩
    let c := (empty.axis .descendant).named "leaf"
    let start := (Sample.forest.run 0).1
    let m := (start.descend? [1, 0]).getD start
    let state := ((c.replace g 0 (recorded mapper) start).run ((), [])).run 100
    (c.run g 0 start).1.isOk = true ∧ m.idOrDash = "c" ∧
      state.1.2.2.map (·.given.idOrDash) = ["a", "b", "c", "e", "f", "g"] ∧
      ∃ result, state.1.1.toOption = some result ∧ result.sharesElement start = false ∧
        ∃ r, result.descend? [1, 0] = some r ∧ r.sharesElement m = true := by
  intro mapper g c start m state
  have hok : (c.run g 0 start).1.isOk = true := by
    decide +kernel
  have hrun : (c.run g 0 start).1 = .ok () := by
    generalize (c.run g 0 start).1 = outcome at hok
    cases outcome with
    | error e => cases hok
    | ok _ => rfl
  have hm : start.descend? [1, 0] = some m := by
    decide +kernel
  have hid : m.idOrDash = "c" := by
    decide +kernel
  have hgiven : state.1.2.2.map (·.given.idOrDash) = ["a", "b", "c", "e", "f", "g"] := by
    decide +kernel
  have habove : ∀ x ∈ (c.run g 0 start).2.selected,
      x ∈ descendantsOrSelf start → m ∈ descendantsOrSelf x → x = m := by
    decide +kernel
  have hbelow : ∀ p ∈ (start.selectedBelow (c.run g 0 start).2.selected).zip state.1.2.2,
      p.1 ∈ descendantsOrSelf m → p.2.returned = p.2.given := by
    decide +kernel
  have hchanged : state.1.1.toOption.any (fun result => !result.sharesElement start) = true := by
    decide +kernel
  clear_value mapper g c start m
  have hends := replace_shares mapper c g 0 start () 100 hrun
  rcases hends with ⟨_, _, _, result, hresult, hshares, _⟩
  change state.1.1 = _ at hresult
  refine ⟨hok, hid, hgiven, result, congrArg Except.toOption hresult, ?_, ?_⟩
  · rw [hresult] at hchanged
    exact Bool.not_eq_true' _ |>.mp hchanged
  · exact hshares [1, 0] m hm ⟨habove, fun x call => hbelow (x, call)⟩

end Chain
end TreeQuery
