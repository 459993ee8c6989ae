import TreeQuery.Chain.Replacement
import TreeQuery.Tree.Sample
import TreeQuery.Proofs.Tree.Places

/-!
# Rewriting from the bottom up

Replacing selected nodes is a rewriting of the whole subtree: the children of
every node first, the earlier ones before the later ones, and then the node
itself if it was selected.  The engine only visits the nodes that have a
selected one at or below them and shares the rest.  What it makes has the shape
of the full rewriting nevertheless, and it calls the mapper in the same order.
-/

namespace TreeQuery

/-- What can be seen of an element from outside: everything but the stamps. -/
structure Shape where
  name : String
  attributes : List (String × String)
  text : Option String
  children : List Shape

namespace Element

mutual

def shape : Element → Shape
  | ⟨_, name, attributes, text, children⟩ => ⟨name, attributes, text, shapeAll children⟩

def shapeAll : List Element → List Shape
  | [] => []
  | e :: es => shape e :: shapeAll es

end

theorem shapeAll_eq_map (es : List Element) : shapeAll es = es.map shape := by
  induction es with
  | nil => rfl
  | cons e rest ih => rw [shapeAll, ih, List.map_cons]

theorem shape_eq (e : Element) :
    e.shape = ⟨e.name, e.attributes, e.text, e.children.map shape⟩ := by
  cases e
  rw [shape, shapeAll_eq_map]

end Element

namespace Node

open Navigable

def shape (n : Node) : Shape :=
  n.element.shape

theorem shape_eq (n : Node) :
    n.shape = ⟨n.element.name, n.element.attributes, n.element.text, n.children.map shape⟩ := by
  unfold shape
  rw [Element.shape_eq, ← children_map_element, List.map_map]
  rfl

end Node

/-!
# The full rewriting
-/

namespace Rose

mutual

/-- The shape of a tree in which the selected nodes are replaced, from the bottom up. -/
def rewritten (selected : List Node) (f : Shape → Shape) : Rose Node → Shape
  | .node n branches =>
      let rebuilt : Shape := ⟨n.element.name, n.element.attributes, n.element.text,
        rewrittenAll selected f branches⟩
      if n ∈ selected then f rebuilt else rebuilt

def rewrittenAll (selected : List Node) (f : Shape → Shape) : List (Rose Node) → List Shape
  | [] => []
  | t :: ts => rewritten selected f t :: rewrittenAll selected f ts

end

theorem rewrittenAll_eq_map (selected : List Node) (f : Shape → Shape) (ts : List (Rose Node)) :
    rewrittenAll selected f ts = ts.map (rewritten selected f) := by
  induction ts with
  | nil => rfl
  | cons t rest ih => rw [rewrittenAll, ih, List.map_cons]

end Rose

namespace Node

open Navigable

variable {selected : List Node} {f : Shape → Shape}

def rewritten (selected : List Node) (f : Shape → Shape) (n : Node) : Shape :=
  (subtree n).rewritten selected f

def rebuilt (selected : List Node) (f : Shape → Shape) (n : Node) : Shape :=
  ⟨n.element.name, n.element.attributes, n.element.text, n.children.map (rewritten selected f)⟩

theorem rewritten_eq (n : Node) :
    n.rewritten selected f =
      if n ∈ selected then f (n.rebuilt selected f) else n.rebuilt selected f := by
  unfold rewritten rebuilt
  rw [subtree_eq, Rose.rewritten, Rose.rewrittenAll_eq_map, List.map_map]
  rfl

theorem rewritten_of_disjoint {n : Node} (h : ∀ m ∈ descendantsOrSelf n, m ∉ selected) :
    n.rewritten selected f = n.shape := by
  induction n using induction_children with
  | h n ih =>
      rw [descendantsOrSelf_eq] at h
      have hself := h n List.mem_cons_self
      have hchildren : n.children.map (rewritten selected f) = n.children.map shape := by
        apply List.map_congr_left
        intro c hc
        apply ih c hc
        intro m hm
        exact h m (List.mem_cons_of_mem n (List.mem_flatMap.mpr ⟨c, hc, hm⟩))
      rw [rewritten_eq, if_neg hself, rebuilt, hchildren, shape_eq]

def selectedBelow (selected : List Node) (n : Node) : List Node :=
  (postorder n).filter (· ∈ selected)

theorem selectedBelow_eq (n : Node) :
    n.selectedBelow selected =
      n.children.flatMap (selectedBelow selected) ++ if n ∈ selected then [n] else [] := by
  unfold selectedBelow
  rw [postorder_eq, List.filter_append, List.filter_flatMap]
  by_cases hn : n ∈ selected
  · simp [hn]
    rfl
  · simp [hn]
    rfl

theorem selectedBelow_of_disjoint {n : Node} (h : ∀ m ∈ descendantsOrSelf n, m ∉ selected) :
    n.selectedBelow selected = [] := by
  apply List.filter_eq_nil_iff.mpr
  intro m hm
  simpa using h m (mem_postorder_iff.mp hm)

theorem mem_selectedBelow_iff {m n : Node} :
    m ∈ n.selectedBelow selected ↔ m ∈ selected ∧ n ∈ m :: ancestors m := by
  rw [selectedBelow, List.mem_filter, mem_postorder_iff, mem_descendantsOrSelf_iff_mem_line,
    decide_eq_true_eq, and_comm]

end Node

/-!
# Mappers

A mapper runs with a state of its own and a supply of stamps, and never fails.
-/

namespace Replacing

variable {T A B : Type}

def Ends (m : Replacing T A) (t : T) (stamp : Nat) (post : A → T → Nat → Prop) : Prop :=
  match ((m.run t).run stamp : (A × T) × Nat) with
  | ((a, t'), stamp') => post a t' stamp'

section

variable {t : T} {stamp : Nat} {post : A → T → Nat → Prop}

theorem ends_pure {a : A} : Ends (pure a) t stamp post ↔ post a t stamp :=
  Iff.rfl

theorem ends_bind {m : Replacing T B} {k : B → Replacing T A} :
    Ends (m >>= k) t stamp post ↔
      Ends m t stamp fun b t' stamp' => Ends (k b) t' stamp' post :=
  Iff.rfl

theorem Ends.imp {m : Replacing T A} {post' : A → T → Nat → Prop} (h : Ends m t stamp post)
    (hpost : ∀ a t' stamp', post a t' stamp' → post' a t' stamp') : Ends m t stamp post' :=
  hpost _ _ _ h

end

def ActsAs (mapper : Node → Replacing T Node) (f : Shape → Shape) : Prop :=
  ∀ n t stamp, Ends (mapper n) t stamp fun result _ _ => result.shape = f n.shape

def logged (mapper : Node → Replacing T Node) (n : Node) : Replacing (T × List Node) Node :=
  fun (t, calls) => do
    let (result, t') ← (mapper n).run t
    return (result, t', calls ++ [n])

theorem ends_logged {mapper : Node → Replacing T Node} {n : Node} {t : T} {calls : List Node}
    {stamp : Nat} {post : Node → T × List Node → Nat → Prop} :
    Ends (logged mapper n) (t, calls) stamp post ↔
      Ends (mapper n) t stamp fun result t' stamp' => post result (t', calls ++ [n]) stamp' :=
  Iff.rfl

end Replacing

namespace Plan

open Navigable Replacing

variable {T : Type} {selected : List Node} {f : Shape → Shape}

theorem ends_withRebuilt {n : Node} {made : List Node} {t : T} {stamp : Nat} :
    Ends (withRebuilt (T := T) n n.children made) t stamp fun result t' _ =>
      t' = t ∧
        result.shape =
          ⟨n.element.name, n.element.attributes, n.element.text, made.map Node.shape⟩ := by
  unfold withRebuilt
  by_cases hsame : made = n.children
  · rw [if_pos hsame, ends_pure, hsame]
    exact ⟨rfl, n.shape_eq⟩
  · rw [if_neg hsame]
    refine ⟨rfl, ?_⟩
    show Element.shape { n.element with children := made.map (·.element), stamp := stamp } = _
    rw [Element.shape_eq, List.map_map]
    rfl

def Accounts (mapper : Node → Replacing T Node) (f : Shape → Shape)
    (account : List Shape → T → Prop) : Prop :=
  ∀ n t stamp calls, account calls t →
    Ends (mapper n) t stamp fun result t' _ =>
      result.shape = f n.shape ∧ account (calls ++ [n.shape]) t'

structure Covers (plan : Plan) (selected : List Node) (n : Node) : Prop where
  matched : ∀ m ∈ descendantsOrSelf n, (m ∈ plan.matched ↔ m ∈ selected)
  marked : ∀ m ∈ descendantsOrSelf n, ∀ x ∈ selected, x ∈ descendantsOrSelf m → m ∈ plan.marked

theorem Covers.child {plan : Plan} {n c : Node} (h : plan.Covers selected n)
    (hc : c ∈ n.children) : plan.Covers selected c := by
  have hbelow := Navigable.descendantsOrSelf_child_subset hc
  exact ⟨fun m hm => h.matched m (hbelow hm), fun m hm => h.marked m (hbelow hm)⟩

section

variable {plan : Plan} {mapper : Node → Replacing T Node} {account : List Shape → T → Prop}

def Rebuilds (plan : Plan) (mapper : Node → Replacing T Node) (f : Shape → Shape)
    (account : List Shape → T → Prop) (selected : List Node) (n : Node) : Prop :=
  ∀ t stamp calls, account calls t →
    Ends (plan.rebuild mapper (subtree n)) t stamp fun result t' _ =>
      result.shape = n.rewritten selected f ∧
        account (calls ++ (n.selectedBelow selected).map (Node.rebuilt selected f)) t'

theorem ends_rebuildAll {ns : List Node}
    (h : ∀ n ∈ ns, Rebuilds plan mapper f account selected n) {t : T} {stamp : Nat}
    {calls : List Shape} (ht : account calls t) :
    Ends (plan.rebuildAll mapper (ns.map subtree)) t stamp fun made t' _ =>
      made.map Node.shape = ns.map (Node.rewritten selected f) ∧
        account
          (calls ++ (ns.flatMap (Node.selectedBelow selected)).map (Node.rebuilt selected f))
          t' := by
  induction ns generalizing t stamp calls with
  | nil =>
      rw [List.map_nil, rebuildAll, ends_pure]
      simpa using ht
  | cons n rest ih =>
      rw [List.map_cons, rebuildAll, ends_bind]
      apply (h n List.mem_cons_self t stamp calls ht).imp
      intro result t' stamp' hresult
      rcases hresult with ⟨hshape, ht'⟩
      rw [ends_bind]
      apply (ih (fun m hm => h m (List.mem_cons_of_mem n hm)) ht').imp
      intro made t'' stamp'' hmade
      rcases hmade with ⟨hshapes, ht''⟩
      rw [ends_pure]
      constructor
      · rw [List.map_cons, hshape, hshapes, List.map_cons]
      · rw [List.flatMap_cons, List.map_append, ← List.append_assoc]
        exact ht''

theorem ends_rebuild (hmapper : Accounts mapper f account) {n : Node}
    (hplan : plan.Covers selected n) : Rebuilds plan mapper f account selected n := by
  induction n using induction_children with
  | h n ih =>
      intro t stamp calls ht
      have hself := Navigable.self_mem_descendantsOrSelf n
      rw [subtree_eq, rebuild]
      by_cases hmarked : n ∈ plan.marked
      · rw [if_pos hmarked, ends_bind]
        apply (ends_rebuildAll (fun c hc => ih c hc (hplan.child hc)) ht).imp
        intro made t' stamp' hmade
        rcases hmade with ⟨hshapes, ht'⟩
        rw [ends_bind, map_label_subtree]
        apply ends_withRebuilt.imp
        intro updated t'' stamp'' hupdated
        rcases hupdated with ⟨htt, hshape⟩
        have hrebuilt : updated.shape = n.rebuilt selected f := by
          rw [hshape, hshapes, Node.rebuilt]
          rfl
        rw [htt, Node.rewritten_eq, Node.selectedBelow_eq]
        by_cases hselected : n ∈ selected
        · rw [if_pos ((hplan.matched n hself).mpr hselected), if_pos hselected, if_pos hselected,
            List.map_append, ← List.append_assoc, ← hrebuilt]
          apply (hmapper updated t' stamp'' _ ht').imp
          intro result last _ hresult
          rcases hresult with ⟨hresult, hlast⟩
          refine ⟨hresult, ?_⟩
          rw [hrebuilt] at hlast
          exact hlast
        · have hmatched : n ∉ plan.matched := by
            rw [hplan.matched n hself]
            exact hselected
          rw [if_neg hmatched, if_neg hselected, if_neg hselected, ends_pure, List.append_nil]
          exact ⟨hrebuilt, ht'⟩
      · have hdisjoint : ∀ m ∈ descendantsOrSelf n, m ∉ selected := by
          intro m hm hselected
          exact hmarked (hplan.marked n hself m hselected hm)
        rw [if_neg hmarked, ends_pure, Node.rewritten_of_disjoint hdisjoint,
          Node.selectedBelow_of_disjoint hdisjoint, List.map_nil, List.append_nil]
        exact ⟨rfl, ht⟩

end

/-!
# Which nodes the plan knows
-/

theorem mem_takeWhile_line {top m x : Node} (htop : top ∈ m :: ancestors m)
    (hm : m ∈ x :: ancestors x) :
    m ∈ (x :: ancestors x).takeWhile (fun y => decide (y ≠ top)) ++ [top] := by
  induction x using induction_parent with
  | h x ih =>
      by_cases hx : x = top
      · have hpath := (Node.mem_line_iff.mp htop).2
        rcases Node.mem_line_iff.mp hm with ⟨hmtop, hsuffix⟩
        rw [hx] at hmtop hsuffix
        have heq : m = top :=
          Node.eq_iff.mpr ⟨hsuffix.eq_of_length_le hpath.length_le, hmtop⟩
        rw [heq]
        exact List.mem_append_right _ (List.mem_singleton_self top)
      · rw [List.takeWhile_cons_of_pos (by simpa using hx), List.cons_append]
        rcases List.mem_cons.mp hm with hself | habove
        · rw [hself]
          exact List.mem_cons_self
        · cases hp : Navigable.parent x with
          | none =>
              rw [ancestors_of_no_parent hp] at habove
              cases habove
          | some p =>
              rw [ancestors_of_parent hp] at habove ⊢
              exact List.mem_cons_of_mem x (ih p hp habove)

theorem covers_ofSelected (start : Node) (selected : List Node) :
    (ofSelected start selected).Covers selected start where
  matched := by
    intro m hm
    rw [Navigable.mem_descendantsOrSelf_iff_mem_line] at hm
    simp only [ofSelected, List.mem_filter, Node.upTo?, if_pos hm, Option.isSome_some, and_true]
  marked := by
    intro m hm x hx hbelow
    rw [Navigable.mem_descendantsOrSelf_iff_mem_line] at hm hbelow
    have habove : start ∈ x :: ancestors x := by
      rcases Node.mem_line_iff.mp hm with ⟨htop, hsuffix⟩
      rcases Node.mem_line_iff.mp hbelow with ⟨htop', hsuffix'⟩
      exact Node.mem_line_iff.mpr ⟨htop.trans htop', hsuffix.trans hsuffix'⟩
    apply List.mem_flatMap.mpr
    refine ⟨x, hx, ?_⟩
    rw [Node.upTo?, if_pos habove, Option.getD_some]
    exact mem_takeWhile_line hm hbelow

end Plan

namespace Chain

open Navigable Replacing

variable {S T : Type} {f : Shape → Shape}

theorem ends_replace {mapper : Node → Replacing T Node} {account : List Shape → T → Prop}
    (hmapper : Plan.Accounts mapper f account) (c : Chain) (g : Setting S Node) (caller : S)
    (start : Node) (stamp : Nat) (calls : List Shape) {t : T} (ht : account calls t) :
    Ends (c.replace g caller mapper start) t stamp fun outcome t' stamp' =>
      let selected := (c.run g caller start).2.selected
      match (c.run g caller start).1 with
      | .error e => outcome = .error e ∧ t' = t ∧ stamp' = stamp
      | .ok _ =>
          (∃ result, outcome = .ok result ∧ result.shape = start.rewritten selected f) ∧
            account (calls ++ (start.selectedBelow selected).map (Node.rebuilt selected f)) t' := by
  unfold replace
  rcases c.run g caller start with ⟨outcome, left⟩
  cases outcome with
  | error e => exact ⟨rfl, rfl, rfl⟩
  | ok _ =>
      have hcovers := Plan.covers_ofSelected start left.selected
      rw [ends_bind]
      apply (Plan.ends_rebuild hmapper hcovers t stamp calls ht).imp
      intro result t' stamp' hresult
      rw [ends_pure]
      exact ⟨⟨result, rfl, hresult.1⟩, hresult.2⟩

/-- Replacing gives the start the shape of a full rewriting from the bottom up.  Each selected node
at or below the start is given to the mapper once and in this order, rebuilt from its rewritten
children; the others are not looked at.  A chain that fails leaves the mapper uncalled. -/
theorem replace_rewrites {mapper : Node → Replacing T Node} (hmapper : ActsAs mapper f)
    (c : Chain) (g : Setting S Node) (caller : S) (start : Node) (t : T) (stamp : Nat) :
    let selected := (c.run g caller start).2.selected
    let below := start.selectedBelow selected
    (∀ e, (c.run g caller start).1 = .error e →
        ((c.replace g caller mapper start).run t).run stamp = ((.error e, t), stamp)) ∧
      ((c.run g caller start).1 = .ok () →
        (Ends (c.replace g caller mapper start) t stamp fun outcome _ _ =>
          ∃ result, outcome = .ok result ∧ result.shape = start.rewritten selected f) ∧
        (Ends (c.replace g caller (logged mapper) start) (t, []) stamp fun _ state _ =>
          state.2.map Node.shape = below.map (Node.rebuilt selected f)) ∧
        below.Nodup ∧ ∀ n, n ∈ below ↔ n ∈ selected ∧ start ∈ n :: ancestors n) := by
  intro selected below
  have hplain : Plan.Accounts mapper f fun _ _ => True := by
    intro n t stamp calls _
    exact (hmapper n t stamp).imp fun result _ _ hresult => ⟨hresult, trivial⟩
  have hlogged : Plan.Accounts (logged mapper) f fun calls state =>
      state.2.map Node.shape = calls := by
    intro n state stamp calls hcalls
    rcases state with ⟨t, given⟩
    rw [ends_logged]
    apply (hmapper n t stamp).imp
    intro result _ _ hresult
    refine ⟨hresult, ?_⟩
    show (given ++ [n]).map Node.shape = calls ++ [n.shape]
    rw [List.map_append, ← hcalls]
    rfl
  have hends := ends_replace (t := t) hplain c g caller start stamp [] trivial
  have hcalls := ends_replace (t := (t, [])) hlogged c g caller start stamp [] rfl
  unfold Ends at hends hcalls ⊢
  constructor
  · intro e he
    rw [he] at hends
    rcases hends with ⟨houtcome, ht, hstamp⟩
    exact Prod.ext (Prod.ext houtcome ht) hstamp
  · intro hok
    rw [hok] at hends hcalls
    refine ⟨hends.1, hcalls.2, (Navigable.nodup_postorder start).filter _, ?_⟩
    intro n
    exact Node.mem_selectedBelow_iff

/-- In the sample forest every element below the root can be renamed, leaves before branches. -/
theorem replace_rewrites_forest :
    let f : Shape → Shape := fun shape => { shape with name := "bush" }
    let mapper : Node → Replacing Unit Node := fun n => liftM (n.renamed "bush")
    let g : Setting Nat Node := ⟨.empty, .standard, ⟨none, none, none⟩⟩
    let c := empty.axis .descendant
    let start := (Sample.forest.run 0).1
    let selected := (c.run g 0 start).2.selected
    ActsAs mapper f ∧ (c.run g 0 start).1.isOk = true ∧
      (Ends (c.replace g 0 mapper start) () 20 fun outcome _ _ =>
        ∃ result, outcome = .ok result ∧ result.shape = start.rewritten selected f) ∧
      (start.selectedBelow selected).map Node.idOrDash =
        ["a", "b", "1", "c", "e", "d", "f", "2", "g", "3"] := by
  intro f mapper g c start selected
  have hmapper : ActsAs mapper f := by
    intro n t stamp
    show Shape.mk _ _ _ _ = { n.element.shape with name := "bush" }
    rw [Element.shapeAll_eq_map, Element.shape_eq]
  have hok : (c.run g 0 start).1.isOk = true := by
    decide +kernel
  have hplaces : (start.selectedBelow selected).map Node.idOrDash =
      ["a", "b", "1", "c", "e", "d", "f", "2", "g", "3"] := by
    decide +kernel
  have hrun : ∀ outcome : Except SelectError Unit, outcome.isOk = true → outcome = .ok () := by
    intro outcome h
    cases outcome with
    | error e => cases h
    | ok _ => rfl
  have hrewrites := (replace_rewrites hmapper c g 0 start () 20).2 (hrun _ hok)
  clear_value f mapper g c start
  exact ⟨hmapper, hok, hrewrites.1, hplaces⟩

end Chain
end TreeQuery
