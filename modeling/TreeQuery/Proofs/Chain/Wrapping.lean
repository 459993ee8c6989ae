import TreeQuery.Proofs.Chain.Arriving
import TreeQuery.Proofs.Chain.Pruning

/-!
# Handles without short cuts

A handle may know no more than its children and its parent.  It looks for itself
among the children of its parent where a node counts from its index, and it
lists all children where a node goes to the first or to the last of them.  Around
the nodes of one tree such handles are led along every axis to the same places.
-/

namespace TreeQuery

theorem idxOf_map {A B : Type} [DecidableEq A] [DecidableEq B] {f : A → B}
    (hf : Function.Injective f) (as : List A) (a : A) : (as.map f).idxOf (f a) = as.idxOf a := by
  induction as with
  | nil => rfl
  | cons b rest ih =>
      have hsame : (f b == f a) = (b == a) := by
        rw [Bool.eq_iff_iff, beq_iff_eq, beq_iff_eq, hf.eq_iff]
      rw [List.map_cons, List.idxOf_cons, List.idxOf_cons, hsame, ih]

namespace Navigable

variable {N P : Type} [DecidableEq N] [Navigable N] [DecidableEq P] [Navigable P]

/-- Handles of one kind around those of another.  They are told apart as those inside are, they know
the children and the parent, and whatever else they do follows from that. -/
structure Wraps (wrap : N → P) : Prop where
  injective : Function.Injective wrap
  children : ∀ n, children (wrap n) = (Navigable.children n).map wrap
  parent : ∀ n, parent (wrap n) = (Navigable.parent n).map wrap
  firstChild : ∀ h : P, firstChild h = (Navigable.children h).head?
  lastChild : ∀ h : P, lastChild h = (Navigable.children h).getLast?
  followingSiblings : ∀ h : P, followingSiblings h =
    match Navigable.parent h with
    | none => []
    | some p => ((Navigable.children p).dropWhile fun c => decide (c ≠ h)).drop 1
  precedingSiblings : ∀ h : P, precedingSiblings h =
    match Navigable.parent h with
    | none => []
    | some p => ((Navigable.children p).takeWhile fun c => decide (c ≠ h)).reverse

end Navigable

namespace Rose

variable {A B : Type}

mutual

def map (f : A → B) : Rose A → Rose B
  | node a ts => node (f a) (mapAll f ts)

def mapAll (f : A → B) : List (Rose A) → List (Rose B)
  | [] => []
  | t :: ts => map f t :: mapAll f ts

end

theorem mapAll_eq_map (f : A → B) (ts : List (Rose A)) : mapAll f ts = ts.map (map f) := by
  induction ts with
  | nil => rfl
  | cons t ts ih => rw [mapAll, List.map_cons, ih]

end Rose

namespace Navigable.Wraps

variable {N P : Type} [DecidableEq N] [Navigable N] [DecidableEq P] [Navigable P]
  {wrap : N → P}

/-!
# Upward and downward
-/

theorem ancestors (h : Wraps wrap) (n : N) :
    Navigable.ancestors (wrap n) = (Navigable.ancestors n).map wrap := by
  induction n using induction_parent with
  | h n ih =>
      have hparent := h.parent n
      cases hp : Navigable.parent n with
      | none =>
          rw [hp, Option.map_none] at hparent
          rw [ancestors_of_no_parent hparent, ancestors_of_no_parent hp, List.map_nil]
      | some p =>
          rw [hp, Option.map_some] at hparent
          rw [ancestors_of_parent hparent, ancestors_of_parent hp, ih p hp, List.map_cons]

theorem line (h : Wraps wrap) (n : N) :
    wrap n :: Navigable.ancestors (wrap n) = (n :: Navigable.ancestors n).map wrap := by
  rw [h.ancestors, List.map_cons]

theorem root (h : Wraps wrap) (n : N) : Navigable.root (wrap n) = wrap (Navigable.root n) := by
  rw [Navigable.root, Navigable.root, h.ancestors, List.getLastD_eq_getLast?, List.getLast?_map,
    List.getLastD_eq_getLast?]
  cases (Navigable.ancestors n).getLast? <;> rfl

theorem subtree (h : Wraps wrap) (n : N) :
    Navigable.subtree (wrap n) = (Navigable.subtree n).map wrap := by
  induction n using induction_children with
  | h n ih =>
      rw [subtree_eq, subtree_eq n, Rose.map, Rose.mapAll_eq_map, h.children, List.map_map,
        List.map_map]
      exact congrArg _ (List.map_congr_left ih)

theorem map_subtree (h : Wraps wrap) (ns : List N) :
    (ns.map wrap).map Navigable.subtree = (ns.map Navigable.subtree).map (Rose.map wrap) := by
  rw [List.map_map, List.map_map]
  exact List.map_congr_left fun n _ => h.subtree n

theorem descendantsOrSelf (h : Wraps wrap) (n : N) :
    Navigable.descendantsOrSelf (wrap n) = (Navigable.descendantsOrSelf n).map wrap := by
  induction n using induction_children with
  | h n ih =>
      rw [descendantsOrSelf_eq, descendantsOrSelf_eq n, h.children, List.map_cons,
        List.flatMap_map, List.map_flatMap]
      exact congrArg _ (List.flatMap_congr ih)

/-!
# Short cuts
-/

variable [LawfulShortcuts N]

theorem firstChild_wrap (h : Wraps wrap) (n : N) :
    Navigable.firstChild (wrap n) = (Navigable.firstChild n).map wrap := by
  rw [h.firstChild, h.children, List.head?_map, LawfulShortcuts.firstChild_eq]

theorem lastChild_wrap (h : Wraps wrap) (n : N) :
    Navigable.lastChild (wrap n) = (Navigable.lastChild n).map wrap := by
  rw [h.lastChild, h.children, List.getLast?_map, LawfulShortcuts.lastChild_eq]

theorem siblings (h : Wraps wrap) (n : N) :
    Navigable.precedingSiblings (wrap n) = (Navigable.precedingSiblings n).map wrap ∧
      Navigable.followingSiblings (wrap n) = (Navigable.followingSiblings n).map wrap := by
  have hparent := h.parent n
  rw [h.precedingSiblings, h.followingSiblings]
  cases hp : Navigable.parent n with
  | none =>
      rw [hp, Option.map_none] at hparent
      rw [hparent, (Lawful.siblings_of_no_parent hp).1, (Lawful.siblings_of_no_parent hp).2]
      exact ⟨rfl, rfl⟩
  | some p =>
      have hchildren := Lawful.children_eq hp
      have hnodup := Lawful.nodup_children p
      rw [hchildren] at hnodup
      have hearlier : ∀ c ∈ (Navigable.precedingSiblings n).reverse.map wrap,
          decide (c ≠ wrap n) = true := by
        intro c hc
        rcases List.mem_map.mp hc with ⟨m, hm, rfl⟩
        apply decide_eq_true
        intro hsame
        rw [h.injective hsame] at hm
        exact (List.nodup_append.mp hnodup).2.2 n hm n List.mem_cons_self rfl
      rw [hp, Option.map_some] at hparent
      rw [hparent]
      show ((Navigable.children (wrap p)).takeWhile _).reverse = _ ∧
        ((Navigable.children (wrap p)).dropWhile _).drop 1 = _
      rw [h.children, hchildren, List.map_append, List.map_cons,
        List.takeWhile_append_of_pos hearlier, List.takeWhile_cons_of_neg (by simp),
        List.dropWhile_append_of_pos hearlier, List.dropWhile_cons_of_neg (by simp),
        List.append_nil, List.map_reverse, List.reverse_reverse]
      exact ⟨rfl, rfl⟩

theorem followingTrees (h : Wraps wrap) (n : N) :
    Axis.followingTrees (wrap n) = (Axis.followingTrees n).map (Rose.map wrap) := by
  rw [Axis.followingTrees, Axis.followingTrees, h.line, List.flatMap_map, List.map_flatMap]
  apply List.flatMap_congr
  intro level _
  rw [(h.siblings level).2, h.map_subtree]

theorem precedingNodes (h : Wraps wrap) (n : N) :
    Axis.precedingNodes (wrap n) = (Axis.precedingNodes n).map wrap := by
  rw [Axis.precedingNodes, Axis.precedingNodes, h.line, List.flatMap_map, List.map_flatMap]
  apply List.flatMap_congr
  intro level _
  rw [(h.siblings level).1, List.flatMap_map, List.map_flatMap]
  apply List.flatMap_congr
  intro sibling _
  rw [h.descendantsOrSelf, List.map_reverse]

end Navigable.Wraps

/-!
# Visitors side by side

Two visitors with states of their own are led to corresponding candidates.  As
long as they give the same answers, and their states go on to correspond, the
walks do the same.
-/

namespace Flow

variable {A B S T E : Type}

def Mirrors (state : S → T) (plain : ExceptT E (StateM S) A) (other : ExceptT E (StateM T) A) :
    Prop :=
  ∀ s, other.run.run (state s) = ((plain.run.run s).1, state (plain.run.run s).2)

variable {state : S → T}

theorem mirrors_pure (a : A) : Mirrors (E := E) state (pure a) (pure a) :=
  fun _ => rfl

theorem Mirrors.bind {plain : ExceptT E (StateM S) A} {other : ExceptT E (StateM T) A}
    {next : A → ExceptT E (StateM S) B} {next' : A → ExceptT E (StateM T) B}
    (h : Mirrors state plain other) (hnext : ∀ a, Mirrors state (next a) (next' a)) :
    Mirrors state (plain >>= next) (other >>= next') := by
  intro s
  rw [run_bind, run_bind, h s]
  rcases plain.run.run s with ⟨outcome, left⟩
  cases outcome with
  | ok a => exact hnext a left
  | error e => rfl

variable {f : A → B} {visit : A → ExceptT E (StateM S) Flow}
  {visit' : B → ExceptT E (StateM T) Flow}

theorem mirrors_each {as : List A} (h : ∀ a ∈ as, Mirrors state (visit a) (visit' (f a))) :
    Mirrors state (each visit as) (each visit' (as.map f)) := by
  induction as with
  | nil => exact mirrors_pure false
  | cons a rest ih =>
      rcases List.forall_mem_cons.mp h with ⟨ha, hrest⟩
      rw [List.map_cons, each, each]
      apply ha.bind
      intro flow
      cases flow with
      | stop => exact mirrors_pure true
      | onward | prune => exact ih hrest

mutual

theorem mirrors_below : ∀ t : Rose A,
    (∀ a ∈ t.preorder, Mirrors state (visit a) (visit' (f a))) →
    Mirrors state (below visit t) (below visit' (t.map f))
  | .node a branches, h => by
      rw [Rose.preorder] at h
      rcases List.forall_mem_cons.mp h with ⟨ha, hbranches⟩
      rw [Rose.map, below, below]
      apply ha.bind
      intro flow
      cases flow with
      | stop => exact mirrors_pure true
      | prune => exact mirrors_pure false
      | onward => exact mirrors_belowAll branches hbranches

theorem mirrors_belowAll : ∀ ts : List (Rose A),
    (∀ a ∈ Rose.preorderAll ts, Mirrors state (visit a) (visit' (f a))) →
    Mirrors state (belowAll visit ts) (belowAll visit' (Rose.mapAll f ts))
  | [], _ => mirrors_pure false
  | t :: ts, h => by
      rw [Rose.preorderAll] at h
      rcases List.forall_mem_append.mp h with ⟨ht, hts⟩
      rw [Rose.mapAll, belowAll, belowAll]
      apply (mirrors_below t ht).bind
      intro stopped
      cases stopped with
      | true => exact mirrors_pure true
      | false => exact mirrors_belowAll ts hts

end

def translate (f : A → B) (noted : S × List (A × Except E Flow)) :
    S × List (B × Except E Flow) :=
  (noted.1, noted.2.map fun call => (f call.1, call.2))

theorem mirrors_noting {visit' : B → ExceptT E (StateM S) Flow} {a : A}
    (h : visit' (f a) = visit a) :
    Mirrors (translate f) (noting visit a) (noting visit' (f a)) := by
  intro noted
  have hcalls : ∀ answer, (noted.2 ++ [(a, answer)]).map (fun call => (f call.1, call.2)) =
      noted.2.map (fun call => (f call.1, call.2)) ++ [(f a, answer)] :=
    fun _ => List.map_append
  show (_, _, _ ++ [(f a, ((visit' (f a)).run.run noted.1).1)]) = (_, _, List.map _ (_ ++ [_]))
  rw [h, hcalls]
  rfl

end Flow

namespace Axis

open Navigable

variable {N P S T E : Type} [DecidableEq N] [Navigable N] [LawfulShortcuts N]
  [DecidableEq P] [Navigable P] {wrap : N → P} {state : S → T}
  {visit : N → ExceptT E (StateM S) Flow} {visit' : P → ExceptT E (StateM T) Flow}

theorem mirrors_traverse (hwraps : Wraps wrap) (axis : Axis) (n : N)
    (h : ∀ m, Navigable.root m = Navigable.root n →
      Flow.Mirrors state (visit m) (visit' (wrap m))) :
    Flow.Mirrors state (axis.traverse n visit) (axis.traverse (wrap n) visit') := by
  have hall : ∀ m ∈ axis.candidates (fun _ => true) n,
      Flow.Mirrors state (visit m) (visit' (wrap m)) :=
    fun m hm => h m (mem_document_iff.mp ((axis.candidates_subperm n).subset hm))
  have hlist : ∀ {ms : List N}, ms = axis.candidates (fun _ => true) n →
      Flow.Mirrors state (Flow.each visit ms) (Flow.each visit' (ms.map wrap)) :=
    fun hms => Flow.mirrors_each (hms ▸ hall)
  have hwhole : ∀ {walk : ExceptT E (StateM S) Bool} {walk' : ExceptT E (StateM T) Bool},
      Flow.Mirrors state walk walk' →
        Flow.Mirrors state (do let _ ← walk; return ()) (do let _ ← walk'; return ()) :=
    fun hwalk => hwalk.bind fun _ => Flow.mirrors_pure ()
  rw [traverse_eq_walk, traverse_eq_walk]
  cases axis with
  | root =>
      refine hwhole ?_
      rw [hwraps.root]
      exact hlist (List.filter_true _).symm
  | self => exact hwhole (hlist (List.filter_true _).symm)
  | child =>
      refine hwhole ?_
      rw [hwraps.children]
      exact hlist (List.filter_true _).symm
  | descendant =>
      refine hwhole ?_
      rw [candidates, Rose.prunedAll_true] at hall
      rw [hwraps.children, hwraps.map_subtree, ← Rose.mapAll_eq_map]
      exact Flow.mirrors_belowAll _ hall
  | descendantOrSelf =>
      refine hwhole ?_
      rw [candidates, Rose.pruned_true] at hall
      rw [hwraps.subtree]
      exact Flow.mirrors_below _ hall
  | parent =>
      refine hwhole ?_
      rw [hwraps.parent, Option.toList_map]
      exact hlist (List.filter_true _).symm
  | ancestor =>
      refine hwhole ?_
      rw [hwraps.ancestors]
      exact hlist (List.filter_true _).symm
  | ancestorOrSelf =>
      refine hwhole ?_
      rw [hwraps.line]
      exact hlist (List.filter_true _).symm
  | firstChild =>
      refine hwhole ?_
      rw [hwraps.firstChild_wrap, Option.toList_map]
      exact hlist (List.filter_true _).symm
  | lastChild =>
      refine hwhole ?_
      rw [hwraps.lastChild_wrap, Option.toList_map]
      exact hlist (List.filter_true _).symm
  | followingSibling =>
      refine hwhole ?_
      rw [(hwraps.siblings n).2]
      exact hlist (List.filter_true _).symm
  | precedingSibling =>
      refine hwhole ?_
      rw [(hwraps.siblings n).1]
      exact hlist (List.filter_true _).symm
  | following =>
      refine hwhole ?_
      rw [candidates, Rose.prunedAll_true] at hall
      rw [hwraps.followingTrees, ← Rose.mapAll_eq_map]
      exact Flow.mirrors_belowAll _ hall
  | preceding =>
      refine hwhole ?_
      rw [hwraps.precedingNodes]
      exact hlist (List.filter_true _).symm

end Axis

/-!
# Places
-/

namespace Navigable

variable {N P : Type} [DecidableEq N] [Navigable N] [DecidableEq P] [Navigable P] {n p : N}

def address (n : N) : List Nat :=
  (n :: ancestors n).reverse.filterMap fun m => (parent m).map fun p => (children p).idxOf m

theorem address_of_no_parent (h : parent n = none) : address n = [] := by
  rw [address, ancestors_of_no_parent h, List.reverse_singleton, List.filterMap_cons_none]
  · rfl
  · rw [h, Option.map_none]

theorem address_of_parent (h : parent n = some p) :
    address n = address p ++ [(children p).idxOf n] := by
  rw [address, ancestors_of_parent h, List.reverse_cons, List.filterMap_append,
    List.filterMap_cons_some (b := (children p).idxOf n)]
  · rfl
  · rw [h, Option.map_some]

theorem Wraps.address {wrap : N → P} (h : Wraps wrap) (n : N) :
    Navigable.address (wrap n) = Navigable.address n := by
  induction n using induction_parent with
  | h n ih =>
      have hparent := h.parent n
      cases hp : Navigable.parent n with
      | none =>
          rw [hp, Option.map_none] at hparent
          rw [address_of_no_parent hp, address_of_no_parent hparent]
      | some p =>
          rw [hp, Option.map_some] at hparent
          rw [address_of_parent hp, address_of_parent hparent, ih p hp, h.children,
            idxOf_map h.injective]

end Navigable

namespace Node

open Navigable

theorem address_eq_place (n : Node) : address n = n.place := by
  induction n using induction_parent with
  | h n ih =>
      cases hpath : n.path with
      | nil =>
          rw [address_of_no_parent (parent_eq_none_iff.mpr hpath), Node.place, hpath]
          rfl
      | cons i up =>
          rcases parent_of_path hpath with ⟨p, hp, htop, hup⟩
          have hat := children_getElem? (child?_of_path htop.symm (hup.symm ▸ hpath))
          rcases List.getElem?_eq_some_iff.mp hat with ⟨hlt, hn⟩
          have hindex : (Navigable.children p).idxOf n = i := by
            rw [← hn]
            exact (nodup_children p).idxOf_getElem i hlt
          rw [address_of_parent hp, ih p hp, hindex, Node.place, Node.place, hpath, hup,
            List.reverse_cons]

end Node

/-- Plain handles around nodes know the least that a handle can know. -/
theorem PlainNode.wraps_mk : Navigable.Wraps PlainNode.mk where
  injective := fun _ _ h => congrArg PlainNode.node h
  children _ := rfl
  parent _ := rfl
  firstChild _ := rfl
  lastChild _ := rfl
  followingSiblings _ := rfl
  precedingSiblings _ := rfl

namespace Axis

open Navigable

variable {P S E : Type} [DecidableEq P] [Navigable P]

/-- Handles without short cuts are led to the same places, in the same order.  Whenever two visitors
answer alike at a node of the tree and at the handle around it, the walks come to the same, leave
the same state behind, and call the visitors at the same places, where they answer the same. -/
theorem traverse_wrapped {wrap : Node → P} (hwraps : Wraps wrap) (axis : Axis) (n : Node)
    {visit : Node → ExceptT E (StateM S) Flow} {visit' : P → ExceptT E (StateM S) Flow}
    (halike : ∀ m, Navigable.root m = Navigable.root n → visit' (wrap m) = visit m) (s : S) :
    (axis.traverse (wrap n) visit').run.run s = (axis.traverse n visit).run.run s ∧
      ∃ outcome left calls calls',
        (axis.traverse n (Flow.noting visit)).run.run (s, []) = (outcome, left, calls) ∧
          (axis.traverse (wrap n) (Flow.noting visit')).run.run (s, []) = (outcome, left, calls') ∧
            calls' = calls.map (fun call => (wrap call.1, call.2)) ∧
              calls'.map (fun call => (address call.1, call.2)) =
                calls.map fun call => (call.1.place, call.2) := by
  have hplain : Flow.Mirrors id (axis.traverse n visit) (axis.traverse (wrap n) visit') :=
    axis.mirrors_traverse hwraps n fun m hm s => by rw [halike m hm]; rfl
  have hnoted : Flow.Mirrors (Flow.translate wrap) (axis.traverse n (Flow.noting visit))
      (axis.traverse (wrap n) (Flow.noting visit')) :=
    axis.mirrors_traverse hwraps n fun m hm => Flow.mirrors_noting (halike m hm)
  rcases hrun : (axis.traverse n (Flow.noting visit)).run.run (s, []) with ⟨outcome, left, calls⟩
  have hrun' := hnoted (s, [])
  rw [hrun] at hrun'
  refine ⟨hplain s, outcome, left, calls, _, rfl, hrun', rfl, ?_⟩
  rw [List.map_map]
  apply List.map_congr_left
  intro call _
  show (address (wrap call.1), call.2) = (call.1.place, call.2)
  rw [hwraps.address, Node.address_eq_place]

/-- What follows the first leaf among siblings of which two stand for that leaf's element, with the
twigs pruned and the third call failing. -/
theorem traverse_wrapped_leaf :
    let tree : Supply Node := do
      let leaf ← Sample.leaf "a"
      let twig ← Sample.element "twig" "d" [leaf, leaf]
      Sample.element "root" "0" [leaf, twig, leaf, twig]
    let visit : Node → ExceptT String (StateM Nat) Flow := fun m => ExceptT.mk fun seen =>
      (if seen = 2 then .error "third"
        else if Navigable.attribute? m "id" = some "d" then .ok .prune else .ok .onward, seen + 1)
    let visit' : PlainNode → ExceptT String (StateM Nat) Flow := fun h => ExceptT.mk fun seen =>
      (if seen = 2 then .error "third"
        else if Navigable.attribute? h "id" = some "d" then .ok .prune else .ok .onward, seen + 1)
    ∃ leaf outcome left calls calls', (tree.run 0).1.descend? [0] = some leaf ∧
      (∀ m, Navigable.root m = Navigable.root leaf → visit' ⟨m⟩ = visit m) ∧
      (traverse .following leaf (Flow.noting visit)).run.run (0, []) = (outcome, left, calls) ∧
      (traverse .following (PlainNode.mk leaf) (Flow.noting visit')).run.run (0, []) =
        (outcome, left, calls') ∧
      calls'.map (fun call => address call.1) = [[1], [2], [3]] ∧
        Flow.failure? calls = some "third" := by
  intro tree visit visit'
  have hseen : ((tree.run 0).1.descend? [0]).map (fun leaf =>
      let calls := ((traverse .following leaf (Flow.noting visit)).run.run (0, [])).2.2
      (calls.map (·.1.place), Flow.failure? calls)) = some ([[1], [2], [3]], some "third") := by
    decide +kernel
  rcases Option.map_eq_some_iff.mp hseen with ⟨leaf, hleaf, hcalled⟩
  have halike : ∀ m, Navigable.root m = Navigable.root leaf → visit' ⟨m⟩ = visit m :=
    fun _ _ => rfl
  rcases traverse_wrapped PlainNode.wraps_mk .following leaf halike 0 with
    ⟨_, outcome, left, calls, calls', hnoted, hwrapped, _, hplaces⟩
  dsimp only at hcalled
  rw [hnoted] at hcalled
  rcases Prod.mk.inj hcalled with ⟨hcalls, hfailed⟩
  have hsame := congrArg (List.map Prod.fst) hplaces
  rw [List.map_map, List.map_map] at hsame
  exact ⟨leaf, outcome, left, calls, calls', hleaf, halike, hnoted, hwrapped, hsame.trans hcalls,
    hfailed⟩

end Axis
end TreeQuery
