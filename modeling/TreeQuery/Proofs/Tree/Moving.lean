import TreeQuery.Proofs.Tree.Order
import TreeQuery.Proofs.Tree.Places
import TreeQuery.Tree.Sample

/-!
# Moving around a tree

A node is reached from the top of its tree by moves, one after the other, and
every one of them makes a new handle.  Where the moves lead can be told from the
child indexes alone.  Whoever arrives at one place by different moves holds the
same node, and at different places the nodes differ, even where they stand for
one element.
-/

namespace TreeQuery

/-- One step of navigation.  Siblings and ancestors are counted from the nearest one. -/
inductive Move where
  | child (i : Nat)
  | firstChild
  | lastChild
  | parent
  | followingSibling (i : Nat)
  | precedingSibling (i : Nat)
  | ancestor (i : Nat)
  | root
deriving DecidableEq, Repr

namespace Move

section

variable {N : Type} [DecidableEq N] [Navigable N]

def apply (n : N) : Move → Option N
  | .child i => (Navigable.children n)[i]?
  | .firstChild => Navigable.firstChild n
  | .lastChild => Navigable.lastChild n
  | .parent => Navigable.parent n
  | .followingSibling i => (Navigable.followingSiblings n)[i]?
  | .precedingSibling i => (Navigable.precedingSiblings n)[i]?
  | .ancestor i => (Navigable.ancestors n)[i]?
  | .root => some (Navigable.root n)

def follow (n : N) : List Move → Option N
  | [] => some n
  | move :: moves => (move.apply n).bind fun m => follow m moves

end

/-!
# Places alone

The same moves on child indexes, the last of them first.  The tree is asked no
more than which places it has.
-/

def path? (top : Element) (path : List Nat) : Option (List Nat) :=
  (top.at? path).map fun _ => path

def shift (top : Element) (path : List Nat) : Move → Option (List Nat)
  | .child i => path? top (i :: path)
  | .firstChild => path? top (0 :: path)
  | .lastChild => (top.at? path).bind fun e => path? top ((e.children.length - 1) :: path)
  | .parent =>
      match path with
      | [] => none
      | _ :: up => some up
  | .followingSibling i =>
      match path with
      | [] => none
      | index :: up => path? top ((index + 1 + i) :: up)
  | .precedingSibling i =>
      match path with
      | [] => none
      | index :: up => if i < index then some ((index - 1 - i) :: up) else none
  | .ancestor i => if i < path.length then some (path.drop (i + 1)) else none
  | .root => some []

def trail (top : Element) (path : List Nat) : List Move → Option (List Nat)
  | [] => some path
  | move :: moves => (move.shift top path).bind fun next => trail top next moves

end Move

namespace Node

open Navigable

variable {a b m n : Node} {move : Move} {moves : List Move} {i : Nat}

/-!
# What a move does
-/

theorem child?_map_path (n : Node) (i : Nat) :
    (n.child? i).map (·.path) = Move.path? n.top (i :: n.path) := by
  rw [Move.path?, Element.at?, n.reached, Option.bind_some, ← child?_map_element, Option.map_map]
  cases hc : n.child? i with
  | none => rfl
  | some c => exact congrArg some (child?_eq_some hc).2.1

theorem top_of_mem_children (h : m ∈ n.children) : m.top = n.top :=
  (mem_children h).1

theorem top_of_mem_ancestors (h : m ∈ ancestors n) : m.top = n.top :=
  (mem_line_iff.mp (List.mem_cons_of_mem n h)).1

theorem siblings_of_path {index : Nat} {up : List Nat} (h : n.path = index :: up) :
    ∃ p : Node, p.top = n.top ∧ p.path = up ∧ index < p.children.length ∧
      n.followingSiblings = p.children.drop (index + 1) ∧
        n.precedingSiblings = (p.children.take index).reverse := by
  rcases parent_of_path h with ⟨p, hp, htop, hpath⟩
  have hindex : n.index = index := by rw [Node.index, h, List.headD_cons]
  have hat := children_getElem? (child?_of_path htop.symm (hpath.symm ▸ h))
  refine ⟨p, htop, hpath, (List.getElem?_eq_some_iff.mp hat).1, ?_, ?_⟩
  · rw [followingSiblings, hp, hindex]
  · rw [precedingSiblings, hp, hindex]

theorem siblings_of_path_nil (h : n.path = []) :
    n.followingSiblings = [] ∧ n.precedingSiblings = [] := by
  have hparent := parent_eq_none_iff.mpr h
  rw [followingSiblings, precedingSiblings, hparent]
  exact ⟨rfl, rfl⟩

theorem followingSiblings_map_path (n : Node) (i : Nat) :
    n.followingSiblings[i]?.map (·.path) = (Move.followingSibling i).shift n.top n.path := by
  cases hpath : n.path with
  | nil =>
      rw [(siblings_of_path_nil hpath).1]
      rfl
  | cons index up =>
      rcases siblings_of_path hpath with ⟨p, htop, hup, _, hfollowing, _⟩
      rw [hfollowing, List.getElem?_drop, children_getElem?_eq, child?_map_path, htop, hup]
      rfl

theorem precedingSiblings_map_path (n : Node) (i : Nat) :
    n.precedingSiblings[i]?.map (·.path) = (Move.precedingSibling i).shift n.top n.path := by
  cases hpath : n.path with
  | nil =>
      rw [(siblings_of_path_nil hpath).2]
      rfl
  | cons index up =>
      rcases siblings_of_path hpath with ⟨p, _, hup, hindex, _, hpreceding⟩
      have hlength : (p.children.take index).length = index := by
        rw [List.length_take, Nat.min_eq_left (Nat.le_of_lt hindex)]
      rw [hpreceding, Move.shift]
      split
      · rename_i hi
        have hearlier : index - 1 - i < p.children.length := by omega
        rw [List.getElem?_reverse (by rw [hlength]; exact hi), hlength,
          List.getElem?_take_of_lt (by omega), List.getElem?_eq_getElem hearlier, Option.map_some]
        have hat := List.getElem?_eq_getElem hearlier
        rw [children_getElem?_eq] at hat
        rw [(child?_eq_some hat).2.1, hup]
      · rename_i hi
        rw [List.getElem?_eq_none (by rw [List.length_reverse, hlength]; omega), Option.map_none]

theorem ancestors_map_path (n : Node) (i : Nat) :
    (ancestors n)[i]?.map (·.path) = (Move.ancestor i).shift n.top n.path := by
  rw [Move.shift]
  induction n using induction_parent generalizing i with
  | h n ih =>
      cases hpath : n.path with
      | nil =>
          have hparent : Navigable.parent n = none := parent_eq_none_iff.mpr hpath
          rw [ancestors_of_no_parent hparent]
          rfl
      | cons index up =>
          rcases parent_of_path hpath with ⟨p, hp, _, hup⟩
          rw [ancestors_of_parent hp]
          cases i with
          | zero => simp [hup]
          | succ i => simpa [hup] using ih p hp i

theorem path_root (n : Node) : (Navigable.root n).path = [] :=
  parent_eq_none_iff.mp (parent_root n)

/-- A move changes the path of a node as it would change the path alone. -/
theorem apply_map_path (n : Node) (move : Move) :
    (move.apply n).map (·.path) = move.shift n.top n.path := by
  cases move with
  | child i =>
      rw [Move.shift, ← child?_map_path, ← children_getElem?_eq]
      rfl
  | firstChild => exact n.child?_map_path 0
  | lastChild =>
      rw [Move.shift, n.reached, Option.bind_some, ← child?_map_path]
      show Option.map _ (if n.element.children.isEmpty then none else _) = _
      split
      · rename_i hnone
        have hat := n.child?_map_element (n.element.children.length - 1)
        rw [List.isEmpty_iff.mp hnone, List.getElem?_nil, Option.map_eq_none_iff] at hat
        rw [List.isEmpty_iff.mp hnone, hat]
      · rfl
  | parent =>
      show n.parent.map _ = _
      cases hpath : n.path with
      | nil =>
          rw [parent_eq_none_iff.mpr hpath]
          rfl
      | cons index up =>
          rcases parent_of_path hpath with ⟨p, hp, _, hup⟩
          rw [hp, Option.map_some, hup]
          rfl
  | followingSibling i => exact n.followingSiblings_map_path i
  | precedingSibling i => exact n.precedingSiblings_map_path i
  | ancestor i => exact n.ancestors_map_path i
  | root => exact congrArg some n.path_root

theorem top_of_apply (h : move.apply n = some m) : m.top = n.top := by
  have hsiblings : ∀ {p : Node}, n.parent = some p → m ∈ p.children → m.top = n.top := by
    intro p hp hm
    rw [top_of_mem_children hm, (parent_eq_some hp).1]
  cases move with
  | child i => exact top_of_mem_children (List.mem_of_getElem? h)
  | firstChild => exact (child?_eq_some h).1
  | lastChild =>
      change (if n.element.children.isEmpty then none else _) = some m at h
      split at h
      · cases h
      · exact (child?_eq_some h).1
  | parent => exact (parent_eq_some h).1
  | followingSibling i =>
      have hmem : m ∈ n.followingSiblings := List.mem_of_getElem? h
      cases hp : n.parent with
      | none => simp [followingSiblings, hp] at hmem
      | some p =>
          apply hsiblings hp
          rw [children_eq_of_parent hp]
          exact List.mem_append_right _ (List.mem_cons_of_mem n hmem)
  | precedingSibling i =>
      have hmem : m ∈ n.precedingSiblings := List.mem_of_getElem? h
      cases hp : n.parent with
      | none => simp [precedingSiblings, hp] at hmem
      | some p =>
          apply hsiblings hp
          rw [children_eq_of_parent hp]
          exact List.mem_append_left _ (List.mem_reverse.mpr hmem)
  | ancestor i => exact top_of_mem_ancestors (List.mem_of_getElem? h)
  | root =>
      cases h
      exact (mem_line_iff.mp (root_mem_line n)).1

theorem follow_map_path (n : Node) (moves : List Move) :
    (Move.follow n moves).map (·.path) = Move.trail n.top n.path moves := by
  induction moves generalizing n with
  | nil => rfl
  | cons move moves ih =>
      rw [Move.follow, Move.trail, ← apply_map_path]
      cases hm : move.apply n with
      | none => rfl
      | some m =>
          rw [Option.bind_some, Option.map_some, Option.bind_some, ← top_of_apply hm]
          exact ih m

theorem top_of_follow (h : Move.follow n moves = some m) : m.top = n.top := by
  induction moves generalizing n with
  | nil =>
      cases h
      rfl
  | cons move moves ih =>
      rcases Option.bind_eq_some_iff.mp h with ⟨next, hnext, hrest⟩
      rw [ih hrest, top_of_apply hnext]

/-!
# Places and handles
-/

theorem descend?_append_singleton (n : Node) (place : List Nat) (i : Nat) :
    n.descend? (place ++ [i]) = (n.descend? place).bind fun m => m.child? i := by
  induction place generalizing n with
  | nil =>
      show (n.child? i).bind some = n.child? i
      exact Option.bind_fun_some (n.child? i)
  | cons j rest ih =>
      show (n.child? j).bind _ = ((n.child? j).bind _).bind _
      rw [Option.bind_assoc]
      exact Option.bind_congr fun c _ => ih c

/-- There is one node at a place below a node, and nothing else is found there. -/
theorem descend?_eq_some_iff {place : List Nat} :
    n.descend? place = some m ↔ m.top = n.top ∧ m.path = place.reverse ++ n.path := by
  induction place using List.reverseRecOn generalizing m with
  | nil =>
      show some n = some m ↔ _
      rw [Option.some_inj, eq_comm, eq_iff, and_comm]
      rfl
  | append_singleton place i ih =>
      rw [descend?_append_singleton, Option.bind_eq_some_iff, List.reverse_append,
        List.reverse_singleton, List.singleton_append, List.cons_append]
      constructor
      · intro h
        rcases h with ⟨p, hp, hm⟩
        rcases ih.mp hp with ⟨hptop, hppath⟩
        rcases child?_eq_some hm with ⟨hmtop, hmpath, _⟩
        exact ⟨hmtop.trans hptop, hmpath.trans (congrArg (i :: ·) hppath)⟩
      · intro h
        rcases h with ⟨hmtop, hmpath⟩
        rcases parent_of_path hmpath with ⟨p, _, hptop, hppath⟩
        exact ⟨p, ih.mpr ⟨hptop.trans hmtop, hppath⟩,
          child?_of_path hptop.symm (hppath.symm ▸ hmpath)⟩

theorem descend?_detached {e : Element} {place : List Nat} :
    (detached e).descend? place = some m ↔ m.top = e ∧ m.place = place := by
  rw [descend?_eq_some_iff, Node.place, List.reverse_eq_iff]
  show _ ∧ m.path = place.reverse ++ [] ↔ _
  rw [List.append_nil]
  rfl

/-- The node is what is found at the place, its index is the last entry of the place, and its parent
is what is found at the place without that entry. -/
structure StandsAt (top n : Node) (place : List Nat) : Prop where
  found : top.descend? place = some n
  index : n.index = place.getLast?.getD 0
  parent : n.parent = if place = [] then none else top.descend? place.dropLast

theorem standsAt_place (n : Node) : StandsAt (detached n.top) n n.place where
  found := descend?_detached.mpr ⟨rfl, rfl⟩
  index := by
    rw [Node.place, List.getLast?_reverse, Node.index, List.headD_eq_head?_getD]
  parent := by
    rw [Node.place]
    cases hpath : n.path with
    | nil => exact parent_eq_none_iff.mpr hpath
    | cons i up =>
        rcases parent_of_path hpath with ⟨p, hp, htop, hup⟩
        rw [List.reverse_cons,
          if_neg (List.append_ne_nil_of_right_ne_nil _ (List.cons_ne_nil i [])),
          List.dropLast_concat, hp]
        refine (descend?_detached.mpr ⟨htop, ?_⟩).symm
        rw [Node.place, hup]

/-!
# Identity
-/

theorem ancestors_eq (n : Node) :
    ancestors n =
      match n.parent with
      | none => []
      | some p => p :: ancestors p := by
  cases hp : n.parent with
  | none => exact ancestors_of_no_parent hp
  | some p => exact ancestors_of_parent hp

theorem identical_eq (a b : Node) :
    a.identical b = (a.sharesElement b && a.index == b.index &&
      match a.parent, b.parent with
      | none, none => true
      | some p, some q => p.identical q
      | _, _ => false) := by
  rw [identical, identicalAll, ancestors_eq a, ancestors_eq b]
  cases a.parent <;> cases b.parent <;> rfl

theorem identical_iff : a.identical b = true ↔ a = b := by
  induction a using induction_parent generalizing b with
  | h a ih =>
      rw [identical_eq, Bool.and_eq_true, Bool.and_eq_true, sharesElement, decide_eq_true_iff,
        beq_iff_eq]
      constructor
      · intro h
        rcases h with ⟨⟨helement, hindex⟩, hparents⟩
        cases hp : a.parent with
        | none =>
            cases hq : b.parent with
            | none =>
                have hapath := parent_eq_none_iff.mp hp
                have hbpath := parent_eq_none_iff.mp hq
                have hatop := a.reached
                have hbtop := b.reached
                rw [hapath, Element.at?, Option.some_inj] at hatop
                rw [hbpath, Element.at?, Option.some_inj] at hbtop
                exact ext_of_path (by rw [hatop, hbtop, helement]) (by rw [hapath, hbpath])
            | some q => simp [hp, hq] at hparents
        | some p =>
            cases hq : b.parent with
            | none => simp [hp, hq] at hparents
            | some q =>
                simp only [hp, hq] at hparents
                obtain rfl := (ih p hp).mp hparents
                rcases parent_eq_some hp with ⟨hatop, hapath⟩
                rcases parent_eq_some hq with ⟨hbtop, hbpath⟩
                exact ext_of_path (hatop.symm.trans hbtop) (by rw [hapath, hbpath, hindex])
      · rintro rfl
        refine ⟨⟨rfl, rfl⟩, ?_⟩
        cases hp : a.parent with
        | none => rfl
        | some p => exact (ih p hp).mpr rfl

theorem hash_eq_of_identical (h : a.identical b = true) : hash a = hash b := by
  rw [identical_eq, Bool.and_eq_true, Bool.and_eq_true, sharesElement, decide_eq_true_iff,
    beq_iff_eq] at h
  show mixHash (hash a.element.stamp) (hash a.index) = mixHash (hash b.element.stamp) (hash b.index)
  rw [h.1.1, h.1.2]

/-- Identity is a matter of places.  Whatever moves lead from the top of a tree to two nodes, these
are the same if and only if their places are, and the comparison of elements and indexes all the way
up finds out.  The places are those that the moves alone tell, and each node stands at its own. -/
theorem follow_positional (e : Element) {moves moves' : List Move} {a b : Node}
    (ha : Move.follow (detached e) moves = some a)
    (hb : Move.follow (detached e) moves' = some b) :
    ((Move.trail e [] moves).map List.reverse = some a.place ∧
      StandsAt (detached e) a a.place) ∧
      ((a = b ↔ a.place = b.place) ∧ (a.identical b = true ↔ a.place = b.place)) ∧
        (a.identical b = true → hash a = hash b) := by
  have hatop : a.top = e := top_of_follow ha
  have hbtop : b.top = e := top_of_follow hb
  have hsame : a = b ↔ a.place = b.place := by
    constructor
    · rintro rfl
      rfl
    · intro h
      exact ext_of_path (hatop.trans hbtop.symm) (List.reverse_inj.mp h)
  refine ⟨⟨?_, ?_⟩, ⟨hsame, identical_iff.trans hsame⟩, hash_eq_of_identical⟩
  · have htrail := follow_map_path (detached e) moves
    rw [ha] at htrail
    exact congrArg (Option.map List.reverse) htrail.symm
  · rw [← hatop]
    exact standsAt_place a

/-- One leaf twice in one branch, which itself is a child twice: four places for one element.  Two
ways lead to the last of them, and a third one to the leaf before it. -/
theorem follow_positional_shared :
    let tree : Supply Node := do
      let leaf ← Sample.leaf "a"
      let branch ← Sample.element "branch" "1" [leaf, leaf]
      Sample.element "root" "0" [branch, branch]
    let e := (tree.run 0).1.element
    let moves : List Move := [.child 1, .lastChild]
    let moves' : List Move :=
      [.firstChild, .followingSibling 0, .child 0, .followingSibling 0, .ancestor 1, .lastChild,
        .child 1, .precedingSibling 0, .parent, .root, .child 1, .child 1]
    let moves'' : List Move := [.child 0, .child 1, .root, .child 1, .child 0]
    ∃ a b c, Move.follow (detached e) moves = some a ∧ Move.follow (detached e) moves' = some b ∧
      Move.follow (detached e) moves'' = some c ∧ a.place = [1, 1] ∧ a = b ∧
        a.sharesElement c = true ∧ a.index ≠ c.index ∧ a.identical c = false := by
  intro tree e moves moves' moves''
  have hplaces : (Move.follow (detached e) moves).map Node.place = some [1, 1] ∧
      (Move.follow (detached e) moves').map Node.place = some [1, 1] ∧
      (Move.follow (detached e) moves'').map Node.place = some [1, 0] := by
    decide +kernel
  rcases hplaces with ⟨ha, hb, hc⟩
  rcases Option.map_eq_some_iff.mp ha with ⟨a, ha, haplace⟩
  rcases Option.map_eq_some_iff.mp hb with ⟨b, hb, hbplace⟩
  rcases Option.map_eq_some_iff.mp hc with ⟨c, hc, hcplace⟩
  have hshared : ((Move.follow (detached e) moves).bind fun a =>
      (Move.follow (detached e) moves'').map fun c => a.sharesElement c) = some true := by
    decide +kernel
  rw [ha, hc, Option.bind_some, Option.map_some, Option.some_inj] at hshared
  rcases follow_positional e ha hb with ⟨⟨_, hastands⟩, ⟨hab, _⟩, _⟩
  rcases follow_positional e hc ha with ⟨⟨_, hcstands⟩, _, _⟩
  rcases follow_positional e ha hc with ⟨_, ⟨_, hac⟩, _⟩
  refine ⟨a, b, c, ha, hb, hc, haplace, hab.mpr (haplace.trans hbplace.symm), hshared, ?_, ?_⟩
  · rw [hastands.index, hcstands.index, haplace, hcplace]
    decide
  · rw [haplace, hcplace] at hac
    exact Bool.eq_false_iff.mpr (hac.not.mpr (by decide))

end Node
end TreeQuery
