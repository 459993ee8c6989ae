import TreeQuery.Proofs.Tree.Lawful
import TreeQuery.Tree.Node

/-!
# Places

A node is a place in the tree of its top: the ancestors of a node stand at the
ends of its path, and its siblings at the paths that differ in the last step.
So nodes are lawful handles, and so are the plain ones around them.
-/

namespace TreeQuery

namespace Node

open Navigable

/-!
# Parents and children
-/

theorem parent_of_path {n : Node} {i : Nat} {up : List Nat} (h : n.path = i :: up) :
    ∃ p, n.parent = some p ∧ p.top = n.top ∧ p.path = up := by
  rcases n with ⟨top, path, e, he⟩
  simp only at h
  subst h
  cases hp : top.at? up with
  | none => simp [Element.at?, hp] at he
  | some above =>
      refine ⟨⟨top, up, above, hp⟩, ?_, rfl, rfl⟩
      simp only [parent]
      split
      · rename_i hnone
        rw [hp] at hnone
        cases hnone
      · rename_i e' he'
        rw [hp] at he'
        cases he'
        rfl

theorem parent_eq_none_iff {n : Node} : n.parent = none ↔ n.path = [] := by
  constructor
  · intro h
    cases hpath : n.path with
    | nil => rfl
    | cons i up =>
        rcases parent_of_path hpath with ⟨p, hp, _⟩
        rw [hp] at h
        cases h
  · intro h
    cases hp : n.parent with
    | none => rfl
    | some p =>
        have hcons := (parent_eq_some hp).2
        rw [h] at hcons
        cases hcons

theorem child?_of_path {n c : Node} {i : Nat} (htop : c.top = n.top)
    (hpath : c.path = i :: n.path) :
    n.child? i = some c := by
  have hreached := c.reached
  rw [htop, hpath, Element.at?, n.reached] at hreached
  simp only [Option.bind_some] at hreached
  unfold child?
  split
  · rename_i hnone
    rw [hnone] at hreached
    cases hreached
  · rename_i e he
    rw [he] at hreached
    cases hreached
    exact congrArg some (eq_iff.mpr ⟨hpath.symm, htop.symm⟩)

theorem mem_children_iff_path {n c : Node} :
    c ∈ n.children ↔ c.top = n.top ∧ ∃ i, c.path = i :: n.path := by
  constructor
  · intro h
    rcases List.mem_filterMap.mp h with ⟨i, _, hi⟩
    rcases child?_eq_some hi with ⟨htop, hpath, _⟩
    exact ⟨htop, i, hpath⟩
  · intro h
    rcases h with ⟨htop, i, hpath⟩
    have hchild := child?_of_path htop hpath
    apply List.mem_filterMap.mpr
    refine ⟨i, ?_, hchild⟩
    have hreached := c.reached
    rw [htop, hpath, Element.at?, n.reached] at hreached
    exact List.mem_range.mpr (List.getElem?_eq_some_iff.mp hreached).1

theorem mem_children_iff_parent {n c : Node} : c ∈ n.children ↔ c.parent = some n := by
  rw [mem_children_iff_path]
  constructor
  · intro h
    rcases h with ⟨htop, i, hpath⟩
    rcases parent_of_path hpath with ⟨p, hp, hptop, hppath⟩
    rw [hp, eq_iff.mpr ⟨hppath, hptop.trans htop⟩]
  · intro h
    rcases parent_eq_some h with ⟨htop, hpath⟩
    exact ⟨htop.symm, c.index, hpath⟩

theorem filterMap_range_getElem? {A : Type} (as : List A) :
    (List.range as.length).filterMap (as[·]?) = as := by
  induction as with
  | nil => rfl
  | cons a rest ih =>
      rw [List.length_cons, List.range_succ_eq_map, List.filterMap_cons, List.filterMap_map]
      simp only [List.getElem?_cons_zero]
      exact congrArg (a :: ·) ih

theorem child?_map_element (n : Node) (i : Nat) :
    (n.child? i).map (·.element) = n.element.children[i]? := by
  unfold child?
  split
  · rename_i hnone
    exact hnone.symm
  · rename_i e he
    exact he.symm

/-- The children of a node stand for the children of its element, in their order. -/
theorem children_map_element (n : Node) : n.children.map (·.element) = n.element.children := by
  unfold children
  rw [List.map_filterMap]
  simp only [child?_map_element]
  exact filterMap_range_getElem? n.element.children

theorem getElem?_filterMap_range {A : Type} {f : Nat → Option A} {count : Nat}
    (h : ∀ i < count, (f i).isSome) :
    ((List.range count).filterMap f).length = count ∧
      ∀ i < count, ((List.range count).filterMap f)[i]? = f i := by
  induction count with
  | zero => exact ⟨rfl, fun i hi => absurd hi (Nat.not_lt_zero i)⟩
  | succ count ih =>
      rcases ih (fun i hi => h i (Nat.lt_succ_of_lt hi)) with ⟨hlength, hat⟩
      rcases Option.isSome_iff_exists.mp (h count (Nat.lt_succ_self count)) with ⟨a, ha⟩
      rw [List.range_succ, List.filterMap_append, List.filterMap_cons_some ha, List.filterMap_nil]
      refine ⟨by simp [hlength], ?_⟩
      intro i hi
      rcases Nat.lt_succ_iff_lt_or_eq.mp hi with hlt | rfl
      · rw [List.getElem?_append_left (by rw [hlength]; exact hlt)]
        exact hat i hlt
      · rw [List.getElem?_append_right (Nat.le_of_eq hlength), hlength, Nat.sub_self, ha]
        rfl

theorem children_getElem? {n c : Node} {i : Nat} (h : n.child? i = some c) :
    n.children[i]? = some c := by
  have hsome : ∀ j < n.element.children.length, (n.child? j).isSome := by
    intro j hj
    rw [← Option.isSome_map, child?_map_element, List.getElem?_eq_getElem hj]
    rfl
  have hi : i < n.element.children.length := by
    have hmap := child?_map_element n i
    rw [h] at hmap
    exact (List.getElem?_eq_some_iff.mp hmap.symm).1
  rw [← h]
  exact (getElem?_filterMap_range hsome).2 i hi

theorem children_getElem?_eq (n : Node) (i : Nat) : n.children[i]? = n.child? i := by
  cases hc : n.child? i with
  | some c => exact children_getElem? hc
  | none =>
      have hmap := congrArg (·[i]?) (children_map_element n)
      have hat := child?_map_element n i
      rw [hc, Option.map_none] at hat
      simp only [List.getElem?_map, ← hat, Option.map_eq_none_iff] at hmap
      exact hmap

theorem mem_children_of_child? {n c : Node} {i : Nat} (h : n.child? i = some c) :
    c ∈ n.children :=
  List.mem_of_getElem? (children_getElem? h)

theorem nodup_children (n : Node) : n.children.Nodup := by
  apply List.Nodup.filterMap _ List.nodup_range
  intro i j c hi hj
  have hipath := (child?_eq_some hi).2.1
  have hjpath := (child?_eq_some hj).2.1
  rw [hipath] at hjpath
  exact (List.cons_eq_cons.mp hjpath).1

theorem children_eq_of_parent {n p : Node} (h : n.parent = some p) :
    p.children = n.precedingSiblings.reverse ++ n :: n.followingSiblings := by
  rcases parent_eq_some h with ⟨htop, hpath⟩
  have hat := children_getElem? (child?_of_path htop.symm hpath)
  rcases List.getElem?_eq_some_iff.mp hat with ⟨hlt, hn⟩
  have hsplit : p.children.drop n.index = n :: p.children.drop (n.index + 1) := by
    rw [List.drop_eq_getElem_cons hlt, hn]
  rw [precedingSiblings, followingSiblings, h]
  show _ = (p.children.take n.index).reverse.reverse ++ n :: p.children.drop (n.index + 1)
  rw [List.reverse_reverse, ← hsplit, List.take_append_drop]

instance : Lawful Node where
  mem_children_iff := mem_children_iff_parent
  nodup_children := nodup_children
  children_eq := children_eq_of_parent
  siblings_of_no_parent := by
    intro n h
    change n.parent = none at h
    show n.precedingSiblings = [] ∧ n.followingSiblings = []
    rw [precedingSiblings, followingSiblings, h]
    exact ⟨rfl, rfl⟩

instance : LawfulShortcuts Node where
  firstChild_eq n := by
    rw [List.head?_eq_getElem?]
    exact (n.children_getElem?_eq 0).symm
  lastChild_eq n := by
    have hlength : n.children.length = n.element.children.length := by
      rw [← children_map_element, List.length_map]
    show (if n.element.children.isEmpty then none else _) = n.children.getLast?
    cases hchildren : n.element.children with
    | nil =>
        rw [hchildren] at hlength
        rw [List.eq_nil_of_length_eq_zero hlength]
        rfl
    | cons first rest =>
        rw [List.getLast?_eq_getElem?, children_getElem?_eq, hlength, hchildren]
        rfl

/-!
# Above
-/

theorem mem_line_iff {m n : Node} :
    m ∈ n :: ancestors n ↔ m.top = n.top ∧ m.path <:+ n.path := by
  induction n using induction_parent with
  | h n ih =>
      cases hpath : n.path with
      | nil =>
          have hparent : Navigable.parent n = none := parent_eq_none_iff.mpr hpath
          rw [ancestors_of_no_parent hparent, List.mem_singleton, eq_iff, hpath,
            List.suffix_nil, and_comm]
      | cons i up =>
          rcases parent_of_path hpath with ⟨p, hp, htop, hup⟩
          rw [ancestors_of_parent hp, List.mem_cons, ih p hp, eq_iff, htop, hup, hpath,
            List.suffix_cons_iff]
          constructor
          · intro h
            rcases h with ⟨hm, hmtop⟩ | ⟨hmtop, hm⟩
            · exact ⟨hmtop, Or.inl hm⟩
            · exact ⟨hmtop, Or.inr hm⟩
          · intro h
            rcases h with ⟨hmtop, hm | hm⟩
            · exact Or.inl ⟨hm, hmtop⟩
            · exact Or.inr ⟨hmtop, hm⟩

end Node

/-!
# Plain handles
-/

namespace PlainNode

open Navigable

theorem mem_children_iff_parent {n c : PlainNode} :
    c ∈ children n ↔ Navigable.parent c = some n := by
  rcases n with ⟨n⟩
  rcases c with ⟨c⟩
  show PlainNode.mk c ∈ n.children.map PlainNode.mk ↔ c.parent.map PlainNode.mk = some ⟨n⟩
  simp [Node.mem_children_iff_parent]

instance : Lawful PlainNode where
  mem_children_iff := mem_children_iff_parent
  nodup_children n := (Node.nodup_children n.node).map fun _ _ h => congrArg PlainNode.node h
  children_eq := by
    intro n p h
    have hmem := mem_children_iff_parent.mpr h
    change n.node.parent.map PlainNode.mk = some p at h
    simp only [precedingSiblings, followingSiblings, h, List.reverse_reverse]
    exact takeWhile_ne_append_cons hmem
  siblings_of_no_parent := by
    intro n h
    change n.node.parent.map PlainNode.mk = none at h
    simp only [precedingSiblings, followingSiblings, h, and_self]

instance : LawfulShortcuts PlainNode where
  firstChild_eq _ := rfl
  lastChild_eq _ := rfl

end PlainNode
end TreeQuery
