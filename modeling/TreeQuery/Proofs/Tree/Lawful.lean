import Mathlib.Data.List.Infix
import Mathlib.Data.List.Nodup
import Mathlib.Data.List.Perm.Basic
import TreeQuery.Tree.Navigable

/-!
# Trees whose moves fit together

Handles may give their own moves, so nothing yet says that a step down is
undone by a step up, or that the siblings are the other children of the parent.
Handles of which this is true are lawful, and everything about above and below
follows from it.
-/

namespace TreeQuery

theorem takeWhile_ne_append_cons {A : Type} [DecidableEq A] {as : List A} {a : A} (h : a ∈ as) :
    as = as.takeWhile (fun b => decide (b ≠ a)) ++
      a :: (as.dropWhile fun b => decide (b ≠ a)).drop 1 := by
  induction as with
  | nil => cases h
  | cons b rest ih =>
      by_cases hb : b = a
      · subst hb
        simp
      · have hmem : a ∈ rest := (List.mem_cons.mp h).resolve_left (Ne.symm hb)
        rw [List.takeWhile_cons_of_pos (by simpa using hb),
          List.dropWhile_cons_of_pos (by simpa using hb), List.cons_append, ← ih hmem]

namespace Rose

variable {A B : Type}

mutual

/-- Labels from the bottom up: what is below a node comes first, the earlier branches before the
later ones. -/
def postorder : Rose A → List A
  | node a ts => postorderAll ts ++ [a]

def postorderAll : List (Rose A) → List A
  | [] => []
  | t :: ts => postorder t ++ postorderAll ts

end

theorem postorderAll_map (f : B → Rose A) (bs : List B) :
    postorderAll (bs.map f) = bs.flatMap fun b => postorder (f b) := by
  induction bs with
  | nil => rfl
  | cons b rest ih => simp [postorderAll, ih]

end Rose

namespace Navigable

variable {N : Type} [DecidableEq N] [Navigable N]

theorem induction_children {P : N → Prop} (h : ∀ n, (∀ c ∈ children n, P c) → P n) (n : N) :
    P n := by
  generalize hheight : height n = k
  induction k using Nat.strongRecOn generalizing n with
  | ind k ih =>
      apply h
      intro c hc
      exact ih (height c) (hheight ▸ height_lt hc) c rfl

theorem induction_parent {P : N → Prop} (h : ∀ n, (∀ p, parent n = some p → P p) → P n) (n : N) :
    P n := by
  generalize hdepth : depth n = k
  induction k using Nat.strongRecOn generalizing n with
  | ind k ih =>
      apply h
      intro p hp
      exact ih (depth p) (hdepth ▸ depth_lt hp) p rfl

def postorder (n : N) : List N :=
  (subtree n).postorder

theorem postorder_eq (n : N) : postorder n = (children n).flatMap postorder ++ [n] := by
  unfold postorder
  rw [subtree_eq, Rose.postorder, Rose.postorderAll_map]

theorem postorder_perm (n : N) : (postorder n).Perm (descendantsOrSelf n) := by
  induction n using induction_children with
  | h n ih =>
      rw [postorder_eq, descendantsOrSelf_eq]
      exact (List.perm_append_singleton n _).trans (.cons n (List.Perm.flatMap_left _ ih))

theorem mem_postorder_iff {m n : N} : m ∈ postorder n ↔ m ∈ descendantsOrSelf n :=
  (postorder_perm n).mem_iff

@[simp] theorem label_subtree (n : N) : (subtree n).label = n := by
  rw [subtree_eq]
  rfl

theorem map_label_subtree (ns : List N) : (ns.map subtree).map Rose.label = ns := by
  rw [List.map_map]
  exact (List.map_congr_left fun n _ => label_subtree n).trans (List.map_id ns)

/-!
# Lines

A node and its ancestors make up the line of the node.
-/

variable {m n c d : N}

theorem line_suffix_of_mem (h : m ∈ n :: ancestors n) :
    (m :: ancestors m) <:+ (n :: ancestors n) := by
  induction n using induction_parent with
  | h n ih =>
      rcases List.mem_cons.mp h with rfl | habove
      · exact List.suffix_refl _
      · cases hp : parent n with
        | none =>
            rw [ancestors_of_no_parent hp] at habove
            cases habove
        | some p =>
            rw [ancestors_of_parent hp] at habove ⊢
            exact (ih p hp habove).trans (List.suffix_cons n _)

theorem depth_lt_of_mem_ancestors (h : m ∈ ancestors n) : depth m < depth n := by
  induction n using induction_parent with
  | h n ih =>
      cases hp : parent n with
      | none =>
          rw [ancestors_of_no_parent hp] at h
          cases h
      | some p =>
          have hlt := depth_lt hp
          rw [ancestors_of_parent hp] at h
          rcases List.mem_cons.mp h with rfl | habove
          · exact hlt
          · exact Nat.lt_trans (ih p hp habove) hlt

theorem depth_le_of_mem_line (h : m ∈ n :: ancestors n) : depth m ≤ depth n := by
  rcases List.mem_cons.mp h with rfl | habove
  · exact Nat.le_refl _
  · exact Nat.le_of_lt (depth_lt_of_mem_ancestors habove)

theorem mem_ancestors_of_parent (hc : c ∈ m :: ancestors m) (hp : parent c = some n) :
    n ∈ ancestors m := by
  have hn : n ∈ ancestors c := by
    rw [ancestors_of_parent hp]
    exact List.mem_cons_self
  rcases List.suffix_cons_iff.mp (line_suffix_of_mem hc) with hself | habove
  · rw [← (List.cons.inj hself).2]
    exact hn
  · exact habove.subset (List.mem_cons_of_mem c hn)

theorem eq_of_mem_line (hc : c ∈ m :: ancestors m) (hd : d ∈ m :: ancestors m)
    (hcp : parent c = some n) (hdp : parent d = some n) : c = d := by
  -- On one line, only one node has a given parent.
  have hline : ∀ {c d : N}, parent c = some n → parent d = some n →
      (c :: ancestors c) <:+ (d :: ancestors d) → c = d := by
    intro c d hcp hdp hsuffix
    rcases List.mem_cons.mp (hsuffix.subset List.mem_cons_self) with rfl | habove
    · rfl
    · rw [ancestors_of_parent hdp] at habove
      have hle := depth_le_of_mem_line habove
      have hlt := depth_lt hcp
      omega
  rcases List.suffix_or_suffix_of_suffix (line_suffix_of_mem hc) (line_suffix_of_mem hd) with h | h
  · exact hline hcp hdp h
  · exact (hline hdp hcp h).symm

/-!
# Lawful handles
-/

/-- Up undoes down, no child stands twice, and the siblings are the other children of the
parent. -/
class Lawful (N : Type) [DecidableEq N] [Navigable N] : Prop where
  mem_children_iff : ∀ {n c : N}, c ∈ children n ↔ Navigable.parent c = some n
  nodup_children : ∀ n : N, (children n).Nodup
  children_eq : ∀ {n p : N}, Navigable.parent n = some p →
    children p = (precedingSiblings n).reverse ++ n :: followingSiblings n
  siblings_of_no_parent : ∀ {n : N}, Navigable.parent n = none →
    precedingSiblings n = [] ∧ followingSiblings n = []

/-- The short cuts to the first and to the last child lead there. -/
class LawfulShortcuts (N : Type) [DecidableEq N] [Navigable N] : Prop extends Lawful N where
  firstChild_eq : ∀ n : N, Navigable.firstChild n = (children n).head?
  lastChild_eq : ∀ n : N, Navigable.lastChild n = (children n).getLast?

/-!
# Below
-/

theorem self_mem_descendantsOrSelf (n : N) : n ∈ descendantsOrSelf n := by
  rw [descendantsOrSelf_eq]
  exact List.mem_cons_self

theorem descendantsOrSelf_child_subset (hc : c ∈ children n) :
    descendantsOrSelf c ⊆ descendantsOrSelf n := by
  intro m hm
  rw [descendantsOrSelf_eq n]
  exact List.mem_cons_of_mem n (List.mem_flatMap.mpr ⟨c, hc, hm⟩)

theorem mem_descendantsOrSelf_of_child (h : m ∈ descendantsOrSelf n) (hc : c ∈ children m) :
    c ∈ descendantsOrSelf n := by
  induction n using induction_children with
  | h n ih =>
      rw [descendantsOrSelf_eq] at h
      rcases List.mem_cons.mp h with rfl | hbelow
      · exact descendantsOrSelf_child_subset hc (self_mem_descendantsOrSelf c)
      · rcases List.mem_flatMap.mp hbelow with ⟨d, hd, hm⟩
        exact descendantsOrSelf_child_subset hd (ih d hd hm)

section

variable [Lawful N]

/-- A node lies in the subtree of those it has above it, itself among them. -/
theorem mem_descendantsOrSelf_iff_mem_line : m ∈ descendantsOrSelf n ↔ n ∈ m :: ancestors m := by
  constructor
  · intro h
    induction n using induction_children with
    | h n ih =>
        rw [descendantsOrSelf_eq] at h
        rcases List.mem_cons.mp h with rfl | hbelow
        · exact List.mem_cons_self
        · rcases List.mem_flatMap.mp hbelow with ⟨c, hc, hm⟩
          exact List.mem_cons_of_mem m
            (mem_ancestors_of_parent (ih c hc hm) (Lawful.mem_children_iff.mp hc))
  · intro h
    induction m using induction_parent with
    | h m ih =>
        rcases List.mem_cons.mp h with rfl | habove
        · exact self_mem_descendantsOrSelf n
        · cases hp : parent m with
          | none =>
              rw [ancestors_of_no_parent hp] at habove
              cases habove
          | some p =>
              rw [ancestors_of_parent hp] at habove
              exact mem_descendantsOrSelf_of_child (ih p hp habove)
                (Lawful.mem_children_iff.mpr hp)

theorem eq_of_mem_descendantsOrSelf (hc : c ∈ children n) (hd : d ∈ children n)
    (hmc : m ∈ descendantsOrSelf c) (hmd : m ∈ descendantsOrSelf d) : c = d :=
  eq_of_mem_line (mem_descendantsOrSelf_iff_mem_line.mp hmc)
    (mem_descendantsOrSelf_iff_mem_line.mp hmd) (Lawful.mem_children_iff.mp hc)
    (Lawful.mem_children_iff.mp hd)

theorem notMem_descendantsOrSelf_child (hc : c ∈ children n) : n ∉ descendantsOrSelf c := by
  intro h
  have hle := depth_le_of_mem_line (mem_descendantsOrSelf_iff_mem_line.mp h)
  have hlt := depth_lt (Lawful.mem_children_iff.mp hc)
  omega

/-- No node stands twice in the subtree of a node. -/
theorem nodup_descendantsOrSelf (n : N) : (descendantsOrSelf n).Nodup := by
  induction n using induction_children with
  | h n ih =>
      rw [descendantsOrSelf_eq, List.nodup_cons, List.nodup_flatMap]
      refine ⟨?_, ih, ?_⟩
      · intro hn
        rcases List.mem_flatMap.mp hn with ⟨c, hc, hnc⟩
        exact notMem_descendantsOrSelf_child hc hnc
      · apply (Lawful.nodup_children n).pairwise_of_forall_ne
        intro c hc d hd hne m hmc hmd
        exact hne (eq_of_mem_descendantsOrSelf hc hd hmc hmd)

theorem nodup_postorder (n : N) : (postorder n).Nodup :=
  (postorder_perm n).nodup_iff.mpr (nodup_descendantsOrSelf n)

end

end Navigable
end TreeQuery
