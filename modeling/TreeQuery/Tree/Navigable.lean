/-!
# Navigable trees

A handle type is navigable when a node tells its name, its attributes, its own
value, its children and its parent.  The other moves follow from these; a
handle that knows a faster way may give its own.

Two measures make every walk finite: the height falls from a node to its
children and the depth falls from a node to its parent.
-/

namespace TreeQuery

class Navigable (N : Type) [DecidableEq N] where
  name : N → String
  attribute? : N → String → Option String
  /-- Scalar content of the node itself. -/
  value : N → Option String := fun _ => none
  children : N → List N
  /-- Absent for the top of a tree. -/
  parent : N → Option N
  height : N → Nat
  depth : N → Nat
  height_lt : ∀ {n c : N}, c ∈ children n → height c < height n
  depth_lt : ∀ {n p : N}, parent n = some p → depth p < depth n
  firstChild : N → Option N := fun n => (children n).head?
  lastChild : N → Option N := fun n => (children n).getLast?
  /-- Later siblings, nearest first. -/
  followingSiblings : N → List N := fun n =>
    match parent n with
    | none => []
    | some p => ((children p).dropWhile fun c => decide (c ≠ n)).drop 1
  /-- Earlier siblings, nearest first. -/
  precedingSiblings : N → List N := fun n =>
    match parent n with
    | none => []
    | some p => ((children p).takeWhile fun c => decide (c ≠ n)).reverse

namespace Navigable

variable {N : Type} [DecidableEq N] [Navigable N]

def childCount (n : N) : Nat :=
  (children n).length

/-!
# Upward

The parents of a node up to the top of its tree, nearest first.
-/

def climb : Nat → N → List N
  | 0, _ => []
  | steps + 1, n =>
      match parent n with
      | none => []
      | some p => p :: climb steps p

def ancestors (n : N) : List N :=
  climb (depth n) n

/-- The top of the tree: the last ancestor, or the node itself. -/
def root (n : N) : N :=
  (ancestors n).getLastD n

theorem climb_eq_ancestors (steps : Nat) (n : N) (h : depth n ≤ steps) :
    climb steps n = ancestors n := by
  unfold ancestors
  generalize hd : depth n = d at h
  induction d using Nat.strongRecOn generalizing n steps with
  | ind d ih =>
      cases hp : parent n with
      | none =>
          cases steps <;> cases d <;> simp [climb, hp]
      | some p =>
          have hlt := depth_lt hp
          obtain ⟨e, rfl⟩ : ∃ e, d = e + 1 := ⟨d - 1, by omega⟩
          obtain ⟨s, rfl⟩ : ∃ s, steps = s + 1 := ⟨steps - 1, by omega⟩
          simp only [climb, hp]
          rw [ih (depth p) (by omega) s p rfl (by omega),
            ih (depth p) (by omega) e p rfl (by omega)]

theorem ancestors_of_parent {n p : N} (h : parent n = some p) :
    ancestors n = p :: ancestors p := by
  have hlt := depth_lt h
  unfold ancestors
  obtain ⟨d, hd⟩ : ∃ d, depth n = d + 1 := ⟨depth n - 1, by omega⟩
  rw [hd]
  simp only [climb, h]
  rw [climb_eq_ancestors d p (by omega)]
  rfl

theorem ancestors_of_no_parent {n : N} (h : parent n = none) : ancestors n = [] := by
  unfold ancestors
  cases depth n <;> simp [climb, h]

end Navigable

/-!
# Downward

The nodes below a node, laid out as a tree of handles.
-/

inductive Rose (A : Type) where
  | node (label : A) (branches : List (Rose A))

namespace Rose

variable {A B : Type}

def label : Rose A → A
  | node a _ => a

def branches : Rose A → List (Rose A)
  | node _ ts => ts

mutual

/-- Labels from the top down, each subtree in turn. -/
def preorder : Rose A → List A
  | node a ts => a :: preorderAll ts

def preorderAll : List (Rose A) → List A
  | [] => []
  | t :: ts => preorder t ++ preorderAll ts

end

theorem preorderAll_map (f : B → Rose A) (bs : List B) :
    preorderAll (bs.map f) = bs.flatMap fun b => preorder (f b) := by
  induction bs with
  | nil => rfl
  | cons b rest ih => simp [preorderAll, ih]

end Rose

namespace Navigable

variable {N : Type} [DecidableEq N] [Navigable N]

def unfold : Nat → N → Rose N
  | 0, n => .node n []
  | levels + 1, n => .node n ((children n).map (unfold levels))

def subtree (n : N) : Rose N :=
  unfold (height n) n

theorem unfold_eq_subtree (levels : Nat) (n : N) (h : height n ≤ levels) :
    unfold levels n = subtree n := by
  unfold subtree
  generalize hh : height n = k at h
  induction k using Nat.strongRecOn generalizing n levels with
  | ind k ih =>
      have hbelow : ∀ c ∈ children n, height c < k := fun c hc => hh ▸ height_lt hc
      have hempty : k = 0 → children n = [] := by
        intro hk
        cases hc : children n with
        | nil => rfl
        | cons c cs =>
            have := hbelow c (by simp [hc])
            omega
      cases k with
      | zero =>
          cases levels with
          | zero => rfl
          | succ l => simp [Navigable.unfold, hempty rfl]
      | succ k =>
          obtain ⟨l, rfl⟩ : ∃ l, levels = l + 1 := ⟨levels - 1, by omega⟩
          simp only [Navigable.unfold]
          congr 1
          apply List.map_congr_left
          intro c hc
          have hlt := hbelow c hc
          rw [ih (height c) hlt l c rfl (by omega), ih (height c) hlt k c rfl (by omega)]

/-- A subtree is a node above the subtrees of its children. -/
theorem subtree_eq (n : N) : subtree n = .node n ((children n).map subtree) := by
  have h : unfold (height n + 1) n = subtree n := unfold_eq_subtree _ _ (by omega)
  rw [← h]
  simp only [Navigable.unfold]
  congr 1
  apply List.map_congr_left
  intro c hc
  exact unfold_eq_subtree _ _ (Nat.le_of_lt (height_lt hc))

/-- The node and everything below it, in document order. -/
def descendantsOrSelf (n : N) : List N :=
  (subtree n).preorder

theorem descendantsOrSelf_eq (n : N) :
    descendantsOrSelf n = n :: (children n).flatMap descendantsOrSelf := by
  unfold descendantsOrSelf
  rw [subtree_eq, Rose.preorder, Rose.preorderAll_map]

end Navigable
end TreeQuery
