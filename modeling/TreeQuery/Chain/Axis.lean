import TreeQuery.Tree.Navigable

/-!
# Axes

An axis lists the candidates around a node.  They are handed one by one to a
visitor, which may go on, leave out what lies below a candidate, or stop.
Leaving out has an effect only on the axes that walk whole subtrees from the
top down.
-/

namespace TreeQuery

inductive Axis where
  | root
  | self
  | child
  | descendant
  | descendantOrSelf
  | parent
  | ancestor
  | ancestorOrSelf
  | firstChild
  | lastChild
  | followingSibling
  | precedingSibling
  | following
  | preceding
deriving DecidableEq, Repr

namespace Axis

def all : List Axis :=
  [.root, .self, .child, .descendant, .descendantOrSelf, .parent, .ancestor, .ancestorOrSelf,
    .firstChild, .lastChild, .followingSibling, .precedingSibling, .following, .preceding]

theorem mem_all (axis : Axis) : axis ∈ all := by
  cases axis <;> decide

/-- The word before `::`; the root axis has none. -/
def keyword? : Axis → Option String
  | .root => none
  | .self => some "self"
  | .child => some "child"
  | .descendant => some "descendant"
  | .descendantOrSelf => some "descendant-or-self"
  | .parent => some "parent"
  | .ancestor => some "ancestor"
  | .ancestorOrSelf => some "ancestor-or-self"
  | .firstChild => some "first-child"
  | .lastChild => some "last-child"
  | .followingSibling => some "following-sibling"
  | .precedingSibling => some "preceding-sibling"
  | .following => some "following"
  | .preceding => some "preceding"

/-- The mark as a query has it: the word with its colons, or the slash of the root. -/
def text (axis : Axis) : String :=
  match axis.keyword? with
  | some word => word ++ "::"
  | none => "/"

def fullText : Axis → String
  | .root => "Root"
  | .self => "SelfAxis"
  | .child => "Child"
  | .descendant => "Descendant"
  | .descendantOrSelf => "DescendantOrSelf"
  | .parent => "Parent"
  | .ancestor => "Ancestor"
  | .ancestorOrSelf => "AncestorOrSelf"
  | .firstChild => "FirstChild"
  | .lastChild => "LastChild"
  | .followingSibling => "FollowingSibling"
  | .precedingSibling => "PrecedingSibling"
  | .following => "Following"
  | .preceding => "Preceding"

end Axis

/-- What a visitor wants after a candidate. -/
inductive Flow where
  | onward
  /-- Leave out what lies below the candidate. -/
  | prune
  | stop
deriving DecidableEq, Repr

namespace Flow

variable {A : Type} {m : Type → Type} [Monad m]

/-- Visits a list up to the first stop; tells whether it stopped. -/
def each (visit : A → m Flow) : List A → m Bool
  | [] => pure false
  | a :: rest => do
      match ← visit a with
      | .stop => pure true
      | _ => each visit rest

variable {N : Type} [DecidableEq N] [Navigable N]

open Navigable

/-!
# Subtrees

The nodes that are still to be visited lie on a stack.  The children of a node
go on top of it, the first one uppermost.
-/

def pending (stack : List N) : Nat :=
  (stack.flatMap descendantsOrSelf).length

theorem pending_children_lt (n : N) (stack : List N) :
    pending (children n ++ stack) < pending (n :: stack) := by
  unfold pending
  rw [List.flatMap_append, List.flatMap_cons, descendantsOrSelf_eq n, List.length_append,
    List.length_append, List.length_cons]
  omega

theorem pending_lt (n : N) (stack : List N) : pending stack < pending (n :: stack) := by
  unfold pending
  rw [List.flatMap_cons, descendantsOrSelf_eq n, List.length_append, List.length_cons]
  omega

/-- Visits the subtrees on a stack from the top down, up to the first stop; tells whether it
stopped. -/
def subtrees (visit : N → m Flow) : List N → m Bool
  | [] => pure false
  | current :: stack => do
      match ← visit current with
      | .stop => pure true
      | .prune => subtrees visit stack
      | .onward => subtrees visit (children current ++ stack)
termination_by stack => pending stack
decreasing_by
  · exact pending_lt current stack
  · exact pending_children_lt current stack

/-- The nodes of the subtrees on a stack, in document order. -/
def preorder : List N → List N
  | [] => []
  | current :: stack => current :: preorder (children current ++ stack)
termination_by stack => pending stack
decreasing_by exact pending_children_lt current stack

/-!
# Levels

What lies before or after a node lies beside the node, beside its parent, and
so on up to the top.
-/

/-- Does something at a node and at each of its ancestors, up to the first stop; tells whether it
stopped. -/
def climbing (act : N → m Bool) (level : N) : m Bool := do
  if ← act level then
    pure true
  else
    match _h : parent level with
    | none => pure false
    | some p => climbing act p
termination_by depth level
decreasing_by exact depth_lt _h

/-- Everything after a node in document order, apart from what is below it. -/
def following (visit : N → m Flow) : N → m Bool :=
  climbing fun level => subtrees visit (followingSiblings level)

/-- Everything before a node in document order apart from its ancestors, the nearest first. -/
def preceding (visit : N → m Flow) : N → m Bool :=
  climbing fun level => (precedingSiblings level).anyM fun sibling =>
    Flow.each visit (preorder [sibling]).reverse

end Flow

namespace Axis

variable {N : Type} [DecidableEq N] [Navigable N] {m : Type → Type} [Monad m]

open Navigable

/-- Visits the candidates of an axis around a node, up to the first stop. -/
def traverse (axis : Axis) (n : N) (visit : N → m Flow) : m Unit := do
  let _ ← match axis with
    | .root => Flow.each visit [Navigable.root n]
    | .self => Flow.each visit [n]
    | .child => Flow.each visit (children n)
    | .descendant => Flow.subtrees visit (children n)
    | .descendantOrSelf => Flow.subtrees visit [n]
    | .parent => Flow.each visit (Navigable.parent n).toList
    | .ancestor => Flow.each visit (ancestors n)
    | .ancestorOrSelf => Flow.each visit (n :: ancestors n)
    | .firstChild => Flow.each visit (Navigable.firstChild n).toList
    | .lastChild => Flow.each visit (Navigable.lastChild n).toList
    | .followingSibling => Flow.each visit (followingSiblings n)
    | .precedingSibling => Flow.each visit (precedingSiblings n)
    | .following => Flow.following visit n
    | .preceding => Flow.preceding visit n
  return ()

end Axis
end TreeQuery
