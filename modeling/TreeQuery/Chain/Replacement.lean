import TreeQuery.Chain.Session
import TreeQuery.Tree.Node

/-!
# Replacing selected nodes

A chain selects nodes at or below a start node, and a mapper says what stands
in the place of each.  Only the selected nodes and the nodes between them and
the start are made anew, from the bottom up; everything else is handed back as
it is, so that the new tree shares it with the old one.

The mapper may keep a state of its own and may make elements.
-/

namespace TreeQuery

/-- A mapper and whatever runs beside it: a state of type `T` and a supply of stamps. -/
abbrev Replacing (T : Type) := StateT T Supply

namespace Node

/-- The nodes from `n` up to `top`, both included, if `top` is `n` or above it. -/
def upTo? (top n : Node) : Option (List Node) :=
  let line := n :: Navigable.ancestors n
  if top ∈ line then some (line.takeWhile (fun m => decide (m ≠ top)) ++ [top]) else none

end Node

/-- Which nodes at or below a start are concerned. -/
structure Plan where
  /-- To be given to the mapper. -/
  matched : List Node
  /-- The matched nodes and everything between them and the start. -/
  marked : List Node

namespace Plan

/-- The plan for the nodes that were selected from a start.  Nodes that are not in the subtree of
the start are left out. -/
def ofSelected (start : Node) (selected : List Node) : Plan where
  matched := selected.filter fun n => (start.upTo? n).isSome
  marked := selected.flatMap fun n => (start.upTo? n).getD []

/-!
# Rebuilding

The children come first, the earlier ones before the later ones.  A node whose
children stayed the same stays the same itself.
-/

variable {T : Type}

/-- The node with new children, or the node itself if nothing changed. -/
def withRebuilt (n : Node) (children rebuilt : List Node) : Replacing T Node :=
  if rebuilt = children then pure n else liftM (n.withChildren rebuilt)

mutual

def rebuild (plan : Plan) (mapper : Node → Replacing T Node) : Rose Node → Replacing T Node
  | .node n branches =>
      if n ∈ plan.marked then do
        let rebuilt ← rebuildAll plan mapper branches
        let updated ← withRebuilt n (branches.map Rose.label) rebuilt
        if n ∈ plan.matched then mapper updated else pure updated
      else
        pure n

def rebuildAll (plan : Plan) (mapper : Node → Replacing T Node) :
    List (Rose Node) → Replacing T (List Node)
  | [] => pure []
  | t :: ts => do
      let first ← rebuild plan mapper t
      let rest ← rebuildAll plan mapper ts
      return first :: rest

end

end Plan

namespace Chain

variable {S T : Type}

/-- Replaces every node that the chain selects at or below the start.  The chain has run to its
end before the mapper is called for the first time, so a failure means that it never was. -/
def replace (c : Chain) (g : Setting S Node) (caller : S) (mapper : Node → Replacing T Node)
    (start : Node) : Replacing T (Except SelectError Node) := do
  let (outcome, session) := c.run g caller start
  match outcome with
  | .error e => return .error e
  | .ok _ =>
      let plan := Plan.ofSelected start session.selected
      return .ok (← plan.rebuild mapper (Navigable.subtree start))

end Chain
end TreeQuery
