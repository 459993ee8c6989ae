import TreeQuery.Tree.Node

/-!
# Sample trees
-/

namespace TreeQuery
namespace Sample

def element (name : String) (id : String) (children : List Node) : Supply Node := do
  let bare ← Node.create name
  let named ← bare.withAttribute "id" id
  named.withMoreChildren children

def leaf (id : String) : Supply Node :=
  element "leaf" id []

/-- Three branches with leaves and a twig. -/
def forest : Supply Node := do
  let first ← element "branch" "1" [← leaf "a", ← leaf "b"]
  let twig ← element "twig" "d" [← leaf "e"]
  let second ← element "branch" "2" [← leaf "c", twig, ← leaf "f"]
  let third ← element "branch" "3" [← leaf "g"]
  let root ← Node.create "root"
  root.withMoreChildren [first, second, third]

/-- A root with childless children `child1`, `child2` and so on. -/
def flat (count : Nat) : Supply Node := do
  let children ← (List.range count).mapM fun i => Node.create ("child" ++ toString (i + 1))
  let root ← Node.create "root"
  root.withMoreChildren children

mutual

/-- A balanced tree whose nodes are numbered in document order from `next` on, with the number
after the last. -/
def balancedFrom (fanOut : Nat) : Nat → Nat → Supply (Node × Nat)
  | 0, next => do
      let bare ← Node.create "leaf"
      return (← bare.withAttribute "n" (toString next), next + 1)
  | levels + 1, next => do
      let bare ← Node.create "node"
      let numbered ← bare.withAttribute "n" (toString next)
      let (children, after) ← balancedChildren fanOut levels fanOut (next + 1)
      return (← numbered.withMoreChildren children, after)

def balancedChildren (fanOut levels : Nat) : Nat → Nat → Supply (List Node × Nat)
  | 0, next => return ([], next)
  | count + 1, next => do
      let (child, after) ← balancedFrom fanOut levels next
      let (rest, last) ← balancedChildren fanOut levels count after
      return (child :: rest, last)

end

def balanced (levels fanOut : Nat) : Supply Node := do
  return (← balancedFrom fanOut levels 1).1

end Sample
end TreeQuery
