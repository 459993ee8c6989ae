import TreeQuery.Tree.Navigable
import TreeQuery.Tree.Element

/-!
# Nodes

A node is a place in the tree below a top element.  The place is the list of
child indexes that leads there, the last of them first, and it says everything
about the node: two nodes of one tree are equal exactly when their places are,
even where the same element stands at both.
-/

namespace TreeQuery

structure Node where
  top : Element
  path : List Nat
  element : Element
  reached : top.at? path = some element

namespace Node

theorem ext_of_path {a b : Node} (htop : a.top = b.top) (hpath : a.path = b.path) : a = b := by
  obtain ⟨top, path, e, he⟩ := a
  obtain ⟨top', path', e', he'⟩ := b
  simp only at htop hpath
  subst htop hpath
  rw [he] at he'
  cases he'
  rfl

theorem eq_iff {a b : Node} : a = b ↔ a.path = b.path ∧ a.top = b.top :=
  ⟨fun h => h ▸ ⟨rfl, rfl⟩, fun h => ext_of_path h.2 h.1⟩

/-- Most nodes are told apart by the stamps of their elements alone. -/
theorem eq_iff_stamp {a b : Node} :
    a = b ↔ a.element.stamp = b.element.stamp ∧ a.path = b.path ∧ a.top = b.top :=
  ⟨fun h => h ▸ ⟨rfl, rfl, rfl⟩, fun h => ext_of_path h.2.2 h.2.1⟩

instance : DecidableEq Node := fun a b =>
  decidable_of_iff (a.element.stamp = b.element.stamp ∧ a.path = b.path ∧ a.top = b.top)
    eq_iff_stamp.symm

/-- An element on its own, the top of its tree. -/
def detached (e : Element) : Node :=
  ⟨e, [], e, rfl⟩

/-- The child indexes from the top down. -/
def place (n : Node) : List Nat :=
  n.path.reverse

/-- The position of a node among its siblings; the top has position zero. -/
def index (n : Node) : Nat :=
  n.path.headD 0

/-!
# Moves
-/

def child? (n : Node) (i : Nat) : Option Node :=
  match h : n.element.children[i]? with
  | none => none
  | some e => some ⟨n.top, i :: n.path, e, by simp [Element.at?, n.reached, h]⟩

def children (n : Node) : List Node :=
  (List.range n.element.children.length).filterMap n.child?

/-- The node whose child this one is. -/
def parent : Node → Option Node
  | ⟨_, [], _, _⟩ => none
  | ⟨top, _ :: up, _, h⟩ =>
      match hp : top.at? up with
      | none => absurd h (by simp [Element.at?, hp])
      | some e => some ⟨top, up, e, hp⟩

def followingSiblings (n : Node) : List Node :=
  match n.parent with
  | none => []
  | some p => p.children.drop (n.index + 1)

def precedingSiblings (n : Node) : List Node :=
  match n.parent with
  | none => []
  | some p => (p.children.take n.index).reverse

theorem child?_eq_some {n c : Node} {i : Nat} (h : n.child? i = some c) :
    c.top = n.top ∧ c.path = i :: n.path ∧ c.element ∈ n.element.children := by
  unfold child? at h
  split at h
  · cases h
  · rename_i e he
    cases h
    exact ⟨rfl, rfl, List.mem_of_getElem? he⟩

theorem mem_children {n c : Node} (h : c ∈ n.children) :
    c.top = n.top ∧ c.path.tail = n.path ∧ c.element ∈ n.element.children := by
  obtain ⟨i, _, hi⟩ := List.mem_filterMap.1 h
  obtain ⟨htop, hpath, hmem⟩ := child?_eq_some hi
  exact ⟨htop, by simp [hpath], hmem⟩

theorem parent_eq_some {n p : Node} (h : n.parent = some p) :
    p.top = n.top ∧ n.path = n.index :: p.path := by
  obtain ⟨top, path, e, he⟩ := n
  cases path with
  | nil => simp [parent] at h
  | cons i up =>
      simp only [parent] at h
      split at h
      · rename_i hp
        simp [Element.at?, hp] at he
      · cases h
        simp [index]

instance : Navigable Node where
  name n := n.element.name
  attribute? n key := n.element.attribute? key
  value n := n.element.text
  children := children
  parent := parent
  height n := n.element.height
  depth n := n.path.length
  height_lt h := Element.height_lt_of_mem (mem_children h).2.2
  depth_lt h := by simp [(parent_eq_some h).2]
  firstChild n := n.child? 0
  lastChild n :=
    if n.element.children.isEmpty then none else n.child? (n.element.children.length - 1)
  followingSiblings := followingSiblings
  precedingSiblings := precedingSiblings

/-- The node at a place below this one, child indexes from the top down. -/
def descend? (n : Node) : List Nat → Option Node
  | [] => some n
  | i :: rest => (n.child? i).bind fun c => c.descend? rest

def sharesElement (a b : Node) : Bool :=
  decide (a.element = b.element)

def sameStructure (a b : Node) : Bool :=
  a.element.sameStructure b.element

/-!
# Identity

A node may be told from another one without a look at its place: it is the same
when it stands for the same element at the same index, and its parent is the
same, all the way up.
-/

/-- The same elements at the same indexes, one after the other. -/
def identicalAll : List Node → List Node → Bool
  | [], [] => true
  | a :: as, b :: bs => a.sharesElement b && a.index == b.index && identicalAll as bs
  | _, _ => false

/-- Whether two nodes and all that is above them are the same. -/
def identical (a b : Node) : Bool :=
  identicalAll (a :: Navigable.ancestors a) (b :: Navigable.ancestors b)

/-- A hash takes in the element and the index and leaves the parents out. -/
instance : Hashable Node where
  hash n := mixHash (hash n.element.stamp) (hash n.index)

def render (n : Node) : String :=
  n.element.render

def fullText (n : Node) : String :=
  "ElementNode \x7b name: " ++ Quoted.quote n.element.name ++ ", index: " ++ toString n.index ++
    ", children: " ++ toString n.element.children.length ++ " \x7d"

/-- The first node in document order with this value of the attribute `id`. -/
def find? (n : Node) (id : String) : Option Node :=
  (Navigable.descendantsOrSelf n).find? fun m => m.element.attribute? "id" == some id

def idOrDash (n : Node) : String :=
  (n.element.attribute? "id").getD "-"

end Node

/-!
# Making elements

A supply hands out stamps, one for every element that is made.  What is made
from a node is the top of a tree of its own.
-/

abbrev Supply := StateM Nat

namespace Node

def fresh : Supply Nat :=
  modifyGet fun next => (next, next + 1)

def create (name : String) : Supply Node := do
  return detached ⟨← fresh, name, [], none, []⟩

/-- A copy with one change. -/
def modified (n : Node) (change : Element → Element) : Supply Node := do
  let stamp ← fresh
  return detached { change n.element with stamp := stamp }

def withAttribute (n : Node) (key value : String) : Supply Node :=
  n.modified fun e => { e with attributes := Element.setAttribute e.attributes key value }

def withText (n : Node) (text : String) : Supply Node :=
  n.modified fun e => { e with text := some text }

/-- A copy with more children at the end. -/
def withMoreChildren (n : Node) (more : List Node) : Supply Node :=
  n.modified fun e => { e with children := e.children ++ more.map (·.element) }

def withChild (n child : Node) : Supply Node :=
  n.withMoreChildren [child]

/-- A copy with these children in place of its own. -/
def withChildren (n : Node) (children : List Node) : Supply Node :=
  n.modified fun e => { e with children := children.map (·.element) }

def renamed (n : Node) (name : String) : Supply Node :=
  n.modified fun e => { e with name := name }

end Node

/-!
# Plain handles

A handle that knows only what every handle must know: no values and no short
cuts between siblings.
-/

structure PlainNode where
  node : Node
deriving DecidableEq

namespace PlainNode

instance : Navigable PlainNode where
  name h := Navigable.name h.node
  attribute? h := Navigable.attribute? h.node
  children h := h.node.children.map PlainNode.mk
  parent h := h.node.parent.map PlainNode.mk
  height h := Navigable.height h.node
  depth h := Navigable.depth h.node
  height_lt := by
    rintro ⟨n⟩ ⟨c⟩ h
    have hc : c ∈ n.children := by simpa using h
    exact Navigable.height_lt hc
  depth_lt := by
    rintro ⟨n⟩ ⟨p⟩ h
    have hp : n.parent = some p := by simpa using h
    exact Navigable.depth_lt hp

end PlainNode
end TreeQuery
