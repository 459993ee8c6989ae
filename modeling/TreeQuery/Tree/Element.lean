import TreeQuery.Text.Quoted

/-!
# Elements

An element has a name, attributes in the order they were first set, an optional
text and children.  It is a value: a change makes a new element and leaves the
old one alone, and one element may be a child at many places.

Every element carries the stamp it was made with, so that a copy with the same
contents is told apart from the element itself.
-/

namespace TreeQuery

structure Element where
  stamp : Nat
  name : String
  attributes : List (String × String)
  text : Option String
  children : List Element

namespace Element

/-!
# Equality

Two elements are equal when they carry the same stamp and agree in everything
else.  The stamp is looked at first and the same object is recognised at once.
-/

mutual

def beq : Element → Element → Bool
  | ⟨i, n, a, t, c⟩, ⟨j, m, b, s, d⟩ =>
      decide (i = j) && decide (n = m) && decide (a = b) && decide (t = s) && beqAll c d

def beqAll : List Element → List Element → Bool
  | [], [] => true
  | x :: xs, y :: ys => beq x y && beqAll xs ys
  | _, _ => false

end

mutual

theorem eq_of_beq : ∀ {x y : Element}, beq x y = true → x = y
  | ⟨_, _, _, _, _⟩, ⟨_, _, _, _, _⟩, h => by
      simp only [beq, Bool.and_eq_true, decide_eq_true_eq] at h
      obtain ⟨⟨⟨⟨rfl, rfl⟩, rfl⟩, rfl⟩, h⟩ := h
      rw [eq_of_beqAll h]

theorem eq_of_beqAll : ∀ {xs ys : List Element}, beqAll xs ys = true → xs = ys
  | [], [], _ => rfl
  | x :: xs, y :: ys, h => by
      simp only [beqAll, Bool.and_eq_true] at h
      rw [eq_of_beq h.1, eq_of_beqAll h.2]
  | [], _ :: _, h => by simp [beqAll] at h
  | _ :: _, [], h => by simp [beqAll] at h

end

mutual

theorem beq_refl : ∀ x : Element, beq x x = true
  | ⟨_, _, _, _, c⟩ => by simp [beq, beqAll_refl c]

theorem beqAll_refl : ∀ xs : List Element, beqAll xs xs = true
  | [] => by simp [beqAll]
  | x :: xs => by simp [beqAll, beq_refl x, beqAll_refl xs]

end

theorem beq_iff_eq {x y : Element} : beq x y = true ↔ x = y :=
  ⟨eq_of_beq, fun h => h ▸ beq_refl x⟩

instance : DecidableEq Element := fun x y =>
  withPtrEqDecEq x y fun _ => decidable_of_iff (beq x y = true) beq_iff_eq

/-!
# Shape
-/

mutual

def height : Element → Nat
  | ⟨_, _, _, _, children⟩ => heightAll children

def heightAll : List Element → Nat
  | [] => 0
  | e :: es => max (height e + 1) (heightAll es)

end

theorem height_lt_of_mem_all {e : Element} {es : List Element} (h : e ∈ es) :
    e.height < heightAll es := by
  induction es with
  | nil => simp at h
  | cons x xs ih =>
      simp only [heightAll]
      rcases List.mem_cons.1 h with rfl | h
      · omega
      · have := ih h
        omega

theorem height_lt_of_mem {e c : Element} (h : c ∈ e.children) : c.height < e.height := by
  cases e
  simp only [height]
  exact height_lt_of_mem_all h

/-- The element at a place, given by child indexes, the last of them first. -/
def at? (top : Element) : List Nat → Option Element
  | [] => some top
  | i :: up => (top.at? up).bind fun e => e.children[i]?

def attribute? (e : Element) (key : String) : Option String :=
  e.attributes.lookup key

/-- Attributes with one value set: a known key keeps its place. -/
def setAttribute (attributes : List (String × String)) (key value : String) :
    List (String × String) :=
  match attributes with
  | [] => [(key, value)]
  | (k, v) :: rest => if k = key then (k, value) :: rest else (k, v) :: setAttribute rest key value

def sameAttributes (a b : List (String × String)) : Bool :=
  a.length == b.length && a.all fun (k, v) => b.lookup k == some v

mutual

/-- Agreement in names, attributes, texts and children, whatever the stamps. -/
def sameStructure : Element → Element → Bool
  | ⟨_, n, a, t, c⟩, ⟨_, m, b, s, d⟩ =>
      n == m && sameAttributes a b && t == s && sameStructureAll c d

def sameStructureAll : List Element → List Element → Bool
  | [], [] => true
  | x :: xs, y :: ys => sameStructure x y && sameStructureAll xs ys
  | _, _ => false

end

/-!
# Text

An element is written as its name, its attributes between braces, and its text
and children between parentheses.
-/

def attributesText (attributes : List (String × String)) : String :=
  if attributes.isEmpty then ""
  else
    "\x7b" ++ ", ".intercalate (attributes.map fun (k, v) => k ++ "=" ++ Quoted.quote v) ++ "\x7d"

mutual

def render : Element → String
  | ⟨_, name, attributes, text, children⟩ =>
      let parts := (text.map Quoted.quote).toList ++ renderAll children
      name ++ attributesText attributes ++
        (if parts.isEmpty then "" else "(" ++ ", ".intercalate parts ++ ")")

def renderAll : List Element → List String
  | [] => []
  | e :: es => render e :: renderAll es

end

end Element
end TreeQuery
