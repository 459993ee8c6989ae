import TreeQuery.Text.CaseTable

/-!
# Letter case

Upper-casing and lower-casing of text by the full Unicode mappings, in which a
character may become several.  Capital sigma has two lower-case forms: the
final one ends a word.
-/

namespace TreeQuery
namespace Case

def shifted (distance : Int) (c : Char) : Char :=
  Char.ofNat (c.toNat + distance).toNat

/-- The image of a character under a mapping: its run's shift, its listed characters, or
itself. -/
def image (shifts : List CaseTable.Shift) (many : List (Nat × List Nat)) (c : Char) : List Char :=
  match shifts.find? (·.run.contains c) with
  | some shift => [shifted shift.distance c]
  | none =>
      match many.lookup c.toNat with
      | some row => row.map Char.ofNat
      | none => [c]

def upperChar (c : Char) : List Char :=
  image CaseTable.toUpper CaseTable.toUpperMany c

def lowerChar (c : Char) : List Char :=
  image CaseTable.toLower CaseTable.toLowerMany c

def upper (text : List Char) : List Char :=
  text.flatMap upperChar

/-- Whether the first character that is not ignored by casing is a letter with case. -/
def meetsCased (text : List Char) : Bool :=
  match text.dropWhile (inTable CaseTable.caseIgnorable) with
  | [] => false
  | c :: _ => inTable CaseTable.cased c

def finalSigma : Char := 'ς'

/-- Lower-cases the rest of a text whose earlier characters, last first, are given. -/
def lowerAfter : List Char → List Char → List Char
  | _, [] => []
  | before, 'Σ' :: rest =>
      (if meetsCased before && !meetsCased rest then finalSigma else 'σ') ::
        lowerAfter ('Σ' :: before) rest
  | before, c :: rest => lowerChar c ++ lowerAfter (c :: before) rest

def lower (text : List Char) : List Char :=
  lowerAfter [] text

/-- Whether a character has the property Uppercase. -/
def isUppercase (c : Char) : Bool :=
  inTable CaseTable.uppercase c

/-!
# ASCII letters

Keywords and folded names ignore case among ASCII letters only.
-/

/-- The text with ASCII capitals made small. -/
def asciiLower (text : String) : String :=
  String.ofList (text.toList.map Char.toLower)

end Case
end TreeQuery
