import TreeQuery.Json.Basic

/-!
# Reading JSON

A reader takes a value from the front of a text and gives the rest.  Nesting is
not limited: every level takes a character, so that the length of the text
bounds the recursion.
-/

namespace TreeQuery
namespace JsonValue

def isBlank (c : Char) : Bool :=
  c == ' ' || c == '\t' || c == '\n' || c == '\r'

def skipBlanks (input : List Char) : List Char :=
  input.dropWhile isBlank

def afterWord? (word input : List Char) : Option (List Char) :=
  if word.isPrefixOf input then some (input.drop word.length) else none

/-!
# Numbers

A sign, a whole part without leading zeros, a fraction and an exponent.  Each
part is given with the characters that make it up.
-/

def digits? (input : List Char) : Option (List Char × List Char) :=
  match input.takeWhile Char.isDigit with
  | [] => none
  | row => some (row, input.dropWhile Char.isDigit)

def whole? : List Char → Option (List Char × List Char)
  | '0' :: rest => some (['0'], rest)
  | input => digits? input

def fraction? : List Char → Option (List Char × List Char)
  | '.' :: rest => (digits? rest).map fun (row, rest) => ('.' :: row, rest)
  | input => some ([], input)

def sign (signs : List Char) : List Char → List Char × List Char
  | c :: rest => if c ∈ signs then ([c], rest) else ([], c :: rest)
  | [] => ([], [])

def exponent? : List Char → Option (List Char × List Char)
  | [] => some ([], [])
  | c :: rest =>
      if c = 'e' ∨ c = 'E' then
        let (mark, rest) := sign ['+', '-'] rest
        (digits? rest).map fun (row, rest) => (c :: (mark ++ row), rest)
      else
        some ([], c :: rest)

def number? (input : List Char) : Option (List Char × List Char) := do
  let (minus, rest) := sign ['-'] input
  let (whole, rest) ← whole? rest
  let (fraction, rest) ← fraction? rest
  let (exponent, rest) ← exponent? rest
  return (minus ++ whole ++ fraction ++ exponent, rest)

/-!
# Strings

A string is read in two steps.  The first resolves the escapes one by one and
leaves the halves of surrogate pairs apart; the second joins the halves.
-/

inductive Piece where
  | char (c : Char)
  | half (unit : Nat)

namespace Piece

def ofUnit (unit : Nat) : Piece :=
  if 0xD800 ≤ unit ∧ unit ≤ 0xDFFF then .half unit else .char (Char.ofNat unit)

def join : List Piece → Option (List Char)
  | [] => some []
  | .char c :: rest => (join rest).map (c :: ·)
  | .half high :: .half low :: rest =>
      if high < 0xDC00 ∧ 0xDC00 ≤ low then
        (join rest).map (Char.ofNat (0x10000 + (high - 0xD800) * 0x400 + (low - 0xDC00)) :: ·)
      else
        none
  | .half _ :: _ => none

end Piece

def hexValue? (c : Char) : Option Nat :=
  if c.isDigit then some (c.toNat - 48)
  else if 'a' ≤ c ∧ c ≤ 'f' then some (c.toNat - 87)
  else if 'A' ≤ c ∧ c ≤ 'F' then some (c.toNat - 55)
  else none

def unit? (a b c d : Char) : Option Nat := do
  return (((← hexValue? a) * 16 + (← hexValue? b)) * 16 + (← hexValue? c)) * 16 + (← hexValue? d)

/-- The character that a backslash and one further character stand for. -/
def escape? : Char → Option Char
  | '"' => some '"'
  | '\\' => some '\\'
  | '/' => some '/'
  | 'b' => some '\x08'
  | 'f' => some '\x0c'
  | 'n' => some '\n'
  | 'r' => some '\r'
  | 't' => some '\t'
  | _ => none

/-- The rest of a string after its opening quote. -/
def pieces? : List Char → Option (List Piece × List Char)
  | [] => none
  | '"' :: rest => some ([], rest)
  | '\\' :: 'u' :: a :: b :: c :: d :: rest => do
      let unit ← unit? a b c d
      let (more, rest) ← pieces? rest
      return (.ofUnit unit :: more, rest)
  | '\\' :: mark :: rest => do
      let c ← escape? mark
      let (more, rest) ← pieces? rest
      return (.char c :: more, rest)
  | c :: rest =>
      if c = '\\' ∨ c.toNat < 0x20 then
        none
      else
        (pieces? rest).map fun (more, rest) => (.char c :: more, rest)

def text? (input : List Char) : Option (Option String × List Char) :=
  (pieces? input).map fun (pieces, rest) => ((Piece.join pieces).map String.ofList, rest)

/-!
# Values
-/

def scalar? (input : List Char) : Option (JsonValue × List Char) :=
  match afterWord? "null".toList input, afterWord? "true".toList input,
    afterWord? "false".toList input with
  | some rest, _, _ => some (.null, rest)
  | _, some rest, _ => some (.bool true, rest)
  | _, _, some rest => some (.bool false, rest)
  | none, none, none => (number? input).map fun (chars, rest) => (.number chars, rest)

mutual

/-- A value from the front of a text, within a depth. -/
def value? : Nat → List Char → Option (JsonValue × List Char)
  | 0, _ => none
  | depth + 1, input =>
      match skipBlanks input with
      | '"' :: rest => (text? rest).map fun (content, rest) => (.text content, rest)
      | '[' :: rest =>
          match skipBlanks rest with
          | ']' :: rest => some (.array [], rest)
          | rest => (items? depth rest).map fun (items, rest) => (.array items, rest)
      | '\x7b' :: rest =>
          match skipBlanks rest with
          | '\x7d' :: rest => some (.object [], rest)
          | rest => (members? depth rest).map fun (members, rest) => (.object members, rest)
      | rest => scalar? rest

def items? : Nat → List Char → Option (List JsonValue × List Char)
  | 0, _ => none
  | depth + 1, input => do
      let (item, rest) ← value? depth input
      match skipBlanks rest with
      | ',' :: rest =>
          let (more, rest) ← items? depth rest
          return (item :: more, rest)
      | ']' :: rest => return ([item], rest)
      | _ => none

def members? : Nat → List Char → Option (List (Option String × JsonValue) × List Char)
  | 0, _ => none
  | depth + 1, input => do
      match skipBlanks input with
      | '"' :: rest =>
          let (name, rest) ← text? rest
          match skipBlanks rest with
          | ':' :: rest =>
              let (value, rest) ← value? depth rest
              match skipBlanks rest with
              | ',' :: rest =>
                  let (more, rest) ← members? depth rest
                  return ((name, value) :: more, rest)
              | '\x7d' :: rest => return ([(name, value)], rest)
              | _ => none
          | _ => none
      | _ => none

end

def read? (text : String) : Option JsonValue := do
  let input := text.toList
  let (value, rest) ← value? (2 * input.length + 2) input
  if (skipBlanks rest).isEmpty then some value else none

end JsonValue
end TreeQuery
