import TreeQuery.Parser.Failure
import TreeQuery.Token.Operator

/-!
# Readers

A reader takes characters from the front of a text.  It may miss, in which case
another reader can be tried at the same place, or halt, which ends the reading
of the whole text.

Beside its outcome every reader reports its frontier, the furthest place at
which something was looked for in vain.  The frontier never changes what is
read; it is what an error message is made of.
-/

namespace TreeQuery

/-- The number of characters left at the furthest miss, and what was looked for there.  Nothing
was missed when the list is empty. -/
structure Frontier where
  remaining : Nat
  expected : List Production
deriving DecidableEq, Repr

namespace Frontier

def none : Frontier := ⟨0, []⟩

/-- The further of two frontiers, or both together at the same place. -/
def join (a b : Frontier) : Frontier :=
  if a.expected.isEmpty then b
  else if b.expected.isEmpty then a
  else if a.remaining < b.remaining then a
  else if b.remaining < a.remaining then b
  else ⟨a.remaining, a.expected ++ b.expected.filter (!a.expected.contains ·)⟩

end Frontier

/-- Why reading ended for good, with the characters left at that place. -/
inductive Halt where
  | tooDeep (rest : List Char)
  | badNumber (rest : List Char) (error : NumberError)
deriving DecidableEq, Repr

inductive Outcome (A : Type) where
  | done (value : A) (rest : List Char)
  | miss
  | halt (reason : Halt)
deriving Repr

structure Reply (A : Type) where
  outcome : Outcome A
  frontier : Frontier
deriving Repr

def Parser (A : Type) : Type :=
  List Char → Reply A

namespace Parser

variable {A B : Type}

protected def pure (a : A) : Parser A := fun input =>
  ⟨.done a input, .none⟩

protected def bind (p : Parser A) (f : A → Parser B) : Parser B := fun input =>
  match p input with
  | ⟨.done a rest, seen⟩ =>
      let next := f a rest
      ⟨next.outcome, seen.join next.frontier⟩
  | ⟨.miss, seen⟩ => ⟨.miss, seen⟩
  | ⟨.halt reason, seen⟩ => ⟨.halt reason, seen⟩

instance : Monad Parser where
  pure := Parser.pure
  bind := Parser.bind

def fail (production : Production) : Parser A := fun input =>
  ⟨.miss, ⟨input.length, [production]⟩⟩

def orElse (p q : Parser A) : Parser A := fun input =>
  match p input with
  | ⟨.miss, seen⟩ =>
      let next := q input
      ⟨next.outcome, seen.join next.frontier⟩
  | reply => reply

def option (p : Parser A) : Parser (Option A) := fun input =>
  match p input with
  | ⟨.done a rest, seen⟩ => ⟨.done (some a) rest, seen⟩
  | ⟨.miss, seen⟩ => ⟨.done none input, seen⟩
  | ⟨.halt reason, seen⟩ => ⟨.halt reason, seen⟩

/-- Reads again and again until the reader misses, at most `fuel` times. -/
def manyWithin (p : Parser A) : Nat → Parser (List A)
  | 0 => Parser.pure []
  | fuel + 1 => fun input =>
      match p input with
      | ⟨.done a rest, seen⟩ =>
          let next := (manyWithin p fuel).bind (fun more => Parser.pure (a :: more)) rest
          ⟨next.outcome, seen.join next.frontier⟩
      | ⟨.miss, seen⟩ => ⟨.done [] input, seen⟩
      | ⟨.halt reason, seen⟩ => ⟨.halt reason, seen⟩

/-- Reads again and again until the reader misses.  The reader takes at least one character each
time, so that the length of the text bounds the number of rounds. -/
def many (p : Parser A) : Parser (List A) := fun input =>
  manyWithin p (input.length + 1) input

/-- Takes what a scanner of the text recognises, a part and the rest, or notes what was looked
for. -/
def scan (production : Production) (scanner : List Char → Option (List Char × List Char)) :
    Parser (List Char) := fun input =>
  match scanner input with
  | some (taken, rest) => ⟨.done taken rest, .none⟩
  | none => ⟨.miss, ⟨input.length, [production]⟩⟩

/-- Whether the text goes on with these characters. -/
def ahead (chars : List Char) : Parser Bool := fun input =>
  ⟨.done (chars.isPrefixOf input) input, .none⟩

def halt (reason : List Char → Halt) : Parser A := fun input =>
  ⟨.halt (reason input), .none⟩

end Parser

/-!
# Scanners
-/

namespace Scan

def exactly (word : List Char) (input : List Char) : Option (List Char × List Char) :=
  if word.isPrefixOf input then some (word, input.drop word.length) else none

/-- These characters, letters in either case, as they stand in the text. -/
def ignoringCase (word : List Char) (input : List Char) : Option (List Char × List Char) :=
  let taken := input.take word.length
  if taken.map Char.toLower = word then some (taken, input.drop word.length) else none

/-- The longest run of characters of a class. -/
def run (member : Char → Bool) (input : List Char) : List Char × List Char :=
  (input.takeWhile member, input.dropWhile member)

/-- The longest run of characters of a class, of at least one. -/
def run1 (member : Char → Bool) (input : List Char) : Option (List Char × List Char) :=
  match input.takeWhile member with
  | [] => none
  | taken => some (taken, input.dropWhile member)

def isNameStart (c : Char) : Bool :=
  c.isAlpha || c == '_'

def isNameChar (c : Char) : Bool :=
  c.isAlphanum || c == '_' || c == '-' || c == '.'

def isSpace (c : Char) : Bool :=
  c == ' ' || c == '\t' || c == '\r' || c == '\n'

/-- A letter or underscore and then letters, digits, underscores, dashes and points. -/
def name (input : List Char) : Option (List Char × List Char) :=
  match input with
  | c :: _ => if isNameStart c then some (run isNameChar input) else none
  | [] => none

/-- Digits with at most one point, which digits must follow where none stand before it. -/
def number (input : List Char) : Option (List Char × List Char) :=
  let (whole, rest) := run Literal.isDigit input
  match whole, rest with
  | [], '.' :: rest =>
      (run1 Literal.isDigit rest).map fun (fraction, rest) => ('.' :: fraction, rest)
  | [], _ => none
  | whole, '.' :: rest =>
      let (fraction, rest) := run Literal.isDigit rest
      some (whole ++ '.' :: fraction, rest)
  | whole, rest => some (whole, rest)

/-- A quote, anything but that quote, and the quote again. -/
def quoted (input : List Char) : Option (List Char × List Char) :=
  match input with
  | [] => none
  | q :: rest =>
      if q == '\'' || q == '"' then
        let (value, rest) := run (· != q) rest
        match rest with
        | [] => none
        | _ :: rest => some (q :: (value ++ [q]), rest)
      else
        none

/-- An operator as it is spelled; a word must not run on into a name. -/
def operator (op : Operator) (input : List Char) : Option (List Char × List Char) :=
  if op.isWord then
    match ignoringCase op.spelling.toList input with
    | some (taken, rest) => if (rest.takeWhile isNameChar).isEmpty then some (taken, rest) else none
    | none => none
  else
    exactly op.spelling.toList input

end Scan
end TreeQuery
