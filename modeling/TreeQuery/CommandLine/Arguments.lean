import TreeQuery.Numeric.Digits

/-!
# Arguments

A command line names a task and gives its queries.  Options for the arithmetic
and the settings file may stand before the task or after it; where both places
give one, the later place counts.  An option may be given once in each place.

After `--` every word is a query, whatever it looks like.
-/

namespace TreeQuery

-- Powers are those of the core library, whatever else is in scope.
attribute [local instance (high)] instPowNat

inductive Task where
  /-- Show the tokens of a query. -/
  | parse (query : String) (showBlanks : Bool)
  /-- Show the chain of a query. -/
  | explain (query : String)
  /-- Tell which queries compile. -/
  | check (queries : List String)
deriving DecidableEq, Repr

structure Invocation where
  task : Task
  /-- Numbers are doubles, whatever the settings say. -/
  double : Bool
  precision : Option Nat
  /-- The file that holds the settings. -/
  settingsFile : Option String
deriving DecidableEq, Repr

namespace Invocation

inductive Word where
  | escape
  /-- An option, with the value that follows an equals sign. -/
  | option (name : String) (value : Option String)
  | unknownOption
  | plain (text : String)
deriving DecidableEq, Repr

namespace Word

/-- An option without its hyphens, cut at the first equals sign. -/
def ofOption (chars : List Char) : Word :=
  let name := String.ofList (chars.takeWhile fun c => c != '=')
  match chars.dropWhile fun c => c != '=' with
  | [] => .option name none
  | _ :: value => .option name (some (String.ofList value))

/-- A single hyphen is a plain word. -/
def ofText (text : String) : Word :=
  match text.toList with
  | ['-', '-'] => .escape
  | '-' :: '-' :: rest => ofOption rest
  | '-' :: _ :: _ => .unknownOption
  | _ => .plain text

end Word

/-!
# One place of the command line

The words before the task make up one place and those after it another.
-/

structure Place where
  double : Bool
  showBlanks : Bool
  precision : Option Nat
  settingsFile : Option String
  values : List String

namespace Place

def empty : Place := ⟨false, false, none, none, []⟩

/-- A whole number of 32 bits; a sign may stand before it. -/
def precision? (text : String) : Option Nat :=
  let (negative, row) := match text.toList with
    | '+' :: row => (false, row)
    | '-' :: row => (true, row)
    | row => (false, row)
  let n := Digits.read row
  if !row.isEmpty && row.all Char.isDigit && n < 2 ^ (32 : Nat) && (!negative || n == 0) then some n
  else none

def switch? (p : Place) (name : String) (takesBlanks : Bool) : Option Place :=
  match name with
  | "double" => if p.double then none else some { p with double := true }
  | "whitespace" =>
      if p.showBlanks || !takesBlanks then none else some { p with showBlanks := true }
  | _ => none

def option? (p : Place) (name value : String) : Option Place :=
  match name with
  | "precision" =>
      if p.precision.isSome then none
      else (precision? value).map fun n => { p with precision := some n }
  | "config" =>
      if p.settingsFile.isSome || value.isEmpty then none
      else some { p with settingsFile := some value }
  | _ => none

def takesValue (name : String) : Bool :=
  name == "precision" || name == "config"

/-- Reads the words of a place.  If a plain word names a task, the place ends there, and the words
after it are given back; `stops` tells which words do. -/
def read (stops : String → Bool) (takesBlanks : Bool) :
    Place → List String → Option (Place × Option (String × List String))
  | p, [] => some (p, none)
  | p, word :: rest =>
      match Word.ofText word with
      | .escape => some ({ p with values := p.values ++ rest }, none)
      | .unknownOption => none
      | .plain text =>
          if stops text then some (p, some (text, rest))
          else read stops takesBlanks { p with values := p.values ++ [text] } rest
      | .option name (some value) => do
          let p ← p.option? name value
          read stops takesBlanks p rest
      | .option name none =>
          if takesValue name then
            match rest with
            | [] => none
            | next :: rest =>
                match Word.ofText next with
                | .plain value => do
                    let p ← p.option? name value
                    read stops takesBlanks p rest
                | _ => none
          else do
            let p ← p.switch? name takesBlanks
            read stops takesBlanks p rest

end Place

/-!
# The whole command line
-/

def taskNames : List String :=
  ["parse", "explain", "check"]

def task? (name : String) (place : Place) : Option Task :=
  match name, place.values with
  | "parse", [query] => some (.parse query place.showBlanks)
  | "explain", [query] => some (.explain query)
  | "check", query :: queries => some (.check (query :: queries))
  | _, _ => none

def ofArguments? (args : List String) : Option Invocation := do
  let (before, found) ← Place.read (taskNames.contains ·) false .empty args
  let (name, rest) ← found
  if !before.values.isEmpty then none
  let (after, _) ← Place.read (fun _ => false) (name == "parse") .empty rest
  let task ← task? name after
  return {
    task := task
    double := before.double || after.double
    precision := after.precision <|> before.precision
    settingsFile := after.settingsFile <|> before.settingsFile }

end Invocation
end TreeQuery
