import TreeQuery.CommandLine.Arguments
import TreeQuery.Query.Basic
import TreeQuery.Token.Walk
import TreeQuery.Tree.Node

/-!
# Reports

What an invocation prints and the code it ends with: zero if all went well, one
if a query is at fault, two if the command line or the settings are.
-/

namespace TreeQuery

structure Report where
  code : Nat
  output : String
  errors : String
deriving DecidableEq, Repr

namespace Report

def success (output : String) : Report := ⟨0, output, ""⟩

def failure (message : String) : Report := ⟨1, "", "error: " ++ message ++ "\n"⟩

def misuse (message : String) : Report := ⟨2, "", "error: " ++ message ++ "\n"⟩

end Report

namespace Invocation

def settings (inv : Invocation) (base : QuerySettings) : QuerySettings :=
  let context := base.arithmetic.context
  { base with
    arithmetic := {
      representation := if inv.double then .double else base.arithmetic.representation
      context := { context with precision := inv.precision.getD context.precision } } }

def compile (query : String) (settings : QuerySettings) : Except QueryError (Query Node) :=
  Query.compile query settings id Registry.builtins

/-- A number with blanks before it, at least three characters wide. -/
def stepNumber (i : Nat) : String :=
  let digits := Digits.write i
  String.ofList (List.replicate (3 - digits.length) ' ' ++ digits)

def explanation (c : Chain) : String :=
  let lines := c.steps.mapIdx fun i step =>
    stepNumber i ++ "  " ++ step.fullText Quoted.quote ++ "\n"
  c.displayText ++ "\n" ++ String.join lines

def verdict (settings : QuerySettings) (query : String) : Bool × String :=
  match compile query settings with
  | .ok _ => (true, "ok     " ++ query ++ "\n")
  | .error e => (false, "error  " ++ query ++ "\n       " ++ e.message ++ "\n")

def perform (settings : QuerySettings) : Task → Report
  | .parse query showBlanks =>
      match Token.parse query settings.arithmetic with
      | .ok token => .success (token.outline showBlanks)
      | .error e => .failure e.message
  | .explain query =>
      match compile query settings with
      | .ok q => .success (explanation q.chain)
      | .error e => .failure e.message
  | .check queries =>
      let verdicts := queries.map (verdict settings)
      ⟨if verdicts.all (·.1) then 0 else 1, String.join (verdicts.map (·.2)), ""⟩

/-- Reads the settings, if there are any to read, and carries the task out.  The text of a file
that cannot be read is absent. -/
def report (inv : Invocation) (textOf : String → Option String) : Report :=
  match inv.settingsFile with
  | none => perform (inv.settings .standard) inv.task
  | some file =>
      match textOf file with
      | none => .misuse (file ++ ": the file cannot be read")
      | some text =>
          match QuerySettings.read? text with
          | none => .misuse (file ++ ": not a query configuration")
          | some base => perform (inv.settings base) inv.task

end Invocation

namespace Report

def ofArguments (args : List String) (textOf : String → Option String) : Report :=
  match Invocation.ofArguments? args with
  | none => .misuse "the command line is not understood"
  | some inv => inv.report textOf

end Report
end TreeQuery
