import TreeQuery.CommandLine.Report

/-!
# The program
-/

namespace TreeQuery

/-- The text of a file, if it can be read. -/
def readText? (file : String) : IO (Option String) := do
  try
    return some (← IO.FS.readFile file)
  catch _ =>
    return none

/-- The text of the settings file that a command line names. -/
def settingsText? (args : List String) : IO (Option String) :=
  match (Invocation.ofArguments? args).bind (·.settingsFile) with
  | none => return none
  | some file => readText? file

end TreeQuery

def main (args : List String) : IO UInt32 := do
  let text ← TreeQuery.settingsText? args
  let report := TreeQuery.Report.ofArguments args fun _ => text
  IO.print report.output
  IO.eprint report.errors
  return UInt32.ofNat report.code
