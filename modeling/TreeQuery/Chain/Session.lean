import TreeQuery.Chain.Basic
import TreeQuery.Expression.Evaluate

/-!
# Sessions

A session holds everything that changes while a chain runs: the counters of the
predicates, the nodes selected so far, and whether the run is finished.

A caller may take part in a run by a filter on candidates, by a condition that
finishes the run, and by a listener to selected nodes.  All three may keep a
state of their own.
-/

namespace TreeQuery

inductive SelectError where
  | unknownFunction (function predicate : String)
  | evaluation (predicate : String) (source : EvalError)
  | illegalName (name : String)
  | unexpectedToken (expected found : String)
  /-- An operation on a session whose run was already finished. -/
  | finished (operation : String)
deriving Repr

namespace SelectError

def message : SelectError → String
  | .unknownFunction function predicate =>
      "function '" ++ function ++ "' not found in predicate [" ++ predicate ++ "]"
  | .evaluation predicate source => "predicate [" ++ predicate ++ "] failed: " ++ source.message
  | .illegalName name => "name '" ++ name ++ "' is not allowed by the name policy"
  | .unexpectedToken expected found => "cannot compile a " ++ found ++ " token as a " ++ expected
  | .finished operation =>
      "TraversalContext::" ++ operation ++ " called after the traversal finished"

def ofEvaluation (p : Predicate) : EvalError → SelectError
  | .unknownFunction name => .unknownFunction name p.text
  | source => .evaluation p.text source

end SelectError

/-- Counts that the finishing condition may look at. -/
structure Progress where
  /-- Candidates that passed the filter. -/
  visited : Nat
  /-- Distinct nodes selected. -/
  selected : Nat
deriving DecidableEq, Repr

/-- The part that a caller takes in a run; `S` is the state of the caller. -/
structure Hooks (S N : Type) where
  /-- Candidates that are refused are not handed on, and what lies below them is left out. -/
  filter : Option (N → S → Bool × S)
  /-- Asked before every candidate; the run ends at the first `true`. -/
  finisher : Option (Progress → S → Bool × S)
  /-- Told of every distinct node that the chain selects. -/
  listener : Option (N → S → S)

namespace Hooks

variable {S N : Type}

def none : Hooks S N := ⟨.none, .none, .none⟩

/-- Finishes once so many nodes are selected. -/
def after (limit : Nat) : Progress → S → Bool × S :=
  fun progress s => (decide (limit ≤ progress.selected), s)

end Hooks

/-- What stays the same during a run. -/
structure Setting (S N : Type) where
  functions : Registry N
  arithmetic : Arithmetic
  hooks : Hooks S N

structure Session (S N : Type) where
  finished : Bool
  progress : Progress
  /-- One counter for each step of the chain. -/
  positions : List Nat
  /-- The candidate that an axis accepted last. -/
  current : Option N
  selected : List N
  caller : S

abbrev Run (S N : Type) :=
  ExceptT SelectError (StateM (Session S N))

namespace Session

variable {S N : Type}

def start (caller : S) : Session S N :=
  ⟨false, ⟨0, 0⟩, [], none, [], caller⟩

end Session

namespace Setting

variable {S N : Type}

/-!
# Operations
-/

/-- Whether the run is finished.  Once true it stays true, and the finisher is not asked again. -/
def isFinished (g : Setting S N) : Run S N Bool := do
  let s ← get
  if s.finished then
    return true
  else
    match g.hooks.finisher with
    | none => return false
    | some finisher =>
        let (answer, caller) := finisher s.progress s.caller
        set { s with finished := answer, caller := caller }
        return answer

/-- Refuses an operation on a finished run. -/
def running (operation : String) : Run S N Unit := do
  if (← get).finished then throw (.finished operation)

def test (g : Setting S N) (candidate : N) : Run S N Bool := do
  running "test"
  let s ← get
  let (accepted, caller) := match g.hooks.filter with
    | none => (true, s.caller)
    | some filter => filter candidate s.caller
  let visited := if accepted then s.progress.visited + 1 else s.progress.visited
  set { s with caller := caller, progress := { s.progress with visited := visited } }
  return accepted

def setNode (node : N) : Run S N Unit := do
  running "set_node"
  modify fun s => { s with current := some node }

/-- Reports a node that passed the whole chain; a node is reported once. -/
def select [DecidableEq N] (g : Setting S N) (node : N) : Run S N Unit := do
  running "selected"
  let s ← get
  if node ∈ s.selected then
    return ()
  else
    let caller := match g.hooks.listener with
      | none => s.caller
      | some listener => listener node s.caller
    set { s with
      caller := caller
      progress := { s.progress with selected := s.progress.selected + 1 }
      selected := s.selected ++ [node] }

def evaluate [DecidableEq N] [Navigable N] (g : Setting S N) (e : Expression) (node : N)
    (position : Nat) : Run S N (Except EvalError Value) := do
  running "evaluate"
  return e.evaluate g.functions ⟨node, position, g.arithmetic⟩

/-!
# Counters
-/

def resetCounters (first count : Nat) : Run S N Unit :=
  modify fun s => { s with
    positions := s.positions.mapIdx fun i p => if first ≤ i ∧ i < first + count then 0 else p }

/-- Counts one more candidate for a step and gives its position, from one. -/
def advance (slot : Nat) : Run S N Nat := do
  let s ← get
  let position := s.positions.getD slot 0 + 1
  set { s with positions := s.positions.set slot position }
  return position

end Setting

/-!
# Running a chain
-/

namespace Chain

variable {S N : Type} [DecidableEq N] [Navigable N]

def segmentLength (steps : List Step) : Nat :=
  (steps.takeWhile (!·.isAxis)).length

/-- Runs the steps that are left, the first of which has the given slot, at a node. -/
def runFrom (g : Setting S N) : List Step → Nat → N → Run S N Unit
  | [], _, node => do
      if ← g.isFinished then return () else g.select node
  | .axis a :: rest, slot, node => do
      if ← g.isFinished then
        return ()
      else
        Setting.resetCounters (slot + 1) (segmentLength rest)
        a.traverse node fun candidate => do
          if ← g.isFinished then
            return .stop
          else if ← g.test candidate then
            Setting.setNode candidate
            runFrom g rest (slot + 1) candidate
            return .onward
          else
            return .prune
  | .name test :: rest, slot, node => do
      if ← g.isFinished then
        return ()
      else if test.accepts (Navigable.name node) then
        runFrom g rest (slot + 1) node
      else
        return ()
  | .predicate p :: rest, slot, node => do
      if ← g.isFinished then
        return ()
      else
        let position ← Setting.advance slot
        match ← g.evaluate p.expression node position with
        | .error source => throw (.ofEvaluation p source)
        | .ok value =>
            if Predicate.accepts value position then
              runFrom g rest (slot + 1) node
            else
              return ()

/-- Runs a chain from a node.  The session tells what was selected, also when the run failed. -/
def run (c : Chain) (g : Setting S N) (caller : S) (start : N) :
    Except SelectError Unit × Session S N :=
  let session := { Session.start caller with positions := List.replicate c.steps.length 0 }
  (runFrom g c.steps 0 start).run.run session

/-- Runs a chain for the sake of its hooks and hands the start back. -/
def apply (c : Chain) (g : Setting S N) (caller : S) (start : N) :
    Except SelectError N × Session S N :=
  let (outcome, session) := c.run g caller start
  (outcome.map fun _ => start, session)

/-- Every distinct node that a chain selects, in the order of selection. -/
def select (c : Chain) (functions : Registry N) (arithmetic : Arithmetic) (start : N) :
    Except SelectError (List N) :=
  let (outcome, session) := c.run (S := Unit) ⟨functions, arithmetic, .none⟩ () start
  outcome.map fun _ => session.selected

def first (c : Chain) (functions : Registry N) (arithmetic : Arithmetic) (start : N) :
    Except SelectError (Option N) :=
  let hooks : Hooks Unit N := { Hooks.none with finisher := some (Hooks.after 1) }
  let (outcome, session) := c.run ⟨functions, arithmetic, hooks⟩ () start
  outcome.map fun _ => session.selected.head?

end Chain
end TreeQuery
