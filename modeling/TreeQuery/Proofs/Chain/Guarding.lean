import TreeQuery.Proofs.Chain.Running
import TreeQuery.Proofs.Chain.Walking

/-!
# What a run keeps

A run asks whether it is finished before everything else it does.  Two facts
about sessions are therefore enough to follow a run with any filter, finisher
and listener: one that holds all the time, and a stronger one that holds right
after the answer was no and lasts up to the next report.
-/

namespace TreeQuery

open Run

/-!
# Operations in full
-/

namespace Hooks

variable {S N : Type}

def filtered (h : Hooks S N) (candidate : N) (caller : S) : Bool × S :=
  match h.filter with
  | .none => (true, caller)
  | .some filter => filter candidate caller

def told (h : Hooks S N) (node : N) (caller : S) : S :=
  match h.listener with
  | .none => caller
  | .some listener => listener node caller

theorem FiltersBy.filtered_eq {h : Hooks S N} {accepts : N → Bool} (hfilter : h.FiltersBy accepts)
    (candidate : N) (caller : S) : (h.filtered candidate caller).1 = accepts candidate := by
  unfold FiltersBy at hfilter
  unfold filtered
  cases hask : h.filter with
  | none =>
      rw [hask] at hfilter
      exact (hfilter candidate).symm
  | some filter =>
      rw [hask] at hfilter
      exact hfilter candidate caller

end Hooks

namespace Session

variable {S N : Type}

def tested (s : Session S N) (answer : Bool × S) : Session S N :=
  { s with
    caller := answer.2
    progress := { s.progress with
      visited := if answer.1 then s.progress.visited + 1 else s.progress.visited } }

def reported (s : Session S N) (node : N) (caller : S) : Session S N :=
  { s with
    caller := caller
    progress := { s.progress with selected := s.progress.selected + 1 }
    selected := s.selected ++ [node] }

end Session

namespace Setting

variable {S N : Type} {g : Setting S N} {s : Session S N}
  {bad : SelectError → Session S N → Prop}

def inquired (g : Setting S N) (s : Session S N) : Session S N :=
  if s.finished then
    s
  else
    match g.hooks.finisher with
    | none => s
    | some finisher =>
        let answer := finisher s.progress s.caller
        { s with finished := answer.1, caller := answer.2 }

theorem inquired_of_finished (g : Setting S N) (hs : s.finished = true) : g.inquired s = s := by
  rw [inquired, if_pos hs]

theorem inquired_of_endless (hfinisher : g.hooks.finisher = none) : g.inquired s = s := by
  rw [inquired, hfinisher]
  exact ite_self s

theorem inquired_of_asked {finisher : Progress → S → Bool × S}
    (hfinisher : g.hooks.finisher = some finisher) (hs : s.finished = false) :
    g.inquired s =
      { s with
        finished := (finisher s.progress s.caller).1
        caller := (finisher s.progress s.caller).2 } := by
  rw [inquired, hs, hfinisher]
  rfl

theorem inquired_eq (g : Setting S N) (s : Session S N) :
    g.inquired s =
      { s with finished := (g.inquired s).finished, caller := (g.inquired s).caller } := by
  unfold inquired
  split
  · rfl
  · split
    · rfl
    · rfl

theorem ends_isFinished_iff {good : Bool → Session S N → Prop} :
    Ends g.isFinished s good bad ↔ good (g.inquired s).finished (g.inquired s) := by
  unfold isFinished
  rw [ends_bind, ends_get]
  cases hs : s.finished with
  | true =>
      rw [inquired_of_finished g hs, hs]
      exact ends_pure
  | false =>
      cases hfinisher : g.hooks.finisher with
      | none =>
          rw [inquired_of_endless hfinisher, hs]
          exact ends_pure
      | some finisher =>
          rw [inquired_of_asked hfinisher hs]
          exact Iff.rfl

theorem ends_test_iff {good : Bool → Session S N → Prop} {candidate : N}
    (hs : s.finished = false) :
    Ends (g.test candidate) s good bad ↔
      good (g.hooks.filtered candidate s.caller).1
        (s.tested (g.hooks.filtered candidate s.caller)) := by
  unfold test
  rw [ends_bind, ends_running hs, ends_bind, ends_get, Hooks.filtered]
  cases hask : g.hooks.filter with
  | none =>
      simp only
      rw [ends_bind, ends_set, ends_pure]
      rfl
  | some filter =>
      simp only
      rw [ends_bind, ends_set, ends_pure]
      rfl

theorem ends_select_iff [DecidableEq N] {good : Unit → Session S N → Prop} {node : N}
    (hs : s.finished = false) :
    Ends (g.select node) s good bad ↔
      good () (if node ∈ s.selected then s else s.reported node (g.hooks.told node s.caller)) := by
  unfold select
  rw [ends_bind, ends_running hs, ends_bind, ends_get]
  by_cases hmem : node ∈ s.selected
  · simp only [hmem, if_true]
    exact ends_pure
  · simp only [hmem, if_false]
    exact ends_set

end Setting

/-!
# Visitors that keep a fact
-/

namespace Run

variable {S N A : Type} {visit : A → Run S N Flow} {holds : Session S N → Prop}
  {bad : SelectError → Session S N → Prop}

theorem ends_each (h : ∀ a s, holds s → Ends (visit a) s (fun _ left => holds left) bad)
    (as : List A) {s : Session S N} (hs : holds s) :
    Ends (Flow.each visit as) s (fun _ left => holds left) bad := by
  induction as generalizing s with
  | nil => exact ends_pure.mpr hs
  | cons a rest ih =>
      rw [Flow.each, ends_bind]
      apply (h a s hs).imp
      · intro flow left hleft
        cases flow with
        | stop => exact ends_pure.mpr hleft
        | onward => exact ih hleft
        | prune => exact ih hleft
      · intro e left he
        exact he

mutual

theorem ends_below (h : ∀ a s, holds s → Ends (visit a) s (fun _ left => holds left) bad) :
    ∀ (t : Rose A) {s : Session S N}, holds s →
      Ends (Flow.below visit t) s (fun _ left => holds left) bad
  | .node a branches, s, hs => by
      rw [Flow.below, ends_bind]
      apply (h a s hs).imp
      · intro flow left hleft
        cases flow with
        | stop => exact ends_pure.mpr hleft
        | prune => exact ends_pure.mpr hleft
        | onward => exact ends_belowAll h branches hleft
      · intro e left he
        exact he

theorem ends_belowAll (h : ∀ a s, holds s → Ends (visit a) s (fun _ left => holds left) bad) :
    ∀ (ts : List (Rose A)) {s : Session S N}, holds s →
      Ends (Flow.belowAll visit ts) s (fun _ left => holds left) bad
  | [], s, hs => by
      rw [Flow.belowAll]
      exact ends_pure.mpr hs
  | t :: ts, s, hs => by
      rw [Flow.belowAll, ends_bind]
      apply (ends_below h t hs).imp
      · intro stopped left hleft
        cases stopped with
        | true => exact ends_pure.mpr hleft
        | false => exact ends_belowAll h ts hleft
      · intro e left he
        exact he

end

theorem ends_traverse [DecidableEq N] [Navigable N] {visit : N → Run S N Flow}
    (h : ∀ a s, holds s → Ends (visit a) s (fun _ left => holds left) bad) (axis : Axis) (n : N)
    {s : Session S N} (hs : holds s) :
    Ends (axis.traverse n visit) s (fun _ left => holds left) bad := by
  rw [Axis.traverse_eq_walk]
  unfold Axis.walk
  cases axis with
  | descendant => exact ends_bind.mpr (ends_belowAll h _ hs)
  | descendantOrSelf => exact ends_bind.mpr (ends_below h _ hs)
  | following => exact ends_bind.mpr (ends_belowAll h _ hs)
  | _ => exact ends_bind.mpr (ends_each h _ hs)

end Run

namespace Setting

variable {S N : Type}

def visit (g : Setting S N) (next : N → Run S N Unit) (candidate : N) : Run S N Flow := do
  if ← g.isFinished then
    return .stop
  else if ← g.test candidate then
    setNode candidate
    next candidate
    return .onward
  else
    return .prune

theorem runFrom_axis [DecidableEq N] [Navigable N] (g : Setting S N) (a : Axis) (rest : List Step)
    (slot : Nat) (node : N) :
    Chain.runFrom g (.axis a :: rest) slot node = (do
      if ← g.isFinished then
        return ()
      else
        resetCounters (slot + 1) (Chain.segmentLength rest)
        a.traverse node (g.visit (Chain.runFrom g rest (slot + 1)))) := by
  rw [Chain.runFrom]
  rfl

/-!
# Guarded runs
-/

/-- Facts that the operations of a session keep: `holds` at all times, and `ready` from a question
whether the run is finished up to the next report or question. -/
structure Guards (g : Setting S N) (holds ready : Session S N → Prop) : Prop where
  weakens : ∀ {s}, ready s → holds s
  running : ∀ {s}, ready s → s.finished = false
  asked : ∀ {s}, holds s →
    holds (g.inquired s) ∧ ((g.inquired s).finished = false → ready (g.inquired s))
  tested : ∀ {s} candidate, ready s → ready (s.tested (g.hooks.filtered candidate s.caller))
  reported : ∀ {s} node, ready s → node ∉ s.selected →
    holds (s.reported node (g.hooks.told node s.caller))
  moved : ∀ {s} current positions, ready s →
    ready { s with current := current, positions := positions }

def OfEvaluation (e : SelectError) : Prop :=
  ∃ p source, e = .ofEvaluation p source

variable {g : Setting S N} {holds ready : Session S N → Prop}

theorem Guards.ends_unless (h : g.Guards holds ready) {A : Type} {b : A} {m : Run S N A}
    {s : Session S N} (hs : holds s)
    (hm : ∀ left, ready left → Ends m left (fun _ last => holds last)
      (fun e last => ready last ∧ OfEvaluation e)) :
    Ends (do if ← g.isFinished then return b else m) s (fun _ last => holds last)
      (fun e last => ready last ∧ OfEvaluation e) := by
  rw [ends_bind, ends_isFinished_iff]
  rcases h.asked hs with ⟨hasked, hready⟩
  cases hfinished : (g.inquired s).finished with
  | true => exact ends_pure.mpr hasked
  | false => exact hm _ (hready hfinished)

theorem Guards.ends_visit (h : g.Guards holds ready) {next : N → Run S N Unit}
    (hnext : ∀ node s, holds s → Ends (next node) s (fun _ left => holds left)
      (fun e left => ready left ∧ OfEvaluation e)) (candidate : N) {s : Session S N}
    (hs : holds s) :
    Ends (g.visit next candidate) s (fun _ left => holds left)
      (fun e left => ready left ∧ OfEvaluation e) := by
  refine h.ends_unless hs ?_
  intro s hready
  rw [ends_bind, ends_test_iff (h.running hready)]
  have htested := h.tested candidate hready
  cases (g.hooks.filtered candidate s.caller).1 with
  | false => exact ends_pure.mpr (h.weakens htested)
  | true =>
      simp only [if_true]
      rw [ends_bind, ends_setNode (h.running htested), ends_bind]
      apply (hnext candidate _ (h.weakens (h.moved (some candidate) _ htested))).imp
      · intro _ left hleft
        exact ends_pure.mpr hleft
      · intro e left he
        exact he

variable [DecidableEq N] [Navigable N]

/-- A guarded run keeps its fact to the end.  If it fails, then in a predicate, and that was right
after the run was found not to be finished. -/
theorem Guards.ends_runFrom (h : g.Guards holds ready) (steps : List Step) (slot : Nat) (node : N)
    {s : Session S N} (hs : holds s) :
    Ends (Chain.runFrom g steps slot node) s (fun _ left => holds left)
      (fun e left => ready left ∧ OfEvaluation e) := by
  induction steps generalizing slot node s with
  | nil =>
      rw [Chain.runFrom]
      refine h.ends_unless hs ?_
      intro s hready
      rw [ends_select_iff (h.running hready)]
      split
      · exact h.weakens hready
      · rename_i hmem
        exact h.reported node hready hmem
  | cons step rest ih =>
      cases step with
      | axis a =>
          rw [runFrom_axis]
          refine h.ends_unless hs ?_
          intro s hready
          rw [ends_bind, ends_resetCounters]
          refine ends_traverse ?_ a node (h.weakens (h.moved s.current _ hready))
          intro candidate s hs
          exact h.ends_visit (fun node s hs => ih _ node hs) candidate hs
      | name test =>
          rw [Chain.runFrom]
          refine h.ends_unless hs ?_
          intro s hready
          split
          · exact ih _ node (h.weakens hready)
          · exact ends_pure.mpr (h.weakens hready)
      | predicate p =>
          rw [Chain.runFrom]
          refine h.ends_unless hs ?_
          intro s hready
          rw [ends_bind, ends_advance]
          have hmoved := h.moved s.current (s.positions.set slot (s.positions.getD slot 0 + 1))
            hready
          rw [ends_bind, ends_evaluate (h.running hmoved)]
          split
          · rw [ends_throw]
            exact ⟨hmoved, p, _, rfl⟩
          · split
            · exact ih _ node (h.weakens hmoved)
            · exact ends_pure.mpr (h.weakens hmoved)

end Setting
end TreeQuery
