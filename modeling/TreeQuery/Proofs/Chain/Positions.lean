import TreeQuery.Proofs.Chain.Failing
import TreeQuery.Proofs.Chain.Visiting
import TreeQuery.Tree.Sample

/-!
# Positions

A run counts the candidates of every predicate in a slot of its own, and all
nested applications of an axis share these slots.  The counters are right all
the same: between two axes a counter holds the number of candidates that got as
far as its predicate since the axis before it was last applied, and whatever an
inner axis does leaves the slots before it alone.
-/

namespace TreeQuery

open Run

namespace Setting

variable {S N : Type}

def environment (g : Setting S N) (accepts : N → Bool) : Environment N :=
  ⟨g.functions, g.arithmetic, accepts⟩

end Setting

namespace Session

variable {S N : Type} {slot : Nat} {s mid left : Session S N}

def Untouched (slot : Nat) (s left : Session S N) : Prop :=
  ∀ i, i < slot → left.positions[i]? = s.positions[i]?

theorem Untouched.trans (hmid : Untouched slot s mid) (hleft : Untouched slot mid left) :
    Untouched slot s left :=
  fun i hi => (hleft i hi).trans (hmid i hi)

theorem Untouched.mono {slot' : Nat} (h : Untouched slot' s left) (hle : slot ≤ slot') :
    Untouched slot s left :=
  fun i hi => h i (by omega)

theorem untouched_set {value : Nat} :
    Untouched slot s { s with positions := s.positions.set slot value } := by
  intro i hi
  have hne : slot ≠ i := by omega
  simp [hne]

theorem untouched_reset {upper : Nat} :
    Untouched slot s { s with positions := s.positions.mapIdx fun i p =>
      if slot ≤ i ∧ i < upper then 0 else p } := by
  intro i hi
  have hnot : ¬ (slot ≤ i ∧ i < upper) := by omega
  rw [List.getElem?_mapIdx]
  cases s.positions[i]? with
  | none => rfl
  | some p => rw [Option.map_some, if_neg hnot]

end Session

namespace Environment

theorem eraseDups_concat_of_mem {N : Type} [DecidableEq N] {ns : List N} {node : N}
    (h : node ∈ ns) : (ns ++ [node]).eraseDups = ns.eraseDups := by
  simp [List.eraseDups_append, List.removeAll, h]

theorem eraseDups_concat_of_notMem {N : Type} [DecidableEq N] {ns : List N} {node : N}
    (h : node ∉ ns) : (ns ++ [node]).eraseDups = ns.eraseDups ++ [node] := by
  simp [List.eraseDups_append, List.removeAll, h, List.eraseDups_cons]

variable {N : Type} [DecidableEq N] [Navigable N] {env : Environment N}

/-- The counters of the tests before the next axis, the first of them in the given slot, when
these tests have seen some candidates. -/
def Counts (env : Environment N) : List Step → Nat → List N → List Nat → Prop
  | [], _, _, _ => True
  | .axis _ :: _, _, _, _ => True
  | .name test :: rest, slot, seen, counters =>
      Counts env rest (slot + 1) (named test seen) counters
  | .predicate p :: rest, slot, seen, counters =>
      counters[slot]? = some seen.length ∧ Counts env rest (slot + 1) (env.kept p seen) counters

theorem counts_congr {steps : List Step} {slot : Nat} {seen : List N}
    {counters counters' : List Nat} (h : ∀ i, slot ≤ i → counters'[i]? = counters[i]?)
    (hcounts : env.Counts steps slot seen counters) : env.Counts steps slot seen counters' := by
  -- Counters before a slot are of no concern to the steps from that slot on.
  induction steps generalizing slot seen with
  | nil => trivial
  | cons step rest ih =>
      cases step with
      | axis a => trivial
      | name test => exact ih (fun i hi => h i (by omega)) hcounts
      | predicate p =>
          exact ⟨(h slot (Nat.le_refl slot)).trans hcounts.1,
            ih (fun i hi => h i (by omega)) hcounts.2⟩

theorem counts_of_zero {steps : List Step} {slot : Nat} {counters : List Nat}
    (h : ∀ i, slot ≤ i → i < slot + Chain.segmentLength steps → counters[i]? = some 0) :
    env.Counts steps slot [] counters := by
  induction steps generalizing slot with
  | nil => trivial
  | cons step rest ih =>
      cases step with
      | axis a => trivial
      | name test =>
          have hlength :
              Chain.segmentLength (.name test :: rest) = Chain.segmentLength rest + 1 := by
            simp [Chain.segmentLength, Step.isAxis]
          exact ih fun i hi hlt => h i (by omega) (by omega)
      | predicate p =>
          have hlength :
              Chain.segmentLength (.predicate p :: rest) = Chain.segmentLength rest + 1 := by
            simp [Chain.segmentLength, Step.isAxis]
          exact ⟨h slot (Nat.le_refl slot) (by omega), ih fun i hi hlt => h i (by omega) (by omega)⟩

theorem segmentLength_le (steps : List Step) : Chain.segmentLength steps ≤ steps.length :=
  (List.takeWhile_prefix _).length_le

/-- The session between two candidates of the steps from a slot on: `before` is what had been
selected when these steps were entered, and `seen` are the candidates they have dealt with. -/
structure Between {S : Type} (env : Environment N) (steps : List Step) (slot : Nat)
    (before seen : List N) (s : Session S N) : Prop where
  running : s.finished = false
  selected : s.selected = (before ++ env.nodes steps seen).eraseDups
  counters : env.Counts steps slot seen s.positions
  length : s.positions.length = slot + steps.length
  faultless : env.failures steps seen = []

/-!
# One step of the chain

Each kind of step is entered with what holds between two candidates and leads to
what holds one candidate later.
-/

section

variable {S : Type} {steps rest : List Step} {slot : Nat} {before seen : List N}
  {node : N} {s : Session S N}

theorem Between.transfer {t : Session S N} (h : env.Between steps slot before seen s)
    (hfinished : t.finished = s.finished) (hselected : t.selected = s.selected)
    (hpositions : t.positions = s.positions) : env.Between steps slot before seen t := by
  -- The rest of a session, such as the state of the caller, is of no concern.
  refine ⟨hfinished.trans h.running, hselected.trans h.selected, ?_, ?_, h.faultless⟩
  · rw [hpositions]
    exact h.counters
  · rw [hpositions]
    exact h.length

theorem Between.known (h : env.Between [] slot before seen s) (hmem : node ∈ s.selected) :
    env.Between [] slot before (seen ++ [node]) s := by
  have hbefore : node ∈ before ++ seen := by
    simpa [h.selected, nodes] using hmem
  refine ⟨h.running, ?_, trivial, h.length, rfl⟩
  rw [h.selected, nodes, nodes, ← List.append_assoc, eraseDups_concat_of_mem hbefore]

theorem Between.reported (h : env.Between [] slot before seen s) (hmem : node ∉ s.selected)
    {progress : Progress} {caller : S} :
    env.Between [] slot before (seen ++ [node])
      { s with progress := progress, caller := caller, selected := s.selected ++ [node] } := by
  have hbefore : node ∉ before ++ seen := by
    simpa [h.selected, nodes] using hmem
  refine ⟨h.running, ?_, trivial, h.length, rfl⟩
  simp only [h.selected, nodes]
  rw [← List.append_assoc, eraseDups_concat_of_notMem hbefore]

/-- Applying an axis starts the counters of the tests behind it anew. -/
theorem Between.entered {a : Axis} (h : env.Between (.axis a :: rest) slot before seen s) :
    env.Between rest (slot + 1) (before ++ env.nodes (.axis a :: rest) seen) []
      { s with positions := s.positions.mapIdx fun i p =>
        if slot + 1 ≤ i ∧ i < slot + 1 + Chain.segmentLength rest then 0 else p } := by
  have hlength : s.positions.length = slot + (rest.length + 1) := h.length
  refine ⟨h.running, ?_, ?_, ?_, failures_nil rest⟩
  · simp [h.selected]
  · apply counts_of_zero
    intro i hi hlt
    have hsegment := segmentLength_le rest
    have hget : i < s.positions.length := by omega
    rw [List.getElem?_mapIdx, List.getElem?_eq_getElem hget, Option.map_some, if_pos ⟨hi, hlt⟩]
  · simp only [List.length_mapIdx, hlength]
    omega

theorem Between.left {a : Axis} {t : Session S N}
    (h : env.Between (.axis a :: rest) slot before seen s)
    (ht : env.Between rest (slot + 1) (before ++ env.nodes (.axis a :: rest) seen)
      (a.candidates env.accepts node) t) :
    env.Between (.axis a :: rest) slot before (seen ++ [node]) t := by
  refine ⟨ht.running, ?_, trivial, ?_, ?_⟩
  · rw [ht.selected, List.append_assoc]
    simp [nodes]
  · have hlength := ht.length
    simp only [List.length_cons]
    omega
  · have hseen := h.faultless
    have hnode := ht.faultless
    simp only [failures, List.flatMap_append, List.flatMap_singleton] at hseen ⊢
    rw [hseen, hnode]
    rfl

theorem between_name {test : NameTest} :
    env.Between (.name test :: rest) slot before seen s ↔
      env.Between rest (slot + 1) before (named test seen) s := by
  constructor
  · intro h
    have hlength : s.positions.length = slot + (rest.length + 1) := h.length
    exact ⟨h.running, h.selected, h.counters, by omega, h.faultless⟩
  · intro h
    have hlength := h.length
    refine ⟨h.running, h.selected, h.counters, ?_, h.faultless⟩
    simp only [List.length_cons]
    omega

theorem between_predicate {p : Predicate} :
    env.Between (.predicate p :: rest) slot before seen s ↔
      s.positions[slot]? = some seen.length ∧ env.faults p seen = [] ∧
        env.Between rest (slot + 1) before (env.kept p seen) s := by
  constructor
  · intro h
    have hlength : s.positions.length = slot + (rest.length + 1) := h.length
    have hfaultless := List.append_eq_nil_iff.mp h.faultless
    exact ⟨h.counters.1, hfaultless.1,
      h.running, h.selected, h.counters.2, by omega, hfaultless.2⟩
  · intro h
    rcases h with ⟨hcounter, hfaults, h⟩
    have hlength := h.length
    refine ⟨h.running, h.selected, ⟨hcounter, h.counters⟩, ?_, ?_⟩
    · simp only [List.length_cons]
      omega
    · simp only [failures, hfaults, h.faultless, List.nil_append]

theorem Between.counted {p : Predicate}
    (h : env.Between (.predicate p :: rest) slot before seen s) :
    env.Between rest (slot + 1) before (env.kept p seen)
      { s with positions := s.positions.set slot (seen.length + 1) } := by
  rcases between_predicate.mp h with ⟨_, _, hrest⟩
  refine ⟨hrest.running, hrest.selected, ?_, ?_, hrest.faultless⟩
  · apply counts_congr _ hrest.counters
    intro i hi
    have hne : slot ≠ i := by omega
    simp [hne]
  · simpa using hrest.length

theorem Between.counter_set {p : Predicate}
    (h : env.Between (.predicate p :: rest) slot before seen s) :
    (s.positions.set slot (seen.length + 1))[slot]? = some (seen ++ [node]).length := by
  have hlength : s.positions.length = slot + (rest.length + 1) := h.length
  have hslot : slot < s.positions.length := by omega
  simp [hslot]

end

/-!
# The whole run
-/

section

variable {S : Type} {g : Setting S N} {accepts : N → Bool}

/-- The visitor that an axis is given deals with one candidate after the other, if the steps
behind the axis do. -/
theorem visits_candidates {rest : List Step} {slot : Nat} {before : List N} {start : Session S N}
    (hfilter : g.hooks.FiltersBy accepts) (hfinisher : g.hooks.finisher = none)
    (hrest : ∀ (node : N) {seen : List N} {s : Session S N},
      (g.environment accepts).Between rest slot before seen s →
      Ends (Chain.runFrom g rest slot node) s
        (fun _ left => (g.environment accepts).Between rest slot before (seen ++ [node]) left ∧
          Session.Untouched slot s left)
        (fun e _ => (g.environment accepts).failureAfter rest seen node = some e)) :
    Visits accepts
      (fun candidate => do
        if ← g.isFinished then
          return .stop
        else if ← g.test candidate then
          Setting.setNode candidate
          Chain.runFrom g rest slot candidate
          return .onward
        else
          return .prune)
      (fun seen s => (g.environment accepts).Between rest slot before seen s ∧
        Session.Untouched slot start s)
      (fun seen e =>
        firstFailure ((g.environment accepts).failureAfter rest) [] seen = some e) where
  accepted := by
    intro seen candidate s haccepts hbetween
    rcases hbetween with ⟨hs, hstart⟩
    rw [ends_bind, Setting.ends_isFinished hfinisher hs.running]
    simp only [Bool.false_eq_true, if_false]
    rw [ends_bind]
    apply Setting.ends_test hfilter hs.running
    intro progress caller
    have hrunning :
        ({ s with progress := progress, caller := caller } : Session S N).finished = false :=
      hs.running
    simp only [haccepts, if_true]
    rw [ends_bind, Setting.ends_setNode hrunning, ends_bind]
    refine Ends.imp (hrest candidate (hs.transfer rfl rfl rfl)) ?_ ?_
    · intro _ left hafter
      rcases hafter with ⟨hleft, huntouched⟩
      rw [ends_pure]
      exact ⟨rfl, hleft, hstart.trans huntouched⟩
    · intro e left he
      rw [firstFailure_concat, firstFailure_eq_none hs.faultless]
      exact he
  refused := by
    intro seen candidate s haccepts hbetween
    rcases hbetween with ⟨hs, hstart⟩
    rw [ends_bind, Setting.ends_isFinished hfinisher hs.running]
    simp only [Bool.false_eq_true, if_false]
    rw [ends_bind]
    apply Setting.ends_test hfilter hs.running
    intro progress caller
    simp only [haccepts, Bool.false_eq_true, if_false]
    rw [ends_pure]
    exact ⟨rfl, hs.transfer rfl rfl rfl, hstart⟩
  widens := by
    intro pre e h more
    rw [firstFailure_append, h]
    rfl

theorem ends_runFrom (hfilter : g.hooks.FiltersBy accepts) (hfinisher : g.hooks.finisher = none)
    {steps : List Step} {slot : Nat} (node : N) {before seen : List N} {s : Session S N}
    (h : (g.environment accepts).Between steps slot before seen s) :
    Ends (Chain.runFrom g steps slot node) s
      (fun _ left => (g.environment accepts).Between steps slot before (seen ++ [node]) left ∧
        Session.Untouched slot s left)
      (fun e _ => (g.environment accepts).failureAfter steps seen node = some e) := by
  induction steps generalizing slot node before seen s with
  | nil =>
      rw [Chain.runFrom, ends_bind, Setting.ends_isFinished hfinisher h.running]
      simp only [Bool.false_eq_true, if_false]
      apply Setting.ends_select h.running
      · intro hmem
        exact ⟨h.known hmem, fun i hi => rfl⟩
      · intro hmem progress caller
        exact ⟨h.reported hmem, fun i hi => rfl⟩
  | cons step rest ih =>
      cases step with
      | axis a =>
          rw [Chain.runFrom, ends_bind, Setting.ends_isFinished hfinisher h.running]
          simp only [Bool.false_eq_true, if_false]
          rw [ends_bind, Setting.ends_resetCounters]
          have hentered := h.entered
          apply ((visits_candidates hfilter hfinisher fun node => ih node).traverse a node
            ⟨hentered, fun i hi => rfl⟩).imp
          · intro _ left hafter
            rcases hafter with ⟨hleft, huntouched⟩
            exact ⟨h.left hleft,
              (Session.untouched_reset.trans huntouched).mono (Nat.le_succ slot)⟩
          · intro e left he
            exact he
      | name test =>
          rw [Chain.runFrom, ends_bind, Setting.ends_isFinished hfinisher h.running]
          simp only [Bool.false_eq_true, if_false]
          rw [between_name] at h
          by_cases haccepts : test.accepts (Navigable.name node) = true
          · have hnamed : named test (seen ++ [node]) = named test seen ++ [node] := by
              simp [named, haccepts]
            simp only [haccepts, if_true, between_name, failureAfter, hnamed]
            apply (ih node h).imp
            · intro _ left hafter
              rcases hafter with ⟨hleft, huntouched⟩
              exact ⟨hleft, huntouched.mono (by omega)⟩
            · intro e left he
              exact he
          · have hnamed : named test (seen ++ [node]) = named test seen := by
              simp [named, haccepts]
            simp only [haccepts, Bool.false_eq_true, if_false, between_name, hnamed]
            rw [ends_pure]
            exact ⟨h, fun i hi => rfl⟩
      | predicate p =>
          rw [Chain.runFrom, ends_bind, Setting.ends_isFinished hfinisher h.running]
          simp only [Bool.false_eq_true, if_false]
          have hposition : s.positions.getD slot 0 + 1 = seen.length + 1 := by
            rw [List.getD_eq_getElem?_getD, h.counters.1]
            rfl
          have hcounted := h.counted
          rw [ends_bind, Setting.ends_advance, hposition, ends_bind,
            Setting.ends_evaluate hcounted.running]
          cases heval : p.expression.evaluate g.functions
              ⟨node, seen.length + 1, g.arithmetic⟩ with
          | error source =>
              have hverdict : (g.environment accepts).verdict p node (seen.length + 1) =
                  .error (.ofEvaluation p source) := by
                simp only [verdict, Setting.environment, heval]
              rw [ends_throw, failureAfter, hverdict]
          | ok value =>
              have hverdict : (g.environment accepts).verdict p node (seen.length + 1) =
                  .ok (Predicate.accepts value (seen.length + 1)) := by
                simp only [verdict, Setting.environment, heval]
              have hfaults : (g.environment accepts).faults p (seen ++ [node]) = [] := by
                rw [faults_concat_of_ok hverdict]
                exact (between_predicate.mp h).2.1
              cases haccepts : Predicate.accepts value (seen.length + 1) with
              | true =>
                  rw [haccepts] at hverdict
                  simp only [haccepts, if_true, between_predicate, failureAfter, hverdict, hfaults,
                    kept_concat_of_admitted hverdict]
                  apply (ih node hcounted).imp
                  · intro _ left hafter
                    rcases hafter with ⟨hleft, huntouched⟩
                    refine ⟨⟨?_, trivial, hleft⟩,
                      Session.untouched_set.trans (huntouched.mono (by omega))⟩
                    rw [huntouched slot (by omega)]
                    exact h.counter_set
                  · intro e left he
                    exact he
              | false =>
                  rw [haccepts] at hverdict
                  simp only [haccepts, Bool.false_eq_true, if_false, between_predicate, hfaults,
                    kept_concat_of_refused hverdict]
                  rw [ends_pure]
                  exact ⟨⟨h.counter_set, trivial, hcounted⟩, Session.untouched_set⟩

end

end Environment

namespace Chain

variable {S N : Type} [DecidableEq N] [Navigable N] {g : Setting S N} {accepts : N → Bool}

theorem between_start (env : Environment N) (c : Chain) (caller : S) :
    env.Between c.steps 0 [] []
      { Session.start caller with positions := List.replicate c.steps.length 0 } := by
  refine ⟨rfl, ?_, ?_, by simp, Environment.failures_nil _⟩
  · simp [Session.start]
  · apply Environment.counts_of_zero
    intro i _ hi
    have hsegment := Environment.segmentLength_le c.steps
    have hget : i < c.steps.length := by omega
    simp [hget]

/-- A run that ends well has met no failure and selected what the chain means; a run that fails
has ended with the first failure. -/
theorem run_ends_first (hfilter : g.hooks.FiltersBy accepts) (hfinisher : g.hooks.finisher = none)
    (c : Chain) (caller : S) (start : N) :
    match c.run g caller start with
    | (.ok _, left) =>
        (g.environment accepts).failures c.steps [start] = [] ∧
          left.selected = ((g.environment accepts).nodes c.steps [start]).eraseDups
    | (.error e, _) => (g.environment accepts).failureAfter c.steps [] start = some e := by
  have hends := Environment.ends_runFrom hfilter hfinisher start
    (between_start (g.environment accepts) c caller)
  rcases hrun : c.run g caller start with ⟨outcome, left⟩
  unfold run at hrun
  unfold Run.Ends at hends
  rw [hrun] at hends
  cases outcome with
  | ok _ => exact ⟨hends.1.faultless, hends.1.selected⟩
  | error e => exact hends

theorem run_ends (hfilter : g.hooks.FiltersBy accepts) (hfinisher : g.hooks.finisher = none)
    (c : Chain) (caller : S) (start : N) :
    match c.run g caller start with
    | (.ok _, left) =>
        (g.environment accepts).failures c.steps [start] = [] ∧
          left.selected = ((g.environment accepts).nodes c.steps [start]).eraseDups
    | (.error e, _) => e ∈ (g.environment accepts).failures c.steps [start] := by
  have hends := run_ends_first hfilter hfinisher c caller start
  rcases hrun : c.run g caller start with ⟨outcome, left⟩
  rw [hrun] at hends
  cases outcome with
  | ok _ => exact hends
  | error e =>
      exact Environment.mem_failures_of_failureAfter (Environment.failures_nil c.steps) hends

/-- Running a chain with its shared counters comes to the same as narrowing whole lists: it fails
exactly when one of the evaluations fails that the lists call for, with the error of one of them,
and otherwise selects the nodes the lists lead to, each once and in their order. -/
theorem run_agrees_meaning (hfilter : g.hooks.FiltersBy accepts)
    (hfinisher : g.hooks.finisher = none) (c : Chain) (caller : S) (start : N) :
    ((c.run g caller start).1 = .ok () ↔
        (g.environment accepts).failures c.steps [start] = []) ∧
      ((c.run g caller start).1 = .ok () →
        (c.run g caller start).2.selected =
          ((g.environment accepts).nodes c.steps [start]).eraseDups) ∧
      ∀ e, (c.run g caller start).1 = .error e →
        e ∈ (g.environment accepts).failures c.steps [start] := by
  have hends := run_ends hfilter hfinisher c caller start
  rcases hrun : c.run g caller start with ⟨outcome, left⟩
  rw [hrun] at hends
  cases outcome with
  | ok _ =>
      rcases hends with ⟨hfaultless, hselected⟩
      refine ⟨⟨fun _ => hfaultless, fun _ => rfl⟩, fun _ => hselected, ?_⟩
      intro e he
      cases he
  | error e =>
      have hmem : e ∈ (g.environment accepts).failures c.steps [start] := hends
      refine ⟨⟨?_, ?_⟩, ?_, ?_⟩
      · intro h
        cases h
      · intro h
        rw [h] at hmem
        cases hmem
      · intro h
        cases h
      · intro e' he
        cases he
        exact hmem

/-- In the sample forest without its twigs the fourth leaf is the one called `f`. -/
theorem run_agrees_meaning_forest :
    let accepts : Node → Bool := fun n => n.element.name != "twig"
    let g : Setting Nat Node :=
      ⟨.empty, .standard, ⟨some fun n asked => (accepts n, asked + 1), none, none⟩⟩
    let c := ((empty.axis .descendant).named "leaf").position 4
    let start := (Sample.forest.run 0).1
    g.hooks.FiltersBy accepts ∧ g.hooks.finisher = none ∧
      (c.run g 0 start).1 = .ok () ∧
      (c.run g 0 start).2.selected = ((g.environment accepts).nodes c.steps [start]).eraseDups ∧
      ((g.environment accepts).nodes c.steps [start]).map Node.idOrDash = ["f"] := by
  intro accepts g c start
  have hfilter : g.hooks.FiltersBy accepts := fun _ _ => rfl
  have hfinisher : g.hooks.finisher = none := rfl
  have hfaultless : (g.environment accepts).failures c.steps [start] = [] := by decide
  have hagrees := run_agrees_meaning hfilter hfinisher c 0 start
  have hok := hagrees.1.mpr hfaultless
  exact ⟨hfilter, hfinisher, hok, hagrees.2.1 hok, by decide⟩

end Chain
end TreeQuery
