import TreeQuery.Proofs.Chain.Interchange

/-!
# Chains cut into legs

A chain that was put together by hand may have tests before its first axis and
several node tests behind one axis.  Its text makes legs of all of them: a node
test that is not directly behind an axis gets an axis of its own, from the node
to itself, and so do predicates at the very beginning.
-/

namespace TreeQuery

namespace Chain

/-- The predicates before the first axis or node test, and the legs that the text has from there
on. -/
def regroup : List Step → List Predicate × List Leg
  | [] => ([], [])
  | .axis a :: .name test :: rest => ([], ⟨a, some test, (regroup rest).1⟩ :: (regroup rest).2)
  | .axis a :: rest => ([], ⟨a, none, (regroup rest).1⟩ :: (regroup rest).2)
  | .name test :: rest => ([], ⟨.self, some test, (regroup rest).1⟩ :: (regroup rest).2)
  | .predicate p :: rest => (p :: (regroup rest).1, (regroup rest).2)

def legs (steps : List Step) : List Leg :=
  match regroup steps with
  | ([], ls) => ls
  | (p :: ps, ls) => ⟨.self, none, p :: ps⟩ :: ls

/-!
# Text
-/

theorem stepChars_axis {a : Axis} (h : a ≠ .root) (pending : Pending) :
    stepChars pending (.axis a) =
      (pending.star ++ pending.slash ++ a.text.toList, ⟨true, true⟩) := by
  cases a with
  | root => exact absurd rfl h
  | _ => rfl

theorem charsFrom_untested {steps : List Step} (h : ∀ test rest, steps ≠ .name test :: rest) :
    charsFrom ⟨true, true⟩ steps = '*' :: charsFrom .settled steps := by
  -- An axis that is not followed by a node test gets its star from whatever follows.
  cases steps with
  | nil => rfl
  | cons step rest =>
      cases step with
      | axis a => cases a <;> rfl
      | name test => exact absurd rfl (h test rest)
      | predicate p => rfl

theorem charsFrom_cons (pending : Pending) (step : Step) (rest : List Step) :
    charsFrom pending (step :: rest) =
      (stepChars pending step).1 ++ charsFrom (stepChars pending step).2 rest :=
  rfl

/-- Once something is written, the text goes on with brackets and then with legs. -/
theorem charsFrom_settled {steps : List Step} (h : .axis .root ∉ steps) :
    charsFrom .settled steps = (regroup steps).1.flatMap Predicate.chars ++
      (regroup steps).2.flatMap fun l => '/' :: l.chars := by
  fun_induction regroup steps with
  | case1 => rfl
  | case2 a test rest ih =>
      rw [List.mem_cons, List.mem_cons, not_or, not_or] at h
      have ha : a ≠ .root := fun ha => h.1 (ha ▸ rfl)
      rw [charsFrom_cons, stepChars_axis ha, charsFrom_cons]
      show '/' :: (a.text.toList ++ (test.text.toList ++ charsFrom .settled rest)) = _
      rw [ih h.2.2, List.flatMap_nil, List.nil_append, List.flatMap_cons, Leg.chars]
      simp only [List.cons_append, List.append_assoc, Option.getD_some]
  | case3 a rest hnext ih =>
      rw [List.mem_cons, not_or] at h
      have ha : a ≠ .root := fun ha => h.1 (ha ▸ rfl)
      rw [charsFrom_cons, stepChars_axis ha, charsFrom_untested hnext]
      show '/' :: (a.text.toList ++ ('*' :: charsFrom .settled rest)) = _
      rw [ih h.2, List.flatMap_nil, List.nil_append, List.flatMap_cons, Leg.chars]
      simp only [List.cons_append, List.append_assoc, Option.getD_none]
      rfl
  | case4 test rest ih =>
      rw [List.mem_cons, not_or] at h
      show '/' :: (selfMark ++ test.text.toList) ++ charsFrom .settled rest = _
      rw [ih h.2, List.flatMap_nil, List.nil_append, List.flatMap_cons, Leg.chars]
      simp only [List.cons_append, List.append_assoc, Option.getD_some]
      rfl
  | case5 p rest ih =>
      rw [List.mem_cons, not_or] at h
      show p.chars ++ charsFrom .settled rest = _
      rw [ih h.2, List.flatMap_cons, List.append_assoc]

theorem regroup_axis (a : Axis) (rest : List Step) :
    ∃ l ls, regroup (.axis a :: rest) = ([], l :: ls) := by
  cases rest with
  | nil => exact ⟨_, _, rfl⟩
  | cons step rest => cases step <;> exact ⟨_, _, rfl⟩

theorem charsFrom_start {steps : List Step} (h : .axis .root ∉ steps) :
    charsFrom .start steps = Leg.charsAll (legs steps) := by
  have hsettled := charsFrom_settled h
  unfold legs
  cases steps with
  | nil => rfl
  | cons step rest =>
      rw [List.mem_cons, not_or] at h
      cases step with
      | axis a =>
          have ha : a ≠ .root := fun ha => h.1 (ha ▸ rfl)
          rcases regroup_axis a rest with ⟨l, ls, hregroup⟩
          rw [charsFrom_cons, stepChars_axis ha, hregroup] at hsettled
          rw [charsFrom_cons, stepChars_axis ha, hregroup]
          exact (List.cons.inj hsettled).2
      | name test => exact (List.cons.inj hsettled).2
      | predicate p =>
          show selfMark ++ ['*'] ++ p.chars ++ charsFrom .settled rest =
            Leg.chars ⟨.self, none, p :: (regroup rest).1⟩ ++ _
          rw [charsFrom_settled h.2, Leg.chars, List.flatMap_cons]
          simp only [List.append_assoc, Option.getD_none]
          rfl

theorem legs_ne_nil {steps : List Step} (h : steps ≠ []) : legs steps ≠ [] := by
  unfold legs
  cases steps with
  | nil => exact absurd rfl h
  | cons step rest =>
      cases step with
      | axis a =>
          rcases regroup_axis a rest with ⟨l, ls, hregroup⟩
          rw [hregroup]
          exact List.cons_ne_nil l ls
      | name test => exact List.cons_ne_nil _ _
      | predicate p => exact List.cons_ne_nil _ _

/-- A chain without jumps to the root but perhaps a first one has the text of its legs. -/
theorem displayText_eq {c : Chain} {absolute : Bool} {rest : List Step}
    (hsteps : c.steps = rootSteps absolute ++ rest) (h : .axis .root ∉ rest)
    (hne : absolute = false → rest ≠ []) :
    c.displayText = String.ofList (pathChars absolute (legs rest)) := by
  unfold displayText isEmpty pathChars
  rw [hsteps, ← charsFrom_start h]
  cases absolute with
  | true => rfl
  | false =>
      cases rest with
      | nil => exact absurd rfl (hne rfl)
      | cons step rest => rfl

/-!
# Legs of legs
-/

theorem regroup_predicates (ps : List Predicate) (steps : List Step) :
    regroup (ps.map .predicate ++ steps) = (ps ++ (regroup steps).1, (regroup steps).2) := by
  induction ps with
  | nil => rfl
  | cons p ps ih =>
      show (p :: (regroup (ps.map .predicate ++ steps)).1,
        (regroup (ps.map .predicate ++ steps)).2) = _
      rw [ih]
      rfl

theorem regroup_untested (a : Axis) {steps : List Step}
    (h : ∀ test rest, steps ≠ .name test :: rest) :
    regroup (.axis a :: steps) =
      ([], ⟨a, none, (regroup steps).1⟩ :: (regroup steps).2) := by
  cases steps with
  | nil => rfl
  | cons step rest =>
      cases step with
      | axis b => rfl
      | name test => exact absurd rfl (h test rest)
      | predicate p => rfl

theorem ne_name_of_legs (ps : List Predicate) (ls : List Leg) (test : NameTest)
    (rest : List Step) : ps.map .predicate ++ ls.flatMap Leg.steps ≠ .name test :: rest := by
  cases ps with
  | nil =>
      cases ls with
      | nil => exact nofun
      | cons l ls => exact nofun
  | cons p ps => exact nofun

theorem regroup_legs (ls : List Leg) : regroup (ls.flatMap Leg.steps) = ([], ls) := by
  induction ls with
  | nil => rfl
  | cons l ls ih =>
      rcases l with ⟨a, test, ps⟩
      have hrest := regroup_predicates ps (ls.flatMap Leg.steps)
      rw [ih, List.append_nil] at hrest
      cases test with
      | none =>
          show regroup (.axis a :: (ps.map .predicate ++ ls.flatMap Leg.steps)) = _
          rw [regroup_untested a (ne_name_of_legs ps ls), hrest]
      | some test =>
          show ([], ⟨a, some test, (regroup (ps.map .predicate ++ ls.flatMap Leg.steps)).1⟩ ::
            (regroup (ps.map .predicate ++ ls.flatMap Leg.steps)).2) = _
          rw [hrest]

theorem legs_flatMap (ls : List Leg) : legs (ls.flatMap Leg.steps) = ls := by
  unfold legs
  rw [regroup_legs]

theorem root_not_mem_legs {ls : List Leg} (h : ∀ l ∈ ls, l.axis ≠ .root) :
    .axis .root ∉ ls.flatMap Leg.steps := by
  intro hroot
  rcases List.mem_flatMap.mp hroot with ⟨l, hl, hstep⟩
  simp only [Leg.steps, Leg.tests, List.mem_cons, List.mem_append, List.mem_map, Step.axis.injEq,
    reduceCtorEq, and_false, exists_false, or_false] at hstep
  exact h l hl hstep.symm

theorem displayText_legs {c : Chain} {absolute : Bool} {ls : List Leg}
    (hsteps : c.steps = rootSteps absolute ++ ls.flatMap Leg.steps)
    (haxes : ∀ l ∈ ls, l.axis ≠ .root) (hne : absolute = false → ls ≠ []) :
    c.displayText = String.ofList (pathChars absolute ls) := by
  have hsome : absolute = false → ls.flatMap Leg.steps ≠ [] := by
    intro habsolute
    cases ls with
    | nil => exact absurd rfl (hne habsolute)
    | cons l ls => exact nofun
  rw [displayText_eq hsteps (root_not_mem_legs haxes) hsome, legs_flatMap]

/-!
# What legs are made of
-/

end Chain

structure Leg.Within (steps : List Step) (l : Leg) : Prop where
  axis : l.axis = .self ∨ .axis l.axis ∈ steps
  test : ∀ test ∈ l.test, .name test ∈ steps
  predicates : ∀ p ∈ l.predicates, .predicate p ∈ steps

theorem Leg.Within.cons {steps : List Step} {l : Leg} (h : l.Within steps) (step : Step) :
    l.Within (step :: steps) where
  axis := h.axis.imp_right (List.mem_cons_of_mem step)
  test := fun test htest => List.mem_cons_of_mem step (h.test test htest)
  predicates := fun p hp => List.mem_cons_of_mem step (h.predicates p hp)

namespace Chain

theorem within_regroup (steps : List Step) :
    (∀ p ∈ (regroup steps).1, .predicate p ∈ steps) ∧
      ∀ l ∈ (regroup steps).2, l.Within steps := by
  fun_induction regroup steps with
  | case1 => exact ⟨nofun, nofun⟩
  | case2 a test rest ih =>
      refine ⟨nofun, List.forall_mem_cons.mpr ⟨⟨Or.inr List.mem_cons_self, ?_, ?_⟩, ?_⟩⟩
      · rintro _ ⟨⟩
        exact List.mem_cons_of_mem _ List.mem_cons_self
      · intro p hp
        exact List.mem_cons_of_mem _ (List.mem_cons_of_mem _ (ih.1 p hp))
      · intro l hl
        exact ((ih.2 l hl).cons _).cons _
  | case3 a rest hnext ih =>
      refine ⟨nofun, List.forall_mem_cons.mpr ⟨⟨Or.inr List.mem_cons_self, nofun, ?_⟩, ?_⟩⟩
      · intro p hp
        exact List.mem_cons_of_mem _ (ih.1 p hp)
      · intro l hl
        exact (ih.2 l hl).cons _
  | case4 test rest ih =>
      refine ⟨nofun, List.forall_mem_cons.mpr ⟨⟨Or.inl rfl, ?_, ?_⟩, ?_⟩⟩
      · rintro _ ⟨⟩
        exact List.mem_cons_self
      · intro p hp
        exact List.mem_cons_of_mem _ (ih.1 p hp)
      · intro l hl
        exact (ih.2 l hl).cons _
  | case5 p rest ih =>
      refine ⟨List.forall_mem_cons.mpr ⟨List.mem_cons_self, ?_⟩, ?_⟩
      · intro p' hp'
        exact List.mem_cons_of_mem _ (ih.1 p' hp')
      · intro l hl
        exact (ih.2 l hl).cons _

theorem within_legs (steps : List Step) : ∀ l ∈ legs steps, l.Within steps := by
  rcases within_regroup steps with ⟨hps, hls⟩
  unfold legs
  cases hregroup : regroup steps with
  | mk ps ls =>
      rw [hregroup] at hps hls
      cases ps with
      | nil => exact hls
      | cons p ps => exact List.forall_mem_cons.mpr ⟨⟨Or.inl rfl, nofun, hps⟩, hls⟩

/-- The steps are such as come from a query: no jump to the root, names of the grammar, and
predicates that can be written. -/
structure Regular {N : Type} (functions : Registry N) (arithmetic : Arithmetic)
    (policy : NamePolicy) (depth : Nat) (steps : List Step) : Prop where
  root : .axis .root ∉ steps
  names : ∀ test, .name test ∈ steps → test.Compiled policy
  predicates : ∀ p, .predicate p ∈ steps → p.Compiled functions arithmetic depth

theorem Regular.legs {N : Type} {functions : Registry N} {arithmetic : Arithmetic}
    {policy : NamePolicy} {depth : Nat} {steps : List Step}
    (h : Regular functions arithmetic policy depth steps) :
    ∀ l ∈ Chain.legs steps, l.Compiled functions arithmetic policy depth := by
  intro l hl
  have hwithin := within_legs steps l hl
  constructor
  · intro hroot
    rcases hwithin.axis with hself | haxis
    · rw [hroot] at hself
      cases hself
    · rw [hroot] at haxis
      exact h.root haxis
  · exact fun test htest => h.names test (hwithin.test test htest)
  · exact fun p hp => h.predicates p (hwithin.predicates p hp)

/-!
# Where nothing gets lost
-/

def beginsWithPredicate : List Step → Bool
  | .predicate _ :: _ => true
  | _ => false

/-- Whether no predicate stands directly behind a node test that the text turns into a step of its
own, unless there is at most one candidate anyway.  Such a predicate would count from one for every
candidate. -/
def tidy : (single : Bool) → List Step → Bool
  | _, [] => true
  | _, .axis a :: .name _ :: rest => tidy a.single rest
  | _, .axis a :: rest => tidy a.single rest
  | single, .name _ :: rest => (single || !beginsWithPredicate rest) && tidy single rest
  | single, .predicate _ :: rest => tidy single rest

section

variable {N : Type} [DecidableEq N] [Navigable N] {env : Environment N}

open Environment

theorem regroup_fst_eq_nil {steps : List Step} (h : beginsWithPredicate steps = false) :
    (regroup steps).1 = [] := by
  cases steps with
  | nil => rfl
  | cons step rest =>
      cases step with
      | axis a =>
          rcases regroup_axis a rest with ⟨l, ls, hregroup⟩
          rw [hregroup]
      | name test => rfl
      | predicate p => cases h

theorem additive_legs (ls : List Leg) : Interchangeable.Additive env (ls.flatMap Leg.steps) := by
  cases ls with
  | nil => exact Interchangeable.additive_nil
  | cons l ls => exact Interchangeable.additive_axis l.axis _

/-- Tidy steps lead to the same nodes as the legs they are cut into. -/
theorem interchangeable_regroup (haccepts : env.accepts = fun _ => true) {single : Bool}
    {steps : List Step} (h : tidy single steps = true) :
    env.Interchangeable single steps
      ((regroup steps).1.map .predicate ++ (regroup steps).2.flatMap Leg.steps) := by
  fun_induction tidy single steps with
  | case1 => exact .refl []
  | case2 single a test rest ih => exact .axis a (.name test (ih h))
  | case3 single a rest hnext ih =>
      rw [regroup_untested a hnext]
      exact .axis a (ih h)
  | case4 single test rest ih =>
      rcases Bool.and_eq_true_iff.mp h with ⟨hplace, hrest⟩
      have htest := (ih hrest).name test
      cases single with
      | true => exact Interchangeable.self_of_single haccepts htest
      | false =>
          have hnone : (regroup rest).1 = [] := by
            apply regroup_fst_eq_nil
            cases hbegins : beginsWithPredicate rest with
            | false => rfl
            | true =>
                rw [hbegins] at hplace
                cases hplace
          have hadditive : Interchangeable.Additive env
              (.name test :: (regroup rest).2.flatMap Leg.steps) :=
            Interchangeable.additive_name test (additive_legs (regroup rest).2)
          rw [hnone] at htest
          show env.Interchangeable false _ (.axis .self :: .name test ::
            ((regroup rest).1.map .predicate ++ (regroup rest).2.flatMap Leg.steps))
          rw [hnone]
          exact Interchangeable.self_of_additive haccepts hadditive htest
  | case5 single p rest ih => exact .predicate (fun _ => rfl) (fun _ => Iff.rfl) (ih h)

theorem interchangeable_legs (haccepts : env.accepts = fun _ => true) {steps : List Step}
    (h : tidy true steps = true) :
    env.Interchangeable true steps ((legs steps).flatMap Leg.steps) := by
  have hregroup := interchangeable_regroup haccepts h
  unfold legs
  cases hcut : regroup steps with
  | mk ps ls =>
      rw [hcut] at hregroup
      cases ps with
      | nil => exact hregroup
      | cons p ps => exact Interchangeable.self_of_single haccepts hregroup

end

end Chain
end TreeQuery
