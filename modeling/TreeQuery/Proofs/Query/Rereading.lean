import TreeQuery.Proofs.Chain.Regrouping
import TreeQuery.Proofs.Query.Resolving
import TreeQuery.Tree.Sample

/-!
# Chains read again

The text of a chain can be compiled again.  For the chain of a query this gives
the same chain, with a node test behind every axis and canonical predicates.  A
chain put together by hand has to be tidy for its text to select the same nodes,
and may jump to the root only at its beginning.
-/

namespace TreeQuery

namespace Chain

def beginsWithTest : List Step → Bool
  | .name _ :: _ => true
  | _ => false

def spelledSteps : List Step → List Step
  | [] => []
  | .axis a :: rest =>
      if a = .root || beginsWithTest rest then .axis a :: spelledSteps rest
      else .axis a :: .name .any :: spelledSteps rest
  | .name test :: rest => .name test :: spelledSteps rest
  | .predicate p :: rest => .predicate (.ofExpression p.expression) :: spelledSteps rest

/-- The chain as its text spells it out. -/
def spelled (c : Chain) : Chain :=
  ⟨spelledSteps c.steps⟩

end Chain

/-!
# Legs spelled out
-/

namespace Leg

def spelled (l : Leg) : Leg :=
  ⟨l.axis, some (l.test.getD .any), l.predicates.map fun p => .ofExpression p.expression⟩

theorem axis_reread {ls : List Leg} (h : ∀ l ∈ ls, l.axis ≠ .root) :
    ∀ l ∈ ls.map reread, l.axis ≠ .root := by
  intro l hl
  rcases List.mem_map.mp hl with ⟨l', hl', rfl⟩
  exact h l' hl'

end Leg

namespace Chain

theorem spelledSteps_predicates (ps : List Predicate) (steps : List Step) :
    spelledSteps (ps.map .predicate ++ steps) =
      (ps.map fun p => .predicate (.ofExpression p.expression)) ++ spelledSteps steps := by
  induction ps with
  | nil => rfl
  | cons p ps ih =>
      show .predicate _ :: spelledSteps (ps.map .predicate ++ steps) = _
      rw [ih]
      rfl

theorem beginsWithTest_legs (ps : List Predicate) (ls : List Leg) :
    beginsWithTest (ps.map .predicate ++ ls.flatMap Leg.steps) = false := by
  cases ps with
  | nil =>
      cases ls with
      | nil => rfl
      | cons l ls => rfl
  | cons p ps => rfl

theorem spelledSteps_legs {ls : List Leg} (h : ∀ l ∈ ls, l.axis ≠ .root) :
    spelledSteps (ls.flatMap Leg.steps) = (ls.map Leg.spelled).flatMap Leg.steps := by
  induction ls with
  | nil => rfl
  | cons l ls ih =>
      rcases List.forall_mem_cons.mp h with ⟨hl, hls⟩
      rcases l with ⟨a, test, ps⟩
      have ha : decide (a = Axis.root) = false := decide_eq_false hl
      have hrest : spelledSteps (ps.map .predicate ++ ls.flatMap Leg.steps) =
          (ps.map fun p => Step.predicate (.ofExpression p.expression)) ++
            (ls.map Leg.spelled).flatMap Leg.steps := by
        rw [spelledSteps_predicates, ih hls]
      rw [List.map_cons, List.flatMap_cons, List.flatMap_cons]
      cases test with
      | none =>
          show spelledSteps (.axis a :: (ps.map .predicate ++ ls.flatMap Leg.steps)) = _
          rw [spelledSteps, ha, beginsWithTest_legs, hrest]
          simp [Leg.spelled, Leg.steps, Leg.tests]
      | some test =>
          show spelledSteps
            (.axis a :: .name test :: (ps.map .predicate ++ ls.flatMap Leg.steps)) = _
          rw [spelledSteps, spelledSteps, hrest]
          simp [Leg.spelled, Leg.steps, Leg.tests, beginsWithTest]

theorem spelledSteps_rootSteps (absolute : Bool) (steps : List Step) :
    spelledSteps (rootSteps absolute ++ steps) = rootSteps absolute ++ spelledSteps steps := by
  cases absolute with
  | false => rfl
  | true => rfl

/-!
# Equal chains
-/

theorem beq_append {xs xs' ys ys' : List Step} (h : (xs == xs') = true) (h' : (ys == ys') = true) :
    (xs ++ ys == xs' ++ ys') = true := by
  induction xs generalizing xs' with
  | nil =>
      cases xs' with
      | nil => exact h'
      | cons x xs' => cases h
  | cons x xs ih =>
      cases xs' with
      | nil => cases h
      | cons x' xs' =>
          rcases Bool.and_eq_true_iff.mp h with ⟨hx, hxs⟩
          exact Bool.and_eq_true_iff.mpr ⟨hx, ih hxs⟩

theorem beq_spelled_predicates {context : DecimalContext} {ps : List Predicate}
    (h : ∀ p ∈ ps, p.expression.Printable context) :
    ((ps.map Predicate.reread).map Step.predicate ==
      (ps.map fun p => Predicate.ofExpression p.expression).map .predicate) = true := by
  induction ps with
  | nil => rfl
  | cons p ps ih =>
      rcases List.forall_mem_cons.mp h with ⟨hp, hps⟩
      have hfirst : (Step.predicate p.reread == .predicate (.ofExpression p.expression)) = true :=
        Bool.and_eq_true_iff.mpr ⟨Expression.same_trimmed hp, beq_self_eq_true _⟩
      exact Bool.and_eq_true_iff.mpr ⟨hfirst, ih hps⟩

theorem beq_spelled_legs {context : DecimalContext} {ls : List Leg}
    (h : ∀ l ∈ ls, ∀ p ∈ l.predicates, p.expression.Printable context) :
    ((ls.map Leg.reread).flatMap Leg.steps == (ls.map Leg.spelled).flatMap Leg.steps) = true := by
  induction ls with
  | nil => rfl
  | cons l ls ih =>
      rcases List.forall_mem_cons.mp h with ⟨hl, hls⟩
      have haxis : (l.axis == l.axis) = true := beq_self_eq_true _
      have htest : (l.test.getD .any == l.test.getD .any) = true := beq_self_eq_true _
      have hleg : (l.reread.steps == l.spelled.steps) = true :=
        Bool.and_eq_true_iff.mpr
          ⟨haxis, Bool.and_eq_true_iff.mpr ⟨htest, beq_spelled_predicates hl⟩⟩
      exact beq_append hleg (ih hls)

end Chain

/-!
# Compiling a text of legs
-/

namespace Query

variable {N : Type} {context : DecimalContext} {functions : Registry N} {q : Query N}

theorem keeps_any : Token.Keeps (NameRule.any.policy id) :=
  fun _ => rfl

theorem exists_compile {absolute : Bool} {ls : List Leg} (hne : absolute = false → ls ≠ [])
    (h : ∀ l ∈ ls, l.Compiled functions ⟨.decimal, context⟩ (NameRule.any.policy id)
      Grammar.maxNesting) :
    ∃ q : Query N,
      compile (String.ofList (Chain.pathChars absolute ls)) ⟨⟨.decimal, context⟩, .any⟩ id
          functions = .ok q ∧
        q.chain.steps = Chain.rootSteps absolute ++ (ls.map Leg.reread).flatMap Leg.steps := by
  rcases Token.exists_path keeps_any hne h with ⟨t, hform, hnesting, hchars, hcompile⟩
  have hparse := Token.parse_of_wellFormed hform hnesting
  rw [Token.text, hchars] at hparse
  have hquery : compile (String.ofList (Chain.pathChars absolute ls)) ⟨⟨.decimal, context⟩, .any⟩ id
      functions = _ := compile_of_parse hparse
  rw [hcompile] at hquery
  exact ⟨_, hquery, rfl⟩

section

variable [DecidableEq N] [Navigable N]

theorem toOption_select {text : String} {settings : QuerySettings} {factory : String → String}
    (h : compile text settings factory functions = .ok q) (start : N) :
    (q.select start).toOption =
      (q.chain.select functions settings.arithmetic start).toOption := by
  rcases compile_eq_ok_iff.mp h with ⟨token, chain, _, _, rfl⟩
  rw [select_eq]
  cases chain.select functions settings.arithmetic start with
  | ok ns => rfl
  | error e => rfl

/-- Legs that were read again select what the legs select, and so what any steps select for which
the legs can stand. -/
theorem toOption_select_reread {text : String} {c : Chain} {absolute : Bool} {ls : List Leg}
    (h : compile text ⟨⟨.decimal, context⟩, .any⟩ id functions = .ok q)
    (hchain : q.chain.steps = Chain.rootSteps absolute ++ (ls.map Leg.reread).flatMap Leg.steps)
    (hls : ∀ l ∈ ls, l.Compiled functions ⟨.decimal, context⟩ (NameRule.any.policy id)
      Grammar.maxNesting)
    (hindifferent : ∀ l ∈ ls, ∀ p ∈ l.predicates, p.expression.Indifferent functions)
    (hsteps : Environment.Interchangeable ⟨functions, ⟨.decimal, context⟩, fun _ => true⟩ true
      c.steps (Chain.rootSteps absolute ++ ls.flatMap Leg.steps)) (start : N) :
    (q.select start).toOption = (c.select functions ⟨.decimal, context⟩ start).toOption := by
  have hstable : ∀ l ∈ ls, ∀ p ∈ l.predicates,
      Environment.Stable ⟨functions, ⟨.decimal, context⟩, fun _ => true⟩ p := by
    intro l hl p hp
    have hprintable := ((hls l hl).predicates p hp).printable context rfl
    exact Environment.stable_of_indifferent rfl hprintable (hindifferent l hl p hp)
  have hlegs : Environment.Interchangeable ⟨functions, ⟨.decimal, context⟩, fun _ => true⟩ true
      (Chain.rootSteps absolute ++ ls.flatMap Leg.steps) q.chain.steps := by
    rw [hchain]
    cases absolute with
    | false => exact .legs hstable
    | true => exact .axis .root (.legs hstable)
  rw [toOption_select h]
  exact (Chain.toOption_select_congr (hsteps.trans hlegs) start).symm

/-- The text of a compiled chain is accepted and compiles to the same chain, with a star behind
every axis that had no node test and canonical predicates.  The text of that one is no different,
and both select the same nodes, unless a function that the query calls tells `1.50` from `1.5`. -/
theorem compile_displayText {text : String}
    (h : compile text ⟨⟨.decimal, context⟩, .any⟩ id functions = .ok q) :
    ∃ q' : Query N, compile q.chain.displayText ⟨⟨.decimal, context⟩, .any⟩ id functions = .ok q' ∧
      (q'.chain == q.chain.spelled) = true ∧
      q'.chain.displayText = q.chain.displayText ∧
      ((∀ p, .predicate p ∈ q.chain.steps → p.expression.Indifferent functions) →
        ∀ start, (q'.select start).toOption = (q.select start).toOption) := by
  rcases compile_eq_ok_iff.mp h with ⟨token, chain, hparse, hchain, rfl⟩
  rcases Token.wellFormed_of_parse hparse with ⟨hform, hnesting, _⟩
  have hcompiles := Token.compiles_of_wellFormed (NameRule.any.policy id) functions hform hnesting
  rw [hchain] at hcompiles
  rcases hcompiles with ⟨absolute, ls, hsteps, hne, hlegs⟩
  have haxes : ∀ l ∈ ls, l.axis ≠ .root := fun l hl => (hlegs l hl).axis
  have htext := Chain.displayText_legs hsteps haxes hne
  rcases exists_compile hne hlegs with ⟨q', hcompile, hsteps'⟩
  refine ⟨q', ?_, ?_, ?_, ?_⟩
  · show compile chain.displayText _ id functions = _
    rw [htext]
    exact hcompile
  · show (q'.chain.steps == Chain.spelledSteps chain.steps) = true
    have hroot : (Chain.rootSteps absolute == Chain.rootSteps absolute) = true := by
      cases absolute <;> rfl
    have hprintable : ∀ l ∈ ls, ∀ p ∈ l.predicates, p.expression.Printable context :=
      fun l hl p hp => ((hlegs l hl).predicates p hp).printable context rfl
    rw [hsteps', hsteps, Chain.spelledSteps_rootSteps, Chain.spelledSteps_legs haxes]
    exact Chain.beq_append hroot (Chain.beq_spelled_legs hprintable)
  · have hne' : absolute = false → ls.map Leg.reread ≠ [] :=
      fun habsolute hnil => hne habsolute (List.map_eq_nil_iff.mp hnil)
    show q'.chain.displayText = chain.displayText
    rw [Chain.displayText_legs hsteps' (Leg.axis_reread haxes) hne', htext, Chain.pathChars,
      Chain.pathChars, Leg.charsAll_reread]
  · intro hindifferent start
    have hlegsIndifferent : ∀ l ∈ ls, ∀ p ∈ l.predicates, p.expression.Indifferent functions := by
      intro l hl p hp
      apply hindifferent p
      show Step.predicate p ∈ chain.steps
      rw [hsteps]
      rw [← Chain.legs_flatMap ls] at hl
      exact List.mem_append_right _ ((Chain.within_legs _ l hl).predicates p hp)
    rw [toOption_select_reread (c := chain) hcompile hsteps' hlegs hlegsIndifferent
      (hsteps ▸ .refl _) start, toOption_select h]

/-- Short forms are spelled out and zeros at the end of a number are dropped. -/
theorem compile_displayText_shortForms :
    let text := ".//leaf[position() = 2.0]"
    let start := (Sample.forest.run 0).1
    ∃ q q' : Query Node, compile text ⟨⟨.decimal, .decimal⟩, .any⟩ id .builtins = .ok q ∧
      q.chain.displayText = "self::*/descendant-or-self::leaf[position() = 2]" ∧
      compile q.chain.displayText ⟨⟨.decimal, .decimal⟩, .any⟩ id .builtins = .ok q' ∧
      (q'.chain == q.chain.spelled) = true ∧
      (q'.select start).toOption.map (·.map Node.idOrDash) = some ["b"] := by
  intro text start
  have hrun : (compile text ⟨⟨.decimal, .decimal⟩, .any⟩ id (.builtins (N := Node))).toOption.map
      (fun q => (q.chain.displayText, (q.select start).toOption.map (·.map Node.idOrDash))) =
        some ("self::*/descendant-or-self::leaf[position() = 2]", some ["b"]) := by
    decide +kernel
  cases hcompile : compile text ⟨⟨.decimal, .decimal⟩, .any⟩ id (.builtins (N := Node)) with
  | error e =>
      rw [hcompile] at hrun
      cases hrun
  | ok q =>
      rw [hcompile] at hrun
      have hpair := Option.some.inj hrun
      rcases compile_displayText hcompile with ⟨q', hcompile', hsame, _, hselect⟩
      have hstart := hselect (fun _ _ => Or.inr (Registry.faithful_builtins _)) start
      refine ⟨q, q', rfl, congrArg Prod.fst hpair, hcompile', hsame, ?_⟩
      rw [hstart]
      exact congrArg Prod.snd hpair

/-- A function of the caller that looks at how a decimal is kept. -/
def scaleOf : Function Node :=
  Arguments.unary "scale" fun focus value =>
    match value with
    | .number (.decimal d) => .ok (.number (.count d.scale focus.arithmetic.representation))
    | _ => .error (.conversion value)

/-- With such a function the text of a chain does not select what the chain selects: the zero at the
end of `1.50` is not written. -/
theorem compile_displayText_scale :
    let functions := Registry.ofList [("scale", scaleOf)]
    let start := (Sample.forest.run 0).1
    let displayed := fun text : String =>
      (compile text .standard id functions).toOption.map (·.chain.displayText)
    let selected := fun text : String =>
      (compile text .standard id functions).toOption.bind fun q =>
        (q.select start).toOption.map (·.map Node.idOrDash)
    displayed "*[scale(1.50)]" = some "child::*[scale(1.5)]" ∧
      selected "*[scale(1.50)]" = some ["2"] ∧
      selected "child::*[scale(1.5)]" = some ["1"] := by
  decide +kernel

theorem exists_compile_selecting {c : Chain} {absolute : Bool} {ls : List Leg}
    (hne : absolute = false → ls ≠ [])
    (hlegs : ∀ l ∈ ls, l.Compiled functions ⟨.decimal, context⟩ (NameRule.any.policy id)
      Grammar.maxNesting)
    (htext : c.displayText = String.ofList (Chain.pathChars absolute ls))
    (hindifferent : ∀ l ∈ ls, ∀ p ∈ l.predicates, p.expression.Indifferent functions)
    (hsteps : Environment.Interchangeable ⟨functions, ⟨.decimal, context⟩, fun _ => true⟩ true
      c.steps (Chain.rootSteps absolute ++ ls.flatMap Leg.steps)) :
    ∃ q, compile c.displayText ⟨⟨.decimal, context⟩, .any⟩ id functions = .ok q ∧
      ∀ start, (q.select start).toOption =
        (c.select functions ⟨.decimal, context⟩ start).toOption := by
  rcases exists_compile hne hlegs with ⟨q, hcompile, hchain⟩
  rw [← htext] at hcompile
  exact ⟨q, hcompile, toOption_select_reread hcompile hchain hlegs hindifferent hsteps⟩

/-- The text of a chain that was put together by hand selects what the chain selects, if the chain
jumps to the root at its beginning only, nothing gets lost between two node tests behind one axis,
names, numbers and texts can be written in a query, and the functions are known and do not tell
`1.50` from `1.5`. -/
theorem compile_displayText_of_tidy {c : Chain} {absolute : Bool} {rest : List Step}
    (hsteps : c.steps = Chain.rootSteps absolute ++ rest)
    (hregular : Chain.Regular functions ⟨.decimal, context⟩ (NameRule.any.policy id)
      Grammar.maxNesting rest)
    (htidy : Chain.tidy true rest = true)
    (hindifferent : ∀ p, .predicate p ∈ rest → p.expression.Indifferent functions) :
    ∃ q, compile c.displayText ⟨⟨.decimal, context⟩, .any⟩ id functions = .ok q ∧
      ∀ start, (q.select start).toOption =
        (c.select functions ⟨.decimal, context⟩ start).toOption := by
  cases c with
  | mk steps =>
      change steps = _ at hsteps
      subst hsteps
      have hlegs : Environment.Interchangeable ⟨functions, ⟨.decimal, context⟩, fun _ => true⟩ true
          (Chain.rootSteps absolute ++ rest)
          (Chain.rootSteps absolute ++ (Chain.legs rest).flatMap Leg.steps) := by
        cases absolute with
        | false => exact Chain.interchangeable_legs rfl htidy
        | true => exact .axis .root (Chain.interchangeable_legs rfl htidy)
      have hlegsIndifferent : ∀ l ∈ Chain.legs rest, ∀ p ∈ l.predicates,
          p.expression.Indifferent functions :=
        fun l hl p hp => hindifferent p ((Chain.within_legs rest l hl).predicates p hp)
      by_cases hempty : absolute = false ∧ rest = []
      · -- The empty chain is written as a step from the node to itself.
        rcases hempty with ⟨rfl, rfl⟩
        have hself : ∀ l ∈ [(⟨.self, none, []⟩ : Leg)], l.Compiled functions ⟨.decimal, context⟩
            (NameRule.any.policy id) Grammar.maxNesting :=
          List.forall_mem_singleton.mpr ⟨nofun, nofun, nofun⟩
        have htext : (⟨Chain.rootSteps false ++ []⟩ : Chain).displayText =
            String.ofList (Chain.pathChars false [⟨.self, none, []⟩]) := rfl
        exact exists_compile_selecting (fun _ => List.cons_ne_nil _ _) hself htext
          (List.forall_mem_singleton.mpr nofun) (.self_of_single rfl (.refl []))
      · have hrest : absolute = false → rest ≠ [] := fun habsolute hnil => hempty ⟨habsolute, hnil⟩
        exact exists_compile_selecting (fun habsolute => Chain.legs_ne_nil (hrest habsolute))
          hregular.legs (Chain.displayText_eq rfl hregular.root hrest) hlegsIndifferent hlegs

end

/-- The second node test behind an axis has no predicate directly behind it. -/
theorem compile_displayText_of_tidy_branches :
    let second : Predicate :=
      .ofExpression (.number (.decimal ⟨false, 20, 1, by decide, by decide⟩))
    let rest : List Step := [.name (.named "root"), .axis .child, .name .any,
      .name (.named "branch"), .axis .child, .predicate second]
    let c : Chain := ⟨Chain.rootSteps true ++ rest⟩
    let start := (Sample.forest.run 0).1
    Chain.Regular (N := Node) .builtins ⟨.decimal, .decimal⟩ (NameRule.any.policy id)
        Grammar.maxNesting rest ∧
      Chain.tidy true rest = true ∧
      c.displayText = "/self::root/child::*/self::branch/child::*[2]" ∧
      ∃ q : Query Node, compile c.displayText ⟨⟨.decimal, .decimal⟩, .any⟩ id .builtins = .ok q ∧
        (q.select start).toOption.map (·.map Node.idOrDash) = some ["b", "d"] := by
  intro second rest c start
  have hregular : Chain.Regular (N := Node) .builtins ⟨.decimal, .decimal⟩ (NameRule.any.policy id)
      Grammar.maxNesting rest := by
    constructor
    · simp [rest]
    · intro test htest
      have hname : ∀ name ∈ ["root", "branch"], Lexeme.IsName name.toList := by
        decide +kernel
      simp only [rest, List.mem_cons, Step.name.injEq, reduceCtorEq, List.not_mem_nil, or_false,
        false_or] at htest
      rcases htest with rfl | rfl | rfl
      · exact ⟨"root", hname _ (by decide), rfl⟩
      · trivial
      · exact ⟨"branch", hname _ (by decide), rfl⟩
    · intro p hp
      simp only [rest, List.mem_cons, Step.predicate.injEq, reduceCtorEq, List.not_mem_nil,
        or_false, false_or] at hp
      subst hp
      refine ⟨nofun, by decide, ?_⟩
      rintro context ⟨⟩
      exact ⟨by decide, 2, 1, by decide, rfl⟩
  have htext : c.displayText = "/self::root/child::*/self::branch/child::*[2]" := by
    decide +kernel
  have hselected : (c.select .builtins ⟨.decimal, .decimal⟩ start).toOption.map
      (·.map Node.idOrDash) = some ["b", "d"] := by
    decide +kernel
  rcases compile_displayText_of_tidy (N := Node) (c := c) rfl hregular rfl
    (fun _ _ => Or.inr (Registry.faithful_builtins _)) with ⟨q, hcompile, hselect⟩
  refine ⟨hregular, rfl, htext, q, hcompile, ?_⟩
  rw [hselect start]
  exact hselected

/-- Two jumps to the root in a row cannot be read, a later jump is taken for a slash, and a position
behind a second node test counts from one for every candidate. -/
theorem displayText_misread :
    let start := (Sample.forest.run 0).1
    let selected := fun c : Chain =>
      (c.select .builtins .standard start).toOption.map (·.map Node.idOrDash)
    let reread := fun c : Chain =>
      (compile c.displayText .standard id .builtins).toOption.bind fun q =>
        (q.select start).toOption.map (·.map Node.idOrDash)
    let twice := (Chain.empty.axis .root).axis .root
    let later := ((Chain.empty.axis .child).axis .root).axis .child
    let untidy := (((Chain.empty.axis .child).anyName).anyName).position 2
    (twice.displayText = "//" ∧ (Token.parse "//" .standard).toOption.isNone = true ∧
        selected twice = some ["-"]) ∧
      (later.displayText = "child::*/child::*" ∧ selected later = some ["1", "2", "3"] ∧
        reread later = some ["a", "b", "c", "d", "f", "g"]) ∧
      untidy.displayText = "child::*/self::*[2]" ∧ selected untidy = some ["2"] ∧
        reread untidy = some [] := by
  decide +kernel

end Query
end TreeQuery
