import TreeQuery.Proofs.Chain.Compiling
import TreeQuery.Proofs.Chain.Congruence
import TreeQuery.Proofs.Parser.Soundness
import TreeQuery.Proofs.Token.Gist

/-!
# Paraphrases

Two texts whose tokens have the same gist say the same thing.  They compile to
the same chain, but for the texts of its predicates, or fail with the same
error.
-/

namespace TreeQuery

namespace CompileAlike

variable {A A' A'' : Type}

theorem symm {relation : A → A' → Prop} {m : Except SelectError A} {m' : Except SelectError A'}
    (h : CompileAlike relation m m') : CompileAlike (fun a' a => relation a a') m' m := by
  rcases h.cases with ⟨a, a', rfl, rfl, ha⟩ | ⟨e, e', rfl, rfl, he⟩
  · exact ha
  · exact he.symm

theorem trans {first : A → A' → Prop} {second : A' → A'' → Prop} {m : Except SelectError A}
    {m' : Except SelectError A'} {m'' : Except SelectError A''} (h : CompileAlike first m m')
    (h' : CompileAlike second m' m'') :
    CompileAlike (fun a a'' => ∃ a', first a a' ∧ second a' a'') m m'' := by
  rcases h.cases with ⟨a, a', rfl, rfl, ha⟩ | ⟨e, e', rfl, rfl, he⟩
  · cases m'' with
    | ok a'' => exact ⟨a', ha, h'⟩
    | error e => exact h'.elim
  · cases m'' with
    | ok a'' => exact h'.elim
    | error e'' => exact he.trans h'

theorem imp {relation relation' : A → A' → Prop} {m : Except SelectError A}
    {m' : Except SelectError A'} (h : CompileAlike relation m m')
    (himp : ∀ a a', relation a a' → relation' a a') : CompileAlike relation' m m' := by
  rcases h.cases with ⟨a, a', rfl, rfl, ha⟩ | ⟨e, e', rfl, rfl, he⟩
  · exact himp a a' ha
  · exact he

end CompileAlike

namespace Token

variable {N : Type} {policy : NamePolicy} {functions : Registry N} {t : Token} {ts : List Token}

abbrev SameSteps : Except SelectError (List Step) → Except SelectError (List Step) → Prop :=
  CompileAlike fun steps steps' => steps.map Step.textless = steps'.map Step.textless

def KeepsSteps (policy : NamePolicy) (functions : Registry N) (t : Token) : Prop :=
  SameSteps (t.toSteps policy functions) (t.gist.toSteps policy functions)

/-!
# Predicates
-/

theorem gistAll_of_operand (ht : t.isOperand = true) (ts : List Token) :
    gistAll (t :: ts) = t.gist :: gistAll ts := by
  rw [gistAll, if_neg]
  intro hblank
  rw [isOperand_of_isBlank hblank] at ht
  cases ht

theorem IsPredicate.keepsSteps (h : IsPredicate t) : t.KeepsSteps policy functions := by
  cases h with
  | @enclosed opening closing before after inner hbefore hinner hafter =>
      rcases exists_stands hinner with ⟨e, he⟩
      have hgist : (phrase .predicate (.leaf (.symbol .openBracket) opening :: before ++
          inner :: after ++ [.leaf (.symbol .closeBracket) closing])).gist =
            .phrase .predicate (.leaf (.symbol .openBracket) "" :: [] ++ inner.gist :: [] ++
              [.leaf (.symbol .closeBracket) ""]) := by
        rw [gist_phrase _ _ (by decide)]
        simp only [List.cons_append, List.append_assoc, List.nil_append]
        rw [gistAll, hbefore.gistAll_append, gistAll_of_operand hinner.isOperand,
          hafter.gistAll_append]
        rfl
      have hbody : inner.gist.toExpression = .ok e := by
        rw [toExpression_gist hinner, he.meaning]
      have hoperand : inner.gist.isOperand = true := by
        rw [isOperand_gist, hinner.isOperand]
      unfold KeepsSteps
      rw [hgist, toSteps, toSteps, toPredicate_enclosed hbefore hinner.isOperand he.meaning,
        toPredicate_enclosed .none hoperand hbody]
      cases e.functionNames.find? (!functions.contains ·) with
      | some missing => exact rfl
      | none => exact rfl

/-!
# Rows of tokens
-/

theorem keepsSteps_of_isLeaf (h : t.isLeaf = true) : t.KeepsSteps policy functions := by
  cases t with
  | leaf lexeme text =>
      have hgist : (leaf lexeme text).gist.toSteps policy functions =
          (leaf lexeme text).toSteps policy functions := by
        cases lexeme <;> rfl
      unfold KeepsSteps
      rw [hgist]
      cases (leaf lexeme text).toSteps policy functions with
      | ok steps => exact rfl
      | error e => exact rfl
  | phrase kind parts => cases h

theorem toStepsAll_of_isBlank (ht : t.isBlank = true) (ts : List Token) :
    toStepsAll policy functions (t :: ts) = toStepsAll policy functions ts := by
  cases t with
  | leaf lexeme text =>
      cases lexeme with
      | blank => exact toStepsAll_leaf .blank nofun nofun text ts
      | _ => cases ht
  | phrase kind parts => cases ht

theorem toStepsAll_gistAll (h : ∀ t ∈ ts, t.KeepsSteps policy functions) :
    SameSteps (toStepsAll policy functions ts) (toStepsAll policy functions (gistAll ts)) := by
  induction ts with
  | nil => exact rfl
  | cons t ts ih =>
      rcases List.forall_mem_cons.mp h with ⟨ht, hts⟩
      rw [gistAll]
      split
      · rename_i hblank
        rw [toStepsAll_of_isBlank hblank]
        exact ih hts
      · rw [toStepsAll, toStepsAll]
        apply ht.bind
        intro steps steps' hsteps
        apply (ih hts).bind
        intro more more' hmore
        show (steps ++ more).map _ = (steps' ++ more').map _
        rw [List.map_append, List.map_append, hsteps, hmore]

/-!
# Steps
-/

theorem stepAxis_gistAll {parts : List Token}
    (h : ∀ t ∈ parts, t.isLeaf = true ∨ IsPredicate t) :
    stepAxis (gistAll parts) = stepAxis parts := by
  unfold stepAxis
  apply congrArg fun mark? => (Option.map AxisMark.axis mark?).getD .child
  induction parts with
  | nil => rfl
  | cons t ts ih =>
      rcases List.forall_mem_cons.mp h with ⟨ht, hts⟩
      rw [gistAll, List.findSome?_cons, ← ih hts]
      cases t with
      | leaf lexeme text => cases lexeme <;> rfl
      | phrase kind parts =>
          rcases ht with hleaf | hpredicate
          · cases hleaf
          · cases hpredicate with
            | enclosed => rfl

theorem IsStep.keepsSteps (h : IsStep t) : t.KeepsSteps policy functions := by
  rcases h.exists_phrase with ⟨parts, rfl⟩
  have hparts := h.forall_mem
  have hrow : SameSteps (toStepsAll policy functions parts)
      (toStepsAll policy functions (gistAll parts)) :=
    toStepsAll_gistAll fun t ht =>
      (hparts t ht).elim keepsSteps_of_isLeaf IsPredicate.keepsSteps
  unfold KeepsSteps
  rw [gist_phrase _ _ (by decide), toSteps, toSteps, stepAxis_gistAll hparts]
  apply hrow.bind
  intro steps steps' hsteps
  exact congrArg (_ :: ·) hsteps

/-!
# Paths
-/

theorem compile_gist (h : IsPath t) :
    CompileAlike (fun c c' : Chain => c.textless = c'.textless)
      (t.compile policy functions) (t.gist.compile policy functions) := by
  rcases h.exists_phrase with ⟨absolute, parts, rfl⟩
  have hparts := h.forall_mem
  have hrow : SameSteps (toStepsAll policy functions parts)
      (toStepsAll policy functions (gistAll parts)) :=
    toStepsAll_gistAll fun t ht =>
      (hparts t ht).elim (keepsSteps_of_isLeaf ∘ isLeaf_of_not_isOperand) IsStep.keepsSteps
  have hgist : (phrase (.path absolute) parts).gist = .phrase (.path absolute) (gistAll parts) :=
    gist_phrase (.path absolute) parts nofun
  rw [hgist, compile_path, compile_path, toSteps, toSteps]
  apply CompileAlike.map (hrow.bind _)
  · exact fun _ _ hsteps => congrArg Chain.mk hsteps
  · intro steps steps' hsteps
    show (_ ++ steps).map _ = (_ ++ steps').map _
    rw [List.map_append, List.map_append, hsteps]

/-- Texts with the same gist compile to the same chain, apart from the texts of predicates, or fail
with the same error. -/
theorem compile_eq_of_gist_eq {text text' : String} {arithmetic arithmetic' : Arithmetic}
    {t t' : Token} (h : Token.parse text arithmetic = .ok t)
    (h' : Token.parse text' arithmetic' = .ok t') (hgist : (t.gist == t'.gist) = true)
    (policy : NamePolicy) (functions : Registry N) :
    CompileAlike (fun c c' : Chain => (c.textless == c'.textless) = true)
      (t.compile policy functions) (t'.compile policy functions) := by
  have hleft : CompileAlike _ (t.compile policy functions) (t.gist.compile policy functions) :=
    compile_gist (wellFormed_of_parse h).1.1
  have hright : CompileAlike _ (t'.compile policy functions) (t'.gist.compile policy functions) :=
    compile_gist (wellFormed_of_parse h').1.1
  have hgists : CompileAlike _ (t.gist.compile policy functions)
      (t'.gist.compile policy functions) :=
    compile_congr hgist
  apply (hleft.trans (hgists.trans hright.symm)).imp
  rintro c c' ⟨g, hc, g', hsame, hc'⟩
  rw [hc, hc']
  exact hsame

/-- Capitals, blanks and parentheses. -/
theorem compile_eq_of_gist_eq_spaced :
    let spaced := " CHILD::leaf [ ((2)) OR\t(not( (@id) )) ] "
    let plain := "child::leaf[2 or not(@id)]"
    let functions : Registry Node := .builtins
    ∃ t t', Token.parse spaced .standard = .ok t ∧ Token.parse plain .standard = .ok t' ∧
      (t.gist == t'.gist) = true ∧
        CompileAlike (fun c c' : Chain => (c.textless == c'.textless) = true)
          (t.compile (.permissive id) functions) (t'.compile (.permissive id) functions) ∧
          (t'.compile (.permissive id) functions).toOption.map Chain.displayText =
            some "child::leaf[2 or not(@id)]" := by
  intro spaced plain functions
  have hgists : ((Token.parse spaced .standard).toOption.bind fun t =>
      (Token.parse plain .standard).toOption.map fun t' =>
        (t.gist == t'.gist, (t'.compile (.permissive id) functions).toOption.map
          Chain.displayText)) = some (true, some "child::leaf[2 or not(@id)]") := by
    decide +kernel
  cases h : Token.parse spaced .standard with
  | error e =>
      rw [h] at hgists
      cases hgists
  | ok t =>
      cases h' : Token.parse plain .standard with
      | error e =>
          rw [h, h'] at hgists
          cases hgists
      | ok t' =>
          rw [h, h'] at hgists
          rcases Prod.mk.inj (Option.some.inj hgists) with ⟨hgist, hcompiled⟩
          exact ⟨t, t', rfl, rfl, hgist,
            compile_eq_of_gist_eq h h' hgist (.permissive id) functions, hcompiled⟩

end Token
end TreeQuery
