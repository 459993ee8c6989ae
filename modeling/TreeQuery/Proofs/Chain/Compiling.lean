import TreeQuery.Proofs.Chain.Building
import TreeQuery.Proofs.Parser.Soundness
import TreeQuery.Proofs.Token.Mentions
import TreeQuery.Tree.Node

/-!
# Compiling

A path of the grammar has the form that compiling counts on, down to the body
of every predicate.  So the names that the path mentions decide: the first one
that is not allowed or not known is the error, and otherwise every step of the
path becomes an axis, perhaps a name test, and predicates.
-/

namespace TreeQuery

/-- What one step of a query becomes. -/
structure Leg where
  axis : Axis
  test : Option NameTest
  predicates : List Predicate

namespace Leg

def tests (l : Leg) : List Step :=
  l.test.toList.map .name ++ l.predicates.map .predicate

def steps (l : Leg) : List Step :=
  .axis l.axis :: l.tests

end Leg

def Chain.rootSteps (absolute : Bool) : List Step :=
  if absolute then [.axis .root] else []

/-!
# What the mentions decide
-/

section

variable {N : Type} {policy : NamePolicy} {functions : Registry N}

namespace Mention

def allowed (policy : NamePolicy) (functions : Registry N) : Mention → Bool
  | .step name => policy.allows name
  | .function name _ => functions.contains name

def error : Mention → SelectError
  | .step name => .illegalName name
  | .function name body => .unknownFunction name body

end Mention

/-- The first mention that is not allowed is the error.  If there is none, the outcome is as
described. -/
def Settles {A : Type} (policy : NamePolicy) (functions : Registry N)
    (mentions : List (Nat × Mention)) (outcome : Except SelectError A) (result : A → Prop) : Prop :=
  match mentions.find? fun x => !x.2.allowed policy functions with
  | some x => outcome = .error x.2.error
  | none => ∃ a, outcome = .ok a ∧ result a

namespace Settles

variable {A B : Type} {xs ys : List (Nat × Mention)} {result : A → Prop} {made : B → Prop}

theorem bind {m : Except SelectError B} {k : B → Except SelectError A}
    (hm : Settles policy functions xs m made)
    (hk : ∀ b, made b → Settles policy functions ys (k b) result) :
    Settles policy functions (xs ++ ys) (m >>= k) result := by
  unfold Settles at hm ⊢
  rw [List.find?_append]
  cases hx : xs.find? fun x => !x.2.allowed policy functions with
  | some x =>
      rw [hx] at hm
      cases hm
      exact rfl
  | none =>
      rw [hx] at hm
      rcases hm with ⟨b, rfl, hb⟩
      exact hk b hb

theorem ok {a : A} (h : result a) : Settles policy functions [] (.ok a) result :=
  ⟨a, rfl, h⟩

theorem map {m : Except SelectError B} {f : B → A} (hm : Settles policy functions xs m made)
    (hf : ∀ b, made b → result (f b)) :
    Settles policy functions xs (m >>= fun b => .ok (f b)) result := by
  have hbind := hm.bind fun b hb => ok (hf b hb)
  rw [List.append_nil] at hbind
  exact hbind

theorem imp {m : Except SelectError A} {result' : A → Prop}
    (h : Settles policy functions xs m result) (himp : ∀ a, result a → result' a) :
    Settles policy functions xs m result' := by
  have hmap := h.map himp
  rw [show (m >>= fun a => Except.ok a) = m from bind_pure m] at hmap
  exact hmap

theorem ok_iff {m : Except SelectError A} (h : Settles policy functions xs m result) :
    (∃ a, m = .ok a) ↔ ∀ x ∈ xs, x.2.allowed policy functions = true := by
  unfold Settles at h
  split at h
  · rename_i x hx
    have hmem := List.mem_of_find?_eq_some hx
    have hnot := List.find?_some hx
    constructor
    · rintro ⟨a, rfl⟩
      cases h
    · intro hall
      rw [hall x hmem] at hnot
      cases hnot
  · rename_i hnone
    rcases h with ⟨a, rfl, _⟩
    constructor
    · intro _ x hx
      simpa using List.find?_eq_none.mp hnone x hx
    · exact fun _ => ⟨a, rfl⟩

end Settles

end

namespace Token

variable {N : Type} {policy : NamePolicy} {functions : Registry N} {t : Token} {ts : List Token}

/-!
# What the steps of a path become
-/

def isStep : Token → Bool
  | .phrase .step _ => true
  | _ => false

theorem isStep_of_not_isOperand (h : t.isOperand = false) : t.isStep = false := by
  cases t with
  | leaf => rfl
  | phrase => cases h

theorem IsStep.isStep (h : IsStep t) : t.isStep = true := by
  cases h with
  | step => rfl

def steps : Token → List Token
  | .leaf _ _ => []
  | .phrase _ parts => parts.filter isStep

def isAbsolute (t : Token) : Bool :=
  match t.leaves.find? fun leaf => !(Token.leaf leaf.1 leaf.2).isBlank with
  | some (.symbol .slash, _) => true
  | _ => false

inductive Tests (policy : NamePolicy) : Token → NameTest → Prop where
  | wildcard {text : String} : Tests policy (.leaf .wildcard text) .any
  | name {n text : String} : Tests policy (.leaf (.name n) text) (.named (policy.factory n))

inductive Heads (policy : NamePolicy) : List Token → Axis → Option NameTest → Prop where
  | plain {t : Token} {test : NameTest} (h : Tests policy t test) :
      Heads policy [t] .child (some test)
  | marked {mark : AxisMark} {text : String} {t : Token} {test : NameTest}
      (h : Tests policy t test) : Heads policy [.leaf (.axis mark) text, t] mark.axis (some test)
  | alone {mark : AxisMark} {text : String} : Heads policy [.leaf (.axis mark) text] mark.axis none

inductive Brackets (functions : Registry N) : List Token → Predicate → Prop where
  | enclosed {opening closing : String} {space before after : List Token} {inner : Token}
      {e : Expression} (hspace : IsGap space) (hbefore : IsGap before)
      (hinner : IsExpression 5 inner) (hafter : IsGap after) (he : inner.toExpression = .ok e)
      (hknown : ∀ name ∈ e.functionNames, functions.contains name = true) :
      Brackets functions (space ++ [.phrase .predicate
        (.leaf (.symbol .openBracket) opening :: before ++
          inner :: after ++ [.leaf (.symbol .closeBracket) closing])]) ⟨e, inner.text⟩

/-- A step and the leg that it becomes, with one predicate for each pair of brackets. -/
inductive Renders (policy : NamePolicy) (functions : Registry N) : Token → Leg → Prop where
  | step {heading : List Token} {brackets : List (List Token)} {axis : Axis}
      {test : Option NameTest} {predicates : List Predicate}
      (hheading : Heads policy heading axis test)
      (hbrackets : List.Forall₂ (Brackets functions) brackets predicates) :
      Renders policy functions (.phrase .step (heading ++ brackets.flatten))
        ⟨axis, test, predicates⟩

/-!
# Rows of tokens
-/

theorem toStepsAll_append (policy : NamePolicy) (functions : Registry N) (xs ys : List Token) :
    toStepsAll policy functions (xs ++ ys) = (do
      let steps ← toStepsAll policy functions xs
      let more ← toStepsAll policy functions ys
      return steps ++ more) := by
  induction xs with
  | nil =>
      rw [toStepsAll, List.nil_append]
      cases toStepsAll policy functions ys with
      | ok more => rfl
      | error e => rfl
  | cons t ts ih =>
      simp only [List.cons_append, toStepsAll, ih, bind_assoc, pure_bind, List.append_assoc]

theorem toStepsAll_leaf (lexeme : Lexeme) (hname : ∀ n, lexeme ≠ .name n)
    (hstar : lexeme ≠ .wildcard) (text : String) (ts : List Token) :
    toStepsAll policy functions (.leaf lexeme text :: ts) = toStepsAll policy functions ts := by
  rw [toStepsAll, toSteps]
  · cases toStepsAll policy functions ts with
    | ok steps => rfl
    | error e => rfl
  · exact hname
  · exact hstar

theorem toStepsAll_symbol (s : Symbol) (text : String) (ts : List Token) :
    toStepsAll policy functions (.leaf (.symbol s) text :: ts) =
      toStepsAll policy functions ts :=
  toStepsAll_leaf (.symbol s) nofun nofun text ts

def RowSettles (policy : NamePolicy) (functions : Registry N) (ts : List Token)
    (result : List Step → Prop) : Prop :=
  ∀ place, Settles policy functions (along mentionsFrom place ts)
    (toStepsAll policy functions ts) result

section

variable {xs ys : List Token} {first second result : List Step → Prop}

theorem rowSettles_append (hxs : RowSettles policy functions xs first)
    (hys : RowSettles policy functions ys second) :
    RowSettles policy functions (xs ++ ys) fun steps =>
      ∃ a b, steps = a ++ b ∧ first a ∧ second b := by
  intro place
  rw [along_append, toStepsAll_append]
  apply (hxs place).bind
  intro a ha
  apply (hys _).map
  intro b hb
  exact ⟨a, b, rfl, ha, hb⟩

theorem rowSettles_singleton
    (h : ∀ place, Settles policy functions (mentionsFrom place t) (toSteps policy functions t)
      result) : RowSettles policy functions [t] result := by
  intro place
  rw [along_singleton, toStepsAll]
  apply (h place).map
  intro steps hsteps
  rw [List.append_nil]
  exact hsteps

theorem rowSettles_nil : RowSettles policy functions [] fun steps => steps = [] :=
  fun _ => .ok rfl

theorem rowSettles_leaf (lexeme : Lexeme) (hname : ∀ n, lexeme ≠ .name n)
    (hstar : lexeme ≠ .wildcard) (text : String) :
    RowSettles policy functions [.leaf lexeme text] fun steps => steps = [] := by
  intro place
  rw [toStepsAll_leaf lexeme hname hstar, along_singleton]
  cases lexeme with
  | name n => exact absurd rfl (hname n)
  | _ => exact .ok rfl

theorem rowSettles_of_not_isOperand (h : t.isOperand = false) :
    RowSettles policy functions [t] fun steps => steps = [] := by
  cases t with
  | leaf lexeme text =>
      apply rowSettles_leaf
      · rintro n rfl
        cases h
      · rintro rfl
        cases h
  | phrase kind parts => cases h

theorem IsGap.rowSettles {gap : List Token} (h : IsGap gap) :
    RowSettles policy functions gap fun steps => steps = [] := by
  cases h with
  | none => exact rowSettles_nil
  | blank => exact rowSettles_of_not_isOperand rfl

theorem rowSettles_after (hxs : RowSettles policy functions xs fun steps => steps = [])
    (hys : RowSettles policy functions ys result) :
    RowSettles policy functions (xs ++ ys) result := by
  intro place
  apply (rowSettles_append hxs hys place).imp
  rintro _ ⟨_, b, rfl, rfl, hb⟩
  exact hb

theorem rowSettles_flatten {A : Type} {write : A → List Step} {relation : List Token → A → Prop}
    {found : List (List Token)}
    (h : ∀ ts ∈ found, RowSettles policy functions ts fun steps =>
      ∃ a, steps = write a ∧ relation ts a) :
    RowSettles policy functions found.flatten fun steps =>
      ∃ made : List A, steps = made.flatMap write ∧ List.Forall₂ relation found made := by
  induction found with
  | nil => exact fun _ => .ok ⟨[], rfl, .nil⟩
  | cons ts found ih =>
      rcases List.forall_mem_cons.mp h with ⟨hts, hfound⟩
      intro place
      apply (rowSettles_append hts (ih hfound) place).imp
      rintro _ ⟨_, _, rfl, ⟨a, rfl, ha⟩, made, rfl, hmade⟩
      exact ⟨a :: made, rfl, .cons ha hmade⟩

end

/-!
# Predicates
-/

theorem IsGap.find?_append {gap : List Token} (h : IsGap gap) (ts : List Token) :
    (gap ++ ts).find? isOperand = ts.find? isOperand := by
  cases h with
  | none => rfl
  | blank => rfl

theorem toPredicate_enclosed {opening closing : String} {before after : List Token}
    {inner : Token} {e : Expression} (hbefore : IsGap before) (hinner : inner.isOperand = true)
    (he : inner.toExpression = .ok e) :
    toPredicate functions (.leaf (.symbol .openBracket) opening :: before ++
        inner :: after ++ [.leaf (.symbol .closeBracket) closing]) =
      match e.functionNames.find? (!functions.contains ·) with
      | some missing => .error (.unknownFunction missing inner.text)
      | none => .ok ⟨e, inner.text⟩ := by
  have hfind : (leaf (.symbol .openBracket) opening :: before ++
      inner :: after ++ [leaf (.symbol .closeBracket) closing]).find? isOperand = some inner := by
    simp only [List.cons_append, List.append_assoc]
    show (before ++ _).find? isOperand = some inner
    rw [hbefore.find?_append, List.find?_cons_of_pos hinner]
  unfold toPredicate
  rw [hfind]
  show inner.toExpression.bind _ = _
  rw [he]
  rfl

theorem find?_functionsFrom (policy : NamePolicy) (functions : Registry N) (place : Nat)
    (body : Token) :
    ((functionsFrom place body).find? fun x => !x.2.allowed policy functions).map Prod.snd =
      (((callsFrom place body).map Prod.snd).find? (!functions.contains ·)).map
        (Mention.function · body.text) := by
  rw [functionsFrom, List.find?_map, List.find?_map, Option.map_map, Option.map_map]
  rfl

theorem settles_predicate (h : IsPredicate t) (place : Nat) :
    Settles policy functions (mentionsFrom place t) (toSteps policy functions t) fun steps =>
      ∃ p, steps = [.predicate p] ∧ ∀ space, IsGap space →
        Brackets functions (space ++ [t]) p := by
  cases h with
  | @enclosed opening closing before after inner hbefore hinner hafter =>
      rcases exists_stands hinner with ⟨e, he⟩
      have hfind := find?_functionsFrom policy functions
        (place + opening.toList.length + (charsAll before).length) inner
      rw [map_callsFrom hinner he.meaning] at hfind
      rw [mentionsFrom_enclosed hbefore hafter, toSteps,
        toPredicate_enclosed hbefore hinner.isOperand he.meaning]
      unfold Settles
      cases hmissing : e.functionNames.find? (!functions.contains ·) with
      | some missing =>
          rw [hmissing] at hfind
          rcases Option.map_eq_some_iff.mp hfind with ⟨x, hx, hname⟩
          rw [hx]
          show _ = Except.error x.2.error
          rw [hname]
          rfl
      | none =>
          rw [hmissing] at hfind
          rw [Option.map_eq_none_iff.mp hfind]
          have hknown : ∀ name ∈ e.functionNames, functions.contains name = true := by
            intro name hname
            simpa using List.find?_eq_none.mp hmissing name hname
          exact ⟨_, rfl, ⟨e, inner.text⟩, rfl,
            fun space hspace => .enclosed hspace hbefore hinner hafter he.meaning hknown⟩

theorem rowSettles_spacedPredicate (h : IsSpacedPredicate ts) :
    RowSettles policy functions ts fun steps =>
      ∃ p, steps = [.predicate p] ∧ Brackets functions ts p := by
  cases h with
  | @spaced space t hspace h =>
      apply rowSettles_after hspace.rowSettles
      apply rowSettles_singleton
      intro place
      apply (settles_predicate h place).imp
      rintro _ ⟨p, rfl, hp⟩
      exact ⟨p, rfl, hp space hspace⟩

/-!
# Steps
-/

theorem rowSettles_nodeTest (h : IsNodeTest t) :
    RowSettles policy functions [t] fun steps =>
      ∃ test, steps = [.name test] ∧ Tests policy t test := by
  apply rowSettles_singleton
  intro place
  cases h with
  | wildcard => exact .ok ⟨.any, rfl, .wildcard⟩
  | @name n text =>
      rw [mentionsFrom, toSteps, NamePolicy.name]
      unfold Settles
      cases hallows : policy.allows n with
      | true =>
          rw [List.find?_cons_of_neg (by simp [Mention.allowed, hallows])]
          exact ⟨_, rfl, .named (policy.factory n), rfl, .name⟩
      | false =>
          rw [List.find?_cons_of_pos (by simp [Mention.allowed, hallows])]
          exact rfl

theorem rowSettles_heading (h : IsHeading ts) :
    RowSettles policy functions ts fun steps =>
      ∃ test, steps = test.toList.map .name ∧ Heads policy ts (stepAxis ts) test := by
  cases h with
  | @plain t h =>
      intro place
      apply (rowSettles_nodeTest h place).imp
      rintro _ ⟨test, rfl, htest⟩
      have hchild : stepAxis [t] = .child := by
        cases h with
        | wildcard => rfl
        | name => rfl
      rw [hchild]
      exact ⟨some test, rfl, .plain htest⟩
  | @marked mark text test h =>
      intro place
      apply (rowSettles_after (rowSettles_leaf (.axis mark) nofun nofun text)
        (rowSettles_nodeTest h) place).imp
      rintro _ ⟨test, rfl, htest⟩
      exact ⟨some test, rfl, .marked htest⟩
  | @alone mark text =>
      intro place
      apply (rowSettles_leaf (.axis mark) nofun nofun text place).imp
      rintro _ rfl
      exact ⟨none, rfl, .alone⟩

theorem stepAxis_append {heading : List Token} {brackets : List (List Token)}
    (h : ∀ x ∈ brackets, IsSpacedPredicate x) :
    stepAxis (heading ++ brackets.flatten) = stepAxis heading := by
  -- Brackets do not say anything about the axis.
  unfold stepAxis
  rw [List.findSome?_append, (List.findSome?_eq_none_iff (l := brackets.flatten)).mpr,
    Option.or_none]
  intro t ht
  rcases List.mem_flatten.mp ht with ⟨x, hx, ht⟩
  rcases (h x hx).forall_mem t ht with hquiet | hpredicate
  · split
    · cases hquiet
    · rfl
  · cases hpredicate with
    | enclosed => rfl

theorem settles_step (h : IsStep t) (place : Nat) :
    Settles policy functions (mentionsFrom place t) (toSteps policy functions t) fun steps =>
      ∃ leg : Leg, steps = leg.steps ∧ Renders policy functions t leg := by
  cases h with
  | @step heading brackets hheading hbrackets =>
      have hrest : RowSettles policy functions brackets.flatten fun steps =>
          ∃ ps : List Predicate, steps = ps.flatMap (fun p => [.predicate p]) ∧
            List.Forall₂ (Brackets functions) brackets ps :=
        rowSettles_flatten fun ts hts => rowSettles_spacedPredicate (hbrackets ts hts)
      rw [mentionsFrom_phrase (by decide), toSteps, stepAxis_append hbrackets]
      apply (rowSettles_append (rowSettles_heading hheading) hrest place).map
      rintro _ ⟨_, _, rfl, ⟨test, rfl, htest⟩, ps, rfl, hps⟩
      refine ⟨⟨stepAxis heading, test, ps⟩, ?_, .step htest hps⟩
      rw [← List.map_eq_flatMap]
      rfl

/-!
# Paths
-/

theorem rowSettles_parts (h : ∀ t ∈ ts, t.isOperand = false ∨ IsStep t) :
    RowSettles policy functions ts fun steps =>
      ∃ legs : List Leg, steps = legs.flatMap Leg.steps ∧
        List.Forall₂ (Renders policy functions) (ts.filter isStep) legs := by
  induction ts with
  | nil => exact fun _ => .ok ⟨[], rfl, .nil⟩
  | cons t ts ih =>
      rcases List.forall_mem_cons.mp h with ⟨ht, hts⟩
      rcases ht with hquiet | hstep
      · rw [List.filter_cons_of_neg (by rw [isStep_of_not_isOperand hquiet]; decide)]
        exact rowSettles_after (rowSettles_of_not_isOperand hquiet) (ih hts)
      · rw [List.filter_cons_of_pos hstep.isStep]
        intro place
        apply (rowSettles_append (rowSettles_singleton (settles_step hstep)) (ih hts) place).imp
        rintro _ ⟨_, _, rfl, ⟨leg, rfl, hleg⟩, legs, rfl, hlegs⟩
        exact ⟨leg :: legs, rfl, .cons hleg hlegs⟩

theorem isAbsolute_path {absolute : Bool} {parts : List Token}
    (h : IsPath (.phrase (.path absolute) parts)) :
    isAbsolute (.phrase (.path absolute) parts) = absolute := by
  have hgap : ∀ {gap : List Token}, IsGap gap → ∀ leaves : List (Lexeme × String),
      (leavesAll gap ++ leaves).find? (fun leaf => !(Token.leaf leaf.1 leaf.2).isBlank) =
        leaves.find? fun leaf => !(Token.leaf leaf.1 leaf.2).isBlank := by
    intro gap h leaves
    cases h with
    | none => rfl
    | blank => rfl
  unfold isAbsolute
  cases h with
  | relative hbefore hinner hafter =>
      rw [leaves, List.append_assoc, leavesAll_append, hgap hbefore]
      cases hinner with
      | steps hfirst hmore =>
          cases hfirst with
          | step hheading =>
              cases hheading with
              | plain h =>
                  cases h with
                  | wildcard => rfl
                  | name => rfl
              | marked => rfl
              | alone => rfl
  | absolute hbefore =>
      rw [leaves, List.append_assoc, List.append_assoc, leavesAll_append, hgap hbefore]
      rfl
  | root hbefore =>
      rw [leaves, List.append_assoc, leavesAll_append, hgap hbefore]
      rfl

theorem settles_path {absolute : Bool} {parts : List Token} {result : List Step → Prop}
    (h : RowSettles policy functions parts result) :
    Settles policy functions (phrase (.path absolute) parts).mentions
      (compile policy functions (.phrase (.path absolute) parts)) fun c =>
        ∃ steps, c.steps = Chain.rootSteps absolute ++ steps ∧ result steps := by
  have hrow : compile policy functions (.phrase (.path absolute) parts) =
      toStepsAll policy functions parts >>= fun steps =>
        .ok ⟨Chain.rootSteps absolute ++ steps⟩ := by
    rw [compile_path, toSteps]
    cases toStepsAll policy functions parts with
    | ok steps => rfl
    | error e => rfl
  rw [hrow, mentions, mentionsFrom_phrase (by simp)]
  apply (h 0).map
  exact fun steps hsteps => ⟨steps, rfl, hsteps⟩

theorem settles_compile (policy : NamePolicy) (functions : Registry N) (h : IsPath t) :
    Settles policy functions t.mentions (t.compile policy functions) fun c =>
      ∃ legs, c.steps = Chain.rootSteps t.isAbsolute ++ legs.flatMap Leg.steps ∧
        List.Forall₂ (Renders policy functions) t.steps legs := by
  rcases h.exists_phrase with ⟨absolute, parts, rfl⟩
  rw [isAbsolute_path h]
  apply (settles_path (rowSettles_parts h.forall_mem)).imp
  rintro c ⟨_, hc, legs, rfl, hlegs⟩
  exact ⟨legs, hc, hlegs⟩

/-!
# Texts
-/

/-- The mentions of a query are its names from left to right, each where it stands in the text.
Compiling succeeds exactly if all of them are allowed, and then makes a leg of every step.  If not,
the first one that is not allowed is the error. -/
theorem compile_settles {text : String} {arithmetic : Arithmetic}
    (h : Token.parse text arithmetic = .ok t) (policy : NamePolicy) (functions : Registry N) :
    t.text = text ∧ (t.mentions.map Prod.fst).Pairwise (· < ·) ∧
      (∀ x ∈ t.mentions, x.2.StandsAt text.toList x.1) ∧
      ((∃ c, t.compile policy functions = .ok c) ↔
        ∀ x ∈ t.mentions, x.2.allowed policy functions = true) ∧
      Settles policy functions t.mentions (t.compile policy functions) fun c =>
        ∃ legs, c.steps = Chain.rootSteps t.isAbsolute ++ legs.flatMap Leg.steps ∧
          List.Forall₂ (Renders policy functions) t.steps legs := by
  rcases wellFormed_of_parse h with ⟨hwell, _, htext⟩
  have hsettles := settles_compile policy functions hwell.1
  refine ⟨htext, pairwise_mentions hwell.2.spells, ?_, hsettles.ok_iff, hsettles⟩
  intro x hx
  rcases locates_path hwell.1 hwell.2.spells 0 x hx with ⟨offset, hplace, hstands⟩
  have hchars : text.toList = t.chars := by
    rw [← htext, Token.text, String.toList_ofList]
  rw [hchars, hplace, Nat.zero_add]
  exact hstands

/-- The function `mystery` is not known and the name `b` is not allowed, but comes later. -/
theorem compile_settles_mystery :
    let text := "/ a[ not(mystery(1)) ] / b"
    let policy : NamePolicy := ⟨id, fun name => name != "b"⟩
    let functions : Registry Node := .builtins
    ∃ t, Token.parse text .standard = .ok t ∧
      t.mentions = [(2, .step "a"), (5, .function "not" "not(mystery(1))"),
        (9, .function "mystery" "not(mystery(1))"), (25, .step "b")] ∧
      t.compile policy functions = .error (.unknownFunction "mystery" "not(mystery(1))") := by
  intro text policy functions
  have hmentions : (Token.parse text .standard).toOption.map mentions =
      some [(2, .step "a"), (5, .function "not" "not(mystery(1))"),
        (9, .function "mystery" "not(mystery(1))"), (25, .step "b")] := by
    decide +kernel
  cases h : Token.parse text .standard with
  | error e =>
      rw [h] at hmentions
      cases hmentions
  | ok t =>
      rw [h] at hmentions
      have ht : t.mentions = _ := Option.some.inj hmentions
      rcases compile_settles h policy functions with ⟨_, _, _, _, hsettles⟩
      have hfirst : (t.mentions.find? fun x => !x.2.allowed policy functions) =
          some (9, .function "mystery" "not(mystery(1))") := by
        rw [ht]
        decide +kernel
      unfold Settles at hsettles
      rw [hfirst] at hsettles
      exact ⟨t, rfl, ht, hsettles⟩

end Token
end TreeQuery
