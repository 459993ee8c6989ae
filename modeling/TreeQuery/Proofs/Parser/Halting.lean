import TreeQuery.Proofs.Expression.Printing

/-!
# Readers that run out of room

With less room for expressions inside one another a reader does the same as
before, or else it halts because there is too little room.  So a well-formed
token that is nested too deep can only make it halt: with room enough the token
is read, and with the room there is it cannot be.
-/

namespace TreeQuery

namespace Parser

variable {A B : Type}

/-!
# Halting
-/

def Halts (p : Parser A) (input : List Char) : Prop :=
  ∃ rest, (p input).outcome = .halt (.tooDeep rest)

section

variable {input middle rest : List Char}

theorem Halts.bind {p : Parser A} {f : A → Parser B} (h : Halts p input) :
    Halts (p >>= f) input := by
  rcases h with ⟨rest, h⟩
  refine ⟨rest, ?_⟩
  show (Parser.bind p f input).outcome = _
  unfold Parser.bind
  rcases hp : p input with ⟨outcome, seen⟩
  rw [hp] at h
  cases h
  rfl

theorem Reads.halts_bind {p : Parser A} {f : A → Parser B} {a : A} (ha : Reads p input a middle)
    (h : Halts (f a) middle) : Halts (p >>= f) input := by
  rcases h with ⟨rest, h⟩
  refine ⟨rest, ?_⟩
  show (Parser.bind p f input).outcome = _
  unfold Reads at ha
  unfold Parser.bind
  rcases hp : p input with ⟨outcome, seen⟩
  rw [hp] at ha
  cases ha
  exact h

theorem Misses.halts_bind {p : Parser A} {f : Option A → Parser B} (hp : Misses p input)
    (h : Halts (f none) input) : Halts (Parser.option p >>= f) input :=
  hp.option.halts_bind h

theorem Halts.orElse_left {p : Parser A} (h : Halts p input) (q : Parser A) :
    Halts (p.orElse q) input := by
  rcases h with ⟨rest, h⟩
  refine ⟨rest, ?_⟩
  unfold Parser.orElse
  rcases hp : p input with ⟨outcome, seen⟩
  rw [hp] at h
  cases h
  rfl

theorem Halts.option {p : Parser A} (h : Halts p input) : Halts (Parser.option p) input := by
  rcases h with ⟨rest, h⟩
  refine ⟨rest, ?_⟩
  unfold Parser.option
  rcases hp : p input with ⟨outcome, seen⟩
  rw [hp] at h
  cases h
  rfl

inductive Stuck (p : Parser A) : List Char → Prop where
  | stop {input : List Char} (h : Halts p input) : Stuck p input
  | more {input middle : List Char} {a : A} (h : Reads p input a middle)
      (hshorter : middle.length < input.length) (hrest : Stuck p middle) : Stuck p input

theorem Stuck.halts_manyWithin {p : Parser A} (h : Stuck p input) :
    ∀ fuel, input.length < fuel → Halts (manyWithin p fuel) input := by
  induction h with
  | @stop input hp =>
      intro fuel hfuel
      rcases hp with ⟨rest, hp⟩
      cases fuel with
      | zero => cases hfuel
      | succ fuel =>
          refine ⟨rest, ?_⟩
          unfold manyWithin
          rcases hreply : p input with ⟨outcome, seen⟩
          rw [hreply] at hp
          cases hp
          rfl
  | @more input middle a ha hshorter _ ih =>
      intro fuel hfuel
      cases fuel with
      | zero => cases hfuel
      | succ fuel =>
          have hmiddle : middle.length < fuel :=
            Nat.lt_of_lt_of_le hshorter (Nat.le_of_lt_succ hfuel)
          have hnext : Halts (manyWithin p fuel >>= fun more => pure (a :: more)) middle :=
            (ih fuel hmiddle).bind
          rcases hnext with ⟨rest, hnext⟩
          refine ⟨rest, ?_⟩
          unfold Reads at ha
          unfold manyWithin
          rcases hreply : p input with ⟨outcome, seen⟩
          rw [hreply] at ha
          cases ha
          exact hnext

theorem Stuck.halts_many {p : Parser A} (h : Stuck p input) : Halts (many p) input :=
  h.halts_manyWithin (input.length + 1) (Nat.lt_succ_self input.length)

end

/-!
# Readers with less room
-/

/-- The first reader does what the second one does, unless it gives up. -/
def Narrower (p q : Parser A) : Prop :=
  ∀ input, Halts p input ∨ (p input).outcome = (q input).outcome

theorem Narrower.refl (p : Parser A) : Narrower p p :=
  fun _ => Or.inr rfl

theorem Narrower.bind {p q : Parser A} {f g : A → Parser B} (hp : Narrower p q)
    (hf : ∀ a, Narrower (f a) (g a)) : Narrower (p >>= f) (q >>= g) := by
  intro input
  rcases hp input with hhalts | hsame
  · exact Or.inl hhalts.bind
  · rcases hreply : p input with ⟨outcome, seen⟩
    rcases hreply' : q input with ⟨outcome', seen'⟩
    rw [hreply, hreply'] at hsame
    cases hsame
    show Halts (Parser.bind p f) input ∨
      (Parser.bind p f input).outcome = (Parser.bind q g input).outcome
    unfold Halts Parser.bind
    rw [hreply, hreply']
    cases outcome with
    | done a rest => exact hf a rest
    | miss => exact Or.inr rfl
    | halt reason => exact Or.inr rfl

theorem Narrower.orElse {p q p' q' : Parser A} (hp : Narrower p q) (hp' : Narrower p' q') :
    Narrower (p.orElse p') (q.orElse q') := by
  intro input
  rcases hp input with hhalts | hsame
  · exact Or.inl (hhalts.orElse_left p')
  · rcases hreply : p input with ⟨outcome, seen⟩
    rcases hreply' : q input with ⟨outcome', seen'⟩
    rw [hreply, hreply'] at hsame
    cases hsame
    unfold Halts Parser.orElse
    rw [hreply, hreply']
    cases outcome with
    | done a rest => exact Or.inr rfl
    | miss => exact hp' input
    | halt reason => exact Or.inr rfl

theorem Narrower.option {p q : Parser A} (hp : Narrower p q) :
    Narrower (Parser.option p) (Parser.option q) := by
  intro input
  rcases hp input with hhalts | hsame
  · exact Or.inl hhalts.option
  · rcases hreply : p input with ⟨outcome, seen⟩
    rcases hreply' : q input with ⟨outcome', seen'⟩
    rw [hreply, hreply'] at hsame
    cases hsame
    apply Or.inr
    unfold Parser.option
    rw [hreply, hreply']
    cases outcome with
    | done a rest => rfl
    | miss => rfl
    | halt reason => rfl

theorem Narrower.manyWithin {p q : Parser A} (hp : Narrower p q) (fuel : Nat) :
    Narrower (Parser.manyWithin p fuel) (Parser.manyWithin q fuel) := by
  induction fuel with
  | zero => exact Narrower.refl _
  | succ fuel ih =>
      intro input
      rcases hp input with ⟨rest, hhalts⟩ | hsame
      · apply Or.inl
        refine ⟨rest, ?_⟩
        unfold Parser.manyWithin
        rcases hreply : p input with ⟨outcome, seen⟩
        rw [hreply] at hhalts
        cases hhalts
        rfl
      · rcases hreply : p input with ⟨outcome, seen⟩
        rcases hreply' : q input with ⟨outcome', seen'⟩
        rw [hreply, hreply'] at hsame
        cases hsame
        unfold Halts Parser.manyWithin
        rw [hreply, hreply']
        cases outcome with
        | done a rest =>
            exact (ih.bind fun more => Narrower.refl (pure (a :: more))) rest
        | miss => exact Or.inr rfl
        | halt reason => exact Or.inr rfl

theorem Narrower.many {p q : Parser A} (hp : Narrower p q) :
    Narrower (Parser.many p) (Parser.many q) :=
  fun input => hp.manyWithin (input.length + 1) input

end Parser

namespace Grammar

open TreeQuery.Parser Token

variable {arithmetic : Arithmetic} {input middle rest : List Char} {t : Token} {ts : List Token}

/-!
# Expressions with less room
-/

theorem narrower_tooDeep (q : Parser Token) : Narrower tooDeep q :=
  fun input => Or.inl ⟨input, rfl⟩

theorem narrower_binaryLevel {p q : Parser Token} (h : Narrower p q) (choices : List Operator) :
    Narrower (binaryLevel choices p) (binaryLevel choices q) := by
  have hcontinuation : Narrower (continuation p choices) (continuation q choices) :=
    (Narrower.refl blanks).bind fun _ => (Narrower.refl (operator choices)).bind fun _ =>
      (Narrower.refl blanks).bind fun _ => h.bind fun _ => Narrower.refl _
  exact h.bind fun _ => hcontinuation.many.bind fun _ => Narrower.refl _

theorem narrower_tier {p q : Parser Token} (h : Narrower p q) (rank : Nat) :
    Narrower (tier p rank) (tier q rank) := by
  induction rank with
  | zero => exact h
  | succ rank ih => exact narrower_binaryLevel ih (choicesAt rank)

theorem narrower_primary {p q : Parser Token} (h : Narrower p q) :
    Narrower (primary arithmetic p) (primary arithmetic q) := by
  have hnext : Narrower (nextArgument p) (nextArgument q) :=
    (Narrower.refl blanks).bind fun _ => (Narrower.refl _).bind fun _ =>
      (Narrower.refl blanks).bind fun _ => h.bind fun _ => Narrower.refl _
  have harguments : Narrower (arguments p) (arguments q) :=
    h.bind fun _ => hnext.many.bind fun _ => Narrower.refl _
  have hcall : Narrower (call p) (call q) :=
    (Narrower.refl name).bind fun _ => (Narrower.refl blanks).bind fun _ =>
      (Narrower.refl _).bind fun _ => (Narrower.refl blanks).bind fun _ =>
        harguments.option.bind fun _ => Narrower.refl _
  have hgroup : Narrower (group p) (group q) :=
    (Narrower.refl _).bind fun _ => (Narrower.refl blanks).bind fun _ =>
      h.bind fun _ => Narrower.refl _
  exact (Narrower.refl _).orElse ((Narrower.refl _).orElse ((Narrower.refl _).orElse
    (hcall.orElse hgroup)))

theorem narrower_unaryOver {p q p' q' : Parser Token} (h : Narrower p q) (h' : Narrower p' q') :
    Narrower (unaryOver arithmetic p p') (unaryOver arithmetic q q') := by
  intro input
  unfold Halts unaryOver
  rcases symbol (.operator .subtract) .minus input with ⟨outcome, seen⟩
  cases outcome with
  | done sign rest =>
      exact ((Narrower.refl blanks).bind fun _ => h.bind fun _ => Narrower.refl _) rest
  | miss => exact narrower_primary h' input
  | halt reason => exact narrower_primary h' input

theorem narrower_unary {room more : Nat} (hle : room ≤ more) :
    Narrower (unary arithmetic room) (unary arithmetic more) := by
  induction room generalizing more with
  | zero =>
      rw [unary_eq arithmetic more]
      exact narrower_unaryOver (narrower_tooDeep _) (narrower_tooDeep _)
  | succ room ih =>
      cases more with
      | zero => cases hle
      | succ more =>
          have hunary := ih (Nat.le_of_succ_le_succ hle)
          exact narrower_unaryOver hunary (narrower_tier hunary 5)

theorem narrower_expression (arithmetic : Arithmetic) {room more : Nat} (hle : room ≤ more) :
    Narrower (expression arithmetic room) (expression arithmetic more) := by
  cases room with
  | zero => exact narrower_tooDeep _
  | succ room =>
      cases more with
      | zero => cases hle
      | succ more => exact narrower_tier (narrower_unary (Nat.le_of_succ_le_succ hle)) 5

/-- An expression that is nested too deep makes the reader give up. -/
theorem halts_expression {room : Nat} (h : IsExpression 5 t) (hroom : room ≤ t.nesting)
    (hcovers : t.Covers arithmetic input rest) (hclosing : Closing rest) :
    Halts (expression arithmetic room) input := by
  have hreads : Reads (expression arithmetic (t.nesting + 1)) input t rest :=
    (readsBack_of_expression h).1.expression (Nat.lt_succ_self _) hcovers hclosing
  rcases narrower_expression arithmetic (Nat.le_succ_of_le hroom) input with hhalts | hsame
  · exact hhalts
  · have hnarrow : Reads (expression arithmetic room) input t rest := hsame.trans hreads
    have hinside := (sound_expression _ _ _ _ hnarrow).1.2
    exact absurd hinside (Nat.not_lt.mpr hroom)

/-!
# Rows with one that is nested too deep
-/

/-- Rows of tokens of one form are read up to the first that is nested too deep. -/
theorem stuck_of_all {p : Parser (List Token)} (form : List Token → Prop)
    (follow : List Char → Prop)
    (hreads : ∀ ts input rest, form ts → nestingAll ts ≤ maxNesting →
      CoverAll arithmetic ts input rest → follow rest → Reads p input ts rest)
    (hhalts : ∀ ts input rest, form ts → maxNesting < nestingAll ts →
      CoverAll arithmetic ts input rest → follow rest → Halts p input)
    (hfollow : ∀ ts input rest, form ts → CoverAll arithmetic ts input rest → follow input)
    (hleaves : ∀ ts, form ts → leavesAll ts ≠ [])
    {found : List (List Token)} (hforms : ∀ ts ∈ found, form ts) :
    ∀ {input}, CoverAll arithmetic found.flatten input rest → follow rest →
      follow input ∧ (maxNesting < nestingAll found.flatten → Stuck p input) := by
  induction found with
  | nil =>
      intro input hcovers hrest
      rw [coverAll_nil.mp hcovers]
      exact ⟨hrest, fun hdeep => absurd hdeep (Nat.not_lt_zero _)⟩
  | cons ts found ih =>
      intro input hcovers hrest
      rcases coverAll_append.mp hcovers with ⟨middle, hts, hfound⟩
      rcases List.forall_mem_cons.mp hforms with ⟨hform, hforms⟩
      rcases ih hforms hfound hrest with ⟨hmiddle, hstuck⟩
      refine ⟨hfollow ts input middle hform hts, fun hdeep => ?_⟩
      rcases Nat.lt_or_ge maxNesting (nestingAll ts) with htoo | hfits
      · exact .stop (hhalts ts input middle hform htoo hts hmiddle)
      · rw [List.flatten_cons, nestingAll_append] at hdeep
        exact .more (hreads ts input middle hform hfits hts hmiddle)
          (hts.length_lt (hleaves ts hform)) (hstuck (by omega))

theorem halts_predicate (h : IsSpacedPredicate ts) (hdeep : maxNesting < nestingAll ts)
    (hcovers : CoverAll arithmetic ts input rest) : Halts (predicate arithmetic) input := by
  cases h with
  | @spaced space t hspace h =>
      rcases coverAll_append.mp hcovers with ⟨middle, hgap, hbody⟩
      rw [coverAll_singleton] at hbody
      rw [nestingAll_append, hspace.nestingAll_eq, Nat.zero_max, nestingAll_singleton] at hdeep
      rcases first_of_predicate h hbody with ⟨more, hbracket⟩
      refine ((reads_blanks arithmetic).mpr ⟨hspace, hgap, ?_⟩).halts_bind (Halts.bind ?_)
      · rw [hbracket]
        intro c hc
        cases hc
        decide
      · cases h with
        | enclosed hbefore hinner hafter =>
            rw [nesting_enclosed rfl hbefore hafter] at hdeep
            rcases coverAll_append.mp (covers_phrase.mp hbody) with ⟨_, hparts, hclose⟩
            rcases coverAll_append.mp hparts with ⟨_, hhead, hparts⟩
            rcases coverAll_cons.mp hhead with ⟨_, hopen, hgap⟩
            rcases coverAll_cons.mp hparts with ⟨_, hexpression, hgap'⟩
            rw [coverAll_singleton] at hclose
            have hclosing := closing_of_symbol (Or.inr (Or.inl rfl)) hafter hgap' hclose
            have hsolid := solid_of_expression hinner hexpression
            refine ((reads_symbol arithmetic rfl).mpr ⟨⟨_, rfl⟩, hopen⟩).halts_bind ?_
            refine ((reads_blanks arithmetic).mpr ⟨hbefore, hgap, hsolid.not_space⟩).halts_bind ?_
            exact (halts_expression hinner (by omega) hexpression hclosing).bind

theorem halts_step (h : IsStep t) (hdeep : maxNesting < t.nesting)
    (hcovers : t.Covers arithmetic input rest) (hrest : StepEnd rest) :
    Halts (step arithmetic) input := by
  cases h with
  | step hheading hpredicates =>
      rw [nesting_phrase rfl, nestingAll_append, hheading.nestingAll_eq, Nat.zero_max] at hdeep
      rcases coverAll_append.mp (covers_phrase.mp hcovers) with ⟨middle, hcoverh, hcoverp⟩
      have hrow := stuck_of_all (p := predicate arithmetic) IsSpacedPredicate HeadingEnd
        (fun ts _ _ hts hfits hcovers _ => reads_predicate hts hfits hcovers)
        (fun ts _ _ hts hdeep hcovers _ => halts_predicate hts hdeep hcovers)
        (fun ts _ _ => headingEnd_of_spacedPredicate) (fun ts => leaves_of_spacedPredicate)
        hpredicates hcoverp hrest.headingEnd
      rcases reads_heading hheading hcoverh hrow.1 with ⟨mark, test, left, hmark, htest, _⟩
      exact hmark.halts_bind (htest.halts_bind (hrow.2 hdeep).halts_many.bind)

theorem halts_furtherStep (h : IsFurtherStep ts) (hdeep : maxNesting < nestingAll ts)
    (hcovers : CoverAll arithmetic ts input rest) (hrest : StepEnd rest) :
    Halts (furtherStep arithmetic) input := by
  cases h with
  | @slashed text before after t hbefore hafter h =>
      rw [nestingAll_append, hbefore.nestingAll_eq, Nat.zero_max, List.cons_append, nestingAll,
        nestingAll_append, hafter.nestingAll_eq, nestingAll_singleton, nesting, Nat.zero_max,
        Nat.zero_max] at hdeep
      rcases coverAll_append.mp hcovers with ⟨_, hgap, hparts⟩
      rcases coverAll_append.mp hparts with ⟨_, hhead, hstep⟩
      rcases coverAll_cons.mp hhead with ⟨_, hslash, hgap'⟩
      rw [coverAll_singleton] at hstep
      rcases (reads_slash arithmetic).mpr ⟨⟨text, rfl⟩, hslash⟩ with ⟨hreads, hahead⟩
      have hspace := not_space_of_slash (slash_of_covers hslash)
      have hspace' := (stepStart_of_step h hstep).not_space
      refine ((reads_blanks arithmetic).mpr ⟨hbefore, hgap, hspace⟩).halts_bind (Halts.bind ?_)
      refine (reads_ahead.mpr ⟨hahead.symm, rfl⟩).halts_bind ?_
      rw [if_neg Bool.false_ne_true]
      refine hreads.halts_bind ?_
      refine ((reads_blanks arithmetic).mpr ⟨hafter, hgap', hspace'⟩).halts_bind ?_
      exact (halts_step h hdeep hstep hrest).bind
  | @doubled text before parts hbefore h =>
      rw [nestingAll_append, hbefore.nestingAll_eq, Nat.zero_max, nestingAll_singleton] at hdeep
      rcases coverAll_append.mp hcovers with ⟨_, hgap, hstep⟩
      rw [coverAll_singleton] at hstep
      rcases doubleSlash_of_step hstep with ⟨more, hmiddle⟩
      have hspace := not_space_of_slash hmiddle
      have hahead : true = ['/', '/'].isPrefixOf ('/' :: '/' :: more) := rfl
      rw [← hmiddle] at hahead
      refine ((reads_blanks arithmetic).mpr ⟨hbefore, hgap, hspace⟩).halts_bind (Halts.bind ?_)
      refine (reads_ahead.mpr ⟨hahead, rfl⟩).halts_bind ?_
      rw [if_pos rfl]
      exact (halts_step h hdeep hstep hrest).bind

/-!
# Paths that are nested too deep
-/

theorem halts_steps (h : AreSteps ts) (hdeep : maxNesting < nestingAll ts)
    (hcovers : CoverAll arithmetic ts input rest) (hrest : rest.dropWhile Scan.isSpace = []) :
    Halts (steps arithmetic) input := by
  cases h with
  | @steps first more hfirst hmore =>
      rcases coverAll_cons.mp hcovers with ⟨middle, hhead, hparts⟩
      have hend : StepEnd rest := by
        rw [StepEnd, hrest]
        intro c hc
        cases hc
      have hrow := stuck_of_all (p := furtherStep arithmetic) IsFurtherStep StepEnd
        (fun ts _ _ => reads_furtherStep) (fun ts _ _ => halts_furtherStep)
        (fun ts _ _ => stepEnd_of_furtherStep) (fun ts => leaves_of_furtherStep) hmore hparts hend
      rcases Nat.lt_or_ge maxNesting first.nesting with htoo | hfits
      · exact (halts_step hfirst htoo hhead hrow.1).bind
      · rw [nestingAll] at hdeep
        have hstuck := hrow.2 (by omega)
        exact (reads_step hfirst hfits hhead hrow.1).halts_bind hstuck.halts_many.bind

theorem stepStart_of_steps (h : AreSteps ts) (hcovers : CoverAll arithmetic ts input rest) :
    StepStart input := by
  cases h with
  | steps hfirst hmore =>
      rcases coverAll_cons.mp hcovers with ⟨middle, hhead, _⟩
      exact stepStart_of_step hfirst hhead

theorem halts_path (h : IsPath t) (hdeep : maxNesting < t.nesting)
    (hcovers : t.Covers arithmetic input []) : Halts (path arithmetic) input := by
  have hend {after : List Token} {input : List Char} (hafter : IsGap after)
      (hcovers : CoverAll arithmetic after input []) : input.dropWhile Scan.isSpace = [] :=
    dropWhile_of_gap hafter hcovers (by simp)
  cases h with
  | relative hbefore hinner hafter =>
      rw [nesting_path hbefore hafter] at hdeep
      rcases coverAll_append.mp (covers_phrase.mp hcovers) with ⟨_, hparts, hcovera⟩
      rcases coverAll_append.mp hparts with ⟨_, hcoverb, hcoveri⟩
      have hstart := stepStart_of_steps hinner hcoveri
      have hhalts := halts_steps hinner hdeep hcoveri (hend hafter hcovera)
      refine ((reads_blanks arithmetic).mpr ⟨hbefore, hcoverb, hstart.not_space⟩).halts_bind ?_
      exact (misses_rootSlash hstart).halts_bind hhalts.bind
  | absolute hbefore hspace hinner hafter =>
      rw [List.append_assoc _ _ (_ ++ _), nesting_path hbefore hafter, nestingAll_append,
        nestingAll_singleton, nesting, Nat.zero_max, nestingAll_append, hspace.nestingAll_eq,
        Nat.zero_max] at hdeep
      rcases coverAll_append.mp (covers_phrase.mp hcovers) with ⟨_, hparts, hcovera⟩
      rcases coverAll_append.mp hparts with ⟨_, hhead, hparts⟩
      rcases coverAll_append.mp hhead with ⟨_, hcoverb, hslash⟩
      rcases coverAll_append.mp hparts with ⟨_, hcovers, hcoveri⟩
      rw [coverAll_singleton] at hslash
      have hstart := stepStart_of_steps hinner hcoveri
      have hhalts := halts_steps hinner hdeep hcoveri (hend hafter hcovera)
      have hspaced : Halts (spacedSteps arithmetic) _ :=
        ((reads_blanks arithmetic).mpr ⟨hspace, hcovers, hstart.not_space⟩).halts_bind hhalts.bind
      have hsteps : Halts (pathSteps arithmetic true) _ := hspaced.option.bind
      have hblank := not_space_of_slash (slash_of_covers hslash)
      refine ((reads_blanks arithmetic).mpr ⟨hbefore, hcoverb, hblank⟩).halts_bind ?_
      exact (reads_rootSlash hslash).option.halts_bind hsteps.bind
  | root hbefore hafter =>
      rw [nesting_path hbefore hafter] at hdeep
      cases hdeep

end Grammar

namespace Token

variable {arithmetic : Arithmetic} {t : Token}

theorem parse_of_nesting_gt (h : WellFormed arithmetic t)
    (hdeep : Grammar.maxNesting < t.nesting) :
    ∃ e, parse t.text arithmetic = .error e ∧ e.expected = [.shallowerNesting] ∧
      e.numeric = none := by
  have hcovers : t.Covers arithmetic t.text.toList [] := by
    rw [Token.text, String.toList_ofList, Covers, List.append_nil]
    exact ⟨rfl, h.2⟩
  rcases Grammar.halts_path h.1 hdeep hcovers with ⟨rest, hhalts⟩
  rcases hpath : Grammar.path arithmetic t.text.toList with ⟨outcome, frontier⟩
  rw [hpath] at hhalts
  cases hhalts
  have hparse : parse t.text arithmetic = .error (ParseError.located t.text.toList rest.length
      fun found line column => .unexpected found line column [.shallowerNesting]) := by
    simp only [parse, hpath]
  exact ⟨_, hparse, rfl, rfl⟩

/-!
# The limit
-/

/-- Of the texts that the grammar derives without regard to nesting exactly those are accepted that
are not nested too deep, where calls without arguments count as well.  The others are rejected for
that reason alone.  Counting such a call makes a difference only where nothing else is as deep. -/
theorem parse_of_nesting (h : WellFormed arithmetic t) :
    (parse t.text arithmetic = .ok t ↔ t.nesting ≤ Grammar.maxNesting) ∧
      (Grammar.maxNesting < t.nesting →
        ∃ e, parse t.text arithmetic = .error e ∧ e.expected = [.shallowerNesting] ∧
          e.numeric = none) ∧
      t.levels ≤ t.nesting ∧ t.nesting ≤ t.levels + 1 := by
  refine ⟨⟨?_, parse_of_wellFormed h⟩, parse_of_nesting_gt h, levels_le_nesting t⟩
  intro hparse
  exact (wellFormed_of_parse hparse).2.1

def groupedCall : Nat → Token
  | 0 => bareCall "f"
  | depth + 1 => (groupedCall depth).grouped

theorem exists_writes_groupedCall (arithmetic : Arithmetic) (depth : Nat) :
    ∃ chars, Writes arithmetic 5 chars (depth + 1) (.call "f" []) (groupedCall depth) := by
  induction depth with
  | zero =>
      have hname : Lexeme.IsName "f".toList := by
        decide +kernel
      exact ⟨_, (writes_bareCall hname).mono (Nat.zero_le 5)⟩
  | succ depth ih =>
      rcases ih with ⟨chars, hwrites⟩
      exact ⟨_, hwrites.grouped.mono (Nat.zero_le 5)⟩

theorem wellFormed_filtering {arithmetic : Arithmetic} {chars : List Char} {depth : Nat}
    {e : Expression} {body : Token} (h : Writes arithmetic 5 chars depth e body) :
    WellFormed arithmetic (filtering body) :=
  ⟨isPath_filtering h.form, (covers_filtering h.covers).2⟩

theorem levels_filtering (body : Token) : (filtering body).levels = 1 + body.levels := by
  simp [filtering, bracketed, wildcard, symbol, levels, levelsAll, isBareCall, Phrase.encloses]

theorem levels_groupedCall (depth : Nat) : (groupedCall depth).levels = depth := by
  induction depth with
  | zero => rfl
  | succ depth ih => simp [groupedCall, grouped, symbol, levels, levelsAll, ih, isBareCall,
      Phrase.encloses, Nat.add_comm]

/-- Between thirty parentheses the call is read, and it takes all the room that there is. -/
theorem parse_of_nesting_groupedCall :
    let t := filtering (groupedCall 30)
    WellFormed .standard t ∧ parse t.text .standard = .ok t ∧
      t.levels + 1 = Grammar.maxNesting := by
  intro t
  rcases exists_writes_groupedCall .standard 30 with ⟨chars, hwrites⟩
  have hform := wellFormed_filtering hwrites
  have hnesting : t.nesting = 32 := by
    rw [nesting_filtering, hwrites.nesting]
  refine ⟨hform, (parse_of_nesting hform).1.mpr (Nat.le_of_eq hnesting), ?_⟩
  rw [levels_filtering, levels_groupedCall]
  rfl

/-- Between thirty-one parentheses of a predicate it is rejected, although no more than thirty-two
expressions stand inside one another. -/
theorem parse_groupedCall :
    let t := filtering (groupedCall 31)
    t.text = "*[(((((((((((((((((((((((((((((((f())))))))))))))))))))))))))))))))]" ∧
      WellFormed .standard t ∧ t.levels = Grammar.maxNesting ∧
      ∃ e, parse t.text .standard = .error e ∧ e.expected = [.shallowerNesting] := by
  intro t
  have htext : t.text = "*[(((((((((((((((((((((((((((((((f())))))))))))))))))))))))))))))))]" := by
    decide +kernel
  rcases exists_writes_groupedCall .standard 31 with ⟨chars, hwrites⟩
  have hform := wellFormed_filtering hwrites
  have hdeep : Grammar.maxNesting < t.nesting := by
    rw [nesting_filtering, hwrites.nesting]
    decide
  have hlevels : t.levels = Grammar.maxNesting := by
    rw [levels_filtering, levels_groupedCall]
    rfl
  rcases parse_of_nesting_gt hform hdeep with ⟨e, he, hexpected, _⟩
  exact ⟨htext, hform, hlevels, e, he, hexpected⟩

end Token
end TreeQuery
