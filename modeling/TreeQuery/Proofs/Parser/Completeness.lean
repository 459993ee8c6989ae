import TreeQuery.Proofs.Parser.Expressions

/-!
# Well-formed tokens are read back

Steps and paths are read back as expressions are.  Together with the soundness
of the grammar this says exactly which texts are read and what they are read
as: reading is the inverse of writing down the text of a well-formed token.
-/

namespace TreeQuery
namespace Grammar

open TreeQuery.Parser Token

variable {arithmetic : Arithmetic} {input middle rest : List Char} {t : Token} {ts : List Token}

/-!
# Ends of steps
-/

def StepEnd (rest : List Char) : Prop :=
  ∀ c ∈ (rest.dropWhile Scan.isSpace).head?, c = '/'

def HeadingEnd (rest : List Char) : Prop :=
  ∀ c ∈ rest.head?, Scan.isSpace c = true ∨ c = '[' ∨ c = '/'

theorem StepEnd.headingEnd (h : StepEnd rest) : HeadingEnd rest := by
  intro c hc
  cases hspace : Scan.isSpace c with
  | true => exact Or.inl rfl
  | false =>
      have hdrop : rest.dropWhile Scan.isSpace = rest := by
        apply Scan.dropWhile_of_head
        intro d hd
        cases Option.mem_unique hc hd
        exact hspace
      rw [StepEnd, hdrop] at h
      exact Or.inr (Or.inr (h c hc))

theorem HeadingEnd.first (h : HeadingEnd rest) {c : Char} (hc : c ∈ rest.head?) :
    c ≠ '.' ∧ (c ≠ '*' ∧ Scan.isNameStart c = false) ∧ c ≠ ':' ∧ Scan.isNameChar c = false := by
  rcases h c hc with hspace | rfl | rfl
  · rcases isSpace_cases hspace with rfl | rfl | rfl | rfl <;> decide
  · decide
  · decide

theorem headingEnd_of_gap {gap : List Token} (hgap : IsGap gap)
    (hcovers : CoverAll arithmetic gap input middle) (hmiddle : HeadingEnd middle) :
    HeadingEnd input := by
  intro c hc
  rcases head_of_gap hgap hcovers hc with hspace | hc
  · exact Or.inl hspace
  · exact hmiddle c hc

/-!
# Predicates
-/

theorem first_of_predicate (h : IsPredicate t) (hcovers : t.Covers arithmetic input rest) :
    ∃ more, input = '[' :: more := by
  cases h with
  | enclosed hbefore hinner hafter =>
      rcases coverAll_cons.mp (covers_phrase.mp hcovers) with ⟨middle, hopen, _⟩
      exact ⟨middle, symbol_of_covers rfl hopen⟩

theorem reads_predicate (h : IsSpacedPredicate ts) (hroom : nestingAll ts ≤ maxNesting)
    (hcovers : CoverAll arithmetic ts input rest) :
    Reads (predicate arithmetic) input ts rest := by
  cases h with
  | spaced hspace h =>
      rcases coverAll_append.mp hcovers with ⟨middle, hgap, hbody⟩
      rw [coverAll_singleton] at hbody
      refine ((reads_blanks arithmetic).mpr ⟨hspace, hgap, ?_⟩).bind ?_
      · rcases first_of_predicate h hbody with ⟨more, rfl⟩
        intro c hc
        cases hc
        decide
      · cases h with
        | enclosed hbefore hinner hafter =>
            rw [nestingAll_append_le, nestingAll_singleton,
              nesting_enclosed rfl hbefore hafter] at hroom
            refine Reads.bind ?_ (reads_pure.mpr ⟨rfl, rfl⟩)
            exact reads_enclosed rfl (Or.inr rfl) hbefore (readsBack_of_expression hinner).1 hafter
              (solid_of_expression hinner) (by omega) hbody

theorem misses_predicate (h : StepEnd rest) : Misses (predicate arithmetic) rest := by
  rcases reads_blanks_dropWhile rest with ⟨gap, hgap⟩
  refine hgap.misses_bind (Misses.bind (Misses.bind (misses_symbol ?_)))
  intro c hc
  rw [h c hc]
  decide

theorem leaves_of_spacedPredicate (h : IsSpacedPredicate ts) : leavesAll ts ≠ [] := by
  cases h with
  | spaced hspace h =>
      cases h
      simp [leavesAll_append, leavesAll, leaves]

theorem headingEnd_of_spacedPredicate (h : IsSpacedPredicate ts)
    (hcovers : CoverAll arithmetic ts input rest) : HeadingEnd input := by
  cases h with
  | spaced hspace h =>
      rcases coverAll_append.mp hcovers with ⟨middle, hgap, hbody⟩
      apply headingEnd_of_gap hspace hgap
      rcases first_of_predicate h (coverAll_singleton.mp hbody) with ⟨more, rfl⟩
      intro c hc
      cases hc
      exact Or.inr (Or.inl rfl)

theorem reads_predicates {predicates : List (List Token)}
    (hforms : ∀ p ∈ predicates, IsSpacedPredicate p)
    (hroom : nestingAll predicates.flatten ≤ maxNesting)
    (hcovers : CoverAll arithmetic predicates.flatten input rest) (hrest : StepEnd rest) :
    Reads (many (predicate arithmetic)) input predicates rest ∧ HeadingEnd input := by
  rw [nestingAll_flatten_le] at hroom
  have hseries := series_of_all (p := predicate arithmetic)
    (fun ts => IsSpacedPredicate ts ∧ nestingAll ts ≤ maxNesting) HeadingEnd ?_ ?_ ?_
    (fun ts hts => ⟨hforms ts hts, hroom ts hts⟩) hcovers hrest.headingEnd (misses_predicate hrest)
  · exact ⟨hseries.1.reads_many, hseries.2⟩
  · intro ts input rest hts hcovers _
    exact reads_predicate hts.1 hts.2 hcovers
  · intro ts input rest hts
    exact headingEnd_of_spacedPredicate hts.1
  · intro ts hts
    exact leaves_of_spacedPredicate hts.1

/-!
# Steps
-/

theorem first_of_nodeTest (h : IsNodeTest t) (hcovers : t.Covers arithmetic input rest) :
    ∃ c more, input = c :: more ∧ (c = '*' ∨ Scan.isNameStart c = true) := by
  cases h with
  | wildcard =>
      rcases covers_leaf.mp hcovers with ⟨rfl, hspells, _⟩
      have htext : _ = ['*'] := hspells
      rw [htext]
      exact ⟨'*', rest, rfl, Or.inl rfl⟩
  | name =>
      rcases first_of_name hcovers with ⟨c, more, hinput, hstart⟩
      exact ⟨c, more, hinput, Or.inr hstart⟩

theorem ne_of_nodeTest {c d : Char} (h : c = '*' ∨ Scan.isNameStart c = true) (hd : d ≠ '*')
    (hstart : Scan.isNameStart d = false) : c ≠ d := by
  rcases h with rfl | h
  · exact hd.symm
  · exact ne_of_nameStart h hstart

theorem misses_axisMark_of_nodeTest (h : IsNodeTest t) (hcovers : t.Covers arithmetic input middle)
    (hmiddle : HeadingEnd middle) : Misses axisMark input := by
  apply misses_axisMark
  · rcases first_of_nodeTest h hcovers with ⟨c, more, rfl, hc⟩
    intro d hd
    cases hd
    exact ⟨ne_of_nodeTest hc (by decide) (by decide), ne_of_nodeTest hc (by decide) (by decide)⟩
  · cases h with
    | wildcard =>
        rcases covers_leaf.mp hcovers with ⟨rfl, hspells, _⟩
        have htext : _ = ['*'] := hspells
        rw [htext]
        intro c hc
        cases hc
        decide
    | name =>
        rcases covers_leaf.mp hcovers with ⟨rfl, ⟨hname, rfl⟩, _⟩
        have hdrop : middle.dropWhile Scan.isNameChar = middle :=
          Scan.dropWhile_of_head fun c hc => (hmiddle.first hc).2.2.2
        rw [List.dropWhile_append_of_pos (Scan.all_of_isName hname), hdrop]
        intro c hc
        exact (hmiddle.first hc).2.2.1

theorem reads_heading {heading : List Token} (h : IsHeading heading)
    (hcovers : CoverAll arithmetic heading input middle) (hmiddle : HeadingEnd middle) :
    ∃ mark test left, Reads (option axisMark) input mark left ∧
      Reads (testAfter mark) left test middle ∧
      heading = (mark.map (·.2)).toList ++ test := by
  cases h with
  | @plain test htest =>
      rw [coverAll_singleton] at hcovers
      have hmiss := misses_axisMark_of_nodeTest htest hcovers hmiddle
      refine ⟨none, [test], input, hmiss.option, ?_, rfl⟩
      exact ((reads_nodeTest arithmetic).mpr ⟨htest, hcovers⟩).bind (reads_pure.mpr ⟨rfl, rfl⟩)
  | @marked mark text test htest =>
      rcases coverAll_cons.mp hcovers with ⟨left, hmark, hcovers⟩
      rw [coverAll_singleton] at hcovers
      have hreads := (reads_nodeTest arithmetic).mpr ⟨htest, hcovers⟩
      refine ⟨some (mark, .leaf (.axis mark) text), [test], left, ?_, ?_, rfl⟩
      · refine (reads_axisMark hmark ?_).option
        rcases first_of_nodeTest htest hcovers with ⟨c, more, rfl, hc⟩
        intro _ d hd
        cases hd
        exact ne_of_nodeTest hc (by decide) (by decide)
      · simp only [testAfter]
        split
        · exact hreads.option.bind (reads_pure.mpr ⟨rfl, rfl⟩)
        · exact hreads.bind (reads_pure.mpr ⟨rfl, rfl⟩)
  | @alone mark text halone =>
      rcases coverAll_cons.mp hcovers with ⟨left, hmark, hcovers⟩
      rw [coverAll_nil] at hcovers
      subst hcovers
      refine ⟨some (mark, .leaf (.axis mark) text), [], left, ?_, ?_, rfl⟩
      · exact (reads_axisMark hmark fun _ c hc => (hmiddle.first hc).1).option
      · simp only [testAfter]
        rw [if_pos halone]
        have hmiss : Misses nodeTest left := misses_nodeTest fun c hc => (hmiddle.first hc).2.1
        exact hmiss.option.bind (reads_pure.mpr ⟨rfl, rfl⟩)

theorem reads_step (h : IsStep t) (hroom : t.nesting ≤ maxNesting)
    (hcovers : t.Covers arithmetic input rest) (hrest : StepEnd rest) :
    Reads (step arithmetic) input t rest := by
  cases h with
  | step hheading hpredicates =>
      rw [nesting_phrase rfl, nestingAll_append_le] at hroom
      rcases coverAll_append.mp (covers_phrase.mp hcovers) with ⟨middle, hcoverh, hcoverp⟩
      rcases reads_predicates hpredicates hroom.2 hcoverp hrest with ⟨hmany, hmiddle⟩
      rcases reads_heading hheading hcoverh hmiddle with ⟨mark, test, left, hmark, htest, rfl⟩
      exact hmark.bind (htest.bind (hmany.bind (reads_pure.mpr ⟨rfl, rfl⟩)))

theorem mark_first {mark : AxisMark} (h : mark ≠ .doubleSlash) :
    ∃ c more, mark.spelling.toList = c :: more ∧ Scan.isSpace c = false ∧ c ≠ '/' := by
  cases mark with
  | doubleSlash => exact absurd rfl h
  | _ => exact ⟨_, _, rfl, by decide, by decide⟩

theorem isSpace_toLower (c : Char) : Scan.isSpace c.toLower = Scan.isSpace c := by
  have halpha {d : Char} (h : d.isAlpha = true) : Scan.isSpace d = false := by
    apply not_space_of_nameStart
    rw [Scan.isNameStart, h]
    rfl
  rcases toLower_eq_or c with hsame | ⟨hc, hlower⟩
  · rw [hsame]
  · rw [halpha hc, halpha hlower]

def StepStart (input : List Char) : Prop :=
  (∃ more, input = '/' :: '/' :: more) ∨
    ∃ c more, input = c :: more ∧ Scan.isSpace c = false ∧ c ≠ '/'

theorem StepStart.not_space (h : StepStart input) :
    ∀ c ∈ input.head?, Scan.isSpace c = false := by
  rcases h with ⟨more, rfl⟩ | ⟨c, more, rfl, hspace, _⟩
  · intro d hd
    cases hd
    decide
  · intro d hd
    cases hd
    exact hspace

theorem doubleSlash_of_lower {chars : List Char} (h : chars.map Char.toLower = ['/', '/']) :
    chars = ['/', '/'] := by
  rcases List.map_eq_cons_iff.mp h with ⟨c, more, rfl, hc, hmore⟩
  rcases List.map_eq_cons_iff.mp hmore with ⟨d, none, rfl, hd, hnone⟩
  rw [List.map_eq_nil_iff.mp hnone, (toLower_eq_iff rfl).mp hc, (toLower_eq_iff rfl).mp hd]

theorem stepStart_of_mark {mark : AxisMark} {text : String}
    (h : (Token.leaf (.axis mark) text).Covers arithmetic input middle) : StepStart input := by
  rcases covers_leaf.mp h with ⟨rfl, hspells, _⟩
  have hspelling : text.toList.map Char.toLower = mark.spelling.toList := hspells
  by_cases hmark : mark = .doubleSlash
  · left
    rw [hmark] at hspelling
    rw [doubleSlash_of_lower hspelling]
    exact ⟨middle, rfl⟩
  · right
    rcases mark_first hmark with ⟨c, others, hfirst, hspace, hslash⟩
    rw [hfirst] at hspelling
    rcases List.map_eq_cons_iff.mp hspelling with ⟨d, more, htext, rfl, _⟩
    refine ⟨d, more ++ middle, by rw [htext]; rfl, by rw [← isSpace_toLower, hspace], ?_⟩
    intro heq
    rw [heq] at hslash
    exact hslash rfl

theorem stepStart_of_step (h : IsStep t) (hcovers : t.Covers arithmetic input rest) :
    StepStart input := by
  cases h with
  | step hheading hpredicates =>
      rcases coverAll_append.mp (covers_phrase.mp hcovers) with ⟨middle, hheadings, _⟩
      cases hheading with
      | plain htest =>
          have hcovert := coverAll_singleton.mp hheadings
          rcases first_of_nodeTest htest hcovert with ⟨c, more, hinput, hc⟩
          refine Or.inr ⟨c, more, hinput, ?_, ne_of_nodeTest hc (by decide) (by decide)⟩
          rcases hc with rfl | hstart
          · decide
          · exact not_space_of_nameStart hstart
      | marked htest =>
          rcases coverAll_cons.mp hheadings with ⟨_, hmark, _⟩
          exact stepStart_of_mark hmark
      | alone halone =>
          rcases coverAll_cons.mp hheadings with ⟨_, hmark, _⟩
          exact stepStart_of_mark hmark

/-!
# Paths
-/

theorem slash_of_covers {text : String}
    (h : (Token.leaf (.symbol .slash) text).Covers arithmetic input rest) :
    input = '/' :: rest := by
  rcases covers_leaf.mp h with ⟨rfl, hspells, _⟩
  have htext : text.toList = ['/'] := hspells
  rw [htext]
  rfl

theorem not_space_of_slash {more : List Char} (h : input = '/' :: more) :
    ∀ c ∈ input.head?, Scan.isSpace c = false := by
  rw [h]
  intro c hc
  cases hc
  decide

theorem stepEnd_of_gap {gap : List Token} {more : List Char} (hgap : IsGap gap)
    (hcovers : CoverAll arithmetic gap input middle) (hmiddle : middle = '/' :: more) :
    StepEnd input := by
  rw [StepEnd, dropWhile_of_gap hgap hcovers (not_space_of_slash hmiddle), hmiddle]
  intro c hc
  cases hc
  rfl

theorem doubleSlash_of_step {text : String} {parts : List Token}
    (hcovers : (phrase .step (.leaf (.axis .doubleSlash) text :: parts)).Covers arithmetic input
      rest) :
    ∃ more, input = '/' :: '/' :: more := by
  rcases coverAll_cons.mp (covers_phrase.mp hcovers) with ⟨left, hmark, _⟩
  rcases covers_leaf.mp hmark with ⟨rfl, hspells, _⟩
  rw [doubleSlash_of_lower hspells]
  exact ⟨left, rfl⟩

theorem stepEnd_of_furtherStep (h : IsFurtherStep ts)
    (hcovers : CoverAll arithmetic ts input rest) : StepEnd input := by
  cases h with
  | slashed hbefore hafter h =>
      rcases coverAll_append.mp hcovers with ⟨_, hgap, hparts⟩
      rcases coverAll_append.mp hparts with ⟨_, hhead, _⟩
      rcases coverAll_cons.mp hhead with ⟨_, hslash, _⟩
      exact stepEnd_of_gap hbefore hgap (slash_of_covers hslash)
  | doubled hbefore h =>
      rcases coverAll_append.mp hcovers with ⟨_, hgap, hstep⟩
      rcases doubleSlash_of_step (coverAll_singleton.mp hstep) with ⟨more, hmiddle⟩
      exact stepEnd_of_gap hbefore hgap hmiddle

theorem reads_furtherStep (h : IsFurtherStep ts) (hroom : nestingAll ts ≤ maxNesting)
    (hcovers : CoverAll arithmetic ts input rest) (hrest : StepEnd rest) :
    Reads (furtherStep arithmetic) input ts rest := by
  cases h with
  | @slashed text before after t hbefore hafter h =>
      rw [nestingAll_append_le, nestingAll_append_le, nestingAll_singleton] at hroom
      rcases coverAll_append.mp hcovers with ⟨_, hgap, hparts⟩
      rcases coverAll_append.mp hparts with ⟨_, hhead, hstep⟩
      rcases coverAll_cons.mp hhead with ⟨_, hslash, hgap'⟩
      rw [coverAll_singleton] at hstep
      rcases (reads_slash arithmetic).mpr ⟨⟨text, rfl⟩, hslash⟩ with ⟨hreads, hahead⟩
      have hspace := not_space_of_slash (slash_of_covers hslash)
      have hspace' := (stepStart_of_step h hstep).not_space
      refine ((reads_blanks arithmetic).mpr ⟨hbefore, hgap, hspace⟩).bind ?_
      refine Reads.bind ?_ (reads_pure.mpr ⟨rfl, rfl⟩)
      refine (reads_ahead.mpr ⟨hahead.symm, rfl⟩).bind ?_
      rw [if_neg Bool.false_ne_true]
      refine hreads.bind (((reads_blanks arithmetic).mpr ⟨hafter, hgap', hspace'⟩).bind ?_)
      exact (reads_step h hroom.2.2 hstep hrest).bind (reads_pure.mpr ⟨rfl, rfl⟩)
  | @doubled text before parts hbefore h =>
      rw [nestingAll_append_le, nestingAll_singleton] at hroom
      rcases coverAll_append.mp hcovers with ⟨_, hgap, hstep⟩
      rw [coverAll_singleton] at hstep
      rcases doubleSlash_of_step hstep with ⟨more, hmiddle⟩
      have hspace := not_space_of_slash hmiddle
      refine ((reads_blanks arithmetic).mpr ⟨hbefore, hgap, hspace⟩).bind ?_
      refine Reads.bind ?_ (reads_pure.mpr ⟨rfl, rfl⟩)
      have hahead : true = ['/', '/'].isPrefixOf ('/' :: '/' :: more) := rfl
      rw [← hmiddle] at hahead
      refine (reads_ahead.mpr ⟨hahead, rfl⟩).bind ?_
      rw [if_pos rfl]
      exact (reads_step h hroom.2 hstep hrest).bind (reads_pure.mpr ⟨rfl, rfl⟩)

theorem leaves_of_furtherStep (h : IsFurtherStep ts) : leavesAll ts ≠ [] := by
  cases h with
  | slashed => simp [leavesAll_append, leavesAll, leaves]
  | doubled => simp [leavesAll_append, leavesAll, leaves]

theorem misses_furtherStep (h : rest.dropWhile Scan.isSpace = []) :
    Misses (furtherStep arithmetic) rest := by
  rcases reads_blanks_dropWhile rest with ⟨gap, hgap⟩
  rw [h] at hgap
  refine hgap.misses_bind (Misses.bind ?_)
  refine (reads_ahead.mpr ⟨rfl, rfl⟩).misses_bind ?_
  exact Misses.bind (misses_symbol fun c hc => by cases hc)

theorem reads_steps (h : AreSteps ts) (hroom : nestingAll ts ≤ maxNesting)
    (hcovers : CoverAll arithmetic ts input rest) (hrest : rest.dropWhile Scan.isSpace = []) :
    Reads (steps arithmetic) input ts rest ∧ StepStart input := by
  cases h with
  | @steps first more hfirst hmore =>
      rw [nestingAll, Nat.max_le, nestingAll_flatten_le] at hroom
      rcases coverAll_cons.mp hcovers with ⟨middle, hhead, hparts⟩
      have hend : StepEnd rest := by
        rw [StepEnd, hrest]
        intro c hc
        cases hc
      have hseries := series_of_all (p := furtherStep arithmetic)
        (fun ts => IsFurtherStep ts ∧ nestingAll ts ≤ maxNesting) StepEnd
        (fun ts _ _ hts => reads_furtherStep hts.1 hts.2)
        (fun ts _ _ hts => stepEnd_of_furtherStep hts.1) (fun ts hts => leaves_of_furtherStep hts.1)
        (fun ts hts => ⟨hmore ts hts, hroom.2 ts hts⟩) hparts hend (misses_furtherStep hrest)
      refine ⟨?_, stepStart_of_step hfirst hhead⟩
      exact (reads_step hfirst hroom.1 hhead hseries.2).bind
        (hseries.1.reads_many.bind (reads_pure.mpr ⟨rfl, rfl⟩))

theorem reads_rootSlash {text : String}
    (h : (Token.leaf (.symbol .slash) text).Covers arithmetic input rest) :
    Reads rootSlash input (.leaf (.symbol .slash) text) rest := by
  rcases (reads_slash arithmetic).mpr ⟨⟨text, rfl⟩, h⟩ with ⟨hreads, hahead⟩
  refine (reads_ahead.mpr ⟨hahead.symm, rfl⟩).bind ?_
  rw [if_neg Bool.false_ne_true]
  exact hreads

theorem misses_rootSlash (h : StepStart input) : Misses rootSlash input := by
  refine (reads_ahead.mpr ⟨rfl, rfl⟩).misses_bind ?_
  split
  · exact misses_fail
  · rename_i hahead
    apply misses_symbol
    rcases h with ⟨more, rfl⟩ | ⟨c, more, rfl, _, hslash⟩
    · exact absurd rfl hahead
    · intro d hd heq
      cases hd
      cases heq
      exact hslash rfl

theorem misses_steps_nil : Misses (steps arithmetic) [] := by
  have hmark : Misses axisMark [] := misses_axisMark (by simp) (by simp)
  have htest : Misses nodeTest [] := misses_nodeTest (by simp)
  exact Misses.bind (hmark.option.misses_bind (Misses.bind htest.bind))

theorem reads_pathSteps {found : Option (List Token)}
    (h : Reads (option (spacedSteps arithmetic)) input found rest) :
    Reads (pathSteps arithmetic true) input (found.getD []) rest := by
  have hreads : Reads (option (spacedSteps arithmetic) >>= fun inner => pure (inner.getD [])) input
      (found.getD []) rest :=
    h.bind (reads_pure.mpr ⟨rfl, rfl⟩)
  exact hreads

theorem reads_path (h : IsPath t) (hroom : t.nesting ≤ maxNesting)
    (hcovers : t.Covers arithmetic input []) : Reads (path arithmetic) input t [] := by
  have hend {after : List Token} {input : List Char} (hafter : IsGap after)
      (hcovers : CoverAll arithmetic after input []) :
      Reads blanks input after [] ∧ input.dropWhile Scan.isSpace = [] :=
    ⟨(reads_blanks arithmetic).mpr ⟨hafter, hcovers, by simp⟩,
      dropWhile_of_gap hafter hcovers (by simp)⟩
  cases h with
  | relative hbefore hinner hafter =>
      rw [nesting_path hbefore hafter] at hroom
      rcases coverAll_append.mp (covers_phrase.mp hcovers) with ⟨_, hparts, hcovera⟩
      rcases coverAll_append.mp hparts with ⟨_, hcoverb, hcoveri⟩
      rcases hend hafter hcovera with ⟨hreadsa, hdrop⟩
      rcases reads_steps hinner hroom hcoveri hdrop with ⟨hsteps, hstart⟩
      refine ((reads_blanks arithmetic).mpr ⟨hbefore, hcoverb, hstart.not_space⟩).bind ?_
      refine (misses_rootSlash hstart).option.bind (hsteps.bind (hreadsa.bind ?_))
      refine (reads_endOfInput.mpr ⟨rfl, rfl⟩).bind (reads_pure.mpr ⟨?_, rfl⟩)
      rw [Option.toList_none, List.append_nil]
      rfl
  | absolute hbefore hspace hinner hafter =>
      rw [nesting_phrase rfl] at hroom
      simp only [nestingAll_append_le] at hroom
      rcases coverAll_append.mp (covers_phrase.mp hcovers) with ⟨_, hparts, hcovera⟩
      rcases coverAll_append.mp hparts with ⟨_, hhead, hparts⟩
      rcases coverAll_append.mp hhead with ⟨_, hcoverb, hslash⟩
      rcases coverAll_append.mp hparts with ⟨_, hcovers, hcoveri⟩
      rw [coverAll_singleton] at hslash
      rcases hend hafter hcovera with ⟨hreadsa, hdrop⟩
      rcases reads_steps hinner hroom.1.2.2 hcoveri hdrop with ⟨hsteps, hstart⟩
      have hspaced : Reads (spacedSteps arithmetic) _ _ _ :=
        ((reads_blanks arithmetic).mpr ⟨hspace, hcovers, hstart.not_space⟩).bind
          (hsteps.bind (reads_pure.mpr ⟨rfl, rfl⟩))
      have hblank := not_space_of_slash (slash_of_covers hslash)
      refine ((reads_blanks arithmetic).mpr ⟨hbefore, hcoverb, hblank⟩).bind ?_
      refine (reads_rootSlash hslash).option.bind ((reads_pathSteps hspaced.option).bind ?_)
      exact hreadsa.bind ((reads_endOfInput.mpr ⟨rfl, rfl⟩).bind (reads_pure.mpr ⟨rfl, rfl⟩))
  | root hbefore hafter =>
      rcases coverAll_append.mp (covers_phrase.mp hcovers) with ⟨_, hparts, hcovera⟩
      rcases coverAll_append.mp hparts with ⟨_, hcoverb, hslash⟩
      rw [coverAll_singleton] at hslash
      rcases hend hafter hcovera with ⟨hreadsa, hdrop⟩
      have hspace := not_space_of_slash (slash_of_covers hslash)
      have hmiss : Misses (spacedSteps arithmetic) _ :=
        hreadsa.misses_bind (Misses.bind misses_steps_nil)
      refine ((reads_blanks arithmetic).mpr ⟨hbefore, hcoverb, hspace⟩).bind ?_
      refine (reads_rootSlash hslash).option.bind ((reads_pathSteps hmiss.option).bind ?_)
      refine hreadsa.bind ((reads_endOfInput.mpr ⟨rfl, rfl⟩).bind (reads_pure.mpr ⟨?_, rfl⟩))
      rw [Option.getD_none, List.append_nil]
      rfl

end Grammar

/-!
# Reading and writing
-/

namespace Token

theorem parse_of_wellFormed {arithmetic : Arithmetic} {t : Token} (h : WellFormed arithmetic t)
    (hnesting : t.nesting ≤ Grammar.maxNesting) : parse t.text arithmetic = .ok t := by
  refine parse_eq_ok_iff.mpr ⟨[], Grammar.reads_path h.1 hnesting ⟨?_, h.2⟩⟩
  rw [Token.text, String.toList_ofList, List.append_nil]

/-- A text is read as a token exactly when the token is well formed, its expressions are not nested
deeper than allowed and the text is its own. -/
theorem parse_eq_ok_iff_wellFormed {text : String} {arithmetic : Arithmetic} {t : Token} :
    parse text arithmetic = .ok t ↔
      WellFormed arithmetic t ∧ t.nesting ≤ Grammar.maxNesting ∧ t.text = text := by
  constructor
  · exact wellFormed_of_parse
  · intro h
    rcases h with ⟨⟨hpath, hfits⟩, hnesting, rfl⟩
    refine parse_eq_ok_iff.mpr ⟨[], Grammar.reads_path hpath hnesting ⟨?_, hfits⟩⟩
    rw [Token.text, String.toList_ofList, List.append_nil]

end Token
end TreeQuery
