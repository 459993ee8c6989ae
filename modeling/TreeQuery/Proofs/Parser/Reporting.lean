import TreeQuery.Proofs.Parser.Completeness
import TreeQuery.Proofs.Parser.Prospects

/-!
# What a rejected text is told

The error of a rejected text points at the furthest place that a reader got to.
What it lists there could really have come next: the text up to that place is the
beginning of one that is read.
-/

namespace TreeQuery
namespace Grammar

open TreeQuery.Parser Token

variable {arithmetic : Arithmetic} {within : Phrase} {input : List Char} {sign : Sign}

/-!
# Steps
-/

theorem outlook_predicate (h : Shows (predicate arithmetic) input sign) :
    Outlook arithmetic .step (maxNesting + 1) (Joined input IsSpacedPredicate) input sign := by
  rcases shows_blanks_bind arithmetic h with ⟨space, start, hgap, hcovers, h⟩
  have hbody : Prospects arithmetic (maxNesting + 1)
      (enclosed .predicate (symbol .openBracket .openBracket) (symbol .closeBracket .closeBracket)
        (expression arithmetic maxNesting)) (Enclosed .predicate .openBracket .closeBracket) :=
    prospects_enclosed (prospects_expression maxNesting) (sound_isExpression maxNesting) rfl rfl
      rfl rfl (by decide) (by decide)
  refine ((hbody .step start sign h.of_bind_pure).spaced hgap hcovers).imp ?_
  rintro _ ⟨⟨space, _, hspace, ⟨_, ⟨before, inner, after, hbefore, hinner, hafter, rfl⟩, rfl⟩, rfl⟩,
    hjoined⟩
  exact ⟨.spaced hspace (.enclosed hbefore hinner hafter), hjoined⟩

theorem not_misses_axisMark (h : ['/', '/'] <+: input) : ¬ Misses axisMark input := by
  rcases h with ⟨rest, rfl⟩
  have hcovers : (Token.axis .doubleSlash).Covers .standard ("//".toList ++ rest) rest :=
    covers_leaf.mpr ⟨rfl, rfl, fun _ _ => id⟩
  exact (reads_axisMark hcovers fun hdot => by cases hdot).not_misses

def StepAt (input : List Char) (t : Token) : Prop :=
  IsStep t ∧ (['/', '/'] <+: input →
    ∃ text parts, t = .phrase .step (.leaf (.axis .doubleSlash) text :: parts))

def sampleStep : Token :=
  .phrase .step [Token.name "x"]

theorem isStep_of_heading {heading : List Token} (h : IsHeading heading) :
    IsStep (.phrase .step heading) := by
  have hstep : IsStep (.phrase .step (heading ++ ([] : List (List Token)).flatten)) :=
    .step h fun p hp => by cases hp
  rw [List.flatten_nil, List.append_nil] at hstep
  exact hstep

theorem isStep_sample : IsStep sampleStep :=
  isStep_of_heading (.plain .name)

theorem outlook_nodeTest (h : Shows nodeTest input sign) :
    Outlook arithmetic .step (maxNesting + 1) (Single IsNodeTest) input sign := by
  rcases shows_nodeTest h with rfl | rfl
  · exact .start [Token.wildcard] ⟨_, .wildcard, rfl⟩ (fits_last rfl) rfl (by decide)
  · exact .start [Token.name "x"] ⟨_, .name, rfl⟩ (fits_last spells_name) rfl (by decide)

theorem shows_testAfter {mark : AxisMark × Token} (h : Shows (testAfter (some mark)) input sign) :
    Shows nodeTest input sign := by
  simp only [testAfter] at h
  split at h
  · exact h.of_bind_pure.of_option
  · exact h.of_bind_pure

theorem stepAt_of_misses {heading : List Token} (hheading : IsHeading heading)
    (hmiss : Misses axisMark input) : StepAt input (.phrase .step heading) :=
  ⟨isStep_of_heading hheading, fun hdouble => absurd hmiss (not_misses_axisMark hdouble)⟩

theorem outlook_testAfter {mark : Option (AxisMark × Token)} {middle : List Char}
    (hmark : Reads (option axisMark) input mark middle) (h : Shows (testAfter mark) middle sign) :
    Outlook arithmetic within (maxNesting + 1) (Single (StepAt input)) input sign := by
  cases mark with
  | none =>
      rcases reads_option.mp hmark with ⟨hmiss, hrest⟩
      rw [hrest] at h
      refine (outlook_nodeTest h.of_bind_pure).phrase ?_
      rintro _ ⟨test, htest, rfl⟩
      exact ⟨_, stepAt_of_misses (.plain htest) hmiss, rfl⟩
  | some mark =>
      rcases mark with ⟨mark, _⟩
      rcases covers_of_reads_axisMark arithmetic (reads_option.mp hmark) with
        ⟨⟨text, rfl⟩, hcovers⟩
      have hbehind : Outlook arithmetic .step (maxNesting + 1)
          (fun ts => ∃ test, IsNodeTest test ∧ ts = [.leaf (.axis mark) text, test]) input
          sign := by
        refine .behind hcovers.single.1 (outlook_nodeTest (shows_testAfter h)) ?_ ?_
          (Nat.le_add_left _ _)
        · intro ts _
          exact ⟨(covers_leaf.mp hcovers).2.1, fun _ _ => id, trivial⟩
        · rintro _ ⟨test, htest, rfl⟩
          exact ⟨test, htest, rfl⟩
      refine hbehind.phrase ?_
      rintro _ ⟨test, htest, rfl⟩
      refine ⟨_, ⟨isStep_of_heading (.marked htest), ?_⟩, rfl⟩
      intro hdouble
      rw [mark_of_doubleSlash hcovers hdouble]
      exact ⟨text, [test], rfl⟩

theorem outlook_predicates {heading : List Token} {middle : List Char}
    (hheading : IsHeading heading) (hcovers : CoverAll arithmetic heading input middle)
    (h : Shows (many (predicate arithmetic)) middle sign) :
    Outlook arithmetic within (maxNesting + 1) (Single (StepAt input)) input sign := by
  have hmany : ∀ predicates : List (List Token), (∀ p ∈ predicates, IsSpacedPredicate p) →
      CoverAll arithmetic (heading ++ predicates.flatten) input middle →
      Outlook arithmetic within (maxNesting + 1) (Single (StepAt input)) input sign := by
    refine h.many_induction (motive := fun middle => ∀ predicates : List (List Token),
      (∀ p ∈ predicates, IsSpacedPredicate p) →
      CoverAll arithmetic (heading ++ predicates.flatten) input middle →
      Outlook arithmetic within (maxNesting + 1) (Single (StepAt input)) input sign) ?_ ?_
    · intro middle h predicates hpredicates hall
      refine .phraseAfter hall (outlook_predicate h) ?_ (Nat.le_add_left _ _)
      intro ts hts
      have hstep := IsStep.step hheading
        (List.forall_mem_append.mpr ⟨hpredicates, List.forall_mem_singleton.mpr hts⟩)
      rw [List.flatten_append, List.flatten_singleton, ← List.append_assoc] at hstep
      refine ⟨hstep, ?_⟩
      intro hdouble
      rcases heading_of_doubleSlash hheading hcovers hdouble with ⟨text, more, hmore⟩
      rw [hmore]
      exact ⟨text, _, rfl⟩
    · intro middle ts next hts ih predicates hpredicates hall
      rcases sound_predicate _ _ _ hts with ⟨hform, _, hcovers'⟩
      refine ih (predicates ++ [ts])
        (List.forall_mem_append.mpr ⟨hpredicates, List.forall_mem_singleton.mpr hform⟩) ?_
      rw [List.flatten_append, List.flatten_singleton, ← List.append_assoc]
      exact hall.append hcovers'
  refine hmany [] (fun p hp => by cases hp) ?_
  rw [List.flatten_nil, List.append_nil]
  exact hcovers

theorem outlook_step (h : Shows (step arithmetic) input sign) :
    Outlook arithmetic within (maxNesting + 1) (Single (StepAt input)) input sign := by
  rcases h.of_bind with h | ⟨mark, middle, hmark, h⟩
  · rcases shows_axisMark h.of_option with ⟨rfl, hmiss⟩
    exact .start [.phrase .step [Token.axis .child, Token.name "x"]]
      ⟨_, stepAt_of_misses (.marked .name) hmiss, rfl⟩
      ⟨rfl, fun _ _ => id, fits_last spells_name⟩ rfl (by decide)
  rcases h.of_bind with h | ⟨test, last, htest, h⟩
  · exact outlook_testAfter hmark h
  · rcases sound_heading arithmetic hmark htest with ⟨hheading, hcovers⟩
    exact outlook_predicates hheading hcovers h.of_bind_pure

theorem outlook_furtherStep (h : Shows (furtherStep arithmetic) input sign) :
    Outlook arithmetic within (maxNesting + 1) (Joined input IsFurtherStep) input sign := by
  rcases shows_blanks_bind arithmetic h with ⟨before, start, hbefore, hcovers, h⟩
  rcases h.of_bind_pure.of_bind with h | ⟨double, _, hdouble, h⟩
  · exact absurd h not_shows_ahead
  rcases reads_ahead.mp hdouble with ⟨hdoubled, hrest⟩
  rw [hdoubled, hrest] at h
  split at h
  · rename_i hahead
    refine ((outlook_step h.of_bind_pure).spaced hbefore hcovers).imp ?_
    rintro _ ⟨⟨space, _, hspace, ⟨t, ⟨hstep, hmark⟩, rfl⟩, rfl⟩, hjoined⟩
    rcases hmark (List.isPrefixOf_iff_prefix.mp hahead) with ⟨text, parts, rfl⟩
    exact ⟨.doubled hspace hstep, hjoined⟩
  · rename_i hahead
    rcases h.of_bind with h | ⟨slash, middle, hslash, h⟩
    · rw [shows_symbol h]
      have hstart : Outlook arithmetic within (maxNesting + 1)
          (fun ts => ts = [Token.symbol .slash, sampleStep]) start
          (.expects start.length .slash) := by
        refine .start _ rfl ⟨rfl, ?_, fits_last spells_name⟩ rfl (by decide)
        intro c hc hmore
        cases hc
        cases hmore
      refine (hstart.spaced hbefore hcovers).imp ?_
      rintro _ ⟨⟨space, _, hspace, rfl, rfl⟩, hjoined⟩
      exact ⟨.slashed hspace .none isStep_sample, hjoined⟩
    · rcases (reads_slash arithmetic).mp ⟨hslash, Bool.eq_false_iff.mpr hahead⟩ with
        ⟨⟨text, rfl⟩, hslash⟩
      rcases shows_blanks_bind arithmetic h with ⟨after, last, hafter, hcovers', h⟩
      refine .after (hcovers.append hslash.single)
        ((outlook_step h.of_bind_pure).spaced hafter hcovers') ?_ (Nat.le_add_left _ _)
      rintro _ ⟨space, _, hspace, ⟨t, ⟨hstep, _⟩, rfl⟩, rfl⟩
      have hslashed : IsFurtherStep (before ++ (.leaf (.symbol .slash) text :: space ++ [t])) :=
        .slashed hbefore hspace hstep
      simpa using hslashed

theorem append_furtherStep {ts parts : List Token} (h : AreSteps ts)
    (hparts : IsFurtherStep parts) : AreSteps (ts ++ parts) := by
  cases h with
  | @steps first more hfirst hmore =>
      have hsteps := AreSteps.steps hfirst
        (List.forall_mem_append.mpr ⟨hmore, List.forall_mem_singleton.mpr hparts⟩)
      rw [List.flatten_append, List.flatten_singleton] at hsteps
      exact hsteps

theorem areSteps_singleton {t : Token} (h : IsStep t) : AreSteps [t] := by
  have hsteps : AreSteps (t :: ([] : List (List Token)).flatten) :=
    .steps h fun x hx => by cases hx
  exact hsteps

theorem outlook_steps (h : Shows (steps arithmetic) input sign) :
    Outlook arithmetic within (maxNesting + 1) AreSteps input sign := by
  rcases h.of_bind with h | ⟨first, middle, hfirst, h⟩
  · refine (outlook_step h).imp ?_
    rintro _ ⟨t, ⟨hstep, _⟩, rfl⟩
    exact areSteps_singleton hstep
  rcases sound_step _ _ _ hfirst with ⟨⟨hstep, _⟩, hfirst⟩
  have hmany : ∀ ts, AreSteps ts → CoverAll arithmetic ts input middle →
      Outlook arithmetic within (maxNesting + 1) AreSteps input sign := by
    refine h.of_bind_pure.many_induction (motive := fun middle => ∀ ts, AreSteps ts →
      CoverAll arithmetic ts input middle →
      Outlook arithmetic within (maxNesting + 1) AreSteps input sign) ?_ ?_
    · intro middle h ts hts hcovers
      have hafter : Outlook arithmetic within (maxNesting + 1) (Joined input AreSteps) input sign :=
        .after hcovers (outlook_furtherStep h) (fun _ => append_furtherStep hts)
          (Nat.le_add_left _ _)
      exact hafter.imp fun _ h => h.1
    · intro middle parts next hparts ih ts hts hcovers
      rcases sound_furtherStep _ _ _ hparts with ⟨hform, _, hcovers'⟩
      exact ih _ (append_furtherStep hts hform) (hcovers.append hcovers')
  exact hmany [first] (areSteps_singleton hstep) hfirst.single

/-!
# Paths
-/

theorem shows_rootSlash (h : Shows rootSlash input sign) :
    sign = .expects input.length .slash := by
  rcases h.of_bind with h | ⟨double, _, hdouble, h⟩
  · exact absurd h not_shows_ahead
  rw [(reads_ahead.mp hdouble).2] at h
  split at h
  · exact h.of_fail
  · exact shows_symbol h

theorem shows_endOfInput (h : Shows endOfInput input sign) :
    sign = .expects input.length .endOfInput := by
  cases input with
  | nil => exact absurd h (Reply.not_shows_none fun _ h => by cases h)
  | cons c more => exact Shows.of_fail h

theorem shows_pathSteps {absolute : Bool} (h : Shows (pathSteps arithmetic absolute) input sign) :
    if absolute then Shows (spacedSteps arithmetic) input sign
    else Shows (steps arithmetic) input sign := by
  cases absolute with
  | true => exact Shows.of_option (Shows.of_bind_pure h)
  | false => exact h

theorem outlook_path (within : Phrase) (h : Shows (path arithmetic) input sign) :
    Outlook arithmetic within (maxNesting + 1) (Single IsPath) input sign ∨
      ∃ t taken rest, IsPath t ∧ t.Covers arithmetic taken [] ∧ input = taken ++ rest ∧
        sign = .expects rest.length .endOfInput := by
  rcases h.of_bind with h | ⟨before, start, hbefore, h⟩
  · exact absurd h (Reply.not_shows_none fun _ h => by cases h)
  rcases (reads_blanks arithmetic).mp hbefore with ⟨hgap, hcovers, _⟩
  rcases h.of_bind with h | ⟨slash, first, hslash, h⟩
  · rw [shows_rootSlash h.of_option]
    left
    have hstart : Outlook arithmetic (.path true) (maxNesting + 1)
        (fun ts => ts = [Token.symbol .slash]) start (.expects start.length .slash) :=
      .start _ rfl (fits_last rfl) rfl (by decide)
    refine (hstart.spaced hgap hcovers).phrase ?_
    rintro _ ⟨⟨space, _, hspace, rfl, rfl⟩, _⟩
    have hroot : IsPath (.phrase (.path true) (space ++ [Token.symbol .slash] ++ [])) :=
      .root hspace .none
    rw [List.append_nil] at hroot
    exact ⟨_, hroot, rfl⟩
  rcases h.of_bind with h | ⟨inner, last, hinner, h⟩
  · left
    have h := shows_pathSteps h
    rw [reads_option] at hslash
    cases slash with
    | none =>
        rw [hslash.2] at h
        have hsteps : Outlook arithmetic (.path false) (maxNesting + 1) AreSteps start sign :=
          outlook_steps h
        refine (hsteps.spaced hgap hcovers).phrase ?_
        rintro _ ⟨⟨space, inner, hspace, hinner, rfl⟩, _⟩
        have hpath : IsPath (.phrase (.path false) (space ++ inner ++ [])) :=
          .relative hspace hinner .none
        rw [List.append_nil] at hpath
        exact ⟨_, hpath, rfl⟩
    | some slash =>
        rcases sound_rootSlash arithmetic hslash with ⟨⟨text, rfl⟩, hslash⟩
        rcases shows_blanks_bind arithmetic h with ⟨space, second, hspace, hcovers', h⟩
        have hsteps : Outlook arithmetic (.path true) (maxNesting + 1) AreSteps second sign :=
          outlook_steps h.of_bind_pure
        refine .phraseAfter (hcovers.append hslash.single) (hsteps.spaced hspace hcovers') ?_
          (Nat.le_add_left _ _)
        rintro _ ⟨space, inner, hspace, hinner, rfl⟩
        have hpath : IsPath (.phrase (.path true)
            (before ++ [.leaf (.symbol .slash) text] ++ (space ++ inner) ++ [])) :=
          .absolute hgap hspace hinner .none
        rw [List.append_nil] at hpath
        exact hpath
  rcases h.of_bind with h | ⟨after, rest, hafter, h⟩
  · exact absurd h (Reply.not_shows_none fun _ h => by cases h)
  · right
    rcases sound_pathParts hbefore hslash hinner hafter with ⟨hpath, _, hcovered, hfits⟩
    refine ⟨_, _, rest, hpath, covers_phrase.mpr ⟨(List.append_nil _).symm, ?_⟩, hcovered,
      shows_endOfInput h.of_bind_pure⟩
    exact hfits.replace fun c hc => by cases hc

/-!
# Misses

A path that is missed has left something at the frontier.
-/

theorem accounts_blanks : Accounts blanks := by
  intro input h
  cases h

theorem accounts_nodeTest : Accounts nodeTest :=
  .orElse (accounts_scan.bind fun _ => accounts_pure)

theorem accounts_testAfter (mark : Option (AxisMark × Token)) : Accounts (testAfter mark) := by
  cases mark with
  | none => exact accounts_nodeTest.bind fun _ => accounts_pure
  | some mark =>
      simp only [testAfter]
      split
      · exact accounts_option.bind fun _ => accounts_pure
      · exact accounts_nodeTest.bind fun _ => accounts_pure

theorem accounts_steps : Accounts (steps arithmetic) := by
  have hstep : Accounts (step arithmetic) :=
    accounts_option.bind fun mark => (accounts_testAfter mark).bind fun _ =>
      accounts_many.bind fun _ => accounts_pure
  exact hstep.bind fun _ => accounts_many.bind fun _ => accounts_pure

theorem accounts_pathSteps (absolute : Bool) : Accounts (pathSteps arithmetic absolute) := by
  cases absolute with
  | true => exact Accounts.bind accounts_option fun _ => accounts_pure
  | false => exact accounts_steps

theorem accounts_endOfInput : Accounts endOfInput := by
  intro input h
  cases input with
  | nil => cases h
  | cons c more => exact List.cons_ne_nil _ _

theorem accounts_path : Accounts (path arithmetic) :=
  accounts_blanks.bind fun _ => accounts_option.bind fun slash =>
    (accounts_pathSteps slash.isSome).bind fun _ => accounts_blanks.bind fun _ =>
      accounts_endOfInput.bind fun _ => accounts_pure

end Grammar

namespace Production

theorem mem_ordered {production : Production} {productions : List Production} :
    production ∈ ordered productions ↔ production ∈ productions := by
  rw [ordered, List.mem_filter, List.contains_iff_mem]
  exact and_iff_right production.mem_all

theorem ordered_ne_nil {productions : List Production} (h : productions ≠ []) :
    ordered productions ≠ [] := by
  rcases List.exists_mem_of_ne_nil _ h with ⟨production, hproduction⟩
  exact List.ne_nil_of_mem (mem_ordered.mpr hproduction)

end Production

/-!
# Literals that are refused
-/

namespace Number

theorem read?_of_isNumber {chars : List Char} (h : Lexeme.IsNumber chars) :
    ∃ literal, Literal.read? chars = some literal := by
  have hread : Literal.read? chars = Literal.unsigned? false chars := by
    rcases h with ⟨hall, _, d, hd, _⟩
    cases chars with
    | nil => cases hd
    | cons c rest => exact Literal.read?_of_unsigned (hall c List.mem_cons_self)
  rw [hread]
  rcases Scan.isNumber_cases h with hall | ⟨whole, fraction, rfl, hne, hall⟩
  · have hne : chars ++ [] ≠ [] := by
      rintro hnil
      rcases h with ⟨_, _, d, hd, _⟩
      rw [List.append_nil] at hnil
      rw [hnil] at hd
      cases hd
    refine ⟨_, Literal.unsigned?_of_split (Literal.split_of_digits hall) ?_ hne false⟩
    rw [List.append_nil]
    exact hall
  · have hwhole : ∀ c ∈ whole, Literal.isDigit c = true := fun c hc =>
      hall c (List.mem_append_left fraction hc)
    exact ⟨_, Literal.unsigned?_of_split (Literal.split_of_point hwhole) hall hne false⟩

/-- Only decimals refuse a literal, and they do so for its size. -/
theorem parse_eq_error {chars : List Char} {arithmetic : Arithmetic} {error : NumberError}
    (h : Lexeme.IsNumber chars) (herror : parse (String.ofList chars) arithmetic = .error error) :
    arithmetic.representation = .decimal ∧ error = .outOfRange (String.ofList chars) := by
  have htrim : Blank.trim chars = chars := by
    apply trim_of_not_blank
    intro c hc
    rcases h.1 c hc with hdigit | rfl
    · exact not_blank_of_digit hdigit
    · decide
  rcases read?_of_isNumber h with ⟨literal, hliteral⟩
  unfold parse at herror
  simp only [String.toList_ofList, htrim, hliteral] at herror
  split at herror
  · rename_i hdecimal
    split at herror
    · cases herror
    · cases herror
      exact ⟨hdecimal, rfl⟩
  · cases herror

end Number

/-!
# Places
-/

namespace ParseError

/-- The error is that of the place behind the first `k` characters of the text. -/
structure PointsAt (e : ParseError) (text : String) (k : Nat) : Prop where
  le : k ≤ text.toList.length
  found : e.found = text.toList[k]?
  line : e.line = (text.toList.take k).count '\n' + 1
  column : ∃ earlier current, text.toList.take k = earlier ++ current ∧ '\n' ∉ current ∧
    (earlier = [] ∨ ∃ lines, earlier = lines ++ ['\n']) ∧ e.column = current.length + 1

theorem exists_column (taken : List Char) :
    ∃ earlier current, taken = earlier ++ current ∧ '\n' ∉ current ∧
      (earlier = [] ∨ ∃ lines, earlier = lines ++ ['\n']) ∧
      Place.column taken = current.length + 1 := by
  refine ⟨(taken.reverse.dropWhile (· != '\n')).reverse,
    (taken.reverse.takeWhile (· != '\n')).reverse, ?_, ?_, ?_, ?_⟩
  · rw [← List.reverse_append, List.takeWhile_append_dropWhile, List.reverse_reverse]
  · intro hmem
    have hne := List.mem_takeWhile_imp (List.mem_reverse.mp hmem)
    cases hne
  · cases hdrop : taken.reverse.dropWhile (· != '\n') with
    | nil => exact Or.inl rfl
    | cons c lines =>
        right
        have hhead := List.head?_dropWhile_not (· != '\n') taken.reverse
        rw [hdrop] at hhead
        have hc : c = '\n' := by simpa using hhead
        exact ⟨lines.reverse, by rw [List.reverse_cons, hc]⟩
  · rw [Place.column, List.length_reverse]

theorem pointsAt_located {text : String} {taken rest : List Char} {e : ParseError}
    (htext : text.toList = taken ++ rest) (hfound : e.found = rest.head?)
    (hline : e.line = Place.line taken) (hcolumn : e.column = Place.column taken) :
    e.PointsAt text taken.length := by
  have htake : text.toList.take taken.length = taken := by
    rw [htext, List.take_left]
  refine ⟨?_, ?_, ?_, ?_⟩
  · rw [htext, List.length_append]
    exact Nat.le_add_right ..
  · rw [hfound, htext, List.getElem?_append_right (Nat.le_refl _), Nat.sub_self,
      List.head?_eq_getElem?]
  · rw [htake, hline, Place.line]
  · rw [htake, hcolumn]
    exact exists_column taken

theorem located_append (taken rest : List Char) (make : Option Char → Nat → Nat → ParseError) :
    located (taken ++ rest) rest.length make =
      make rest.head? (Place.line taken) (Place.column taken) := by
  have hlength : (taken ++ rest).length - rest.length = taken.length := by
    rw [List.length_append, Nat.add_sub_cancel]
  rw [located, hlength, List.take_left, List.drop_left]

end ParseError

namespace Token

def leafAnswers (t : Token) : List (Option Production × String) :=
  t.answers (.path false)

/-- A text that is read begins with the given characters, and the next thing behind them, after
blanks, is of the given kind. -/
inductive MayFollow (arithmetic : Arithmetic) (start : List Char) : Production → Prop where
  | leaf {text : String} {t : Token} {before after : List (Option Production × String)}
      {production : Production} {word : String} {gap : List Char}
      (hparse : parse text arithmetic = .ok t)
      (hleaf : t.leafAnswers = before ++ (some production, word) :: after)
      (hbefore : answerChars before = start ++ gap) (hgap : ∀ c ∈ gap, Scan.isSpace c = true) :
      MayFollow arithmetic start production
  | ending {text : String} {t : Token} {gap : List Char} (hparse : parse text arithmetic = .ok t)
      (htext : text.toList = start ++ gap) (hgap : ∀ c ∈ gap, Scan.isSpace c = true) :
      MayFollow arithmetic start .endOfInput

section

variable {arithmetic : Arithmetic} {text : String} {e : ParseError}

theorem parse_of_isPath {t : Token} (hpath : IsPath t) (hfits : Fits arithmetic t.leaves [])
    (hopeners : openers t.chars ≤ 32) : parse t.text arithmetic = .ok t :=
  parse_of_wellFormed ⟨hpath, hfits⟩ ((hpath.opened hfits.spells).trans hopeners)

/-- Whatever is shown while a path is read can really follow. -/
theorem mayFollow_of_shows {input : List Char} {remaining : Nat} {production : Production}
    (h : Parser.Shows (Grammar.path arithmetic) input (.expects remaining production)) :
    ∃ taken rest, input = taken ++ rest ∧ rest.length = remaining ∧
      (openers taken < 32 → MayFollow arithmetic taken production) := by
  rcases Grammar.outlook_path (.path false) h with houtlook |
    ⟨t, taken, rest, hpath, ⟨hchars, hfits⟩, hinput, hsign⟩
  · cases houtlook with
    | @expects taken rest ts production hinput hform hfits hcontinues =>
        refine ⟨taken, rest, hinput, rfl, ?_⟩
        intro hfew
        rcases hform with ⟨t, hpath, rfl⟩
        rcases hcontinues with ⟨⟨before, word, after, gap, hleaf, hbefore, hgap⟩, hopeners⟩
        rw [answersAll, answersAll, List.append_nil] at hleaf
        rw [charsAll, charsAll, List.append_nil] at hopeners
        rw [leavesAll, leavesAll, List.append_nil] at hfits
        exact .leaf (parse_of_isPath hpath hfits (by omega)) hleaf hbefore hgap
  · cases hsign
    refine ⟨taken, rest, hinput, rfl, ?_⟩
    intro hfew
    rw [List.append_nil] at hchars
    have hopeners : openers t.chars ≤ 32 := by
      rw [← hchars]
      exact Nat.le_of_lt hfew
    have hparse := parse_of_isPath hpath hfits hopeners
    have htext : t.text.toList = taken ++ [] := by
      rw [Token.text, String.toList_ofList, hchars, List.append_nil]
    exact .ending hparse htext fun c hc => by cases hc

theorem mayFollow_of_miss {frontier : Frontier}
    (h : Grammar.path arithmetic text.toList = ⟨.miss, frontier⟩) :
    frontier.expected ≠ [] ∧ ∃ taken rest, text.toList = taken ++ rest ∧
      rest.length = frontier.remaining ∧ (openers taken < 32 →
        ∀ production ∈ frontier.expected, MayFollow arithmetic taken production) := by
  have hshows : ∀ production ∈ frontier.expected, Parser.Shows (Grammar.path arithmetic)
      text.toList (.expects frontier.remaining production) := by
    intro production hproduction
    show Frontier.Holds _ _ _
    rw [h]
    exact ⟨rfl, hproduction⟩
  have hne : frontier.expected ≠ [] := by
    have haccounts : Parser.Accounts (Grammar.path arithmetic) := Grammar.accounts_path
    have hmiss := haccounts text.toList
    unfold Parser.Misses at hmiss
    rw [h] at hmiss
    exact hmiss rfl
  rcases List.exists_mem_of_ne_nil _ hne with ⟨first, hfirst⟩
  rcases mayFollow_of_shows (hshows first hfirst) with ⟨taken, rest, htext, hlength, _⟩
  refine ⟨hne, taken, rest, htext, hlength, ?_⟩
  intro hfew production hproduction
  rcases mayFollow_of_shows (hshows production hproduction) with
    ⟨taken', rest', htext', hlength', hfollow⟩
  have hsame := List.append_inj' (htext.symm.trans htext') (hlength.trans hlength'.symm)
  rw [hsame.1] at hfew ⊢
  exact hfollow hfew

/-- An error points at a place of the text.  Either a number literal begins there that is too large
for a decimal, or something was expected there; and unless the text is nested too deep, everything
that was expected could have come next. -/
theorem parse_error_genuine (h : parse text arithmetic = .error e) :
    ∃ k, e.PointsAt text k ∧
      match e.numeric with
      | some error => e.expected = [] ∧ arithmetic.representation = .decimal ∧
          ∃ literal rest, text.toList.drop k = literal ++ rest ∧ Lexeme.IsNumber literal ∧
            (∀ c ∈ rest.head?, ¬ Lexeme.IsNumber (literal ++ [c])) ∧
            error = .outOfRange (String.ofList literal)
      | none => e.expected ≠ [] ∧ (openers (text.toList.take k) < 32 →
          ∀ production ∈ e.expected, MayFollow arithmetic (text.toList.take k) production) := by
  rcases hpath : Grammar.path arithmetic text.toList with ⟨outcome, frontier⟩
  have hhalts {reason : Halt} (houtcome : outcome = .halt reason) :
      Parser.Shows (Grammar.path arithmetic) text.toList (.halts reason) := by
    show (Grammar.path arithmetic text.toList).outcome = _
    rw [hpath, houtcome]
  simp only [parse, hpath] at h
  cases outcome with
  | done t rest => cases h
  | miss =>
      rcases mayFollow_of_miss hpath with ⟨hne, taken, rest, htext, hlength, hfollow⟩
      simp only [htext, ← hlength, ParseError.located_append] at h
      cases h
      refine ⟨taken.length, ParseError.pointsAt_located htext rfl rfl rfl, ?_⟩
      rw [htext, List.take_left]
      refine ⟨Production.ordered_ne_nil hne, ?_⟩
      intro hfew production hproduction
      exact hfollow hfew production (Production.mem_ordered.mp hproduction)
  | halt reason =>
      rcases Grammar.outlook_path (.path false) (hhalts rfl) with
        houtlook | ⟨_, _, _, _, _, _, hsign⟩
      · cases houtlook with
        | @tooDeep taken rest htext hroom =>
            simp only [htext, ParseError.located_append] at h
            cases h
            refine ⟨taken.length, ParseError.pointsAt_located htext rfl rfl rfl, ?_⟩
            rw [htext, List.take_left]
            refine ⟨List.cons_ne_nil _ _, ?_⟩
            intro hfew
            unfold Grammar.maxNesting at hroom
            omega
        | @badNumber taken literal rest error htext hliteral hstop herror =>
            simp only [htext, ParseError.located_append] at h
            cases h
            rcases Number.parse_eq_error hliteral herror with ⟨hdecimal, hrange⟩
            refine ⟨taken.length, ParseError.pointsAt_located htext rfl rfl rfl, rfl, hdecimal,
              literal, rest, ?_, hliteral, hstop, hrange⟩
            rw [htext, List.drop_left]
      · cases hsign

/-- Behind the first operand of this text an operator or the bracket could have come. -/
theorem parse_error_genuine_operand :
    let text := "a[1 2]"
    ∃ e, parse text .standard = .error e ∧ e.expected = [.closeBracket, .operator] ∧
      ∀ production ∈ e.expected, MayFollow .standard "a[1 ".toList production := by
  intro text
  have hreport : (match parse text .standard with | .ok _ => none | .error e => some e) =
      some ⟨some '2', 1, 5, [.closeBracket, .operator], none⟩ := by
    decide +kernel
  cases hparse : parse text .standard with
  | ok t =>
      rw [hparse] at hreport
      cases hreport
  | error e =>
      rw [hparse] at hreport
      cases hreport
      rcases parse_error_genuine hparse with ⟨k, hpoints, _, hfollow⟩
      have hplace : ∀ k ≤ text.toList.length, text.toList[k]? = some '2' → k = 4 := by decide
      have htake : text.toList.take 4 = "a[1 ".toList := by decide
      rw [hplace k hpoints.le hpoints.found.symm, htake] at hfollow
      exact ⟨_, rfl, rfl, hfollow (by decide)⟩

end

end Token
end TreeQuery
