import TreeQuery.Proofs.Parser.Outlook

/-!
# What the rules for expressions look for

The signs of every rule lead to a token of its form.  As in the proof that the
rules are sound, a row of readings is followed together with the token that has
been put together from it, and the room for expressions inside one another is
what the induction is on.
-/

namespace TreeQuery
namespace Grammar

open TreeQuery.Parser Token

variable {arithmetic : Arithmetic} {within kind : Phrase} {room : Nat} {input rest : List Char}
  {sign : Sign}

/-!
# Operands
-/

/-- Whatever the rule shows leads to a token of the form. -/
def Prospects (arithmetic : Arithmetic) (room : Nat) (p : Parser Token) (form : Token → Prop) :
    Prop :=
  ∀ within input sign, Shows p input sign → Outlook arithmetic within room (Single form) input sign

def sample : Token :=
  .leaf (.text "") "''"

theorem isExpression_sample {rank : Nat} : IsExpression rank sample := by
  induction rank with
  | zero => exact .text
  | succ rank ih => exact ih.tighter

theorem parse_zero (arithmetic : Arithmetic) :
    ∃ value, Number.parse "0" arithmetic = .ok value := by
  rcases arithmetic with ⟨representation, context⟩
  cases representation with
  | decimal =>
      have hkeeps : context.Keeps Decimal.zero.coefficient :=
        ⟨0, 0, Nat.pow_pos (by decide), rfl⟩
      have htext : Number.text (.decimal .zero) = "0" := by decide +kernel
      rw [← htext]
      exact ⟨_, Number.parse_text hkeeps⟩
  | double =>
      have hread : Literal.read? (Blank.trim "0".toList) = some ⟨false, ['0'], []⟩ := by decide
      refine ⟨.double (.ofLiteral ⟨false, ['0'], []⟩), ?_⟩
      unfold Number.parse
      simp only [hread]

section

variable {leaves : List (Lexeme × String)}

theorem fits_last {lexeme : Lexeme} {text : String} (h : lexeme.Spells arithmetic text.toList) :
    Fits arithmetic [(lexeme, text)] [] := by
  refine ⟨h, ?_, trivial⟩
  intro c hc
  cases hc

theorem fits_symbol {s : Symbol} (hs : s.isClosed = true) (h : Fits arithmetic leaves rest) :
    Fits arithmetic ((.symbol s, s.spelling) :: leaves) rest :=
  ⟨(spells_symbol hs).mpr rfl, fun c _ => not_extends_symbol hs c, h⟩

theorem spells_name : (Lexeme.name "x").Spells arithmetic "x".toList :=
  ⟨⟨rfl, fun _ hc => absurd hc List.not_mem_nil⟩, rfl⟩

theorem fits_name (hstop : ∀ c ∈ (leafChars leaves ++ rest).head?, Scan.isNameChar c = false)
    (h : Fits arithmetic leaves rest) : Fits arithmetic ((.name "x", "x") :: leaves) rest := by
  refine ⟨spells_name, ?_, h⟩
  intro c hc hmore
  have hmore : Lexeme.IsName ("x".toList ++ [c]) := hmore
  have hchar := isNameChar_of_isName hmore
  rw [hstop c hc] at hchar
  cases hchar

theorem fits_sample (h : Fits arithmetic leaves rest) :
    Fits arithmetic ((.text "", "''") :: leaves) rest :=
  ⟨⟨'\'', Or.inl rfl, List.not_mem_nil, rfl⟩, fun _ _ => id, h⟩

end

theorem prospects_number : Prospects arithmetic room (number arithmetic) (IsExpression 0) := by
  intro within input sign h
  revert h
  unfold Shows number
  split
  · intro h
    rw [h.of_single]
    rcases parse_zero arithmetic with ⟨value, hvalue⟩
    have hdigits : ∀ c ∈ "0".toList, Literal.isDigit c = true := by
      intro c hc
      rw [List.mem_singleton.mp hc]
      rfl
    have hzero : Lexeme.IsNumber "0".toList := (Scan.isNumber_digits (by decide) hdigits).1
    have hopeners : openers (charsAll [Token.number value "0"]) ≤ 1 := Nat.zero_le 1
    exact .start [.number value "0"] ⟨_, .number, rfl⟩ (fits_last ⟨hzero, hvalue⟩) rfl hopeners
  · rename_i taken left hscan
    rcases Scan.number_eq_some_iff.mp hscan with ⟨rfl, hnumber, hstop⟩
    split
    · exact fun h => absurd h (Reply.not_shows_none fun _ h => by cases h)
    · rename_i error herror
      intro h
      cases sign with
      | expects remaining production => exact absurd h.2 List.not_mem_nil
      | halts reason =>
          cases h
          exact .badNumber (List.nil_append _).symm hnumber hstop herror

theorem prospects_quotedText : Prospects arithmetic room quotedText (IsExpression 0) := by
  intro within input sign h
  rw [h.of_bind_pure.of_scan]
  exact .start [sample] ⟨_, isExpression_sample, rfl⟩ (fits_sample trivial) rfl (by decide)

theorem prospects_attribution : Prospects arithmetic room attribution (IsExpression 0) := by
  intro within input sign h
  have hform (sign n key : String) : Single (IsExpression 0)
      [.phrase .attribution [.leaf (.symbol .at) sign, .leaf (.name n) key]] :=
    ⟨_, .attribution, rfl⟩
  rcases h.of_bind with h | ⟨_, middle, hsign, h⟩
  · rw [shows_symbol h]
    refine .start [.phrase .attribution [Token.symbol .at, Token.name "x"]] (hform _ _ _) ?_ rfl
      (by decide)
    exact fits_symbol rfl (fits_last spells_name)
  · rcases (reads_symbol arithmetic rfl).mp hsign with ⟨⟨sign, rfl⟩, hsign⟩
    rw [shows_name h.of_bind_pure]
    have hname : Outlook arithmetic .attribution room (fun ts => ts = [Token.name "x"]) middle
        (.expects middle.length .name) :=
      .start _ rfl (fits_last spells_name) rfl (by decide)
    have hbehind : Outlook arithmetic .attribution room
        (fun ts => ts = [.leaf (.symbol .at) sign, Token.name "x"]) input
        (.expects middle.length .name) := by
      refine .behind hsign.single.1 hname ?_ (by rintro _ rfl; rfl) (Nat.le_add_left _ _)
      rintro _ rfl
      exact ⟨(covers_leaf.mp hsign).2.1, fun c _ => id, trivial⟩
    refine hbehind.phrase ?_
    rintro _ rfl
    exact hform _ _ _

theorem covers_of_reads_symbol {s : Symbol} {production : Production} {t : Token}
    (arithmetic : Arithmetic) (hs : s.isClosed = true)
    (h : Reads (symbol s production) input t rest) :
    t = Token.symbol s ∧ t.Covers arithmetic input rest := by
  have hcovers := ((reads_symbol arithmetic hs).mp h).2
  refine ⟨?_, hcovers⟩
  rw [(reads_symbol_iff.mp h).1, leafOf, String.ofList_toList]
  rfl

theorem outlook_closing {middle : List Char} {xs space : List Token} {s : Symbol}
    {production : Production} {shape : Token → Prop}
    (hparts : CoverAll arithmetic xs input middle) (hgap : IsGap space)
    (hspace : CoverAll arithmetic space middle rest) (hs : s.isClosed = true)
    (hproduction : (Lexeme.symbol s).production kind = some production)
    (hopeners : openers s.spelling.toList = 0)
    (hform : ∀ space, IsGap space → shape (.phrase kind (xs ++ space ++ [Token.symbol s]))) :
    Outlook arithmetic within room (Single shape) input (.expects rest.length production) := by
  have hcloses : Outlook arithmetic kind room (fun ts => ts = [Token.symbol s]) rest
      (.expects rest.length production) := by
    refine .start _ rfl (fits_symbol hs trivial) (congrArg some hproduction) ?_
    rw [openers_symbol, hopeners]
    exact Nat.zero_le 1
  refine .phraseAfter hparts (hcloses.spaced hgap hspace) ?_ (Nat.le_add_left _ _)
  rintro _ ⟨space, _, hspace, rfl, rfl⟩
  rw [← List.append_assoc]
  exact hform space hspace

def Enclosed (kind : Phrase) (opening closing : Symbol) (t : Token) : Prop :=
  ∃ before inner after, IsGap before ∧ IsExpression 5 inner ∧ IsGap after ∧
    t = .phrase kind (Token.symbol opening :: before ++ inner :: after ++ [Token.symbol closing])

theorem prospects_enclosed {p : Parser Token} {opening closing : Symbol} {first last : Production}
    (hp : Prospects arithmetic room p (IsExpression 5))
    (hsound : Sound arithmetic p (IsExpression 5))
    (hopening : opening.isClosed = true) (hclosing : closing.isClosed = true)
    (hfirst : (Lexeme.symbol opening).production kind = some first)
    (hlast : (Lexeme.symbol closing).production kind = some last)
    (hopener : openers opening.spelling.toList = 1)
    (hcloser : openers closing.spelling.toList = 0) :
    Prospects arithmetic (room + 1)
      (enclosed kind (symbol opening first) (symbol closing last) p)
      (Enclosed kind opening closing) := by
  intro within input sign h
  rcases h.of_bind with h | ⟨_, middle, hleft, h⟩
  · rw [shows_symbol h]
    refine .start [.phrase kind [Token.symbol opening, sample, Token.symbol closing]]
      ⟨_, ⟨[], sample, [], .none, isExpression_sample, .none, rfl⟩, rfl⟩
      (fits_symbol hopening (fits_sample (fits_symbol hclosing trivial)))
      (congrArg some hfirst) ?_
    rw [charsAll_phrase, openers_symbol, hopener]
    show 1 + openers (charsAll [Token.symbol closing]) ≤ 1
    rw [openers_symbol, hcloser]
    exact Nat.le_refl 1
  rcases covers_of_reads_symbol arithmetic hopening hleft with ⟨rfl, hleft⟩
  rcases shows_blanks_bind arithmetic h with ⟨before, start, hbefore, hcovers, h⟩
  rcases h.of_bind with h | ⟨inner, middle', hinner, h⟩
  · have hclosed : Outlook arithmetic kind room (fun ts => ∃ inner, IsExpression 5 inner ∧
        ts = [inner, blank " ", Token.symbol closing]) start sign := by
      refine (hp kind start sign h).closedBy hclosing hcloser ?_
      rintro _ ⟨inner, hinner, rfl⟩
      exact ⟨inner, hinner, rfl⟩
    refine .phraseAfter hleft.single (hclosed.spaced hbefore hcovers) ?_ ?_
    · rintro _ ⟨space, _, hspace, ⟨inner, hinner, rfl⟩, rfl⟩
      refine ⟨space, inner, [blank " "], hspace, hinner, .blank, ?_⟩
      simp
    · rw [openers_symbol, hopener]
      exact Nat.le_of_eq (Nat.add_comm room 1)
  · rcases hsound _ _ _ hinner with ⟨hform, hinner⟩
    rcases shows_blanks_bind arithmetic h with ⟨after, last', hafter, hcovers', h⟩
    rw [shows_symbol h.of_bind_pure]
    refine outlook_closing ((hleft.cons hcovers).append hinner.single) hafter hcovers' hclosing
      hlast hcloser ?_
    intro space hspace
    exact ⟨before, inner, space, hbefore, hform, hspace, by simp⟩

/-!
# Calls
-/

section

variable {p : Parser Token}

def IsFurtherArgument (ts : List Token) : Prop :=
  ∃ x : FurtherArgument, (IsGap x.before ∧ IsGap x.after) ∧ IsExpression 5 x.value ∧ ts = x.parts

def AreArguments (ts : List Token) : Prop :=
  ∃ (first : Token) (more : List FurtherArgument), IsExpression 5 first ∧
    (∀ x ∈ more, (IsGap x.before ∧ IsGap x.after) ∧ IsExpression 5 x.value) ∧
    ts = first :: more.flatMap FurtherArgument.parts

theorem AreArguments.append {ts parts : List Token} (h : AreArguments ts)
    (hparts : IsFurtherArgument parts) : AreArguments (ts ++ parts) := by
  rcases h with ⟨first, more, hfirst, hmore, rfl⟩
  rcases hparts with ⟨x, hgap, hvalue, rfl⟩
  refine ⟨first, more ++ [x], hfirst, ?_, ?_⟩
  · exact List.forall_mem_append.mpr ⟨hmore, List.forall_mem_singleton.mpr ⟨hgap, hvalue⟩⟩
  · simp

theorem AreArguments.call {ts before after trailing : List Token} {n function : String}
    (h : AreArguments ts) (hbefore : IsGap before) (hafter : IsGap after)
    (htrailing : IsGap trailing) :
    IsExpression 0 (.phrase .call (.leaf (.name n) function :: before ++
      Token.symbol .openParen :: after ++ (ts ++ trailing) ++ [Token.symbol .closeParen])) := by
  rcases h with ⟨first, more, hfirst, hmore, rfl⟩
  exact .call hbefore hafter hfirst (fun x hx => (hmore x hx).1) (fun x hx => (hmore x hx).2)
    htrailing

theorem outlook_nextArgument (hp : Prospects arithmetic room p (IsExpression 5))
    (h : Shows (nextArgument p) input sign) :
    Outlook arithmetic .call room (Joined input IsFurtherArgument) input sign := by
  rcases shows_blanks_bind arithmetic h with ⟨before, start, hbefore, hcovers, h⟩
  rcases h.of_bind with h | ⟨_, middle, hcomma, h⟩
  · rw [shows_symbol h]
    have hstart : Outlook arithmetic .call room (fun ts => ts = [Token.symbol .comma, sample]) start
        (.expects start.length .comma) :=
      .start _ rfl (fits_symbol rfl (fits_sample trivial)) rfl (by decide)
    refine (hstart.spaced hbefore hcovers).imp ?_
    rintro _ ⟨⟨space, _, hspace, rfl, rfl⟩, hjoined⟩
    refine ⟨⟨⟨space, ",", [], sample⟩, ⟨hspace, .none⟩, isExpression_sample, ?_⟩, hjoined⟩
    simp [FurtherArgument.parts]
    rfl
  · rcases covers_of_reads_symbol arithmetic rfl hcomma with ⟨rfl, hcomma⟩
    rcases shows_blanks_bind arithmetic h with ⟨after, last, hafter, hcovers', h⟩
    have hvalue := (hp .call last sign h.of_bind_pure).spaced hafter hcovers'
    refine .after (hcovers.append hcomma.single) hvalue ?_ (Nat.le_add_left _ _)
    rintro _ ⟨space, _, hspace, ⟨value, hvalue, rfl⟩, rfl⟩
    refine ⟨⟨before, ",", space, value⟩, ⟨hbefore, hspace⟩, hvalue, ?_⟩
    simp [FurtherArgument.parts]
    rfl

theorem outlook_arguments (hp : Prospects arithmetic room p (IsExpression 5))
    (hsound : Sound arithmetic p (IsExpression 5)) (h : Shows (arguments p) input sign) :
    Outlook arithmetic .call room AreArguments input sign := by
  rcases h.of_bind with h | ⟨first, middle, hfirst, h⟩
  · refine (hp .call input sign h).imp ?_
    rintro _ ⟨first, hfirst, rfl⟩
    exact ⟨first, [], hfirst, by simp, rfl⟩
  rcases hsound _ _ _ hfirst with ⟨hform, hfirst⟩
  rcases h.of_bind with h | ⟨found, last, _, h⟩
  · -- The arguments that have been read are collected on the way.
    have hmany : ∀ ts, AreArguments ts → CoverAll arithmetic ts input middle →
        Outlook arithmetic .call room AreArguments input sign := by
      refine h.many_induction (motive := fun middle => ∀ ts, AreArguments ts →
        CoverAll arithmetic ts input middle →
        Outlook arithmetic .call room AreArguments input sign) ?_ ?_
      · intro middle h ts hts hcovers
        have hafter : Outlook arithmetic .call room (Joined input AreArguments) input sign :=
          .after hcovers (outlook_nextArgument hp h) (fun _ => hts.append) (Nat.le_add_left _ _)
        exact hafter.imp fun _ h => h.1
      · intro middle parts next hparts ih ts hts hcovers
        rcases sound_nextArgument hsound hparts with ⟨hcovers', x, rfl, hgap, hvalue⟩
        exact ih _ (hts.append ⟨x, hgap, hvalue, rfl⟩) (hcovers.append hcovers')
    exact hmany [first] ⟨first, [], hform, by simp, rfl⟩ hfirst.single
  · rcases shows_blanks_bind arithmetic h with ⟨_, _, _, _, h⟩
    exact absurd h not_shows_pure

theorem isExpression_bareCall {before after : List Token} {n function : String}
    (hbefore : IsGap before) (hafter : IsGap after) :
    IsExpression 0 (.phrase .call (.leaf (.name n) function :: before ++
      Token.symbol .openParen :: after ++ [Token.symbol .closeParen])) :=
  .bareCall hbefore hafter

theorem prospects_call (hp : Prospects arithmetic room p (IsExpression 5))
    (hsound : Sound arithmetic p (IsExpression 5)) :
    Prospects arithmetic (room + 1) (call p) (IsExpression 0) := by
  intro within input sign h
  rcases h.of_bind with h | ⟨_, first, hfunction, h⟩
  · rw [shows_name h]
    refine .start [.phrase .call [Token.name "x", Token.symbol .openParen,
      Token.symbol .closeParen]] ⟨_, .bareCall .none .none, rfl⟩ ?_ rfl (by decide)
    refine fits_name ?_ (fits_symbol rfl (fits_symbol rfl trivial))
    intro c hc
    cases hc
    decide
  rcases (reads_name arithmetic).mp hfunction with ⟨⟨n, function, rfl⟩, hfunction⟩
  rcases shows_blanks_bind arithmetic h with ⟨before, second, hbefore, hcovers, h⟩
  rcases h.of_bind with h | ⟨_, third, hopening, h⟩
  · rw [shows_symbol h]
    have hparens : Outlook arithmetic .call (room + 1)
        (fun ts => ts = [Token.symbol .openParen, Token.symbol .closeParen]) second
        (.expects second.length .openParen) :=
      .start _ rfl (fits_symbol rfl (fits_symbol rfl trivial)) rfl (by decide)
    refine .phraseAfter hfunction.single (hparens.spaced hbefore hcovers) ?_ (Nat.le_add_left _ _)
    rintro _ ⟨space, _, hspace, rfl, rfl⟩
    simpa using isExpression_bareCall hspace .none
  rcases covers_of_reads_symbol arithmetic rfl hopening with ⟨rfl, hopening⟩
  rcases shows_blanks_bind arithmetic h with ⟨after, fourth, hafter, hcovers', h⟩
  have hbegun := (hfunction.cons hcovers).append hopening.single
  rcases h.of_bind with h | ⟨found, fifth, hfound, h⟩
  · have hclosed : Outlook arithmetic .call room (fun ts => ∃ inner, AreArguments inner ∧
        ts = inner ++ [blank " ", Token.symbol .closeParen]) fourth sign :=
      (outlook_arguments hp hsound h.of_option).closedBy rfl rfl fun inner hinner =>
        ⟨inner, hinner, rfl⟩
    refine .phraseAfter hbegun (hclosed.spaced hafter hcovers') ?_ ?_
    · rintro _ ⟨space, _, hspace, ⟨inner, hinner, rfl⟩, rfl⟩
      have htrailing : IsGap [blank " "] := .blank
      simpa using hinner.call hbefore hspace htrailing
    · have hopener : openers (Symbol.spelling .openParen).toList = 1 := by decide
      rw [openers_snoc, hopener]
      omega
  · rw [shows_symbol h.of_bind_pure]
    have hcloses : (Lexeme.symbol .closeParen).production .call = some .closeParen := rfl
    rw [reads_option] at hfound
    cases found with
    | none =>
        rcases hfound with ⟨_, rfl⟩
        refine outlook_closing hbegun hafter hcovers' rfl hcloses (by decide) ?_
        intro space hspace
        simpa using isExpression_bareCall hbefore hspace
    | some ts =>
        rcases sound_arguments hsound hfound with
          ⟨hcovered, first, more, trailing, hfirst, hgaps, hforms, htrailing, rfl⟩
        rcases coverAll_append.mp hcovered with ⟨sixth, hinner, hend⟩
        have harguments : AreArguments (first :: more.flatMap FurtherArgument.parts) :=
          ⟨first, more, hfirst, fun x hx => ⟨hgaps x hx, hforms x hx⟩, rfl⟩
        refine outlook_closing ((hbegun.append hcovers').append hinner) htrailing hend rfl
          hcloses (by decide) ?_
        intro space hspace
        simpa using harguments.call hbefore hafter hspace

/-!
# Levels of operators
-/

theorem prospects_primary (hp : Prospects arithmetic room p (IsExpression 5))
    (hsound : Sound arithmetic p (IsExpression 5)) :
    Prospects arithmetic (room + 1) (primary arithmetic p) (IsExpression 0) := by
  intro within input sign h
  rcases h.of_orElse with h | ⟨_, h⟩
  · exact prospects_number within input sign h
  rcases h.of_orElse with h | ⟨_, h⟩
  · exact prospects_quotedText within input sign h
  rcases h.of_orElse with h | ⟨_, h⟩
  · exact prospects_attribution within input sign h
  rcases h.of_orElse with h | ⟨_, h⟩
  · exact prospects_call hp hsound within input sign h
  · refine (prospects_enclosed hp hsound rfl rfl rfl rfl (by decide) (by decide) within input sign
      h).imp ?_
    rintro _ ⟨t, ⟨before, inner, after, hbefore, hinner, hafter, rfl⟩, rfl⟩
    exact ⟨_, .group hbefore hinner hafter, rfl⟩

theorem shows_unaryOver {deeper : Parser Token}
    (h : Shows (unaryOver arithmetic deeper p) input sign) :
    Shows (symbol (.operator .subtract) .minus) input sign ∨
      (∃ minus rest, Reads (symbol (.operator .subtract) .minus) input minus rest ∧
        Shows (do
          let space ← blanks
          let operand ← deeper
          return Token.phrase .negation (minus :: space ++ [operand])) rest sign) ∨
      Shows (primary arithmetic p) input sign := by
  revert h
  unfold Shows Reads unaryOver
  rcases symbol (.operator .subtract) .minus input with ⟨outcome, seen⟩
  intro h
  cases outcome with
  | done minus rest => exact h.of_join.imp id fun h => Or.inl ⟨minus, rest, rfl, h⟩
  | miss => exact h.of_join.imp id Or.inr
  | halt reason => exact h.of_join.imp id Or.inr

theorem prospects_unaryOver {deeper : Parser Token}
    (hdeeper : Prospects arithmetic room deeper (IsExpression 0))
    (hp : Prospects arithmetic room p (IsExpression 5))
    (hsound : Sound arithmetic p (IsExpression 5)) :
    Prospects arithmetic (room + 1) (unaryOver arithmetic deeper p) (IsExpression 0) := by
  intro within input sign h
  rcases shows_unaryOver h with h | ⟨_, rest, hminus, h⟩ | h
  · rw [shows_symbol h]
    exact .start [.phrase .negation [Token.symbol (.operator .subtract), sample]]
      ⟨_, .negation .none isExpression_sample, rfl⟩ (fits_symbol rfl (fits_sample trivial)) rfl
      (by decide)
  · rcases covers_of_reads_symbol arithmetic rfl hminus with ⟨rfl, hminus⟩
    rcases shows_blanks_bind arithmetic h with ⟨space, start, hgap, hcovers, h⟩
    refine .phraseAfter hminus.single
      ((hdeeper .negation start sign h.of_bind_pure).spaced hgap hcovers) ?_ ?_
    · rintro _ ⟨space, _, hspace, ⟨operand, hoperand, rfl⟩, rfl⟩
      exact .negation hspace hoperand
    · have hopener : openers (Symbol.spelling (.operator .subtract)).toList = 1 := by decide
      rw [openers_symbol, hopener]
      exact Nat.le_of_eq (Nat.add_comm room 1)
  · exact prospects_primary hp hsound within input sign h

def IsContinuation (rank : Nat) (op : Operator) (ts : List Token) : Prop :=
  ∃ before sign after right, IsGap before ∧ IsGap after ∧ IsExpression rank right ∧
    ts = before ++ .leaf (.symbol (.operator op)) sign :: after ++ [right]

theorem fits_operator (op : Operator) :
    Fits arithmetic (leavesAll [Token.symbol (.operator op), sample]) [] := by
  have hspells : (Lexeme.symbol (.operator op)).Spells arithmetic op.spelling.toList := by
    cases op <;> rfl
  refine ⟨hspells, ?_, fits_sample trivial⟩
  intro c hc hmore
  cases hc
  cases hmore.2

theorem exists_operator {rank : Nat} (hrank : rank < 5) :
    ∃ op : Operator, op.strength + rank = 5 := by
  match rank with
  | 0 => exact ⟨.multiply, rfl⟩
  | 1 => exact ⟨.add, rfl⟩
  | 2 => exact ⟨.equal, rfl⟩
  | 3 => exact ⟨.and, rfl⟩
  | 4 => exact ⟨.or, rfl⟩
  | rank + 5 => omega

theorem outlook_continuation {rank : Nat} (hrank : rank < 5)
    (hp : Prospects arithmetic room p (IsExpression rank))
    (h : Shows (continuation p (choicesAt rank)) input sign) :
    ∃ op, op.strength + rank = 5 ∧
      Outlook arithmetic (.binary op) room (Joined input (IsContinuation rank op)) input sign := by
  rcases shows_blanks_bind arithmetic h with ⟨before, start, hbefore, hcovers, h⟩
  rcases h.of_bind with h | ⟨⟨op, _⟩, middle, hop, h⟩
  · rw [shows_operator h]
    rcases exists_operator hrank with ⟨op, hop⟩
    have hstart : Outlook arithmetic (.binary op) room
        (fun ts => ts = [Token.symbol (.operator op), sample]) start
        (.expects start.length .operator) :=
      .start _ rfl (fits_operator op) rfl (by cases op <;> decide)
    refine ⟨op, hop, (hstart.spaced hbefore hcovers).imp ?_⟩
    rintro _ ⟨⟨space, _, hspace, rfl, rfl⟩, hjoined⟩
    refine ⟨⟨space, op.spelling, [], sample, hspace, .none, isExpression_sample, ?_⟩, hjoined⟩
    simp [Token.symbol, Symbol.spelling]
  · rcases covers_of_reads_operator arithmetic hop with ⟨hmem, ⟨text, rfl⟩, hop⟩
    rcases shows_blanks_bind arithmetic h with ⟨after, last, hafter, hcovers', h⟩
    have hright := (hp (.binary op) last sign h.of_bind_pure).spaced hafter hcovers'
    refine ⟨op, mem_choicesAt_iff.mp hmem,
      .after (hcovers.append hop.single) hright ?_ (Nat.le_add_left _ _)⟩
    rintro _ ⟨space, _, hspace, ⟨right, hright, rfl⟩, rfl⟩
    exact ⟨before, text, space, right, hbefore, hspace, hright, by simp⟩

theorem prospects_binaryLevel {rank depth : Nat} (hrank : rank < 5)
    (hp : Prospects arithmetic room p (IsExpression rank))
    (hsound : Sound arithmetic p (Fitting depth rank)) :
    Prospects arithmetic room (binaryLevel (choicesAt rank) p) (IsExpression (rank + 1)) := by
  intro within input sign h
  rcases h.of_bind with h | ⟨first, middle, hfirst, h⟩
  · refine (hp within input sign h).imp ?_
    rintro _ ⟨t, ht, rfl⟩
    exact ⟨t, ht.tighter, rfl⟩
  rcases hsound _ _ _ hfirst with ⟨hform, hfirst⟩
  have hmany : ∀ left, IsExpression (rank + 1) left → left.Covers arithmetic input middle →
      Outlook arithmetic within room (Single (IsExpression (rank + 1))) input sign := by
    refine h.of_bind_pure.many_induction (motive := fun middle => ∀ left,
      IsExpression (rank + 1) left → left.Covers arithmetic input middle →
      Outlook arithmetic within room (Single (IsExpression (rank + 1))) input sign) ?_ ?_
    · intro middle h left hleft hcovers
      rcases outlook_continuation hrank hp h with ⟨op, hop, houtlook⟩
      refine .phraseAfter hcovers.single houtlook ?_ (Nat.le_add_left _ _)
      rintro _ ⟨before, text, after, right, hbefore, hafter, hright, rfl⟩
      exact .binary hop hleft hbefore hafter hright
    · intro middle found next hfound ih left hleft hcovers
      rcases found with ⟨op, parts⟩
      rcases sound_continuation hsound hfound with
        ⟨hop, hparts, before, text, after, right, hbefore, hafter, hright, rfl⟩
      exact ih _ (.binary (mem_choicesAt_iff.mp hop) hleft hbefore hafter hright.1)
        (covers_phrase.mpr (hcovers.cons hparts))
  exact hmany first hform.1.tighter hfirst

theorem prospects_tier {depth : Nat} (hp : Prospects arithmetic room p (IsExpression 0))
    (hsound : Sound arithmetic p (Fitting depth 0)) {rank : Nat} (hrank : rank ≤ 5) :
    Prospects arithmetic room (tier p rank) (IsExpression rank) := by
  induction rank with
  | zero => exact hp
  | succ rank ih =>
      exact prospects_binaryLevel hrank (ih (Nat.le_of_succ_le hrank)) (sound_tier hsound rank)

end

theorem prospects_tooDeep {shape : Token → Prop} : Prospects arithmetic 0 tooDeep shape := by
  intro within input sign h
  cases sign with
  | expects remaining production => exact absurd h Frontier.not_holds_none
  | halts reason =>
      cases h
      exact .tooDeep (List.nil_append _).symm (Nat.zero_le _)

theorem sound_isExpression (room : Nat) :
    Sound arithmetic (expression arithmetic room) (IsExpression 5) := by
  intro input t rest h
  rcases sound_expression room input t rest h with ⟨hform, hcovers⟩
  exact ⟨hform.1, hcovers⟩

theorem prospects_unary (room : Nat) :
    Prospects arithmetic (room + 1) (unary arithmetic room) (IsExpression 0) := by
  induction room with
  | zero => exact prospects_unaryOver prospects_tooDeep prospects_tooDeep sound_tooDeep
  | succ room ih =>
      exact prospects_unaryOver ih (prospects_tier ih (sound_unary room) (Nat.le_refl 5))
        (sound_isExpression (room + 1))

/-- An expression that halts for want of room has as many openers behind it as it had room for. -/
theorem prospects_expression (room : Nat) :
    Prospects arithmetic room (expression arithmetic room) (IsExpression 5) := by
  cases room with
  | zero => exact prospects_tooDeep
  | succ room => exact prospects_tier (prospects_unary room) (sound_unary room) (Nat.le_refl 5)

end Grammar
end TreeQuery
