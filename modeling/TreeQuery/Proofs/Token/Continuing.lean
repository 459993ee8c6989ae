import TreeQuery.Proofs.Parser.Expressions

/-!
# Tokens that go on behind a text

A text can be gone on with by a leaf if some tokens begin with that text, perhaps
after more blanks, and then have the leaf.  Tokens are put together from such
beginnings part by part.  Every phrase that encloses expressions has a character
of its own to open it, so that a beginning with few of them leaves room for one
more phrase.
-/

namespace TreeQuery

/-- The production that a leaf answers to in a phrase.  Blanks answer to none, and a dash is a
minus sign in a negation only. -/
def Lexeme.production (within : Phrase) : Lexeme → Option Production
  | .name _ => some .name
  | .number _ => some .number
  | .text _ => some .quotedText
  | .axis _ => some .axisMark
  | .wildcard => some .wildcard
  | .symbol .slash => some .slash
  | .symbol .at => some .at
  | .symbol .openBracket => some .openBracket
  | .symbol .closeBracket => some .closeBracket
  | .symbol .openParen => some .openParen
  | .symbol .closeParen => some .closeParen
  | .symbol .comma => some .comma
  | .symbol (.operator _) => some (if within = .negation then .minus else .operator)
  | .blank => none

namespace Token

/-!
# Leaves and their productions
-/

mutual

def answers (within : Phrase) : Token → List (Option Production × String)
  | .leaf lexeme text => [(lexeme.production within, text)]
  | .phrase kind parts => answersAll kind parts

def answersAll (within : Phrase) : List Token → List (Option Production × String)
  | [] => []
  | t :: ts => answers within t ++ answersAll within ts

end

def answerChars (answers : List (Option Production × String)) : List Char :=
  answers.flatMap fun answer => answer.2.toList

theorem answerChars_append (xs ys : List (Option Production × String)) :
    answerChars (xs ++ ys) = answerChars xs ++ answerChars ys :=
  List.flatMap_append

theorem answersAll_append (within : Phrase) (xs ys : List Token) :
    answersAll within (xs ++ ys) = answersAll within xs ++ answersAll within ys := by
  induction xs with
  | nil => rfl
  | cons x xs ih => rw [List.cons_append, answersAll, answersAll, ih, List.append_assoc]

mutual

theorem answerChars_answers (within : Phrase) (t : Token) :
    answerChars (t.answers within) = t.chars := by
  cases t with
  | leaf lexeme text =>
      rw [answers, chars]
      exact List.append_nil _
  | phrase kind parts =>
      rw [answers, chars]
      exact answerChars_answersAll kind parts

theorem answerChars_answersAll (within : Phrase) (ts : List Token) :
    answerChars (answersAll within ts) = charsAll ts := by
  cases ts with
  | nil => rfl
  | cons t ts =>
      rw [answersAll, charsAll, answerChars_append, answerChars_answers within t,
        answerChars_answersAll within ts]

end

/-!
# Openers
-/

/-- Brackets, parentheses and dashes: each phrase that encloses expressions begins with one, or in
the case of a call has one behind its name. -/
def isOpener (c : Char) : Bool :=
  c == '[' || c == '(' || c == '-'

def openers (chars : List Char) : Nat :=
  chars.countP isOpener

theorem openers_append (xs ys : List Char) : openers (xs ++ ys) = openers xs + openers ys :=
  List.countP_append

theorem openers_symbol (s : Symbol) (ts : List Token) :
    openers (charsAll (symbol s :: ts)) = openers s.spelling.toList + openers (charsAll ts) :=
  openers_append _ _

theorem openers_snoc (xs : List Token) (s : Symbol) :
    openers (charsAll (xs ++ [symbol s])) = openers (charsAll xs) + openers s.spelling.toList := by
  rw [charsAll_append, openers_append, openers_symbol]
  rfl

theorem charsAll_phrase (kind : Phrase) (parts : List Token) :
    charsAll [phrase kind parts] = charsAll parts := by
  rw [charsAll, chars, charsAll, List.append_nil]

def Spelled (arithmetic : Arithmetic) (t : Token) : Prop :=
  ∀ leaf ∈ t.leaves, leaf.1.Spells arithmetic leaf.2.toList

theorem Fits.spells {arithmetic : Arithmetic} {leaves : List (Lexeme × String)}
    {rest : List Char} (h : Fits arithmetic leaves rest) :
    ∀ leaf ∈ leaves, leaf.1.Spells arithmetic leaf.2.toList := by
  induction leaves with
  | nil =>
      intro leaf hleaf
      cases hleaf
  | cons leaf leaves ih =>
      rcases h with ⟨hspells, _, hrest⟩
      exact List.forall_mem_cons.mpr ⟨hspells, ih hrest⟩

theorem mem_leavesAll {leaf : Lexeme × String} {ts : List Token} :
    leaf ∈ leavesAll ts ↔ ∃ t ∈ ts, leaf ∈ t.leaves := by
  induction ts with
  | nil => simp [leavesAll]
  | cons t ts ih => simp [leavesAll, ih]

section

variable {arithmetic : Arithmetic}

theorem Spelled.parts {kind : Phrase} {parts : List Token}
    (h : (phrase kind parts).Spelled arithmetic) : ∀ t ∈ parts, t.Spelled arithmetic := by
  intro t ht leaf hleaf
  apply h
  rw [leaves]
  exact mem_leavesAll.mpr ⟨t, ht, hleaf⟩

def Opened (t : Token) : Prop :=
  t.nesting ≤ openers t.chars

theorem opened_leaf {lexeme : Lexeme} {text : String} : (leaf lexeme text).Opened :=
  Nat.zero_le _

theorem IsGap.opened {ts : List Token} (h : IsGap ts) : ∀ t ∈ ts, t.Opened := by
  intro t ht
  cases h with
  | none => cases ht
  | blank =>
      rw [List.mem_singleton.mp ht]
      exact opened_leaf

theorem nestingAll_le_openers {ts : List Token} (h : ∀ t ∈ ts, t.Opened) :
    nestingAll ts ≤ openers (charsAll ts) := by
  induction ts with
  | nil => exact Nat.zero_le _
  | cons t ts ih =>
      rcases List.forall_mem_cons.mp h with ⟨ht, hts⟩
      have hmore := ih hts
      unfold Opened at ht
      rw [nestingAll, charsAll, openers_append]
      omega

theorem opened_phrase {kind : Phrase} {parts : List Token} (hkind : kind.encloses = false)
    (h : ∀ t ∈ parts, t.Opened) : (phrase kind parts).Opened := by
  rw [Opened, nesting_phrase hkind, chars]
  exact nestingAll_le_openers h

theorem opened_of_opener {kind : Phrase} {parts : List Token} (s : Symbol) (text : String)
    (hs : s.isClosed = true) (hopener : 0 < openers s.spelling.toList)
    (hspelled : (phrase kind parts).Spelled arithmetic) (hmem : leaf (.symbol s) text ∈ parts)
    (h : ∀ t ∈ parts, t.Opened) : (phrase kind parts).Opened := by
  have hspells : (Lexeme.symbol s).Spells arithmetic text.toList := by
    apply hspelled.parts _ hmem (.symbol s, text)
    rw [leaves]
    exact List.mem_cons_self
  rw [← (Grammar.spells_symbol hs).mp hspells] at hopener
  rcases List.append_of_mem hmem with ⟨xs, ys, rfl⟩
  rcases List.forall_mem_append.mp h with ⟨hxs, hys⟩
  have hbefore := nestingAll_le_openers hxs
  have hafter := nestingAll_le_openers (List.forall_mem_cons.mp hys).2
  have hone : (if kind.encloses then 1 else 0) ≤ 1 := by
    split <;> omega
  rw [Opened, nesting, chars, nestingAll_append, charsAll_append, nestingAll, charsAll, nesting,
    chars, openers_append, openers_append]
  omega

theorem opened_furtherArguments {more : List FurtherArgument}
    (hgaps : ∀ x ∈ more, IsGap x.before ∧ IsGap x.after) (h : ∀ x ∈ more, x.value.Opened) :
    ∀ t ∈ more.flatMap FurtherArgument.parts, t.Opened := by
  intro t ht
  rcases List.mem_flatMap.mp ht with ⟨x, hx, ht⟩
  have hparts : ∀ t ∈ x.parts, t.Opened := by
    simp only [FurtherArgument.parts, List.forall_mem_append, List.forall_mem_cons,
      List.not_mem_nil, false_implies, implies_true, and_true]
    exact ⟨⟨(hgaps x hx).1.opened, opened_leaf, (hgaps x hx).2.opened⟩, h x hx⟩
  exact hparts t ht

theorem value_mem_parts {x : FurtherArgument} {more : List FurtherArgument} (hx : x ∈ more) :
    x.value ∈ more.flatMap FurtherArgument.parts :=
  List.mem_flatMap.mpr ⟨x, hx, List.mem_append_right _ List.mem_cons_self⟩

theorem IsExpression.opened {rank : Nat} {t : Token} (h : IsExpression rank t) :
    t.Spelled arithmetic → t.Opened := by
  induction h with
  | number | text => exact fun _ => opened_leaf
  | attribution =>
      intro _
      apply opened_phrase rfl
      simp [opened_leaf]
  | @bareCall n function opening closing before after hbefore hafter =>
      intro h
      refine opened_of_opener .openParen opening rfl (by decide) h (by simp) ?_
      simp only [List.forall_mem_append, List.forall_mem_cons, List.not_mem_nil,
        false_implies, implies_true, and_true]
      exact ⟨⟨⟨opened_leaf, hbefore.opened⟩, opened_leaf, hafter.opened⟩, opened_leaf⟩
  | @call n function opening closing before after trailing first more hbefore hafter hfirst hgaps
      hmore htrailing ihfirst ihmore =>
      intro h
      have hvalues : ∀ x ∈ more, x.value.Opened := by
        intro x hx
        refine ihmore x hx (h.parts _ ?_)
        simp only [List.mem_append, List.mem_cons]
        exact Or.inl (Or.inr (Or.inl (Or.inr (value_mem_parts hx))))
      refine opened_of_opener .openParen opening rfl (by decide) h (by simp) ?_
      simp only [List.forall_mem_append, List.forall_mem_cons, List.not_mem_nil,
        false_implies, implies_true, and_true]
      exact ⟨⟨⟨⟨opened_leaf, hbefore.opened⟩, opened_leaf, hafter.opened⟩,
        ⟨ihfirst (h.parts first (by simp)), opened_furtherArguments hgaps hvalues⟩,
        htrailing.opened⟩, opened_leaf⟩
  | @group opening closing before after inner hbefore hinner hafter ih =>
      intro h
      refine opened_of_opener .openParen opening rfl (by decide) h (by simp) ?_
      simp only [List.forall_mem_append, List.forall_mem_cons, List.not_mem_nil,
        false_implies, implies_true, and_true]
      exact ⟨⟨⟨opened_leaf, hbefore.opened⟩, ih (h.parts inner (by simp)), hafter.opened⟩,
        opened_leaf⟩
  | @negation sign space operand hspace hoperand ih =>
      intro h
      refine opened_of_opener (.operator .subtract) sign rfl (by decide) h (by simp) ?_
      simp only [List.forall_mem_append, List.forall_mem_cons, List.not_mem_nil,
        false_implies, implies_true, and_true]
      exact ⟨⟨opened_leaf, hspace.opened⟩, ih (h.parts operand (by simp))⟩
  | @binary rank op sign before after left right hop hleft hbefore hafter hright ihleft ihright =>
      intro h
      apply opened_phrase rfl
      simp only [List.forall_mem_append, List.forall_mem_cons, List.not_mem_nil,
        false_implies, implies_true, and_true]
      exact ⟨ihleft (h.parts left (by simp)), ⟨hbefore.opened, opened_leaf, hafter.opened⟩,
        ihright (h.parts right (by simp))⟩
  | tighter _ ih => exact ih

theorem IsPredicate.opened {t : Token} (h : IsPredicate t) (hspelled : t.Spelled arithmetic) :
    t.Opened := by
  cases h with
  | @enclosed opening closing before after inner hbefore hinner hafter =>
      refine opened_of_opener .openBracket opening rfl (by decide) hspelled (by simp) ?_
      simp only [List.forall_mem_append, List.forall_mem_cons, List.not_mem_nil,
        false_implies, implies_true, and_true]
      exact ⟨⟨⟨opened_leaf, hbefore.opened⟩, hinner.opened (hspelled.parts inner (by simp)),
        hafter.opened⟩, opened_leaf⟩

theorem IsHeading.opened {ts : List Token} (h : IsHeading ts) : ∀ t ∈ ts, t.Opened := by
  have htest {t : Token} (h : IsNodeTest t) : t.Opened := by
    cases h <;> exact opened_leaf
  cases h with
  | plain h => simpa using htest h
  | marked h => simpa [opened_leaf] using htest h
  | alone _ => simp [opened_leaf]

theorem IsStep.opened {t : Token} (h : IsStep t) (hspelled : t.Spelled arithmetic) :
    t.Opened := by
  cases h with
  | @step heading predicates hheading hpredicates =>
      refine opened_phrase rfl (List.forall_mem_append.mpr ⟨hheading.opened, ?_⟩)
      intro t ht
      rcases List.mem_flatten.mp ht with ⟨ts, hts, hmem⟩
      cases hpredicates ts hts with
      | spaced hspace hbody =>
          rcases List.mem_append.mp hmem with hmem | hmem
          · exact hspace.opened t hmem
          · cases List.mem_singleton.mp hmem
            exact hbody.opened (hspelled.parts t (List.mem_append_right _ ht))

theorem IsFurtherStep.opened {ts : List Token} (h : IsFurtherStep ts)
    (hspelled : ∀ t ∈ ts, t.Spelled arithmetic) : ∀ t ∈ ts, t.Opened := by
  cases h with
  | @slashed text before after t hbefore hafter hstep =>
      have hstep := hstep.opened (hspelled t (by simp))
      simp only [List.forall_mem_append, List.forall_mem_cons, List.not_mem_nil,
        false_implies, implies_true, and_true]
      exact ⟨hbefore.opened, ⟨opened_leaf, hafter.opened⟩, hstep⟩
  | doubled hbefore hstep =>
      have hstep := hstep.opened (hspelled _ (by simp))
      simp only [List.forall_mem_append, List.forall_mem_cons, List.not_mem_nil,
        false_implies, implies_true, and_true]
      exact ⟨hbefore.opened, hstep⟩

theorem AreSteps.opened {ts : List Token} (h : AreSteps ts)
    (hspelled : ∀ t ∈ ts, t.Spelled arithmetic) : ∀ t ∈ ts, t.Opened := by
  cases h with
  | @steps first more hfirst hmore =>
      rcases List.forall_mem_cons.mp hspelled with ⟨hspelledFirst, hspelledMore⟩
      refine List.forall_mem_cons.mpr ⟨hfirst.opened hspelledFirst, ?_⟩
      intro t ht
      rcases List.mem_flatten.mp ht with ⟨ts, hts, hmem⟩
      have hspelledStep : ∀ x ∈ ts, x.Spelled arithmetic := fun x hx =>
        hspelledMore x (List.mem_flatten.mpr ⟨ts, hts, hx⟩)
      exact (hmore ts hts).opened hspelledStep t hmem

/-- A path is not nested deeper than it has openers. -/
theorem IsPath.opened {t : Token} (h : IsPath t) (hspelled : t.Spelled arithmetic) :
    t.Opened := by
  cases h with
  | @relative before inner after hbefore hinner hafter =>
      have hinner := hinner.opened fun t ht => hspelled.parts t (by simp [ht])
      apply opened_phrase rfl
      simp only [List.forall_mem_append]
      exact ⟨⟨hbefore.opened, hinner⟩, hafter.opened⟩
  | @absolute slash before space inner after hbefore hspace hinner hafter =>
      have hinner := hinner.opened fun t ht => hspelled.parts t (by simp [ht])
      apply opened_phrase rfl
      simp only [List.forall_mem_append, List.forall_mem_cons, List.not_mem_nil,
        false_implies, implies_true, and_true]
      exact ⟨⟨⟨hbefore.opened, opened_leaf⟩, hspace.opened, hinner⟩, hafter.opened⟩
  | root hbefore hafter =>
      apply opened_phrase rfl
      simp only [List.forall_mem_append, List.forall_mem_cons, List.not_mem_nil,
        false_implies, implies_true, and_true]
      exact ⟨⟨hbefore.opened, opened_leaf⟩, hafter.opened⟩

/-!
# What may follow a leaf

No leaf goes on into a blank.  Leaves that fit before some characters fit before
all others that begin in the same way, and before blanks.
-/

theorem isNameChar_of_isName {chars : List Char} {c : Char} (h : Lexeme.IsName (chars ++ [c])) :
    Scan.isNameChar c = true :=
  Scan.all_of_isName h c (List.mem_append_right chars List.mem_cons_self)

theorem not_extends_blank {lexeme : Lexeme} {chars : List Char} {c : Char}
    (hc : Scan.isSpace c = true) : ¬ lexeme.Extends chars c := by
  have hname : Scan.isNameChar c = false := by
    rcases Grammar.isSpace_cases hc with rfl | rfl | rfl | rfl <;> decide
  intro h
  cases lexeme with
  | name n =>
      rw [isNameChar_of_isName h] at hname
      cases hname
  | number value =>
      rcases h.1 c (List.mem_append_right chars List.mem_cons_self) with hdigit | rfl
      · rw [Grammar.not_space_of_digit hdigit] at hc
        cases hc
      · cases hc
  | symbol s =>
      cases s with
      | slash =>
          have h : c = '/' := h
          rw [h] at hc
          cases hc
      | operator op =>
          rw [h.2] at hname
          cases hname
      | _ => exact h
  | _ => exact h

/-- Characters that may stand where others have stood: they begin in the same way or with a
blank. -/
def Replaces (rest rest' : List Char) : Prop :=
  ∀ c ∈ rest'.head?, c ∈ rest.head? ∨ Scan.isSpace c = true

theorem Fits.replace {leaves : List (Lexeme × String)} {rest rest' : List Char}
    (h : Fits arithmetic leaves rest) (hrest : Replaces rest rest') :
    Fits arithmetic leaves rest' := by
  induction leaves with
  | nil => trivial
  | cons leaf leaves ih =>
      rcases h with ⟨hspells, hstop, hmore⟩
      refine ⟨hspells, ?_, ih hmore⟩
      intro c hc
      cases hleaves : leafChars leaves with
      | nil =>
          rw [hleaves] at hc hstop
          rcases hrest c hc with hc | hc
          · exact hstop c hc
          · exact not_extends_blank hc
      | cons d more =>
          rw [hleaves] at hc hstop
          exact hstop c hc

/-!
# Beginnings
-/

/-- The tokens begin with the characters that have been taken, and the next leaf behind them, after
blanks, answers to the production.  At most one opener is added. -/
structure Continues (within : Phrase) (production : Production) (taken : List Char)
    (ts : List Token) : Prop where
  next : ∃ before word after gap,
    answersAll within ts = before ++ (some production, word) :: after ∧
      answerChars before = taken ++ gap ∧ ∀ c ∈ gap, Scan.isSpace c = true
  openers_le : openers (charsAll ts) ≤ openers taken + 1

namespace Continues

variable {within : Phrase} {production : Production} {taken : List Char} {ts : List Token}

theorem start (hfirst : (answersAll within ts).head?.map Prod.fst = some (some production))
    (hopeners : openers (charsAll ts) ≤ 1) : Continues within production [] ts := by
  rcases Option.map_eq_some_iff.mp hfirst with ⟨⟨_, word⟩, hhead, rfl⟩
  rcases List.head?_eq_some_iff.mp hhead with ⟨after, hanswers⟩
  refine ⟨⟨[], word, after, [], hanswers, rfl, ?_⟩, hopeners⟩
  intro c hc
  cases hc

theorem chars_eq (h : Continues within production taken ts) :
    ∃ more, charsAll ts = taken ++ more := by
  rcases h.next with ⟨before, word, after, gap, hanswers, hbefore, _⟩
  refine ⟨gap ++ answerChars ((some production, word) :: after), ?_⟩
  rw [← answerChars_answersAll within, hanswers, answerChars_append, hbefore, List.append_assoc]

theorem behind (h : Continues within production taken ts) (xs : List Token) :
    Continues within production (charsAll xs ++ taken) (xs ++ ts) := by
  rcases h with ⟨⟨before, word, after, gap, hanswers, hbefore, hgap⟩, hopeners⟩
  refine ⟨⟨answersAll within xs ++ before, word, after, gap, ?_, ?_, hgap⟩, ?_⟩
  · rw [answersAll_append, hanswers, List.append_assoc]
  · rw [answerChars_append, answerChars_answersAll, hbefore, List.append_assoc]
  · rw [charsAll_append, openers_append, openers_append]
    omega

theorem behind_gap {gap : List Token} (h : Continues within production [] ts)
    (hgap : ∀ c ∈ charsAll gap, Scan.isSpace c = true) (hopeners : openers (charsAll gap) = 0) :
    Continues within production [] (gap ++ ts) := by
  rcases h with ⟨⟨before, word, after, more, hanswers, hbefore, hmore⟩, hle⟩
  refine ⟨⟨answersAll within gap ++ before, word, after, charsAll gap ++ more, ?_, ?_, ?_⟩, ?_⟩
  · rw [answersAll_append, hanswers, List.append_assoc]
  · rw [answerChars_append, answerChars_answersAll, hbefore]
    rfl
  · exact List.forall_mem_append.mpr ⟨hgap, hmore⟩
  · rw [charsAll_append, openers_append, hopeners, Nat.zero_add]
    exact hle

theorem before {ys : List Token} (h : Continues within production taken ts)
    (hys : openers (charsAll ys) = 0) : Continues within production taken (ts ++ ys) := by
  rcases h with ⟨⟨before, word, after, gap, hanswers, hbefore, hgap⟩, hopeners⟩
  refine ⟨⟨before, word, after ++ answersAll within ys, gap, ?_, hbefore, hgap⟩, ?_⟩
  · rw [answersAll_append, hanswers, List.append_assoc, List.cons_append]
  · rw [charsAll_append, openers_append, hys]
    exact hopeners

theorem phrase {kind : Phrase} (h : Continues kind production taken ts) :
    Continues within production taken [.phrase kind ts] := by
  have hanswers : answersAll within [.phrase kind ts] = answersAll kind ts := by
    rw [answersAll, answers, answersAll, List.append_nil]
  refine ⟨?_, ?_⟩
  · rw [hanswers]
    exact h.next
  · rw [charsAll_phrase]
    exact h.openers_le

end Continues

end

end Token
end TreeQuery
