import TreeQuery.Proofs.Parser.Soundness

/-!
# Well-formed expressions are read back

An expression that covers the text up to some rest is read as it is, provided
the rest does not go on with an operator of its rank.  An operator on the left
is read in the middle of a row of continuations, so besides the expression
itself the proof follows everything that may be joined to it.
-/

namespace TreeQuery
namespace Grammar

open TreeQuery.Parser Token

variable {arithmetic : Arithmetic} {input middle rest : List Char} {t : Token}

/-!
# First characters
-/

/-- The text begins with a character that is neither blank nor an equals sign, so that it is not
taken for a part of the blanks or the comparison before it. -/
def Solid (input : List Char) : Prop :=
  ∃ c more, input = c :: more ∧ Scan.isSpace c = false ∧ c ≠ '='

theorem Solid.not_space (h : Solid input) : ∀ c ∈ input.head?, Scan.isSpace c = false := by
  rcases h with ⟨c, more, rfl, hspace, _⟩
  intro d hd
  cases hd
  exact hspace

theorem Solid.ne_equal (h : Solid input) : ∀ c ∈ input.head?, c ≠ '=' := by
  rcases h with ⟨c, more, rfl, _, hequal⟩
  intro d hd
  cases hd
  exact hequal

theorem isSpace_cases {c : Char} (h : Scan.isSpace c = true) :
    c = ' ' ∨ c = '\t' ∨ c = '\r' ∨ c = '\n' := by
  simpa only [Scan.isSpace, Bool.or_eq_true, beq_iff_eq, or_assoc] using h

theorem not_space_of_nameStart {c : Char} (h : Scan.isNameStart c = true) :
    Scan.isSpace c = false := by
  rw [Bool.eq_false_iff]
  intro hspace
  rcases isSpace_cases hspace with rfl | rfl | rfl | rfl <;> exact absurd h (by decide)

theorem not_space_of_digit {c : Char} (h : Literal.isDigit c = true) :
    Scan.isSpace c = false := by
  rw [Bool.eq_false_iff]
  intro hspace
  rcases isSpace_cases hspace with rfl | rfl | rfl | rfl <;> exact absurd h (by decide)

theorem not_digit_of_nameStart {c : Char} (h : Scan.isNameStart c = true) :
    Literal.isDigit c = false := by
  rw [Bool.eq_false_iff]
  intro hdigit
  simp only [Literal.isDigit, Bool.and_eq_true, decide_eq_true_eq, Char.le_def,
    UInt32.le_iff_toNat_le] at hdigit
  unfold Scan.isNameStart Char.isAlpha Char.isUpper Char.isLower at h
  simp only [Bool.or_eq_true, Bool.and_eq_true, decide_eq_true_eq, beq_iff_eq,
    UInt32.le_iff_toNat_le, ge_iff_le] at h
  have hhigh := hdigit.2
  rcases h with (h | h) | rfl
  · have hlow := h.1
    simp at hlow hhigh
    omega
  · have hlow := h.1
    simp at hlow hhigh
    omega
  · exact absurd hhigh (by decide)

theorem first_of_name {n text : String}
    (h : (Token.leaf (.name n) text).Covers arithmetic input rest) :
    ∃ c more, input = c :: more ∧ Scan.isNameStart c = true := by
  rcases covers_leaf.mp h with ⟨rfl, ⟨hname, _⟩, _⟩
  cases htext : text.toList with
  | nil =>
      rw [htext] at hname
      cases hname
  | cons c more =>
      rw [htext] at hname
      exact ⟨c, more ++ rest, rfl, hname.1⟩

theorem first_of_number {value : Number} {text : String}
    (h : (Token.leaf (.number value) text).Covers arithmetic input rest) :
    ∃ c more, input = c :: more ∧ (Literal.isDigit c = true ∨ c = '.') := by
  rcases covers_leaf.mp h with ⟨rfl, ⟨⟨hall, _, d, hd, _⟩, _⟩, _⟩
  cases htext : text.toList with
  | nil =>
      rw [htext] at hd
      cases hd
  | cons c more => exact ⟨c, more ++ rest, rfl, hall c (htext ▸ List.mem_cons_self)⟩

theorem first_of_text {value text : String}
    (h : (Token.leaf (.text value) text).Covers arithmetic input rest) :
    ∃ c more, input = c :: more ∧ (c = '\'' ∨ c = '"') := by
  rcases covers_leaf.mp h with ⟨rfl, ⟨quote, hquote, _, htext⟩, _⟩
  rw [htext]
  exact ⟨quote, _, rfl, hquote⟩

theorem symbol_of_covers {s : Symbol} {text : String} (hs : s.isClosed = true)
    (h : (Token.leaf (.symbol s) text).Covers arithmetic input rest) :
    input = s.spelling.toList ++ rest := by
  rcases covers_leaf.mp h with ⟨rfl, hspells, _⟩
  rw [(spells_symbol hs).mp hspells]

theorem head_of_symbol {s : Symbol} {text : String} {c : Char} (hs : s.isClosed = true)
    (hfirst : s.spelling.toList.head? = some c)
    (h : (Token.leaf (.symbol s) text).Covers arithmetic input rest) :
    ∀ d ∈ input.head?, d = c := by
  rw [symbol_of_covers hs h, List.head?_append, hfirst]
  intro d hd
  cases hd
  rfl

theorem symbol_first (s : Symbol) :
    ∃ c more, s.spelling.toList = c :: more ∧ Scan.isSpace c = false := by
  cases s with
  | operator op => cases op <;> exact ⟨_, _, rfl, by decide⟩
  | _ => exact ⟨_, _, rfl, by decide⟩

theorem not_space_of_symbol {s : Symbol} {text : String} (hs : s.isClosed = true)
    (h : (Token.leaf (.symbol s) text).Covers arithmetic input rest) :
    ∀ c ∈ input.head?, Scan.isSpace c = false := by
  rcases symbol_first s with ⟨c, more, hspelling, hspace⟩
  rw [symbol_of_covers hs h, hspelling]
  intro d hd
  cases hd
  exact hspace

theorem solid_of_name {n text : String}
    (h : (Token.leaf (.name n) text).Covers arithmetic input rest) : Solid input := by
  rcases first_of_name h with ⟨c, more, rfl, hstart⟩
  refine ⟨c, more, rfl, not_space_of_nameStart hstart, ?_⟩
  intro heq
  rw [heq] at hstart
  cases hstart

theorem solid_of_symbol {s : Symbol} {text : String} (hs : s.isClosed = true)
    (hfirst : Solid s.spelling.toList)
    (h : (Token.leaf (.symbol s) text).Covers arithmetic input rest) : Solid input := by
  rw [symbol_of_covers hs h]
  rcases hfirst with ⟨c, more, hspelling, hsolid⟩
  exact ⟨c, more ++ rest, by rw [hspelling]; rfl, hsolid⟩

theorem solid_of_expression {rank : Nat} (h : IsExpression rank t) :
    ∀ {input rest}, t.Covers arithmetic input rest → Solid input := by
  have hparen : Solid (Symbol.spelling .openParen).toList := ⟨_, _, rfl, by decide, by decide⟩
  have hat : Solid (Symbol.spelling .at).toList := ⟨_, _, rfl, by decide, by decide⟩
  have hminus : Solid (Symbol.spelling (.operator .subtract)).toList :=
    ⟨_, _, rfl, by decide, by decide⟩
  induction h with
  | number =>
      intro input rest hcovers
      rcases first_of_number hcovers with ⟨c, more, rfl, hdigit | rfl⟩
      · refine ⟨c, more, rfl, not_space_of_digit hdigit, ?_⟩
        intro heq
        rw [heq] at hdigit
        cases hdigit
      · exact ⟨_, more, rfl, by decide, by decide⟩
  | text =>
      intro input rest hcovers
      rcases first_of_text hcovers with ⟨c, more, rfl, rfl | rfl⟩
      · exact ⟨_, more, rfl, by decide, by decide⟩
      · exact ⟨_, more, rfl, by decide, by decide⟩
  | attribution =>
      intro input rest hcovers
      rcases coverAll_cons.mp (covers_phrase.mp hcovers) with ⟨middle, hsign, _⟩
      exact solid_of_symbol rfl hat hsign
  | bareCall hbefore hafter =>
      intro input rest hcovers
      rcases coverAll_cons.mp (covers_phrase.mp hcovers) with ⟨middle, hfunction, _⟩
      exact solid_of_name hfunction
  | call hbefore hafter hfirst hgaps hmore htrailing ihfirst ihmore =>
      intro input rest hcovers
      rcases coverAll_cons.mp (covers_phrase.mp hcovers) with ⟨middle, hfunction, _⟩
      exact solid_of_name hfunction
  | group hbefore hinner hafter ih =>
      intro input rest hcovers
      rcases coverAll_cons.mp (covers_phrase.mp hcovers) with ⟨middle, hopening, _⟩
      exact solid_of_symbol rfl hparen hopening
  | negation hspace hoperand ih =>
      intro input rest hcovers
      rcases coverAll_cons.mp (covers_phrase.mp hcovers) with ⟨middle, hsign, _⟩
      exact solid_of_symbol rfl hminus hsign
  | binary hop hleft hbefore hafter hright ihleft ihright =>
      intro input rest hcovers
      rcases coverAll_cons.mp (covers_phrase.mp hcovers) with ⟨middle, hleft, _⟩
      exact ihleft hleft
  | tighter h ih => exact ih

/-!
# What may follow
-/

def Follows (rank : Nat) (rest : List Char) : Prop :=
  ∀ op : Operator, 5 < op.strength + rank →
    Scan.operator op (rest.dropWhile Scan.isSpace) = none

def Closing (rest : List Char) : Prop :=
  ∃ c ∈ (rest.dropWhile Scan.isSpace).head?, c = ')' ∨ c = ']' ∨ c = ','

theorem dropWhile_of_gap {gap : List Token} (hgap : IsGap gap)
    (hcovers : CoverAll arithmetic gap input rest)
    (hrest : ∀ c ∈ rest.head?, Scan.isSpace c = false) :
    input.dropWhile Scan.isSpace = rest := by
  have hreads := (reads_blanks arithmetic).mpr ⟨hgap, hcovers, hrest⟩
  unfold Reads blanks Scan.run at hreads
  exact (Outcome.done.inj hreads).2

theorem reads_blanks_dropWhile (input : List Char) :
    ∃ gap, Reads blanks input gap (input.dropWhile Scan.isSpace) :=
  ⟨_, rfl⟩

theorem operator_first {op : Operator} {taken : List Char}
    (h : Scan.operator op input = some (taken, rest)) :
    ∃ c ∈ input.head?, op.spelling.toList.head? = some c.toLower := by
  have hbegins := operator_begins h
  cases input with
  | nil => exact absurd hbegins (by cases op <;> decide)
  | cons c more =>
      refine ⟨c, rfl, ?_⟩
      cases hspelling : op.spelling.toList with
      | nil => exact absurd hspelling (Symbol.operator op).spelling_ne_nil
      | cons d others =>
          rw [hspelling, List.map_cons, List.cons_prefix_cons] at hbegins
          rw [hbegins.1]
          rfl

theorem follows_zero : Follows 0 rest := by
  intro op hop
  exact absurd hop (by cases op <;> decide)

theorem Follows.of_succ {rank : Nat} (h : Follows (rank + 1) rest) : Follows rank rest := by
  intro op hop
  exact h op (Nat.lt_succ_of_lt hop)

theorem Closing.follows (h : Closing rest) (rank : Nat) : Follows rank rest := by
  intro op _
  rw [Option.eq_none_iff_forall_ne_some]
  intro found hfound
  rcases operator_first hfound with ⟨c, hc, hspelling⟩
  rcases h with ⟨d, hd, hclosing⟩
  cases Option.mem_unique hc hd
  rcases hclosing with rfl | rfl | rfl
  · cases op <;> exact absurd hspelling (by decide)
  · cases op <;> exact absurd hspelling (by decide)
  · cases op <;> exact absurd hspelling (by decide)

theorem strength_of_spelling :
    ∀ a ∈ Operator.all, ∀ b ∈ Operator.all,
      a.spelling.toList <+: b.spelling.toList → a.strength = b.strength := by
  decide +kernel

theorem scan_of_covers {op : Operator} {sign : String}
    (h : (Token.leaf (.symbol (.operator op)) sign).Covers arithmetic input rest) :
    Scan.operator op input = some (sign.toList, rest) :=
  (Scan.operator_eq_some_iff arithmetic).mpr (covers_leaf.mp h)

theorem not_space_of_operator {op : Operator} {sign : String}
    (h : (Token.leaf (.symbol (.operator op)) sign).Covers arithmetic input rest) :
    ∀ c ∈ input.head?, Scan.isSpace c = false := by
  rcases operator_first (scan_of_covers h) with ⟨c, hc, hspelling⟩
  intro d hd
  cases Option.mem_unique hc hd
  rw [Bool.eq_false_iff]
  intro hspace
  rcases isSpace_cases hspace with rfl | rfl | rfl | rfl <;>
    cases op <;> exact absurd hspelling (by decide)

theorem follows_of_operator {rank : Nat} {op : Operator} {sign : String} {gap : List Token}
    (hop : op.strength + rank = 5) (hgap : IsGap gap)
    (hcovers : CoverAll arithmetic gap input middle)
    (hsign : (Token.leaf (.symbol (.operator op)) sign).Covers arithmetic middle rest) :
    Follows rank input := by
  -- Operators of one level begin differently from those of all others.
  intro other hother
  rw [dropWhile_of_gap hgap hcovers (not_space_of_operator hsign),
    Option.eq_none_iff_forall_ne_some]
  intro found hfound
  have hstrength : other.strength = op.strength := by
    rcases List.prefix_or_prefix_of_prefix (operator_begins hfound)
      (operator_begins (scan_of_covers hsign)) with h | h
    · exact strength_of_spelling other other.mem_all op op.mem_all h
    · exact (strength_of_spelling op op.mem_all other other.mem_all h).symm
  omega

theorem closing_of_symbol {s : Symbol} {text : String} {gap : List Token}
    (hs : s = .closeParen ∨ s = .closeBracket ∨ s = .comma) (hgap : IsGap gap)
    (hcovers : CoverAll arithmetic gap input middle)
    (hsymbol : (Token.leaf (.symbol s) text).Covers arithmetic middle rest) : Closing input := by
  have hclosed : s.isClosed = true := by
    rcases hs with rfl | rfl | rfl <;> rfl
  have hmiddle := symbol_of_covers hclosed hsymbol
  have hfirst : ∃ c ∈ middle.head?, (c = ')' ∨ c = ']' ∨ c = ',') ∧ Scan.isSpace c = false := by
    rw [hmiddle]
    rcases hs with rfl | rfl | rfl
    · exact ⟨')', rfl, Or.inl rfl, by decide⟩
    · exact ⟨']', rfl, Or.inr (Or.inl rfl), by decide⟩
    · exact ⟨',', rfl, Or.inr (Or.inr rfl), by decide⟩
  rcases hfirst with ⟨c, hc, hclosing, hspace⟩
  refine ⟨c, ?_, hclosing⟩
  rw [dropWhile_of_gap hgap hcovers]
  · exact hc
  · intro d hd
    cases Option.mem_unique hc hd
    exact hspace

theorem head_of_gap {gap : List Token} (hgap : IsGap gap)
    (hcovers : CoverAll arithmetic gap input middle) {c : Char} (hc : c ∈ input.head?) :
    Scan.isSpace c = true ∨ c ∈ middle.head? := by
  cases hgap with
  | none =>
      rw [coverAll_nil.mp hcovers] at hc
      exact Or.inr hc
  | @blank text =>
      rcases covers_leaf.mp (coverAll_singleton.mp hcovers) with ⟨rfl, ⟨hne, hall⟩, _⟩
      cases htext : text.toList with
      | nil => exact absurd htext hne
      | cons d more =>
          rw [htext] at hc
          cases hc
          exact Or.inl (hall _ (htext ▸ List.mem_cons_self))

theorem ne_equal_of_gap {gap : List Token} (hgap : IsGap gap)
    (hcovers : CoverAll arithmetic gap input middle) (hmiddle : Solid middle) :
    ∀ c ∈ input.head?, c ≠ '=' := by
  intro c hc heq
  rcases head_of_gap hgap hcovers hc with hspace | hc
  · rw [heq] at hspace
    cases hspace
  · exact hmiddle.ne_equal c hc heq

/-!
# Rows of continuations
-/

/-- Where it has room enough and what follows cannot be joined to it, the expression is read. -/
def ReadsBack (arithmetic : Arithmetic) (rank : Nat) (t : Token) : Prop :=
  ∀ room input rest, t.nesting ≤ room → t.Covers arithmetic input rest → Follows rank rest →
    Reads (tier (unary arithmetic room) rank) input t rest

def ReadsOn (arithmetic : Arithmetic) (rank : Nat) (t : Token) : Prop :=
  ∀ room input middle more rest, t.nesting ≤ room → t.Covers arithmetic input middle →
    Follows rank middle →
    Series (continuation (tier (unary arithmetic room) rank) (choicesAt rank)) middle more rest →
    Reads (tier (unary arithmetic room) (rank + 1)) input (joined t more) rest

theorem choicesAt_mem_levels {op : Operator} {rank : Nat} (h : op ∈ choicesAt rank) :
    choicesAt rank ∈ levels := by
  match rank with
  | 0 | 1 | 2 | 3 | 4 => decide
  | rank + 5 => cases h

theorem misses_continuation {p : Parser Token} {rank : Nat} (h : Follows (rank + 1) rest) :
    Misses (continuation p (choicesAt rank)) rest := by
  rcases reads_blanks_dropWhile rest with ⟨gap, hgap⟩
  refine hgap.misses_bind (Misses.bind (misses_operator ?_))
  intro op hop
  have hstrength := mem_choicesAt_iff.mp hop
  exact h op (by omega)

theorem ReadsOn.readsBack {rank : Nat} (h : ReadsOn arithmetic rank t) :
    ReadsBack arithmetic (rank + 1) t := by
  intro room input rest hroom hcovers hfollows
  exact h room input rest [] rest hroom hcovers hfollows.of_succ
    (.stop (misses_continuation hfollows))

theorem ReadsBack.readsOn {rank : Nat} (h : ReadsBack arithmetic rank t) :
    ReadsOn arithmetic rank t := by
  intro room input middle more rest hroom hcovers hfollows hmore
  exact (h room input middle hroom hcovers hfollows).bind
    (hmore.reads_many.bind (reads_pure.mpr ⟨rfl, rfl⟩))

theorem readsOn_binary {rank : Nat} {op : Operator} {sign : String} {before after : List Token}
    {left right : Token} (hop : op.strength + rank = 5) (hleft : ReadsOn arithmetic rank left)
    (hbefore : IsGap before) (hafter : IsGap after) (hright : ReadsBack arithmetic rank right)
    (hsolid : ∀ {input rest}, right.Covers arithmetic input rest → Solid input) :
    ReadsOn arithmetic rank (.phrase (.binary op) (left ::
      (before ++ .leaf (.symbol (.operator op)) sign :: after ++ [right]))) := by
  intro room input middle more rest hroom hcovers hfollows hmore
  rw [nesting_binary hbefore hafter, Nat.max_le] at hroom
  rcases coverAll_cons.mp (covers_phrase.mp hcovers) with ⟨start, hcoverl, hparts⟩
  rcases coverAll_append.mp hparts with ⟨_, hhead, hcoverr⟩
  rcases coverAll_append.mp hhead with ⟨_, hcoverb, hhead⟩
  rcases coverAll_cons.mp hhead with ⟨_, hsign, hcovera⟩
  rw [coverAll_singleton] at hcoverr
  have hmem := mem_choicesAt_iff.mpr hop
  have hnext : Reads (continuation (tier (unary arithmetic room) rank) (choicesAt rank)) start
      (op, before ++ .leaf (.symbol (.operator op)) sign :: after ++ [right]) middle := by
    refine ((reads_blanks arithmetic).mpr ⟨hbefore, hcoverb, not_space_of_operator hsign⟩).bind ?_
    refine (reads_operator (choicesAt_mem_levels hmem) hmem hsign ?_).bind ?_
    · exact ne_equal_of_gap hafter hcovera (hsolid hcoverr)
    · refine ((reads_blanks arithmetic).mpr ⟨hafter, hcovera, (hsolid hcoverr).not_space⟩).bind ?_
      exact (hright room _ _ hroom.2 hcoverr hfollows).bind (reads_pure.mpr ⟨rfl, rfl⟩)
  have hleaves : leavesAll
      (before ++ .leaf (.symbol (.operator op)) sign :: after ++ [right]) ≠ [] := by
    simp [leavesAll_append, leavesAll, leaves]
  exact hleft room input start ((op, _) :: more) rest hroom.1 hcoverl
    (follows_of_operator hop hbefore hcoverb hsign) (.more hnext (hparts.length_lt hleaves) hmore)

/-!
# Readings in a row
-/

/-- Rows of tokens of one form are read one after the other if each is read wherever another one
or the end of them all can follow. -/
theorem series_of_all {p : Parser (List Token)} (form : List Token → Prop)
    (follow : List Char → Prop)
    (hreads : ∀ ts input rest, form ts → CoverAll arithmetic ts input rest → follow rest →
      Reads p input ts rest)
    (hfollow : ∀ ts input rest, form ts → CoverAll arithmetic ts input rest → follow input)
    (hleaves : ∀ ts, form ts → leavesAll ts ≠ [])
    {found : List (List Token)} (hforms : ∀ ts ∈ found, form ts) :
    ∀ {input}, CoverAll arithmetic found.flatten input rest → follow rest → Misses p rest →
      Series p input found rest ∧ follow input := by
  induction found with
  | nil =>
      intro input hcovers hrest hmiss
      rw [coverAll_nil.mp hcovers]
      exact ⟨.stop hmiss, hrest⟩
  | cons ts found ih =>
      intro input hcovers hrest hmiss
      rcases coverAll_append.mp hcovers with ⟨middle, hts, hfound⟩
      rcases List.forall_mem_cons.mp hforms with ⟨hform, hforms⟩
      rcases ih hforms hfound hrest hmiss with ⟨hseries, hmiddle⟩
      exact ⟨.more (hreads ts input middle hform hts hmiddle) (hts.length_lt (hleaves ts hform))
        hseries, hfollow ts input middle hform hts⟩

/-!
# Operands
-/

theorem ne_of_nameStart {c d : Char} (h : Scan.isNameStart c = true)
    (hd : Scan.isNameStart d = false) : c ≠ d := by
  intro heq
  rw [heq, hd] at h
  cases h

theorem reads_unaryOver_primary {deeper p : Parser Token}
    (hminus : Misses (symbol (.operator .subtract) .minus) input)
    (h : Reads (primary arithmetic p) input t rest) :
    Reads (unaryOver arithmetic deeper p) input t rest := by
  unfold Misses at hminus
  unfold Reads unaryOver
  rcases hsign : symbol (.operator .subtract) .minus input with ⟨outcome, seen⟩
  rw [hsign] at hminus
  cases hminus
  exact h

theorem misses_unaryOver {deeper p : Parser Token}
    (hminus : Misses (symbol (.operator .subtract) .minus) input)
    (h : Misses (primary arithmetic p) input) : Misses (unaryOver arithmetic deeper p) input := by
  unfold Misses at hminus
  unfold Misses unaryOver
  rcases hsign : symbol (.operator .subtract) .minus input with ⟨outcome, seen⟩
  rw [hsign] at hminus
  cases hminus
  exact h

theorem reads_unaryOver_negation {deeper p : Parser Token} {sign operand : Token}
    {space : List Token} {left : List Char}
    (hsign : Reads (symbol (.operator .subtract) .minus) input sign left)
    (hspace : Reads blanks left space middle) (hoperand : Reads deeper middle operand rest) :
    Reads (unaryOver arithmetic deeper p) input (.phrase .negation (sign :: space ++ [operand]))
      rest := by
  have hinner : Reads (do
      let space ← blanks
      let operand ← deeper
      return Token.phrase .negation (sign :: space ++ [operand])) left
      (.phrase .negation (sign :: space ++ [operand])) rest :=
    hspace.bind (hoperand.bind (reads_pure.mpr ⟨rfl, rfl⟩))
  unfold Reads at hsign
  unfold Reads unaryOver
  rcases hfound : symbol (.operator .subtract) .minus input with ⟨outcome, seen⟩
  rw [hfound] at hsign
  cases hsign
  exact hinner

theorem readsBack_of_primary
    (h : ∀ room input rest, t.nesting ≤ room → t.Covers arithmetic input rest →
      Misses (symbol (.operator .subtract) .minus) input ∧
        Reads (primary arithmetic (expression arithmetic room)) input t rest) :
    ReadsBack arithmetic 0 t := by
  intro room input rest hroom hcovers _
  rcases h room input rest hroom hcovers with ⟨hminus, hprimary⟩
  rw [tier, unary_eq]
  exact reads_unaryOver_primary hminus hprimary

theorem readsBack_number {value : Number} {text : String} :
    ReadsBack arithmetic 0 (.leaf (.number value) text) := by
  apply readsBack_of_primary
  intro room input rest _ hcovers
  rcases first_of_number hcovers with ⟨c, more, rfl, hc⟩
  refine ⟨misses_symbol ?_, (reads_number.mpr ⟨⟨_, _, rfl⟩, hcovers⟩).orElse_left _⟩
  intro d hd heq
  cases hd
  cases heq
  exact absurd hc (by decide)

theorem readsBack_text {value text : String} :
    ReadsBack arithmetic 0 (.leaf (.text value) text) := by
  apply readsBack_of_primary
  intro room input rest _ hcovers
  have hreads := (reads_quotedText arithmetic).mpr ⟨⟨_, _, rfl⟩, hcovers⟩
  rcases first_of_text hcovers with ⟨c, more, rfl, hc⟩
  have hnumber : Misses (number arithmetic) (c :: more) := by
    apply misses_number
    intro d hd
    cases hd
    rcases hc with rfl | rfl <;> decide
  refine ⟨misses_symbol ?_, (hreads.orElse_left _).orElse_right hnumber⟩
  intro d hd
  cases hd
  rcases hc with rfl | rfl <;> decide

theorem misses_attribution (h : ∀ c ∈ input.head?, c ≠ '@') : Misses attribution input := by
  apply Misses.bind
  apply misses_symbol
  intro c hc heq
  cases heq
  exact h '@' hc rfl

theorem reads_primary_of_misses {p : Parser Token}
    (hfirst : ∀ c ∈ input.head?,
      (Literal.isDigit c = false ∧ c ≠ '.') ∧ (c ≠ '\'' ∧ c ≠ '"') ∧ c ≠ '@')
    (h : Reads ((call p).orElse (group p)) input t rest) :
    Reads (primary arithmetic p) input t rest := by
  -- What is not a number, a text or an attribution is a call or a group.
  have hnumber : Misses (number arithmetic) input :=
    misses_number fun c hc => (hfirst c hc).1
  have hquoted : Misses quotedText input :=
    misses_quotedText fun c hc => (hfirst c hc).2.1
  have hattribution : Misses attribution input :=
    misses_attribution fun c hc => (hfirst c hc).2.2
  exact ((h.orElse_right hattribution).orElse_right hquoted).orElse_right hnumber

theorem readsBack_attribution {sign n key : String} :
    ReadsBack arithmetic 0
      (.phrase .attribution [.leaf (.symbol .at) sign, .leaf (.name n) key]) := by
  apply readsBack_of_primary
  intro room input rest _ hcovers
  rcases coverAll_cons.mp (covers_phrase.mp hcovers) with ⟨middle, hsign, hkey⟩
  rw [coverAll_singleton] at hkey
  have hreads : Reads attribution input
      (.phrase .attribution [.leaf (.symbol .at) sign, .leaf (.name n) key]) rest := by
    refine ((reads_symbol arithmetic rfl).mpr ⟨⟨_, rfl⟩, hsign⟩).bind ?_
    refine ((reads_name arithmetic).mpr ⟨⟨_, _, rfl⟩, hkey⟩).bind ?_
    exact reads_pure.mpr ⟨rfl, rfl⟩
  have hat := head_of_symbol rfl rfl hsign
  have hnumber : Misses (number arithmetic) input := by
    apply misses_number
    intro c hc
    rw [hat c hc]
    decide
  have hquoted : Misses quotedText input := by
    apply misses_quotedText
    intro c hc
    rw [hat c hc]
    decide
  refine ⟨misses_symbol ?_, ((hreads.orElse_left _).orElse_right hquoted).orElse_right hnumber⟩
  intro c hc
  rw [hat c hc]
  decide

theorem readsBack_negation {sign : String} {space : List Token} {operand : Token}
    (hspace : IsGap space) (hoperand : ReadsBack arithmetic 0 operand)
    (hsolid : ∀ {input rest}, operand.Covers arithmetic input rest → Solid input) :
    ReadsBack arithmetic 0 (.phrase .negation
      (.leaf (.symbol (.operator .subtract)) sign :: space ++ [operand])) := by
  intro room input rest hroom hcovers _
  rw [nesting_negation hspace] at hroom
  rcases coverAll_append.mp (covers_phrase.mp hcovers) with ⟨middle, hhead, hlast⟩
  rcases coverAll_cons.mp hhead with ⟨left, hsign, hgap⟩
  rw [coverAll_singleton] at hlast
  cases room with
  | zero => omega
  | succ room =>
      rw [tier, unary_eq]
      refine reads_unaryOver_negation ((reads_symbol arithmetic rfl).mpr ⟨⟨_, rfl⟩, hsign⟩)
        ((reads_blanks arithmetic).mpr ⟨hspace, hgap, (hsolid hlast).not_space⟩) ?_
      exact hoperand room middle rest (by omega) hlast follows_zero

/-!
# Expressions in brackets
-/

theorem ReadsBack.expression {room : Nat} (h : ReadsBack arithmetic 5 t) (hroom : t.nesting < room)
    (hcovers : t.Covers arithmetic input rest) (hclosing : Closing rest) :
    Reads (Grammar.expression arithmetic room) input t rest := by
  cases room with
  | zero => exact absurd hroom (Nat.not_lt_zero _)
  | succ room =>
      exact h room input rest (Nat.le_of_lt_succ hroom) hcovers (hclosing.follows 5)

theorem reads_enclosed {kind : Phrase} {left right : Symbol} {first last : Production}
    {opening closing : String} {before after : List Token} {inner : Token} {room : Nat}
    (hleft : left.isClosed = true) (hright : right = .closeParen ∨ right = .closeBracket)
    (hbefore : IsGap before) (hinner : ReadsBack arithmetic 5 inner) (hafter : IsGap after)
    (hsolid : ∀ {input rest}, inner.Covers arithmetic input rest → Solid input)
    (hroom : inner.nesting < room)
    (hcovers : (phrase kind (.leaf (.symbol left) opening :: before ++ inner :: after ++
      [.leaf (.symbol right) closing])).Covers arithmetic input rest) :
    Reads (enclosed kind (symbol left first) (symbol right last) (expression arithmetic room)) input
      (.phrase kind (.leaf (.symbol left) opening :: before ++ inner :: after ++
        [.leaf (.symbol right) closing])) rest := by
  rcases coverAll_append.mp (covers_phrase.mp hcovers) with ⟨_, hparts, hclose⟩
  rcases coverAll_append.mp hparts with ⟨_, hhead, hparts⟩
  rcases coverAll_cons.mp hhead with ⟨_, hopen, hgap⟩
  rcases coverAll_cons.mp hparts with ⟨_, hbody, hgap'⟩
  rw [coverAll_singleton] at hclose
  have hclosed : right.isClosed = true := by
    rcases hright with rfl | rfl <;> rfl
  have hclosing : Closing _ :=
    closing_of_symbol (hright.imp_right Or.inl) hafter hgap' hclose
  refine ((reads_symbol arithmetic hleft).mpr ⟨⟨_, rfl⟩, hopen⟩).bind ?_
  refine ((reads_blanks arithmetic).mpr ⟨hbefore, hgap, (hsolid hbody).not_space⟩).bind ?_
  refine (hinner.expression hroom hbody hclosing).bind ?_
  have hspace := not_space_of_symbol hclosed hclose
  refine ((reads_blanks arithmetic).mpr ⟨hafter, hgap', hspace⟩).bind ?_
  exact ((reads_symbol arithmetic hclosed).mpr ⟨⟨_, rfl⟩, hclose⟩).bind
    (reads_pure.mpr ⟨rfl, rfl⟩)

theorem readsBack_group {opening closing : String} {before after : List Token} {inner : Token}
    (hbefore : IsGap before) (hinner : ReadsBack arithmetic 5 inner) (hafter : IsGap after)
    (hsolid : ∀ {input rest}, inner.Covers arithmetic input rest → Solid input) :
    ReadsBack arithmetic 0 (.phrase .group (.leaf (.symbol .openParen) opening :: before ++
      inner :: after ++ [.leaf (.symbol .closeParen) closing])) := by
  apply readsBack_of_primary
  intro room input rest hroom hcovers
  rw [nesting_enclosed rfl hbefore hafter] at hroom
  rcases coverAll_cons.mp (covers_phrase.mp hcovers) with ⟨_, hopen, _⟩
  have hinput := head_of_symbol rfl rfl hopen
  constructor
  · apply misses_symbol
    intro c hc
    rw [hinput c hc]
    decide
  · apply reads_primary_of_misses
    · intro c hc
      rw [hinput c hc]
      decide
    · refine (reads_enclosed rfl (Or.inl rfl) hbefore hinner hafter hsolid (by omega)
        hcovers).orElse_right (Misses.bind (misses_name ?_))
      intro c hc
      rw [hinput c hc]
      decide

/-!
# Calls
-/

theorem readsBack_call {n function opening closing : String} {before after inner : List Token}
    (hbefore : IsGap before) (hafter : IsGap after)
    (hinner : ∀ room input middle rest, nestingAll inner < room →
      CoverAll arithmetic inner input middle →
      (Token.leaf (.symbol .closeParen) closing).Covers arithmetic middle rest →
      (∀ c ∈ input.head?, Scan.isSpace c = false) ∧
        ∃ found, Reads (option (arguments (expression arithmetic room))) input found middle ∧
          found.getD [] = inner) :
    ReadsBack arithmetic 0 (.phrase .call (.leaf (.name n) function :: before ++
      .leaf (.symbol .openParen) opening :: after ++ inner ++
      [.leaf (.symbol .closeParen) closing])) := by
  apply readsBack_of_primary
  intro room input rest hroom hcovers
  rw [nesting_call hbefore hafter] at hroom
  rcases coverAll_append.mp (covers_phrase.mp hcovers) with ⟨_, hparts, hclose⟩
  rcases coverAll_append.mp hparts with ⟨_, hparts, hcoveri⟩
  rcases coverAll_append.mp hparts with ⟨_, hhead, hparts⟩
  rcases coverAll_cons.mp hhead with ⟨_, hfunction, hcoverb⟩
  rcases coverAll_cons.mp hparts with ⟨_, hopen, hcovera⟩
  rw [coverAll_singleton] at hclose
  rcases hinner room _ _ _ (by omega) hcoveri hclose with ⟨hspace, found, hfound, hgetD⟩
  have hreads : Reads (call (expression arithmetic room)) input
      (.phrase .call (.leaf (.name n) function :: before ++
        .leaf (.symbol .openParen) opening :: after ++ inner ++
        [.leaf (.symbol .closeParen) closing])) rest := by
    refine ((reads_name arithmetic).mpr ⟨⟨_, _, rfl⟩, hfunction⟩).bind ?_
    refine ((reads_blanks arithmetic).mpr ⟨hbefore, hcoverb, ?_⟩).bind ?_
    · exact not_space_of_symbol rfl hopen
    · refine ((reads_symbol arithmetic rfl).mpr ⟨⟨_, rfl⟩, hopen⟩).bind ?_
      refine ((reads_blanks arithmetic).mpr ⟨hafter, hcovera, hspace⟩).bind ?_
      refine hfound.bind ?_
      refine ((reads_symbol arithmetic rfl).mpr ⟨⟨_, rfl⟩, hclose⟩).bind ?_
      rw [hgetD]
      exact reads_pure.mpr ⟨rfl, rfl⟩
  rcases first_of_name hfunction with ⟨c, more, rfl, hstart⟩
  constructor
  · apply misses_symbol
    intro d hd heq
    cases hd
    cases heq
    cases hstart
  · apply reads_primary_of_misses
    · intro d hd
      cases hd
      have hne {e : Char} := ne_of_nameStart (d := e) hstart
      exact ⟨⟨not_digit_of_nameStart hstart, hne rfl⟩, ⟨hne rfl, hne rfl⟩, hne rfl⟩
    · exact hreads.orElse_left _

theorem misses_tier {p : Parser Token} (h : Misses p input) (rank : Nat) :
    Misses (tier p rank) input := by
  induction rank with
  | zero => exact h
  | succ rank ih => exact ih.bind

theorem misses_expression {room : Nat} (hroom : 0 < room) (hinput : ∀ c ∈ input.head?, c = ')') :
    Misses (expression arithmetic room) input := by
  have hprimary (p : Parser Token) : Misses (primary arithmetic p) input := by
    refine misses_orElse.mpr ⟨misses_number ?_, misses_orElse.mpr ⟨misses_quotedText ?_,
      misses_orElse.mpr ⟨misses_attribution ?_, misses_orElse.mpr ⟨Misses.bind (misses_name ?_),
        Misses.bind (misses_symbol ?_)⟩⟩⟩⟩
    all_goals
      intro c hc
      rw [hinput c hc]
      decide
  have hminus : Misses (symbol (.operator .subtract) .minus) input := by
    apply misses_symbol
    intro c hc
    rw [hinput c hc]
    decide
  cases room with
  | zero => cases hroom
  | succ room =>
      show Misses (tier (unary arithmetic room) 5) input
      apply misses_tier
      rw [unary_eq]
      exact misses_unaryOver hminus (hprimary _)

theorem readsBack_bareCall {n function opening closing : String} {before after : List Token}
    (hbefore : IsGap before) (hafter : IsGap after) :
    ReadsBack arithmetic 0 (.phrase .call (.leaf (.name n) function :: before ++
      .leaf (.symbol .openParen) opening :: after ++ [.leaf (.symbol .closeParen) closing])) := by
  have h : ReadsBack arithmetic 0 (.phrase .call (.leaf (.name n) function :: before ++
      .leaf (.symbol .openParen) opening :: after ++ [] ++
      [.leaf (.symbol .closeParen) closing])) := by
    apply readsBack_call hbefore hafter
    intro room input middle rest hroom hcovers hclose
    rw [coverAll_nil.mp hcovers]
    refine ⟨not_space_of_symbol rfl hclose, none, ?_, rfl⟩
    have hclosing := head_of_symbol rfl rfl hclose
    exact (misses_expression (Nat.zero_lt_of_lt hroom) hclosing).bind.option
  rw [List.append_nil] at h
  exact h

theorem reads_nextArgument {room : Nat} {x : FurtherArgument}
    (hgaps : IsGap x.before ∧ IsGap x.after) (hvalue : IsExpression 5 x.value)
    (hback : ReadsBack arithmetic 5 x.value) (hroom : x.value.nesting < room)
    (hcovers : CoverAll arithmetic x.parts input rest) (hclosing : Closing rest) :
    Reads (nextArgument (expression arithmetic room)) input x.parts rest := by
  rcases coverAll_append.mp hcovers with ⟨_, hparts, hlast⟩
  rcases coverAll_append.mp hparts with ⟨_, hbefore, hparts⟩
  rcases coverAll_cons.mp hparts with ⟨_, hcomma, hafter⟩
  rw [coverAll_singleton] at hlast
  refine ((reads_blanks arithmetic).mpr ⟨hgaps.1, hbefore, ?_⟩).bind ?_
  · exact not_space_of_symbol rfl hcomma
  · refine ((reads_symbol arithmetic rfl).mpr ⟨⟨_, rfl⟩, hcomma⟩).bind ?_
    refine ((reads_blanks arithmetic).mpr ⟨hgaps.2, hafter,
      (solid_of_expression hvalue hlast).not_space⟩).bind ?_
    exact (hback.expression hroom hlast hclosing).bind (reads_pure.mpr ⟨rfl, rfl⟩)

theorem reads_arguments {room : Nat} {first : Token} {more : List FurtherArgument}
    {trailing : List Token} {closing : String} (hfirst : ReadsBack arithmetic 5 first)
    (hgaps : ∀ x ∈ more, IsGap x.before ∧ IsGap x.after)
    (hvalues : ∀ x ∈ more, IsExpression 5 x.value)
    (hmore : ∀ x ∈ more, ReadsBack arithmetic 5 x.value) (htrailing : IsGap trailing)
    (hroom : first.nesting < room ∧ ∀ x ∈ more, x.value.nesting < room)
    (hcovers : CoverAll arithmetic (first :: more.flatMap FurtherArgument.parts ++ trailing) input
      middle)
    (hclose : (Token.leaf (.symbol .closeParen) closing).Covers arithmetic middle rest) :
    Reads (arguments (expression arithmetic room)) input
      (first :: more.flatMap FurtherArgument.parts ++ trailing) middle := by
  rcases coverAll_append.mp hcovers with ⟨left, hparts, hlast⟩
  rcases coverAll_cons.mp hparts with ⟨start, hhead, hparts⟩
  have hclosing : Closing left := closing_of_symbol (Or.inl rfl) htrailing hlast hclose
  have hspace := not_space_of_symbol rfl hclose
  have htrail := (reads_blanks arithmetic).mpr ⟨htrailing, hlast, hspace⟩
  have hmiss : Misses (nextArgument (expression arithmetic room)) left := by
    refine htrail.misses_bind (Misses.bind (misses_symbol ?_))
    intro c hc
    rw [head_of_symbol rfl rfl hclose c hc]
    decide
  rw [List.flatMap_def] at hparts
  have hseries := series_of_all (p := nextArgument (expression arithmetic room))
    (fun ts => ∃ x ∈ more, ts = FurtherArgument.parts x) Closing ?_ ?_ ?_ ?_ hparts hclosing hmiss
  · refine (hfirst.expression hroom.1 hhead hseries.2).bind ?_
    refine hseries.1.reads_many.bind (htrail.bind ?_)
    rw [← List.flatMap_def]
    exact reads_pure.mpr ⟨rfl, rfl⟩
  · intro ts input rest hts hcovers hclosing
    rcases hts with ⟨x, hx, rfl⟩
    exact reads_nextArgument (hgaps x hx) (hvalues x hx) (hmore x hx) (hroom.2 x hx) hcovers
      hclosing
  · intro ts input rest hts hcovers
    rcases hts with ⟨x, hx, rfl⟩
    rcases coverAll_append.mp hcovers with ⟨_, hparts, _⟩
    rcases coverAll_append.mp hparts with ⟨_, hbefore, hparts⟩
    rcases coverAll_cons.mp hparts with ⟨_, hcomma, _⟩
    exact closing_of_symbol (Or.inr (Or.inr rfl)) (hgaps x hx).1 hbefore hcomma
  · intro ts hts
    rcases hts with ⟨x, _, rfl⟩
    simp [FurtherArgument.parts, leavesAll_append, leavesAll, leaves]
  · intro ts hts
    rcases List.mem_map.mp hts with ⟨x, hx, rfl⟩
    exact ⟨x, hx, rfl⟩

theorem ReadsBack.lowest (h : ReadsBack arithmetic 0 t) :
    ReadsBack arithmetic 0 t ∧ ∀ lower, 0 = lower + 1 → ReadsOn arithmetic lower t := by
  refine ⟨h, ?_⟩
  intro lower hrank
  cases hrank

theorem ReadsOn.both {rank : Nat} (h : ReadsOn arithmetic rank t) :
    ReadsBack arithmetic (rank + 1) t ∧
      ∀ lower, rank + 1 = lower + 1 → ReadsOn arithmetic lower t := by
  refine ⟨h.readsBack, ?_⟩
  intro lower hrank
  cases hrank
  exact h

/-- Every expression is read back, and so is everything that is joined to it. -/
theorem readsBack_of_expression {rank : Nat} (h : IsExpression rank t) :
    ReadsBack arithmetic rank t ∧ ∀ lower, rank = lower + 1 → ReadsOn arithmetic lower t := by
  induction h with
  | number => exact readsBack_number.lowest
  | text => exact readsBack_text.lowest
  | attribution => exact readsBack_attribution.lowest
  | bareCall hbefore hafter => exact (readsBack_bareCall hbefore hafter).lowest
  | call hbefore hafter hfirst hgaps hmore htrailing ihfirst ihmore =>
      refine (readsBack_call hbefore hafter ?_).lowest
      intro room input middle rest hroom hcovers hclose
      rcases (nestingAll_arguments hgaps htrailing).mp (Nat.le_sub_one_of_lt hroom) with
        ⟨hnesting, hnestings⟩
      have hpos : 0 < room := Nat.zero_lt_of_lt hroom
      have hreads := reads_arguments ihfirst.1 hgaps hmore (fun x hx => (ihmore x hx).1) htrailing
        ⟨Nat.lt_of_le_sub_one hpos hnesting, fun x hx => Nat.lt_of_le_sub_one hpos (hnestings x hx)⟩
        hcovers hclose
      refine ⟨?_, some _, hreads.option, rfl⟩
      rcases coverAll_append.mp hcovers with ⟨_, hparts, _⟩
      rcases coverAll_cons.mp hparts with ⟨_, hhead, _⟩
      exact (solid_of_expression hfirst hhead).not_space
  | group hbefore hinner hafter ih =>
      exact (readsBack_group hbefore ih.1 hafter (solid_of_expression hinner)).lowest
  | negation hspace hoperand ih =>
      exact (readsBack_negation hspace ih.1 (solid_of_expression hoperand)).lowest
  | binary hop hleft hbefore hafter hright ihleft ihright =>
      exact (readsOn_binary hop (ihleft.2 _ rfl) hbefore hafter ihright.1
        (solid_of_expression hright)).both
  | tighter h ih => exact ih.1.readsOn.both

end Grammar
end TreeQuery
