import TreeQuery.Proofs.Parser.Scanning

/-!
# Rules for single leaves

Each of these rules reads a leaf of its kind exactly where such a leaf covers
the text, and misses everywhere else.  Marks and operators that begin in the
same way need a word on what follows them, because the first of a list wins.
-/

namespace TreeQuery

/-- Symbols that may stand before any character. -/
def Symbol.isClosed : Symbol → Bool
  | .slash => false
  | .operator op => !op.isWord
  | _ => true

namespace Grammar

open TreeQuery.Parser Token

variable {arithmetic : Arithmetic} {production : Production} {input rest taken : List Char}
  {t : Token} {s : Symbol}

theorem covers_leafOf {lexeme : Lexeme} :
    (leafOf lexeme taken).Covers arithmetic input rest ↔
      input = taken ++ rest ∧ lexeme.Spells arithmetic taken ∧
        ∀ c ∈ rest.head?, ¬ lexeme.Extends taken c := by
  rw [leafOf, covers_leaf, String.toList_ofList]

theorem leaf_eq_leafOf (lexeme : Lexeme) (text : String) :
    Token.leaf lexeme text = leafOf lexeme text.toList := by
  rw [leafOf, String.ofList_toList]

/-!
# Blanks
-/

variable (arithmetic) in
theorem reads_blanks {ts : List Token} :
    Reads blanks input ts rest ↔
      IsGap ts ∧ CoverAll arithmetic ts input rest ∧
        ∀ c ∈ rest.head?, Scan.isSpace c = false := by
  rcases hrun : Scan.run Scan.isSpace input with ⟨space, left⟩
  rcases Scan.run_eq_iff.mp hrun with ⟨hinput, hspace, hstop⟩
  have hreads : Reads blanks input ts rest ↔
      ts = (if space.isEmpty then [] else [leafOf .blank space]) ∧ rest = left := by
    unfold Reads blanks
    rw [hrun]
    simp only [Outcome.done.injEq, eq_comm]
  rw [hreads]
  constructor
  · intro h
    rcases h with ⟨rfl, rfl⟩
    cases space with
    | nil => exact ⟨.none, coverAll_nil.mpr hinput, hstop⟩
    | cons c more =>
        have hcovers : (leafOf .blank (c :: more)).Covers arithmetic input rest :=
          covers_leafOf.mpr ⟨hinput, ⟨List.cons_ne_nil c more, hspace⟩, fun _ _ h => h⟩
        exact ⟨.blank, hcovers.single, hstop⟩
  · intro h
    rcases h with ⟨hgap, hcover, hrest⟩
    cases hgap with
    | none =>
        rw [coverAll_nil] at hcover
        have hall : ∀ c ∈ ([] : List Char), Scan.isSpace c = true := by
          intro c hc
          cases hc
        rw [Scan.run_eq_iff.mpr ⟨hcover, hall, hrest⟩] at hrun
        cases hrun
        exact ⟨rfl, rfl⟩
    | @blank text =>
        rw [coverAll_singleton, covers_leaf] at hcover
        rcases hcover with ⟨hinput', ⟨hne, hall⟩, _⟩
        rw [Scan.run_eq_iff.mpr ⟨hinput', hall, hrest⟩] at hrun
        cases hrun
        rw [List.isEmpty_eq_false_iff.mpr hne]
        exact ⟨by rw [leaf_eq_leafOf]; rfl, rfl⟩

/-!
# Symbols
-/

theorem reads_symbol_iff :
    Reads (symbol s production) input t rest ↔
      t = leafOf (.symbol s) s.spelling.toList ∧ input = s.spelling.toList ++ rest := by
  unfold symbol
  simp only [reads_bind, reads_scan, reads_pure, Scan.exactly_eq_some_iff]
  constructor
  · intro h
    rcases h with ⟨taken, middle, ⟨rfl, hinput⟩, rfl, rfl⟩
    exact ⟨rfl, hinput⟩
  · intro h
    exact ⟨_, rest, ⟨rfl, h.2⟩, h.1, rfl⟩

theorem misses_symbol_iff :
    Misses (symbol s production) input ↔ ¬ s.spelling.toList <+: input := by
  have hscan : Misses (scan production (Scan.exactly s.spelling.toList)) input ↔
      ¬ s.spelling.toList <+: input := by
    rw [misses_scan, Scan.exactly, ← List.isPrefixOf_iff_prefix]
    split
    · rename_i h
      simp [h]
    · rename_i h
      simp [h]
  constructor
  · intro h hbegins
    rcases hbegins with ⟨rest, hinput⟩
    exact (reads_symbol_iff.mpr ⟨rfl, hinput.symm⟩).not_misses h
  · intro h
    exact (hscan.mpr h).bind

theorem misses_symbol (h : ∀ c ∈ input.head?, s.spelling.toList.head? ≠ some c) :
    Misses (symbol s production) input := by
  rw [misses_symbol_iff]
  intro hbegins
  cases hspelling : s.spelling.toList with
  | nil => exact s.spelling_ne_nil hspelling
  | cons c more =>
      rw [hspelling] at h hbegins
      rcases hbegins with ⟨rest, rfl⟩
      exact h c rfl rfl

theorem spells_symbol (hs : s.isClosed = true) :
    (Lexeme.symbol s).Spells arithmetic taken ↔ taken = s.spelling.toList := by
  cases s with
  | operator op =>
      have hword : op.isWord = false := by simpa [Symbol.isClosed] using hs
      simp only [Lexeme.Spells, hword]
      exact Iff.rfl
  | _ => exact Iff.rfl

theorem not_extends_symbol (hs : s.isClosed = true) (c : Char) :
    ¬ (Lexeme.symbol s).Extends taken c := by
  cases s with
  | operator op =>
      intro h
      simp [Symbol.isClosed, h.1] at hs
  | slash => cases hs
  | _ => exact id

variable (arithmetic) in
theorem reads_symbol (hs : s.isClosed = true) :
    Reads (symbol s production) input t rest ↔
      (∃ text, t = .leaf (.symbol s) text) ∧ t.Covers arithmetic input rest := by
  rw [reads_symbol_iff]
  constructor
  · intro h
    rcases h with ⟨rfl, hinput⟩
    exact ⟨⟨_, rfl⟩, covers_leafOf.mpr ⟨hinput, (spells_symbol hs).mpr rfl,
      fun c _ => not_extends_symbol hs c⟩⟩
  · intro h
    rcases h with ⟨⟨text, rfl⟩, hcovers⟩
    rw [covers_leaf, spells_symbol hs] at hcovers
    rw [leaf_eq_leafOf, ← hcovers.2.1]
    exact ⟨rfl, hcovers.1⟩

variable (arithmetic) in
theorem reads_slash :
    Reads (symbol .slash .slash) input t rest ∧ ['/', '/'].isPrefixOf input = false ↔
      (∃ text, t = .leaf (.symbol .slash) text) ∧ t.Covers arithmetic input rest := by
  have hsingle (rest : List Char) : ['/', '/'].isPrefixOf ('/' :: rest) = false ↔
      ∀ c ∈ rest.head?, c ≠ '/' := by
    cases rest with
    | nil => simp [List.isPrefixOf]
    | cons c more =>
        by_cases hc : c = '/'
        · simp [List.isPrefixOf, hc]
        · simp [List.isPrefixOf, hc, Ne.symm hc]
  rw [reads_symbol_iff]
  constructor
  · intro h
    rcases h with ⟨⟨rfl, rfl⟩, hahead⟩
    exact ⟨⟨_, rfl⟩, covers_leafOf.mpr ⟨rfl, rfl, (hsingle rest).mp hahead⟩⟩
  · intro h
    rcases h with ⟨⟨text, rfl⟩, hcovers⟩
    rw [covers_leaf] at hcovers
    rcases hcovers with ⟨rfl, hspells, hstop⟩
    have htext : text.toList = ['/'] := hspells
    rw [leaf_eq_leafOf, htext]
    exact ⟨⟨rfl, rfl⟩, (hsingle rest).mpr hstop⟩

/-!
# Names, texts and numbers
-/

variable (arithmetic) in
theorem reads_name :
    Reads name input t rest ↔
      (∃ n text, t = .leaf (.name n) text) ∧ t.Covers arithmetic input rest := by
  unfold name
  simp only [reads_bind, reads_scan, reads_pure, Scan.name_eq_some_iff]
  constructor
  · intro h
    rcases h with ⟨taken, middle, ⟨hinput, hname, hstop⟩, rfl, rfl⟩
    exact ⟨⟨_, _, rfl⟩, covers_leafOf.mpr ⟨hinput, ⟨hname, rfl⟩, hstop⟩⟩
  · intro h
    rcases h with ⟨⟨n, text, rfl⟩, hcovers⟩
    rcases covers_leaf.mp hcovers with ⟨hinput, ⟨hname, rfl⟩, hstop⟩
    exact ⟨text.toList, rest, ⟨hinput, hname, hstop⟩, leaf_eq_leafOf _ _, rfl⟩

theorem misses_name (h : ∀ c ∈ input.head?, Scan.isNameStart c = false) : Misses name input := by
  apply Misses.bind
  rw [misses_scan]
  cases input with
  | nil => rfl
  | cons c more => rw [Scan.name, h c rfl]; rfl

variable (arithmetic) in
theorem reads_wildcard :
    Reads wildcard input t rest ↔
      (∃ text, t = .leaf .wildcard text) ∧ t.Covers arithmetic input rest := by
  unfold wildcard
  simp only [reads_bind, reads_scan, reads_pure, Scan.exactly_eq_some_iff]
  constructor
  · intro h
    rcases h with ⟨taken, middle, ⟨rfl, hinput⟩, rfl, rfl⟩
    exact ⟨⟨_, rfl⟩, covers_leafOf.mpr ⟨hinput, rfl, fun _ _ h => h⟩⟩
  · intro h
    rcases h with ⟨⟨text, rfl⟩, hcovers⟩
    rcases covers_leaf.mp hcovers with ⟨hinput, hspells, _⟩
    have htext : text.toList = ['*'] := hspells
    rw [htext] at hinput
    exact ⟨['*'], rest, ⟨rfl, hinput⟩, htext ▸ leaf_eq_leafOf _ _, rfl⟩

theorem misses_wildcard (h : ∀ c ∈ input.head?, c ≠ '*') : Misses wildcard input := by
  apply Misses.bind
  rw [misses_scan, Scan.exactly]
  cases input with
  | nil => rfl
  | cons c more => simp [List.isPrefixOf, Ne.symm (h c rfl)]

variable (arithmetic) in
theorem reads_nodeTest :
    Reads nodeTest input t rest ↔ IsNodeTest t ∧ t.Covers arithmetic input rest := by
  unfold nodeTest
  rw [reads_orElse]
  constructor
  · intro h
    rcases h with h | ⟨_, h⟩
    · rcases (reads_wildcard arithmetic).mp h with ⟨⟨text, rfl⟩, hcovers⟩
      exact ⟨.wildcard, hcovers⟩
    · rcases (reads_name arithmetic).mp h with ⟨⟨n, text, rfl⟩, hcovers⟩
      exact ⟨.name, hcovers⟩
  · intro h
    rcases h with ⟨htest, hcovers⟩
    cases htest with
    | wildcard => exact Or.inl ((reads_wildcard arithmetic).mpr ⟨⟨_, rfl⟩, hcovers⟩)
    | @name n text =>
        refine Or.inr ⟨misses_wildcard ?_, (reads_name arithmetic).mpr ⟨⟨_, _, rfl⟩, hcovers⟩⟩
        rcases covers_leaf.mp hcovers with ⟨rfl, ⟨hname, _⟩, _⟩
        cases htext : text.toList with
        | nil =>
            rw [htext] at hname
            cases hname
        | cons c more =>
            rw [htext] at hname
            intro d hd heq
            cases hd
            rw [heq] at hname
            cases hname.1

theorem misses_nodeTest (h : ∀ c ∈ input.head?, c ≠ '*' ∧ Scan.isNameStart c = false) :
    Misses nodeTest input :=
  misses_orElse.mpr ⟨misses_wildcard fun c hc => (h c hc).1, misses_name fun c hc => (h c hc).2⟩

variable (arithmetic) in
theorem reads_quotedText :
    Reads quotedText input t rest ↔
      (∃ value text, t = .leaf (.text value) text) ∧ t.Covers arithmetic input rest := by
  unfold quotedText
  simp only [reads_bind, reads_scan, reads_pure, Scan.quoted_eq_some_iff]
  constructor
  · intro h
    rcases h with ⟨taken, middle, ⟨quote, value, hquote, hmem, rfl, hinput⟩, rfl, rfl⟩
    refine ⟨⟨_, _, rfl⟩, covers_leafOf.mpr ⟨hinput, ⟨quote, hquote, ?_⟩, fun _ _ h => h⟩⟩
    rw [String.toList_ofList, List.drop_one, List.tail_cons, List.dropLast_concat]
    exact ⟨hmem, rfl⟩
  · intro h
    rcases h with ⟨⟨value, text, rfl⟩, hcovers⟩
    rcases covers_leaf.mp hcovers with ⟨hinput, ⟨quote, hquote, hmem, htext⟩, _⟩
    refine ⟨text.toList, rest, ⟨quote, value.toList, hquote, hmem, htext, hinput⟩, ?_, rfl⟩
    rw [leaf_eq_leafOf, htext, List.drop_one, List.tail_cons, List.dropLast_concat,
      String.ofList_toList]

theorem misses_quotedText (h : ∀ c ∈ input.head?, c ≠ '\'' ∧ c ≠ '"') :
    Misses quotedText input := by
  apply Misses.bind
  rw [misses_scan]
  cases input with
  | nil => rfl
  | cons c more => simp [Scan.quoted, h c rfl]

theorem reads_number :
    Reads (number arithmetic) input t rest ↔
      (∃ value text, t = .leaf (.number value) text) ∧ t.Covers arithmetic input rest := by
  unfold Reads number
  constructor
  · intro h
    split at h
    · cases h
    · rename_i taken left hscan
      split at h
      · rename_i value hvalue
        cases h
        rcases Scan.number_eq_some_iff.mp hscan with ⟨hinput, hnumber, hstop⟩
        exact ⟨⟨_, _, rfl⟩, covers_leafOf.mpr ⟨hinput, ⟨hnumber, hvalue⟩, hstop⟩⟩
      · cases h
  · intro h
    rcases h with ⟨⟨value, text, rfl⟩, hcovers⟩
    rcases covers_leaf.mp hcovers with ⟨hinput, ⟨hnumber, hvalue⟩, hstop⟩
    rw [Scan.number_eq_some_iff.mpr ⟨hinput, hnumber, hstop⟩]
    simp only [hvalue]
    rw [leaf_eq_leafOf]

theorem misses_number (h : ∀ c ∈ input.head?, Literal.isDigit c = false ∧ c ≠ '.') :
    Misses (number arithmetic) input := by
  have hscan : Scan.number input = none := by
    rw [Option.eq_none_iff_forall_ne_some]
    intro found hfound
    rcases found with ⟨taken, rest⟩
    rcases Scan.number_eq_some_iff.mp hfound with ⟨rfl, ⟨hall, _, d, hd, _⟩, _⟩
    cases taken with
    | nil => cases hd
    | cons c more =>
        rcases hall c List.mem_cons_self with hc | hc
        · rw [(h c rfl).1] at hc
          cases hc
        · exact (h c rfl).2 hc
  unfold Misses number
  rw [hscan]
  rfl

/-!
# Letter case

Only letters change when a text is lower-cased.
-/

theorem toLower_eq_or (c : Char) :
    c.toLower = c ∨ c.isAlpha = true ∧ c.toLower.isAlpha = true := by
  unfold Char.toLower
  split
  · rename_i h
    right
    constructor
    · unfold Char.isAlpha Char.isUpper
      simp only [h, and_self, decide_true, Bool.true_or]
    · unfold Char.isAlpha Char.isLower
      simp [UInt32.le_iff_toNat_le] at h ⊢
      omega
  · left
    rfl

theorem toLower_eq_iff {c d : Char} (hd : d.isAlpha = false) : c.toLower = d ↔ c = d := by
  rcases toLower_eq_or c with hsame | ⟨hc, hlower⟩
  · rw [hsame]
  · constructor
    · intro h
      rw [h, hd] at hlower
      cases hlower
    · intro h
      rw [h, hd] at hc
      cases hc

theorem isNameChar_toLower (c : Char) : Scan.isNameChar c.toLower = Scan.isNameChar c := by
  rcases toLower_eq_or c with hsame | ⟨hc, hlower⟩
  · rw [hsame]
  · simp [Scan.isNameChar, Char.isAlphanum, hc, hlower]

theorem dropWhile_map_toLower (chars : List Char) :
    (chars.map Char.toLower).dropWhile Scan.isNameChar =
      (chars.dropWhile Scan.isNameChar).map Char.toLower := by
  have hmember : Scan.isNameChar ∘ Char.toLower = Scan.isNameChar := funext isNameChar_toLower
  rw [List.dropWhile_map, hmember]

/-!
# Spellings tried in turn

A spelling that has been passed over must not be taken for the beginning of what
the later one was read from.
-/

section

variable {word longer : List Char}

/-- A text whose beginning spells one word begins with another one only if one of the two words is
the beginning of the other. -/
theorem begins_of_begins (hspelling : taken.map Char.toLower = word)
    (h : longer <+: (taken ++ rest).map Char.toLower) (hbegins : ¬ longer <+: word) :
    word <+: longer := by
  have hword : word <+: (taken ++ rest).map Char.toLower := by
    rw [List.map_append, hspelling]
    exact List.prefix_append _ _
  rcases List.prefix_or_prefix_of_prefix h hword with h | h
  · exact absurd h hbegins
  · exact h

theorem next_of_begins {next : Char} (hnext : next.isAlpha = false)
    (hspelling : taken.map Char.toLower = word)
    (h : word ++ [next] <+: (taken ++ rest).map Char.toLower) : next ∈ rest.head? := by
  rw [List.map_append, hspelling, List.prefix_append_right_inj] at h
  cases rest with
  | nil => exact absurd (List.prefix_nil.mp h) (List.cons_ne_nil next [])
  | cons c more =>
      rw [List.map_cons, List.cons_prefix_cons] at h
      rw [← (toLower_eq_iff hnext).mp h.1.symm]
      rfl

end

/-!
# Axis marks
-/

/-- Among the marks only the point is the beginning of another one, which comes earlier. -/
theorem pairwise_marks :
    AxisMark.all.Pairwise fun earlier later =>
      ¬ earlier.spelling.toList <+: later.spelling.toList ∧
        (later.spelling.toList <+: earlier.spelling.toList →
          later = .dot ∧ earlier.spelling.toList = later.spelling.toList ++ ['.']) := by
  decide +kernel

theorem mark_spelling_cases :
    ∀ mark ∈ AxisMark.all,
      (mark.spelling.toList.dropWhile Scan.isNameChar).head? = some ':' ∨
        mark.spelling.toList.head? = some '/' ∨ mark.spelling.toList.head? = some '.' := by
  decide +kernel

theorem ignoringCase_begins {word : List Char}
    (h : Scan.ignoringCase word input = some (taken, rest)) : word <+: input.map Char.toLower := by
  rcases Scan.ignoringCase_eq_some_iff.mp h with ⟨rfl, rfl⟩
  rw [List.map_append]
  exact List.prefix_append _ _

variable (arithmetic) in
theorem covers_of_reads_axisMark {mark : AxisMark} (h : Reads axisMark input (mark, t) rest) :
    (∃ text, t = .leaf (.axis mark) text) ∧ t.Covers arithmetic input rest := by
  unfold Reads axisMark at h
  split at h
  · rename_i found taken left hfound
    cases h
    rcases List.findSome?_eq_some_iff.mp hfound with ⟨before, mark', after, _, hmark, _⟩
    rcases Option.map_eq_some_iff.mp hmark with ⟨split, hsplit, hpair⟩
    cases hpair
    rcases Scan.ignoringCase_eq_some_iff.mp hsplit with ⟨hspelling, hinput⟩
    exact ⟨⟨_, rfl⟩, covers_leafOf.mpr ⟨hinput, hspelling, fun _ _ h => h⟩⟩
  · cases h

theorem reads_axisMark {mark : AxisMark} {text : String}
    (h : (Token.leaf (.axis mark) text).Covers arithmetic input rest)
    (hdot : mark = .dot → ∀ c ∈ rest.head?, c ≠ '.') :
    Reads axisMark input (mark, .leaf (.axis mark) text) rest := by
  rcases covers_leaf.mp h with ⟨rfl, hspells, _⟩
  have hspelling : text.toList.map Char.toLower = mark.spelling.toList := hspells
  rcases List.append_of_mem mark.mem_all with ⟨before, after, hall⟩
  have hearlier : ∀ e ∈ before,
      Scan.ignoringCase e.spelling.toList (text.toList ++ rest) = none := by
    intro e he
    rw [Option.eq_none_iff_forall_ne_some]
    intro found hfound
    have hpair := pairwise_marks
    rw [hall, List.pairwise_append] at hpair
    rcases hpair.2.2 e he mark List.mem_cons_self with ⟨hbegins, hlonger⟩
    have he' := ignoringCase_begins hfound
    rcases hlonger (begins_of_begins hspelling he' hbegins) with ⟨hmark, hadded⟩
    rw [hadded] at he'
    exact hdot hmark '.' (next_of_begins rfl hspelling he') rfl
  have hfound : findMark AxisMark.all (text.toList ++ rest) = some (mark, text.toList, rest) := by
    refine List.findSome?_eq_some_iff.mpr ⟨before, mark, after, hall, ?_, ?_⟩
    · rw [Scan.ignoringCase_eq_some_iff.mpr ⟨hspelling, rfl⟩]
      rfl
    · intro e he
      rw [hearlier e he]
      rfl
  unfold Reads axisMark
  rw [hfound]
  simp only
  rw [leaf_eq_leafOf]

theorem misses_axisMark (hhead : ∀ c ∈ input.head?, c ≠ '/' ∧ c ≠ '.')
    (hcolon : ∀ c ∈ (input.dropWhile Scan.isNameChar).head?, c ≠ ':') :
    Misses axisMark input := by
  -- A name is no mark as long as no colon follows it.
  have hfound : findMark AxisMark.all input = none := by
    rw [findMark, List.findSome?_eq_none_iff]
    intro mark hmark
    rw [Option.map_eq_none_iff, Option.eq_none_iff_forall_ne_some]
    intro found hfound
    rcases ignoringCase_begins hfound with ⟨left, hleft⟩
    rcases mark_spelling_cases mark hmark with h | h
    · rcases List.head?_eq_some_iff.mp h with ⟨colons, hspelling⟩
      have hdrop := dropWhile_map_toLower input
      rw [← hleft, List.dropWhile_append, hspelling] at hdrop
      have hfirst : ((input.dropWhile Scan.isNameChar).map Char.toLower).head? = some ':' := by
        rw [← hdrop]
        rfl
      rw [List.head?_map] at hfirst
      rcases Option.map_eq_some_iff.mp hfirst with ⟨c, hc, hlower⟩
      exact hcolon c hc ((toLower_eq_iff (by decide)).mp hlower)
    · have hfirst : input.head?.map Char.toLower = mark.spelling.toList.head? := by
        rw [← List.head?_map, ← hleft, List.head?_append]
        rcases h with h | h
        · rw [h]
          rfl
        · rw [h]
          rfl
      rcases h with h | h
      · rcases Option.map_eq_some_iff.mp (hfirst.trans h) with ⟨c, hc, hlower⟩
        exact (hhead c hc).1 ((toLower_eq_iff (by decide)).mp hlower)
      · rcases Option.map_eq_some_iff.mp (hfirst.trans h) with ⟨c, hc, hlower⟩
        exact (hhead c hc).2 ((toLower_eq_iff (by decide)).mp hlower)
  unfold Misses axisMark
  rw [hfound]
  rfl

/-!
# Operators
-/

theorem pairwise_operators :
    ∀ choices ∈ levels, choices.Pairwise fun earlier later =>
      ¬ earlier.spelling.toList <+: later.spelling.toList ∧
        (later.spelling.toList <+: earlier.spelling.toList →
          earlier.spelling.toList = later.spelling.toList ++ ['=']) := by
  -- Where one operator of a level is the beginning of another, the longer one comes earlier and is
  -- the shorter one with an equals sign.
  decide +kernel

theorem lower_spelling (op : Operator) :
    op.spelling.toList.map Char.toLower = op.spelling.toList := by
  cases op <;> decide

theorem Spells.lower {op : Operator}
    (h : (Lexeme.symbol (.operator op)).Spells arithmetic taken) :
    taken.map Char.toLower = op.spelling.toList := by
  simp only [Lexeme.Spells] at h
  split at h
  · exact h
  · rw [h, lower_spelling]

theorem operator_begins {op : Operator} (h : Scan.operator op input = some (taken, rest)) :
    op.spelling.toList <+: input.map Char.toLower := by
  rcases (Scan.operator_eq_some_iff .standard).mp h with ⟨rfl, hspells, _⟩
  rw [List.map_append, Spells.lower hspells]
  exact List.prefix_append _ _

variable (arithmetic) in
theorem covers_of_reads_operator {choices : List Operator} {op : Operator}
    (h : Reads (operator choices) input (op, t) rest) :
    op ∈ choices ∧ (∃ text, t = .leaf (.symbol (.operator op)) text) ∧
      t.Covers arithmetic input rest := by
  unfold Reads operator at h
  split at h
  · rename_i found taken left hfound
    cases h
    rcases List.findSome?_eq_some_iff.mp hfound with ⟨before, op', after, hall, hop, _⟩
    rcases Option.map_eq_some_iff.mp hop with ⟨split, hsplit, hpair⟩
    cases hpair
    refine ⟨?_, ⟨_, rfl⟩, covers_leafOf.mpr ((Scan.operator_eq_some_iff arithmetic).mp hsplit)⟩
    rw [hall]
    exact List.mem_append_right _ List.mem_cons_self
  · cases h

theorem reads_operator {choices : List Operator} (hchoices : choices ∈ levels) {op : Operator}
    (hop : op ∈ choices) {text : String}
    (h : (Token.leaf (.symbol (.operator op)) text).Covers arithmetic input rest)
    (hequal : ∀ c ∈ rest.head?, c ≠ '=') :
    Reads (operator choices) input (op, .leaf (.symbol (.operator op)) text) rest := by
  rcases covers_leaf.mp h with ⟨rfl, hspells, hstop⟩
  rcases List.append_of_mem hop with ⟨before, after, hall⟩
  have hearlier : ∀ e ∈ before, Scan.operator e (text.toList ++ rest) = none := by
    intro e he
    rw [Option.eq_none_iff_forall_ne_some]
    intro found hfound
    have hpair := pairwise_operators choices hchoices
    rw [hall, List.pairwise_append] at hpair
    rcases hpair.2.2 e he op List.mem_cons_self with ⟨hbegins, hlonger⟩
    have hspelling := Spells.lower hspells
    have he' := operator_begins hfound
    rw [hlonger (begins_of_begins hspelling he' hbegins)] at he'
    exact hequal '=' (next_of_begins rfl hspelling he') rfl
  have hfound : findOperator choices (text.toList ++ rest) = some (op, text.toList, rest) := by
    refine List.findSome?_eq_some_iff.mpr ⟨before, op, after, hall, ?_, ?_⟩
    · rw [(Scan.operator_eq_some_iff arithmetic).mpr ⟨rfl, hspells, hstop⟩]
      rfl
    · intro e he
      rw [hearlier e he]
      rfl
  unfold Reads operator
  rw [hfound]
  simp only
  rw [leaf_eq_leafOf]

theorem misses_operator {choices : List Operator}
    (h : ∀ op ∈ choices, Scan.operator op input = none) : Misses (operator choices) input := by
  have hfound : findOperator choices input = none := by
    rw [findOperator, List.findSome?_eq_none_iff]
    intro op hop
    rw [h op hop]
    rfl
  unfold Misses operator
  rw [hfound]
  rfl

end Grammar
end TreeQuery
