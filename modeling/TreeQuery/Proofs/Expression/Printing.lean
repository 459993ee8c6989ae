import TreeQuery.Chain.Compile
import TreeQuery.Proofs.Numeric.Written
import TreeQuery.Proofs.Parser.Completeness

/-!
# Tokens for expressions

The text of an expression has parentheses where the levels of the grammar need
them.  So there is a token of the grammar that covers it, alone or between the
brackets of a predicate, and what that token stands for is the expression itself.
-/

namespace TreeQuery

instance : ∀ chars : List Char, Decidable (Lexeme.IsName chars)
  | [] => inferInstanceAs (Decidable False)
  | c :: rest =>
      decidable_of_iff (Scan.isNameStart c = true ∧ rest.all Scan.isNameChar = true)
        (and_congr_right' List.all_eq_true)

namespace Expression

/-!
# What can be written
-/

mutual

/-- Names are those of the grammar, texts leave one of the quotes for their ends, and numbers are
decimals without a sign that the context keeps. -/
def Printable (context : DecimalContext) : Expression → Prop
  | .number (.decimal d) => 0 ≤ d.signed ∧ context.Keeps d.coefficient
  | .number (.double _) => False
  | .text t => '\'' ∉ t.toList ∨ '"' ∉ t.toList
  | .attr name => Lexeme.IsName name.toList
  | .call name args => Lexeme.IsName name.toList ∧ PrintableAll context args
  | .binary left _ right => Printable context left ∧ Printable context right
  | .negate inner => Printable context inner

def PrintableAll (context : DecimalContext) : List Expression → Prop
  | [] => True
  | e :: es => Printable context e ∧ PrintableAll context es

end

mutual

/-- How many parentheses and minus signs of the text stand inside one another.  Those of a call
count even if there is nothing between them. -/
def nesting : Expression → Nat
  | .number _ | .text _ | .attr _ => 0
  | .call _ args => 1 + nestingAll args
  | .binary left op right =>
      max (nesting left + if left.strength < op.strength then 1 else 0)
        (nesting right + if right.strength ≤ op.strength then 1 else 0)
  | .negate inner => 1 + (nesting inner + if inner.isBinary then 1 else 0)

def nestingAll : List Expression → Nat
  | [] => 0
  | e :: es => max (nesting e) (nestingAll es)

end

mutual

def Filled : Expression → Prop
  | .number _ | .text _ | .attr _ => True
  | .call _ args => args ≠ [] ∧ FilledAll args
  | .binary left _ right => Filled left ∧ Filled right
  | .negate inner => Filled inner

def FilledAll : List Expression → Prop
  | [] => True
  | e :: es => Filled e ∧ FilledAll es

end

mutual

/-- The expression with its decimals in normal form, which is how they are written. -/
def trimmed : Expression → Expression
  | .number (.decimal d) => .number (.decimal d.normalize)
  | .number (.double x) => .number (.double x)
  | .text t => .text t
  | .attr name => .attr name
  | .call name args => .call name (trimmedAll args)
  | .binary left op right => .binary (trimmed left) op (trimmed right)
  | .negate inner => .negate (trimmed inner)

def trimmedAll : List Expression → List Expression
  | [] => []
  | e :: es => trimmed e :: trimmedAll es

end

mutual

theorem same_trimmed {context : DecimalContext} : ∀ {e : Expression}, e.Printable context →
    e.trimmed.same e = true
  | .number (.decimal d), _ => d.normalize_beq
  | .number (.double _), h => h.elim
  | .text t, _ => beq_self_eq_true t
  | .attr name, _ => beq_self_eq_true name
  | .call name _, h =>
      Bool.and_eq_true_iff.mpr ⟨beq_self_eq_true name, sameAll_trimmedAll h.2⟩
  | .binary _ op _, h =>
      Bool.and_eq_true_iff.mpr ⟨Bool.and_eq_true_iff.mpr ⟨beq_self_eq_true op, same_trimmed h.1⟩,
        same_trimmed h.2⟩
  | .negate inner, h =>
      have hinner : inner.Printable context := h
      show inner.trimmed.same inner = true from same_trimmed hinner

theorem sameAll_trimmedAll {context : DecimalContext} : ∀ {es : List Expression},
    PrintableAll context es → sameAll (trimmedAll es) es = true
  | [], _ => rfl
  | _ :: _, h => Bool.and_eq_true_iff.mpr ⟨same_trimmed h.1, sameAll_trimmedAll h.2⟩

end

theorem strength_pos (e : Expression) : 0 < e.strength := by
  cases e with
  | binary left op right =>
      show 0 < op.strength
      cases op <;> decide
  | _ => exact Nat.zero_lt_succ 5

theorem charsAll_cons (e : Expression) (es : List Expression) :
    charsAll (e :: es) = e.chars ++ es.flatMap fun x => ',' :: ' ' :: x.chars := by
  induction es generalizing e with
  | nil => simp [charsAll]
  | cons x es ih => simp [charsAll, ih x]

end Expression

namespace Token

/-!
# Operands of phrases
-/

theorem operandExpressions_of_operand {t : Token} (ht : t.isOperand = true) (ts : List Token) :
    operandExpressions (t :: ts) = t.toExpression :: operandExpressions ts := by
  rw [operandExpressions, if_pos ht]

theorem operandExpressions_of_symbol (s : Symbol) (text : String) (ts : List Token) :
    operandExpressions (.leaf (.symbol s) text :: ts) = operandExpressions ts := by
  rw [operandExpressions]
  rfl

theorem operandExpressions_of_blank (text : String) (ts : List Token) :
    operandExpressions (.leaf .blank text :: ts) = operandExpressions ts := by
  rw [operandExpressions]
  rfl

theorem IsExpression.isOperand {rank : Nat} {t : Token} (h : IsExpression rank t) :
    t.isOperand = true := by
  induction h with
  | tighter _ ih => exact ih
  | _ => rfl

theorem IsExpression.mono {rank rank' : Nat} {t : Token} (h : IsExpression rank t)
    (hrank : rank ≤ rank') : IsExpression rank' t := by
  induction hrank with
  | refl => exact h
  | step _ ih => exact .tighter ih

theorem covers_symbol (arithmetic : Arithmetic) {s : Symbol} (hs : s.isClosed = true)
    (rest : List Char) : (symbol s).Covers arithmetic (s.spelling.toList ++ rest) rest :=
  covers_leaf.mpr ⟨rfl, (Grammar.spells_symbol hs).mpr rfl,
    fun c _ => Grammar.not_extends_symbol hs c⟩

theorem covers_space (arithmetic : Arithmetic) (rest : List Char) :
    (blank " ").Covers arithmetic (' ' :: rest) rest := by
  have hspace : ∀ c ∈ [' '], Scan.isSpace c = true := by
    simp [Scan.isSpace]
  exact covers_leaf.mpr ⟨rfl, ⟨List.cons_ne_nil ' ' [], hspace⟩, fun _ _ => id⟩

/-!
# Tokens that stand for an expression
-/

def Stops (rest : List Char) : Prop :=
  ∀ c ∈ rest.head?, Scan.isNameChar c = false

theorem stops_cons {c : Char} (hc : Scan.isNameChar c = false) (rest : List Char) :
    Stops (c :: rest) := by
  rintro _ ⟨⟩
  exact hc

/-- A token of some rank that covers certain characters and stands for an expression, with its
numbers as they are written. -/
structure Writes (arithmetic : Arithmetic) (rank : Nat) (chars : List Char) (depth : Nat)
    (e : Expression) (t : Token) : Prop where
  form : IsExpression rank t
  covers : ∀ {rest}, Stops rest → t.Covers arithmetic (chars ++ rest) rest
  nesting : t.nesting = depth
  levels : e.Filled → t.levels = t.nesting
  meaning : t.toExpression = .ok e.trimmed

variable {arithmetic : Arithmetic} {rank : Nat} {chars : List Char} {depth : Nat}
  {e : Expression} {t : Token}

theorem Writes.mono {rank' : Nat} (h : Writes arithmetic rank chars depth e t)
    (hrank : rank ≤ rank') : Writes arithmetic rank' chars depth e t :=
  { h with form := h.form.mono hrank }

theorem Writes.chars_eq (h : Writes arithmetic rank chars depth e t) : t.chars = chars := by
  have hstops : Stops [] := nofun
  rcases h.covers hstops with ⟨hinput, _⟩
  rw [List.append_nil, List.append_nil] at hinput
  exact hinput.symm

def grouped (t : Token) : Token :=
  .phrase .group [symbol .openParen, t, symbol .closeParen]

theorem Writes.grouped (h : Writes arithmetic 5 chars depth e t) :
    Writes arithmetic 0 ('(' :: (chars ++ [')'])) (depth + 1) e t.grouped where
  form := IsExpression.group .none h.form .none
  covers {rest} _ := by
    have hclose := covers_symbol arithmetic (s := .closeParen) rfl rest
    have hinner := h.covers (stops_cons (by decide) rest : Stops (')' :: rest))
    have hopen := covers_symbol arithmetic (s := .openParen) rfl (chars ++ ')' :: rest)
    rw [List.cons_append, List.append_assoc]
    exact covers_phrase.mpr (hopen.cons (hinner.cons hclose.single))
  nesting := by
    show (Token.phrase .group (leaf _ _ :: [] ++ t :: [] ++ [leaf _ _])).nesting = _
    rw [nesting_enclosed rfl .none .none, h.nesting, Nat.add_comm]
  levels hfilled := by
    refine levels_phrase rfl ?_
    simp [symbol, levelsAll, nestingAll, Token.levels, Token.nesting, h.levels hfilled]
  meaning := by
    rw [Token.grouped, toExpression, symbol, operandExpressions_of_symbol,
      operandExpressions_of_operand h.form.isOperand]
    exact h.meaning

theorem Writes.inParens {e : Expression} {needed : Bool}
    (h : Writes arithmetic (6 - e.strength) e.chars e.nesting e t)
    (hrank : needed = false → 6 - e.strength ≤ rank) :
    ∃ t', Writes arithmetic rank (Expression.inParens needed e.chars)
      (e.nesting + if needed then 1 else 0) e t' := by
  cases needed with
  | false => exact ⟨t, h.mono (hrank rfl)⟩
  | true =>
      have hstrength := e.strength_pos
      exact ⟨t.grouped, ((h.mono (by omega)).grouped).mono (Nat.zero_le rank)⟩

/-!
# A token for every form of expressions
-/

section

variable {context : DecimalContext} {rest : List Char}

theorem isNameChar_of_isDigit {c : Char} (h : Literal.isDigit c = true) :
    Scan.isNameChar c = true := by
  have hdigit : c.isDigit = true := h
  unfold Scan.isNameChar Char.isAlphanum
  rw [hdigit, Bool.or_true]
  rfl

theorem not_extends_name {name : List Char} (h : Lexeme.IsName name) (hrest : Stops rest) :
    ∀ c ∈ rest.head?, ¬ Lexeme.IsName (name ++ [c]) := by
  intro c hc hmore
  rw [Scan.isName_append_iff h, hrest c hc] at hmore
  cases hmore

theorem not_extends_number {digits : List Char} (h : Lexeme.IsNumber digits) (hrest : Stops rest) :
    ∀ c ∈ rest.head?, ¬ Lexeme.IsNumber (digits ++ [c]) := by
  intro c hc hmore
  have hstop := hrest c hc
  rcases (Scan.isNumber_append_iff h).mp hmore with hdigit | ⟨rfl, _⟩
  · rw [isNameChar_of_isDigit hdigit] at hstop
    cases hstop
  · cases hstop

theorem covers_name (arithmetic : Arithmetic) {name : String} (h : Lexeme.IsName name.toList)
    (hrest : Stops rest) :
    (Token.name name).Covers arithmetic (name.toList ++ rest) rest :=
  covers_leaf.mpr ⟨rfl, ⟨h, String.ofList_toList.symm⟩, not_extends_name h hrest⟩

theorem isNumber_digitsText (d : Decimal) : Lexeme.IsNumber d.digitsText := by
  have hdigits : ∀ c ∈ d.wholeText ++ d.fractionText, Literal.isDigit c = true := by
    intro c hc
    rcases List.mem_append.mp hc with hwhole | hfraction
    · exact Decimal.isDigit_of_mem_wholeText hwhole
    · exact Decimal.isDigit_of_mem_fractionText hfraction
  rw [Decimal.digitsText_eq]
  by_cases hscale : d.scale = 0
  · rw [if_pos hscale, List.append_nil]
    exact (Scan.isNumber_digits d.wholeText_ne_nil
      fun c hc => hdigits c (List.mem_append_left _ hc)).1
  · rw [if_neg hscale]
    exact (Scan.isNumber_pointed (List.append_ne_nil_of_left_ne_nil d.wholeText_ne_nil _)
      hdigits).1

theorem isNumber_text {d : Decimal} (h : 0 ≤ d.signed) :
    Lexeme.IsNumber (Number.text (.decimal d)).toList := by
  have hnegative : d.normalize.negative = false := by
    unfold Decimal.signed at h
    show (d.negative && d.coefficient != 0) = false
    cases hd : d.negative with
    | false => rfl
    | true =>
        rw [hd, if_pos rfl] at h
        have hzero : d.coefficient = 0 := by
          omega
        rw [hzero]
        rfl
  show Lexeme.IsNumber (String.ofList _).toList
  rw [String.toList_ofList, hnegative]
  exact isNumber_digitsText d.normalize

theorem writes_number {d : Decimal} (hsign : 0 ≤ d.signed) (hkeeps : context.Keeps d.coefficient) :
    ∃ t, Writes ⟨.decimal, context⟩ 0 (Expression.number (.decimal d)).chars 0
      (.number (.decimal d)) t := by
  have hnumber := isNumber_text hsign
  refine ⟨.number (.decimal d.normalize) (Number.text (.decimal d)), .number, ?_, rfl,
    fun _ => rfl, ?_⟩
  · intro rest hrest
    refine covers_leaf.mpr ⟨rfl, ⟨hnumber, ?_⟩, not_extends_number hnumber hrest⟩
    rw [String.ofList_toList]
    exact Number.parse_text hkeeps
  · rw [Token.number, toExpression, Expression.trimmed]

theorem writes_text {value : String} (h : '\'' ∉ value.toList ∨ '"' ∉ value.toList) :
    ∃ t, Writes arithmetic 0 (Expression.text value).chars 0 (.text value) t := by
  rw [Expression.chars]
  refine ⟨.leaf (.text value) (String.ofList (Expression.quotedChars value.toList)), .text, ?_, rfl,
    fun _ => rfl, ?_⟩
  · intro rest _
    rw [covers_leaf, String.toList_ofList]
    refine ⟨rfl, ?_, fun _ _ => id⟩
    unfold Expression.quotedChars
    split
    · rename_i hsingle
      exact ⟨'"', Or.inr rfl, h.resolve_left (by simpa using hsingle), rfl⟩
    · rename_i hsingle
      exact ⟨'\'', Or.inl rfl, by simpa using hsingle, rfl⟩
  · rw [toExpression, Expression.trimmed]

theorem writes_attr {name : String} (h : Lexeme.IsName name.toList) :
    ∃ t, Writes arithmetic 0 (Expression.attr name).chars 0 (.attr name) t := by
  rw [Expression.chars]
  refine ⟨.phrase .attribution [symbol .at, Token.name name], .attribution, ?_, rfl,
    fun _ => rfl, ?_⟩
  · intro rest hrest
    have hsign := covers_symbol arithmetic (s := .at) rfl (name.toList ++ rest)
    exact covers_phrase.mpr (hsign.cons (covers_name arithmetic h hrest).single)
  · rw [toExpression, Expression.trimmed]
    rfl

def negated (t : Token) : Token :=
  .phrase .negation [symbol (.operator .subtract), t]

theorem Writes.negated (h : Writes arithmetic 0 chars depth e t) :
    Writes arithmetic 0 ('-' :: chars) (1 + depth) e.negate t.negated where
  form := .negation .none h.form
  covers {rest} hrest := by
    have hsign := covers_symbol arithmetic (s := .operator .subtract) rfl (chars ++ rest)
    exact covers_phrase.mpr (hsign.cons (h.covers hrest).single)
  nesting := by
    rw [← h.nesting]
    exact nesting_negation .none
  levels hfilled := by
    have hinner : e.Filled := hfilled
    refine levels_phrase rfl ?_
    simp [symbol, levelsAll, nestingAll, Token.levels, Token.nesting, h.levels hinner]
  meaning := by
    rw [Token.negated, toExpression, symbol, operandExpressions_of_symbol,
      operandExpressions_of_operand h.form.isOperand, Expression.trimmed]
    show t.toExpression.bind _ = _
    rw [h.meaning]
    rfl

theorem writes_negate {inner : Expression}
    (h : Writes arithmetic (6 - inner.strength) inner.chars inner.nesting inner t) :
    ∃ t', Writes arithmetic 0 inner.negate.chars inner.negate.nesting inner.negate t' := by
  have hrank : inner.isBinary = false → 6 - inner.strength ≤ 0 := by
    cases inner with
    | binary left op right => exact nofun
    | _ => exact fun _ => Nat.le_refl 0
  rcases h.inParens hrank with ⟨t', ht'⟩
  rw [Expression.chars, Expression.nesting]
  exact ⟨t'.negated, ht'.negated⟩

theorem covers_operator (arithmetic : Arithmetic) (op : Operator) (rest : List Char) :
    (symbol (.operator op)).Covers arithmetic (op.spelling.toList ++ ' ' :: rest)
      (' ' :: rest) := by
  refine covers_leaf.mpr ⟨rfl, ?_, ?_⟩
  · cases op <;> rfl
  · rintro c ⟨⟩ hextends
    exact absurd hextends.2 (by decide)

theorem writes_binary {left right : Expression} {op : Operator} {t t' : Token}
    (hleft : Writes arithmetic (6 - left.strength) left.chars left.nesting left t)
    (hright : Writes arithmetic (6 - right.strength) right.chars right.nesting right t') :
    ∃ t'', Writes arithmetic (6 - op.strength) (Expression.binary left op right).chars
      (Expression.binary left op right).nesting (.binary left op right) t'' := by
  have hstrength : 0 < op.strength ∧ op.strength ≤ 5 := by
    cases op <;> decide
  have hleftRank : decide (left.strength < op.strength) = false →
      6 - left.strength ≤ 5 - op.strength + 1 := by
    intro h
    rw [decide_eq_false_iff_not] at h
    omega
  have hrightRank : decide (right.strength ≤ op.strength) = false →
      6 - right.strength ≤ 5 - op.strength := by
    intro h
    rw [decide_eq_false_iff_not] at h
    omega
  rcases hleft.inParens hleftRank with ⟨l, hl⟩
  rcases hright.inParens hrightRank with ⟨r, hr⟩
  rw [show 6 - op.strength = 5 - op.strength + 1 by omega, Expression.chars, Expression.nesting]
  refine ⟨.phrase (.binary op) [l, blank " ", symbol (.operator op), blank " ", r], ?_, ?_, ?_, ?_,
    ?_⟩
  · exact .binary (by omega) hl.form .blank .blank hr.form
  · intro rest hrest
    rw [List.append_assoc, List.cons_append, List.append_assoc, List.cons_append]
    have hright := (covers_space arithmetic _).cons (hr.covers hrest).single
    have hsign := (covers_operator arithmetic op _).cons hright
    exact covers_phrase.mpr ((hl.covers (stops_cons (by decide) _)).cons
      ((covers_space arithmetic _).cons hsign))
  · refine (nesting_binary .blank .blank).trans ?_
    rw [hl.nesting, hr.nesting]
    simp only [decide_eq_true_eq]
  · intro hfilled
    refine levels_phrase rfl ?_
    simp [symbol, blank, levelsAll, nestingAll, levels, nesting, hl.levels hfilled.1,
      hr.levels hfilled.2]
  · rw [toExpression, operandExpressions_of_operand hl.form.isOperand, blank,
      operandExpressions_of_blank, symbol, operandExpressions_of_symbol,
      operandExpressions_of_blank, operandExpressions_of_operand hr.form.isOperand, hl.meaning,
      hr.meaning, Expression.trimmed]
    rfl

inductive WritesAll (arithmetic : Arithmetic) : List Expression → List Token → Prop where
  | nil : WritesAll arithmetic [] []
  | cons {e : Expression} {es : List Expression} {t : Token} {ts : List Token}
      (h : Writes arithmetic (6 - e.strength) e.chars e.nesting e t)
      (hes : WritesAll arithmetic es ts) : WritesAll arithmetic (e :: es) (t :: ts)

def further (t : Token) : FurtherArgument :=
  ⟨[], Symbol.comma.spelling, [blank " "], t⟩

theorem stops_furtherArguments (es : List Expression) (rest : List Char) :
    Stops ((es.flatMap fun x => ',' :: ' ' :: x.chars) ++ ')' :: rest) := by
  cases es with
  | nil => exact stops_cons (by decide) rest
  | cons => exact stops_cons (by decide) _

theorem nestingAll_further (ts : List Token) :
    nestingAll ((ts.map further).flatMap FurtherArgument.parts) = nestingAll ts := by
  induction ts with
  | nil => rfl
  | cons t ts ih =>
      rw [List.map_cons, List.flatMap_cons, nestingAll_append, ih, nestingAll]
      show max (nestingAll [leaf _ _, leaf _ _, t]) _ = _
      simp [nestingAll, Token.nesting]

theorem levelsAll_further (ts : List Token) :
    levelsAll ((ts.map further).flatMap FurtherArgument.parts) = levelsAll ts := by
  induction ts with
  | nil => rfl
  | cons t ts ih =>
      rw [List.map_cons, List.flatMap_cons, levelsAll_append, ih, levelsAll]
      show max (levelsAll [leaf _ _, leaf _ _, t]) _ = _
      simp [levelsAll, Token.levels]

namespace WritesAll

variable {es : List Expression} {ts : List Token}

theorem form (h : WritesAll arithmetic es ts) : ∀ t ∈ ts, IsExpression 5 t := by
  induction h with
  | nil => exact nofun
  | @cons e _ _ _ h _ ih =>
      have hstrength := e.strength_pos
      exact List.forall_mem_cons.mpr ⟨h.form.mono (by omega), ih⟩

theorem nesting (h : WritesAll arithmetic es ts) : nestingAll ts = Expression.nestingAll es := by
  induction h with
  | nil => rfl
  | cons h _ ih => rw [nestingAll, Expression.nestingAll, h.nesting, ih]

theorem levels (h : WritesAll arithmetic es ts) (hfilled : Expression.FilledAll es) :
    levelsAll ts = nestingAll ts := by
  induction h with
  | nil => rfl
  | cons h _ ih => rw [levelsAll, nestingAll, h.levels hfilled.1, ih hfilled.2]

theorem covers (h : WritesAll arithmetic es ts) (rest : List Char) :
    CoverAll arithmetic ((ts.map further).flatMap FurtherArgument.parts)
      ((es.flatMap fun x => ',' :: ' ' :: x.chars) ++ ')' :: rest) (')' :: rest) := by
  induction h with
  | nil => exact coverAll_nil.mpr rfl
  | @cons e es t ts h _ ih =>
      rw [List.map_cons, List.flatMap_cons, List.flatMap_cons, List.append_assoc]
      have hcomma := covers_symbol arithmetic (s := .comma) rfl
      have hvalue := h.covers (stops_furtherArguments es rest)
      exact CoverAll.append ((hcomma _).cons ((covers_space arithmetic _).cons hvalue.single)) ih

theorem operands (h : WritesAll arithmetic es ts) (more : List Token) :
    operandExpressions ((ts.map further).flatMap FurtherArgument.parts ++ more) =
      ts.map toExpression ++ operandExpressions more := by
  induction h with
  | nil => rfl
  | @cons _ _ t ts h _ ih =>
      rw [List.map_cons, List.flatMap_cons, List.append_assoc, List.map_cons, List.cons_append,
        ← ih]
      show operandExpressions (leaf _ _ :: leaf _ _ :: t ::
        ((ts.map further).flatMap FurtherArgument.parts ++ more)) = _
      rw [operandExpressions_of_symbol, operandExpressions_of_blank,
        operandExpressions_of_operand h.form.isOperand]

theorem meaning (h : WritesAll arithmetic es ts) :
    (ts.map toExpression).mapM id = .ok (Expression.trimmedAll es) := by
  induction h with
  | nil => rfl
  | cons h _ ih =>
      rw [List.map_cons, List.mapM_cons, h.meaning, ih, Expression.trimmedAll]
      rfl

end WritesAll

def bareCall (name : String) : Token :=
  .phrase .call [Token.name name, symbol .openParen, symbol .closeParen]

theorem writes_bareCall {name : String} (hname : Lexeme.IsName name.toList) :
    Writes arithmetic 0 (Expression.call name []).chars (Expression.call name []).nesting
      (.call name []) (bareCall name) where
  form := .bareCall .none .none
  covers {rest} _ := by
    have hfunction := covers_name arithmetic hname
      (stops_cons (by decide) (')' :: rest) : Stops ('(' :: ')' :: rest))
    have hopen := covers_symbol arithmetic (s := .openParen) rfl (')' :: rest)
    have hclose := covers_symbol arithmetic (s := .closeParen) rfl rest
    rw [Expression.chars, List.append_assoc]
    exact covers_phrase.mpr (hfunction.cons (hopen.cons hclose.single))
  nesting := rfl
  levels hfilled := absurd rfl hfilled.1
  meaning := by
    rw [bareCall, toExpression, Expression.trimmed]
    rfl

theorem writes_call {name : String} {es : List Expression} {ts : List Token}
    (hname : Lexeme.IsName name.toList) (h : WritesAll arithmetic es ts) :
    ∃ t, Writes arithmetic 0 (Expression.call name es).chars (Expression.call name es).nesting
      (.call name es) t := by
  rw [Expression.chars, Expression.nesting]
  have hfunction : ∀ rest, (Token.name name).Covers arithmetic (name.toList ++ '(' :: rest)
      ('(' :: rest) :=
    fun rest => covers_name arithmetic hname (stops_cons (by decide) rest)
  have hopen := covers_symbol arithmetic (s := .openParen) rfl
  have hclose := covers_symbol arithmetic (s := .closeParen) rfl
  cases h with
  | nil => exact ⟨_, writes_bareCall hname⟩
  | @cons e es t ts h hes =>
      have hforms := (WritesAll.cons h hes).form
      have hcall : IsExpression 0 (.phrase .call (Token.name name :: [] ++
          symbol .openParen :: [] ++ (t :: (ts.map further).flatMap FurtherArgument.parts ++ []) ++
          [symbol .closeParen])) := by
        refine .call .none .none (hforms t List.mem_cons_self) ?_ ?_ .none
        · intro x hx
          rcases List.mem_map.mp hx with ⟨_, _, rfl⟩
          exact ⟨.none, .blank⟩
        · intro x hx
          rcases List.mem_map.mp hx with ⟨t', ht', rfl⟩
          exact hforms t' (List.mem_cons_of_mem t ht')
      rw [List.append_nil] at hcall
      refine ⟨_, hcall, ?_, ?_, ?_, ?_⟩
      · intro rest _
        rw [Expression.charsAll_cons]
        simp only [List.append_assoc, List.cons_append, List.nil_append]
        have hfirst := h.covers (stops_furtherArguments es rest)
        have harguments := (hfirst.cons (hes.covers rest)).append (hclose rest).single
        exact covers_phrase.mpr ((hfunction _).cons ((hopen _).cons harguments))
      · refine (nesting_call .none .none).trans ?_
        rw [nestingAll, nestingAll_further, h.nesting, hes.nesting, Expression.nestingAll]
      · intro hfilled
        refine levels_phrase (isBareCall_of_operand rfl (by simp) h.form.isOperand) ?_
        have hrow := (WritesAll.cons h hes).levels hfilled.2
        rw [levelsAll, nestingAll] at hrow
        simp [levelsAll_append, nestingAll_append, levelsAll_further, nestingAll_further, symbol,
          levelsAll, nestingAll, levels, nesting, Token.name, hrow]
      · rw [toExpression, Expression.trimmed]
        simp only [List.cons_append, List.nil_append, symbol]
        rw [operandExpressions_of_operand rfl, operandExpressions_of_symbol,
          operandExpressions_of_operand h.form.isOperand, hes.operands,
          operandExpressions_of_symbol]
        show ((t :: ts).map toExpression ++ []).mapM id >>= _ = _
        rw [List.append_nil, (WritesAll.cons h hes).meaning]
        rfl

end

mutual

/-- Every expression that can be written has a token of its rank. -/
theorem exists_writes {context : DecimalContext} : ∀ {e : Expression}, e.Printable context →
    ∃ t, Writes ⟨.decimal, context⟩ (6 - e.strength) e.chars e.nesting e t
  | .number (.decimal d), h => writes_number h.1 h.2
  | .number (.double _), h => h.elim
  | .text _, h => writes_text h
  | .attr _, h => writes_attr h
  | .call _ _, h => by
      rcases exists_writesAll h.2 with ⟨ts, hts⟩
      exact writes_call h.1 hts
  | .binary _ _ _, h => by
      rcases exists_writes h.1 with ⟨_, hleft⟩
      rcases exists_writes h.2 with ⟨_, hright⟩
      exact writes_binary hleft hright
  | .negate inner, h => by
      have hinner : inner.Printable context := h
      rcases exists_writes hinner with ⟨_, ht⟩
      exact writes_negate ht

theorem exists_writesAll {context : DecimalContext} : ∀ {es : List Expression},
    Expression.PrintableAll context es → ∃ ts, WritesAll ⟨.decimal, context⟩ es ts
  | [], _ => ⟨[], .nil⟩
  | _ :: _, h => by
      rcases exists_writes h.1 with ⟨t, ht⟩
      rcases exists_writesAll h.2 with ⟨ts, hts⟩
      exact ⟨t :: ts, .cons ht hts⟩

end

/-!
# Expressions in a predicate
-/

def bracketed (body : Token) : Token :=
  .phrase .predicate [symbol .openBracket, body, symbol .closeBracket]

/-- Everything that a predicate admits, as a path of one step. -/
def filtering (body : Token) : Token :=
  .phrase (.path false) [.phrase .step [wildcard, bracketed body]]

theorem isPredicate_bracketed {body : Token} (h : IsExpression 5 body) :
    IsPredicate (bracketed body) :=
  .enclosed .none h .none

theorem covers_bracketed {body : Token} {chars : List Char}
    (h : ∀ {rest}, Stops rest → body.Covers arithmetic (chars ++ rest) rest) (rest : List Char) :
    (bracketed body).Covers arithmetic ('[' :: (chars ++ ']' :: rest)) rest := by
  have hopen := covers_symbol arithmetic (s := .openBracket) rfl (chars ++ ']' :: rest)
  have hbody := h (stops_cons (by decide) rest : Stops (']' :: rest))
  have hclose := covers_symbol arithmetic (s := .closeBracket) rfl rest
  exact covers_phrase.mpr (hopen.cons (hbody.cons hclose.single))

theorem nesting_bracketed (body : Token) : (bracketed body).nesting = 1 + body.nesting := by
  simp [bracketed, symbol, nesting, nestingAll, Phrase.encloses]

theorem isPath_filtering {body : Token} (h : IsExpression 5 body) : IsPath (filtering body) := by
  have hspaced : ∀ p ∈ [[bracketed body]], IsSpacedPredicate p :=
    List.forall_mem_singleton.mpr (.spaced .none (isPredicate_bracketed h))
  have hstep : IsStep (.phrase .step [wildcard, bracketed body]) := .step (.plain .wildcard) hspaced
  have hsteps : AreSteps [.phrase .step [wildcard, bracketed body]] :=
    .steps hstep (List.forall_mem_nil IsFurtherStep)
  exact IsPath.relative .none hsteps .none

theorem covers_filtering {body : Token} {chars : List Char}
    (h : ∀ {rest}, Stops rest → body.Covers arithmetic (chars ++ rest) rest) :
    (filtering body).Covers arithmetic ('*' :: '[' :: (chars ++ [']'])) [] := by
  have hpredicate := covers_bracketed h []
  have hwildcard : wildcard.Covers arithmetic ('*' :: '[' :: (chars ++ [']']))
      ('[' :: (chars ++ [']'])) :=
    covers_leaf.mpr ⟨rfl, rfl, fun _ _ => id⟩
  exact covers_phrase.mpr (covers_phrase.mpr (hwildcard.cons hpredicate.single)).single

theorem nesting_filtering (body : Token) : (filtering body).nesting = 1 + body.nesting := by
  show (Token.phrase (.path false) [.phrase .step [wildcard, bracketed body]]).nesting = _
  simp [wildcard, nesting, nestingAll, nesting_bracketed, Phrase.encloses]

end Token

end TreeQuery
