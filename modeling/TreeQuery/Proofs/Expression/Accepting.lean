import TreeQuery.Proofs.Parser.Halting

/-!
# Expressions between the brackets of a predicate

The text of an expression is read back as an equal expression if there is room
for all that stands inside one another.  A call asks for room before it is known
whether it has arguments, so that a text can be rejected although nothing but
such a call is as deep.
-/

namespace TreeQuery

namespace Token

variable {arithmetic : Arithmetic} {rank : Nat} {chars : List Char} {depth : Nat}
  {e : Expression} {body : Token}

theorem Writes.text_filtering (h : Writes arithmetic rank chars depth e body) :
    (filtering body).text = "*[" ++ String.ofList chars ++ "]" := by
  rcases covers_filtering h.covers with ⟨htext, _⟩
  rw [List.append_nil] at htext
  rw [Token.text, ← htext, String.ext_iff]
  simp

end Token

namespace Expression

/-- Between the brackets of a predicate the text of an expression has a form that stands for an
equal expression.  It is accepted under decimal arithmetic if that form is not nested too deep, and
rejected for that reason alone otherwise.  Of what stands inside one another only a call without
arguments counts although there is nothing in it. -/
theorem parse_displayText {e : Expression} {context : DecimalContext}
    (hprintable : e.Printable context) :
    ∃ body e', Token.WellFormed ⟨.decimal, context⟩ (Token.filtering body) ∧
      body.text = e.displayText ∧ body.toExpression = .ok e' ∧ (e' == e) = true ∧
      (Token.parse ("*[" ++ e.displayText ++ "]") ⟨.decimal, context⟩ =
        .ok (Token.filtering body) ↔ body.nesting < Grammar.maxNesting) ∧
      (Grammar.maxNesting ≤ body.nesting →
        ∃ failure, Token.parse ("*[" ++ e.displayText ++ "]") ⟨.decimal, context⟩ =
          .error failure ∧ failure.expected = [.shallowerNesting]) ∧
      body.nesting = e.nesting ∧
      body.levels ≤ body.nesting ∧ body.nesting ≤ body.levels + 1 ∧
      (e.Filled → body.levels = body.nesting) := by
  rcases Token.exists_writes hprintable with ⟨body, hbody⟩
  have hstrength := e.strength_pos
  have hform := Token.wellFormed_filtering (hbody.mono (by omega))
  have htext : (Token.filtering body).text = "*[" ++ e.displayText ++ "]" := hbody.text_filtering
  have hdepth := Token.nesting_filtering body
  rw [← htext]
  refine ⟨body, e.trimmed, hform, ?_, hbody.meaning, same_trimmed hprintable, ⟨?_, ?_⟩, ?_,
    hbody.nesting, (Token.levels_le_nesting body).1, (Token.levels_le_nesting body).2,
    hbody.levels⟩
  · rw [Token.text, hbody.chars_eq, displayText]
  · intro hparse
    have hroom : (Token.filtering body).nesting ≤ Grammar.maxNesting :=
      (Token.wellFormed_of_parse hparse).2.1
    omega
  · intro hroom
    exact Token.parse_of_wellFormed hform (by omega)
  · intro hdeep
    rcases Token.parse_of_nesting_gt hform (by omega) with ⟨failure, hfailure, hexpected, _⟩
    exact ⟨failure, hfailure, hexpected⟩

/-- Parentheses, quotes and zeros at the end of a number all come right. -/
theorem parse_displayText_nested :
    let e : Expression :=
      .binary
        (.call "f" [.text "it's", .negate (.binary (.attr "a-b") .subtract (.attr "c"))])
        .subtract
        (.binary (.number (.decimal ⟨false, 150, 2, by decide, by decide⟩)) .add (.attr "d"))
    let context : DecimalContext := ⟨2, .up⟩
    e.Printable context ∧ e.Filled ∧
      e.displayText = "f(\"it's\", -(@a-b - @c)) - (1.5 + @d)" ∧
      ∃ body e', Token.parse "*[f(\"it's\", -(@a-b - @c)) - (1.5 + @d)]" ⟨.decimal, context⟩ =
          .ok (Token.filtering body) ∧
        body.levels = 3 ∧ body.toExpression = .ok e' ∧ (e' == e) = true := by
  intro e context
  have hprintable : e.Printable context := by
    have hname : ∀ name ∈ ["f", "a-b", "c", "d"], Lexeme.IsName name.toList := by
      decide +kernel
    have htext : '"' ∉ "it's".toList := by
      decide +kernel
    exact ⟨⟨hname "f" (by decide), Or.inr htext, ⟨hname "a-b" (by decide), hname "c" (by decide)⟩,
      trivial⟩, ⟨by decide, 15, 1, by decide, rfl⟩, hname "d" (by decide)⟩
  have hfilled : e.Filled :=
    ⟨⟨List.cons_ne_nil _ _, trivial, ⟨trivial, trivial⟩, trivial⟩, trivial, trivial⟩
  have hnesting : e.nesting = 3 := by
    decide
  have htext : e.displayText = "f(\"it's\", -(@a-b - @c)) - (1.5 + @d)" := by
    decide +kernel
  rcases parse_displayText hprintable with
    ⟨body, e', _, _, hmeaning, hsame, hparse, _, hdepth, _, _, hlevels⟩
  rw [htext] at hparse
  rw [hnesting] at hdepth
  have hroom : body.nesting < Grammar.maxNesting := by
    rw [hdepth]
    decide
  exact ⟨hprintable, hfilled, htext, body, e', hparse.mpr hroom, (hlevels hfilled).trans hdepth,
    hmeaning, hsame⟩

def negatedCall : Nat → Expression
  | 0 => .call "f" []
  | depth + 1 => .negate (negatedCall depth)

end Expression

namespace Token

def negatedCall : Nat → Token
  | 0 => bareCall "f"
  | depth + 1 => (negatedCall depth).negated

theorem exists_writes_negatedCall (arithmetic : Arithmetic) (depth : Nat) :
    ∃ chars, Writes arithmetic 0 chars (depth + 1) (Expression.negatedCall depth)
      (negatedCall depth) := by
  induction depth with
  | zero =>
      have hname : Lexeme.IsName "f".toList := by
        decide +kernel
      exact ⟨_, writes_bareCall hname⟩
  | succ depth ih =>
      rcases ih with ⟨chars, hwrites⟩
      rw [Nat.add_comm (depth + 1) 1]
      exact ⟨_, hwrites.negated⟩

theorem levels_negatedCall (depth : Nat) : (negatedCall depth).levels = depth := by
  induction depth with
  | zero => rfl
  | succ depth ih => simp [negatedCall, negated, symbol, levels, levelsAll, ih, isBareCall,
      Phrase.encloses, Nat.add_comm]

end Token

namespace Expression

/-- Behind thirty-one minus signs the call is rejected, although no more than thirty-one
expressions of its text stand inside one another. -/
theorem parse_negatedCall :
    let e := negatedCall 31
    let body := Token.negatedCall 31
    e.Printable .decimal ∧ e.displayText = "-------------------------------f()" ∧
      Token.WellFormed .standard (Token.filtering body) ∧ body.text = e.displayText ∧
      body.levels = 31 ∧
      ∃ failure, Token.parse ("*[" ++ e.displayText ++ "]") .standard = .error failure ∧
        failure.expected = [.shallowerNesting] := by
  intro e body
  have hprintable : e.Printable .decimal := by
    have hname : Lexeme.IsName "f".toList := by
      decide +kernel
    exact ⟨hname, trivial⟩
  have htext : e.displayText = "-------------------------------f()" := by
    decide +kernel
  have hbody : body.text = e.displayText := by
    decide +kernel
  rcases Token.exists_writes_negatedCall .standard 31 with ⟨chars, hwrites⟩
  have hform := Token.wellFormed_filtering (hwrites.mono (Nat.zero_le 5))
  have hdeep : Grammar.maxNesting < (Token.filtering body).nesting := by
    rw [Token.nesting_filtering, hwrites.nesting]
    decide
  have hwritten : (Token.filtering body).text = "*[" ++ e.displayText ++ "]" := by
    decide +kernel
  rcases Token.parse_of_nesting_gt hform hdeep with ⟨failure, hfailure, hexpected, _⟩
  rw [hwritten] at hfailure
  exact ⟨hprintable, htext, hform, hbody, Token.levels_negatedCall 31, failure, hfailure, hexpected⟩

end Expression
end TreeQuery
