import TreeQuery.Proofs.Expression.Printing
import TreeQuery.Proofs.Numeric.Kept
import TreeQuery.Proofs.Token.Continuing
import Mathlib.Data.List.Forall2

/-!
# What expression tokens stand for

Every token that the grammar makes of an expression stands for one.  It can be
written again under the arithmetic it was read with, and written with
parentheses only where they are needed it is not nested any deeper.
-/

namespace TreeQuery
namespace Token

theorem IsGap.operandExpressions_append {gap : List Token} (h : IsGap gap) (ts : List Token) :
    operandExpressions (gap ++ ts) = operandExpressions ts := by
  cases h with
  | none => rfl
  | blank => exact operandExpressions_of_blank _ ts

theorem operandExpressions_furtherArguments {more : List FurtherArgument}
    (hgaps : ∀ x ∈ more, IsGap x.before ∧ IsGap x.after)
    (hmore : ∀ x ∈ more, IsExpression 5 x.value) (ts : List Token) :
    operandExpressions (more.flatMap FurtherArgument.parts ++ ts) =
      (more.map FurtherArgument.value).map toExpression ++ operandExpressions ts := by
  induction more with
  | nil => rfl
  | cons x more ih =>
      rcases List.forall_mem_cons.mp hgaps with ⟨⟨hbefore, hafter⟩, hgaps⟩
      rcases List.forall_mem_cons.mp hmore with ⟨hx, hmore⟩
      rw [List.flatMap_cons, FurtherArgument.parts]
      simp only [List.append_assoc, List.cons_append, List.nil_append, List.map_cons]
      rw [hbefore.operandExpressions_append, operandExpressions_of_symbol,
        hafter.operandExpressions_append, operandExpressions_of_operand hx.isOperand,
        ih hgaps hmore]

/-!
# One expression for each token
-/

/-- A token of some rank stands for an expression. -/
structure Stands (rank : Nat) (t : Token) (e : Expression) : Prop where
  meaning : t.toExpression = .ok e
  nesting : e.nesting ≤ t.nesting
  /-- An operator too loose for the rank stands between parentheses. -/
  strength : 6 ≤ e.strength + rank ∨ e.nesting < t.nesting
  printable : ∀ context, t.Spelled ⟨.decimal, context⟩ → e.Printable context

section

variable {rank : Nat} {t : Token} {e : Expression}

theorem Stands.of_strength (hstrength : e.strength = 6) (hmeaning : t.toExpression = .ok e)
    (hnesting : e.nesting ≤ t.nesting)
    (hprintable : ∀ context, t.Spelled ⟨.decimal, context⟩ → e.Printable context) :
    Stands rank t e where
  meaning := hmeaning
  nesting := hnesting
  strength := Or.inl (by omega)
  printable := hprintable

theorem Stands.tighter (h : Stands rank t e) : Stands (rank + 1) t e where
  meaning := h.meaning
  nesting := h.nesting
  strength := h.strength.imp_left fun hstrength => Nat.le_succ_of_le hstrength
  printable := h.printable

theorem spells_of_spelled {arithmetic : Arithmetic} {lexeme : Lexeme} {text : String}
    (h : (leaf lexeme text).Spelled arithmetic) : lexeme.Spells arithmetic text.toList := by
  apply h (lexeme, text)
  rw [leaves]
  exact List.mem_cons_self

theorem isName_of_spelled {arithmetic : Arithmetic} {n text : String}
    (h : (leaf (.name n) text).Spelled arithmetic) : Lexeme.IsName n.toList := by
  rcases spells_of_spelled h with ⟨hname, rfl⟩
  rw [String.toList_ofList]
  exact hname

theorem stands_number {value : Number} {text : String} :
    Stands 0 (.leaf (.number value) text) (.number value) := by
  apply Stands.of_strength rfl (by rw [toExpression]) (Nat.zero_le _)
  intro context hspelled
  rcases spells_of_spelled hspelled with ⟨hnumber, hparse⟩
  rcases Number.parse_number hnumber hparse with ⟨d, rfl, hsign, hkeeps⟩
  exact ⟨hsign, hkeeps⟩

theorem stands_text {value text : String} :
    Stands 0 (.leaf (.text value) text) (.text value) := by
  apply Stands.of_strength rfl (by rw [toExpression]) (Nat.zero_le _)
  intro context hspelled
  rcases spells_of_spelled hspelled with ⟨quote, rfl | rfl, hquote, _⟩
  · exact Or.inl hquote
  · exact Or.inr hquote

theorem stands_attribution {sign n key : String} :
    Stands 0 (.phrase .attribution [.leaf (.symbol .at) sign, .leaf (.name n) key]) (.attr n) := by
  apply Stands.of_strength rfl
  · rw [toExpression]
    rfl
  · exact Nat.zero_le _
  · intro context hspelled
    exact isName_of_spelled (hspelled.parts _ (List.mem_cons_of_mem _ List.mem_cons_self))

theorem stands_group {before after : List Token} {opening closing : String}
    (hbefore : IsGap before) (hafter : IsGap after) (ht : t.isOperand = true)
    (h : Stands 5 t e) :
    Stands 0 (.phrase .group (.leaf (.symbol .openParen) opening :: before ++
      t :: after ++ [.leaf (.symbol .closeParen) closing])) e := by
  have hnesting : (Token.phrase .group (.leaf (.symbol .openParen) opening :: before ++
      t :: after ++ [.leaf (.symbol .closeParen) closing])).nesting = 1 + t.nesting :=
    nesting_enclosed rfl hbefore hafter
  have hlt : e.nesting < 1 + t.nesting := Nat.lt_one_add_iff.mpr h.nesting
  constructor
  · rw [toExpression]
    simp only [List.cons_append, List.append_assoc]
    rw [operandExpressions_of_symbol, hbefore.operandExpressions_append,
      operandExpressions_of_operand ht]
    exact h.meaning
  · rw [hnesting]
    exact Nat.le_of_lt hlt
  · rw [hnesting]
    exact Or.inr hlt
  · intro context hspelled
    exact h.printable context (hspelled.parts _ (by simp))

theorem stands_negation {space : List Token} {sign : String} (hspace : IsGap space)
    (ht : t.isOperand = true) (h : Stands 0 t e) :
    Stands 0 (.phrase .negation
      (.leaf (.symbol (.operator .subtract)) sign :: space ++ [t])) (.negate e) := by
  apply Stands.of_strength rfl
  · rw [toExpression]
    simp only [List.cons_append]
    rw [operandExpressions_of_symbol, hspace.operandExpressions_append,
      operandExpressions_of_operand ht, h.meaning]
    rfl
  · rw [nesting_negation hspace, Expression.nesting]
    apply Nat.add_le_add_left
    split
    · rename_i hbinary
      cases e with
      | binary left op right =>
          have hop : op.strength ≤ 5 := by
            cases op <;> decide
          exact h.strength.resolve_left (Nat.not_le.mpr (Nat.lt_succ_of_le hop))
      | _ => cases hbinary
    · exact h.nesting
  · intro context hspelled
    exact h.printable context (hspelled.parts _ (by simp))

theorem stands_binary {op : Operator} {before after : List Token} {sign : String} {t' : Token}
    {e' : Expression} (hop : op.strength + rank = 5) (hbefore : IsGap before)
    (hafter : IsGap after) (ht : t.isOperand = true) (ht' : t'.isOperand = true)
    (hleft : Stands (rank + 1) t e) (hright : Stands rank t' e') :
    Stands (rank + 1) (.phrase (.binary op) (t ::
      (before ++ .leaf (.symbol (.operator op)) sign :: after ++ [t']))) (.binary e op e') := by
  -- An operand whose operator is too loose has parentheses to give up.
  have hle : ∀ {t : Token} {e : Expression} {loose : Prop} [Decidable loose],
      e.nesting ≤ t.nesting → (loose → e.nesting < t.nesting) →
        (e.nesting + if loose then 1 else 0) ≤ t.nesting := by
    intro t e loose _ hnesting hlt
    split
    · exact hlt ‹_›
    · exact hnesting
  constructor
  · rw [toExpression]
    simp only [List.append_assoc, List.cons_append]
    rw [operandExpressions_of_operand ht, hbefore.operandExpressions_append,
      operandExpressions_of_symbol, hafter.operandExpressions_append,
      operandExpressions_of_operand ht', hleft.meaning, hright.meaning]
    rfl
  · rw [nesting_binary hbefore hafter, Expression.nesting]
    apply Nat.max_le.mpr
    constructor
    · apply Nat.le_trans _ (Nat.le_max_left ..)
      exact hle hleft.nesting fun hloose => hleft.strength.resolve_left (by omega)
    · apply Nat.le_trans _ (Nat.le_max_right ..)
      exact hle hright.nesting fun hloose => hright.strength.resolve_left (by omega)
  · apply Or.inl
    show 6 ≤ op.strength + (rank + 1)
    omega
  · intro context hspelled
    exact ⟨hleft.printable context (hspelled.parts _ (by simp)),
      hright.printable context (hspelled.parts _ (by simp))⟩

end

/-!
# Calls
-/

theorem exists_standsAll {ts : List Token} (h : ∀ t ∈ ts, ∃ e, Stands 5 t e) :
    ∃ es, (ts.map toExpression).mapM id = .ok es ∧ List.Forall₂ (Stands 5) ts es := by
  induction ts with
  | nil => exact ⟨[], rfl, .nil⟩
  | cons t ts ih =>
      rcases List.forall_mem_cons.mp h with ⟨⟨e, he⟩, hts⟩
      rcases ih hts with ⟨es, hes, hall⟩
      refine ⟨e :: es, ?_, .cons he hall⟩
      rw [List.map_cons, List.mapM_cons, hes]
      show t.toExpression.bind _ = _
      rw [he.meaning]
      rfl

theorem nestingAll_le_of_standsAll {ts : List Token} {es : List Expression} {n : Nat}
    (h : List.Forall₂ (Stands 5) ts es) (hts : ∀ t ∈ ts, t.nesting ≤ n) :
    Expression.nestingAll es ≤ n := by
  induction h with
  | nil => exact Nat.zero_le n
  | cons h _ ih =>
      rcases List.forall_mem_cons.mp hts with ⟨ht, hts⟩
      exact Nat.max_le.mpr ⟨Nat.le_trans h.nesting ht, ih hts⟩

theorem printableAll_of_standsAll {ts : List Token} {es : List Expression}
    {context : DecimalContext} (h : List.Forall₂ (Stands 5) ts es)
    (hts : ∀ t ∈ ts, t.Spelled ⟨.decimal, context⟩) : Expression.PrintableAll context es := by
  induction h with
  | nil => trivial
  | cons h _ ih =>
      rcases List.forall_mem_cons.mp hts with ⟨ht, hts⟩
      exact ⟨h.printable context ht, ih hts⟩

theorem stands_bareCall {n function opening closing : String} {before after : List Token}
    (hbefore : IsGap before) (hafter : IsGap after) :
    Stands 0 (.phrase .call (.leaf (.name n) function :: before ++
      .leaf (.symbol .openParen) opening :: after ++ [.leaf (.symbol .closeParen) closing]))
      (.call n []) := by
  apply Stands.of_strength rfl
  · rw [toExpression]
    simp only [List.cons_append, List.append_assoc]
    rw [operandExpressions_of_operand rfl, hbefore.operandExpressions_append,
      operandExpressions_of_symbol, hafter.operandExpressions_append,
      operandExpressions_of_symbol]
    rfl
  · rw [nesting_bareCall hbefore hafter]
    exact Nat.le_refl 1
  · intro context hspelled
    exact ⟨isName_of_spelled (hspelled.parts _ List.mem_cons_self), trivial⟩

theorem stands_call {n function opening closing : String} {before after trailing : List Token}
    {first : Token} {more : List FurtherArgument} {es : List Expression}
    (hbefore : IsGap before) (hafter : IsGap after) (hfirst : first.isOperand = true)
    (hgaps : ∀ x ∈ more, IsGap x.before ∧ IsGap x.after)
    (hmore : ∀ x ∈ more, IsExpression 5 x.value) (htrailing : IsGap trailing)
    (hmeaning : ((first :: more.map FurtherArgument.value).map toExpression).mapM id = .ok es)
    (hall : List.Forall₂ (Stands 5) (first :: more.map FurtherArgument.value) es) :
    Stands 0 (.phrase .call (.leaf (.name n) function :: before ++
      .leaf (.symbol .openParen) opening :: after ++
      (first :: more.flatMap FurtherArgument.parts ++ trailing) ++
      [.leaf (.symbol .closeParen) closing])) (.call n es) := by
  apply Stands.of_strength rfl
  · rw [toExpression]
    simp only [List.cons_append, List.append_assoc]
    rw [operandExpressions_of_operand rfl, hbefore.operandExpressions_append,
      operandExpressions_of_symbol, hafter.operandExpressions_append,
      operandExpressions_of_operand hfirst,
      operandExpressions_furtherArguments hgaps hmore, htrailing.operandExpressions_append,
      operandExpressions_of_symbol]
    show ((first.toExpression :: ((more.map FurtherArgument.value).map toExpression ++ [])).mapM
      id).bind _ = _
    rw [List.append_nil, ← List.map_cons, hmeaning]
    rfl
  · rw [nesting_call hbefore hafter, Expression.nesting]
    rcases (nestingAll_arguments hgaps htrailing).mp (Nat.le_refl _) with ⟨hone, hothers⟩
    apply Nat.add_le_add_left
    apply nestingAll_le_of_standsAll hall
    exact List.forall_mem_cons.mpr ⟨hone, List.forall_mem_map.mpr hothers⟩
  · intro context hspelled
    have hparts := hspelled.parts
    simp only [List.mem_append, List.mem_cons, List.mem_flatMap, FurtherArgument.parts] at hparts
    have hothers : ∀ x ∈ more, x.value.Spelled ⟨.decimal, context⟩ := fun x hx =>
      hparts x.value (Or.inl (Or.inr (Or.inl (Or.inr ⟨x, hx, by simp⟩))))
    have hvalues : ∀ t ∈ first :: more.map FurtherArgument.value, t.Spelled ⟨.decimal, context⟩ :=
      List.forall_mem_cons.mpr ⟨hparts first (by simp), List.forall_mem_map.mpr hothers⟩
    exact ⟨isName_of_spelled (hparts (.leaf (.name n) function) (by simp)),
      printableAll_of_standsAll hall hvalues⟩

/-- Every expression token stands for an expression. -/
theorem exists_stands {rank : Nat} {t : Token} (h : IsExpression rank t) :
    ∃ e, Stands rank t e := by
  induction h with
  | number => exact ⟨_, stands_number⟩
  | text => exact ⟨_, stands_text⟩
  | attribution => exact ⟨_, stands_attribution⟩
  | bareCall hbefore hafter => exact ⟨_, stands_bareCall hbefore hafter⟩
  | @call _ _ _ _ _ _ _ first more hbefore hafter hfirst hgaps hmore htrailing ih ihmore =>
      have hvalues : ∀ t ∈ first :: more.map FurtherArgument.value, ∃ e, Stands 5 t e :=
        List.forall_mem_cons.mpr ⟨ih, List.forall_mem_map.mpr ihmore⟩
      rcases exists_standsAll hvalues with ⟨es, hmeaning, hall⟩
      exact ⟨_, stands_call hbefore hafter hfirst.isOperand hgaps hmore htrailing hmeaning hall⟩
  | group hbefore hinner hafter ih =>
      rcases ih with ⟨e, he⟩
      exact ⟨e, stands_group hbefore hafter hinner.isOperand he⟩
  | negation hspace hoperand ih =>
      rcases ih with ⟨e, he⟩
      exact ⟨_, stands_negation hspace hoperand.isOperand he⟩
  | binary hop hleft hbefore hafter hright ihleft ihright =>
      rcases ihleft with ⟨e, he⟩
      rcases ihright with ⟨e', he'⟩
      exact ⟨_, stands_binary hop hbefore hafter hleft.isOperand hright.isOperand he he'⟩
  | tighter _ ih =>
      rcases ih with ⟨e, he⟩
      exact ⟨e, he.tighter⟩

end Token
end TreeQuery
