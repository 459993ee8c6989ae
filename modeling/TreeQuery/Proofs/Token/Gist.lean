import TreeQuery.Proofs.Token.Standing

/-!
# The gist of a token

Blanks, capitals in keywords and parentheses that only group leave no trace in
what a query means.  The gist of a token is what is left without them: the
phrases and the lexemes.
-/

namespace TreeQuery
namespace Token

mutual

/-- The token without blanks and without source text, with the body of each group in its place.
The grammar has groups inside predicates only. -/
def gist : Token → Token
  | .leaf lexeme _ => .leaf lexeme ""
  | .phrase kind parts =>
      let kept := gistAll parts
      if kind = .group then (kept.find? isOperand).getD (.phrase .group kept)
      else .phrase kind kept

def gistAll : List Token → List Token
  | [] => []
  | t :: ts => if t.isBlank then gistAll ts else gist t :: gistAll ts

end

theorem gist_phrase (kind : Phrase) (parts : List Token) (hkind : kind ≠ .group) :
    (phrase kind parts).gist = .phrase kind (gistAll parts) := by
  rw [gist]
  exact if_neg hkind

theorem gist_group (parts : List Token) :
    (phrase .group parts).gist =
      ((gistAll parts).find? isOperand).getD (.phrase .group (gistAll parts)) := by
  rw [gist]
  exact if_pos rfl

theorem gistAll_append (xs ys : List Token) : gistAll (xs ++ ys) = gistAll xs ++ gistAll ys := by
  induction xs with
  | nil => rfl
  | cons t ts ih =>
      rw [List.cons_append, gistAll, gistAll, ih]
      split
      · rfl
      · rfl

theorem IsGap.gistAll_append {gap : List Token} (h : IsGap gap) (ts : List Token) :
    gistAll (gap ++ ts) = gistAll ts := by
  cases h with
  | none => rfl
  | blank => rfl

theorem isOperand_gist (t : Token) : t.gist.isOperand = t.isOperand := by
  cases t with
  | leaf lexeme text =>
      rw [gist]
      cases lexeme <;> rfl
  | phrase kind parts =>
      by_cases hkind : kind = .group
      · subst hkind
        rw [gist_group]
        cases hbody : (gistAll parts).find? isOperand with
        | none => rfl
        | some body => exact List.find?_some hbody
      · rw [gist_phrase kind parts hkind]
        rfl

theorem isOperand_of_isBlank {t : Token} (h : t.isBlank = true) : t.isOperand = false := by
  cases t with
  | leaf lexeme text =>
      cases lexeme with
      | blank => rfl
      | _ => cases h
  | phrase kind parts => cases h

/-!
# Expressions
-/

def KeepsMeaning (t : Token) : Prop :=
  t.isOperand = true → t.gist.toExpression = t.toExpression

theorem keepsMeaning_symbol (s : Symbol) (text : String) :
    (leaf (.symbol s) text).KeepsMeaning :=
  nofun

theorem IsGap.keepMeaning {gap : List Token} (h : IsGap gap) : ∀ t ∈ gap, t.KeepsMeaning := by
  cases h with
  | none => exact List.forall_mem_nil _
  | blank => exact List.forall_mem_singleton.mpr nofun

theorem keepMeaning_furtherArguments {more : List FurtherArgument}
    (hgaps : ∀ x ∈ more, IsGap x.before ∧ IsGap x.after)
    (hmore : ∀ x ∈ more, x.value.KeepsMeaning) :
    ∀ t ∈ more.flatMap FurtherArgument.parts, t.KeepsMeaning := by
  intro t ht
  rcases List.mem_flatMap.mp ht with ⟨x, hx, ht⟩
  have hparts : ∀ t ∈ x.parts, t.KeepsMeaning := by
    simp only [FurtherArgument.parts, List.forall_mem_append, List.forall_mem_cons]
    exact ⟨⟨(hgaps x hx).1.keepMeaning, keepsMeaning_symbol _ _, (hgaps x hx).2.keepMeaning⟩,
      hmore x hx, List.forall_mem_nil _⟩
  exact hparts t ht

theorem operandExpressions_gistAll {parts : List Token} (h : ∀ t ∈ parts, t.KeepsMeaning) :
    operandExpressions (gistAll parts) = operandExpressions parts := by
  induction parts with
  | nil => rfl
  | cons t ts ih =>
      rcases List.forall_mem_cons.mp h with ⟨ht, hts⟩
      rw [gistAll, operandExpressions, ← ih hts]
      split
      · rename_i hblank
        rw [isOperand_of_isBlank hblank]
        rfl
      · rw [operandExpressions, isOperand_gist]
        split
        · rename_i hoperand
          rw [ht hoperand]
        · rfl

theorem operandExpressions_getElem?_zero (parts : List Token) :
    (operandExpressions parts)[0]? = (parts.find? isOperand).map toExpression := by
  induction parts with
  | nil => rfl
  | cons t ts ih =>
      rw [operandExpressions]
      cases ht : t.isOperand with
      | true =>
          rw [List.find?_cons_of_pos ht]
          rfl
      | false =>
          rw [List.find?_cons_of_neg (Bool.eq_false_iff.mp ht)]
          exact ih

section

variable {parts : List Token}

theorem toExpression_gist_operation {kind : Phrase}
    (hkind : kind = .negation ∨ ∃ op, kind = .binary op) (h : ∀ t ∈ parts, t.KeepsMeaning) :
    (phrase kind parts).gist.toExpression = (phrase kind parts).toExpression := by
  have hgroup : kind ≠ .group := by
    rintro rfl
    rcases hkind with hkind | ⟨op, hkind⟩
    · cases hkind
    · cases hkind
  rw [gist_phrase kind parts hgroup]
  rcases hkind with rfl | ⟨op, rfl⟩
  · rw [toExpression, toExpression, operandExpressions_gistAll h]
    rfl
  · rw [toExpression, toExpression, operandExpressions_gistAll h]
    rfl

theorem toExpression_gist_group (h : ∀ t ∈ parts, t.KeepsMeaning) :
    (phrase .group parts).gist.toExpression = (phrase .group parts).toExpression := by
  have hoperands := operandExpressions_gistAll h
  have hhead := operandExpressions_getElem?_zero (gistAll parts)
  rw [gist_group, toExpression, operandAt, ← hoperands, hhead]
  cases hbody : (gistAll parts).find? isOperand with
  | none =>
      rw [hbody] at hhead
      show (phrase .group (gistAll parts)).toExpression = _
      rw [toExpression, operandAt, hhead]
      rfl
  | some body => rfl

theorem toExpression_gist_call {n function : String} (h : ∀ t ∈ parts, t.KeepsMeaning) :
    (phrase .call (.leaf (.name n) function :: parts)).gist.toExpression =
      (phrase .call (.leaf (.name n) function :: parts)).toExpression := by
  have hparts : ∀ t ∈ .leaf (.name n) function :: parts, t.KeepsMeaning :=
    List.forall_mem_cons.mpr ⟨fun _ => rfl, h⟩
  have hoperands := operandExpressions_gistAll hparts
  rw [gist_phrase _ _ (by decide), toExpression, toExpression, hoperands]
  rfl

end

/-- The gist of an expression token stands for the same expression. -/
theorem toExpression_gist {rank : Nat} {t : Token} (h : IsExpression rank t) :
    t.gist.toExpression = t.toExpression := by
  induction h with
  | number => rfl
  | text => rfl
  | attribution => rfl
  | bareCall hbefore hafter =>
      simp only [List.cons_append, List.append_assoc]
      apply toExpression_gist_call
      simp only [List.forall_mem_append, List.forall_mem_cons]
      exact ⟨hbefore.keepMeaning, keepsMeaning_symbol _ _, hafter.keepMeaning,
        keepsMeaning_symbol _ _, List.forall_mem_nil _⟩
  | call hbefore hafter hfirst hgaps hmore htrailing ih ihmore =>
      simp only [List.cons_append, List.append_assoc]
      apply toExpression_gist_call
      simp only [List.forall_mem_append, List.forall_mem_cons]
      exact ⟨hbefore.keepMeaning, keepsMeaning_symbol _ _, hafter.keepMeaning, fun _ => ih,
        keepMeaning_furtherArguments hgaps fun x hx _ => ihmore x hx, htrailing.keepMeaning,
        keepsMeaning_symbol _ _, List.forall_mem_nil _⟩
  | group hbefore hinner hafter ih =>
      apply toExpression_gist_group
      simp only [List.cons_append, List.append_assoc, List.forall_mem_append, List.forall_mem_cons]
      exact ⟨keepsMeaning_symbol _ _, hbefore.keepMeaning, fun _ => ih, hafter.keepMeaning,
        keepsMeaning_symbol _ _, List.forall_mem_nil _⟩
  | negation hspace hoperand ih =>
      apply toExpression_gist_operation (Or.inl rfl)
      simp only [List.cons_append, List.forall_mem_append, List.forall_mem_cons]
      exact ⟨keepsMeaning_symbol _ _, hspace.keepMeaning, fun _ => ih, List.forall_mem_nil _⟩
  | binary hop hleft hbefore hafter hright ihleft ihright =>
      apply toExpression_gist_operation (Or.inr ⟨_, rfl⟩)
      simp only [List.append_assoc, List.cons_append, List.forall_mem_append, List.forall_mem_cons]
      exact ⟨fun _ => ihleft, hbefore.keepMeaning, keepsMeaning_symbol _ _, hafter.keepMeaning,
        fun _ => ihright, List.forall_mem_nil _⟩
  | tighter h ih => exact ih

end Token
end TreeQuery
