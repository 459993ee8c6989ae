import TreeQuery.Proofs.Chain.Arriving
import TreeQuery.Proofs.Chain.Fusing
import TreeQuery.Proofs.Numeric.Alike

/-!
# Numbers that stand for positions

A predicate that comes out as a number asks for a position.  So does the
comparison of the function `position` with that number, although it goes by the
order of decimals and the other one does not.  As long as positions are small
enough to be counted, either can be written for the other.
-/

namespace TreeQuery

-- Powers are those of the core library, whatever else is in scope.
attribute [local instance (high)] instPowNat

/-!
# Positions as decimals
-/

namespace Number

variable {place : Nat}

theorem count_of_lt (hplace : place < 2 ^ (63 : Nat)) :
    ∃ a : Decimal, count place .decimal = .decimal a ∧ a.signed = place ∧ a.scale = 0 := by
  have hmin : min place (2 ^ (63 : Nat) - 1) = place :=
    Nat.min_eq_left (Nat.le_sub_one_of_lt hplace)
  have hint : (Int64.ofNat place).toInt = place := Int64.toInt_ofNat_of_lt hplace
  refine ⟨.ofInt64 (Int64.ofNat place), ?_, ?_, rfl⟩
  · rw [count, hmin]
    rfl
  · have hnegative : ¬(place : Int) < 0 := Int.not_lt.mpr (Int.natCast_nonneg place)
    simp only [Decimal.signed, Decimal.ofInt64, hint, hnegative, decide_false, Bool.false_eq_true,
      if_false, Int.natAbs_natCast]

theorem compare_count (hplace : place < 2 ^ (63 : Nat)) (d : Decimal) :
    ((count place .decimal).compare (.decimal d) == some .eq) =
      (Number.decimal d).equalsPosition place := by
  rcases count_of_lt hplace with ⟨a, hcount, hsigned, hscale⟩
  have hequal : (a == d) = (d.signed == place * 10 ^ d.scale) := by
    rw [Bool.eq_iff_iff, Decimal.beq_iff_cross, beq_iff_eq, hsigned, hscale, Int.pow_zero,
      Int.mul_one, eq_comm]
  rw [hcount]
  show (some (a.compare d) == some .eq) = (d.signed == place * 10 ^ d.scale)
  rw [← hequal]
  rfl

end Number

/-!
# Verdicts
-/

namespace Expression

variable {N : Type} [DecidableEq N] [Navigable N]

theorem evaluate_position (focus : Focus N) :
    (call "position" []).evaluate .builtins focus =
      .ok (.number (.count focus.position focus.arithmetic.representation)) := by
  have hfound : (Registry.builtins (N := N)).get? "position" =
      some (Arguments.nullary "position" fun focus =>
        .number (.count focus.position focus.arithmetic.representation)) :=
    Registry.get?_ofList_append [] (by simp)
  rw [evaluate, hfound]
  rfl

/-- Wherever candidates arrive behind the steps, the expression fails or comes out as a decimal. -/
def DecimalBehind (e : Expression) (context : DecimalContext) (steps : List Step) (start : N) :
    Prop :=
  ∀ arrived ∈ Environment.arrivals ⟨.builtins, ⟨.decimal, context⟩, fun _ => true⟩ steps [start],
    ∀ x ∈ arrived.zipIdx 1, ∀ v,
      e.evaluate .builtins ⟨x.1, x.2, ⟨.decimal, context⟩⟩ = .ok v → ∃ d, v = .number (.decimal d)

end Expression

namespace Environment

variable {N : Type} [DecidableEq N] [Navigable N] {accepts : N → Bool} {context : DecimalContext}
  {p q : Predicate} {n : N} {place : Nat}

theorem verdict_position
    (hq : q.expression = .binary (.call "position" []) .equal p.expression)
    (hplace : place < 2 ^ (63 : Nat))
    (hdecimal : ∀ v, p.expression.evaluate .builtins ⟨n, place, ⟨.decimal, context⟩⟩ = .ok v →
      ∃ d, v = .number (.decimal d)) :
    (verdict ⟨.builtins, ⟨.decimal, context⟩, accepts⟩ p n place).mapError SelectError.bare =
      (verdict ⟨.builtins, ⟨.decimal, context⟩, accepts⟩ q n place).mapError SelectError.bare := by
  unfold verdict
  rw [hq]
  cases hp : p.expression.evaluate .builtins ⟨n, place, ⟨.decimal, context⟩⟩ with
  | error e =>
      rw [Expression.evaluate, Expression.evaluate_position, hp]
      exact congrArg Except.error (SelectError.bare_ofEvaluation p q e)
  | ok v =>
      rcases hdecimal v hp with ⟨d, rfl⟩
      rw [Expression.evaluate, Expression.evaluate_position, hp]
      exact congrArg Except.ok (Number.compare_count hplace d).symm

end Environment

/-!
# Selecting
-/

namespace Chain

variable {N : Type} [DecidableEq N] [Navigable N] [Navigable.LawfulShortcuts N]

/-- A predicate whose value is a decimal tests the position: compared with the position instead,
the chain selects the same nodes, or fails for the same reason. -/
theorem select_position_equal (first rest : List Step) {p q : Predicate}
    (hq : q.expression = .binary (.call "position" []) .equal p.expression)
    {context : DecimalContext} {start : N}
    (hsize : (Navigable.document start).length < 2 ^ (63 : Nat))
    (hdecimal : p.expression.DecimalBehind context first start) :
    (select ⟨first ++ .predicate p :: rest⟩ .builtins ⟨.decimal, context⟩ start).mapError
        SelectError.bare =
      (select ⟨first ++ .predicate q :: rest⟩ .builtins ⟨.decimal, context⟩ start).mapError
        SelectError.bare := by
  have hagree : ∀ arrived ∈
      Environment.arrivals ⟨.builtins, ⟨.decimal, context⟩, fun _ => true⟩ first [start],
      Environment.AgreeOn ⟨.builtins, ⟨.decimal, context⟩, fun _ => true⟩ p q arrived := by
    intro arrived harrived x hx
    have hstart : [start].Subperm (Navigable.document start) :=
      List.singleton_subperm_iff.mpr (Navigable.self_mem_document start)
    have hlength := (Environment.arrivals_subperm rfl hstart arrived harrived).length_le
    have hplace := (List.mem_zipIdx hx).2.1
    exact Environment.verdict_position hq (by omega) (hdecimal arrived harrived x hx)
  apply select_bare_eq
  · exact Environment.nodes_replace hagree
  · exact Environment.failureAfter_replace [] start hagree

/-- Of the leaves the third one: twice the position, less three times the length of an attribute. -/
theorem select_position_equal_forest :
    let p := Predicate.ofExpression (.binary
      (.binary (.call "position" []) .multiply (.number (.ofInt64 2))) .subtract
      (.binary (.call "string-length" [.attr "id"]) .multiply
        (.number (.decimal ⟨false, 30, 1, by decide, by decide⟩))))
    let q := Predicate.ofExpression (.binary (.call "position" []) .equal p.expression)
    let first : List Step := [.axis .descendant, .name (.named "leaf")]
    let rest : List Step := [.axis .followingSibling]
    let start := (Sample.forest.run 0).1
    ((Navigable.document start).length < 2 ^ (63 : Nat) ∧
      p.expression.DecimalBehind .decimal first start) ∧
      (select ⟨first ++ .predicate p :: rest⟩ .builtins .standard start).mapError
          SelectError.bare =
        (select ⟨first ++ .predicate q :: rest⟩ .builtins .standard start).mapError
          SelectError.bare ∧
      (select ⟨first ++ .predicate q :: rest⟩ .builtins .standard start).toOption.map
          (List.map Node.idOrDash) = some ["d", "f"] := by
  intro p q first rest start
  have hsize : (Navigable.document start).length < 2 ^ (63 : Nat) := by decide +kernel
  have hkinds : ∀ arrived ∈
      Environment.arrivals ⟨.builtins, .standard, fun _ => true⟩ first [start],
      ∀ x ∈ arrived.zipIdx 1, (p.expression.evaluate .builtins ⟨x.1, x.2, .standard⟩).toOption.all
        (fun v => v.typeName == "number" &&
          (v.toNumber .standard).toOption.any (·.representation == .decimal)) = true := by
    decide +kernel
  have hdecimal : p.expression.DecimalBehind .decimal first start := by
    intro arrived harrived x hx v hv
    have hkind := hkinds arrived harrived x hx
    change (p.expression.evaluate .builtins ⟨x.1, x.2, ⟨.decimal, .decimal⟩⟩).toOption.all _ = true
      at hkind
    rw [hv] at hkind
    cases v with
    | number x =>
        cases x with
        | decimal d => exact ⟨d, rfl⟩
        | double d => cases hkind
    | boolean b => simp [Except.toOption, Value.typeName] at hkind
    | text t => simp [Except.toOption, Value.typeName] at hkind
    | absent => simp [Except.toOption, Value.typeName] at hkind
  exact ⟨⟨hsize, hdecimal⟩, select_position_equal first rest rfl hsize hdecimal, by decide +kernel⟩

end Chain
end TreeQuery
