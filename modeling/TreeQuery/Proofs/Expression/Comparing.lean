import Mathlib.Logic.ExistsUnique
import TreeQuery.Proofs.Expression.Alike
import TreeQuery.Proofs.Numeric.Precision

/-!
# Comparing values

The operators that compare two values read them in different ways: as truths,
as numbers or as texts.  They fit together all the same.  Equality does not
depend on the order of its operands, each order operator has a counterpart with
the operands exchanged, and of less, equal and greater exactly one holds where a
number is compared.  Doubles are left out, since some of them have no order.
-/

namespace TreeQuery

theorem Decimal.compare_swap (a b : Decimal) : (a.compare b).swap = b.compare a := by
  rw [compare_eq a.scale_le b.scale_le, compare_eq b.scale_le a.scale_le]
  exact Int.compare_swap _ _

namespace Operator

def ofOrder : Ordering → Operator
  | .lt => .less
  | .eq => .equal
  | .gt => .greater

theorem ofOrder_mem (order : Ordering) : ofOrder order ∈ [Operator.less, .equal, .greater] := by
  cases order <;> decide

end Operator

namespace Value

def NotDouble (v : Value) : Prop :=
  ∀ d, v ≠ .number (.double d)

theorem notDouble_decimal (d : Decimal) : NotDouble (.number (.decimal d)) :=
  nofun

variable {arithmetic : Arithmetic} {context : DecimalContext} {l r : Value} {x y : Number}
  {e : EvalError}

theorem NotDouble.alike (h : l.NotDouble) : l.Alike l := by
  cases l with
  | boolean b => exact .boolean b
  | number x =>
      cases x with
      | decimal d => exact .number (Number.alike_refl d)
      | double d => exact absurd rfl (h d)
  | text t => exact .text t
  | absent => exact .absent

theorem NotDouble.exists_decimal (h : l.NotDouble)
    (hx : l.toNumber ⟨.decimal, context⟩ = .ok x) : ∃ d, x = .decimal d := by
  have halike : Together Number.Alike (l.toNumber ⟨.decimal, context⟩)
      (l.toNumber ⟨.decimal, context⟩) := h.alike.toNumber rfl
  rw [hx] at halike
  cases (halike : x.Alike x) with
  | @decimal a b _ => exact ⟨a, rfl⟩

/-!
# Exchanged operands
-/

theorem compare_of_toNumber (hx : l.toNumber arithmetic = .ok x)
    (hy : r.toNumber arithmetic = .ok y) : compare arithmetic l r = .ok (x.compare y) := by
  rw [compare, hx, hy]
  rfl

theorem compare_of_error_left (hx : l.toNumber arithmetic = .error e) (r : Value) :
    compare arithmetic l r = .error e := by
  rw [compare, hx]
  rfl

theorem compare_of_error_right (hx : l.toNumber arithmetic = .ok x)
    (hy : r.toNumber arithmetic = .error e) : compare arithmetic l r = .error e := by
  rw [compare, hx, hy]
  rfl

/-- If one operand is a number, only the other one can fail, whichever is read first. -/
theorem compare_swap (hl : l.NotDouble) (hr : r.NotDouble)
    (hx : l.toNumber ⟨.decimal, context⟩ = .ok x) :
    compare ⟨.decimal, context⟩ r l =
      (compare ⟨.decimal, context⟩ l r).map (Option.map Ordering.swap) := by
  cases hy : r.toNumber ⟨.decimal, context⟩ with
  | error e =>
      rw [compare_of_error_left hy, compare_of_error_right hx hy]
      rfl
  | ok y =>
      rcases hl.exists_decimal hx with ⟨a, rfl⟩
      rcases hr.exists_decimal hy with ⟨b, rfl⟩
      rw [compare_of_toNumber hx hy, compare_of_toNumber hy hx]
      show Except.ok (some (b.compare a)) = .ok (some (a.compare b).swap)
      rw [Decimal.compare_swap]

theorem together_compare_swap (hl : l.NotDouble) (hr : r.NotDouble) :
    Together (fun order swapped => swapped = order.map Ordering.swap)
      (compare ⟨.decimal, context⟩ l r) (compare ⟨.decimal, context⟩ r l) := by
  cases hx : l.toNumber ⟨.decimal, context⟩ with
  | ok x =>
      rw [compare_swap hl hr hx]
      cases compare ⟨.decimal, context⟩ l r with
      | ok order => exact rfl
      | error e => exact trivial
  | error e =>
      rw [compare_of_error_left hx]
      cases hy : r.toNumber ⟨.decimal, context⟩ with
      | ok y =>
          rw [compare_of_error_right hy hx]
          exact trivial
      | error e' =>
          rw [compare_of_error_left hy]
          exact trivial

theorem swap_eq_some_eq (order : Option Ordering) :
    (order.map Ordering.swap == some .eq) = (order == some .eq) := by
  cases order with
  | none => rfl
  | some o => cases o <;> rfl

theorem equal_comm (hl : l.NotDouble) (hr : r.NotDouble) :
    equal ⟨.decimal, context⟩ l r = equal ⟨.decimal, context⟩ r l := by
  have hboolean : (.ok (l.toBoolean == r.toBoolean) : Except EvalError Bool) =
      .ok (r.toBoolean == l.toBoolean) := by
    rw [Bool.beq_comm]
  have hnumber : ∀ {l r : Value} {x : Number}, l.NotDouble → r.NotDouble →
      l.toNumber ⟨.decimal, context⟩ = .ok x →
        (compare ⟨.decimal, context⟩ r l).map (· == some .eq) =
          (compare ⟨.decimal, context⟩ l r).map (· == some .eq) := by
    intro l r x hl hr hx
    rw [compare_swap hl hr hx]
    cases compare ⟨.decimal, context⟩ l r with
    | error e => rfl
    | ok order => exact congrArg Except.ok (swap_eq_some_eq order)
  cases l with
  | absent =>
      cases r with
      | absent | boolean | number | text => rfl
  | boolean =>
      cases r with
      | absent => rfl
      | boolean | number | text => exact hboolean
  | number =>
      cases r with
      | absent => rfl
      | boolean => exact hboolean
      | number | text => exact (hnumber hl hr rfl).symm
  | text t =>
      cases r with
      | absent => rfl
      | boolean => exact hboolean
      | number => exact hnumber hr hl rfl
      | text u =>
          show (.ok (t == u) : Except EvalError Bool) = .ok (u == t)
          rw [BEq.comm]

theorem together_ordered_swap {holds mirrored : Ordering → Bool}
    (h : ∀ order, mirrored order.swap = holds order) (hl : l.NotDouble) (hr : r.NotDouble) :
    Together Eq (ordered ⟨.decimal, context⟩ holds l r)
      (ordered ⟨.decimal, context⟩ mirrored r l) := by
  unfold ordered
  rw [Bool.or_comm r.isAbsent]
  split
  · exact rfl
  · apply (together_compare_swap hl hr).map
    rintro order _ rfl
    cases order with
    | none => rfl
    | some order => exact (h order).symm

theorem together_boolean {m m' : Except EvalError Bool} (h : Together Eq m m') :
    Together Eq (m.map boolean) (m'.map boolean) :=
  h.map fun _ _ => congrArg boolean

/-!
# Inequality
-/

theorem operate_notEqual (hl : l.isAbsent = false) (hr : r.isAbsent = false) {v : Value}
    (h : operate arithmetic .equal l r = .ok v) :
    ∃ b, v = .boolean b ∧ operate arithmetic .notEqual l r = .ok (.boolean !b) := by
  rw [operate] at h
  rw [operate, notEqual, hl, hr, Bool.or_self, if_neg Bool.false_ne_true]
  cases hequal : equal arithmetic l r with
  | error e =>
      rw [hequal] at h
      cases h
  | ok b =>
      rw [hequal] at h
      cases h
      exact ⟨b, rfl, rfl⟩

/-!
# One order
-/

theorem isAbsent_of_toNumber (hx : l.toNumber arithmetic = .ok x) : l.isAbsent = false := by
  cases l with
  | absent => cases hx
  | boolean | number | text => rfl

theorem ordered_of_toNumber (holds : Ordering → Bool) (hx : l.toNumber arithmetic = .ok x)
    (hy : r.toNumber arithmetic = .ok y) :
    ordered arithmetic holds l r = .ok ((x.compare y).any holds) := by
  rw [ordered, isAbsent_of_toNumber hx, isAbsent_of_toNumber hy, compare_of_toNumber hx hy,
    Bool.or_self, if_neg Bool.false_ne_true]
  rfl

theorem equal_of_toNumber (hnumber : (∃ n, l = .number n) ∨ ∃ n, r = .number n)
    (hl : ∀ b, l ≠ .boolean b) (hr : ∀ b, r ≠ .boolean b) (hx : l.toNumber arithmetic = .ok x)
    (hy : r.toNumber arithmetic = .ok y) :
    equal arithmetic l r = .ok (x.compare y == some .eq) := by
  have hcompare : (compare arithmetic l r).map (· == some .eq) =
      .ok (x.compare y == some .eq) := by
    rw [compare_of_toNumber hx hy]
    rfl
  rcases hnumber with ⟨n, rfl⟩ | ⟨n, rfl⟩
  · cases r with
    | absent => cases hy
    | boolean b => exact absurd rfl (hr b)
    | number | text => exact hcompare
  · cases l with
    | absent => cases hx
    | boolean b => exact absurd rfl (hl b)
    | number | text => exact hcompare

/-- Two decimals stand in one order, and each operator looks it up. -/
theorem operate_of_toNumber {a b : Decimal} (hnumber : (∃ n, l = .number n) ∨ ∃ n, r = .number n)
    (hl : ∀ b, l ≠ .boolean b) (hr : ∀ b, r ≠ .boolean b)
    (hx : l.toNumber arithmetic = .ok (.decimal a))
    (hy : r.toNumber arithmetic = .ok (.decimal b)) :
    ∀ op ∈ [Operator.less, .equal, .greater],
      operate arithmetic op l r = .ok (.boolean (decide (op = .ofOrder (a.compare b)))) := by
  intro op hop
  simp only [List.mem_cons, List.not_mem_nil, or_false] at hop
  rcases hop with rfl | rfl | rfl
  · rw [operate, ordered_of_toNumber Ordering.isLT hx hy]
    show Except.ok (boolean (a.compare b).isLT) = _
    cases a.compare b with
    | lt | eq | gt => rfl
  · rw [operate, equal_of_toNumber hnumber hl hr hx hy]
    show Except.ok (boolean (some (a.compare b) == some .eq)) = _
    cases a.compare b with
    | lt | eq | gt => rfl
  · rw [operate, ordered_of_toNumber Ordering.isGT hx hy]
    show Except.ok (boolean (a.compare b).isGT) = _
    cases a.compare b with
    | lt | eq | gt => rfl

theorem existsUnique_of_order {result : Operator → Except EvalError Value} {order : Ordering}
    (h : ∀ op ∈ [Operator.less, .equal, .greater],
      result op = .ok (.boolean (decide (op = .ofOrder order)))) :
    ∃! op, op ∈ [Operator.less, .equal, .greater] ∧ result op = .ok (.boolean true) := by
  have hmem := Operator.ofOrder_mem order
  refine ⟨.ofOrder order, ⟨hmem, ?_⟩, ?_⟩
  · rw [h _ hmem, decide_eq_true rfl]
  · rintro op ⟨hop, htrue⟩
    rw [h op hop] at htrue
    simpa using htrue

theorem operate_lessOrEqual_of_toNumber {a b : Decimal}
    (hx : l.toNumber arithmetic = .ok (.decimal a))
    (hy : r.toNumber arithmetic = .ok (.decimal b)) :
    operate arithmetic .lessOrEqual l r =
      .ok (.boolean (decide (Operator.less = .ofOrder (a.compare b)) ||
        decide (Operator.equal = .ofOrder (a.compare b)))) := by
  have hle := ordered_of_toNumber Ordering.isLE hx hy
  rw [operate, hle]
  show Except.ok (boolean (a.compare b).isLE) = _
  cases a.compare b with
  | lt | eq | gt => rfl

/-- Equality does not mind the order of its operands and is the opposite of inequality, and the
order operators come in pairs.  Where a number is compared with a number, or with a text that is
one, exactly one of less, equal and greater is true. -/
theorem operate_coherent (context : DecimalContext) (hl : l.NotDouble) (hr : r.NotDouble) :
    let result : Operator → Value → Value → Except EvalError Value :=
      operate ⟨.decimal, context⟩
    result .equal l r = result .equal r l ∧
      (l.isAbsent = false → r.isAbsent = false → ∀ v, result .equal l r = .ok v →
        ∃ b, v = .boolean b ∧ result .notEqual l r = .ok (.boolean !b)) ∧
      Together Eq (result .less l r) (result .greater r l) ∧
      Together Eq (result .lessOrEqual l r) (result .greaterOrEqual r l) ∧
      ((∃ n, l = .number n) ∨ (∃ n, r = .number n) →
        (∀ b, l ≠ .boolean b) → (∀ b, r ≠ .boolean b) →
        (∃ x, l.toNumber ⟨.decimal, context⟩ = .ok x) →
        (∃ y, r.toNumber ⟨.decimal, context⟩ = .ok y) →
          (∀ op ∈ [Operator.less, .equal, .greater, .lessOrEqual],
            ∃ b, result op l r = .ok (.boolean b)) ∧
          (∃! op, op ∈ [Operator.less, .equal, .greater] ∧ result op l r = .ok (.boolean true)) ∧
          (result .lessOrEqual l r = .ok (.boolean true) ↔
            result .less l r = .ok (.boolean true) ∨ result .equal l r = .ok (.boolean true))) := by
  intro result
  have hmirror : ∀ order : Ordering, order.swap.isGT = order.isLT ∧
      order.swap.isGE = order.isLE := by
    intro order
    cases order with
    | lt | eq | gt => exact ⟨rfl, rfl⟩
  refine ⟨?_, fun habsent habsent' v => operate_notEqual habsent habsent', ?_, ?_, ?_⟩
  · exact congrArg (Except.map boolean) (equal_comm hl hr)
  · exact together_boolean (together_ordered_swap (fun order => (hmirror order).1) hl hr)
  · exact together_boolean (together_ordered_swap (fun order => (hmirror order).2) hl hr)
  · rintro hnumber hbl hbr ⟨x, hx⟩ ⟨y, hy⟩
    rcases hl.exists_decimal hx with ⟨a, rfl⟩
    rcases hr.exists_decimal hy with ⟨b, rfl⟩
    have hone := operate_of_toNumber hnumber hbl hbr hx hy
    have hle := operate_lessOrEqual_of_toNumber hx hy
    refine ⟨?_, existsUnique_of_order hone, ?_⟩
    · intro op hop
      rcases List.mem_append.mp
        (show op ∈ [Operator.less, .equal, .greater] ++ [.lessOrEqual] from hop) with hthree | hlast
      · exact ⟨_, hone op hthree⟩
      · rw [List.mem_singleton.mp hlast]
        exact ⟨_, hle⟩
    · show operate _ .lessOrEqual l r = _ ↔ operate _ .less l r = _ ∨ operate _ .equal l r = _
      rw [hle, hone .less (by decide), hone .equal (by decide)]
      simp only [Except.ok.injEq, Value.boolean.injEq, Bool.or_eq_true]

/-- A text that is a number, rounded away from the number that it is compared with. -/
theorem operate_coherent_text :
    let l : Value := .text " 2.04 "
    let r : Value := .number (.decimal ⟨false, 204, 2, by decide, by decide⟩)
    let context : DecimalContext := ⟨2, .floor⟩
    l.NotDouble ∧ r.NotDouble ∧ (∀ b, l ≠ .boolean b) ∧ (∀ b, r ≠ .boolean b) ∧
      (∃ x, l.toNumber ⟨.decimal, context⟩ = .ok x) ∧
      operate ⟨.decimal, context⟩ .equal l r = operate ⟨.decimal, context⟩ .equal r l ∧
      ∃! op, op ∈ [Operator.less, .equal, .greater] ∧
        operate ⟨.decimal, context⟩ op l r = .ok (.boolean true) := by
  intro l r context
  have hx : l.toNumber ⟨.decimal, context⟩ =
      .ok (.decimal ⟨false, 20, 1, by decide, by decide⟩) := by
    have hparse : Number.parse " 2.04 " ⟨.decimal, context⟩ =
        .ok (.decimal ⟨false, 20, 1, by decide, by decide⟩) :=
      Number.parse_of_toDecimal? (l := ⟨false, ['2'], ['0', '4']⟩) (by decide +kernel)
        (by decide +kernel)
    unfold Value.toNumber
    dsimp only [l]
    rw [hparse]
  have hl : l.NotDouble := nofun
  have hr : r.NotDouble := notDouble_decimal _
  have hbl : ∀ b, l ≠ .boolean b := nofun
  have hbr : ∀ b, r ≠ .boolean b := nofun
  have hcoherent := operate_coherent context hl hr
  have hone := hcoherent.2.2.2.2 (Or.inr ⟨_, rfl⟩) hbl hbr ⟨_, hx⟩ ⟨_, rfl⟩
  exact ⟨hl, hr, hbl, hbr, ⟨_, hx⟩, hcoherent.1, hone.2.1⟩

end Value
end TreeQuery
