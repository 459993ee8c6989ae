import TreeQuery.Chain.Basic
import TreeQuery.Proofs.Numeric.Trimming

/-!
# Alike values

Two values are alike if they are the same up to zeros at the end of a decimal.
Alike values have the same text and the same truth, and an operator answers
alike operands alike.  Doubles are left out: the double next to a decimal
depends on how many digits the decimal is written with.
-/

namespace TreeQuery

def Together {A B E F : Type} (relation : A → B → Prop) : Except E A → Except F B → Prop
  | .ok a, .ok b => relation a b
  | .error _, .error _ => True
  | _, _ => False

namespace Together

variable {A A' B B' E F : Type} {relation : A → A' → Prop} {result : B → B' → Prop}

theorem cases {m : Except E A} {m' : Except F A'} (h : Together relation m m') :
    (∃ a a', m = .ok a ∧ m' = .ok a' ∧ relation a a') ∨ ∃ e e', m = .error e ∧ m' = .error e' := by
  cases m with
  | ok a =>
      cases m' with
      | ok a' => exact Or.inl ⟨a, a', rfl, rfl, h⟩
      | error e => exact h.elim
  | error e =>
      cases m' with
      | ok a' => exact h.elim
      | error e' => exact Or.inr ⟨e, e', rfl, rfl⟩

theorem bind {m : Except E A} {m' : Except F A'} {k : A → Except E B} {k' : A' → Except F B'}
    (h : Together relation m m') (hk : ∀ a a', relation a a' → Together result (k a) (k' a')) :
    Together result (m >>= k) (m' >>= k') := by
  rcases h.cases with ⟨a, a', rfl, rfl, ha⟩ | ⟨e, e', rfl, rfl⟩
  · exact hk a a' ha
  · exact trivial

theorem map {m : Except E A} {m' : Except F A'} {f : A → B} {f' : A' → B'}
    (h : Together relation m m') (hf : ∀ a a', relation a a' → result (f a) (f' a')) :
    Together result (m.map f) (m'.map f') := by
  rcases h.cases with ⟨a, a', rfl, rfl, ha⟩ | ⟨e, e', rfl, rfl⟩
  · exact hf a a' ha
  · exact trivial

end Together

/-!
# Numbers
-/

namespace Number

inductive Alike : Number → Number → Prop where
  | decimal {a b : Decimal} (h : (a == b) = true) : Alike (.decimal a) (.decimal b)

variable {x x' y y' : Number} {arithmetic : Arithmetic}

theorem alike_refl (d : Decimal) : Alike (.decimal d) (.decimal d) :=
  .decimal (Decimal.beq_refl d)

theorem alike_integer (n : Int64) {representation : Representation}
    (h : representation = .decimal) :
    Alike (.integer n representation) (.integer n representation) := by
  subst h
  exact alike_refl _

theorem together_parse (text : String) (h : arithmetic.representation = .decimal) :
    Together Alike (parse text arithmetic) (parse text arithmetic) := by
  unfold parse
  simp only [h]
  cases Literal.read? (Blank.trim text.toList) with
  | none => trivial
  | some literal =>
      dsimp only
      cases literal.toDecimal? arithmetic.context with
      | none => trivial
      | some d => exact alike_refl d

theorem Alike.isZero_eq (h : x.Alike x') : x.isZero = x'.isZero := by
  cases h with
  | decimal h => exact Decimal.isZero_congr h

theorem Alike.isNaN_eq (h : x.Alike x') : x.isNaN = x'.isNaN := by
  cases h with
  | decimal h => rfl

theorem Alike.text_eq (h : x.Alike x') : x.text = x'.text := by
  cases h with
  | decimal h => exact Decimal.text_congr h

theorem Alike.equalsPosition_eq (h : x.Alike x') (position : Nat) :
    x.equalsPosition position = x'.equalsPosition position := by
  cases h with
  | decimal h => exact equalsPosition_congr h position

theorem Alike.compare_eq (hx : x.Alike x') (hy : y.Alike y') : x.compare y = x'.compare y' := by
  cases hx with
  | decimal ha =>
      cases hy with
      | decimal hb => exact congrArg some (Decimal.compare_congr ha hb)

/-!
# Arithmetic on numbers
-/

def Respects (operation : Number → Number → Except NumberError Number) : Prop :=
  ∀ x x' y y', x.Alike x' → y.Alike y' → Together Alike (operation x y) (operation x' y')

theorem together_combine {context : DecimalContext} {operation : String}
    {decimal : Decimal → Decimal → Option Decimal} {double : Double → Double → Double}
    {a a' b b' : Decimal} (h : Decimal.Agree (decimal a b) (decimal a' b')) :
    Together Alike (combine context operation decimal double (.decimal a) (.decimal b))
      (combine context operation decimal double (.decimal a') (.decimal b')) := by
  unfold combine
  dsimp only
  rcases h.cases with ⟨c, d, hleft, hright, hsame⟩ | ⟨hleft, hright⟩
  · rw [hleft, hright]
    exact .decimal (DecimalContext.round_congr hsame)
  · rw [hleft, hright]
    exact trivial

theorem respects_combine {context : DecimalContext} {operation : String}
    {decimal : Decimal → Decimal → Option Decimal} {double : Double → Double → Double}
    (h : ∀ {a a' b b' : Decimal}, (a == a') = true → (b == b') = true →
      Decimal.Agree (decimal a b) (decimal a' b')) :
    Respects (combine context operation decimal double) := by
  rintro _ _ _ _ ⟨ha⟩ ⟨hb⟩
  exact together_combine (h ha hb)

theorem respects_add (context : DecimalContext) : Respects (add context) :=
  respects_combine Decimal.agree_add

theorem respects_sub (context : DecimalContext) : Respects (sub context) :=
  respects_combine Decimal.agree_sub

theorem respects_mul (context : DecimalContext) : Respects (mul context) :=
  respects_combine Decimal.agree_mul

theorem respects_unless_zero {context : DecimalContext} {operation : String}
    {decimal : Decimal → Decimal → Option Decimal} {double : Double → Double → Double}
    (h : ∀ {a a' b b' : Decimal}, (a == a') = true → (b == b') = true → b.isZero = false →
      Decimal.Agree (decimal a b) (decimal a' b')) :
    Respects fun x y =>
      if dividesByZero x y then .error .divisionByZero
      else combine context operation decimal double x y := by
  rintro _ _ y y' ⟨ha⟩ hy
  cases hy with
  | @decimal b b' hb =>
      have hzeros := Decimal.isZero_congr hb
      cases hzero : b.isZero with
      | true =>
          simp only [dividesByZero, ← hzeros, hzero, if_true]
          exact trivial
      | false =>
          simp only [dividesByZero, ← hzeros, hzero, Bool.false_eq_true, if_false]
          exact together_combine (h ha hb hzero)

theorem respects_div (context : DecimalContext) : Respects (div context) :=
  respects_unless_zero Decimal.agree_div

theorem respects_rem (context : DecimalContext) : Respects (rem context) :=
  respects_unless_zero Decimal.agree_rem

theorem Alike.map {f : Number → Number} {g : Decimal → Decimal}
    (hf : ∀ d, f (.decimal d) = .decimal (g d))
    (hg : ∀ {a b : Decimal}, (a == b) = true → (g a == g b) = true) (h : x.Alike x') :
    (f x).Alike (f x') := by
  cases h with
  | decimal h =>
      rw [hf, hf]
      exact .decimal (hg h)

theorem Alike.negate (h : x.Alike x') : x.negate.Alike x'.negate :=
  h.map (fun _ => rfl) Decimal.negate_congr

theorem Alike.abs (h : x.Alike x') : x.abs.Alike x'.abs :=
  h.map (fun _ => rfl) Decimal.abs_congr

theorem Alike.floor (h : x.Alike x') : x.floor.Alike x'.floor :=
  h.map (fun _ => rfl) (Decimal.toWhole_congr .floor)

theorem Alike.ceiling (h : x.Alike x') : x.ceiling.Alike x'.ceiling :=
  h.map (fun _ => rfl) (Decimal.toWhole_congr .ceiling)

theorem Alike.round (h : x.Alike x') : x.round.Alike x'.round :=
  h.map (fun _ => rfl) Decimal.round_congr

end Number

/-!
# Values
-/

namespace Value

/-- The same value up to zeros at the end of a decimal; a double is like nothing. -/
inductive Alike : Value → Value → Prop where
  | boolean (b : Bool) : Alike (.boolean b) (.boolean b)
  | number {x y : Number} (h : x.Alike y) : Alike (.number x) (.number y)
  | text (t : String) : Alike (.text t) (.text t)
  | absent : Alike .absent .absent

variable {a a' b b' : Value} {arithmetic : Arithmetic}

theorem Alike.isAbsent_eq (h : a.Alike a') : a.isAbsent = a'.isAbsent := by
  cases h with
  | boolean | number | text | absent => rfl

theorem Alike.toBoolean_eq (h : a.Alike a') : a.toBoolean = a'.toBoolean := by
  cases h with
  | number h => rw [toBoolean, toBoolean, h.isZero_eq, h.isNaN_eq]
  | boolean | text | absent => rfl

theorem Alike.toText_eq (h : a.Alike a') : a.toText = a'.toText := by
  cases h with
  | number h => exact h.text_eq
  | boolean | text | absent => rfl

theorem Alike.accepts_eq (h : a.Alike a') (position : Nat) :
    Predicate.accepts a position = Predicate.accepts a' position := by
  cases h with
  | number h => exact h.equalsPosition_eq position
  | boolean | text | absent => rfl

theorem Alike.toNumber (h : a.Alike a') (harithmetic : arithmetic.representation = .decimal) :
    Together Number.Alike (a.toNumber arithmetic) (a'.toNumber arithmetic) := by
  cases h with
  | boolean b => exact Number.alike_integer _ harithmetic
  | number h => exact h
  | text t =>
      have hparse := Number.together_parse t harithmetic
      rw [Value.toNumber]
      cases hnumber : Number.parse t arithmetic with
      | ok n =>
          rw [hnumber] at hparse
          exact hparse
      | error e => trivial
  | absent => trivial

/-!
# Operators on values
-/

theorem together_compare (ha : a.Alike a') (hb : b.Alike b')
    (harithmetic : arithmetic.representation = .decimal) :
    Together Eq (compare arithmetic a b) (compare arithmetic a' b') := by
  apply (ha.toNumber harithmetic).bind
  intro x x' hx
  apply (hb.toNumber harithmetic).bind
  intro y y' hy
  exact hx.compare_eq hy

theorem together_equal (ha : a.Alike a') (hb : b.Alike b')
    (harithmetic : arithmetic.representation = .decimal) :
    Together Eq (equal arithmetic a b) (equal arithmetic a' b') := by
  have hcompare := (together_compare ha hb harithmetic).map
    fun _ _ => congrArg (· == some Ordering.eq)
  have hboolean : Together Eq (.ok (a.toBoolean == b.toBoolean) : Except EvalError Bool)
      (.ok (a'.toBoolean == b'.toBoolean) : Except EvalError Bool) := by
    rw [ha.toBoolean_eq, hb.toBoolean_eq]
    exact rfl
  cases ha with
  | absent => exact rfl
  | boolean =>
      cases hb with
      | absent => exact rfl
      | _ => exact hboolean
  | number =>
      cases hb with
      | absent => exact rfl
      | boolean => exact hboolean
      | _ => exact hcompare
  | text =>
      cases hb with
      | absent | text => exact rfl
      | boolean => exact hboolean
      | number => exact hcompare

theorem together_notEqual (ha : a.Alike a') (hb : b.Alike b')
    (harithmetic : arithmetic.representation = .decimal) :
    Together Eq (notEqual arithmetic a b) (notEqual arithmetic a' b') := by
  unfold notEqual
  rw [ha.isAbsent_eq, hb.isAbsent_eq]
  split
  · exact rfl
  · exact (together_equal ha hb harithmetic).map fun _ _ => congrArg (!·)

theorem together_ordered (holds : Ordering → Bool) (ha : a.Alike a') (hb : b.Alike b')
    (harithmetic : arithmetic.representation = .decimal) :
    Together Eq (ordered arithmetic holds a b) (ordered arithmetic holds a' b') := by
  unfold ordered
  rw [ha.isAbsent_eq, hb.isAbsent_eq]
  split
  · exact rfl
  · exact (together_compare ha hb harithmetic).map fun _ _ => congrArg (Option.any holds)

theorem together_calculate
    {operation : DecimalContext → Number → Number → Except NumberError Number}
    (h : ∀ context, Number.Respects (operation context)) (ha : a.Alike a') (hb : b.Alike b')
    (harithmetic : arithmetic.representation = .decimal) :
    Together Alike (calculate arithmetic operation a b) (calculate arithmetic operation a' b') := by
  unfold calculate
  rw [ha.isAbsent_eq, hb.isAbsent_eq]
  split
  · exact .absent
  · apply (ha.toNumber harithmetic).bind
    intro x x' hx
    apply (hb.toNumber harithmetic).bind
    intro y y' hy
    rcases (h arithmetic.context x x' y y' hx hy).cases with
      ⟨n, n', hleft, hright, hsame⟩ | ⟨e, e', hleft, hright⟩
    · rw [hleft, hright]
      exact .number hsame
    · rw [hleft, hright]
      exact trivial

theorem together_operate (op : Operator) (ha : a.Alike a') (hb : b.Alike b')
    (harithmetic : arithmetic.representation = .decimal) :
    Together Alike (operate arithmetic op a b) (operate arithmetic op a' b') := by
  have htruth : ∀ (m m' : Except EvalError Bool), Together Eq m m' →
      Together Alike (m.map .boolean) (m'.map .boolean) := by
    intro m m' h
    apply h.map
    rintro b _ rfl
    exact .boolean b
  cases op with
  | or | and =>
      rw [operate, operate, ha.toBoolean_eq, hb.toBoolean_eq]
      exact .boolean _
  | equal => exact htruth _ _ (together_equal ha hb harithmetic)
  | notEqual => exact htruth _ _ (together_notEqual ha hb harithmetic)
  | less | lessOrEqual | greater | greaterOrEqual =>
      exact htruth _ _ (together_ordered _ ha hb harithmetic)
  | add => exact together_calculate Number.respects_add ha hb harithmetic
  | subtract => exact together_calculate Number.respects_sub ha hb harithmetic
  | multiply => exact together_calculate Number.respects_mul ha hb harithmetic
  | divide => exact together_calculate Number.respects_div ha hb harithmetic
  | modulo => exact together_calculate Number.respects_rem ha hb harithmetic

theorem together_mapNumber {f : Number → Number}
    (hf : ∀ {x x' : Number}, x.Alike x' → (f x).Alike (f x')) (ha : a.Alike a')
    (harithmetic : arithmetic.representation = .decimal) :
    Together Alike (a.mapNumber arithmetic f) (a'.mapNumber arithmetic f) := by
  unfold mapNumber
  rw [ha.isAbsent_eq]
  split
  · exact .absent
  · exact (ha.toNumber harithmetic).map fun _ _ hx => .number (hf hx)

end Value

end TreeQuery
