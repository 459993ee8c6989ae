import TreeQuery.Numeric.Decimal

/-!
# Strategies and magnitudes

A strategy looks at the whole numbers around a signed quotient, a rounding mode
at the rest of its magnitude.  Below zero the two neighbours change places.
-/

namespace TreeQuery

-- Powers are those of the core library, whatever else is in scope.
attribute [local instance (high)] instPowNat

namespace Rounding

def mirror : Rounding → Rounding
  | .ceiling => .floor
  | .floor => .ceiling
  | mode => mode

theorem quotient_true (mode : Rounding) (n d : Nat) :
    mode.quotient true n d = mode.mirror.quotient false n d := by
  cases mode <;> simp [quotient, raises, mirror]

end Rounding

namespace RoundingStrategy

variable {n d : Nat}

/-!
# Neighbours
-/

theorem below_neg (n : Int) (d : Nat) : below (-n) d = -above n d :=
  (Int.neg_neg _).symm

theorem above_neg (n : Int) (d : Nat) : above (-n) d = -below n d := by
  rw [above, Int.neg_neg]
  rfl

theorem below_natCast (n d : Nat) : below n d = (n / d : Nat) :=
  (Int.natCast_ediv n d).symm

theorem above_of_mod_eq_zero (hd : 0 < d) (h : n % d = 0) : above n d = (n / d : Nat) := by
  have hne : (d : Int) ≠ 0 := Int.natCast_ne_zero.mpr (Nat.ne_of_gt hd)
  have hmul : (n : Int) = (n / d : Nat) * d := by
    rw [← Int.natCast_mul, Nat.div_mul_cancel (Nat.dvd_of_mod_eq_zero h)]
  unfold above
  rw [hmul, ← Int.neg_mul, Int.mul_ediv_cancel _ hne, Int.neg_neg]

theorem above_of_mod_ne_zero (hd : 0 < d) (h : n % d ≠ 0) : above n d = (n / d : Nat) + 1 := by
  have hne : (d : Int) ≠ 0 := Int.natCast_ne_zero.mpr (Nat.ne_of_gt hd)
  have hlt : n % d < d := Nat.mod_lt n hd
  have hsplit : ((d * (n / d) + n % d : Nat) : Int) = n := by rw [Nat.div_add_mod]
  have hneg : -(n : Int) = (d - (n % d : Nat)) + (-((n / d : Nat) + 1)) * d := by
    rw [Int.neg_mul, Int.add_mul, ← hsplit, Int.natCast_add, Int.natCast_mul,
      Int.mul_comm (d : Int)]
    omega
  unfold above
  rw [hneg, Int.add_mul_ediv_right _ _ hne, Int.ediv_eq_zero_of_lt (by omega) (by omega),
    Int.zero_add, Int.neg_neg]

/-!
# The nearer neighbour
-/

theorem nearest_natCast (hd : 0 < d) (h : n % d ≠ 0) (middle : Int) :
    nearest n d middle =
      if 2 * (n % d) < d then ((n / d : Nat) : Int)
      else if d < 2 * (n % d) then (n / d : Nat) + 1 else middle := by
  have hsplit : ((n / d * d + n % d : Nat) : Int) = n := by rw [Nat.mul_comm, Nat.div_add_mod]
  have hbelow : (n : Int) - (n / d : Nat) * d = (n % d : Nat) := by
    rw [← hsplit, Int.natCast_add, Int.natCast_mul]
    omega
  have habove : ((n / d : Nat) + 1) * (d : Int) - n = d - (n % d : Nat) := by
    rw [Int.add_mul, ← hsplit, Int.natCast_add, Int.natCast_mul]
    omega
  unfold nearest
  rw [above_of_mod_ne_zero hd h, below_natCast]
  dsimp only
  rw [hbelow, habove]
  split <;> split <;> omega

theorem nearest_neg (n : Int) (d : Nat) (middle : Int) :
    nearest (-n) d (-middle) = -nearest n d middle := by
  have hbelow : -n - -above n d * d = above n d * d - n := by
    rw [Int.neg_mul]
    omega
  have habove : -below n d * d - -n = n - below n d * d := by
    rw [Int.neg_mul]
    omega
  unfold nearest
  dsimp only
  rw [below_neg, above_neg, hbelow, habove]
  split <;> split <;> omega

/-!
# Rounding
-/

theorem round_of_mod_eq_zero (strategy : RoundingStrategy) (hd : 0 < d) (h : n % d = 0) :
    strategy.round n d = (n / d : Nat) ∧ strategy.round (-n) d = -((n / d : Nat) : Int) := by
  have habove := above_of_mod_eq_zero hd h
  cases strategy <;>
    simp only [round, nearest, towardZero, fromZero, below_neg, above_neg, below_natCast, habove,
      ite_self, and_self]

theorem round_natCast (mode : Rounding) (hd : 0 < d) :
    mode.strategy.round n d = mode.quotient false n d := by
  by_cases h : n % d = 0
  · rw [Rounding.quotient_of_mod_eq_zero hd h]
    exact (round_of_mod_eq_zero _ hd h).1
  · have hsign : ¬(n : Int) < 0 := by omega
    have habove := above_of_mod_ne_zero hd h
    unfold Rounding.strategy round Rounding.quotient Rounding.raises
    cases mode with
    | up => simp [fromZero, hsign, habove, h]
    | down => simp [towardZero, hsign, below_natCast]
    | ceiling => simp [habove, h]
    | floor => simp [below_natCast]
    | halfUp =>
        simp only [fromZero, hsign, if_false, nearest_natCast hd h, habove, decide_eq_true_eq]
        (repeat' split) <;> omega
    | halfDown =>
        simp only [towardZero, hsign, if_false, nearest_natCast hd h, below_natCast,
          decide_eq_true_eq]
        (repeat' split) <;> omega
    | halfEven =>
        simp only [nearest_natCast hd h, below_natCast, habove, Bool.or_eq_true, Bool.and_eq_true,
          decide_eq_true_eq, beq_iff_eq]
        (repeat' split) <;> omega

theorem round_neg (mode : Rounding) (hd : 0 < d) :
    mode.strategy.round (-n) d = -mode.mirror.strategy.round n d := by
  by_cases h : n % d = 0
  · rw [(round_of_mod_eq_zero _ hd h).1]
    exact (round_of_mod_eq_zero _ hd h).2
  · have hsign : ¬(n : Int) < 0 := by omega
    have hneg : -(n : Int) < 0 := by
      have hpos : 0 < n := Nat.pos_of_ne_zero fun hzero => h (by rw [hzero, Nat.zero_mod])
      omega
    have hfrom : fromZero (-n) d = -fromZero n d := by
      rw [fromZero, if_pos hneg, below_neg, fromZero, if_neg hsign]
    have htoward : towardZero (-n) d = -towardZero n d := by
      rw [towardZero, if_pos hneg, above_neg, towardZero, if_neg hsign]
    cases mode with
    | up => exact hfrom
    | down => exact htoward
    | ceiling => exact above_neg n d
    | floor => exact below_neg n d
    | halfUp =>
        show nearest (-n) d (fromZero (-n) d) = -nearest n d (fromZero n d)
        rw [hfrom, nearest_neg]
    | halfDown =>
        show nearest (-n) d (towardZero (-n) d) = -nearest n d (towardZero n d)
        rw [htoward, nearest_neg]
    | halfEven =>
        -- One of two neighbours is even, also below zero.
        have heven : (if below (-n) d % 2 = 0 then below (-n) d else above (-n) d) =
            -if below n d % 2 = 0 then below n d else above n d := by
          rw [below_neg, above_neg, below_natCast, above_of_mod_ne_zero hd h]
          split <;> split <;> omega
        show nearest (-n) d (if below (-n) d % 2 = 0 then _ else _) = -nearest n d _
        rw [heven, nearest_neg]

theorem natAbs_round (mode : Rounding) (hd : 0 < d) (a : Decimal) :
    (mode.strategy.round a.signed d).natAbs = mode.quotient a.negative a.coefficient d := by
  unfold Decimal.signed
  cases a.negative with
  | true =>
      rw [if_pos rfl, round_neg mode hd, round_natCast _ hd, Int.natAbs_neg,
        Rounding.quotient_true]
      exact Int.natAbs_natCast _
  | false =>
      rw [if_neg Bool.false_ne_true, round_natCast mode hd]
      exact Int.natAbs_natCast _

end RoundingStrategy
end TreeQuery
