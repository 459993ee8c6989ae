import TreeQuery.Numeric.Literal

/-!
# Rows of digits

Reading a row of digits goes from left to right, so that a row in front of
another one counts in powers of ten.  A literal is a row with a point in it and
perhaps a sign before it.
-/

namespace TreeQuery

-- Powers are those of the core library, whatever else is in scope.
attribute [local instance (high)] instPowNat

namespace Digits

/-!
# Reading rows
-/

theorem isDigit_digit (n : Nat) : Literal.isDigit (digit n) = true := by
  have h : n % 10 < 10 := Nat.mod_lt n (by omega)
  unfold digit
  generalize n % 10 = k at h
  have hk : k = 0 ∨ k = 1 ∨ k = 2 ∨ k = 3 ∨ k = 4 ∨ k = 5 ∨ k = 6 ∨ k = 7 ∨ k = 8 ∨ k = 9 := by
    omega
  rcases hk with rfl | rfl | rfl | rfl | rfl | rfl | rfl | rfl | rfl | rfl <;> rfl

theorem isDigit_of_mem_write {n : Nat} {c : Char} (h : c ∈ write n) :
    Literal.isDigit c = true := by
  fun_induction write n with
  | case1 n _ =>
      rw [List.mem_singleton.mp h]
      exact isDigit_digit n
  | case2 n _ ih =>
      rcases List.mem_append.mp h with hmem | hlast
      · exact ih hmem
      · rw [List.mem_singleton.mp hlast]
        exact isDigit_digit n

theorem write_ne_nil (n : Nat) : write n ≠ [] :=
  List.length_pos_iff.mp (count_pos n)

theorem readFrom_eq (start : Nat) (row : List Char) :
    readFrom start row = start * 10 ^ row.length + read row := by
  induction row generalizing start with
  | nil => simp [read, readFrom]
  | cons c row ih =>
      have hstart : readFrom start (c :: row) = readFrom (10 * start + value c) row := rfl
      have hzero : read (c :: row) = readFrom (10 * 0 + value c) row := rfl
      rw [hstart, hzero, ih, ih (10 * 0 + value c), List.length_cons, Nat.pow_succ]
      rw [Nat.mul_zero, Nat.zero_add, Nat.add_mul, Nat.add_assoc]
      congr 1
      rw [Nat.mul_comm 10 start, Nat.mul_assoc, Nat.mul_comm 10]

theorem read_cons (c : Char) (row : List Char) :
    read (c :: row) = value c * 10 ^ row.length + read row := by
  show readFrom (10 * 0 + value c) row = _
  rw [readFrom_eq, Nat.mul_zero, Nat.zero_add]

theorem read_append (xs ys : List Char) :
    read (xs ++ ys) = read xs * 10 ^ ys.length + read ys := by
  rw [read, readFrom_append, readFrom_eq]
  rfl

theorem read_zeros (count : Nat) : read (List.replicate count '0') = 0 := by
  induction count with
  | zero => rfl
  | succ count ih =>
      rw [List.replicate_succ', read_append, ih]
      rfl

theorem count_le {n k : Nat} (hk : 0 < k) (h : n < 10 ^ k) : count n ≤ k := by
  unfold count
  fun_induction write n generalizing k with
  | case1 => exact hk
  | case2 n hn ih =>
      rcases Nat.exists_eq_succ_of_ne_zero (Nat.pos_iff_ne_zero.mp hk) with ⟨j, rfl⟩
      rw [List.length_append, List.length_singleton]
      apply Nat.succ_le_succ
      rw [Nat.pow_succ] at h
      apply ih
      · rcases Nat.eq_zero_or_pos j with rfl | hj
        · omega
        · exact hj
      · omega

theorem value_le {c : Char} (h : Literal.isDigit c = true) : value c ≤ 9 := by
  have hle : c ≤ '9' := of_decide_eq_true (Bool.and_eq_true_iff.mp h).2
  have hnat : c.toNat ≤ 57 := hle
  exact Nat.sub_le_sub_right hnat 48

theorem digit_value {c : Char} (h : Literal.isDigit c = true) :
    digit (value c) = c := by
  have hle := value_le h
  have hlow : '0' ≤ c := of_decide_eq_true (Bool.and_eq_true_iff.mp h).1
  have hnat : 48 ≤ c.toNat := hlow
  unfold digit
  rw [Nat.mod_eq_of_lt (Nat.lt_succ_of_le hle), value, Nat.add_sub_cancel' hnat]
  exact Char.ofNat_toNat c

theorem read_dropWhile (row : List Char) :
    read (row.dropWhile (· == '0')) = read row := by
  induction row with
  | nil => rfl
  | cons c row ih =>
      rw [List.dropWhile_cons]
      split
      · rename_i hzero
        rw [ih, beq_iff_eq.mp hzero]
        rfl
      · rfl

theorem read_lt {row : List Char} (h : ∀ c ∈ row, Literal.isDigit c = true) :
    read row < 10 ^ row.length := by
  induction row with
  | nil => decide
  | cons c row ih =>
      have hrest := ih fun c' hc' => h c' (List.mem_cons_of_mem c hc')
      have hfirst : value c * 10 ^ row.length ≤ 9 * 10 ^ row.length :=
        Nat.mul_le_mul_right _ (value_le (h c List.mem_cons_self))
      rw [read_cons, List.length_cons, Nat.pow_succ]
      omega

/-!
# Counting digits
-/

theorem count_of_le {n : Nat} (h : 10 ≤ n) : count n = count (n / 10) + 1 := by
  unfold count
  rw [write, if_neg (Nat.not_lt.mpr h), List.length_append]
  rfl

theorem count_of_lt {n : Nat} (h : n < 10) : count n = 1 := by
  unfold count
  rw [write, if_pos h]
  rfl

theorem lt_pow_count (n : Nat) : n < 10 ^ count n := by
  induction n using Nat.strongRecOn with
  | ind n ih =>
      rcases Nat.lt_or_ge n 10 with hlt | hge
      · rw [count_of_lt hlt]
        exact hlt
      · have hrest := ih (n / 10) (Nat.div_lt_self (Nat.lt_of_lt_of_le (by decide) hge) (by decide))
        rw [count_of_le hge, Nat.pow_succ]
        exact (Nat.div_lt_iff_lt_mul (by decide)).mp hrest

theorem count_eq {n k : Nat} (hlow : 10 ^ k ≤ n) (hhigh : n < 10 ^ (k + 1)) :
    count n = k + 1 := by
  apply Nat.le_antisymm (count_le k.succ_pos hhigh)
  exact (Nat.pow_lt_pow_iff_right (by decide)).mp (Nat.lt_of_le_of_lt hlow (lt_pow_count n))

theorem count_mul_pow {n : Nat} (hn : 0 < n) (zeros : Nat) :
    count (n * 10 ^ zeros) = count n + zeros := by
  induction zeros with
  | zero => rw [Nat.pow_zero, Nat.mul_one, Nat.add_zero]
  | succ zeros ih =>
      have hge : 10 ≤ n * 10 ^ zeros * 10 :=
        Nat.le_mul_of_pos_left 10 (Nat.mul_pos hn (Nat.pow_pos (by decide)))
      rw [Nat.pow_succ, ← Nat.mul_assoc, count_of_le hge, Nat.mul_div_cancel _ (by decide), ih,
        Nat.add_assoc]

end Digits

namespace Literal

/-!
# Rows with a point
-/

theorem ne_point_of_isDigit {c : Char} (h : isDigit c = true) : c ≠ '.' := by
  rintro rfl
  cases h

theorem split_of_digits {digits : List Char} (h : ∀ c ∈ digits, isDigit c = true) :
    split digits = (digits, []) := by
  have hpoint : ∀ c ∈ digits, (c != '.') = true := fun c hc =>
    bne_iff_ne.mpr (ne_point_of_isDigit (h c hc))
  have htake : (digits ++ []).takeWhile (· != '.') = digits ++ [] :=
    List.takeWhile_append_of_pos hpoint
  have hdrop : (digits ++ []).dropWhile (· != '.') = [] :=
    List.dropWhile_append_of_pos hpoint
  rw [List.append_nil] at htake hdrop
  rw [split, htake, hdrop]
  rfl

theorem split_of_point {whole fraction : List Char} (h : ∀ c ∈ whole, isDigit c = true) :
    split (whole ++ '.' :: fraction) = (whole, fraction) := by
  have hpoint : ∀ c ∈ whole, (c != '.') = true := fun c hc =>
    bne_iff_ne.mpr (ne_point_of_isDigit (h c hc))
  unfold split
  rw [List.takeWhile_append_of_pos hpoint, List.dropWhile_append_of_pos hpoint]
  simp

theorem unsigned?_of_split {chars whole fraction : List Char}
    (hsplit : split chars = (whole, fraction)) (h : ∀ c ∈ whole ++ fraction, isDigit c = true)
    (hne : whole ++ fraction ≠ []) (negative : Bool) :
    unsigned? negative chars = some ⟨negative, whole, fraction⟩ := by
  have hwhole : whole.all isDigit = true :=
    List.all_eq_true.mpr fun c hc => h c (List.mem_append_left fraction hc)
  have hfraction : fraction.all isDigit = true :=
    List.all_eq_true.mpr fun c hc => h c (List.mem_append_right whole hc)
  have hempty : (whole.isEmpty && fraction.isEmpty) = false := by
    rw [Bool.eq_false_iff]
    intro h
    rcases Bool.and_eq_true_iff.mp h with ⟨hw, hf⟩
    rw [List.isEmpty_iff.mp hw, List.isEmpty_iff.mp hf] at hne
    exact hne rfl
  unfold unsigned?
  rw [hsplit]
  simp only [hwhole, hfraction, hempty, Bool.and_self, Bool.not_false, if_true]

theorem read?_of_unsigned {c : Char} {rest : List Char} (h : isDigit c = true ∨ c = '.') :
    read? (c :: rest) = unsigned? false (c :: rest) := by
  unfold read?
  split
  · rename_i hsign
    cases hsign
    rcases h with h | h <;> cases h
  · rfl

theorem read?_signText {c : Char} {rest : List Char} (negative : Bool)
    (h : isDigit c = true ∨ c = '.') :
    read? (Decimal.signText negative ++ c :: rest) = unsigned? negative (c :: rest) := by
  cases negative with
  | true => rfl
  | false => exact read?_of_unsigned h

theorem isDigit_of_unsigned? {l : Literal} {negative : Bool} {text : List Char}
    (h : unsigned? negative text = some l) : ∀ c ∈ l.whole ++ l.fraction, isDigit c = true := by
  unfold unsigned? at h
  dsimp only at h
  split at h
  · rename_i hdigits
    cases h
    rcases Bool.and_eq_true_iff.mp (Bool.and_eq_true_iff.mp hdigits).1 with ⟨hwhole, hfraction⟩
    intro c hc
    rcases List.mem_append.mp hc with hc | hc
    · exact List.all_eq_true.mp hwhole c hc
    · exact List.all_eq_true.mp hfraction c hc
  · cases h

theorem isDigit_of_read? {l : Literal} {text : List Char} (h : read? text = some l) :
    ∀ c ∈ l.whole ++ l.fraction, isDigit c = true := by
  unfold read? at h
  split at h
  · exact isDigit_of_unsigned? h
  · exact isDigit_of_unsigned? h

end Literal
end TreeQuery
