/-!
# Decimal digits

Natural numbers as rows of decimal digits, most significant first.  Writing
gives the row without leading zeros; reading accepts any row.
-/

namespace TreeQuery
namespace Digits

def digit (n : Nat) : Char :=
  Char.ofNat (48 + n % 10)

def value (c : Char) : Nat :=
  c.toNat - 48

def write (n : Nat) : List Char :=
  if n < 10 then [digit n] else write (n / 10) ++ [digit n]

def readFrom (start : Nat) (row : List Char) : Nat :=
  row.foldl (fun n c => 10 * n + value c) start

def read (row : List Char) : Nat :=
  readFrom 0 row

def count (n : Nat) : Nat :=
  (write n).length

/-- The row of at least `width` digits, filled up with zeros on the left. -/
def writePadded (width n : Nat) : List Char :=
  List.replicate (width - count n) '0' ++ write n

/-!
# Reading back

A written row reads back to its number, and a row is read from left to right.
-/

theorem value_digit (n : Nat) : value (digit n) = n % 10 := by
  have h : n % 10 < 10 := Nat.mod_lt n (by omega)
  unfold value digit
  generalize n % 10 = k at h
  have hk : k = 0 ∨ k = 1 ∨ k = 2 ∨ k = 3 ∨ k = 4 ∨ k = 5 ∨ k = 6 ∨ k = 7 ∨ k = 8 ∨ k = 9 := by
    omega
  rcases hk with rfl | rfl | rfl | rfl | rfl | rfl | rfl | rfl | rfl | rfl <;> rfl

theorem readFrom_append (start : Nat) (xs ys : List Char) :
    readFrom start (xs ++ ys) = readFrom (readFrom start xs) ys := by
  simp [readFrom, List.foldl_append]

theorem read_write (n : Nat) : read (write n) = n := by
  fun_induction write n with
  | case1 n h =>
      simp [read, readFrom, value_digit]
      omega
  | case2 n h ih =>
      have hstep : read (write (n / 10) ++ [digit n]) = 10 * read (write (n / 10)) + n % 10 := by
        simp [read, readFrom, List.foldl_append, value_digit]
      rw [hstep, ih]
      omega

theorem count_pos (n : Nat) : 0 < count n := by
  unfold count
  fun_induction write n with
  | case1 => simp
  | case2 => simp

end Digits
end TreeQuery
