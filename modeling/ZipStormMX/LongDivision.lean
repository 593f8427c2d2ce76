/-
  Long division in base two: what one digit of the dividend does to quotient and remainder.

  A dividend `n` of `w` digits is read from the top.  After `j` digits the number read so far is
  `head w n j` and the number still to be read is `tail w n j`.  Nothing here knows which program
  divides; the file provides

  * `head_succ` / `tail_eq`  how the next digit moves from the tail to the head;
  * `div_step` / `mod_step`  the quotient and the remainder of the head, digit by digit: the divisor
    is taken away exactly when it fits.
-/
import Mathlib.Tactic.Ring

namespace ZipStormMX.LongDivision

variable (w n j : ℕ)

/-- The first `j` of the `w` digits of `n`. -/
def head : ℕ := n / 2 ^ (w - j)

/-- The digits that come after the first `j`. -/
def tail : ℕ := n % 2 ^ (w - j)

/-- The digit that is read next. -/
def digit : ℕ := n / 2 ^ (w - (j + 1)) % 2

theorem digit_lt : digit w n j < 2 := Nat.mod_lt _ (by omega)

variable {w n j}

theorem head_zero (h : n < 2 ^ w) : head w n 0 = 0 := Nat.div_eq_of_lt h

theorem tail_zero (h : n < 2 ^ w) : tail w n 0 = n := Nat.mod_eq_of_lt h

theorem head_all : head w n w = n := by
  unfold head
  rw [Nat.sub_self, pow_zero, Nat.div_one]

/-- A number of which `j` digits are read is below `2 ^ j`. -/
theorem head_lt (h : n < 2 ^ w) (hj : j ≤ w) : head w n j < 2 ^ j := by
  unfold head
  rw [Nat.div_lt_iff_lt_mul (Nat.two_pow_pos _), ← pow_add]
  rwa [Nat.add_sub_cancel' hj]

theorem tail_lt : tail w n j < 2 ^ (w - j) := Nat.mod_lt _ (Nat.two_pow_pos _)

theorem head_succ (hj : j < w) : head w n (j + 1) = 2 * head w n j + digit w n j := by
  have hw : w - j = w - (j + 1) + 1 := by omega
  unfold head digit
  rw [hw, pow_succ, ← Nat.div_div_eq_div_mul]
  omega

theorem tail_eq (hj : j < w) :
    tail w n j = digit w n j * 2 ^ (w - (j + 1)) + tail w n (j + 1) := by
  have hw : w - j = w - (j + 1) + 1 := by omega
  unfold tail digit
  rw [hw, pow_succ, Nat.mod_mul, Nat.mul_comm]
  omega

/-- The quotient gains the digit one exactly when the divisor fits into the shifted remainder. -/
theorem div_step {p b d : ℕ} (hb : b < 2) (hd : 0 < d) :
    (2 * p + b) / d = 2 * (p / d) + if d ≤ 2 * (p % d) + b then 1 else 0 := by
  have hp := Nat.div_add_mod p d
  have hr := Nat.mod_lt p hd
  have he : 2 * p + b = 2 * (p % d) + b + d * (2 * (p / d)) := by
    calc 2 * p + b = 2 * (d * (p / d) + p % d) + b := by rw [hp]
      _ = 2 * (p % d) + b + d * (2 * (p / d)) := by ring
  rw [he, Nat.add_mul_div_left _ _ hd]
  split
  · have h1 : (2 * (p % d) + b) / d = 1 := Nat.div_eq_of_lt_le (by omega) (by omega)
    omega
  · have h0 : (2 * (p % d) + b) / d = 0 := Nat.div_eq_of_lt (by omega)
    omega

/-- The remainder is doubled, takes the digit in, and the divisor is taken away if it fits. -/
theorem mod_step {p b d : ℕ} (hb : b < 2) (hd : 0 < d) :
    (2 * p + b) % d = 2 * (p % d) + b - if d ≤ 2 * (p % d) + b then d else 0 := by
  have hp := Nat.div_add_mod p d
  have hr := Nat.mod_lt p hd
  have he : 2 * p + b = 2 * (p % d) + b + d * (2 * (p / d)) := by
    calc 2 * p + b = 2 * (d * (p / d) + p % d) + b := by rw [hp]
      _ = 2 * (p % d) + b + d * (2 * (p / d)) := by ring
  rw [he, Nat.add_mul_mod_self_left]
  split
  · rename_i h
    rw [Nat.mod_eq_sub_mod h]
    exact Nat.mod_eq_of_lt (by omega)
  · exact Nat.mod_eq_of_lt (by omega)

end ZipStormMX.LongDivision
