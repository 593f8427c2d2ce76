/-
  Multiplication by adding shifted rows.

  A bit serial multiplier adds one row after another, row `k` with the weight `2 ^ k`.  It adds each
  row at the top of an accumulator and moves the accumulator down by one place, so that after `k`
  of `n` rows the sum stands `n - k` places up (`step_spec`).  Nothing here knows which circuit does
  so; the file provides

  * `sum_bits`    the sum of the rows of an unsigned product: row `k` is `a` if bit `k` of `b` is
                  set, and zero otherwise;
  * `sum_signed`  the sum of the rows of a signed product, each of them offset by the weight of the
                  sign bit so that none is negative, and the last one inverted: the product, up to
                  the constant that the offsets and the inversion add up to.
-/
import Mathlib.Algebra.BigOperators.Intervals
import Mathlib.Tactic.Linarith
import Mathlib.Tactic.Ring

namespace ZipStormMX.ShiftAdd

open Finset

/-- What the first `k` rows add up to. -/
def total (ρ : ℕ → ℕ) (k : ℕ) : ℕ := ∑ i ∈ range k, ρ i * 2 ^ i

theorem total_succ (ρ : ℕ → ℕ) (k : ℕ) : total ρ (k + 1) = total ρ k + ρ k * 2 ^ k :=
  sum_range_succ _ k

/-- **One step of the accumulator.** -/
theorem step_spec {n k s r : ℕ} (hk : k < n) :
    (s * 2 ^ (n - k) + r * 2 ^ n) / 2 = (s + r * 2 ^ k) * 2 ^ (n - (k + 1)) := by
  have h1 : 2 ^ (n - k) = 2 * 2 ^ (n - (k + 1)) := by
    rw [← pow_succ']
    congr 1
    omega
  have h2 : 2 ^ n = 2 * (2 ^ k * 2 ^ (n - (k + 1))) := by
    rw [← pow_add, ← pow_succ']
    congr 1
    omega
  have h : s * 2 ^ (n - k) + r * 2 ^ n = 2 * ((s + r * 2 ^ k) * 2 ^ (n - (k + 1))) := by
    rw [h1, h2]
    ring
  rw [h, Nat.mul_div_cancel_left _ (by omega)]

/-- The same step on an accumulator that is kept as a high and a low field. -/
theorem step_fields (m p r : ℕ) :
    (p / 2 ^ (m + 1) + r) * 2 ^ m + p / 2 % 2 ^ m = (p + r * 2 ^ (m + 1)) / 2 := by
  have h2 : p / 2 / 2 ^ m = p / 2 ^ (m + 1) := by rw [Nat.div_div_eq_div_mul, ← pow_succ']
  have hdm := Nat.div_add_mod (p / 2) (2 ^ m)
  have hpow : r * 2 ^ (m + 1) = 2 * (r * 2 ^ m) := by ring
  rw [h2, Nat.mul_comm] at hdm
  rw [hpow, Nat.add_mul_div_left _ _ (by omega), Nat.add_mul]
  omega

/-- Bit `k` of `b`. -/
def bit (b k : ℕ) : ℕ := b / 2 ^ k % 2

theorem mod_pow_succ (b k : ℕ) : b % 2 ^ (k + 1) = b % 2 ^ k + bit b k * 2 ^ k := by
  rw [Nat.mod_pow_succ, bit, Nat.mul_comm (2 ^ k)]

/-- The rows of an unsigned product. -/
theorem sum_bits (a b k : ℕ) : total (fun i => bit b i * a) k = a * (b % 2 ^ k) := by
  induction k with
  | zero => rw [pow_zero, Nat.mod_one]; rfl
  | succ k ih =>
    rw [total_succ, ih, mod_pow_succ]
    ring

/-- The rows of a signed product before the last one. -/
theorem sum_offset {ρ : ℕ → ℕ} {m b : ℕ} {a : ℤ}
    (hρ : ∀ i < m, (ρ i : ℤ) = bit b i * a + 2 ^ m) {k : ℕ} (hk : k ≤ m) :
    (total ρ k : ℤ) = a * (b % 2 ^ k : ℕ) + 2 ^ m * (2 ^ k - 1) := by
  induction k with
  | zero => simp [total, Nat.mod_one]
  | succ k ih =>
    rw [total_succ, mod_pow_succ]
    push_cast
    rw [ih (by omega), hρ k (by omega)]
    push_cast
    ring

/-- **The rows of a signed product.**  Bit `m` of `b` is its sign. -/
theorem sum_signed {ρ : ℕ → ℕ} {m b : ℕ} {a : ℤ}
    (hρ : ∀ i < m, (ρ i : ℤ) = bit b i * a + 2 ^ m)
    (hm : (ρ m : ℤ) = -(bit b m * a) + 2 ^ m - 1) :
    (total ρ (m + 1) : ℤ) + 2 ^ (m + 1) =
      a * ((b % 2 ^ m : ℕ) - bit b m * 2 ^ m) + 2 ^ (2 * m + 1) := by
  rw [total_succ]
  push_cast
  rw [sum_offset hρ le_rfl, hm]
  push_cast
  ring

end ZipStormMX.ShiftAdd
