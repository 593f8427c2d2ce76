/-
  Cyclic redundancy checks: a register that shifts a bit at a time, and polynomials over two elements.

  A register of `w` bits is a polynomial of degree below `w`, its leftmost bit first, and the bits that
  are fed back on a shift are those of a generator `g`, whose leading term `X^w` is left out.  Nothing
  here knows which circuit it is.  The crux: a shift is a multiplication by `X` modulo the generator.

    * `crc`                  the register after a list of bytes, each of which enters on the left.
    * `toPoly_crc`           it is the remainder of the message, moved up by `w` places.
    * `Serial.settled`       a register that is shifted on the clocks after each byte comes to it.
    * `crc_ne_of_one_byte`   a change in one byte is always seen.
-/
import Mathlib.Algebra.CharP.Two
import Mathlib.Algebra.Field.ZMod
import Mathlib.Data.BitVec
import Mathlib.RingTheory.AdjoinRoot
import Mathlib.Tactic.LinearCombination

namespace ZipStormMX.Crc

open Polynomial

variable {w : ℕ}

/-! ## The register -/

/-- One shift. -/
def shift (g r : BitVec w) : BitVec w := if r.msb then r <<< 1 ^^^ g else r <<< 1

/-- A byte enters on the left. -/
def enter (r : BitVec w) (b : BitVec 8) : BitVec w := r ^^^ b.setWidth w <<< (w - 8)

/-- A byte enters and is shifted through. -/
def byte (g r : BitVec w) (b : BitVec 8) : BitVec w := (shift g)^[8] (enter r b)

/-- The register after the bytes, from zero on. -/
def crc (g : BitVec w) (bs : List (BitVec 8)) : BitVec w := bs.foldl (byte g) 0

@[simp] theorem crc_nil (g : BitVec w) : crc g [] = 0 := rfl

theorem crc_append_byte (g : BitVec w) (bs : List (BitVec 8)) (b : BitVec 8) :
    crc g (bs ++ [b]) = byte g (crc g bs) b := by
  rw [crc, List.foldl_append]
  rfl

theorem shift_zero (g : BitVec w) : shift g 0 = 0 := by
  rw [shift, if_neg]
  · exact BitVec.zero_shiftLeft 1
  · simp

/-! ## One step at a time -/

/-- The register `r` still has `n` shifts to go before it is the one after the bytes. -/
def Due (g r : BitVec w) (n : ℕ) (bs : List (BitVec 8)) : Prop := (shift g)^[n] r = crc g bs

theorem due_zero (g : BitVec w) (n : ℕ) : Due g 0 n [] := Function.iterate_fixed (shift_zero g) n

theorem Due.shift {g r : BitVec w} {n : ℕ} {bs : List (BitVec 8)} (h : Due g r (n + 1) bs) :
    Due g (Crc.shift g r) n bs := h

/-- A byte may enter once no shift is left to do. -/
theorem Due.enter {g r : BitVec w} {bs : List (BitVec 8)} (h : Due g r 0 bs) (b : BitVec 8) :
    Due g (Crc.enter r b) 8 (bs ++ [b]) := by
  have hr : r = crc g bs := h
  rw [Due, crc_append_byte, hr]
  rfl

/-! ## A register on a clock -/

/-- The bytes `b` on the clocks of `p`, for `n` clocks from clock `a` on. -/
def entered (p : ℕ → Bool) (b : ℕ → BitVec 8) (a : ℕ) : ℕ → List (BitVec 8)
  | 0 => []
  | n + 1 => entered p b a n ++ if p (a + n) then [b (a + n)] else []

theorem entered_nil {p : ℕ → Bool} {b : ℕ → BitVec 8} {a n : ℕ}
    (h : ∀ u, a ≤ u → u < a + n → p u = false) : entered p b a n = [] := by
  induction n with
  | zero => rfl
  | succ n ih =>
    rw [entered, ih fun u hu hun => h u hu (by omega), h (a + n) (by omega) (by omega)]
    rfl

/-- Two bytes are at least nine clocks apart. -/
def Spaced (p : ℕ → Bool) (a z : ℕ) : Prop :=
  ∀ t u, a ≤ t → t < u → u < z → p t = true → p u = true → t + 9 ≤ u

/-- From clock `a` to clock `z`, a register that begins with zero takes a byte on the clocks of `p`,
and is shifted while its counter runs down. -/
structure Serial (g : BitVec w) (reg : ℕ → BitVec w) (cnt : ℕ → ℕ) (p : ℕ → Bool)
    (b : ℕ → BitVec 8) (a z : ℕ) : Prop where
  start : reg a = 0
  strobe : ∀ t, a ≤ t → t < z → p t = true → reg (t + 1) = enter (reg t) (b t) ∧ cnt (t + 1) = 8
  shifts : ∀ t, a ≤ t → t < z → p t = false →
    reg (t + 1) = (if cnt t = 0 then reg t else shift g (reg t)) ∧ cnt (t + 1) = cnt t - 1

section Clock

variable {g : BitVec w} {reg : ℕ → BitVec w} {cnt : ℕ → ℕ} {p : ℕ → Bool} {b : ℕ → BitVec 8}
  {a z : ℕ}

/-- Either no byte has come yet, or the counter says how long ago the last one was. -/
theorem Serial.due (h : Serial g reg cnt p b a z) (hspaced : Spaced p a z) {n : ℕ}
    (hn : a + n ≤ z) :
    ((∀ u, a ≤ u → u < a + n → p u = false) ∧ reg (a + n) = 0 ∧ cnt (a + n) ≤ cnt a) ∨
    ∃ u, a ≤ u ∧ u < a + n ∧ p u = true ∧ cnt (a + n) = 8 - (a + n - (u + 1)) ∧
      Due g (reg (a + n)) (cnt (a + n)) (entered p b a n) := by
  induction n with
  | zero => exact .inl ⟨fun u hu hlt => by omega, h.start, Nat.le_refl _⟩
  | succ n ih =>
    have hlater : a + (n + 1) = a + n + 1 := rfl
    rw [hlater, entered]
    cases hp : p (a + n)
    · obtain ⟨hreg, hcnt⟩ := h.shifts (a + n) (by omega) (by omega) hp
      rw [hreg, hcnt, if_neg Bool.false_ne_true, List.append_nil]
      rcases ih (by omega) with ⟨hnone, hzero, hle⟩ | ⟨u, hau, hun, hpu, hcount, hdue⟩
      · refine .inl ⟨fun u hu hlt => ?_, ?_, by omega⟩
        · rcases Nat.lt_succ_iff_lt_or_eq.mp hlt with hbefore | rfl
          · exact hnone u hu hbefore
          · exact hp
        · rw [hzero, shift_zero, ite_self]
      · refine .inr ⟨u, hau, by omega, hpu, by omega, ?_⟩
        cases hleft : cnt (a + n)
        · rw [hleft] at hdue
          rw [if_pos rfl]
          exact hdue
        · rw [hleft] at hdue
          rw [if_neg (Nat.succ_ne_zero _)]
          exact hdue.shift
    · obtain ⟨hreg, hcnt⟩ := h.strobe (a + n) (by omega) (by omega) hp
      have hsettled : Due g (reg (a + n)) 0 (entered p b a n) := by
        rcases ih (by omega) with ⟨hnone, hzero, -⟩ | ⟨u, hau, hun, hpu, hcount, hdue⟩
        · rw [hzero, entered_nil hnone]
          exact due_zero g 0
        · have hgap := hspaced u (a + n) hau hun (by omega) hpu hp
          rw [show cnt (a + n) = 0 by omega] at hdue
          exact hdue
      rw [hreg, hcnt, if_pos rfl]
      exact .inr ⟨a + n, by omega, by omega, hp, by omega, hsettled.enter _⟩

/-- **Nine clocks after the last byte** the register is the one after the bytes. -/
theorem Serial.settled (h : Serial g reg cnt p b a z) (hspaced : Spaced p a z) {n : ℕ}
    (hn : a + n ≤ z) (hquiet : ∀ u, a ≤ u → u < a + n → p u = true → u + 9 ≤ a + n) :
    reg (a + n) = crc g (entered p b a n) := by
  rcases h.due hspaced hn with ⟨hnone, hzero, -⟩ | ⟨u, hau, hun, hpu, hcount, hdue⟩
  · rw [hzero, entered_nil hnone]
    rfl
  · have hgap := hquiet u hau hun hpu
    rw [show cnt (a + n) = 0 by omega] at hdue
    exact hdue

end Clock

/-! ## Polynomials -/

/-- A bit as a coefficient. -/
def bit (b : Bool) : ZMod 2 := if b then 1 else 0

theorem bit_xor (a b : Bool) : bit (a ^^ b) = bit a + bit b := by
  cases a <;> cases b <;> decide

theorem bit_injective : Function.Injective bit := by
  intro a b
  cases a <;> cases b <;> decide

/-- A word as a polynomial. -/
noncomputable def toPoly (r : BitVec w) : (ZMod 2)[X] :=
  ∑ i ∈ Finset.range w, C (bit (r.getLsbD i)) * X ^ i

theorem coeff_toPoly (r : BitVec w) (n : ℕ) : (toPoly r).coeff n = bit (r.getLsbD n) := by
  rw [toPoly, finsetSum_coeff]
  simp only [coeff_C_mul_X_pow]
  rw [Finset.sum_ite_eq]
  split
  · rfl
  · rename_i hn
    rw [Finset.mem_range, Nat.not_lt] at hn
    rw [BitVec.getLsbD_of_ge r n hn]
    rfl

theorem toPoly_injective : Function.Injective (toPoly (w := w)) := by
  intro r s h
  apply BitVec.eq_of_getLsbD_eq
  intro i _
  have hcoeff := congrArg (fun p => p.coeff i) h
  simp only [coeff_toPoly] at hcoeff
  exact bit_injective hcoeff

theorem toPoly_zero : toPoly (0 : BitVec w) = 0 := by
  ext n
  rw [coeff_toPoly, show (0 : BitVec w).getLsbD n = false from BitVec.getLsbD_zero]
  rfl

theorem toPoly_xor (r s : BitVec w) : toPoly (r ^^^ s) = toPoly r + toPoly s := by
  ext n
  rw [coeff_add, coeff_toPoly, coeff_toPoly, coeff_toPoly, BitVec.getLsbD_xor, bit_xor]

theorem degree_toPoly_lt (r : BitVec w) : (toPoly r).degree < w := by
  rw [degree_lt_iff_coeff_zero]
  intro n hn
  rw [coeff_toPoly, BitVec.getLsbD_of_ge r n hn]
  rfl

/-- A shift to the left, but for the bit that is lost. -/
theorem X_mul_toPoly (hw : 0 < w) (r : BitVec w) :
    X * toPoly r = toPoly (r <<< 1) + C (bit r.msb) * X ^ w := by
  ext n
  rw [coeff_add, coeff_C_mul_X_pow, coeff_toPoly, BitVec.getLsbD_shiftLeft,
    BitVec.msb_eq_getLsbD_last]
  cases n with
  | zero =>
    rw [mul_coeff_zero, coeff_X_zero, zero_mul, if_neg hw.ne, add_zero]
    simp [bit]
  | succ n =>
    rw [coeff_X_mul, coeff_toPoly, Nat.add_sub_cancel,
      decide_eq_false (by omega : ¬n + 1 < 1), Bool.not_false, Bool.and_true]
    by_cases hlast : n + 1 = w
    · rw [if_pos hlast, decide_eq_false (by omega), Bool.false_and, show w - 1 = n by omega]
      exact (zero_add _).symm
    · rw [if_neg hlast, add_zero]
      by_cases hlt : n + 1 < w
      · rw [decide_eq_true hlt, Bool.true_and]
      · rw [decide_eq_false hlt, Bool.false_and, BitVec.getLsbD_of_ge r n (by omega)]

/-- A byte at the left end of a word. -/
theorem toPoly_left (hw : 8 ≤ w) (b : BitVec 8) :
    toPoly (b.setWidth w <<< (w - 8)) = X ^ (w - 8) * toPoly b := by
  ext n
  rw [coeff_X_pow_mul', coeff_toPoly, coeff_toPoly, BitVec.getLsbD_shiftLeft,
    BitVec.getLsbD_setWidth]
  by_cases hlow : n < w - 8
  · rw [if_neg (by omega), decide_eq_true hlow, Bool.not_true, Bool.and_false, Bool.false_and]
    rfl
  · rw [if_pos (by omega), decide_eq_false hlow, Bool.not_false, Bool.and_true]
    by_cases hhigh : n < w
    · rw [decide_eq_true hhigh, Bool.true_and, decide_eq_true (by omega : n - (w - 8) < w),
        Bool.true_and]
    · rw [decide_eq_false hhigh, Bool.false_and,
        BitVec.getLsbD_of_ge b (n - (w - 8)) (by omega)]

/-! ## The remainder -/

/-- The generator, with its leading term. -/
noncomputable def generator (g : BitVec w) : (ZMod 2)[X] := X ^ w + toPoly g

/-- The bytes of a message, the first one on the left. -/
noncomputable def message (bs : List (BitVec 8)) : (ZMod 2)[X] :=
  bs.foldl (fun m b => X ^ 8 * m + toPoly b) 0

theorem message_append_byte (bs : List (BitVec 8)) (b : BitVec 8) :
    message (bs ++ [b]) = X ^ 8 * message bs + toPoly b := by
  rw [message, List.foldl_append]
  rfl

theorem generator_monic (g : BitVec w) : (generator g).Monic :=
  (monic_X_pow w).add_of_left (by rw [degree_X_pow]; exact degree_toPoly_lt g)

theorem degree_generator (g : BitVec w) : (generator g).degree = w := by
  rw [generator, degree_add_eq_left_of_degree_lt, degree_X_pow]
  rw [degree_X_pow]
  exact degree_toPoly_lt g

section Quotient

variable (g : BitVec w)

/-- **A shift multiplies by `X`**, modulo the generator. -/
theorem mk_shift (hw : 0 < w) (r : BitVec w) :
    AdjoinRoot.mk (generator g) (toPoly (shift g r)) =
      AdjoinRoot.mk (generator g) (X * toPoly r) := by
  rw [AdjoinRoot.mk_eq_mk, X_mul_toPoly hw, shift]
  cases r.msb
  · rw [if_neg Bool.false_ne_true, bit, if_neg Bool.false_ne_true, C_0, zero_mul, add_zero, sub_self]
    exact dvd_zero _
  · rw [if_pos rfl, bit, if_pos rfl, C_1, one_mul, toPoly_xor]
    refine ⟨-1, ?_⟩
    have htwo : toPoly g + toPoly g = 0 := CharTwo.add_self_eq_zero _
    rw [generator]
    linear_combination htwo

theorem mk_iterate_shift (hw : 0 < w) (n : ℕ) (r : BitVec w) :
    AdjoinRoot.mk (generator g) (toPoly ((shift g)^[n] r)) =
      AdjoinRoot.mk (generator g) (X ^ n * toPoly r) := by
  induction n with
  | zero => rw [Function.iterate_zero_apply, pow_zero, one_mul]
  | succ n ih =>
    rw [Function.iterate_succ_apply', mk_shift g hw, map_mul, ih, ← map_mul, pow_succ']
    ring_nf

theorem mk_crc (hw : 8 ≤ w) (bs : List (BitVec 8)) :
    AdjoinRoot.mk (generator g) (toPoly (crc g bs)) =
      AdjoinRoot.mk (generator g) (X ^ w * message bs) := by
  induction bs using List.reverseRecOn with
  | nil => rw [crc_nil, toPoly_zero, message, List.foldl_nil, mul_zero]
  | append_singleton bs b ih =>
    have hpow : (X : (ZMod 2)[X]) ^ w = X ^ 8 * X ^ (w - 8) := by
      rw [← pow_add, Nat.add_sub_cancel' hw]
    rw [crc_append_byte, byte, mk_iterate_shift g (by omega), enter, toPoly_xor, toPoly_left hw,
      message_append_byte, mul_add, map_add, map_mul, ih, ← map_mul, ← map_add]
    congr 1
    rw [hpow]
    ring

/-- **The register is the remainder** of the message moved up by `w` places. -/
theorem toPoly_crc (hw : 8 ≤ w) (bs : List (BitVec 8)) :
    toPoly (crc g bs) = (X ^ w * message bs) %ₘ generator g := by
  have hself : toPoly (crc g bs) %ₘ generator g = toPoly (crc g bs) := by
    rw [modByMonic_eq_self_iff (generator_monic g), degree_generator]
    exact degree_toPoly_lt _
  rw [← hself]
  exact modByMonic_eq_of_dvd_sub (generator_monic g) (AdjoinRoot.mk_eq_mk.mp (mk_crc g hw bs))

end Quotient

/-- A remainder moves up with what it is taken by. -/
theorem X_mul_modByMonic (p : (ZMod 2)[X]) {q : (ZMod 2)[X]} (hq : q.Monic) :
    (X * p) %ₘ (X * q) = X * (p %ₘ q) := by
  refine (div_modByMonic_unique (p /ₘ q) _ (monic_X.mul hq) ⟨?_, ?_⟩).2
  · rw [mul_assoc, ← mul_add, modByMonic_add_div]
  · rw [X_mul, X_mul, degree_mul_X, degree_mul_X]
    exact WithBot.add_lt_add_right WithBot.one_ne_bot (degree_modByMonic_lt p hq)

/-! ## Changes -/

section Changes

variable {g : BitVec w}

/-- No two registers become one, if the generator has a constant term. -/
theorem shift_injective (hg : g.getLsbD 0 = true) : Function.Injective (shift g) := by
  intro r s h
  have hw : 0 < w := by
    by_contra hw
    rw [BitVec.getLsbD_of_ge g 0 (by omega)] at hg
    exact absurd hg Bool.false_ne_true
  have hfirst : ∀ t : BitVec w, (shift g t).getLsbD 0 = t.msb := by
    intro t
    rw [shift]
    cases t.msb
    · rw [if_neg Bool.false_ne_true, BitVec.getLsbD_shiftLeft]
      simp
    · rw [if_pos rfl, BitVec.getLsbD_xor, BitVec.getLsbD_shiftLeft, hg]
      simp
  have hmsb : r.msb = s.msb := by rw [← hfirst, ← hfirst, h]
  have hleft : r <<< 1 = s <<< 1 := by
    rw [shift, shift, hmsb] at h
    split at h
    · exact (BitVec.xor_left_inj g).mp h
    · exact h
  apply BitVec.eq_of_getLsbD_eq
  intro i hi
  by_cases hlast : i = w - 1
  · rw [hlast, ← BitVec.msb_eq_getLsbD_last, ← BitVec.msb_eq_getLsbD_last, hmsb]
  · have hbit := congrArg (fun t => t.getLsbD (i + 1)) hleft
    simp only [BitVec.getLsbD_shiftLeft, Nat.add_sub_cancel] at hbit
    simpa [show i + 1 < w by omega] using hbit

theorem enter_injective (b : BitVec 8) : Function.Injective fun r : BitVec w => enter r b :=
  fun _ _ h => (BitVec.xor_left_inj _).mp h

theorem enter_injective_right (hw : 8 ≤ w) (r : BitVec w) : Function.Injective (enter r) := by
  intro b b' h
  have hleft := (BitVec.xor_right_inj r).mp h
  apply BitVec.eq_of_getLsbD_eq
  intro i hi
  have hbit := congrArg (fun t => t.getLsbD (i + (w - 8))) hleft
  simp only [BitVec.getLsbD_shiftLeft, BitVec.getLsbD_setWidth, Nat.add_sub_cancel] at hbit
  simpa [show i + (w - 8) < w by omega, show i < w by omega] using hbit

/-- **A change in one byte is always seen.** -/
theorem crc_ne_of_one_byte (hg : g.getLsbD 0 = true) (hw : 8 ≤ w) (before after : List (BitVec 8))
    {b b' : BitVec 8} (hb : b ≠ b') : crc g (before ++ b :: after) ≠ crc g (before ++ b' :: after) := by
  have hshifts : Function.Injective (shift g)^[8] := (shift_injective hg).iterate 8
  -- the registers differ after the byte, and stay different
  have hstay : ∀ (bs : List (BitVec 8)) (r s : BitVec w), r ≠ s →
      bs.foldl (byte g) r ≠ bs.foldl (byte g) s := by
    intro bs
    induction bs with
    | nil => exact fun _ _ h => h
    | cons b bs ih =>
      intro r s hrs
      exact ih _ _ fun h => hrs (enter_injective b (hshifts h))
  rw [crc, crc, List.foldl_append, List.foldl_append]
  exact hstay after _ _ fun h => hb (enter_injective_right hw _ (hshifts h))

end Changes

end ZipStormMX.Crc
