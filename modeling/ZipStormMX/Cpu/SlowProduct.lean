/-
  What `slowmpy` computes.

  The circuit adds one row for each bit of the second factor (`Adding.next`).  The rows of a signed
  product have their top bit inverted, which adds the weight of the sign bit to each, and the last
  row has all the others inverted, which negates it; `correction` removes what this adds up to.
  So after `NA` rows the product is exact, for factors of any width.
-/
import Mathlib.Algebra.Order.Ring.Abs
import Mathlib.Algebra.Order.Ring.Int
import Mathlib.Tactic.Ring
import ZipStormMX.Clocked
import ZipStormMX.ShiftAdd
import ZipStormMX.Cpu.Mpyop

namespace ZipStormMX.Cpu

open Clocked ShiftAdd

namespace Slowmpy

/-! ## Rows -/

variable {NA LGNA : ℕ}

/-- A bit vector with its top bit inverted, read without sign, is offset by the weight of that
    bit. -/
theorem flip_top (h : 0 < NA) (v : BitVec NA) :
    ((v ^^^ BitVec.twoPow NA (NA - 1)).toNat : ℤ) = v.toInt + 2 ^ (NA - 1) := by
  obtain ⟨m, rfl⟩ : ∃ m, NA = m + 1 := ⟨NA - 1, by omega⟩
  have hpow : BitVec.twoPow (m + 1) m = BitVec.cons true 0#m := by
    apply BitVec.eq_of_toNat_eq
    rw [BitVec.toNat_twoPow_of_lt (by omega), BitVec.toNat_cons', Nat.shiftLeft_eq]
    simp
  have hlow : (v.setWidth m).toNat < 2 ^ m := BitVec.isLt _
  have hv : v.toNat = v.msb.toNat * 2 ^ m + (v.setWidth m).toNat := by
    conv_lhs => rw [← BitVec.cons_msb_setWidth v]
    rw [BitVec.toNat_cons', Nat.shiftLeft_eq]
  rw [Nat.add_sub_cancel, BitVec.toInt_eq_msb_cond, hv]
  conv_lhs => rw [← BitVec.cons_msb_setWidth v]
  rw [hpow, BitVec.cons_xor_cons, BitVec.toNat_cons', Nat.shiftLeft_eq, BitVec.xor_zero]
  cases v.msb
  · simp
    omega
  · simp [pow_succ]
    omega

theorem toInt_not (h : 0 < NA) (v : BitVec NA) : (~~~v).toInt = -v.toInt - 1 := by
  have hv := v.isLt
  rw [BitVec.toInt_eq_msb_cond, BitVec.toInt_eq_msb_cond, BitVec.msb_not, BitVec.toNat_not,
    decide_eq_true h, Bool.true_and, Nat.sub_sub, Nat.cast_sub (by omega)]
  cases v.msb
  · simp
    omega
  · simp
    omega

/-- The summand of a row, of the factor `a` and one bit of the other. -/
def rowOf (optSigned : Bool) (a : BitVec NA) (b : Bool) (last : Bool) : BitVec NA :=
  if optSigned && last then ~~~(if b then a else 0) ^^^ BitVec.twoPow NA (NA - 1)
  else if optSigned then (if b then a else 0) ^^^ BitVec.twoPow NA (NA - 1)
  else if b then a else 0

theorem row_eq (optSigned : Bool) (s : Slowmpy NA LGNA) :
    row optSigned s = rowOf optSigned s.pA (s.pB.getLsbD 0) (preDone s) := rfl

/-- The rows of the product of `a` and `b`. -/
def rows (optSigned : Bool) (a b : BitVec NA) (k : ℕ) : ℕ :=
  (rowOf optSigned a (b.getLsbD k) (k == NA - 1)).toNat

theorem bit_eq (b : BitVec NA) (k : ℕ) : bit b.toNat k = (b.getLsbD k).toNat := by
  rw [bit, BitVec.getLsbD, Nat.testBit_eq_decide_div_mod_eq]
  obtain h | h := Nat.mod_two_eq_zero_or_one (b.toNat / 2 ^ k) <;> rw [h] <;> rfl

theorem toNat_select (a : BitVec NA) (c : Bool) :
    (if c then a else 0).toNat = c.toNat * a.toNat := by
  cases c <;> simp

theorem toInt_select (a : BitVec NA) (c : Bool) :
    (if c then a else 0).toInt = c.toNat * a.toInt := by
  cases c <;> simp

/-- What the rows of an unsigned product add up to. -/
theorem total_unsigned (a b : BitVec NA) : total (rows false a b) NA = a.toNat * b.toNat := by
  have h : rows false a b = fun i => bit b.toNat i * a.toNat := by
    funext i
    rw [bit_eq, ← toNat_select]
    rfl
  rw [h, sum_bits, Nat.mod_eq_of_lt b.isLt]

/-- The sign bit of a factor has a negative weight. -/
theorem toInt_top (h : 0 < NA) (b : BitVec NA) :
    b.toInt = (b.toNat % 2 ^ (NA - 1) : ℕ) - bit b.toNat (NA - 1) * 2 ^ (NA - 1) := by
  obtain ⟨m, rfl⟩ : ∃ m, NA = m + 1 := ⟨NA - 1, by omega⟩
  have hb := b.isLt
  have hsplit := mod_pow_succ b.toNat m
  have hmsb : b.msb = b.getLsbD m := rfl
  rw [Nat.mod_eq_of_lt hb] at hsplit
  rw [Nat.add_sub_cancel, BitVec.toInt_eq_msb_cond, hmsb]
  rw [bit_eq] at hsplit ⊢
  have hpow : (2 : ℤ) ^ (m + 1) = 2 * 2 ^ m := by ring
  have hint : (b.toNat : ℤ) = (b.toNat % 2 ^ m : ℕ) + (b.getLsbD m).toNat * 2 ^ m := by
    exact_mod_cast hsplit
  cases hc : b.getLsbD m with
  | false =>
    rw [hc] at hint
    simp only [Bool.toNat_false, Bool.false_eq_true, if_false] at hint ⊢
    omega
  | true =>
    rw [hc] at hint
    simp only [Bool.toNat_true, if_true] at hint ⊢
    push_cast at hint ⊢
    omega

/-- What the rows of a signed product add up to. -/
theorem total_signed (h : 0 < NA) (a b : BitVec NA) :
    (total (rows true a b) NA : ℤ) + 2 ^ NA = a.toInt * b.toInt + 2 ^ (NA + NA - 1) := by
  have hsum := sum_signed (ρ := rows true a b) (m := NA - 1) (b := b.toNat) (a := a.toInt)
    (fun i hi => by
      have hne : (i == NA - 1) = false := by
        rw [beq_eq_false_iff_ne]
        omega
      rw [rows, hne, bit_eq, ← toInt_select, ← flip_top h]
      rfl)
    (by
      have hlast : (NA - 1 == NA - 1) = true := beq_self_eq_true _
      have hnot := flip_top h (~~~(if b.getLsbD (NA - 1) then a else 0))
      rw [toInt_not h, toInt_select, ← bit_eq] at hnot
      rw [rows, hlast, rowOf, Bool.and_true, if_pos rfl, hnot]
      ring)
  rw [toInt_top h b]
  rw [show NA - 1 + 1 = NA by omega, show 2 * (NA - 1) + 1 = NA + NA - 1 by omega] at hsum
  exact hsum

/-! ## One step -/

/-- A step adds the row at the top of the accumulator and moves it down by a place. -/
theorem nextPartial_toNat (h : 0 < NA) (optSigned : Bool) (s : Slowmpy NA LGNA) :
    (nextPartial optSigned s).toNat =
      (s.partialP.toNat + (row optSigned s).toNat * 2 ^ NA) / 2 := by
  obtain ⟨m, rfl⟩ : ∃ m, NA = m + 1 := ⟨NA - 1, by omega⟩
  have hp := s.partialP.isLt
  have hr := (row optSigned s).isLt
  have hmul : (2 : ℕ) ^ (m + 1 + (m + 1)) = 2 ^ (m + 1) * 2 ^ (m + 1) := pow_add _ _ _
  have hhi : s.partialP.toNat / 2 ^ (m + 1) < 2 ^ (m + 1) := by
    rw [Nat.div_lt_iff_lt_mul (Nat.two_pow_pos _), ← hmul]
    exact hp
  have hsum : s.partialP.toNat / 2 ^ (m + 1) + (row optSigned s).toNat < 2 ^ (m + 1 + 1) := by
    have hp2 : (2 : ℕ) ^ (m + 1 + 1) = 2 * 2 ^ (m + 1) := pow_succ' _ _
    omega
  have hlow : s.partialP.toNat / 2 % 2 ^ m < 2 ^ m := Nat.mod_lt _ (Nat.two_pow_pos m)
  -- the sum does not leave its field, and the field does not leave the accumulator
  have hfield : ((s.partialP.extractLsb' (m + 1) (m + 1)).setWidth (m + 1 + 1)
      + (row optSigned s).setWidth (m + 1 + 1)).toNat =
        s.partialP.toNat / 2 ^ (m + 1) + (row optSigned s).toNat := by
    rw [BitVec.toNat_add, BitVec.toNat_setWidth, BitVec.toNat_setWidth, BitVec.extractLsb'_toNat,
      Nat.shiftRight_eq_div_pow, Nat.mod_eq_of_lt hhi, Nat.mod_eq_of_lt (a := _ / _) (by omega),
      Nat.mod_eq_of_lt (a := (row optSigned s).toNat) (by omega), Nat.mod_eq_of_lt hsum]
  have htop : (s.partialP.toNat / 2 ^ (m + 1) + (row optSigned s).toNat) * 2 ^ m <
      2 ^ (m + 1 + (m + 1)) := by
    calc _ < 2 ^ (m + 1 + 1) * 2 ^ m := Nat.mul_lt_mul_of_pos_right hsum (Nat.two_pow_pos m)
      _ = 2 ^ (m + 1 + (m + 1)) := by rw [← pow_add]; congr 1; omega
  have hle : (2 : ℕ) ^ (m + 1 + 1) ≤ 2 ^ (m + 1 + (m + 1)) := Nat.pow_le_pow_right (by omega)
    (by omega)
  have hlm : (2 : ℕ) ^ m ≤ 2 ^ (m + 1 + (m + 1)) := Nat.pow_le_pow_right (by omega) (by omega)
  unfold nextPartial
  simp only [Nat.add_sub_cancel]
  rw [BitVec.toNat_or, BitVec.toNat_shiftLeft, BitVec.toNat_setWidth, BitVec.toNat_setWidth,
    hfield, BitVec.extractLsb'_toNat, Nat.shiftRight_eq_div_pow, pow_one, Nat.add_sub_cancel,
    Nat.mod_eq_of_lt (hsum.trans_le hle), Nat.shiftLeft_eq, Nat.mod_eq_of_lt htop,
    Nat.mod_eq_of_lt (hlow.trans_le hlm), ← Nat.shiftLeft_eq,
    ← Nat.shiftLeft_add_eq_or_of_lt hlow, Nat.shiftLeft_eq]
  exact step_fields m _ _

/-! ## Runs -/

/-- The input pins during one clock. -/
structure Pins (NA : ℕ) where
  iReset : Bool
  iStb : Bool
  iA : BitVec NA
  iB : BitVec NA

def step (optSigned : Bool) (s : Slowmpy NA LGNA) (x : Pins NA) : Slowmpy NA LGNA :=
  s.next optSigned x.iReset x.iStb x.iA x.iB

/-- The registers when `k` rows of the product of `a` and `b` have been added. -/
structure Adding (optSigned : Bool) (a b : BitVec NA) (k : ℕ) (s : Slowmpy NA LGNA) : Prop where
  lt : k < NA
  oBusy : s.oBusy = true
  oDone : s.oDone = false
  almostDone : s.almostDone = false
  count : s.count = BitVec.ofNat LGNA (NA - 1 - k)
  pA : s.pA = a
  pB : s.pB = b >>> k
  partialP : s.partialP.toNat = total (rows optSigned a b) k * 2 ^ (NA - k)

/-- The registers when all of them have been added. -/
structure Added (optSigned : Bool) (a b : BitVec NA) (s : Slowmpy NA LGNA) : Prop where
  oBusy : s.oBusy = true
  oDone : s.oDone = false
  almostDone : s.almostDone = true
  partialP : s.partialP.toNat = total (rows optSigned a b) NA

variable {optSigned : Bool} {s : Slowmpy NA LGNA} {x : Pins NA} {a b : BitVec NA} {k : ℕ}

/-- An accepted request. -/
theorem adding_zero (h : 2 ≤ NA) (hN : NA ≤ 2 ^ LGNA) (hb : s.oBusy = false)
    (hr : x.iReset = false) (hs : x.iStb = true) :
    Adding optSigned x.iA x.iB 0 (step optSigned s x) := by
  refine ⟨by omega, ?_, ?_, ?_, ?_, ?_, ?_, ?_⟩
  · simp [step, next, hb, hr, hs]
  · simp [step, next, hb, hr, hs]
  · simp [step, next, hb]
  · simp only [step, next, hb]
    exact BitVec.ofNat_sub_ofNat_of_le NA 1 (by omega) (by omega)
  · simp [step, next, hb]
  · simp [step, next, hb]
  · simp [step, next, hb, total]

theorem Adding.preDone (hN : NA ≤ 2 ^ LGNA) (h : Adding optSigned a b k s) :
    preDone s = (k == NA - 1) := by
  have hk := h.lt
  unfold Slowmpy.preDone
  rw [h.count, Bool.eq_iff_iff, beq_iff_eq, beq_iff_eq, ← BitVec.toNat_inj, BitVec.toNat_ofNat,
    Nat.mod_eq_of_lt (by omega)]
  show NA - 1 - k = 0 % 2 ^ LGNA ↔ _
  rw [Nat.zero_mod]
  omega

/-- The row that is added next. -/
theorem Adding.row (hN : NA ≤ 2 ^ LGNA) (h : Adding optSigned a b k s) :
    (row optSigned s).toNat = rows optSigned a b k := by
  rw [row_eq, h.preDone hN, h.pA, h.pB, BitVec.getLsbD_ushiftRight, Nat.add_zero]
  rfl

/-- Every step adds one row. -/
theorem Adding.partialP_next (hN : NA ≤ 2 ^ LGNA) (h : Adding optSigned a b k s) (x : Pins NA) :
    (step optSigned s x).partialP.toNat =
      total (rows optSigned a b) (k + 1) * 2 ^ (NA - (k + 1)) := by
  have hstep : (step optSigned s x).partialP = nextPartial optSigned s := by
    simp [step, next, h.oBusy]
  rw [hstep, nextPartial_toNat (by have := h.lt; omega), h.partialP, h.row hN, step_spec h.lt,
    total_succ]

theorem Adding.next (hN : NA ≤ 2 ^ LGNA) (h : Adding optSigned a b k s) (hr : x.iReset = false)
    (hk : k + 1 < NA) : Adding optSigned a b (k + 1) (step optSigned s x) := by
  have hpre : Slowmpy.preDone s = false := by
    rw [h.preDone hN, beq_eq_false_iff_ne]
    omega
  refine ⟨hk, ?_, ?_, ?_, ?_, ?_, ?_, h.partialP_next hN x⟩
  · simp [step, Slowmpy.next, hr, h.oBusy, h.almostDone]
  · simp [step, Slowmpy.next, h.oBusy, h.almostDone]
  · simp [step, Slowmpy.next, hpre]
  · simp only [step, Slowmpy.next, h.oBusy, h.count]
    have hsub : NA - 1 - (k + 1) = NA - 1 - k - 1 := by omega
    rw [hsub]
    exact BitVec.ofNat_sub_ofNat_of_le (NA - 1 - k) 1 (by omega) (by omega)
  · simp [step, Slowmpy.next, h.oBusy, h.pA]
  · simp only [step, Slowmpy.next, h.oBusy, h.pB]
    exact (BitVec.shiftRight_add b k 1).symm

theorem Adding.added (hN : NA ≤ 2 ^ LGNA) (h : Adding optSigned a b k s) (hr : x.iReset = false)
    (hk : k + 1 = NA) : Added optSigned a b (step optSigned s x) := by
  have hpre : Slowmpy.preDone s = true := by
    rw [h.preDone hN, beq_iff_eq]
    omega
  refine ⟨?_, ?_, ?_, ?_⟩
  · simp [step, Slowmpy.next, hr, h.oBusy, h.almostDone]
  · simp [step, Slowmpy.next, h.oBusy, h.almostDone]
  · simp [step, Slowmpy.next, hr, h.oBusy, hpre]
  · rw [h.partialP_next hN, hk, Nat.sub_self, pow_zero, Nat.mul_one]

/-- The result, a clock after the last row. -/
theorem Added.done (h : Added optSigned a b s) (hr : x.iReset = false) :
    (step optSigned s x).oDone = true ∧
      (step optSigned s x).oP = if optSigned then s.partialP + correction else s.partialP := by
  constructor
  · simp [step, Slowmpy.next, hr, h.oBusy, h.almostDone]
  · simp [step, Slowmpy.next, h.almostDone]

/-! ## The product -/

/-- The product of two factors as it is meant: of signed numbers, or of unsigned ones. -/
def Exact (optSigned : Bool) (a b : BitVec NA) (p : BitVec (NA + NA)) : Prop :=
  if optSigned then p.toInt = a.toInt * b.toInt else p.toNat = a.toNat * b.toNat

theorem toNat_correction (h : 2 ≤ NA) :
    (correction : BitVec (NA + NA)).toNat = 2 ^ (NA + NA - 1) + 2 ^ NA := by
  have hlt : 2 ^ NA < 2 ^ (NA + NA - 1) := Nat.pow_lt_pow_right (by omega) (by omega)
  have hp : 2 ^ (NA + NA) = 2 * 2 ^ (NA + NA - 1) := by
    rw [← pow_succ']
    congr 1
    omega
  unfold correction
  rw [BitVec.toNat_add, BitVec.toNat_twoPow_of_lt (by omega), BitVec.toNat_twoPow_of_lt (by omega)]
  exact Nat.mod_eq_of_lt (by omega)

/-- A product of two signed numbers fits into twice their width. -/
theorem product_bounds (h : 0 < NA) (a b : BitVec NA) :
    -2 ^ (NA + NA - 1) ≤ a.toInt * b.toInt ∧ a.toInt * b.toInt < 2 ^ (NA + NA - 1) := by
  have hp : (2 : ℤ) ^ (NA + NA - 1) = 2 * (2 ^ (NA - 1) * 2 ^ (NA - 1)) := by
    rw [← pow_add, ← pow_succ']
    congr 1
    omega
  have hpos : (0 : ℤ) < 2 ^ (NA - 1) := by positivity
  have habs : ∀ v : BitVec NA, |v.toInt| ≤ 2 ^ (NA - 1) := fun v =>
    abs_le.mpr ⟨BitVec.le_toInt v, (BitVec.toInt_lt (x := v)).le⟩
  have hmul : |a.toInt * b.toInt| ≤ 2 ^ (NA - 1) * 2 ^ (NA - 1) := by
    rw [abs_mul]
    exact mul_le_mul (habs a) (habs b) (abs_nonneg _) hpos.le
  have hlt : (0 : ℤ) < 2 ^ (NA - 1) * 2 ^ (NA - 1) := mul_pos hpos hpos
  obtain ⟨h1, h2⟩ := abs_le.mp hmul
  constructor <;> omega

/-- **The rows and the correction make the product.** -/
theorem Added.exact (h : 2 ≤ NA) (hs : Added optSigned a b s) :
    Exact optSigned a b (if optSigned then s.partialP + correction else s.partialP) := by
  have hpart := hs.partialP
  unfold Exact
  cases optSigned with
  | false => exact hpart.trans (total_unsigned a b)
  | true =>
    rw [if_pos rfl, if_pos rfl]
    obtain ⟨hlo, hhi⟩ := product_bounds (by omega) a b
    have htot := total_signed (by omega) a b
    have hp : (2 : ℤ) ^ (NA + NA) = 2 * 2 ^ (NA + NA - 1) := by
      rw [← pow_succ']
      congr 1
      omega
    have hof : s.partialP + correction = BitVec.ofInt (NA + NA) (a.toInt * b.toInt) := by
      have h1 : BitVec.ofInt (NA + NA) s.partialP.toNat = s.partialP := by simp
      have h2 : BitVec.ofInt (NA + NA) (correction : BitVec (NA + NA)).toNat = correction := by
        simp
      have h3 : BitVec.ofInt (NA + NA) (2 ^ (NA + NA)) = 0 := by
        apply BitVec.eq_of_toInt_eq
        rw [BitVec.toInt_ofInt]
        have hself := Int.bmod_self (a := 2 ^ (NA + NA))
        push_cast at hself
        rw [hself]
        simp
      have hsum : (s.partialP.toNat : ℤ) + (correction : BitVec (NA + NA)).toNat =
          a.toInt * b.toInt + 2 ^ (NA + NA) := by
        rw [hpart, toNat_correction h, hp]
        push_cast
        linarith
      rw [← h1, ← h2, ← BitVec.ofInt_add, hsum, BitVec.ofInt_add, h3]
      exact BitVec.add_zero _
    rw [hof, BitVec.toInt_ofInt]
    apply Int.bmod_eq_of_le <;> push_cast <;> omega

/-- A request is accepted at clock `t`, and no reset interrupts it before the result. -/
structure Request (optSigned : Bool) (s₀ : Slowmpy NA LGNA) (x : ℕ → Pins NA) (t : ℕ) : Prop where
  iStb : (x t).iStb = true
  idle : (run (step optSigned) s₀ x t).oBusy = false
  undisturbed : ∀ n, t ≤ n → (∀ m, t < m → m ≤ n → (run (step optSigned) s₀ x m).oDone = false) →
    (x n).iReset = false

variable {s₀ : Slowmpy NA LGNA} {x : ℕ → Pins NA} {t : ℕ}

/-- **Every run adds the rows of the factors it has accepted.** -/
theorem Request.adding (h : Request optSigned s₀ x t) (h2 : 2 ≤ NA) (hN : NA ≤ 2 ^ LGNA) :
    ∀ k < NA, (∀ m, t < m → m ≤ t + 1 + k → (run (step optSigned) s₀ x m).oDone = false) ∧
      Adding optSigned (x t).iA (x t).iB k (run (step optSigned) s₀ x (t + 1 + k)) := by
  intro k
  induction k with
  | zero =>
    intro _
    have h0 : Adding optSigned (x t).iA (x t).iB 0 (run (step optSigned) s₀ x (t + 1)) :=
      adding_zero h2 hN h.idle
        (h.undisturbed t le_rfl fun m hm hmt => absurd hm (Nat.not_lt.mpr hmt)) h.iStb
    refine ⟨fun m hm hmt => ?_, h0⟩
    obtain rfl : m = t + 1 := by omega
    exact h0.oDone
  | succ k ih =>
    intro hk
    obtain ⟨hdone, hadd⟩ := ih (by omega)
    have hnext : Adding optSigned (x t).iA (x t).iB (k + 1)
        (run (step optSigned) s₀ x (t + 1 + (k + 1))) :=
      hadd.next hN (h.undisturbed (t + 1 + k) (by omega) hdone) hk
    refine ⟨fun m hm (hmt : m ≤ t + 1 + (k + 1)) => ?_, hnext⟩
    obtain hlt | rfl : m ≤ t + 1 + k ∨ m = t + 1 + (k + 1) := by omega
    · exact hdone m hm hlt
    · exact hnext.oDone

/-- **The bit serial multiplier is exact**, two clocks after the last of its `NA` rows. -/
theorem Request.exact (h : Request optSigned s₀ x t) (h2 : 2 ≤ NA) (hN : NA ≤ 2 ^ LGNA) :
    (∀ m, t < m → m < t + NA + 2 → (run (step optSigned) s₀ x m).oDone = false) ∧
      (run (step optSigned) s₀ x (t + NA + 2)).oDone = true ∧
      Exact optSigned (x t).iA (x t).iB (run (step optSigned) s₀ x (t + NA + 2)).oP := by
  obtain ⟨hdone, hadd⟩ := h.adding h2 hN (NA - 1) (by omega)
  rw [show t + 1 + (NA - 1) = t + NA by omega] at hdone hadd
  have hlast : Added optSigned (x t).iA (x t).iB (run (step optSigned) s₀ x (t + NA + 1)) :=
    hadd.added hN (h.undisturbed (t + NA) (by omega) hdone) (by omega)
  have hdone' : ∀ m, t < m → m ≤ t + NA + 1 → (run (step optSigned) s₀ x m).oDone = false := by
    intro m hm hmt
    obtain hlt | rfl : m ≤ t + NA ∨ m = t + NA + 1 := by omega
    · exact hdone m hm hlt
    · exact hlast.oDone
  obtain ⟨hd, hp⟩ := hlast.done (h.undisturbed (t + NA + 1) (by omega) hdone')
  refine ⟨fun m hm hmt => hdone' m hm (by omega), hd, ?_⟩
  show Exact _ _ _ (step optSigned _ _).oP
  rw [hp]
  exact hlast.exact h2

end Slowmpy

end ZipStormMX.Cpu
