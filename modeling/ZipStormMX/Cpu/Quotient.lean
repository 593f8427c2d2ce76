/-
  What the divide unit answers.

  A request loads the operands; if one of them is negative a clock is spent on their absolute
  values; then come 32 clocks of one quotient digit each, and one more to negate the quotient if the
  signs differed.  The control registers follow this plan whatever the operands are
  (`Dividing.next`, `Dividing.last`), and the loop computes the quotient of what it starts from
  (`Divided.next`).  What it starts from is not always the dividend: when the dividend is negative
  `pre_sign` fills the half of `r_dividend` above it with ones, the first difference can then not
  borrow, and the quotient comes out with its top bit set.
-/
import Mathlib.Tactic.Ring
import ZipStormMX.Clocked
import ZipStormMX.LongDivision
import ZipStormMX.Cpu.Div

namespace ZipStormMX.Cpu

open Clocked LongDivision

namespace Div

/-! ## Runs of the unit -/

/-- The input pins during one clock. -/
structure Pins where
  iReset : Bool
  iWr : Bool
  iSigned : Bool
  iNumerator : BitVec 32
  iDenominator : BitVec 32

def step (s : Div) (x : Pins) : Div :=
  s.next x.iReset x.iWr x.iSigned x.iNumerator x.iDenominator

/-- What the `initial` statements set; the other registers hold anything. -/
structure PowerUp (s : Div) : Prop where
  oBusy : s.oBusy = false
  oValid : s.oValid = false
  rBusy : s.rBusy = false
  rSign : s.rSign = false
  preSign : s.preSign = false
  lastBit : s.lastBit = false

/-- The caller requests a division only when the unit is idle, and at the clock of a request as at
    any other it may drive the reset. -/
def Requested (s : Div) (x : Pins) : Prop := x.iWr = true → s.oBusy = false

/-- What holds between the control registers in every reachable state. -/
structure Ordered (s : Div) : Prop where
  busy : s.rBusy = true → s.oBusy = true
  pre : s.preSign = true → s.rBusy = true ∧ s.lastBit = false ∧ s.oValid = false
  sign : s.oBusy = false → s.rSign = true → s.oValid = true

theorem PowerUp.ordered {s : Div} (h : PowerUp s) : Ordered s where
  busy hb := by rw [h.rBusy] at hb; exact absurd hb Bool.false_ne_true
  pre hp := by rw [h.preSign] at hp; exact absurd hp Bool.false_ne_true
  sign _ hs := by rw [h.rSign] at hs; exact absurd hs Bool.false_ne_true

theorem Ordered.idle {s : Div} (h : Ordered s) (hb : s.oBusy = false) : s.rBusy = false := by
  have := h.busy
  cases hr : s.rBusy with
  | false => rfl
  | true => exact absurd (hb ▸ this hr) Bool.false_ne_true

theorem Ordered.step {s : Div} {x : Pins} (h : Ordered s) (hx : Requested s x) :
    Ordered (s.step x) := by
  obtain ⟨hb, hp, hs⟩ := h
  unfold Requested at hx
  refine ⟨?_, ?_, ?_⟩ <;>
  · simp only [Div.step, next, nextBusy, nextValid]
    cases hr : x.iReset <;> cases hw : x.iWr <;> simp_all <;> grind

/-! ## One digit -/

/-- No reset and no further request: the pins of a clock in which the unit is left to work. -/
structure Quiet (x : Pins) : Prop where
  iReset : x.iReset = false
  iWr : x.iWr = false

/-- The control registers while digit `j` of the quotient is found. -/
structure Dividing (s : Div) (d : BitVec 32) (sgn : Bool) (j : ℕ) : Prop where
  lt : j < 32
  oBusy : s.oBusy = true
  rBusy : s.rBusy = true
  oValid : s.oValid = false
  divisor : s.rDivisor = d
  sign : s.rSign = sgn
  preSign : s.preSign = false
  zeroDivisor : s.zeroDivisor = false
  bit : s.rBit = BitVec.ofNat 5 j
  last : s.lastBit = (j == 31)

/-- After the last digit: the answer is valid, unless it has still to be negated. -/
structure Settled (s : Div) (sgn : Bool) : Prop where
  oBusy : s.oBusy = sgn
  rBusy : s.rBusy = false
  oValid : s.oValid = !sgn
  oErr : s.oErr = false
  sign : s.rSign = sgn
  preSign : s.preSign = false
  zeroDivisor : s.zeroDivisor = false

variable {s : Div} {x : Pins} {d : BitVec 32} {sgn : Bool} {j : ℕ}

theorem Dividing.next (h : Dividing s d sgn j) (hx : Quiet x) (hj : j < 31) :
    Dividing (s.step x) d sgn (j + 1) := by
  have hl : s.lastBit = false := by rw [h.last]; simp; omega
  refine ⟨by omega, ?_, ?_, ?_, ?_, ?_, ?_, ?_, ?_, ?_⟩
  · simp [step, nextBusy, hx.iReset, hx.iWr, hl, h.zeroDivisor, h.rBusy, h.oBusy]
  · simp [step, hx.iReset, hx.iWr, hl, h.zeroDivisor, h.rBusy]
  · simp [step, nextValid, hx.iReset, h.oValid, hl, h.zeroDivisor, h.rBusy]
  · simp [step, nextDivisor, hx.iReset, h.preSign, h.rBusy, h.divisor]
  · simp [step, hx.iReset, h.preSign, h.rBusy, h.zeroDivisor, h.sign]
  · simp [step, hx.iWr]
  · simp [step, hx.iWr, h.zeroDivisor]
  · simp only [step, Div.next_rBit, hx.iReset, h.rBusy, h.preSign, h.bit]
    apply BitVec.eq_of_toNat_eq
    simp
  · simp only [step, Div.next_lastBit, hx.iReset, h.rBusy, h.bit]
    rw [Bool.eq_iff_iff]
    simp only [Bool.not_false, Bool.true_and, beq_iff_eq]
    rw [← BitVec.toNat_inj]
    simp
    omega

theorem Dividing.settled (h : Dividing s d sgn 31) (hx : Quiet x) : Settled (s.step x) sgn := by
  have hl : s.lastBit = true := h.last
  refine ⟨?_, ?_, ?_, ?_, ?_, ?_, ?_⟩
  · simp only [step, Div.next_oBusy, nextBusy, hx.iReset, hx.iWr, hl, h.zeroDivisor, h.rBusy,
      h.oBusy, h.sign]
    cases sgn <;> rfl
  · simp [step, hx.iReset, hx.iWr, hl]
  · simp [step, nextValid, hx.iReset, h.oValid, hl, h.zeroDivisor, h.rBusy, h.sign]
  · simp [step, h.zeroDivisor]
  · simp [step, hx.iReset, h.preSign, h.rBusy, h.zeroDivisor, h.sign]
  · simp [step, hx.iWr]
  · simp [step, hx.iWr, h.zeroDivisor]

/-- The clock after the last digit of a negative quotient. -/
theorem Settled.negated (h : Settled s true) (hx : Quiet x) :
    (s.step x).oValid = true ∧ (s.step x).oErr = false ∧ (s.step x).rZ = s.rZ ∧
      (s.step x).oQuotient = -s.oQuotient := by
  refine ⟨?_, ?_, ?_, ?_⟩
  · simp [step, nextValid, hx.iReset, h.oValid, h.rBusy, h.sign]
  · simp [step, h.rBusy]
  · simp [step, hx.iWr, h.rBusy]
  · simp [step, hx.iReset, h.rBusy, h.sign]

/-- What is left of the dividend above the digits still to come. -/
def top (s : Div) : ℕ := s.rDividend.toNat / 2 ^ 31

theorem diff_toNat (s : Div) :
    (diff s).toNat = (2 ^ 33 - s.rDivisor.toNat + top s) % 2 ^ 33 := by
  have ht : top s < 2 ^ 32 := by
    have := s.rDividend.isLt
    unfold top
    omega
  have hd := s.rDivisor.isLt
  unfold diff
  rw [BitVec.toNat_sub, BitVec.toNat_setWidth, BitVec.toNat_setWidth, BitVec.extractLsb'_toNat,
    Nat.shiftRight_eq_div_pow]
  show (2 ^ 33 - s.rDivisor.toNat % 2 ^ 33 + top s % 2 ^ 32 % 2 ^ 33) % 2 ^ 33 = _
  rw [Nat.mod_eq_of_lt (a := s.rDivisor.toNat) (by omega), Nat.mod_eq_of_lt (a := top s) ht,
    Nat.mod_eq_of_lt (a := top s) (by omega)]

theorem borrow_eq (s : Div) : borrow s = decide (top s < s.rDivisor.toNat) := by
  have ht : top s < 2 ^ 32 := by
    have := s.rDividend.isLt
    unfold top
    omega
  have hd := s.rDivisor.isLt
  unfold borrow
  rw [BitVec.getLsbD, diff_toNat, Nat.testBit_eq_decide_div_mod_eq]
  apply decide_eq_decide.mpr
  omega

/-- One clock of the loop: the quotient takes a digit in, and so does the zero flag. -/
theorem Dividing.quotient (h : Dividing s d sgn j) (hx : Quiet x) :
    (s.step x).oQuotient.toNat =
      (2 * s.oQuotient.toNat + if d.toNat ≤ top s then 1 else 0) % 2 ^ 32 := by
  have hq := s.oQuotient.isLt
  simp only [step, Div.next_oQuotient, hx.iReset, h.rBusy, borrow_eq, h.divisor, if_true]
  rw [if_neg Bool.false_ne_true, BitVec.toNat_append, BitVec.extractLsb'_toNat, Nat.shiftLeft_eq,
    BitVec.toNat_ofBool, ← Nat.shiftLeft_eq, ← Nat.shiftLeft_add_eq_or_of_lt (Bool.toNat_lt _),
    Nat.shiftLeft_eq]
  by_cases hf : d.toNat ≤ top s
  · rw [decide_eq_false (by omega), if_pos hf]
    simp
    omega
  · rw [decide_eq_true (by omega), if_neg hf]
    simp
    omega

theorem Dividing.zero (h : Dividing s d sgn j) (hx : Quiet x) :
    (s.step x).rZ = (s.rZ && !decide (d.toNat ≤ top s)) := by
  simp only [step, Div.next_rZ, hx.iWr, h.rBusy, h.preSign, borrow_eq, h.divisor]
  by_cases hf : d.toNat ≤ top s
  · rw [decide_eq_false (by omega), decide_eq_true hf]
    simp
  · rw [decide_eq_true (by omega), decide_eq_false hf]
    simp

/-- The dividend moves up by one digit, after the divisor is taken away where it fits. -/
theorem Dividing.dividend (h : Dividing s d sgn j) (x : Pins) :
    (s.step x).rDividend.toNat =
      if d.toNat ≤ top s then
        (top s - d.toNat) % 2 ^ 31 * 2 ^ 32 + s.rDividend.toNat % 2 ^ 31 * 2
      else 2 * s.rDividend.toNat % 2 ^ 63 := by
  have hd := s.rDivisor.isLt
  have hdd := s.rDividend.isLt
  have ht : top s < 2 ^ 32 := by unfold top; omega
  simp only [step, Div.next_rDividend, nextDividend, h.preSign, h.rBusy, borrow_eq, ← h.divisor,
    if_true]
  rw [if_neg Bool.false_ne_true]
  by_cases hf : s.rDivisor.toNat ≤ top s
  · rw [if_pos hf, decide_eq_false (by omega), if_neg Bool.false_ne_true, BitVec.toNat_append,
      ← Nat.shiftLeft_add_eq_or_of_lt (BitVec.isLt _), BitVec.toNat_append,
      ← Nat.shiftLeft_add_eq_or_of_lt (BitVec.isLt _), BitVec.extractLsb'_toNat,
      BitVec.extractLsb'_toNat, diff_toNat, Nat.shiftLeft_eq, Nat.shiftLeft_eq]
    simp only [Nat.shiftRight_zero]
    show (2 ^ 33 - s.rDivisor.toNat + top s) % 2 ^ 33 % 2 ^ 31 * 2 ^ 32 +
      (s.rDividend.toNat % 2 ^ 31 * 2 ^ 1 + 0) = _
    omega
  · rw [if_neg hf, decide_eq_true (by omega), if_pos rfl, BitVec.toNat_shiftLeft,
      Nat.shiftLeft_eq]
    omega

/-! ## The loop divides -/

/-- After `j` digits of the dividend `n`: the remainder stands above the digits still to come, and
    the quotient so far at the bottom of `o_quotient`. -/
structure Divided (s : Div) (n d j : ℕ) : Prop where
  dividend : j < 32 →
    s.rDividend.toNat = head 32 n j % d * 2 ^ 32 + tail 32 n j * 2 ^ j
  quotient : s.oQuotient.toNat % 2 ^ j = head 32 n j / d
  zero : s.rZ = decide (head 32 n j / d = 0)

/-- Modulo `2 ^ (j + 1)` a digit is appended to what there is modulo `2 ^ j`. -/
theorem append_digit (q j : ℕ) {f : ℕ} (hj : j < 32) (hf : f < 2) :
    (2 * q + f) % 2 ^ 32 % 2 ^ (j + 1) = 2 * (q % 2 ^ j) + f := by
  have hq := Nat.div_add_mod q (2 ^ j)
  have hm := Nat.mod_lt q (Nat.two_pow_pos j)
  have he : 2 * q + f = 2 * (q % 2 ^ j) + f + 2 ^ (j + 1) * (q / 2 ^ j) := by
    calc 2 * q + f = 2 * (2 ^ j * (q / 2 ^ j) + q % 2 ^ j) + f := by rw [hq]
      _ = 2 * (q % 2 ^ j) + f + 2 ^ (j + 1) * (q / 2 ^ j) := by ring
  have hp : 2 ^ (j + 1) = 2 * 2 ^ j := by ring
  rw [Nat.mod_mod_of_dvd _ (pow_dvd_pow 2 hj), he, Nat.add_mul_mod_self_left]
  exact Nat.mod_eq_of_lt (by omega)

variable {n : ℕ}

theorem Divided.next (h : Dividing s d sgn j) (hx : Quiet x) (hn : n < 2 ^ 32) (hd : 0 < d.toNat)
    (hs : Divided s n d.toNat j) : Divided (s.step x) n d.toNat (j + 1) := by
  have hj := h.lt
  -- the top of the dividend is the remainder with the next digit, what is below it the tail
  have hb := digit_lt 32 n j
  have hu : tail 32 n (j + 1) * 2 ^ j < 2 ^ 31 := by
    calc tail 32 n (j + 1) * 2 ^ j < 2 ^ (32 - (j + 1)) * 2 ^ j :=
          Nat.mul_lt_mul_of_pos_right tail_lt (Nat.two_pow_pos j)
      _ = 2 ^ 31 := by rw [← pow_add]; congr 1; omega
  have hsplit : s.rDividend.toNat = (2 * (head 32 n j % d.toNat) + digit 32 n j) * 2 ^ 31 +
      tail 32 n (j + 1) * 2 ^ j := by
    have hp : 2 ^ (32 - (j + 1)) * 2 ^ j = 2 ^ 31 := by rw [← pow_add]; congr 1; omega
    rw [hs.dividend hj, tail_eq hj, Nat.add_mul, Nat.mul_assoc, hp]
    omega
  have htop : top s = 2 * (head 32 n j % d.toNat) + digit 32 n j := by
    unfold top
    omega
  have hdiv := div_step (p := head 32 n j) hb hd
  have hmod := mod_step (p := head 32 n j) hb hd
  rw [← htop, ← head_succ hj] at hdiv hmod
  refine ⟨fun hj' => ?_, ?_, ?_⟩
  · have hr : head 32 n (j + 1) % d.toNat < 2 ^ 31 := by
      calc head 32 n (j + 1) % d.toNat ≤ head 32 n (j + 1) := Nat.mod_le _ _
        _ < 2 ^ (j + 1) := head_lt hn (by omega)
        _ ≤ 2 ^ 31 := Nat.pow_le_pow_right (by omega) (by omega)
    have hu' : tail 32 n (j + 1) * 2 ^ (j + 1) = tail 32 n (j + 1) * 2 ^ j * 2 := by ring
    rw [h.dividend, hu', hmod]
    rw [hmod] at hr
    split <;> rename_i hf <;> simp only [hf, if_true, if_false] at hr <;> omega
  · rw [h.quotient hx, append_digit _ _ hj (by split <;> omega), hs.quotient, hdiv]
  · rw [h.zero hx, hs.zero, hdiv]
    split <;> rename_i hf <;> simp [hf]

/-! ## What the loop starts from -/

/-- One of the operands of a signed division is negative. -/
def negative (sgn : Bool) (num den : BitVec 32) : Bool :=
  sgn && (num.getLsbD 31 || den.getLsbD 31)

/-- The clock after a request. -/
structure Loaded (s : Div) (sgn : Bool) (num den : BitVec 32) : Prop where
  oBusy : s.oBusy = true
  rBusy : s.rBusy = true
  oValid : s.oValid = false
  divisor : s.rDivisor = den
  dividend : s.rDividend = 0#31 ++ num
  sign : s.rSign = false
  preSign : s.preSign = negative sgn num den
  zero : s.rZ = true
  last : s.lastBit = false
  bit : s.rBit = 0
  zeroDivisor : s.zeroDivisor = (den == 0)

theorem loaded (h : Ordered s) (hb : s.oBusy = false) (hr : x.iReset = false) (hw : x.iWr = true) :
    Loaded (s.step x) x.iSigned x.iNumerator x.iDenominator := by
  have hi := h.idle hb
  have hp : s.preSign = false := by
    cases hp : s.preSign with
    | false => rfl
    | true => rw [(h.pre hp).1] at hi; exact absurd hi.symm Bool.false_ne_true
  refine ⟨?_, ?_, ?_, ?_, ?_, ?_, ?_, ?_, ?_, ?_, ?_⟩
  · simp [step, nextBusy, hr, hw]
  · simp [step, hr, hw]
  · simp only [step, Div.next_oValid, nextValid, hr, hi]
    cases hs : s.rSign with
    | false => cases s.oValid <;> rfl
    | true => simp [h.sign hb hs]
  · simp [step, nextDivisor, hr, hi]
  · simp [step, nextDividend, hp, hi]
  · simp [step, hr, hp, hi]
  · simp [step, hr, hw, negative]
  · simp [step, hw]
  · simp [step, hr, hi]
  · simp [step, hr, hi]
  · simp [step, hw]

/-- The absolute value that `pre_sign` takes of the divisor. -/
def magnitude (v : BitVec 32) : BitVec 32 := if v.getLsbD 31 then -v else v

/-- What `pre_sign` makes of the dividend. -/
def signedDividend (num : BitVec 32) : BitVec 63 :=
  if num.getLsbD 31 then BitVec.allOnes 31 ++ -num else 0#31 ++ num

/-- The loop starts at once, if there is no sign to remove. -/
theorem Loaded.dividing {num den : BitVec 32} (h : Loaded s sgn num den) (hd : den ≠ 0)
    (hn : negative sgn num den = false) : Dividing s den false 0 where
  lt := by omega
  oBusy := h.oBusy
  rBusy := h.rBusy
  oValid := h.oValid
  divisor := h.divisor
  sign := h.sign
  preSign := h.preSign.trans hn
  zeroDivisor := by rw [h.zeroDivisor]; simpa using hd
  bit := h.bit
  last := h.last

/-- And after `pre_sign` otherwise. -/
theorem Loaded.signed {num den : BitVec 32} (h : Loaded s sgn num den) (hd : den ≠ 0)
    (hn : negative sgn num den = true) (hx : Quiet x) :
    Dividing (s.step x) (magnitude den) (den.getLsbD 31 ^^ num.getLsbD 31) 0 ∧
      (s.step x).rDividend = signedDividend num ∧ (s.step x).rZ = true := by
  have hp : s.preSign = true := h.preSign.trans hn
  have hz : s.zeroDivisor = false := by rw [h.zeroDivisor]; simpa using hd
  have hbit : ∀ k < 32, s.rDividend.getLsbD k = num.getLsbD k := by
    intro k hk
    rw [h.dividend, BitVec.getLsbD_append, if_pos hk]
  have h31 := hbit 31 (by omega)
  refine ⟨⟨by omega, ?_, ?_, ?_, ?_, ?_, ?_, ?_, ?_, ?_⟩, ?_, ?_⟩
  · simp [step, nextBusy, hx.iReset, hx.iWr, h.last, hz, h.rBusy, h.oBusy]
  · simp [step, hx.iReset, hx.iWr, h.last, hz, h.rBusy]
  · simp [step, nextValid, hx.iReset, h.oValid, h.last, hz, h.rBusy]
  · simp [step, nextDivisor, hx.iReset, hp, h.rBusy, h.divisor, magnitude]
  · simp only [step, Div.next_rSign, hx.iReset, hp, h31, h.divisor, if_true]
    rfl
  · simp [step, hx.iWr]
  · simp [step, hx.iWr, hz]
  · simp [step, hx.iReset, h.rBusy, hp]
  · simp [step, hx.iReset, h.rBusy, h.bit]
  · have hl : s.rDividend.extractLsb' 0 32 = num := by
      apply BitVec.eq_of_getLsbD_eq
      intro k hk
      rw [BitVec.getLsbD_extractLsb', decide_eq_true hk, Bool.true_and, Nat.zero_add, hbit k hk]
    simp only [step, Div.next_rDividend, nextDividend, hp, h31, hl, if_true]
    rw [h.dividend]
    rfl
  · simp [step, hx.iWr, hp, h.zero]

/-- **The loop starts right** for a dividend that is not negative, or not signed. -/
theorem divided_zero {num : BitVec 32} (h : s.rDividend = 0#31 ++ num) (hz : s.rZ = true)
    (d : ℕ) : Divided s num.toNat d 0 := by
  have hn : num.toNat < 2 ^ 32 := num.isLt
  refine ⟨fun _ => ?_, ?_, ?_⟩
  · rw [h, head_zero hn, tail_zero hn, BitVec.toNat_append,
      ← Nat.shiftLeft_add_eq_or_of_lt (BitVec.isLt _)]
    simp
  · rw [head_zero hn, pow_zero, Nat.mod_one, Nat.zero_div]
  · rw [head_zero hn, Nat.zero_div, hz]
    rfl

/-! ## A negative dividend -/

/-- The `i` digits of the quotient `k` places up make the number `p`. -/
def Digits (s : Div) (k i p : ℕ) : Prop := s.oQuotient.toNat / 2 ^ k % 2 ^ i = p

/-- The digits of the quotient move up. -/
theorem Digits.next {k i p : ℕ} (h : Dividing s d sgn j) (hx : Quiet x) (hk : k + i < 32)
    (hs : Digits s k i p) : Digits (s.step x) (k + 1) i p := by
  unfold Digits at hs ⊢
  have hp : (2 : ℕ) ^ 32 = 2 ^ (k + 1) * (2 ^ i * 2 ^ (31 - (k + i))) := by
    rw [← pow_add, ← pow_add]; congr 1; omega
  have hf : ∀ f < 2, (2 * s.oQuotient.toNat + f) / 2 ^ (k + 1) = s.oQuotient.toNat / 2 ^ k := by
    intro f hf
    rw [pow_succ', ← Nat.div_div_eq_div_mul]
    congr 1
    omega
  rw [h.quotient hx, hp, Nat.mod_mul_right_div_self, Nat.mod_mul_right_mod, hf _ (by split <;> omega),
    hs]

/-! ## A division from request to answer -/

/-- A division is requested at clock `t` of a run in which requests come to an idle unit only, and
    no reset interrupts it before it is answered. -/
structure Division (s₀ : Div) (x : ℕ → Pins) (t : ℕ) : Prop where
  powerUp : PowerUp s₀
  requested : ∀ n, Requested (run step s₀ x n) (x n)
  iWr : (x t).iWr = true
  undisturbed : ∀ n, t ≤ n → (∀ m, t < m → m ≤ n → (run step s₀ x m).oValid = false) →
    (x n).iReset = false

/-- Busy, and no answer yet, at every clock after `t` and before `n`. -/
def Waiting (s₀ : Div) (x : ℕ → Pins) (t n : ℕ) : Prop :=
  ∀ m, t < m → m < n → (run step s₀ x m).oBusy = true ∧ (run step s₀ x m).oValid = false

/-- The quotient truncated toward zero, modulo `2 ^ 32`. -/
def quotient (x : Pins) : BitVec 32 :=
  if x.iSigned then BitVec.ofInt 32 (x.iNumerator.toInt.tdiv x.iDenominator.toInt)
  else BitVec.ofNat 32 (x.iNumerator.toNat / x.iDenominator.toNat)

/-- What the outputs have to be when `o_valid` rises. -/
structure Answers (s : Div) (x : Pins) : Prop where
  oErr : s.oErr = (x.iDenominator == 0)
  oQuotient : x.iDenominator ≠ 0 → s.oQuotient = quotient x
  zero : x.iDenominator ≠ 0 → ((oFlags s).getLsbD 0 = true ↔ s.oQuotient = 0)
  sign : x.iDenominator ≠ 0 → (oFlags s).getLsbD 2 = s.oQuotient.getLsbD 31

/-- The division of clock `t` is answered as it should be. -/
def Divides (s₀ : Div) (x : ℕ → Pins) (t : ℕ) : Prop :=
  ∃ n, t < n ∧ Waiting s₀ x t n ∧ (run step s₀ x n).oValid = true ∧
    Answers (run step s₀ x n) (x t)

variable {s₀ : Div} {x : ℕ → Pins} {t n : ℕ}

theorem Division.ordered (h : Division s₀ x t) (n : ℕ) : Ordered (run step s₀ x n) :=
  run_invariant (E := Requested) h.powerUp.ordered h.requested (fun _ _ hi hx => hi.step hx) n

theorem Waiting.succ (h : Waiting s₀ x t n) (hb : (run step s₀ x n).oBusy = true)
    (hv : (run step s₀ x n).oValid = false) : Waiting s₀ x t (n + 1) := by
  intro m hm hmn
  obtain hlt | rfl := Nat.lt_or_eq_of_le (Nat.le_of_lt_succ hmn)
  · exact h m hm hlt
  · exact ⟨hb, hv⟩

/-- While the answer is awaited the unit is left to work. -/
theorem Division.quiet (h : Division s₀ x t) (ht : t < n) (hw : Waiting s₀ x t (n + 1)) :
    Quiet (x n) where
  iReset := h.undisturbed n ht.le fun m hm hmn => (hw m hm (Nat.lt_succ_of_le hmn)).2
  iWr := by
    have hb := (hw n ht (Nat.lt_succ_self n)).1
    cases hr : (x n).iWr with
    | false => rfl
    | true => exact absurd (hb ▸ h.requested n hr) (Bool.false_ne_true ∘ Eq.symm)

theorem Division.loaded (h : Division s₀ x t) : Loaded (run step s₀ x (t + 1)) (x t).iSigned
    (x t).iNumerator (x t).iDenominator :=
  Div.loaded (h.ordered t) (h.requested t h.iWr)
    (h.undisturbed t le_rfl fun _ hm hmn => absurd hm (Nat.not_lt.mpr hmn)) h.iWr

/-- Nothing lies between a clock and the next. -/
theorem waiting_succ (s₀ : Div) (x : ℕ → Pins) (t : ℕ) : Waiting s₀ x t (t + 1) :=
  fun m hm hmn => absurd hmn (by omega)

/-- The divisor the loop works with. -/
def divisorOf (x : Pins) : BitVec 32 :=
  if negative x.iSigned x.iNumerator x.iDenominator then magnitude x.iDenominator
  else x.iDenominator

/-- The dividend the loop starts from. -/
def dividendOf (x : Pins) : BitVec 63 :=
  if negative x.iSigned x.iNumerator x.iDenominator then signedDividend x.iNumerator
  else 0#31 ++ x.iNumerator

/-- Whether the quotient is negated at the end. -/
def signOf (x : Pins) : Bool :=
  negative x.iSigned x.iNumerator x.iDenominator &&
    (x.iDenominator.getLsbD 31 ^^ x.iNumerator.getLsbD 31)

/-- The loop starts one or two clocks after the request. -/
theorem Division.start (h : Division s₀ x t) (hd : (x t).iDenominator ≠ 0) :
    ∃ n, t < n ∧ Waiting s₀ x t n ∧
      Dividing (run step s₀ x n) (divisorOf (x t)) (signOf (x t)) 0 ∧
      (run step s₀ x n).rDividend = dividendOf (x t) ∧ (run step s₀ x n).rZ = true := by
  have hl := h.loaded
  have hw := waiting_succ s₀ x t
  cases hn : negative (x t).iSigned (x t).iNumerator (x t).iDenominator with
  | false =>
    refine ⟨t + 1, by omega, hw, ?_, ?_, hl.zero⟩
    · simp only [divisorOf, signOf, hn, Bool.false_and]
      exact hl.dividing hd hn
    · simp only [dividendOf, hn]
      exact hl.dividend
  | true =>
    have hw' := hw.succ hl.oBusy hl.oValid
    obtain ⟨hs, hr, hz⟩ := hl.signed hd hn (h.quiet (by omega) hw')
    refine ⟨t + 2, by omega, hw', ?_, ?_, hz⟩
    · simp only [divisorOf, signOf, hn, Bool.true_and, if_true]
      exact hs
    · simp only [dividendOf, hn, if_true]
      exact hr

/-- **The loop rule.**  What holds before the first digit, and is carried from one digit to the
    next, holds after the last one. -/
theorem Division.loop (h : Division s₀ x t) {d : BitVec 32} {sgn : Bool} {P : ℕ → Div → Prop}
    (ht : t < n) (hw : Waiting s₀ x t n) (h0 : Dividing (run step s₀ x n) d sgn 0)
    (hP : P 0 (run step s₀ x n))
    (hs : ∀ j s x, Dividing s d sgn j → Quiet x → P j s → P (j + 1) (s.step x)) :
    Waiting s₀ x t (n + 32) ∧ Settled (run step s₀ x (n + 32)) sgn ∧
      P 32 (run step s₀ x (n + 32)) := by
  have hj : ∀ j < 32, Waiting s₀ x t (n + j) ∧ Dividing (run step s₀ x (n + j)) d sgn j ∧
      P j (run step s₀ x (n + j)) := by
    intro j
    induction j with
    | zero => exact fun _ => ⟨hw, h0, hP⟩
    | succ j ih =>
      intro hj
      obtain ⟨hw, hd, hp⟩ := ih (by omega)
      have hw' := hw.succ hd.oBusy hd.oValid
      have hq := h.quiet (by omega) hw'
      exact ⟨hw', hd.next hq (by omega), hs j _ _ hd hq hp⟩
  obtain ⟨hw, hd, hp⟩ := hj 31 (by omega)
  have hw' := hw.succ hd.oBusy hd.oValid
  have hq := h.quiet (by omega) hw'
  exact ⟨hw', hd.settled hq, hs 31 _ _ hd hq hp⟩

/-- From the request to the answer: what the loop establishes, and the sign. -/
theorem Division.answered (h : Division s₀ x t) (hd : (x t).iDenominator ≠ 0)
    {P : ℕ → Div → Prop}
    (h0 : ∀ s : Div, s.rDividend = dividendOf (x t) → s.rZ = true → P 0 s)
    (hs : ∀ j s y, Dividing s (divisorOf (x t)) (signOf (x t)) j → Quiet y → P j s →
      P (j + 1) (s.step y)) :
    ∃ m s, t < m ∧ Waiting s₀ x t m ∧ (run step s₀ x m).oValid = true ∧
      (run step s₀ x m).oErr = false ∧ (run step s₀ x m).rZ = s.rZ ∧
      (run step s₀ x m).oQuotient = (if signOf (x t) then -s.oQuotient else s.oQuotient) ∧
      P 32 s := by
  obtain ⟨n, ht, hw, hd0, hr, hz⟩ := h.start hd
  obtain ⟨hw, hset, hP⟩ := h.loop ht hw hd0 (h0 _ hr hz) hs
  cases hsgn : signOf (x t) with
  | false =>
    rw [hsgn] at hset
    exact ⟨n + 32, _, by omega, hw, hset.oValid, hset.oErr, rfl, rfl, hP⟩
  | true =>
    rw [hsgn] at hset
    have hw' := hw.succ hset.oBusy hset.oValid
    have hq := h.quiet (by omega) hw'
    obtain ⟨hv, he, hz, hq⟩ := hset.negated (h.quiet (by omega) hw')
    refine ⟨n + 32 + 1, run step s₀ x (n + 32), by omega, hw', ?_⟩
    rw [run_succ]
    exact ⟨hv, he, hz, hq, hP⟩

/-- A division is answered once. -/
theorem Waiting.unique {m : ℕ} (hm : Waiting s₀ x t m) (hn : Waiting s₀ x t n) (htm : t < m)
    (htn : t < n) (hvm : (run step s₀ x m).oValid = true)
    (hvn : (run step s₀ x n).oValid = true) : m = n := by
  obtain hlt | heq | hgt := Nat.lt_trichotomy m n
  · exact absurd ((hn m htm hlt).2 ▸ hvm) Bool.false_ne_true
  · exact heq
  · exact absurd ((hm n htn hgt).2 ▸ hvn) Bool.false_ne_true

/-! ## Right answers -/

theorem getLsbD_signedDividend {num : BitVec 32} (h : num.getLsbD 31 = false) :
    signedDividend num = 0#31 ++ num := by
  rw [signedDividend, h]
  rfl

/-- A signed quotient is that of the magnitudes, negated where the signs differ. -/
theorem quotient_signed {y : Pins} (hs : y.iSigned = true) :
    quotient y = if y.iDenominator.getLsbD 31 ^^ y.iNumerator.getLsbD 31 then
      -(magnitude y.iNumerator / magnitude y.iDenominator)
      else magnitude y.iNumerator / magnitude y.iDenominator := by
  have hq : quotient y = y.iNumerator.sdiv y.iDenominator := by
    rw [quotient, if_pos hs]
    apply BitVec.eq_of_toInt_eq
    rw [BitVec.toInt_sdiv, BitVec.toInt_ofInt]
  have hn : y.iNumerator.msb = y.iNumerator.getLsbD 31 := rfl
  have hd : y.iDenominator.msb = y.iDenominator.getLsbD 31 := rfl
  rw [hq, BitVec.sdiv, hn, hd, magnitude, magnitude]
  cases y.iNumerator.getLsbD 31 <;> cases y.iDenominator.getLsbD 31 <;> rfl

theorem quotient_unsigned {y : Pins} (hs : y.iSigned = false) :
    quotient y = y.iNumerator / y.iDenominator := by
  rw [quotient, hs, if_neg Bool.false_ne_true]
  apply BitVec.eq_of_toNat_eq
  rw [BitVec.toNat_udiv, BitVec.toNat_ofNat]
  exact Nat.mod_eq_of_lt ((Nat.div_le_self _ _).trans_lt y.iNumerator.isLt)

theorem neg_eq_zero {v : BitVec 32} : -v = 0 ↔ v = 0 := BitVec.neg_eq_zero_iff

theorem oFlags_zero (s : Div) : (oFlags s).getLsbD 0 = s.rZ := by
  unfold oFlags
  simp only [BitVec.getLsbD_append, BitVec.getLsbD_ofBool]
  simp

theorem oFlags_sign (s : Div) : (oFlags s).getLsbD 2 = s.oQuotient.getLsbD 31 := by
  unfold oFlags
  simp only [BitVec.getLsbD_append, BitVec.getLsbD_ofBool]
  simp

/-- A division by zero is answered with an error. -/
theorem Division.byZero (h : Division s₀ x t) (hd : (x t).iDenominator = 0) :
    Divides s₀ x t := by
  have hl := h.loaded
  have hz : (run step s₀ x (t + 1)).zeroDivisor = true := by rw [hl.zeroDivisor, hd]; rfl
  have hw := (waiting_succ s₀ x t).succ hl.oBusy hl.oValid
  have hq := h.quiet (by omega) hw
  refine ⟨t + 1 + 1, by omega, hw, ?_, ?_, ?_, ?_, ?_⟩
  · rw [run_succ]
    simp [step, nextValid, hq.iReset, hl.oValid, hl.rBusy, hz]
  · rw [run_succ, hd]
    simp [step, hq.iReset, hl.rBusy, hz]
  all_goals exact fun hne => absurd hd hne

/-- What an answer is right about, once the loop has divided. -/
theorem Answers.of {s r : Div} {y : Pins} (hd : y.iDenominator ≠ 0)
    (hn : y.iSigned = true → y.iNumerator.getLsbD 31 = false) (he : r.oErr = false)
    (hz : r.rZ = s.rZ)
    (hq : r.oQuotient = if signOf y then -s.oQuotient else s.oQuotient)
    (hs : Divided s y.iNumerator.toNat (divisorOf y).toNat 32) : Answers r y := by
  have hquot : s.oQuotient = y.iNumerator / divisorOf y := by
    apply BitVec.eq_of_toNat_eq
    rw [BitVec.toNat_udiv, ← head_all (w := 32) (n := y.iNumerator.toNat), ← hs.quotient,
      Nat.mod_eq_of_lt s.oQuotient.isLt]
  have hzero : s.rZ = true ↔ s.oQuotient = 0 := by
    rw [hs.zero, decide_eq_true_iff, ← hs.quotient, Nat.mod_eq_of_lt s.oQuotient.isLt,
      ← BitVec.toNat_inj]
    rfl
  refine ⟨?_, fun _ => ?_, fun _ => ?_, fun _ => oFlags_sign r⟩
  · rw [he, eq_comm, beq_eq_false_iff_ne]
    exact hd
  · rw [hq, hquot]
    cases hsg : y.iSigned with
    | false =>
      have hneg : negative y.iSigned y.iNumerator y.iDenominator = false := by
        rw [hsg]
        rfl
      rw [signOf, hneg, divisorOf, hneg, quotient_unsigned hsg]
      rfl
    | true =>
      have h31 := hn hsg
      have hnum : magnitude y.iNumerator = y.iNumerator := by
        rw [magnitude, h31]
        rfl
      rw [quotient_signed hsg, hnum, h31, Bool.xor_false, signOf, divisorOf, negative, hsg, h31,
        magnitude]
      cases y.iDenominator.getLsbD 31 <;> rfl
  · rw [oFlags_zero, hz, hzero, hq]
    split
    · exact neg_eq_zero.symm
    · rfl

theorem magnitude_pos {v : BitVec 32} (h : v ≠ 0) : 0 < (magnitude v).toNat := by
  rw [Nat.pos_iff_ne_zero]
  intro hz
  apply h
  have hm : magnitude v = 0 := BitVec.eq_of_toNat_eq hz
  unfold magnitude at hm
  split at hm
  · exact neg_eq_zero.mp hm
  · exact hm

theorem divisorOf_pos {y : Pins} (h : y.iDenominator ≠ 0) : 0 < (divisorOf y).toNat := by
  unfold divisorOf
  split
  · exact magnitude_pos h
  · rw [Nat.pos_iff_ne_zero]
    exact fun hz => h (BitVec.eq_of_toNat_eq hz)

/-- The unit divides a dividend that is not negative. -/
theorem Division.divides (h : Division s₀ x t) (hd : (x t).iDenominator ≠ 0)
    (hn : (x t).iSigned = true → (x t).iNumerator.getLsbD 31 = false) : Divides s₀ x t := by
  have hdiv : dividendOf (x t) = 0#31 ++ (x t).iNumerator := by
    unfold dividendOf
    split
    · rename_i hneg
      rw [negative, Bool.and_eq_true] at hneg
      exact getLsbD_signedDividend (hn hneg.1)
    · rfl
  have hpos := divisorOf_pos hd
  obtain ⟨m, s, htm, hw, hv, he, hz, hq, hs⟩ := h.answered hd
    (P := fun j s => Divided s (x t).iNumerator.toNat (divisorOf (x t)).toNat j)
    (fun s hr hz => divided_zero (hr.trans hdiv) hz _)
    (fun j s y hs hy hp => hp.next hs hy (x t).iNumerator.isLt hpos)
  exact ⟨m, htm, hw, hv, Answers.of hd hn he hz hq hs⟩

/-! ## Wrong answers -/

/-- The loop with ones above the dividend: the first digit of the quotient is one, and for a
    divisor of one so is the second. -/
structure Overrun (s : Div) (d j : ℕ) : Prop where
  start : j = 0 → s.rDividend.toNat / 2 ^ 32 = 2 ^ 31 - 1
  first : 1 ≤ j → Digits s (j - 1) 1 1
  below : d = 1 → j = 1 → 2 ^ 31 ≤ s.rDividend.toNat
  second : d = 1 → 2 ≤ j → Digits s (j - 2) 2 3

theorem Overrun.next {s : Div} {x : Pins} {d : BitVec 32} {sgn : Bool} {j : ℕ}
    (h : Dividing s d sgn j) (hx : Quiet x) (hd : 0 < d.toNat) (hd' : d.toNat ≤ 2 ^ 31)
    (hs : Overrun s d.toNat j) : Overrun (s.step x) d.toNat (j + 1) := by
  have hj := h.lt
  have htop : top s = s.rDividend.toNat / 2 ^ 31 := rfl
  refine ⟨fun h0 => absurd h0 (Nat.succ_ne_zero j), fun _ => ?_, fun h1 hj1 => ?_,
    fun h1 hj2 => ?_⟩
  · cases j with
    | zero =>
      have hstart := hs.start rfl
      unfold Digits
      rw [h.quotient hx, if_pos (by omega)]
      omega
    | succ j => exact (hs.first (by omega)).next h hx (by omega)
  · obtain rfl : j = 0 := by omega
    have hstart := hs.start rfl
    rw [h.dividend, if_pos (by omega), h1]
    omega
  · match j, hj2 with
    | 1, _ =>
      have hfirst := hs.first (by omega)
      have hbelow := hs.below h1 rfl
      unfold Digits at hfirst ⊢
      rw [h.quotient hx, if_pos (by omega)]
      omega
    | j + 2, _ => exact (hs.second h1 (by omega)).next h hx (by omega)

theorem magnitude_le (v : BitVec 32) : (magnitude v).toNat ≤ 2 ^ 31 := by
  have hb : v.getLsbD 31 = decide (2 ^ 31 ≤ v.toNat) := by
    have hv := v.isLt
    rw [BitVec.getLsbD, Nat.testBit_eq_decide_div_mod_eq]
    apply decide_eq_decide.mpr
    omega
  have hv := v.isLt
  rw [magnitude, hb]
  split
  · rename_i h
    rw [decide_eq_true_iff] at h
    rw [BitVec.toNat_neg]
    omega
  · rename_i h
    rw [decide_eq_true_iff] at h
    omega

/-- The quotient with its top digits set is not that of the magnitudes. -/
theorem Overrun.wrong {s : Div} {d n : BitVec 32} (hd : 0 < d.toNat)
    (hn : n.toNat ≤ 2 ^ 31) (hs : Overrun s d.toNat 32) : s.oQuotient ≠ n / d := by
  intro hq
  have hnat : s.oQuotient.toNat = n.toNat / d.toNat := by rw [hq, BitVec.toNat_udiv]
  have hfirst := hs.first (by omega)
  unfold Digits at hfirst
  by_cases h1 : d.toNat = 1
  · have hsecond := hs.second h1 (by omega)
    unfold Digits at hsecond
    rw [h1, Nat.div_one] at hnat
    omega
  · have hle : n.toNat / d.toNat ≤ n.toNat / 2 := Nat.div_le_div_left (by omega) (by omega)
    omega

/-- **A negative dividend is never divided.** -/
theorem Division.not_divides (h : Division s₀ x t) (hd : (x t).iDenominator ≠ 0)
    (hs : (x t).iSigned = true) (hn : (x t).iNumerator.getLsbD 31 = true) :
    ¬ Divides s₀ x t := by
  rintro ⟨n, htn, hwn, hvn, hans⟩
  have hneg : negative (x t).iSigned (x t).iNumerator (x t).iDenominator = true := by
    rw [negative, hs, hn]
    rfl
  have hdvs : divisorOf (x t) = magnitude (x t).iDenominator := by rw [divisorOf, if_pos hneg]
  have hpos := divisorOf_pos hd
  have hle : (divisorOf (x t)).toNat ≤ 2 ^ 31 := by
    rw [hdvs]
    exact magnitude_le _
  have hstart : (dividendOf (x t)).toNat / 2 ^ 32 = 2 ^ 31 - 1 := by
    rw [dividendOf, if_pos hneg, signedDividend, if_pos hn, BitVec.toNat_append,
      ← Nat.shiftLeft_add_eq_or_of_lt (BitVec.isLt _), Nat.shiftLeft_eq, Nat.mul_comm,
      Nat.mul_add_div (Nat.two_pow_pos _), Nat.div_eq_of_lt (BitVec.isLt _)]
    rfl
  obtain ⟨m, s, htm, hwm, hvm, -, -, hq, hP⟩ := h.answered hd
    (P := fun j s => Overrun s (divisorOf (x t)).toNat j)
    (fun s hr _ => ⟨fun _ => by rw [hr, hstart], fun h => absurd h (by omega),
      fun _ h => absurd h (by omega), fun _ h => absurd h (by omega)⟩)
    (fun j s y hy hq hp => hp.next hy hq hpos hle)
  obtain rfl := hwm.unique hwn htm htn hvm hvn
  apply hP.wrong hpos (magnitude_le (x t).iNumerator)
  rw [hans.oQuotient hd, quotient_signed hs, signOf, hneg, Bool.true_and, ← hdvs] at hq
  split at hq
  · exact (BitVec.neg_inj.mp hq).symm
  · exact hq.symm

/-- **When the divider divides**: always, but for a negative dividend. -/
theorem divides_iff (h : Division s₀ x t) : Divides s₀ x t ↔
    ¬ ((x t).iSigned = true ∧ (x t).iNumerator.getLsbD 31 = true ∧ (x t).iDenominator ≠ 0) := by
  constructor
  · rintro hdiv ⟨hs, hn, hd⟩
    exact h.not_divides hd hs hn hdiv
  · intro hnot
    by_cases hd : (x t).iDenominator = 0
    · exact h.byZero hd
    · refine h.divides hd fun hs => ?_
      rw [← Bool.not_eq_true]
      exact fun hn => hnot ⟨hs, hn, hd⟩

/-- A run with one request, in its first clock. -/
def once (sgn : Bool) (num den : BitVec 32) : ℕ → Pins
  | 0 => ⟨false, true, sgn, num, den⟩
  | _ + 1 => ⟨false, false, false, 0, 0⟩

theorem once_division (sgn : Bool) (num den : BitVec 32) :
    Division Div.init (once sgn num den) 0 where
  powerUp := ⟨rfl, rfl, rfl, rfl, rfl, rfl⟩
  requested
    | 0 => fun _ => rfl
    | _ + 1 => fun h => absurd h Bool.false_ne_true
  iWr := rfl
  undisturbed
    | 0 => fun _ _ => rfl
    | _ + 1 => fun _ _ => rfl

/-- A division by a negative number. -/
theorem divides_negativeDivisor : Divides Div.init (once true 100#32 (-7#32)) 0 :=
  (divides_iff (once_division true 100#32 (-7#32))).mpr (by decide)

/-- Minus one divided by one. -/
theorem divides_minusOne : Division Div.init (once true (-1#32) 1#32) 0 ∧
    ¬ Divides Div.init (once true (-1#32) 1#32) 0 :=
  ⟨once_division true (-1#32) 1#32,
    (once_division true (-1#32) 1#32).not_divides (by decide) rfl (by decide)⟩

end Div

end ZipStormMX.Cpu
