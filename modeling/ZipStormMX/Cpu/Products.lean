/-
  All variants of the multiplier agree.

  Each variant is followed from the clock of the request to the clock of its result.  The variants
  with one, two and three clocks multiply the extended operands.  The one with four clocks splits
  them into halves; of signed operands it flips the sign bit first, which adds `2 ^ 31` to each, and
  takes the offsets out of the product again (`result4_signed`).  The bit serial one works with 33
  bits, so that a signed product is enough for unsigned operands too.
-/
import Mathlib.Tactic.Ring
import ZipStormMX.Clocked
import ZipStormMX.Cpu.Mpyop
import ZipStormMX.Cpu.SlowProduct

namespace ZipStormMX.Cpu

open Clocked

namespace Mpyop

/-! ## Products -/

/-- The product modulo `2 ^ 64`, of signed operands if bit 0 of the operation is set. -/
def product (iOp : BitVec 2) (iA iB : BitVec 32) : BitVec 64 :=
  if iOp.getLsbD 0 then BitVec.ofInt 64 (iA.toInt * iB.toInt)
  else BitVec.ofNat 64 (iA.toNat * iB.toNat)

theorem signExtend_mul (a b : BitVec 32) :
    a.signExtend 64 * b.signExtend 64 = BitVec.ofInt 64 (a.toInt * b.toInt) :=
  (BitVec.ofInt_mul a.toInt b.toInt).symm

theorem setWidth_mul (a b : BitVec 32) :
    a.setWidth 64 * b.setWidth 64 = BitVec.ofNat 64 (a.toNat * b.toNat) := by
  apply BitVec.eq_of_toNat_eq
  rw [BitVec.toNat_mul, BitVec.toNat_setWidth, BitVec.toNat_setWidth, BitVec.toNat_ofNat,
    ← Nat.mul_mod]

theorem extend64_mul (iOp : BitVec 2) (a b : BitVec 32) :
    extend64 (iOp.getLsbD 0) a * extend64 (iOp.getLsbD 0) b = product iOp a b := by
  unfold extend64 product
  cases iOp.getLsbD 0
  · exact setWidth_mul a b
  · exact signExtend_mul a b

/-! ## The product in halves -/

theorem half_toNat (v : BitVec 32) {k w : ℕ} (hw : 16 ≤ w) :
    (half v k w).toNat = v.toNat / 2 ^ (16 * k) % 2 ^ 16 := by
  have hlt : v.toNat / 2 ^ (16 * k) % 2 ^ 16 < 2 ^ w :=
    (Nat.mod_lt _ (by omega)).trans_le (Nat.pow_le_pow_right (by omega) hw)
  rw [half, BitVec.toNat_setWidth, BitVec.extractLsb'_toNat, Nat.shiftRight_eq_div_pow,
    Nat.mod_eq_of_lt hlt]

theorem mul_lt_halves {a b : ℕ} (ha : a < 2 ^ 16) (hb : b < 2 ^ 16) :
    a * b ≤ (2 ^ 16 - 1) * (2 ^ 16 - 1) := Nat.mul_le_mul (by omega) (by omega)

/-- The stage in which the partial products stand. -/
structure Stage4 (s : Mpyop) (a b : BitVec 32) (sgn : Bool) : Prop where
  ppF : s.ppF = half a 1 32 * half b 1 32
  ppL : s.ppL = half a 0 32 * half b 0 32
  ppOi : s.ppOi = half a 1 33 * half b 0 33 + half a 0 33 * half b 1 33
  ppS : s.ppS = if sgn then 0x80000000#33 - (a.setWidth 33 + b.setWidth 33) else 0

/-- The partial products add up to the product, and the offset to what `pp_s` is. -/
theorem Stage4.toNat {s : Mpyop} {a b : BitVec 32} {sgn : Bool} (h : Stage4 s a b sgn) :
    (nextResult4 s).toNat = (a.toNat * b.toNat + s.ppS.toNat * 2 ^ 31) % 2 ^ 64 := by
  have ha := a.isLt
  have hb := b.isLt
  have h1 := mul_lt_halves (a := a.toNat / 2 ^ 16) (b := b.toNat / 2 ^ 16) (by omega) (by omega)
  have h2 := mul_lt_halves (a := a.toNat % 2 ^ 16) (b := b.toNat % 2 ^ 16) (by omega) (by omega)
  have h3 := mul_lt_halves (a := a.toNat / 2 ^ 16) (b := b.toNat % 2 ^ 16) (by omega) (by omega)
  have h4 := mul_lt_halves (a := a.toNat % 2 ^ 16) (b := b.toNat / 2 ^ 16) (by omega) (by omega)
  have hhi : ∀ {v : BitVec 32} {w : ℕ}, 16 ≤ w → (half v 1 w).toNat = v.toNat / 2 ^ 16 := by
    intro v w hw
    have hv := v.isLt
    rw [half_toNat v hw]
    omega
  have hlo : ∀ {v : BitVec 32} {w : ℕ}, 16 ≤ w → (half v 0 w).toNat = v.toNat % 2 ^ 16 := by
    intro v w hw
    rw [half_toNat v hw]
    omega
  have hF : s.ppF.toNat = a.toNat / 2 ^ 16 * (b.toNat / 2 ^ 16) := by
    rw [h.ppF, BitVec.toNat_mul, hhi (by omega), hhi (by omega), Nat.mod_eq_of_lt (by omega)]
  have hL : s.ppL.toNat = a.toNat % 2 ^ 16 * (b.toNat % 2 ^ 16) := by
    rw [h.ppL, BitVec.toNat_mul, hlo (by omega), hlo (by omega), Nat.mod_eq_of_lt (by omega)]
  have hOi : s.ppOi.toNat =
      a.toNat / 2 ^ 16 * (b.toNat % 2 ^ 16) + a.toNat % 2 ^ 16 * (b.toNat / 2 ^ 16) := by
    rw [h.ppOi, BitVec.toNat_add, BitVec.toNat_mul, BitVec.toNat_mul, hhi (by omega),
      hhi (by omega), hlo (by omega), hlo (by omega)]
    omega
  -- the four products are what the whole operands multiply to
  have hab : a.toNat * b.toNat = a.toNat / 2 ^ 16 * (b.toNat / 2 ^ 16) * 2 ^ 32 +
      (a.toNat / 2 ^ 16 * (b.toNat % 2 ^ 16) + a.toNat % 2 ^ 16 * (b.toNat / 2 ^ 16)) * 2 ^ 16 +
      a.toNat % 2 ^ 16 * (b.toNat % 2 ^ 16) := by
    have hda := Nat.div_add_mod a.toNat (2 ^ 16)
    have hdb := Nat.div_add_mod b.toNat (2 ^ 16)
    calc a.toNat * b.toNat = (2 ^ 16 * (a.toNat / 2 ^ 16) + a.toNat % 2 ^ 16) *
          (2 ^ 16 * (b.toNat / 2 ^ 16) + b.toNat % 2 ^ 16) := by rw [hda, hdb]
      _ = _ := by ring
  have hs := s.ppS.isLt
  have hf := s.ppF.isLt
  have hl := s.ppL.isLt
  have ho := s.ppOi.isLt
  rw [← hF, ← hL, ← hOi] at hab
  rw [hab]
  unfold nextResult4
  rw [BitVec.toNat_append, ← Nat.shiftLeft_add_eq_or_of_lt (BitVec.isLt _), BitVec.toNat_add,
    BitVec.toNat_add, BitVec.toNat_add, BitVec.toNat_setWidth, BitVec.toNat_setWidth,
    BitVec.toNat_append, BitVec.toNat_append, BitVec.extractLsb'_toNat, BitVec.extractLsb'_toNat]
  simp only [Nat.shiftLeft_eq, Nat.shiftRight_eq_div_pow, BitVec.toNat_ofNat, Nat.zero_mod,
    Nat.or_zero]
  omega

/-- A signed factor has its sign bit flipped: it is offset by `2 ^ 31`. -/
theorem factor4_toNat {iOp : BitVec 2} (h : iOp.getLsbD 0 = true) (v : BitVec 32) :
    ((factor4 iOp v).toNat : ℤ) = v.toInt + 2 ^ 31 := by
  unfold factor4
  rw [if_pos h]
  exact Slowmpy.flip_top (by omega) v

/-- What `pp_s` takes out of the product are the offsets of the factors. -/
theorem result4_signed {p q u : ℕ} {a b : ℤ} (hp : (p : ℤ) = a + 2 ^ 31) (hq : (q : ℤ) = b + 2 ^ 31)
    (hu : (u : ℤ) % 2 ^ 33 = (2 ^ 31 - (p + q)) % 2 ^ 33) :
    ((p * q + u * 2 ^ 31 : ℕ) : ℤ) % 2 ^ 64 = a * b % 2 ^ 64 := by
  have hab : a * b = p * q + (2 ^ 31 - (p + q)) * 2 ^ 31 := by
    have ha : a = p - 2 ^ 31 := by omega
    have hb : b = q - 2 ^ 31 := by omega
    rw [ha, hb]
    ring
  rw [hab]
  push_cast
  generalize (p : ℤ) * q = r at *
  omega

/-- **The four clock multiplier multiplies.** -/
theorem Stage4.product {s : Mpyop} {iOp : BitVec 2} {a b : BitVec 32}
    (h : Stage4 s (factor4 iOp a) (factor4 iOp b) (iOp.getLsbD 0)) :
    nextResult4 s = product iOp a b := by
  apply BitVec.eq_of_toNat_eq
  rw [h.toNat, Mpyop.product]
  cases hop : iOp.getLsbD 0 with
  | false =>
    have hS : s.ppS.toNat = 0 := by
      rw [h.ppS, hop]
      rfl
    have hf : ∀ v, factor4 iOp v = v := fun v => by
      rw [factor4, hop]
      rfl
    rw [if_neg Bool.false_ne_true, hS, hf, hf, Nat.zero_mul, Nat.add_zero, BitVec.toNat_ofNat]
  | true =>
    have ha := (factor4 iOp a).isLt
    have hb := (factor4 iOp b).isLt
    have hS : (s.ppS.toNat : ℤ) % 2 ^ 33 =
        (2 ^ 31 - ((factor4 iOp a).toNat + (factor4 iOp b).toNat)) % 2 ^ 33 := by
      rw [h.ppS, hop, if_pos rfl, BitVec.toNat_sub, BitVec.toNat_add, BitVec.toNat_setWidth,
        BitVec.toNat_setWidth, BitVec.toNat_ofNat]
      omega
    have hres := result4_signed (factor4_toNat hop a) (factor4_toNat hop b) hS
    rw [if_pos rfl, BitVec.toNat_ofInt, ← Int.toNat_natCast (_ % _), Int.natCast_emod]
    push_cast at hres ⊢
    rw [hres]

/-! ## The product of the bit serial multiplier -/

theorem slowFactor_toInt (iOp : BitVec 2) (v : BitVec 32) :
    (slowFactor iOp v).toInt = if iOp.getLsbD 0 then v.toInt else v.toNat := by
  have hv := v.isLt
  have hmsb : v.msb = v.getLsbD 31 := rfl
  have hn : (slowFactor iOp v).toNat =
      (iOp.getLsbD 0 && v.getLsbD 31).toNat * 2 ^ 32 + v.toNat := by
    rw [slowFactor, BitVec.toNat_append, ← Nat.shiftLeft_add_eq_or_of_lt hv, BitVec.toNat_ofBool,
      Nat.shiftLeft_eq]
  rw [BitVec.toInt_eq_toNat_cond, hn, BitVec.toInt_eq_msb_cond, hmsb]
  cases iOp.getLsbD 0 <;> cases v.getLsbD 31 <;> simp <;> omega

theorem product_of_exact {iOp : BitVec 2} {a b : BitVec 32} {p : BitVec (33 + 33)}
    (h : Slowmpy.Exact true (slowFactor iOp a) (slowFactor iOp b) p) :
    p.setWidth 64 = product iOp a b := by
  have hp : p.toInt = (slowFactor iOp a).toInt * (slowFactor iOp b).toInt := h
  have hw : p.setWidth 64 = BitVec.ofInt 64 p.toInt := by
    have hlt := p.isLt
    apply BitVec.eq_of_toNat_eq
    rw [BitVec.toNat_setWidth, BitVec.toNat_ofInt, BitVec.toInt_eq_toNat_cond]
    split <;> omega
  rw [hw, hp, slowFactor_toInt, slowFactor_toInt, product]
  cases iOp.getLsbD 0
  · rw [if_neg Bool.false_ne_true, if_neg Bool.false_ne_true, if_neg Bool.false_ne_true,
      ← Nat.cast_mul, BitVec.ofInt_natCast]
  · rfl

/-! ## From the request to the result -/

/-- The input pins during one clock. -/
structure Pins where
  iReset : Bool
  iStb : Bool
  iOp : BitVec 2
  iA : BitVec 32
  iB : BitVec 32

def step (s : Mpyop) (x : Pins) : Mpyop := s.next x.iReset x.iStb x.iOp x.iA x.iB

/-- At clock `t` the multiplier is not busy and gets a request, and no reset interrupts it before
    the result. -/
structure Multiplication (m : ℕ) (s₀ : Mpyop) (x : ℕ → Pins) (t : ℕ) : Prop where
  iStb : (x t).iStb = true
  idle : oBusy m (run step s₀ x t) = false
  undisturbed : ∀ n, t ≤ n →
    (∀ k, t < k → k ≤ n → oValid m (run step s₀ x k) (x k).iStb = false) → (x n).iReset = false

/-- The clock at which the result of clock `t` is declared valid: that of the request where there
    is no register, and the first one with `o_valid` otherwise. -/
def Declared (m : ℕ) (s₀ : Mpyop) (x : ℕ → Pins) (t n : ℕ) : Prop :=
  if m = 1 then n = t
  else t < n ∧ (∀ k, t < k → k < n → oValid m (run step s₀ x k) (x k).iStb = false) ∧
    oValid m (run step s₀ x n) (x n).iStb = true

/-- The result on the output pins at clock `n`. -/
def resultAt (m : ℕ) (s₀ : Mpyop) (x : ℕ → Pins) (n : ℕ) : BitVec 64 :=
  oResult m (run step s₀ x n) (x n).iOp (x n).iA (x n).iB

variable {s₀ : Mpyop} {x : ℕ → Pins} {t : ℕ}

theorem two_declared (h : Multiplication 2 s₀ x t) :
    Declared 2 s₀ x t (t + 1) ∧
      resultAt 2 s₀ x (t + 1) = product (x t).iOp (x t).iA (x t).iB := by
  have hr := h.undisturbed t le_rfl fun k hk hkt => absurd hk (Nat.not_lt.mpr hkt)
  refine ⟨⟨by omega, fun k hk hkt => absurd hkt (by omega), ?_⟩, extend64_mul _ _ _⟩
  show (step (run step s₀ x t) (x t)).mpypipe2 = true
  simp [step, hr, h.iStb]

theorem getLsbD_shift2 (v : BitVec 2) (b : Bool) :
    (v.extractLsb' 0 1 ++ BitVec.ofBool b).getLsbD 0 = b ∧
      (v.extractLsb' 0 1 ++ BitVec.ofBool b).getLsbD 1 = v.getLsbD 0 := by
  constructor
  · simp only [BitVec.getLsbD_append, BitVec.getLsbD_ofBool]
    simp
  · simp only [BitVec.getLsbD_append, BitVec.getLsbD_ofBool]
    simp

theorem getLsbD_shift3 (v : BitVec 3) (b : Bool) :
    (v.extractLsb' 0 2 ++ BitVec.ofBool b).getLsbD 0 = b ∧
      (v.extractLsb' 0 2 ++ BitVec.ofBool b).getLsbD 1 = v.getLsbD 0 ∧
      (v.extractLsb' 0 2 ++ BitVec.ofBool b).getLsbD 2 = v.getLsbD 1 := by
  refine ⟨?_, ?_, ?_⟩
  · simp only [BitVec.getLsbD_append, BitVec.getLsbD_ofBool]
    simp
  · simp only [BitVec.getLsbD_append, BitVec.getLsbD_ofBool]
    simp
  · simp only [BitVec.getLsbD_append, BitVec.getLsbD_ofBool]
    simp

theorem three_declared (h : Multiplication 3 s₀ x t) :
    Declared 3 s₀ x t (t + 2) ∧
      resultAt 3 s₀ x (t + 2) = product (x t).iOp (x t).iA (x t).iB := by
  have hbusy : (run step s₀ x t).mpypipe3.getLsbD 0 = false := h.idle
  have hr0 := h.undisturbed t le_rfl fun k hk hkt => absurd hk (Nat.not_lt.mpr hkt)
  have h1 : (run step s₀ x (t + 1)).mpypipe3.getLsbD 0 = true ∧
      (run step s₀ x (t + 1)).mpypipe3.getLsbD 1 = false := by
    show (step (run step s₀ x t) (x t)).mpypipe3.getLsbD 0 = true ∧
      (step (run step s₀ x t) (x t)).mpypipe3.getLsbD 1 = false
    obtain ⟨h0, h1⟩ := getLsbD_shift2 (run step s₀ x t).mpypipe3 (x t).iStb
    simp only [step, next_mpypipe3, hr0, Bool.false_eq_true, if_false]
    rw [h0, h1]
    exact ⟨h.iStb, hbusy⟩
  have hfirst : ∀ k, t < k → k < t + 2 → oValid 3 (run step s₀ x k) (x k).iStb = false := by
    intro k hk hkt
    obtain rfl : k = t + 1 := by omega
    exact h1.2
  have hr1 := h.undisturbed (t + 1) (by omega) fun k hk hkt => hfirst k hk (by omega)
  refine ⟨⟨by omega, hfirst, ?_⟩, ?_⟩
  · show (step (run step s₀ x (t + 1)) (x (t + 1))).mpypipe3.getLsbD 1 = true
    simp only [step, next_mpypipe3, hr1, Bool.false_eq_true, if_false]
    rw [(getLsbD_shift2 _ _).2]
    exact h1.1
  · have hsgn : (run step s₀ x (t + 2)).rSgn.getLsbD 1 = (x t).iOp.getLsbD 0 := by
      show ((((run step s₀ x t).rSgn.extractLsb' 0 1 ++ (x t).iOp.extractLsb' 0 1).extractLsb' 0 1
        ++ (x (t + 1)).iOp.extractLsb' 0 1).getLsbD 1) = _
      simp only [BitVec.getLsbD_append, BitVec.getLsbD_extractLsb']
      simp
    show (if (run step s₀ x (t + 2)).rSgn.getLsbD 1 then (run step s₀ x (t + 2)).rSmpyResult
      else (run step s₀ x (t + 2)).rUmpyResult) = _
    rw [hsgn, product, ← signExtend_mul, ← setWidth_mul]
    rfl

theorem four_declared (h : Multiplication 4 s₀ x t) :
    Declared 4 s₀ x t (t + 3) ∧
      resultAt 4 s₀ x (t + 3) = product (x t).iOp (x t).iA (x t).iB := by
  have hbusy : (run step s₀ x t).mpypipe4.getLsbD 0 = false ∧
      (run step s₀ x t).mpypipe4.getLsbD 1 = false := by
    have hb : ((run step s₀ x t).mpypipe4.getLsbD 0 || (run step s₀ x t).mpypipe4.getLsbD 1) =
      false := h.idle
    exact Bool.or_eq_false_iff.mp hb
  have hshift : ∀ n, (x n).iReset = false →
      (run step s₀ x (n + 1)).mpypipe4.getLsbD 0 = (x n).iStb ∧
      (run step s₀ x (n + 1)).mpypipe4.getLsbD 1 = (run step s₀ x n).mpypipe4.getLsbD 0 ∧
      (run step s₀ x (n + 1)).mpypipe4.getLsbD 2 = (run step s₀ x n).mpypipe4.getLsbD 1 := by
    intro n hr
    rw [run_succ]
    simp only [step, next_mpypipe4, hr, Bool.false_eq_true, if_false]
    exact getLsbD_shift3 _ _
  have hr0 := h.undisturbed t le_rfl fun k hk hkt => absurd hk (Nat.not_lt.mpr hkt)
  obtain ⟨h10, h11, h12⟩ := hshift t hr0
  rw [hbusy.1] at h11
  rw [hbusy.2] at h12
  have hr1 := h.undisturbed (t + 1) (by omega) fun k hk hkt => by
    obtain rfl : k = t + 1 := by omega
    exact h12
  obtain ⟨-, h21, h22⟩ := hshift (t + 1) hr1
  rw [h10, h.iStb] at h21
  rw [h11] at h22
  have hfirst : ∀ k, t < k → k < t + 3 → oValid 4 (run step s₀ x k) (x k).iStb = false := by
    intro k hk hkt
    obtain rfl | rfl : k = t + 1 ∨ k = t + 2 := by omega
    · exact h12
    · exact h22
  have hr2 := h.undisturbed (t + 2) (by omega) fun k hk hkt => hfirst k hk (by omega)
  obtain ⟨-, -, h32⟩ := hshift (t + 2) hr2
  refine ⟨⟨by omega, hfirst, h32.trans h21⟩, ?_⟩
  have hstage : Stage4 (run step s₀ x (t + 2)) (factor4 (x t).iOp (x t).iA)
      (factor4 (x t).iOp (x t).iB) ((x t).iOp.getLsbD 0) := ⟨rfl, rfl, rfl, rfl⟩
  exact hstage.product

/-- What the pins of `mpyop` are to the bit serial multiplier. -/
def slowPins (x : Pins) : Slowmpy.Pins 33 where
  iReset := x.iReset
  iStb := x.iStb
  iA := slowFactor x.iOp x.iA
  iB := slowFactor x.iOp x.iB

theorem run_slow (s₀ : Mpyop) (x : ℕ → Pins) (n : ℕ) : (run step s₀ x n).slow =
    run (Slowmpy.step true) s₀.slow (fun k => slowPins (x k)) n :=
  run_map (f := Mpyop.slow) (g := fun _ => slowPins) (fun _ _ => rfl) s₀ x n

theorem slow_declared {m : ℕ} (hm : 4 < m) (h : Multiplication m s₀ x t) :
    Declared m s₀ x t (t + 35) ∧
      resultAt m s₀ x (t + 35) = product (x t).iOp (x t).iA (x t).iB := by
  obtain ⟨m, rfl⟩ : ∃ k, m = k + 5 := ⟨m - 5, by omega⟩
  have hslow := run_slow s₀ x
  have hvalid : ∀ k, oValid (m + 5) (run step s₀ x k) (x k).iStb =
      (run (Slowmpy.step true) s₀.slow (fun k => slowPins (x k)) k).oDone := by
    intro k
    rw [← hslow]
    rfl
  have hreq : Slowmpy.Request true s₀.slow (fun k => slowPins (x k)) t := by
    refine ⟨h.iStb, ?_, fun n hn hdone => h.undisturbed n hn fun k hk hkn => ?_⟩
    · rw [← hslow]
      exact h.idle
    · rw [hvalid]
      exact hdone k hk hkn
  obtain ⟨hfirst, hdone, hexact⟩ := hreq.exact (by omega) (by omega)
  have hd : Declared (m + 5) s₀ x t (t + 35) := by
    unfold Declared
    rw [if_neg (by omega)]
    refine ⟨by omega, fun k hk hkt => ?_, ?_⟩
    · rw [hvalid]
      exact hfirst k hk hkt
    · rw [hvalid]
      exact hdone
  refine ⟨hd, ?_⟩
  show (run step s₀ x (t + 35)).slow.oP.setWidth 64 = _
  rw [hslow]
  exact product_of_exact hexact

/-- **Every variant gives the product.** -/
theorem declared_product {m : ℕ} (hm : 0 < m) (h : Multiplication m s₀ x t) :
    ∃ n, Declared m s₀ x t n ∧
      resultAt m s₀ x n = product (x t).iOp (x t).iA (x t).iB := by
  obtain rfl | rfl | rfl | rfl | hm5 : m = 1 ∨ m = 2 ∨ m = 3 ∨ m = 4 ∨ 4 < m := by omega
  · exact ⟨t, rfl, extend64_mul _ _ _⟩
  · exact ⟨t + 1, two_declared h⟩
  · exact ⟨t + 2, three_declared h⟩
  · exact ⟨t + 3, four_declared h⟩
  · exact ⟨t + 35, slow_declared hm5 h⟩

/-- **All variants agree**, and the bit serial one is exact for factors of any width. -/
theorem multipliers_agree :
    (∀ (m : ℕ) (s₀ : Mpyop) (x : ℕ → Pins) (t : ℕ), 0 < m → Multiplication m s₀ x t →
      ∃ n, Declared m s₀ x t n ∧
        resultAt m s₀ x n = product (x t).iOp (x t).iA (x t).iB) ∧
    ∀ (NA LGNA : ℕ) (optSigned : Bool) (s₀ : Slowmpy NA LGNA) (x : ℕ → Slowmpy.Pins NA) (t : ℕ),
      2 ≤ NA → NA ≤ 2 ^ LGNA → Slowmpy.Request optSigned s₀ x t →
      (∀ k, t < k → k < t + NA + 2 → (run (Slowmpy.step optSigned) s₀ x k).oDone = false) ∧
      (run (Slowmpy.step optSigned) s₀ x (t + NA + 2)).oDone = true ∧
      Slowmpy.Exact optSigned (x t).iA (x t).iB
        (run (Slowmpy.step optSigned) s₀ x (t + NA + 2)).oP :=
  ⟨fun _ _ _ _ hm h => declared_product hm h, fun _ _ _ _ _ _ h2 hN h => h.exact h2 hN⟩

/-- A run with one request, in its first clock. -/
def once (iOp : BitVec 2) (iA iB : BitVec 32) : ℕ → Pins
  | 0 => ⟨false, true, iOp, iA, iB⟩
  | _ + 1 => ⟨false, false, 0, 0, 0⟩

/-- Minus one squared, signed, by the four clock multiplier; and two squared, by the bit serial one
    for factors of three bits. -/
theorem multipliers_agree_squares :
    (∃ n, Declared 4 Mpyop.init (once 3#2 (-1#32) (-1#32)) 0 n ∧
      resultAt 4 Mpyop.init (once 3#2 (-1#32) (-1#32)) n = 1#64) ∧
    (run (Slowmpy.step true)
      ({ oBusy := false, oDone := false, oP := 0, count := 0, pA := 0, pB := 0, partialP := 0,
         almostDone := false } : Slowmpy 3 2)
      (fun _ => ⟨false, true, 2#3, 2#3⟩) (0 + 3 + 2)).oP.toInt = 4 :=
  ⟨multipliers_agree.1 4 Mpyop.init (once 3#2 (-1#32) (-1#32)) 0 (by decide)
      ⟨rfl, rfl, fun n _ _ => by cases n <;> rfl⟩,
    (multipliers_agree.2 3 2 true _ _ 0 (by decide) (by decide)
      ⟨rfl, rfl, fun _ _ _ => rfl⟩).2.2⟩

end Mpyop

end ZipStormMX.Cpu
