/-
  The condition codes of the ALU.

  The flags are made of registers that are set as an operation is issued and of the result, one clock
  later.  After a comparison they say how the operands compare, after an addition what became of the
  sum, and after a shift what was shifted out last, by whatever amount.
-/
import ZipStormMX.Cpu.Cpuops

namespace ZipStormMX.Cpu.Cpuops

/-! ## The flags -/

variable (s : Cpuops)

def flagZ : Bool := s.oF.getLsbD 0
def flagC : Bool := s.oF.getLsbD 1
def flagN : Bool := s.oF.getLsbD 2
def flagV : Bool := s.oF.getLsbD 3

theorem flagZ_eq : s.flagZ = (s.oC == 0) := by
  unfold flagZ oF
  simp only [BitVec.getLsbD_append, BitVec.getLsbD_ofBool]
  simp

theorem flagC_eq : s.flagC = s.c := by
  unfold flagC oF
  simp only [BitVec.getLsbD_append, BitVec.getLsbD_ofBool]
  simp

theorem flagN_eq : s.flagN = (s.oC.msb ^^ (s.keepSgnOnOvfl && (s.preSign != s.oC.msb))) := by
  unfold flagN oF
  simp only [BitVec.getLsbD_append, BitVec.getLsbD_ofBool]
  simp [BitVec.msb_eq_getLsbD_last]

theorem flagV_eq : s.flagV = (s.setOvfl && (s.preSign != s.oC.msb)) := by
  unfold flagV oF
  simp only [BitVec.getLsbD_append, BitVec.getLsbD_ofBool]
  simp [BitVec.msb_eq_getLsbD_last]

/-! ## What they are to mean -/

/-- A word as a signed number: its top bit is the sign. -/
theorem signed (a : BitVec 32) : (a.msb = true ∧ a.toInt = a.toNat - 2 ^ 32 ∧ 2 ^ 31 ≤ a.toNat) ∨
    (a.msb = false ∧ a.toInt = a.toNat ∧ a.toNat < 2 ^ 31) := by
  rw [BitVec.msb_eq_decide, BitVec.toInt_eq_toNat_cond]
  by_cases h : 2 ^ (32 - 1) ≤ a.toNat
  · refine Or.inl ⟨decide_eq_true h, ?_, h⟩
    rw [if_neg (by omega)]
    rfl
  · refine Or.inr ⟨decide_eq_false h, ?_, by omega⟩
    rw [if_pos (by omega)]

/-- Not a signed number of 32 bits. -/
def Overflows (x : ℤ) : Prop := x < -2 ^ 31 ∨ 2 ^ 31 ≤ x

/-- After `a - b`. -/
structure Compared (s : Cpuops) (a b : BitVec 32) : Prop where
  z : s.flagZ = true ↔ a = b
  c : s.flagC = true ↔ a.toNat < b.toNat
  n : s.flagN = true ↔ a.toInt < b.toInt
  v : s.flagV = true ↔ Overflows (a.toInt - b.toInt)

/-- After `a + b`. -/
structure Added (s : Cpuops) (a b : BitVec 32) : Prop where
  c : s.flagC = true ↔ 2 ^ 32 ≤ a.toNat + b.toNat
  n : s.flagN = true ↔ a.toInt + b.toInt < 0
  v : s.flagV = true ↔ Overflows (a.toInt + b.toInt)

/-- After a shift of `a` right by `k`. -/
structure ShiftedRight (s : Cpuops) (a : BitVec 32) (k : ℕ) : Prop where
  result : s.oC.toNat = a.toNat / 2 ^ k
  c : s.flagC = true ↔ 0 < k ∧ k ≤ 32 ∧ a.getLsbD (k - 1) = true

/-- After a shift of `a` left by `k`. -/
structure ShiftedLeft (s : Cpuops) (a : BitVec 32) (k : ℕ) : Prop where
  result : s.oC.toNat = a.toNat * 2 ^ k % 2 ^ 32
  c : s.flagC = true ↔ 0 < k ∧ k ≤ 32 ∧ a.getLsbD (32 - k) = true

/-- After a shift of `a` right by `k` that keeps the sign. -/
structure ShiftedSigned (s : Cpuops) (a : BitVec 32) (k : ℕ) : Prop where
  result : s.oC.toInt = a.toInt / 2 ^ k
  c : s.flagC = true ↔ 0 < k ∧ a.getLsbD (min k 32 - 1) = true

/-! ## Issuing -/

section Issue

variable (implementMpy : ℕ) (iReset : Bool) (iOp : BitVec 4) (a b : BitVec 32)

/-- The clock after an operation is issued. -/
def issued : Cpuops := next implementMpy s iReset true iOp a b

theorem issued_oC : (issued s implementMpy iReset iOp a b).oC =
    (aluCase iOp a b (mpyResult implementMpy s iOp a b)).2 := rfl

theorem issued_c : (issued s implementMpy iReset iOp a b).c =
    (aluCase iOp a b (mpyResult implementMpy s iOp a b)).1 := rfl

theorem issued_preSign : (issued s implementMpy iReset iOp a b).preSign = a.msb := by
  rw [BitVec.msb_eq_getLsbD_last]
  rfl

theorem issued_keepSgn : (issued s implementMpy iReset iOp a b).keepSgnOnOvfl =
    mayOverflow iOp a b := rfl

theorem issued_setOvfl : (issued s implementMpy iReset iOp a b).setOvfl =
    (mayOverflow iOp a b || iOp == 0x6#4 || iOp == 0x5#4) := rfl

/-- The carry of a difference is a borrow. -/
theorem sub_carry : (a.setWidth 33 - b.setWidth 33).getLsbD 32 = decide (a.toNat < b.toNat) := by
  have ha := a.isLt
  have hb := b.isLt
  have htop : (a.setWidth 33 - b.setWidth 33).getLsbD 32 = (a.setWidth 33 - b.setWidth 33).msb :=
    (BitVec.msb_eq_getLsbD_last _).symm
  rw [htop, BitVec.msb_eq_decide, BitVec.toNat_sub, BitVec.toNat_setWidth, BitVec.toNat_setWidth]
  apply decide_eq_decide.2
  omega

theorem sub_low : (a.setWidth 33 - b.setWidth 33).extractLsb' 0 32 = a - b := by
  have ha := a.isLt
  have hb := b.isLt
  apply BitVec.eq_of_toNat_eq
  rw [BitVec.extractLsb'_toNat, BitVec.toNat_sub, BitVec.toNat_sub, BitVec.toNat_setWidth,
    BitVec.toNat_setWidth, Nat.shiftRight_zero]
  omega

/-- **Z, C, N and V after a comparison.** -/
theorem issued_sub : Compared (issued s implementMpy iReset 0x0#4 a b) a b := by
  have ha := a.isLt
  have hb := b.isLt
  have hres : (issued s implementMpy iReset 0x0#4 a b).oC = a - b := sub_low a b
  have hmay : mayOverflow 0x0#4 a b = (a.msb != b.msb) := by
    rw [BitVec.msb_eq_getLsbD_last, BitVec.msb_eq_getLsbD_last]
    unfold mayOverflow
    simp
  have hset : (issued s implementMpy iReset 0x0#4 a b).setOvfl = (a.msb != b.msb) := by
    rw [issued_setOvfl, hmay]
    simp
  constructor
  · rw [flagZ_eq, hres, beq_iff_eq]
    constructor
    · intro h
      have h := congrArg BitVec.toNat h
      apply BitVec.eq_of_toNat_eq
      rw [BitVec.toNat_sub] at h
      change _ = 0 at h
      omega
    · intro h
      rw [h]
      exact BitVec.sub_self b
  · rw [flagC_eq, issued_c]
    show (a.setWidth 33 - b.setWidth 33).getLsbD 32 = true ↔ _
    rw [sub_carry, decide_eq_true_iff]
  · rw [flagN_eq, issued_keepSgn, issued_preSign, hmay, hres]
    have hsub := BitVec.toNat_sub a b
    rcases signed a with ⟨h0, h1, h2⟩ | ⟨h0, h1, h2⟩ <;>
      rcases signed b with ⟨h3, h4, h5⟩ | ⟨h3, h4, h5⟩ <;>
      rcases signed (a - b) with ⟨h6, -, h7⟩ | ⟨h6, -, h7⟩ <;>
      rw [h0, h1, h3, h4, h6] <;> simp <;> omega
  · rw [flagV_eq, hset, issued_preSign, hres]
    unfold Overflows
    have hsub := BitVec.toNat_sub a b
    rcases signed a with ⟨h0, h1, h2⟩ | ⟨h0, h1, h2⟩ <;>
      rcases signed b with ⟨h3, h4, h5⟩ | ⟨h3, h4, h5⟩ <;>
      rcases signed (a - b) with ⟨h6, -, h7⟩ | ⟨h6, -, h7⟩ <;>
      rw [h0, h1, h3, h4, h6] <;> simp <;> omega

/-! ## Addition -/

theorem add_carry :
    (a.setWidth 33 + b.setWidth 33).getLsbD 32 = decide (2 ^ 32 ≤ a.toNat + b.toNat) := by
  have ha := a.isLt
  have hb := b.isLt
  have htop : (a.setWidth 33 + b.setWidth 33).getLsbD 32 = (a.setWidth 33 + b.setWidth 33).msb :=
    (BitVec.msb_eq_getLsbD_last _).symm
  rw [htop, BitVec.msb_eq_decide, BitVec.toNat_add, BitVec.toNat_setWidth, BitVec.toNat_setWidth]
  apply decide_eq_decide.2
  omega

theorem add_low : (a.setWidth 33 + b.setWidth 33).extractLsb' 0 32 = a + b := by
  have ha := a.isLt
  have hb := b.isLt
  apply BitVec.eq_of_toNat_eq
  rw [BitVec.extractLsb'_toNat, BitVec.toNat_add, BitVec.toNat_add, BitVec.toNat_setWidth,
    BitVec.toNat_setWidth, Nat.shiftRight_zero]
  omega

/-- **C, N and V after an addition.** -/
theorem issued_add : Added (issued s implementMpy iReset 0x2#4 a b) a b := by
  have ha := a.isLt
  have hb := b.isLt
  have hres : (issued s implementMpy iReset 0x2#4 a b).oC = a + b := add_low a b
  have hmay : mayOverflow 0x2#4 a b = (a.msb == b.msb) := by
    rw [BitVec.msb_eq_getLsbD_last, BitVec.msb_eq_getLsbD_last]
    unfold mayOverflow
    simp
  have hset : (issued s implementMpy iReset 0x2#4 a b).setOvfl = (a.msb == b.msb) := by
    rw [issued_setOvfl, hmay]
    simp
  have hadd := BitVec.toNat_add a b
  constructor
  · rw [flagC_eq, issued_c]
    show (a.setWidth 33 + b.setWidth 33).getLsbD 32 = true ↔ _
    rw [add_carry, decide_eq_true_iff]
  · rw [flagN_eq, issued_keepSgn, issued_preSign, hmay, hres]
    rcases signed a with ⟨h0, h1, h2⟩ | ⟨h0, h1, h2⟩ <;>
      rcases signed b with ⟨h3, h4, h5⟩ | ⟨h3, h4, h5⟩ <;>
      rcases signed (a + b) with ⟨h6, -, h7⟩ | ⟨h6, -, h7⟩ <;>
      rw [h0, h1, h3, h4, h6] <;> simp <;> omega
  · rw [flagV_eq, hset, issued_preSign, hres]
    unfold Overflows
    rcases signed a with ⟨h0, h1, h2⟩ | ⟨h0, h1, h2⟩ <;>
      rcases signed b with ⟨h3, h4, h5⟩ | ⟨h3, h4, h5⟩ <;>
      rcases signed (a + b) with ⟨h6, -, h7⟩ | ⟨h6, -, h7⟩ <;>
      rw [h0, h1, h3, h4, h6] <;> simp <;> omega

/-! ## Shifts -/

/-- The three ranges of the amount. -/
theorem amount_high : (b.extractLsb' 5 27 != 0) = decide (32 ≤ b.toNat) := by
  have hb := b.isLt
  have hval : (b.extractLsb' 5 27).toNat = b.toNat / 32 := by
    rw [BitVec.extractLsb'_toNat, Nat.shiftRight_eq_div_pow]
    omega
  rw [Bool.eq_iff_iff, bne_iff_ne, decide_eq_true_iff, ne_eq, ← BitVec.toNat_inj, hval]
  change ¬b.toNat / 32 = 0 ↔ _
  omega

theorem amount_low : (b.extractLsb' 0 5).toNat = b.toNat % 32 := by
  rw [BitVec.extractLsb'_toNat, Nat.shiftRight_zero]

theorem amount_bit5 : b.getLsbD 5 = decide (b.toNat / 32 % 2 = 1) := by
  rw [BitVec.getLsbD, Nat.testBit_eq_decide_div_mod_eq]

theorem shiftsOut_eq : shiftsOut b = decide (33 ≤ b.toNat) := by
  have hb := b.isLt
  have hval : (b.extractLsb' 6 26).toNat = b.toNat / 64 := by
    rw [BitVec.extractLsb'_toNat, Nat.shiftRight_eq_div_pow]
    omega
  have hhigh : (b.extractLsb' 6 26 != 0) = true ↔ ¬b.toNat / 64 = 0 := by
    rw [bne_iff_ne, ne_eq, ← BitVec.toNat_inj, hval]
    exact Iff.rfl
  have hlow : (b.extractLsb' 0 5 != 0) = true ↔ ¬b.toNat % 32 = 0 := by
    rw [bne_iff_ne, ne_eq, ← BitVec.toNat_inj, amount_low]
    exact Iff.rfl
  unfold shiftsOut
  rw [Bool.eq_iff_iff, Bool.or_eq_true, Bool.and_eq_true, hhigh, hlow, amount_bit5,
    decide_eq_true_iff, decide_eq_true_iff]
  omega

/-- The word above a zero bit. -/
theorem above_zero : (a ++ 0#1).toNat = 2 * a.toNat := by
  rw [BitVec.toNat_append, ← Nat.shiftLeft_add_eq_or_of_lt (by decide), Nat.shiftLeft_eq]
  show a.toNat * 2 ^ 1 + 0 = _
  omega

theorem above_zero_bit (k : ℕ) : (a ++ 0#1).getLsbD k = (decide (0 < k) && a.getLsbD (k - 1)) := by
  rw [BitVec.getLsbD_append]
  by_cases hk : 0 < k
  · rw [if_neg (by omega), decide_eq_true hk, Bool.true_and]
  · rw [if_pos (by omega), decide_eq_false hk, Bool.false_and, show k = 0 by omega]
    rfl

/-- **Result and C after a shift right.** -/
theorem issued_lsr : ShiftedRight (issued s implementMpy iReset 0x5#4 a b) a b.toNat := by
  have ha := a.isLt
  have hres : (issued s implementMpy iReset 0x5#4 a b).oC = (wLsrResult a b).extractLsb' 1 32 := rfl
  have hc : (issued s implementMpy iReset 0x5#4 a b).c = (wLsrResult a b).getLsbD 0 := rfl
  have hbig : ∀ k, 32 ≤ k → a.toNat / 2 ^ k = 0 := by
    intro k hk
    exact Nat.div_eq_of_lt (Nat.lt_of_lt_of_le ha (Nat.pow_le_pow_right (by decide) hk))
  by_cases h33 : 33 ≤ b.toNat
  · have hw : wLsrResult a b = 0 := by
      unfold wLsrResult
      rw [shiftsOut_eq, decide_eq_true h33, if_pos rfl]
    rw [hw] at hres hc
    refine ⟨?_, ?_⟩
    · rw [hres, hbig _ (by omega)]
      rfl
    · rw [flagC_eq, hc]
      constructor
      · exact fun h => absurd h (by decide)
      · rintro ⟨-, h, -⟩
        omega
  by_cases h32 : b.toNat = 32
  · have hw : wLsrResult a b = (a.extractLsb' 31 1).setWidth 33 := by
      unfold wLsrResult
      rw [shiftsOut_eq, decide_eq_false h33, amount_bit5, if_neg Bool.false_ne_true,
        if_pos (by rw [h32]; decide)]
    rw [hw] at hres hc
    refine ⟨?_, ?_⟩
    · rw [hres, h32, hbig _ (by omega), BitVec.extractLsb'_toNat, BitVec.toNat_setWidth,
        BitVec.extractLsb'_toNat]
      simp only [Nat.shiftRight_eq_div_pow]
      omega
    · rw [flagC_eq, hc, h32]
      simp
  · have hlt : b.toNat < 32 := by
      omega
    have hw : wLsrResult a b = (a ++ 0#1) >>> b.toNat := by
      unfold wLsrResult
      rw [shiftsOut_eq, decide_eq_false h33, amount_bit5, if_neg Bool.false_ne_true,
        if_neg (by rw [Nat.div_eq_of_lt hlt]; decide), amount_low, Nat.mod_eq_of_lt hlt]
    rw [hw] at hres hc
    refine ⟨?_, ?_⟩
    · have hle : a.toNat / 2 ^ b.toNat ≤ a.toNat := Nat.div_le_self _ _
      rw [hres, BitVec.extractLsb'_toNat, BitVec.toNat_ushiftRight, above_zero,
        Nat.shiftRight_eq_div_pow, Nat.shiftRight_eq_div_pow, Nat.div_div_eq_div_mul,
        Nat.mul_comm _ (2 ^ 1), Nat.pow_one, Nat.mul_div_mul_left _ _ (by decide), Nat.mod_eq_of_lt (by omega)]
    · rw [flagC_eq, hc, BitVec.getLsbD_ushiftRight, above_zero_bit]
      simp
      omega

/-- **Result and C after a shift left.** -/
theorem issued_lsl : ShiftedLeft (issued s implementMpy iReset 0x6#4 a b) a b.toNat := by
  have ha := a.isLt
  have hres : (issued s implementMpy iReset 0x6#4 a b).oC = (wLslResult a b).extractLsb' 0 32 := rfl
  have hc : (issued s implementMpy iReset 0x6#4 a b).c = (wLslResult a b).getLsbD 32 := rfl
  have hbig : ∀ k, 32 ≤ k → a.toNat * 2 ^ k % 2 ^ 32 = 0 := by
    intro k hk
    exact Nat.mod_eq_zero_of_dvd ((Nat.pow_dvd_pow 2 hk).mul_left _)
  by_cases h33 : 33 ≤ b.toNat
  · have hw : wLslResult a b = 0 := by
      unfold wLslResult
      rw [shiftsOut_eq, decide_eq_true h33, if_pos rfl]
    rw [hw] at hres hc
    refine ⟨?_, ?_⟩
    · rw [hres, hbig _ (by omega)]
      rfl
    · rw [flagC_eq, hc]
      constructor
      · exact fun h => absurd h (by decide)
      · rintro ⟨-, h, -⟩
        omega
  by_cases h32 : b.toNat = 32
  · have hw : wLslResult a b = a.extractLsb' 0 1 ++ 0#32 := by
      unfold wLslResult
      rw [shiftsOut_eq, decide_eq_false h33, amount_bit5, if_neg Bool.false_ne_true,
        if_pos (by rw [h32]; decide)]
    rw [hw] at hres hc
    refine ⟨?_, ?_⟩
    · have hlow : ((a.extractLsb' 0 1 ++ 0#32).extractLsb' 0 32) = 0#32 := by
        apply BitVec.eq_of_getLsbD_eq
        intro k hk
        rw [BitVec.getLsbD_extractLsb', Nat.zero_add, BitVec.getLsbD_append, if_pos hk]
        simp
      rw [hres, hlow, h32, hbig _ (Nat.le_refl _)]
      rfl
    · rw [flagC_eq, hc, h32, BitVec.getLsbD_append]
      simp
  · have hlt : b.toNat < 32 := by
      omega
    have hw : wLslResult a b = a.setWidth 33 <<< b.toNat := by
      unfold wLslResult
      rw [shiftsOut_eq, decide_eq_false h33, amount_bit5, if_neg Bool.false_ne_true,
        if_neg (by rw [Nat.div_eq_of_lt hlt]; decide), amount_low, Nat.mod_eq_of_lt hlt]
    rw [hw] at hres hc
    refine ⟨?_, ?_⟩
    · rw [hres, BitVec.extractLsb'_toNat, BitVec.toNat_shiftLeft, BitVec.toNat_setWidth,
        Nat.mod_eq_of_lt (by omega : a.toNat < 2 ^ 33), Nat.shiftRight_zero, Nat.shiftLeft_eq,
        Nat.mod_mod_of_dvd _ (by decide)]
    · rw [flagC_eq, hc, BitVec.getLsbD_shiftLeft, BitVec.getLsbD_setWidth]
      by_cases h0 : b.toNat = 0
      · rw [h0]
        simp
      · have hle : 32 - b.toNat < 33 := by
          omega
        simp only [decide_eq_true_eq, Bool.and_eq_true, Bool.not_eq_true', decide_eq_false_iff_not]
        constructor
        · rintro ⟨-, -, hbit⟩
          exact ⟨by omega, by omega, hbit⟩
        · rintro ⟨-, -, hbit⟩
          exact ⟨⟨by decide, by omega⟩, hle, hbit⟩

/-- A signed word of 33 bits without its last bit. -/
theorem toInt_drop (v : BitVec 33) : (v.extractLsb' 1 32).toInt = v.toInt / 2 := by
  have hv := v.isLt
  have hval : (v.extractLsb' 1 32).toNat = v.toNat / 2 := by
    rw [BitVec.extractLsb'_toNat, Nat.shiftRight_eq_div_pow]
    omega
  rw [BitVec.toInt_eq_toNat_cond, BitVec.toInt_eq_toNat_cond, hval]
  split_ifs <;> omega

theorem toInt_above_zero : (a ++ 0#1).toInt = 2 * a.toInt := by
  have ha := a.isLt
  rw [BitVec.toInt_eq_toNat_cond, BitVec.toInt_eq_toNat_cond, above_zero]
  split_ifs <;> omega

/-- **Result and C after a shift right that keeps the sign.** -/
theorem issued_asr : ShiftedSigned (issued s implementMpy iReset 0x7#4 a b) a b.toNat := by
  have hres : (issued s implementMpy iReset 0x7#4 a b).oC = (wAsrResult a b).extractLsb' 1 32 := rfl
  have hc : (issued s implementMpy iReset 0x7#4 a b).c = (wAsrResult a b).getLsbD 0 := rfl
  by_cases h32 : 32 ≤ b.toNat
  · have hw : wAsrResult a b = if a.getLsbD 31 then BitVec.allOnes 33 else 0 := by
      unfold wAsrResult
      rw [amount_high, decide_eq_true h32, if_pos rfl]
    have hmsb : a.msb = a.getLsbD 31 := BitVec.msb_eq_getLsbD_last a
    have hpow : (2 : ℤ) ^ 32 ≤ 2 ^ b.toNat := by
      exact_mod_cast Nat.pow_le_pow_right (by decide) h32
    rw [hw] at hres hc
    refine ⟨?_, ?_⟩
    · rw [hres]
      rcases signed a with ⟨h0, h1, h2⟩ | ⟨h0, h1, h2⟩
      · rw [← hmsb, h0]
        have hdiv : a.toInt / 2 ^ b.toNat = -1 := by
          apply Int.ediv_eq_neg_one_of_neg_of_le <;> omega
        rw [hdiv]
        decide
      · rw [← hmsb, h0]
        have hdiv : a.toInt / 2 ^ b.toNat = 0 := by
          apply Int.ediv_eq_zero_of_lt <;> omega
        rw [hdiv]
        decide
    · rw [flagC_eq, hc, Nat.min_eq_right h32]
      cases a.getLsbD 31
      · simp
      · simp
        omega
  · have hlt : b.toNat < 32 := by
      omega
    have hw : wAsrResult a b = (a ++ 0#1).sshiftRight b.toNat := by
      unfold wAsrResult
      rw [amount_high, decide_eq_false h32, if_neg Bool.false_ne_true, amount_low,
        Nat.mod_eq_of_lt hlt]
    rw [hw] at hres hc
    refine ⟨?_, ?_⟩
    · rw [hres, toInt_drop, BitVec.toInt_sshiftRight, toInt_above_zero, Int.shiftRight_eq_div_pow]
      have hpos : (0 : ℤ) ≤ ((2 ^ b.toNat : ℕ) : ℤ) := Int.natCast_nonneg _
      rw [Int.ediv_ediv_of_nonneg hpos, Int.mul_comm _ 2, Int.mul_ediv_mul_of_pos _ _ (by decide),
        Nat.cast_pow]
      rfl
    · rw [flagC_eq, hc, Nat.min_eq_left (by omega), BitVec.getLsbD_sshiftRight, above_zero_bit]
      simp
      omega

/-- **The condition codes mean what the conditions say**, whatever came before. -/
theorem conditions_mean :
    Compared (issued s implementMpy iReset 0x0#4 a b) a b ∧
    Added (issued s implementMpy iReset 0x2#4 a b) a b ∧
    ShiftedRight (issued s implementMpy iReset 0x5#4 a b) a b.toNat ∧
    ShiftedLeft (issued s implementMpy iReset 0x6#4 a b) a b.toNat ∧
    ShiftedSigned (issued s implementMpy iReset 0x7#4 a b) a b.toNat :=
  ⟨issued_sub s implementMpy iReset a b, issued_add s implementMpy iReset a b,
    issued_lsr s implementMpy iReset a b, issued_lsl s implementMpy iReset a b,
    issued_asr s implementMpy iReset a b⟩

end Issue

end ZipStormMX.Cpu.Cpuops
