/-
  The CRC engines of the SD card controller are registers that shift on a clock.

  The engine for the blocks that come in is held at zero while no block is received, the one for those
  that go out while the controller is free.  The crux: with the bytes nine clocks apart an engine has
  always come to rest before the next byte, whatever its counter began with (`receive_serial`,
  `send_serial`).
-/
import ZipStormMX.Crc
import ZipStormMX.Sdcard.Sdspi

namespace ZipStormMX.Sdcard

namespace Sdspi

open Polynomial

/-! ## The generators -/

/-- The feedback of the CRC of a block. -/
def blockTaps : BitVec 16 := 0x1021

/-- The feedback of the CRC of a command, which stands one place further to the left. -/
def commandTaps : BitVec 8 := 0x12

theorem shift_left_block (r : BitVec 16) : r.extractLsb' 0 15 ++ 0#1 = r <<< 1 := by
  apply BitVec.eq_of_getLsbD_eq
  intro i hi
  rw [BitVec.getLsbD_append, BitVec.getLsbD_shiftLeft, decide_eq_true hi, Bool.true_and]
  cases i with
  | zero => rfl
  | succ i => simp [BitVec.getLsbD_extractLsb', show i < 15 by omega]

theorem crcStep_eq (r : BitVec 16) : crcStep r = Crc.shift blockTaps r := by
  rw [crcStep, Crc.shift, shift_left_block]
  rfl

theorem crcEnter_eq (r : BitVec 16) (b : BitVec 8) : crcEnter r b = Crc.enter r b := by
  apply BitVec.eq_of_getLsbD_eq
  intro i hi
  simp only [crcEnter, Crc.enter, BitVec.getLsbD_append, BitVec.getLsbD_xor,
    BitVec.getLsbD_shiftLeft, BitVec.getLsbD_setWidth, BitVec.getLsbD_extractLsb']
  by_cases hlow : i < 8
  · simp [hlow]
  · simp [hlow, hi, show i - 8 < 8 by omega, show i - 8 < 16 by omega,
      show 8 + (i - 8) = i by omega]

theorem crcStepCmd_eq (r : BitVec 8) : crcStepCmd r = Crc.shift commandTaps r := by
  have hleft : r.extractLsb' 0 7 ++ 0#1 = r <<< 1 := by
    revert r
    decide
  rw [crcStepCmd, Crc.shift, hleft]
  rfl

theorem xor_eq_enter (r b : BitVec 8) : r ^^^ b = Crc.enter r b := by
  rw [Crc.enter, BitVec.setWidth_eq, Nat.sub_self, BitVec.shiftLeft_zero]

theorem generator_blockTaps :
    Crc.generator blockTaps = (X ^ 16 + X ^ 12 + X ^ 5 + 1 : (ZMod 2)[X]) := by
  have htaps : Crc.toPoly blockTaps = (X ^ 12 + X ^ 5 + 1 : (ZMod 2)[X]) := by
    simp [Crc.toPoly, Finset.sum_range_succ, Crc.bit, blockTaps]
    ring
  rw [Crc.generator, htaps]
  ring

theorem generator_commandTaps :
    Crc.generator commandTaps = X * (X ^ 7 + X ^ 3 + 1 : (ZMod 2)[X]) := by
  have htaps : Crc.toPoly commandTaps = (X ^ 4 + X : (ZMod 2)[X]) := by
    simp [Crc.toPoly, Finset.sum_range_succ, Crc.bit, commandTaps]
    ring
  rw [Crc.generator, htaps]
  ring

/-- The remainder of a block. -/
theorem toPoly_block (bs : List (BitVec 8)) : Crc.toPoly (Crc.crc blockTaps bs) =
    (X ^ 16 * Crc.message bs) %ₘ (X ^ 16 + X ^ 12 + X ^ 5 + 1) := by
  rw [Crc.toPoly_crc blockTaps (by decide), generator_blockTaps]

theorem monic_seven : (X ^ 7 + X ^ 3 + 1 : (ZMod 2)[X]).Monic := by
  monicity!

/-- The remainder of a command, one place further to the left. -/
theorem toPoly_command (bs : List (BitVec 8)) : Crc.toPoly (Crc.crc commandTaps bs) =
    X * ((X ^ 7 * Crc.message bs) %ₘ (X ^ 7 + X ^ 3 + 1)) := by
  rw [Crc.toPoly_crc commandTaps (by decide), generator_commandTaps,
    ← Crc.X_mul_modByMonic _ monic_seven, pow_succ', mul_assoc]

/-- The end bit of a command goes where the CRC leaves a gap. -/
theorem toPoly_cmdCrc {c : SdspiCfg} {s : Sdspi c.lgfifoln} {bs : List (BitVec 8)}
    (h : s.rCmdCrc = Crc.crc commandTaps bs) : Crc.toPoly (cmdCrc c s) =
    X * ((X ^ 7 * Crc.message bs) %ₘ (X ^ 7 + X ^ 3 + 1)) + 1 := by
  have hgap : s.rCmdCrc.getLsbD 0 = false := by
    apply Crc.bit_injective
    rw [← Crc.coeff_toPoly, h, toPoly_command, mul_coeff_zero, coeff_X_zero, zero_mul]
    rfl
  have hend : cmdCrc c s = s.rCmdCrc ^^^ 1 := by
    rw [cmdCrc]
    revert hgap
    generalize s.rCmdCrc = r
    revert r
    decide
  have hone : Crc.toPoly (1 : BitVec 8) = 1 := by
    simp [Crc.toPoly, Finset.sum_range_succ, Crc.bit]
  rw [hend, Crc.toPoly_xor, hone, h, toPoly_command]

/-! ## The engines -/

section Runs

variable {c : SdspiCfg} {s : ℕ → Sdspi c.lgfifoln} {x : ℕ → SdspiIn} {a z : ℕ}

theorem toNat_eq_zero_iff {n : ℕ} (v : BitVec n) : v.toNat = 0 ↔ (v != 0) = false := by
  rw [bne_eq_false_iff_eq]
  constructor
  · exact fun h => BitVec.eq_of_toNat_eq h
  · rintro rfl
    rfl

/-- A counter goes down to zero. -/
theorem count_toNat (v : BitVec 4) : (if v != 0 then v - 1 else v).toNat = v.toNat - 1 := by
  revert v
  decide

/-- A step of an engine, with its counter as a number. -/
theorem step_eq (v : BitVec 4) (r : BitVec 16) :
    (if v != 0 then crcStep r else r) = if v.toNat = 0 then r else Crc.shift blockTaps r := by
  cases hv : v != 0
  · rw [if_neg Bool.false_ne_true, if_pos ((toNat_eq_zero_iff v).mpr hv)]
  · rw [if_pos rfl, crcStep_eq, if_neg]
    rw [toNat_eq_zero_iff, hv]
    decide

/-- The engine for a block that comes in. -/
theorem receive_serial (hstep : ∀ n, s (n + 1) = next c (s n) (x n))
    (hoff : (s a).llFifoWr = false) (hon : ∀ t, a < t → t < z → (s t).llFifoWr = true) :
    Crc.Serial blockTaps (fun t => (s t).fifoWrCrcReg) (fun t => (s t).fifoWrCrcCount.toNat)
      (fun t => (s t).fifoWrCrcStb) (fun t => llOutDat c (s t)) (a + 1) z where
  start := by
    show (s (a + 1)).fifoWrCrcReg = 0
    rw [hstep, next_fifoWrCrcReg, hoff]
    rfl
  strobe := by
    intro t hat htz hstb
    rw [hstep, next_fifoWrCrcReg, next_fifoWrCrcCount, hon t (by omega) htz, hstb, ← crcEnter_eq]
    exact ⟨rfl, rfl⟩
  shifts := by
    intro t hat htz hstb
    rw [hstep, next_fifoWrCrcReg, next_fifoWrCrcCount, hon t (by omega) htz, hstb, Bool.not_true,
      if_neg Bool.false_ne_true, if_neg Bool.false_ne_true, if_neg Bool.false_ne_true,
      if_neg Bool.false_ne_true]
    exact ⟨step_eq _ _, count_toNat _⟩

/-- The engine for a block that goes out. -/
theorem send_serial (hstep : ∀ n, s (n + 1) = next c (s n) (x n))
    (hoff : (s a).rCmdBusy = false) (hon : ∀ t, a < t → t < z → (s t).rCmdBusy = true) :
    Crc.Serial blockTaps (fun t => (s t).fifoRdCrcReg) (fun t => (s t).fifoRdCrcCount.toNat)
      (fun t => (s t).fifoRdCrcStb) (fun t => (s t).fifoByte) (a + 1) z where
  start := by
    show (s (a + 1)).fifoRdCrcReg = 0
    rw [hstep, next_fifoRdCrcReg, hoff]
    rfl
  strobe := by
    intro t hat htz hstb
    rw [hstep, next_fifoRdCrcReg, next_fifoRdCrcCount, hon t (by omega) htz, hstb, ← crcEnter_eq]
    exact ⟨rfl, rfl⟩
  shifts := by
    intro t hat htz hstb
    rw [hstep, next_fifoRdCrcReg, next_fifoRdCrcCount, hon t (by omega) htz, hstb, Bool.not_true,
      if_neg Bool.false_ne_true, if_neg Bool.false_ne_true, if_neg Bool.false_ne_true,
      if_neg Bool.false_ne_true]
    exact ⟨step_eq _ _, count_toNat _⟩

end Runs

end Sdspi

end ZipStormMX.Sdcard
