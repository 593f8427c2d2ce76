/-
  The CRC of a block that the SD card controller receives.

  The engine takes the bytes of the block as they are strobed, and the two bytes behind them are
  compared with its register.  The crux: the state of the block (`ll_fifo_wr_state`) only goes up, so
  each of the two comparisons is made once; and the strobes are so far apart that the engine has come
  to rest when the first one is made.  So the error flag goes up with a wrong CRC and stays with the
  right one, and a change in one byte makes the right CRC a wrong one.
-/
import ZipStormMX.Sdcard.CommandCrc
import ZipStormMX.Sdcard.Errors

namespace ZipStormMX.Sdcard

namespace Sdspi

open Polynomial

variable {c : SdspiCfg}

/-! ## One clock -/

section Step

variable {s : Sdspi c.lgfifoln} {i : SdspiIn}

/-- Behind the first byte of the CRC only the second one changes the state. -/
theorem Spread.wrState_late (h : Spread c s) (hbusy : s.rCmdBusy = true)
    (hst : 2 ≤ s.llFifoWrState) : s.preFifoCrcA = false ∧
      (Sdspi.next c s i).llFifoWrState = if s.preFifoCrcB then 3 else s.llFifoWrState := by
  have hno : ∀ f, (fifo c s f).preWr = false := by
    intro f
    rw [Bool.eq_false_iff]
    intro hf
    rw [(h.data f hf).1] at hst
    exact absurd hst (by decide)
  have hfirst : s.preFifoCrcA = false := by
    rw [Bool.eq_false_iff]
    intro hA
    rw [h.crcA hA] at hst
    exact absurd hst (by decide)
  have ha : s.fifoA.preWr = false := hno false
  have hb : s.fifoB.preWr = false := hno true
  refine ⟨hfirst, ?_⟩
  rw [next_llFifoWrState, nextWrState, hfirst, hbusy, ha, hb]
  cases hB : s.preFifoCrcB
  · rfl
  · rw [h.crcB hB]
    rfl

/-- The error flag, while nothing clears it. -/
theorem crcErr_next (hclear : s.clearFifoCrc = false) :
    (next c s i).fifoCrcErr = (s.fifoCrcErr ||
      if s.preFifoCrcB then s.fifoWrCrcReg.extractLsb' 0 8 != llOutDat c s
      else s.preFifoCrcA && s.fifoWrCrcReg.extractLsb' 8 8 != llOutDat c s) := by
  rw [next_fifoCrcErr, nextFifoCrcErr, hclear]
  cases s.preFifoCrcB <;> rfl

/-- The engine takes a byte on the clock behind its strobe. -/
theorem crcStb_next : (next c s i).fifoWrCrcStb = gets c s := by
  rw [next_fifoWrCrcStb, gets, Bool.and_assoc, Bool.and_assoc, Bool.and_assoc, Bool.and_assoc,
    Bool.and_comm (s.llFifoWrState == 0b00)]

/-- A word differs from another one in one of its halves. -/
theorem halves_ne (r : BitVec 16) (p q : BitVec 8) :
    ((r.extractLsb' 8 8 != p) || (r.extractLsb' 0 8 != q)) = (p ++ q != r) := by
  rw [Bool.eq_iff_iff, Bool.or_eq_true, bne_iff_ne, bne_iff_ne, bne_iff_ne, ← not_and_or,
    not_iff_not]
  constructor
  · rintro ⟨rfl, rfl⟩
    apply BitVec.eq_of_getLsbD_eq
    intro n hn
    rw [BitVec.getLsbD_append, BitVec.getLsbD_extractLsb', BitVec.getLsbD_extractLsb']
    by_cases hlow : n < 8
    · simp [hlow]
    · simp [hlow, show n - 8 < 8 by omega, show 8 + (n - 8) = n by omega]
  · rintro rfl
    exact ⟨BitVec.extractLsb'_append_eq_left, BitVec.extractLsb'_append_eq_right⟩

end Step

/-! ## A block -/

/-- The block that comes in from clock `a` to clock `z`, with the two bytes of its CRC in front of
    clocks `t` and `u`. -/
structure Checked (c : SdspiCfg) (s : ℕ → Sdspi c.lgfifoln) (a t u z : ℕ) : Prop where
  off : (s a).llFifoWr = false
  on : ∀ v, a < v → v < z → (s v).llFifoWr = true
  order : a < t ∧ t < u ∧ u < z
  first : (s t).preFifoCrcA = true
  second : (s u).preFifoCrcB = true

section Runs

variable {s : ℕ → Sdspi c.lgfifoln} {x : ℕ → SdspiIn} {a t u z : ℕ}

/-- The bytes of a block as the engine takes them, one clock behind their strobes. -/
theorem entered_eq (h0 : AtPowerUp c (s 0)) (hstep : ∀ n, s (n + 1) = next c (s n) (x n)) (n : ℕ) :
    Crc.entered (fun t => (s t).fifoWrCrcStb) (fun t => llOutDat c (s t)) (a + 1) n =
      received c s a n := by
  induction n with
  | zero => rfl
  | succ n ih =>
    rw [Crc.entered, received, ih, show a + 1 + n = a + n + 1 by omega, hstep, crcStb_next]
    cases hgets : gets c (s (a + n))
    · rfl
    · have hstb : llOutStb c (s (a + n)) = true := by
        rw [gets, Bool.and_eq_true, Bool.and_eq_true, Bool.and_eq_true] at hgets
        exact hgets.1.1.2
      rw [llOutDat_next (strobe_next (rests_run h0 hstep _) hstb)]

/-- The strobe in front of a clock on which the engine takes a byte. -/
theorem strobed_of_takes (hstep : ∀ n, s (n + 1) = next c (s n) (x n)) {v : ℕ} (hav : a < v)
    (hstb : (s v).fifoWrCrcStb = true) :
    llOutStb c (s (v - 1)) = true ∧ gets c (s (v - 1)) = true := by
  obtain ⟨w, rfl⟩ : ∃ w, v = w + 1 := ⟨v - 1, by omega⟩
  rw [hstep, crcStb_next] at hstb
  refine ⟨?_, hstb⟩
  rw [gets, Bool.and_eq_true, Bool.and_eq_true, Bool.and_eq_true] at hstb
  exact hstb.1.1.2

section Window

variable (h0 : AtPowerUp c (s 0)) (hstep : ∀ n, s (n + 1) = next c (s n) (x n))
  (h : Checked c s a t u z)

include h0 hstep

theorem spread_at {v : ℕ} (hv : 0 < v) : Spread c (s v) := by
  have hspread := spread_run h0 hstep (v - 1)
  rwa [show v - 1 + 1 = v by omega] at hspread

/-- The controller is busy while it offers a byte, or takes one. -/
theorem busy_of_offers {n : ℕ} (hstb : (s n).llCmdStb = true) : (s n).rCmdBusy = true := by
  by_contra hfree
  rw [Bool.not_eq_true] at hfree
  rw [off_of_free h0 hstep hfree] at hstb
  exact absurd hstb (by decide)

include h

/-- The controller has been busy since the clock before the block comes in, and longer. -/
theorem Checked.busy {v : ℕ} (hav : a ≤ v + 1) (hvz : v < z) : (s v).rCmdBusy = true := by
  obtain ⟨hat, htu, huz⟩ := h.order
  have hrises := h.on (a + 1) (Nat.lt_succ_self a) (by omega)
  -- the block begins with the response of the card
  have hresponse : firstResponse c (s a) = true ∧ (s a).rUseFifo = true := by
    rw [hstep, next_llFifoWr, nextLlFifoWr, h.off] at hrises
    split_ifs at hrises with hresp
    · rw [Bool.and_eq_true] at hresp hrises
      exact ⟨hresp.1, hrises.1⟩
  obtain ⟨m, rfl⟩ : ∃ m, a = m + 1 := by
    cases a with
    | zero =>
      rw [h0.rUseFifo] at hresponse
      exact absurd hresponse.2 (by decide)
    | succ m => exact ⟨m, rfl⟩
  have hpre : (s (m + 1)).preCmdState = true := by
    have hresp := hresponse.1
    rw [firstResponse, Bool.and_eq_true, Bool.and_eq_true, Bool.and_eq_true] at hresp
    exact hresp.1.1.1
  have hbefore : (s m).rCmdBusy = true := by
    rw [hstep, next_preCmdState, taken, Bool.and_eq_true] at hpre
    exact busy_of_offers h0 hstep hpre.1
  rcases Nat.lt_or_ge v (m + 1) with hlt | hge
  · obtain rfl : v = m := by omega
    exact hbefore
  · have hfree := free_run h0 hstep (v - 1)
    rw [show v - 1 + 1 = v by omega] at hfree
    by_contra hnot
    rw [Bool.not_eq_true] at hnot
    rcases Nat.lt_or_ge (m + 1) v with hlt | hle
    · have hon := h.on v hlt hvz
      rw [hfree.llFifoWr hnot] at hon
      exact absurd hon (by decide)
    · obtain rfl : v = m + 1 := by omega
      rw [hfree.preCmdState hnot] at hpre
      exact absurd hpre (by decide)

/-- No command comes, so nothing clears the error flag. -/
theorem Checked.uncleared {v : ℕ} (hav : a < v) (hvz : v < z) :
    (s v).clearFifoCrc = false := by
  obtain ⟨w, rfl⟩ : ∃ w, v = w + 1 := ⟨v - 1, by omega⟩
  have hnew : newCmd c (s w) = false := by
    cases w with
    | zero =>
      -- a block does not come in at power up
      have hbusy := h.busy h0 hstep (v := 0) (by omega) (by omega)
      rw [h0.rCmdBusy] at hbusy
      exact absurd hbusy (by decide)
    | succ w =>
      have hbusy := h.busy h0 hstep (v := w) (by omega) (by omega)
      rw [newCmd, hstep, next_rCmdStb, hbusy]
      rfl
  rw [hstep, next_clearFifoCrc, hnew, Bool.false_and]

/-- Behind the first byte of the CRC. -/
theorem Checked.late {v w : ℕ} (hav : a < v) (hA : (s v).preFifoCrcA = true) (hvw : v < w)
    (hwz : w < z) : 2 ≤ (s w).llFifoWrState := by
  induction w, hvw using Nat.le_induction with
  | base =>
    rw [hstep, next_llFifoWrState, nextWrState, hA, (spread_at h0 hstep (Nat.zero_lt_of_lt hav)).crcA hA,
      if_pos (Bool.true_or _)]
    decide
  | succ w hvw ih =>
    have hlate := ih (by omega)
    rw [hstep, ((spread_at h0 hstep (by omega)).wrState_late
      (h.busy h0 hstep (by omega) (by omega)) hlate).2]
    split_ifs
    · decide
    · exact hlate

/-- Behind the second one. -/
theorem Checked.last {v w : ℕ} (hav : a < v) (hB : (s v).preFifoCrcB = true) (hvw : v < w)
    (hwz : w < z) : (s w).llFifoWrState = 3 := by
  induction w, hvw using Nat.le_induction with
  | base =>
    have hspread := spread_at h0 hstep (Nat.zero_lt_of_lt hav)
    have htwo := hspread.crcB hB
    rw [hstep, (hspread.wrState_late (h.busy h0 hstep (by omega) (by omega))
      (by rw [htwo]; decide)).2, hB, if_pos rfl]
  | succ w hvw ih =>
    have hthree := ih (by omega)
    rw [hstep, ((spread_at h0 hstep (by omega)).wrState_late
      (h.busy h0 hstep (by omega) (by omega)) (by rw [hthree]; decide)).2, hthree, ite_self]

/-- Each byte of the CRC is compared once. -/
theorem Checked.first_once {v : ℕ} (hav : a < v) (hvz : v < z) (hvt : v ≠ t) :
    (s v).preFifoCrcA = false := by
  obtain ⟨hat, htu, huz⟩ := h.order
  rw [Bool.eq_false_iff]
  intro hA
  rcases Nat.lt_or_gt_of_ne hvt with hlt | hgt
  · have hlate := h.late h0 hstep hav hA hlt (by omega)
    rw [(spread_at h0 hstep (Nat.zero_lt_of_lt hat)).crcA h.first] at hlate
    exact absurd hlate (by decide)
  · have hlate := h.late h0 hstep hat h.first hgt hvz
    rw [(spread_at h0 hstep (Nat.zero_lt_of_lt hav)).crcA hA] at hlate
    exact absurd hlate (by decide)

theorem Checked.second_once {v : ℕ} (hav : a < v) (hvz : v < z) (hvu : v ≠ u) :
    (s v).preFifoCrcB = false := by
  obtain ⟨hat, htu, huz⟩ := h.order
  rw [Bool.eq_false_iff]
  intro hB
  rcases Nat.lt_or_gt_of_ne hvu with hlt | hgt
  · have hlast := h.last h0 hstep hav hB hlt huz
    rw [(spread_at h0 hstep (by omega)).crcB h.second] at hlast
    exact absurd hlast (by decide)
  · have hlast := h.last h0 hstep (by omega) h.second hgt hvz
    rw [(spread_at h0 hstep (Nat.zero_lt_of_lt hav)).crcB hB] at hlast
    exact absurd hlast (by decide)

/-! ### The engine at rest -/

/-- No byte of the block is strobed from the first byte of the CRC on. -/
theorem Checked.no_more {v : ℕ} (htv : t ≤ v + 1) (hvz : v < z) : gets c (s v) = false := by
  obtain ⟨hat, htu, huz⟩ := h.order
  have hst : (s v).llFifoWrState ≠ 0 := by
    rcases Nat.lt_trichotomy (v + 1) (t + 1) with hlt | heq | hgt
    · -- on the clock of its strobe
      obtain rfl : t = v + 1 := by omega
      have hA := h.first
      rw [hstep, next_preFifoCrcA, Bool.and_eq_true, beq_iff_eq] at hA
      rw [hA.2]
      decide
    · obtain rfl : v = t := by omega
      rw [(spread_at h0 hstep (Nat.zero_lt_of_lt hat)).crcA h.first]
      decide
    · have hlate := h.late h0 hstep hat h.first (by omega) hvz
      intro hzero
      rw [hzero] at hlate
      exact absurd hlate (by decide)
  rw [gets, beq_eq_false_iff_ne.mpr hst, Bool.and_false]

theorem Checked.spaced : Crc.Spaced (fun v => (s v).fifoWrCrcStb) (a + 1) z := by
  intro v w hav hvw hwz hv hw
  have hfar := strobe_far h0 hstep (strobed_of_takes hstep hav hv).1
    (strobed_of_takes hstep (by omega) hw).1 (by omega)
    fun n hvn hnw => h.busy h0 hstep (by omega) (by omega)
  omega

/-- The last byte of the block is far behind. -/
theorem Checked.quiet {v : ℕ} (hav : a < v) (hvz : v < z) (hstb : (s v).fifoWrCrcStb = true) :
    v + 9 ≤ t := by
  obtain ⟨hat, htu, huz⟩ := h.order
  obtain ⟨hout, hgets⟩ := strobed_of_takes hstep hav hstb
  have hbefore : v < t := by
    by_contra hlate
    rw [h.no_more h0 hstep (by omega) (by omega)] at hgets
    exact absurd hgets (by decide)
  have hA : llOutStb c (s (t - 1)) = true := by
    have hA := h.first
    rw [show t = t - 1 + 1 by omega, hstep, next_preFifoCrcA, Bool.and_eq_true,
      Bool.and_eq_true] at hA
    exact hA.1.2
  have hfar := strobe_far h0 hstep hout hA (by omega)
    fun n hvn hnt => h.busy h0 hstep (by omega) (by omega)
  omega

/-- The bytes of the block: those that are strobed in front of the CRC. -/
theorem Checked.received_eq {n : ℕ} (htn : t ≤ a + n + 1) (hnz : a + n < z) :
    received c s a n = received c s a (t - (a + 1)) := by
  obtain ⟨hat, htu, huz⟩ := h.order
  have hle : t - (a + 1) ≤ n := by omega
  induction n, hle using Nat.le_induction with
  | base => rfl
  | succ n hle ih =>
    rw [received, h.no_more h0 hstep (v := a + n) (by omega) (by omega), if_neg (by decide),
      List.append_nil, ih (by omega) (by omega)]

/-- **The register is the one of the block** while its CRC is compared. -/
theorem Checked.reg_eq {v : ℕ} (htv : t ≤ v) (hvz : v < z) :
    (s v).fifoWrCrcReg = Crc.crc blockTaps (received c s a (t - (a + 1))) := by
  obtain ⟨hat, htu, huz⟩ := h.order
  have hserial := receive_serial hstep h.off h.on
  have hsettled := hserial.settled (h.spaced h0 hstep) (n := v - (a + 1)) (by omega)
    fun w hw hwv hstb => by
      have := h.quiet h0 hstep hw (by omega) hstb
      omega
  rw [entered_eq h0 hstep, h.received_eq h0 hstep (by omega) (by omega),
    show a + 1 + (v - (a + 1)) = v by omega] at hsettled
  exact hsettled

/-! ### The error flag -/

/-- The flag, while the block comes in. -/
theorem Checked.crcErr_eq {v : ℕ} (hav : a < v) (hvz : v ≤ z) :
    (s v).fifoCrcErr = ((s (a + 1)).fifoCrcErr ||
      ((decide (t < v) && (s t).fifoWrCrcReg.extractLsb' 8 8 != llOutDat c (s t)) ||
        (decide (u < v) && (s u).fifoWrCrcReg.extractLsb' 0 8 != llOutDat c (s u)))) := by
  obtain ⟨hat, htu, huz⟩ := h.order
  induction v, hav using Nat.le_induction with
  | base =>
    rw [decide_eq_false (by omega : ¬t < a + 1), decide_eq_false (by omega : ¬u < a + 1)]
    simp
  | succ v hav ih =>
    rw [hstep, crcErr_next (h.uncleared h0 hstep hav (by omega)), ih (by omega)]
    rcases Nat.lt_trichotomy v t with hlt | rfl | hgt
    · rw [h.first_once h0 hstep hav (by omega) (by omega),
        h.second_once h0 hstep hav (by omega) (by omega)]
      simp [show ¬t < v by omega, show ¬t < v + 1 by omega, show ¬u < v by omega,
        show ¬u < v + 1 by omega]
    · rw [h.first, h.second_once h0 hstep hav (by omega) (by omega)]
      simp [show ¬u < v by omega, show ¬u < v + 1 by omega]
    · rcases Nat.lt_trichotomy v u with hlt | rfl | hlater
      · rw [h.first_once h0 hstep hav (by omega) (by omega),
          h.second_once h0 hstep hav (by omega) (by omega)]
        simp [hgt, show t < v + 1 by omega, show ¬u < v by omega, show ¬u < v + 1 by omega]
      · rw [h.second]
        simp [hgt, show t < v + 1 by omega, Bool.or_assoc]
      · rw [h.first_once h0 hstep hav (by omega) (by omega),
          h.second_once h0 hstep hav (by omega) (by omega)]
        simp [hgt, hlater, show t < v + 1 by omega, show u < v + 1 by omega]

/-- **The flag behind the block** tells whether its CRC was wrong. -/
theorem Checked.crcErr_last {v : ℕ} (huv : u < v) (hvz : v ≤ z) :
    (s v).fifoCrcErr = ((s (a + 1)).fifoCrcErr || (llOutDat c (s t) ++ llOutDat c (s u) !=
      Crc.crc blockTaps (received c s a (t - (a + 1))))) := by
  obtain ⟨hat, htu, huz⟩ := h.order
  rw [h.crcErr_eq h0 hstep (by omega) hvz, decide_eq_true huv,
    decide_eq_true (by omega : t < v), Bool.true_and, Bool.true_and,
    h.reg_eq h0 hstep (Nat.le_refl t) (by omega), h.reg_eq h0 hstep htu.le huz, halves_ne]

/-- With the right CRC it stays all along. -/
theorem Checked.crcErr_right (hright : llOutDat c (s t) ++ llOutDat c (s u) =
    Crc.crc blockTaps (received c s a (t - (a + 1)))) {v : ℕ} (hav : a < v) (hvz : v ≤ z) :
    (s v).fifoCrcErr = (s (a + 1)).fifoCrcErr := by
  obtain ⟨hat, htu, huz⟩ := h.order
  have hhigh : (s t).fifoWrCrcReg.extractLsb' 8 8 = llOutDat c (s t) := by
    rw [h.reg_eq h0 hstep (Nat.le_refl t) (by omega), ← hright]
    exact BitVec.extractLsb'_append_eq_left
  have hlow : (s u).fifoWrCrcReg.extractLsb' 0 8 = llOutDat c (s u) := by
    rw [h.reg_eq h0 hstep htu.le huz, ← hright]
    exact BitVec.extractLsb'_append_eq_right
  rw [h.crcErr_eq h0 hstep hav hvz, hhigh, hlow, bne_self_eq_false, bne_self_eq_false,
    Bool.and_false, Bool.and_false, Bool.or_false, Bool.or_false]

end Window

/-! ## The remainders -/

/-- The register holds the remainder of the bytes. -/
def IsCrc16 (r : BitVec 16) (bytes : List (BitVec 8)) : Prop :=
  Crc.toPoly r = (X ^ 16 * Crc.message bytes) %ₘ (X ^ 16 + X ^ 12 + X ^ 5 + 1)

/-- The byte is the remainder of the bytes, one place to the left, with the end bit behind it. -/
def IsCrc7 (r : BitVec 8) (bytes : List (BitVec 8)) : Prop :=
  Crc.toPoly r = X * ((X ^ 7 * Crc.message bytes) %ₘ (X ^ 7 + X ^ 3 + 1)) + 1

theorem isCrc16_iff (r : BitVec 16) (bytes : List (BitVec 8)) :
    IsCrc16 r bytes ↔ r = Crc.crc blockTaps bytes := by
  rw [IsCrc16, ← toPoly_block]
  exact Crc.toPoly_injective.eq_iff

/-- **The engines compute remainders.**  Those of the blocks do, with the bytes nine clocks apart;
    the CRC behind a block that comes in does not raise the error flag, unless a byte has changed;
    and the CRC of a command is handed to the shifter behind its five bytes. -/
theorem crc_remainders (h0 : AtPowerUp c (s 0)) (hstep : ∀ n, s (n + 1) = next c (s n) (x n)) :
    (∀ a z n, (s a).llFifoWr = false → (∀ t, a < t → t < z → (s t).llFifoWr = true) →
      Crc.Spaced (fun t => (s t).fifoWrCrcStb) (a + 1) z → a + 1 + n ≤ z →
      (∀ t, a < t → t < a + 1 + n → (s t).fifoWrCrcStb = true → t + 9 ≤ a + 1 + n) →
      IsCrc16 (s (a + 1 + n)).fifoWrCrcReg
        (Crc.entered (fun t => (s t).fifoWrCrcStb) (fun t => llOutDat c (s t)) (a + 1) n)) ∧
    (∀ a z n, (s a).rCmdBusy = false → (∀ t, a < t → t < z → (s t).rCmdBusy = true) →
      Crc.Spaced (fun t => (s t).fifoRdCrcStb) (a + 1) z → a + 1 + n ≤ z →
      (∀ t, a < t → t < a + 1 + n → (s t).fifoRdCrcStb = true → t + 9 ≤ a + 1 + n) →
      IsCrc16 (s (a + 1 + n)).fifoRdCrcReg
        (Crc.entered (fun t => (s t).fifoRdCrcStb) (fun t => (s t).fifoByte) (a + 1) n)) ∧
    (∀ a t u z, Checked c s a t u z →
      (IsCrc16 (llOutDat c (s t) ++ llOutDat c (s u)) (received c s a (t - (a + 1))) →
        ∀ v, a < v → v ≤ z → (s v).fifoCrcErr = (s (a + 1)).fifoCrcErr) ∧
      (∀ before after b b', b ≠ b' → received c s a (t - (a + 1)) = before ++ b' :: after →
        IsCrc16 (llOutDat c (s t) ++ llOutDat c (s u)) (before ++ b :: after) →
        ∀ v, u < v → v ≤ z → (s v).fifoCrcErr = true)) ∧
    (∀ a t z, 0 < a → starts c (s a) = true → (∀ u, a < u → u < z → (s u).rCmdBusy = true) →
      a < t → t < z → (s t).preCmdState = true → (s t).rCmdState = 4 →
      IsCrc7 (cmdCrc c (s t))
        (commandBytes ((s a).rWbData.extractLsb' 0 8) (s a).rDataReg) ∧
      (s (t + 1)).llCmdDat = cmdCrc c (s t)) := by
  refine ⟨?_, ?_, fun a t u z h => ⟨?_, ?_⟩, ?_⟩
  · intro a z n hoff hon hspaced hnz hquiet
    exact (isCrc16_iff _ _).mpr ((receive_serial hstep hoff hon).settled hspaced hnz hquiet)
  · intro a z n hoff hon hspaced hnz hquiet
    exact (isCrc16_iff _ _).mpr ((send_serial hstep hoff hon).settled hspaced hnz hquiet)
  · intro hright v hav hvz
    exact h.crcErr_right h0 hstep ((isCrc16_iff _ _).mp hright) hav hvz
  · intro before after b b' hb hchanged hsent v huv hvz
    rw [isCrc16_iff] at hsent
    have hwrong := Crc.crc_ne_of_one_byte (g := blockTaps) (by decide) (by decide) before after hb
    rw [h.crcErr_last h0 hstep huv hvz, hsent, hchanged, bne_iff_ne.mpr hwrong, Bool.or_true]
  · intro a t z ha hstarts hbusy hat htz hpre hstate
    obtain ⟨hreg, hsent⟩ := command_crc h0 hstep ha hstarts hbusy hat htz hpre hstate
    exact ⟨toPoly_cmdCrc hreg, hsent⟩

end Runs

/-- The CRC of a command to read block zero. -/
theorem crc_remainders_errorRun : IsCrc7 (cmdCrc fastCfg (errorRun 72)) [0x51, 0, 0, 0, 0] ∧
    (errorRun 73).llCmdDat = cmdCrc fastCfg (errorRun 72) := by
  have hbusy : ∀ t < 174, 1 < t → (errorRun t).rCmdBusy = true := by decide +kernel
  have hstep : ∀ n, errorRun (n + 1) = next fastCfg (errorRun n) (errorAnswer n) := fun _ => rfl
  obtain ⟨-, -, -, hcommands⟩ := crc_remainders (c := fastCfg) (s := errorRun) (x := errorAnswer)
    (atPowerUp_poweredUp fastCfg) hstep
  have hcommand := hcommands 1 72 174 (by decide) (by decide +kernel)
    (fun t h1 ht => hbusy t ht h1) (by decide) (by decide) (by decide +kernel) (by decide +kernel)
  have hbytes : commandBytes ((errorRun 1).rWbData.extractLsb' 0 8) (errorRun 1).rDataReg =
      [0x51, 0, 0, 0, 0] := by
    decide +kernel
  rw [hbytes] at hcommand
  exact hcommand

end Sdspi

end ZipStormMX.Sdcard
