/-
  The CRC of a command of the SD card controller.

  The engine takes a byte of the command when it is handed to the shifter.  The second byte may come
  two clocks after the first one, when the engine is not ready; a flag (`r_cmd_crc_ff`) then keeps it
  waiting.  The crux: the shifter takes so long for a byte (`left`) that the engine has caught up
  before the next one, and is done with the fifth when the CRC is handed over.
-/
import ZipStormMX.Sdcard.Engines
import ZipStormMX.Sdcard.Pace

namespace ZipStormMX.Sdcard

namespace Sdspi

open Polynomial

variable {c : SdspiCfg}

/-! ## The engine -/

/-- The shifts that the engine has to do. -/
def shiftsLeft (v : BitVec 4) : ℕ := if v.getLsbD 3 then 0 else v.toNat + 1

/-- The bytes of a command: its number `b`, and its argument `w`. -/
def commandBytes (b : BitVec 8) (w : BitVec 32) : List (BitVec 8) :=
  [b, w.extractLsb' 24 8, w.extractLsb' 16 8, w.extractLsb' 8 8, w.extractLsb' 0 8]

theorem shiftsLeft_down : ∀ v : BitVec 4, v.getLsbD 3 = false →
    shiftsLeft (v - 1) + 1 = shiftsLeft v := by
  decide

section Engine

variable {s : Sdspi c.lgfifoln} {i : SdspiIn} {bs : List (BitVec 8)} {n : ℕ}

/-- The engine shifts, whatever comes. -/
theorem engine_shifts (hbusy : s.rCmdBusy = true) (hdue : Crc.Due commandTaps s.rCmdCrc (n + 1) bs)
    (hleft : shiftsLeft s.rCmdCrcCnt = n + 1) :
    Crc.Due commandTaps (next c s i).rCmdCrc n bs ∧ shiftsLeft (next c s i).rCmdCrcCnt = n ∧
    (next c s i).rCmdCrcFf = (s.rCmdCrcFf || s.rCmdCrcStb) := by
  have hbit : s.rCmdCrcCnt.getLsbD 3 = false := by
    rw [Bool.eq_false_iff]
    intro hbit
    rw [shiftsLeft, if_pos hbit] at hleft
    omega
  rw [next_rCmdCrc, next_rCmdCrcCnt, next_rCmdCrcFf, hbusy, hbit, Bool.not_true, Bool.not_false,
    if_neg Bool.false_ne_true, if_pos rfl, if_neg Bool.false_ne_true, if_pos rfl,
    if_neg Bool.false_ne_true, if_pos rfl, crcStepCmd_eq]
  have hdown := shiftsLeft_down _ hbit
  exact ⟨hdue.shift, by omega, rfl⟩

/-- At rest the engine takes a byte that waits. -/
theorem engine_takes (hbusy : s.rCmdBusy = true) (hdue : Crc.Due commandTaps s.rCmdCrc 0 bs)
    (hleft : shiftsLeft s.rCmdCrcCnt = 0) (hwaits : (s.rCmdCrcStb || s.rCmdCrcFf) = true) :
    Crc.Due commandTaps (next c s i).rCmdCrc 8 (bs ++ [s.llCmdDat]) ∧
    shiftsLeft (next c s i).rCmdCrcCnt = 8 ∧ (next c s i).rCmdCrcFf = false := by
  have hbit : s.rCmdCrcCnt.getLsbD 3 = true := by
    by_contra hbit
    rw [shiftsLeft, if_neg hbit] at hleft
    omega
  rw [next_rCmdCrc, next_rCmdCrcCnt, next_rCmdCrcFf, hbusy, hbit, hwaits, Bool.not_true,
    if_neg Bool.false_ne_true, if_neg Bool.false_ne_true, if_pos rfl, if_neg Bool.false_ne_true,
    if_neg Bool.false_ne_true, if_pos rfl, if_neg Bool.false_ne_true, if_neg Bool.false_ne_true,
    if_pos rfl, xor_eq_enter]
  exact ⟨hdue.enter _, rfl, rfl⟩

/-- At rest with nothing to take, the engine stays. -/
theorem engine_stays (hbusy : s.rCmdBusy = true) (hdue : Crc.Due commandTaps s.rCmdCrc 0 bs)
    (hleft : shiftsLeft s.rCmdCrcCnt = 0) (hstb : s.rCmdCrcStb = false)
    (hff : s.rCmdCrcFf = false) :
    Crc.Due commandTaps (next c s i).rCmdCrc 0 bs ∧ shiftsLeft (next c s i).rCmdCrcCnt = 0 ∧
    (next c s i).rCmdCrcFf = false := by
  have hbit : s.rCmdCrcCnt.getLsbD 3 = true := by
    by_contra hbit
    rw [shiftsLeft, if_neg hbit] at hleft
    omega
  rw [next_rCmdCrc, next_rCmdCrcCnt, next_rCmdCrcFf, hbusy, hbit, hstb, hff]
  exact ⟨hdue, hleft, rfl⟩

end Engine

/-! ## The bytes of a command -/

/-- Byte `k` of the command is on its way to the card. -/
structure Commanding (s : Sdspi c.lgfifoln) (b : BitVec 8) (w : BitVec 32) (k : ℕ) : Prop where
  le : k ≤ 4
  state : s.rCmdState = BitVec.ofNat 3 k
  data : (commandBytes b w)[k]? = some s.llCmdDat
  reg : s.rDataReg = w
  unsent : s.rCmdSent = false
  unheard : s.preRspState = false

/-- The engine has taken the byte. -/
structure Entered (s : Sdspi c.lgfifoln) (bytes : List (BitVec 8)) (k : ℕ) : Prop where
  stb : s.rCmdCrcStb = false
  ff : s.rCmdCrcFf = false
  due : Crc.Due commandTaps s.rCmdCrc (shiftsLeft s.rCmdCrcCnt) (bytes.take (k + 1))
  few : shiftsLeft s.rCmdCrcCnt ≤ 8
  paced : 0 < k → s.preCmdState = false → shiftsLeft s.rCmdCrcCnt ≤ s.lowlevel.left + 1
  loads : s.preCmdState = true → 16 ≤ s.lowlevel.left ∧ (0 < k → shiftsLeft s.rCmdCrcCnt = 0)

/-- The byte still waits. -/
structure Pending (s : Sdspi c.lgfifoln) (bytes : List (BitVec 8)) (k : ℕ) : Prop where
  waits : (s.rCmdCrcStb || s.rCmdCrcFf) = true
  due : Crc.Due commandTaps s.rCmdCrc (shiftsLeft s.rCmdCrcCnt) (bytes.take k)
  paced : shiftsLeft s.rCmdCrcCnt + 9 ≤ s.lowlevel.left + 1
  quiet : s.preCmdState = false

/-- The first five bytes of a command, until it is over or broken off. -/
def Goes (s : Sdspi c.lgfifoln) (b : BitVec 8) (w : BitVec 32) : Prop :=
  (s.llCmdStb = false ∧ s.preCmdState = false) ∨
  (s.llCmdStb = true ∧ (5 ≤ s.rCmdState ∨ ∃ k, Commanding s b w k ∧
    (Entered s (commandBytes b w) k ∨ Pending s (commandBytes b w) k)))

section Step

variable {s : Sdspi c.lgfifoln} {i : SdspiIn} {bytes : List (BitVec 8)} {b : BitVec 8}
  {w : BitVec 32} {k : ℕ}

theorem Commanding.lt (h : Commanding s b w k) : s.rCmdState < 5 := by
  rw [h.state]
  have := h.le
  interval_cases k <;> decide

theorem not_starts (hbusy : s.rCmdBusy = true) : starts c s = false := by
  rw [starts, hbusy, Bool.not_true, Bool.and_false, Bool.false_and, Bool.false_and]

/-- Between two bytes nothing changes but the engine. -/
theorem Commanding.waits (h : Commanding s b w k) (hbusy : s.rCmdBusy = true)
    (hon : s.llCmdStb = true) (hpre : s.preCmdState = false) :
    Commanding (next c s i) b w k ∧ (next c s i).llCmdStb = true ∧
    (next c s i).rCmdCrcStb = false := by
  refine ⟨⟨h.le, ?_, ?_, ?_, ?_, ?_⟩, ?_, ?_⟩
  · rw [next_rCmdState, nextCmdState, hpre, hon]
    exact h.state
  · rw [next_llCmdDat, nextLlCmdDat, hpre, hbusy]
    exact h.data
  · rw [next_rDataReg, nextDataReg, hpre, hbusy]
    exact h.reg
  · rw [next_rCmdSent, decide_eq_false (BitVec.not_le.mpr h.lt), Bool.and_false]
  · rw [next_preRspState, h.unsent, Bool.and_false]
  · rw [next_llCmdStb, nextLlCmdStb, hpre, not_starts hbusy]
    exact hon
  · rw [next_rCmdCrcStb, hpre, not_starts hbusy]
    rfl

/-- No response is heard while the command goes out. -/
theorem Commanding.deaf (h : Commanding s b w k) (r : BitVec 3) :
    responds c s r = false ∧ firstResponse c s = false := by
  rw [responds, firstResponse, h.unheard, Bool.and_false]
  exact ⟨rfl, rfl⟩

/-- The shifter is on, unless the watchdog has fired. -/
theorem Commanding.on_next (h : Commanding s b w k) (hpre : s.preCmdState = true)
    (hon : s.llCmdStb = true) : (next c s i).llCmdStb = !s.rWatchdogErr := by
  have hdone : writingDone c s = false := by
    rw [writingDone, (h.deaf _).1, Bool.false_and]
  rw [next_llCmdStb, nextLlCmdStb, if_pos hpre, (h.deaf rspBsywait).1, (h.deaf rspBsywait).2,
    (h.deaf rspGetword).1, (h.deaf rspRdcomplete).1, hdone, hon]
  cases s.rWatchdogErr <;> rfl

/-- The next byte is loaded. -/
theorem Commanding.loaded (h : Commanding s b w k) (hk : k < 4) (hpre : s.preCmdState = true)
    (hquiet : llOutStb c s = false) :
    Commanding (next c s i) b w (k + 1) ∧ (next c s i).rCmdCrcStb = true := by
  have hlt : s.rCmdState < 5 := h.lt
  have hdata : (next c s i).rDataReg = w := by
    rw [next_rDataReg, nextDataReg, if_pos hpre, hquiet, Bool.and_false,
      if_neg Bool.false_ne_true, (h.deaf rspGetword).1, (h.deaf rspGetword).2, Bool.false_and,
      if_neg Bool.false_ne_true, if_neg Bool.false_ne_true]
    exact h.reg
  have hstate : (next c s i).rCmdState = BitVec.ofNat 3 (k + 1) := by
    rw [next_rCmdState, nextCmdState, hpre, decide_eq_true hlt, if_pos (by rfl), h.state]
    exact (BitVec.ofNat_add k 1).symm
  have hstb : (next c s i).rCmdCrcStb = true := by
    rw [next_rCmdCrcStb, hpre, h.state]
    interval_cases k <;> rfl
  refine ⟨⟨by omega, hstate, ?_, hdata, ?_, ?_⟩, hstb⟩
  · rw [next_llCmdDat, nextLlCmdDat, if_pos hpre, h.state, h.reg]
    interval_cases k <;> rfl
  · rw [next_rCmdSent, decide_eq_false (BitVec.not_le.mpr hlt), Bool.and_false]
  · rw [next_preRspState, h.unsent, Bool.and_false]

/-- Behind the fifth byte comes the CRC. -/
theorem Commanding.last (h : Commanding s b w 4) (hpre : s.preCmdState = true) :
    5 ≤ (next c s i).rCmdState ∧ (next c s i).llCmdDat = cmdCrc c s := by
  constructor
  · rw [next_rCmdState, nextCmdState, hpre, h.state, if_pos (by decide)]
    decide
  · rw [next_llCmdDat, nextLlCmdDat, if_pos hpre, h.state]
    rfl

/-- From there on the state only goes up, while the shifter is on. -/
theorem later_next (hst : 5 ≤ s.rCmdState) (hon : s.llCmdStb = true) :
    5 ≤ (next c s i).rCmdState := by
  rw [next_rCmdState, nextCmdState, hon]
  have hnot : ¬s.rCmdState < 5 := BitVec.not_lt.mpr hst
  rw [decide_eq_false hnot, Bool.and_false, Bool.not_true, if_neg Bool.false_ne_true,
    if_neg Bool.false_ne_true]
  split_ifs
  · decide
  · decide
  · decide
  · exact hst

end Step

/-! ## Whole runs -/

section Runs

variable {s : ℕ → Sdspi c.lgfifoln} {x : ℕ → SdspiIn} (h0 : AtPowerUp c (s 0))
  (hstep : ∀ n, s (n + 1) = next c (s n) (x n)) {n : ℕ} {b : BitVec 8} {w : BitVec 32} {k : ℕ}

include h0 hstep

/-- One edge on a clock at most, also during the start up. -/
theorem left_run (hbusy : (s n).rCmdBusy = true) :
    (s n).lowlevel.left ≤ (s (n + 1)).lowlevel.left + 1 := by
  by_cases hhold : (s n).lowlevel.startupHold = true
  · rw [Llsdspi.left_idle (.inl ((tidy_run h0 hstep n).hold hhold).1)]
    exact Nat.zero_le _
  · rw [Bool.not_eq_true] at hhold
    rw [hstep]
    exact Llsdspi.left_next hhold hbusy

/-- While edges are to come nothing is taken, and nothing is strobed while there are many. -/
theorem left_rests (hleft : 0 < (s n).lowlevel.left) : (s (n + 1)).preCmdState = false ∧
    llOutStb c (s n) = false := by
  have hrests := rests_run h0 hstep n
  constructor
  · rw [hstep, next_preCmdState, taken, Bool.and_eq_false_iff]
    right
    rw [Bool.eq_false_iff]
    intro hidle
    rw [Llsdspi.left_of_idle hrests hidle] at hleft
    omega
  · rw [Bool.eq_false_iff]
    intro hstb
    rw [Llsdspi.left_idle (.inr (hrests.strobe hstb))] at hleft
    omega

/-- The engine has taken the byte, and goes on. -/
theorem Entered.waits (h : Entered (s n) (commandBytes b w) k) (hbusy : (s n).rCmdBusy = true)
    (hstb : (s (n + 1)).rCmdCrcStb = false) (hpre : (s n).preCmdState = false) :
    Entered (s (n + 1)) (commandBytes b w) k := by
  have hleft := left_run h0 hstep hbusy
  obtain ⟨m, hdue, hcount, hff, hm⟩ : ∃ m, Crc.Due commandTaps (s (n + 1)).rCmdCrc m
      ((commandBytes b w).take (k + 1)) ∧ shiftsLeft (s (n + 1)).rCmdCrcCnt = m ∧
      (s (n + 1)).rCmdCrcFf = false ∧ m = shiftsLeft (s n).rCmdCrcCnt - 1 := by
    have hdue := h.due
    rw [hstep]
    cases hcount : shiftsLeft (s n).rCmdCrcCnt with
    | zero =>
      rw [hcount] at hdue
      obtain ⟨hdue', hcount', hff'⟩ := engine_stays (i := x n) hbusy hdue hcount h.stb h.ff
      exact ⟨0, hdue', hcount', hff', rfl⟩
    | succ m =>
      rw [hcount] at hdue
      obtain ⟨hdue', hcount', hff'⟩ := engine_shifts (i := x n) hbusy hdue hcount
      rw [h.ff, h.stb] at hff'
      exact ⟨m, hdue', hcount', hff', rfl⟩
  have hfew := h.few
  rw [← hcount] at hdue hm
  refine ⟨hstb, hff, hdue, by omega, fun hk _ => ?_, fun htaken => ?_⟩
  · have := h.paced hk hpre
    omega
  · -- the shifter was idle
    have htaken' : taken c (s n) (x n) = true := by
      rw [hstep] at htaken
      exact htaken
    refine ⟨left_taken h0 hstep htaken', fun hk => ?_⟩
    have hpaced := h.paced hk hpre
    rw [taken, Bool.and_eq_true] at htaken'
    rw [Llsdspi.left_of_idle (rests_run h0 hstep n) htaken'.2] at hpaced
    omega

/-- The byte waits for the engine, or is taken. -/
theorem Pending.goes (h : Pending (s n) (commandBytes b w) k) (hbusy : (s n).rCmdBusy = true)
    (hstb : (s (n + 1)).rCmdCrcStb = false) (hdata : (commandBytes b w)[k]? = some (s n).llCmdDat) :
    Entered (s (n + 1)) (commandBytes b w) k ∨ Pending (s (n + 1)) (commandBytes b w) k := by
  have hleft := left_run h0 hstep hbusy
  have hpaced := h.paced
  have hpre := (left_rests h0 hstep (n := n) (by omega)).1
  have hdue := h.due
  cases hcount : shiftsLeft (s n).rCmdCrcCnt with
  | zero =>
    left
    rw [hcount] at hdue
    obtain ⟨hdue', hcount', hff'⟩ := engine_takes (i := x n) hbusy hdue hcount h.waits
    rw [← hstep] at hdue' hcount' hff'
    have htake : (commandBytes b w).take k ++ [(s n).llCmdDat] =
        (commandBytes b w).take (k + 1) := by
      rw [List.take_succ, hdata]
      rfl
    rw [htake] at hdue'
    refine ⟨hstb, hff', ?_, Nat.le_of_eq hcount', fun _ _ => by omega, fun hyes => ?_⟩
    · rw [hcount']
      exact hdue'
    · rw [hpre] at hyes
      exact absurd hyes (by decide)
  | succ m =>
    right
    rw [hcount] at hdue
    obtain ⟨hdue', hcount', hff'⟩ := engine_shifts (i := x n) hbusy hdue hcount
    rw [← hstep] at hdue' hcount' hff'
    rw [← hcount'] at hdue'
    have hwaits := h.waits
    rw [Bool.or_comm] at hwaits
    exact ⟨by rw [hff', hwaits, Bool.or_true], hdue', by omega, hpre⟩

/-- The next byte waits while the engine is done with the one before. -/
theorem Entered.loaded (h : Entered (s n) (commandBytes b w) k) (hbusy : (s n).rCmdBusy = true)
    (hpre : (s n).preCmdState = true) (hstb : (s (n + 1)).rCmdCrcStb = true) :
    Pending (s (n + 1)) (commandBytes b w) (k + 1) := by
  have hleft := left_run h0 hstep hbusy
  obtain ⟨hfar, -⟩ := h.loads hpre
  have hquiet := (left_rests h0 hstep (n := n) (by omega)).1
  have hfew := h.few
  have hdue := h.due
  cases hcount : shiftsLeft (s n).rCmdCrcCnt with
  | zero =>
    rw [hcount] at hdue
    obtain ⟨hdue', hcount', -⟩ := engine_stays (i := x n) hbusy hdue hcount h.stb h.ff
    rw [← hstep] at hdue' hcount'
    rw [← hcount'] at hdue'
    exact ⟨by rw [hstb, Bool.true_or], hdue', by omega, hquiet⟩
  | succ m =>
    rw [hcount] at hdue
    obtain ⟨hdue', hcount', -⟩ := engine_shifts (i := x n) hbusy hdue hcount
    rw [← hstep] at hdue' hcount'
    rw [← hcount'] at hdue'
    exact ⟨by rw [hstb, Bool.true_or], hdue', by omega, hquiet⟩

/-- One clock of a command. -/
theorem Goes.next (h : Goes (s (n + 1)) b w) (hbusy : (s (n + 1)).rCmdBusy = true) :
    Goes (s (n + 2)) b w := by
  have hstep' := hstep (n + 1)
  rcases h with ⟨hoff, hpre⟩ | ⟨hon, hgoes⟩
  · -- broken off
    left
    rw [hstep']
    constructor
    · rw [next_llCmdStb, nextLlCmdStb, hpre, not_starts hbusy]
      exact hoff
    · rw [next_preCmdState, taken, hoff, Bool.false_and]
  · -- the shifter takes nothing on the clock behind a byte
    have hrest : (s (n + 1)).preCmdState = true → (s (n + 2)).preCmdState = false := by
      intro hpre
      rw [hstep n, next_preCmdState] at hpre
      have := left_taken h0 hstep hpre
      exact (left_rests h0 hstep (n := n + 1) (by omega)).1
    have hfall : (s (n + 2)).llCmdStb = false → (s (n + 2)).preCmdState = false := by
      intro hoff
      refine hrest ?_
      by_contra hpre
      rw [Bool.not_eq_true] at hpre
      rw [hstep', next_llCmdStb, nextLlCmdStb, hpre, not_starts hbusy, hon] at hoff
      exact absurd hoff (by simp)
    cases hon' : (s (n + 2)).llCmdStb
    · exact .inl ⟨hon', hfall hon'⟩
    · right
      refine ⟨hon', ?_⟩
      rcases hgoes with hlate | ⟨k, hcmd, hengine⟩
      · left
        rw [hstep']
        exact later_next hlate hon
      · cases hpre : (s (n + 1)).preCmdState
        · -- between two bytes
          right
          obtain ⟨hcmd', -, hstb⟩ := hcmd.waits (i := x (n + 1)) hbusy hon hpre
          rw [← hstep'] at hcmd' hstb
          refine ⟨k, hcmd', ?_⟩
          rcases hengine with hentered | hpending
          · exact .inl (hentered.waits h0 hstep hbusy hstb hpre)
          · exact hpending.goes h0 hstep hbusy hstb hcmd.data
        · rcases hengine with hentered | hpending
          · by_cases hk : k < 4
            · right
              obtain ⟨hfar, -⟩ := hentered.loads hpre
              obtain ⟨hcmd', hstb⟩ := hcmd.loaded (i := x (n + 1)) hk hpre
                (left_rests h0 hstep (n := n + 1) (by omega)).2
              rw [← hstep'] at hcmd' hstb
              exact ⟨k + 1, hcmd', .inr (hentered.loaded h0 hstep hbusy hpre hstb)⟩
            · left
              obtain rfl : k = 4 := by have := hcmd.le; omega
              rw [hstep']
              exact (hcmd.last hpre).1
          · rw [hpending.quiet] at hpre
            exact absurd hpre (by decide)

/-- While the controller is free it offers nothing, and has not sent anything. -/
theorem off_of_free (hfree : (s n).rCmdBusy = false) : (s n).llCmdStb = false := by
  cases n with
  | zero => exact h0.llCmdStb
  | succ n => exact (free_run h0 hstep n).llCmdStb hfree

theorem unsent_of_free (hfree : (s (n + 1)).rCmdBusy = false) : (s (n + 1)).rCmdSent = false := by
  have hoff : (s n).llCmdStb = false := by
    cases hbusy : (s n).rCmdBusy
    · exact off_of_free h0 hstep hbusy
    · rw [hstep, next_rCmdBusy, nextCmdBusy, hbusy, not_starts hbusy] at hfree
      cases hpre : (s n).preCmdState
      · rw [hpre] at hfree
        exact (Bool.or_eq_false_iff.1 hfree).1
      · rw [hpre] at hfree
        exact absurd hfree (by simp)
  rw [hstep, next_rCmdSent, hoff, Bool.false_and]

/-- The first byte goes straight to the engine. -/
theorem goes_first {a : ℕ} (hstarts : starts c (s (a + 1)) = true)
    (hbusy : (s (a + 2)).rCmdBusy = true) :
    Goes (s (a + 3)) ((s (a + 1)).rWbData.extractLsb' 0 8) (s (a + 1)).rDataReg := by
  obtain ⟨hfree, hpre, hnew⟩ := free_of_starts hstarts
  have hoff := off_of_free h0 hstep hfree
  have hcommand : (s (a + 1)).rWbData.extractLsb' 6 2 = 0b01 := by
    rw [starts, Bool.and_eq_true, beq_iff_eq] at hstarts
    exact hstarts.2
  have hfirst := hstep (a + 1)
  have hpre₂ : (s (a + 2)).preCmdState = false := by
    rw [hfirst, next_preCmdState, taken, hoff, Bool.false_and]
  have hon₂ : (s (a + 2)).llCmdStb = true := by
    rw [hfirst, next_llCmdStb, nextLlCmdStb, hpre, hstarts]
    rfl
  have hcmd₂ : Commanding (s (a + 2)) ((s (a + 1)).rWbData.extractLsb' 0 8)
      (s (a + 1)).rDataReg 0 := by
    refine ⟨Nat.zero_le 4, ?_, ?_, ?_, ?_, ?_⟩
    · rw [hfirst, next_rCmdState, nextCmdState, hpre, hoff]
      rfl
    · rw [hfirst, next_llCmdDat, nextLlCmdDat, hpre, hfree, hnew]
      rfl
    · rw [hfirst, next_rDataReg, nextDataReg, hpre, hfree, hnew, hcommand]
      rfl
    · rw [hfirst, next_rCmdSent, hoff, Bool.false_and]
    · rw [hfirst, next_preRspState, unsent_of_free h0 hstep hfree, Bool.and_false]
  have hstb₂ : (s (a + 2)).rCmdCrcStb = true := by
    rw [hfirst, next_rCmdCrcStb, hstarts, Bool.or_true]
  have hreg₂ : (s (a + 2)).rCmdCrc = 0 := by
    rw [hfirst, next_rCmdCrc, hfree]
    rfl
  have hcnt₂ : (s (a + 2)).rCmdCrcCnt = 0xf := by
    rw [hfirst, next_rCmdCrcCnt, hfree]
    rfl
  obtain ⟨hcmd, hon, hstb⟩ := hcmd₂.waits (i := x (a + 2)) hbusy hon₂ hpre₂
  have hdue₂ : Crc.Due commandTaps (s (a + 2)).rCmdCrc 0 [] := by
    rw [hreg₂]
    exact Crc.due_zero _ 0
  have hleft₂ : shiftsLeft (s (a + 2)).rCmdCrcCnt = 0 := by
    rw [hcnt₂]
    rfl
  obtain ⟨hdue, hcount, hff⟩ := engine_takes (i := x (a + 2)) hbusy hdue₂ hleft₂
    (by rw [hstb₂, Bool.true_or])
  have hdata := hcmd₂.data
  rw [← hstep] at hcmd hon hstb hdue hcount hff
  refine .inr ⟨hon, .inr ⟨0, hcmd,
    .inl ⟨hstb, hff, ?_, Nat.le_of_eq hcount, fun hk => ?_, fun htaken => ?_⟩⟩⟩
  · rw [hcount]
    rw [← Option.some.inj hdata, List.nil_append] at hdue
    exact hdue
  · exact absurd hk (Nat.lt_irrefl 0)
  · rw [hstep, next_preCmdState] at htaken
    exact ⟨left_taken h0 hstep htaken, fun hk => absurd hk (Nat.lt_irrefl 0)⟩

/-- **The CRC of a command**, where it is handed to the shifter. -/
theorem command_crc {a t z : ℕ} (ha : 0 < a) (hstarts : starts c (s a) = true)
    (hbusy : ∀ u, a < u → u < z → (s u).rCmdBusy = true) (hat : a < t) (htz : t < z)
    (hpre : (s t).preCmdState = true) (hstate : (s t).rCmdState = 4) :
    (s t).rCmdCrc =
      Crc.crc commandTaps (commandBytes ((s a).rWbData.extractLsb' 0 8) (s a).rDataReg) ∧
    (s (t + 1)).llCmdDat = cmdCrc c (s t) := by
  obtain ⟨m, rfl⟩ : ∃ m, a = m + 1 := ⟨a - 1, by omega⟩
  have hlater : m + 3 ≤ t := by
    by_contra hlt
    obtain rfl : t = m + 2 := by omega
    have hoff := off_of_free h0 hstep (free_of_starts hstarts).1
    rw [hstep, next_preCmdState, taken, hoff, Bool.false_and] at hpre
    exact absurd hpre (by decide)
  have hgoes : ∀ u, m + 3 ≤ u → u < z →
      Goes (s u) ((s (m + 1)).rWbData.extractLsb' 0 8) (s (m + 1)).rDataReg := by
    intro u hu
    induction u, hu using Nat.le_induction with
    | base => exact fun _ => goes_first h0 hstep hstarts (hbusy _ (by omega) (by omega))
    | succ u hu ih =>
      intro huz
      obtain ⟨v, rfl⟩ : ∃ v, u = v + 1 := ⟨u - 1, by omega⟩
      exact (ih (by omega)).next h0 hstep (hbusy _ (by omega) (by omega))
  rcases hgoes t hlater htz with ⟨-, hno⟩ | ⟨-, hlate | ⟨k, hcmd, hengine⟩⟩
  · rw [hpre] at hno
    exact absurd hno (by decide)
  · rw [hstate] at hlate
    exact absurd hlate (by decide)
  · obtain rfl : k = 4 := by
      have hsame := hcmd.state
      have hle := hcmd.le
      rw [hstate] at hsame
      interval_cases k <;> first | rfl | exact absurd hsame (by decide)
    rcases hengine with hentered | hpending
    · have hdue := hentered.due
      rw [(hentered.loads hpre).2 (by decide)] at hdue
      refine ⟨hdue, ?_⟩
      rw [hstep]
      exact (hcmd.last hpre).2
    · rw [hpending.quiet] at hpre
      exact absurd hpre (by decide)

end Runs

end Sdspi

end ZipStormMX.Sdcard
