/-
  `genuctrl.v` for tables of any size, and the schedule that it plays.

  The model in `Genuctrl` has the sixteen words of the SDRAM controller, already decoded.  Here the
  table is the bit vector `COMMANDS` itself, for any `CMDWIDTH`, `LGDELAY > 0` and `LGNCMDS`.  The
  reference is a schedule that knows nothing of the pipeline: which entry is being played, and for
  how many clocks it has been (`position`).  Behind the two clocks that the pipeline takes to fill
  after a reset, every register is a function of that position (`Plays`).
-/
import Mathlib.Data.BitVec
import Mathlib.Tactic.Ring
import ZipStormMX.Clocked

namespace ZipStormMX.Sdram

open Clocked

/-- The parameters of `genuctrl`. -/
structure Table where
  cmdWidth : ℕ
  lgDelay : ℕ
  lgNcmds : ℕ
  lgDelay_pos : 0 < lgDelay

namespace Table

/-- `WORDWID`, with the bit that tells a delay. -/
def wordWid (T : Table) : ℕ :=
  1 + if T.cmdWidth < T.lgDelay then T.lgDelay else T.cmdWidth

end Table

/-- The rest of the parameters: `COMMANDS` and `OPT_REPEAT`. -/
structure Sequence (T : Table) where
  commands : BitVec (2 ^ T.lgNcmds * T.wordWid)
  optRepeat : Bool

/-- The registers of `genuctrl`. -/
structure Sequencer (T : Table) where
  rStep : Bool
  rCount : BitVec T.lgDelay
  rAddr : BitVec T.lgNcmds
  rCmd : BitVec T.wordWid
  oCmd : BitVec T.cmdWidth

namespace Sequencer

variable {T : Table} (p : Sequence T)

/-- `getcommand`. -/
def getcommand (iAddr : BitVec T.lgNcmds) : BitVec T.wordWid :=
  p.commands.extractLsb' (iAddr.toNat * T.wordWid) T.wordWid

def isDelay (w : BitVec T.wordWid) : Bool := w.getLsbD (T.wordWid - 1)

def delay (w : BitVec T.wordWid) : BitVec T.lgDelay := w.extractLsb' 0 T.lgDelay

def command (w : BitVec T.wordWid) : BitVec T.cmdWidth := w.extractLsb' 0 T.cmdWidth

/-- `INITIAL_COMMAND`. -/
def initialCommand : BitVec T.wordWid := p.commands.extractLsb' 0 T.wordWid

/-- What the `initial` statements set. -/
def init : Sequencer T where
  rStep := if isDelay (initialCommand p) then delay (initialCommand p) == 0 else true
  rCount := if isDelay (initialCommand p) then delay (initialCommand p) else 0
  rAddr := 0
  rCmd := initialCommand p
  oCmd := command (initialCommand p)

def next (s : Sequencer T) (iReset : Bool) : Sequencer T where
  rStep :=
    if iReset then
      if isDelay (initialCommand p) then delay (initialCommand p) == 0 else true
    else if s.rStep then !isDelay s.rCmd || delay s.rCmd == 0
    else s.rCount.toNat == 1
  rCount :=
    if iReset then if isDelay (initialCommand p) then delay (initialCommand p) else 0
    else if s.rStep then if isDelay s.rCmd then delay s.rCmd else 0
    else s.rCount - 1
  rAddr :=
    if iReset then 0
    else if s.rStep && (p.optRepeat || s.rAddr != BitVec.allOnes T.lgNcmds) then s.rAddr + 1
    else s.rAddr
  rCmd :=
    if iReset then initialCommand p
    else if s.rStep then getcommand p s.rAddr
    else s.rCmd
  oCmd :=
    if iReset && !isDelay (initialCommand p) then command (initialCommand p)
    else if s.rStep && !isDelay s.rCmd then command s.rCmd
    else s.oCmd

/-! ## The schedule -/

/-- Entry `j` of the table. -/
def entry (j : ℕ) : BitVec T.wordWid := p.commands.extractLsb' (j * T.wordWid) T.wordWid

/-- The clocks that entry `j` takes: one, and one more for every clock of a delay. -/
def length (j : ℕ) : ℕ := if isDelay (entry p j) then (delay (entry p j)).toNat + 1 else 1

/-- The command that is out while entry `j` is played: its own, or the one before the delay. -/
def shown : ℕ → BitVec T.cmdWidth
  | 0 => command (entry p 0)
  | j + 1 => if isDelay (entry p (j + 1)) then shown j else command (entry p (j + 1))

/-- The entry that follows entry `j`.  Behind the last one a table starts again, or stays. -/
def follows (j : ℕ) : ℕ :=
  if j + 1 < 2 ^ T.lgNcmds then j + 1 else if p.optRepeat then 0 else j

/-- One clock of the schedule: entry `j` goes on, or it has been played for its clocks. -/
def advance (j i : ℕ) : ℕ × ℕ :=
  if i + 1 < length p j then (j, i + 1)
  else if j + 1 < 2 ^ T.lgNcmds || p.optRepeat then (follows p j, 0)
  else (j, i)

/-- The schedule: the entry that is played at each clock, and the clocks it has been. -/
def position : ℕ → ℕ × ℕ
  | 0 => (0, 0)
  | k + 1 => advance p (position k).1 (position k).2

/-- The command that is out at each clock of the schedule. -/
def schedule (k : ℕ) : BitVec T.cmdWidth := shown p (position p k).1

/-- What `o_cmd` shows `k` clocks after a reset: the first command while the pipeline fills, and
    then the schedule. -/
def trace : ℕ → BitVec T.cmdWidth
  | 0 => shown p 0
  | 1 => shown p 0
  | k + 2 => schedule p k

/-- The clocks since the last reset, or since power on. -/
def age (iReset : ℕ → Bool) : ℕ → ℕ
  | 0 => 0
  | m + 1 => if iReset m then 0 else age iReset m + 1

/-! ## The pipeline follows the schedule -/

variable {p}

theorem getcommand_eq (iAddr : BitVec T.lgNcmds) : getcommand p iAddr = entry p iAddr.toNat := rfl

theorem initialCommand_eq : initialCommand p = entry p 0 := by
  unfold initialCommand entry
  rw [Nat.zero_mul]

theorem follows_lt {j : ℕ} (h : j < 2 ^ T.lgNcmds) : follows p j < 2 ^ T.lgNcmds := by
  unfold follows
  split
  · assumption
  · split
    · exact Nat.two_pow_pos _
    · exact h

/-- The entry that follows shows its own command, or keeps the one that is out. -/
theorem shown_follows (h0 : isDelay (entry p 0) = false) {j : ℕ} (h : j < 2 ^ T.lgNcmds) :
    shown p (follows p j) = if isDelay (entry p (follows p j)) then shown p j
      else command (entry p (follows p j)) := by
  unfold follows
  by_cases hj : j + 1 < 2 ^ T.lgNcmds
  · rw [if_pos hj]
    rfl
  · rw [if_neg hj]
    cases p.optRepeat with
    | true => rw [if_pos rfl, shown, h0, if_neg Bool.false_ne_true]
    | false =>
      rw [if_neg Bool.false_ne_true]
      cases j with
      | zero => rw [shown, h0, if_neg Bool.false_ne_true]
      | succ j =>
        rw [shown]
        split <;> rfl

/-- The address follows the table, too. -/
theorem nextAddr (a : BitVec T.lgNcmds) :
    (if p.optRepeat || a != BitVec.allOnes T.lgNcmds then a + 1 else a).toNat =
      follows p a.toNat := by
  have ha := a.isLt
  have hones : (BitVec.allOnes T.lgNcmds).toNat = 2 ^ T.lgNcmds - 1 := BitVec.toNat_allOnes
  have hone : a = BitVec.allOnes T.lgNcmds ↔ a.toNat + 1 = 2 ^ T.lgNcmds := by
    rw [← BitVec.toNat_inj, hones]
    omega
  have hadd : (a + 1).toNat = (a.toNat + 1) % 2 ^ T.lgNcmds := by
    have h1 : (1 : BitVec T.lgNcmds).toNat = 1 % 2 ^ T.lgNcmds := BitVec.toNat_ofNat 1 _
    rw [BitVec.toNat_add, h1, Nat.add_mod_mod]
  unfold follows
  by_cases hlast : a.toNat + 1 < 2 ^ T.lgNcmds
  · have hne : (a != BitVec.allOnes T.lgNcmds) = true := by
      rw [bne_iff_ne]
      intro he
      have := hone.mp he
      omega
    rw [hne, Bool.or_true, if_pos rfl, if_pos hlast, hadd, Nat.mod_eq_of_lt hlast]
  · have he : a.toNat + 1 = 2 ^ T.lgNcmds := by omega
    have hbne : (a != BitVec.allOnes T.lgNcmds) = false := by
      rw [bne_eq_false_iff_eq]
      exact hone.mpr he
    rw [hbne, Bool.or_false, if_neg hlast]
    cases p.optRepeat
    · rfl
    · rw [if_pos rfl, if_pos rfl, hadd, he, Nat.mod_self]

/-- The registers when entry `j` is played for the clock `i`.  Behind the last entry of a table that
    does not repeat, the counter goes its own ways. -/
structure Plays (p : Sequence T) (s : Sequencer T) (j i : ℕ) : Prop where
  lt : j < 2 ^ T.lgNcmds
  oCmd : s.oCmd = shown p j
  rCmd : s.rCmd = entry p (follows p j)
  rAddr : s.rAddr.toNat = follows p (follows p j)
  count : (j + 1 < 2 ^ T.lgNcmds || p.optRepeat) = true →
    s.rCount.toNat + i + 1 = length p j ∧ s.rStep = (s.rCount.toNat == 0)

/-- What a step loads, when it takes in the word that waits in `r_cmd`. -/
theorem next_step {s : Sequencer T} (h : s.rStep = true) :
    next p s false =
      { rStep := !isDelay s.rCmd || delay s.rCmd == 0
        rCount := if isDelay s.rCmd then delay s.rCmd else 0
        rAddr := if p.optRepeat || s.rAddr != BitVec.allOnes T.lgNcmds then s.rAddr + 1
          else s.rAddr
        rCmd := entry p s.rAddr.toNat
        oCmd := if isDelay s.rCmd then s.oCmd else command s.rCmd } := by
  unfold next
  rw [h]
  cases isDelay s.rCmd <;> rfl

/-- And what it leaves, when it waits. -/
theorem next_wait {s : Sequencer T} (h : s.rStep = false) :
    next p s false =
      { rStep := s.rCount.toNat == 1
        rCount := s.rCount - 1
        rAddr := s.rAddr
        rCmd := s.rCmd
        oCmd := s.oCmd } := by
  unfold next
  rw [h]
  rfl

/-- The counter is loaded with the clocks that the entry takes after its first. -/
theorem count_load (w : BitVec T.wordWid) :
    (!isDelay w || delay w == 0) = ((if isDelay w then delay w else 0).toNat == 0) := by
  cases isDelay w
  · simp
  · simp only [Bool.not_true, Bool.false_or, if_true]
    rw [Bool.eq_iff_iff, beq_iff_eq, beq_iff_eq, ← BitVec.toNat_inj]
    rfl

theorem length_eq (j : ℕ) : length p j =
    (if isDelay (entry p j) then delay (entry p j) else 0).toNat + 1 := by
  unfold length
  split <;> simp

/-- An entry that has been played for its clocks is followed by the next. -/
theorem Plays.follow (h0 : isDelay (entry p 0) = false) {s : Sequencer T} {j i : ℕ}
    (h : Plays p s j i) (hs : s.rStep = true) : Plays p (next p s false) (follows p j) 0 := by
  rw [next_step hs]
  refine ⟨follows_lt h.lt, ?_, ?_, ?_, fun _ => ⟨?_, ?_⟩⟩
  · show (if isDelay s.rCmd then s.oCmd else command s.rCmd) = _
    rw [h.rCmd, h.oCmd, shown_follows h0 h.lt]
  · show entry p s.rAddr.toNat = _
    rw [h.rAddr]
  · exact (nextAddr s.rAddr).trans (by rw [h.rAddr])
  · show (if isDelay s.rCmd then delay s.rCmd else 0).toNat + 0 + 1 = _
    rw [h.rCmd, Nat.add_zero, length_eq]
  · exact count_load s.rCmd

/-- **One clock of the pipeline is one clock of the schedule.** -/
theorem Plays.next (h0 : isDelay (entry p 0) = false) {s : Sequencer T} {j i : ℕ}
    (h : Plays p s j i) :
    Plays p (next p s false) (advance p j i).1 (advance p j i).2 := by
  by_cases hlive : (j + 1 < 2 ^ T.lgNcmds || p.optRepeat) = true
  · obtain ⟨hcount, hstep⟩ := h.count hlive
    unfold advance
    by_cases hi : i + 1 < length p j
    · -- the entry goes on
      rw [if_pos hi]
      have hwait : s.rStep = false := by
        rw [hstep, beq_eq_false_iff_ne]
        omega
      have hone : 1 < 2 ^ T.lgDelay := Nat.one_lt_two_pow (by have := T.lgDelay_pos; omega)
      have hlt := s.rCount.isLt
      have hsub : (s.rCount - 1).toNat = s.rCount.toNat - 1 := by
        have h1 : (1 : BitVec T.lgDelay).toNat = 1 % 2 ^ T.lgDelay := BitVec.toNat_ofNat 1 _
        rw [BitVec.toNat_sub, h1, Nat.mod_eq_of_lt hone, ← Nat.sub_add_comm hone.le,
          Nat.add_sub_assoc (by omega), Nat.add_mod_left, Nat.mod_eq_of_lt (by omega)]
      rw [next_wait hwait]
      refine ⟨h.lt, h.oCmd, h.rCmd, h.rAddr, fun _ => ⟨?_, ?_⟩⟩
      · show (s.rCount - 1).toNat + (i + 1) + 1 = length p j
        omega
      · show (s.rCount.toNat == 1) = ((s.rCount - 1).toNat == 0)
        rw [Bool.eq_iff_iff, beq_iff_eq, beq_iff_eq, hsub]
        omega
    · rw [if_neg hi, if_pos (by simpa using hlive)]
      apply h.follow h0
      rw [hstep, beq_iff_eq]
      omega
  · -- the last entry of a table that does not repeat is played for ever
    have hfix : follows p j = j := by
      unfold follows
      simp only [Bool.or_eq_true, decide_eq_true_eq, not_or, Bool.not_eq_true] at hlive
      rw [if_neg hlive.1, hlive.2]
      rfl
    have hj : (advance p j i).1 = j := by
      unfold advance
      rw [if_neg hlive]
      split <;> rfl
    rw [hj]
    cases hs : s.rStep with
    | true =>
      obtain ⟨hlt, ho, hc, ha, -⟩ := h.follow h0 hs
      rw [hfix] at ho hc ha
      exact ⟨h.lt, ho, hc.trans (by rw [hfix]), ha.trans (by rw [hfix]), fun hl => absurd hl hlive⟩
    | false =>
      rw [next_wait hs]
      exact ⟨h.lt, h.oCmd, h.rCmd, h.rAddr, fun hl => absurd hl hlive⟩

/-! ## After a reset -/

/-- The registers `k` clocks after a reset. -/
def Filled (p : Sequence T) (s : Sequencer T) : ℕ → Prop
  | 0 => s = init p
  | 1 => s.rStep = true ∧ s.rAddr.toNat = follows p 0 ∧ s.rCmd = entry p 0 ∧ s.oCmd = shown p 0
  | k + 2 => Plays p s (position p k).1 (position p k).2

theorem next_reset (h0 : isDelay (entry p 0) = false) (s : Sequencer T) :
    next p s true = init p := by
  unfold next init
  rw [initialCommand_eq, h0]
  rfl

/-- The pipeline fills in two clocks. -/
theorem Filled.next (h0 : isDelay (entry p 0) = false) {s : Sequencer T} {k : ℕ}
    (h : Filled p s k) : Filled p (next p s false) (k + 1) := by
  match k, h with
  | 0, h =>
    have hs : s.rStep = true := by
      rw [show s = init p from h]
      unfold init
      rw [initialCommand_eq, h0]
      rfl
    rw [next_step hs, show s = init p from h]
    unfold init
    rw [initialCommand_eq, h0]
    exact ⟨rfl, nextAddr 0, rfl, rfl⟩
  | 1, ⟨hs, ha, hc, ho⟩ =>
    rw [next_step hs, hc, ha, h0, ho]
    refine ⟨Nat.two_pow_pos _, ?_, rfl, ?_, fun _ => ⟨?_, rfl⟩⟩
    · show command (entry p 0) = shown p 0
      rfl
    · exact (nextAddr s.rAddr).trans (by rw [ha]; rfl)
    · show (0 : BitVec T.lgDelay).toNat + 0 + 1 = length p 0
      rw [length_eq, h0]
      rfl
  | k + 2, h => exact Plays.next h0 h

theorem Filled.oCmd {s : Sequencer T} {k : ℕ} (h : Filled p s k) : s.oCmd = trace p k := by
  match k, h with
  | 0, h =>
    rw [show s = init p from h]
    unfold init
    rw [initialCommand_eq]
    rfl
  | 1, ⟨_, _, _, ho⟩ => exact ho
  | _ + 2, h => exact Plays.oCmd h

theorem filled_run (h0 : isDelay (entry p 0) = false) (iReset : ℕ → Bool) :
    ∀ m, Filled p (run (Sequencer.next p) (init p) iReset m) (age iReset m) := by
  intro m
  induction m with
  | zero => exact rfl
  | succ m ih =>
    rw [run_succ, age]
    cases iReset m with
    | true => exact next_reset h0 _
    | false => exact ih.next h0

/-- **The sequencer plays its table**: two clocks behind every reset `o_cmd` begins to follow the
    schedule, and it shows the first command until then. -/
theorem plays_trace (p : Sequence T) (h0 : isDelay (entry p 0) = false) (iReset : ℕ → Bool)
    (m : ℕ) : (run (next p) (init p) iReset m).oCmd = trace p (age iReset m) :=
  (filled_run h0 iReset m).oCmd

/-- Two commands of two bits, for delays of one bit, over and over. -/
def twoCommands : Sequence ⟨2, 1, 1, by decide⟩ where
  commands := 0b010#3 ++ 0b001#3
  optRepeat := true

/-- The second command comes in the fourth clock. -/
theorem plays_trace_second :
    (run (next twoCommands) (init twoCommands) (fun _ => false) 3).oCmd = 2#2 :=
  (plays_trace twoCommands (by decide) (fun _ => false) 3).trans (by decide)

/-- Of the schedule it is the second. -/
theorem schedule_second : isDelay (entry twoCommands 0) = false ∧
    (run (next twoCommands) (init twoCommands) (fun _ => false) 1).oCmd ≠
      schedule twoCommands (age (fun _ => false) 1) := by
  decide

end Sequencer

end ZipStormMX.Sdram
