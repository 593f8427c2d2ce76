/-
  How far apart the bytes of the SD card controller are.

  A byte takes sixteen edges of the clock at least, whatever the divider and the arbitration do.  The
  crux: `left` counts the edges that are still to come, and goes down by one on a clock at most; so two
  bytes that the shifter takes, or two of its strobes, are seventeen clocks apart.  With the bus granted
  `stillTo` goes down on every clock, so a byte that is offered is taken in the end.
-/
import ZipStormMX.Sdcard.Blocks
import ZipStormMX.Sdcard.Exchange

namespace ZipStormMX.Sdcard

namespace Llsdspi

variable {c : LlCfg} {s : Llsdspi} {i : LlIn}

/-- The edges that are still to come for the byte under way. -/
def left (s : Llsdspi) : ℕ :=
  if s.rState = idleState ∨ s.rState = hotIdle then 0
  else if s.rState = waitState then 18
  else 2 * (11 - s.rState.toNat) + if s.oSclk then 1 else 2

theorem left_idle (hst : s.rState = idleState ∨ s.rState = hotIdle) : left s = 0 := if_pos hst

theorem left_wait (hst : s.rState = waitState) : left s = 18 := by
  rw [left, hst]
  rfl

theorem left_shifting (hst : shifting s) :
    left s = 2 * (11 - s.rState.toNat) + if s.oSclk then 1 else 2 := by
  obtain ⟨h0, h1, h2⟩ := shifting_iff.1 hst
  rw [left, if_neg (not_or.2 ⟨h0, h1⟩), if_neg h2]

theorem next_shifting : ∀ t : BitVec 4, waitState < t → ¬startState + 8 ≤ t →
    waitState < t + 1 ∧ (t + 1).toNat = t.toNat + 1 ∧ t.toNat < 11 := by
  decide

theorem late_shifting : ∀ t : BitVec 4, startState + 8 ≤ t → 11 ≤ t.toNat := by
  decide

/-- One edge on a clock at most. -/
theorem left_next (hhold : s.startupHold = false) (hcs : i.iCs = true) :
    left s ≤ left (next c s i) + 1 := by
  have hstate : (next c s i).rState = (shift c s i).rState := rfl
  have hclock := next_oSclk (c := c) (i := i) hhold
  by_cases hidle : s.rState = idleState ∨ s.rState = hotIdle
  · rw [left_idle hidle]
    exact Nat.zero_le _
  obtain ⟨h0, h1⟩ := not_or.1 hidle
  rw [shift, hcs, Bool.not_true, if_neg Bool.false_ne_true] at hstate hclock
  cases hz : s.rZCounter
  · -- the divider runs
    rw [hz, Bool.not_false, if_pos rfl] at hstate hclock
    rw [left, left, hstate, hclock]
    exact Nat.le_succ _
  rw [hz, Bool.not_true, if_neg Bool.false_ne_true, if_neg (by simpa using h0)] at hstate hclock
  by_cases h2 : s.rState = waitState
  · rw [if_pos (beq_iff_eq.2 h2)] at hstate hclock
    rw [left_wait h2]
    dsimp only at hstate hclock
    cases hgrant : granted c i
    · rw [hgrant, if_neg Bool.false_ne_true, h2] at hstate
      rw [left_wait hstate]
      omega
    · rw [hgrant, if_pos rfl] at hstate
      rw [left_shifting (show waitState < _ by rw [hstate]; decide), hstate, hclock]
      decide
  rw [if_neg (by simpa using h2), if_neg (by simpa using h1)] at hstate hclock
  have hshift : shifting s := shifting_iff.2 ⟨h0, h1, h2⟩
  rw [left_shifting hshift]
  cases hsck : s.oSclk
  · rw [hsck, if_neg Bool.false_ne_true] at hstate hclock
    dsimp only at hstate hclock
    rw [left_shifting (show waitState < _ by rw [hstate]; exact hshift), hstate, hclock]
    simp
  · rw [hsck, if_pos rfl] at hstate hclock
    by_cases hlast : startState + 8 ≤ s.rState
    · have := late_shifting _ hlast
      rw [if_pos rfl]
      omega
    · obtain ⟨hlater, hone, hlt⟩ := next_shifting _ hshift hlast
      rw [if_neg hlast] at hstate hclock
      dsimp only at hstate hclock
      rw [left_shifting (show waitState < _ by rw [hstate]; exact hlater), hstate, hclock, hone,
        if_pos rfl, if_neg Bool.false_ne_true]
      omega

/-- Sixteen edges at least for a byte that is taken. -/
theorem left_accepted (h : Rests s) (hhold : s.startupHold = false)
    (hacc : byteAccepted c s i = true) : 16 ≤ left (next c s i) := by
  obtain ⟨hidle, hcs⟩ := idle_of_accepted hacc
  have hz := h.divider hidle
  have hstate : (next c s i).rState = (shift c s i).rState := rfl
  have hclock := next_oSclk (c := c) (i := i) hhold
  rw [shift, hcs, hz, hacc, Bool.not_true, if_neg Bool.false_ne_true, if_neg Bool.false_ne_true]
    at hstate hclock
  rcases h.state hidle with hst | hst
  · rw [hst, if_pos (by decide), if_pos rfl] at hstate hclock
    dsimp only at hstate hclock
    have hcases : (next c s i).rState = startState ∨ (next c s i).rState = waitState := by
      rw [hstate]
      split_ifs
      · exact .inl rfl
      · exact .inr rfl
      · exact .inl rfl
    rcases hcases with hon | hwait
    · rw [left_shifting (show waitState < _ by rw [hon]; decide), hon, hclock]
      decide
    · rw [left_wait hwait]
      decide
  · rw [hst, if_neg (by decide), if_neg (by decide), if_pos (by decide), if_pos rfl]
      at hstate hclock
    dsimp only at hstate hclock
    rw [left_shifting (show waitState < _ by rw [hstate]; decide), hstate, hclock]
    decide

/-- Nothing is taken while an edge is to come. -/
theorem left_of_idle (h : Rests s) (hidle : oIdle c s i = true) : left s = 0 := by
  rw [oIdle, Bool.and_eq_true] at hidle
  exact left_idle (h.state hidle.1)

/-- A strobe comes with the last edge. -/
theorem left_strobe (h : (next c s i).oStb = true) : s.rState ≠ hotIdle ∧ left s ≤ 1 := by
  rw [next_oStb] at h
  unfold shift at h
  split_ifs at h with _ _ h0 _ h2 h1 _ hsck hlast
  rw [beq_iff_eq] at h0 h1 h2
  have := late_shifting _ hlast
  rw [left_shifting (shifting_iff.2 ⟨h0, h1, h2⟩), hsck, if_pos rfl]
  exact ⟨h1, by omega⟩

/-- The shifter rests hot until it takes a byte. -/
theorem hot_next (hst : s.rState = hotIdle) (hcs : i.iCs = true)
    (hno : byteAccepted c s i = false) : (next c s i).rState = hotIdle := by
  show (shift c s i).rState = hotIdle
  unfold shift
  rw [hst, hcs, hno]
  cases s.rZCounter <;> rfl

/-! ## A byte ends -/

/-- How many clocks a byte may still take, with the bus granted. -/
def stillTo (s : Llsdspi) : ℕ :=
  129 * s.left + s.rClkCounter.toNat + if s.rIdle then 0 else 1

/-- An edge brings the shifter further. -/
theorem left_edge (hhold : s.startupHold = false) (hcs : i.iCs = true)
    (hgrant : granted c i = true) (hz : s.rZCounter = true)
    (hst : ¬(s.rState = idleState ∨ s.rState = hotIdle)) : left (next c s i) + 1 ≤ left s := by
  obtain ⟨h0, h1⟩ := not_or.1 hst
  have hstate : (next c s i).rState = (shift c s i).rState := rfl
  have hclock := next_oSclk (c := c) (i := i) hhold
  rw [shift, hcs, hz, Bool.not_true, if_neg Bool.false_ne_true, if_neg Bool.false_ne_true,
    if_neg (by simpa using h0)] at hstate hclock
  by_cases h2 : s.rState = waitState
  · rw [if_pos (beq_iff_eq.2 h2)] at hstate hclock
    dsimp only at hstate hclock
    rw [hgrant, if_pos rfl] at hstate
    rw [left_wait h2, left_shifting (show waitState < _ by rw [hstate]; decide), hstate, hclock]
    decide
  rw [if_neg (by simpa using h2), if_neg (by simpa using h1)] at hstate hclock
  have hshift : shifting s := shifting_iff.2 ⟨h0, h1, h2⟩
  rw [left_shifting hshift]
  cases hsck : s.oSclk
  · rw [hsck, if_neg Bool.false_ne_true] at hstate hclock
    dsimp only at hstate hclock
    rw [left_shifting (show waitState < _ by rw [hstate]; exact hshift), hstate, hclock]
    simp
  · rw [hsck, if_pos rfl] at hstate hclock
    by_cases hlast : startState + 8 ≤ s.rState
    · rw [if_pos hlast] at hstate
      rw [left_idle (.inr hstate), if_pos rfl]
      omega
    · obtain ⟨hlater, hone, hlt⟩ := next_shifting _ hshift hlast
      rw [if_neg hlast] at hstate hclock
      dsimp only at hstate hclock
      rw [left_shifting (show waitState < _ by rw [hstate]; exact hlater), hstate, hclock, hone,
        if_pos rfl, if_neg Bool.false_ne_true]
      omega

/-- **Every clock brings the shifter further**, until it is idle. -/
theorem stillTo_next (hhold : s.startupHold = false) (htidy : Tidy s) (hcs : i.iCs = true)
    (hgrant : granted c i = true) (hidle : s.rIdle = false) :
    stillTo (next c s i) < stillTo s := by
  have hacc : byteAccepted c s i = false := by
    rw [byteAccepted, oIdle, hidle, Bool.false_and, Bool.and_false]
  have hdiv : (next c s i).rClkCounter = (nextClkCounter c s i).1 := rfl
  have hstate : (next c s i).rState = (shift c s i).rState := rfl
  have hclock := next_oSclk (c := c) (i := i) hhold
  have hrest := next_rIdle (c := c) (s := s) (i := i)
  rw [nextClkCounter, hhold, hcs, hgrant, hacc] at hdiv
  rw [shift, hcs, hacc] at hstate hclock hrest
  rw [stillTo, stillTo, hidle, if_neg Bool.false_ne_true]
  have hlt := (next c s i).rClkCounter.isLt
  have hone : (if (next c s i).rIdle then 0 else 1) ≤ 1 := by
    split_ifs
    · exact Nat.zero_le 1
    · exact Nat.le_refl 1
  cases hz : s.rZCounter
  · -- the divider runs
    rw [hz] at hdiv hstate hclock
    have hsame : left (next c s i) = left s := by
      rw [left, left, hstate, hclock]
      rfl
    have hpos : s.rClkCounter ≠ 0 := by
      intro hzero
      rw [htidy.divider, hzero] at hz
      exact absurd hz (by decide)
    have hdown : (next c s i).rClkCounter = s.rClkCounter - 1 := hdiv
    have hless : (s.rClkCounter - 1).toNat < s.rClkCounter.toNat := by
      bv_omega
    rw [hsame, hdown]
    omega
  · by_cases hst : s.rState = idleState ∨ s.rState = hotIdle
    · -- between two bytes it becomes idle
      have hzero : s.rClkCounter = 0 := by
        rw [htidy.divider, beq_iff_eq] at hz
        exact hz
      have hstays : (next c s i).rState = s.rState ∧ (next c s i).rIdle = true ∧
          (next c s i).rClkCounter = 0 := by
        rw [hz, hhold] at hrest
        rw [hz] at hstate hdiv
        rcases hst with hst | hst
        · rw [hst] at hstate hdiv hrest
          exact ⟨hstate.trans hst.symm, hrest, hdiv.trans hzero⟩
        · rw [hst] at hstate hdiv hrest
          exact ⟨hstate.trans hst.symm, hrest, hdiv.trans hzero⟩
      rw [left_idle hst, left_idle (by rw [hstays.1]; exact hst), hstays.2.1, hstays.2.2, hzero]
      decide
    · have := left_edge hhold hcs hgrant hz hst
      omega

end Llsdspi

namespace Sdspi

variable {c : SdspiCfg} {s : ℕ → Sdspi c.lgfifoln} {x : ℕ → SdspiIn}

theorem tidy_run (h0 : AtPowerUp c (s 0)) (hstep : ∀ n, s (n + 1) = next c (s n) (x n)) :
    ∀ n, (s n).lowlevel.Tidy := by
  intro n
  induction n with
  | zero => exact Llsdspi.tidy_powerUp h0.lowlevel
  | succ n ih =>
    rw [hstep]
    exact ih.next (rests_run h0 hstep n)

section Runs

variable (h0 : AtPowerUp c (s 0)) (hstep : ∀ n, s (n + 1) = next c (s n) (x n)) {m n : ℕ}

include hstep in
/-- The start up does not come again. -/
theorem hold_over (hm : (s m).lowlevel.startupHold = false) (hmn : m ≤ n) :
    (s n).lowlevel.startupHold = false := by
  induction n, hmn using Nat.le_induction with
  | base => exact hm
  | succ n _ ih =>
    rw [hstep]
    exact Llsdspi.hold_stays ih

include h0 hstep

theorem hold_idle (hidle : (s m).lowlevel.rIdle = true) :
    (s m).lowlevel.startupHold = false := by
  rw [Bool.eq_false_iff]
  intro hhold
  rw [((tidy_run h0 hstep m).hold hhold).2] at hidle
  exact absurd hidle (by decide)

/-- After a byte has been taken. -/
theorem left_taken (htaken : taken c (s m) (x m) = true) :
    16 ≤ (s (m + 1)).lowlevel.left := by
  have hacc : Llsdspi.byteAccepted c.toLlCfg (s m).lowlevel (llIn c (s m) (x m)) = true := htaken
  rw [hstep]
  exact Llsdspi.left_accepted (rests_run h0 hstep m)
    (hold_idle h0 hstep (Llsdspi.idle_of_accepted hacc).1) hacc

/-- The edges to come, some clocks after a byte has been taken. -/
theorem left_after (htaken : taken c (s m) (x m) = true) (hmn : m + 1 ≤ n)
    (hbusy : ∀ t, m < t → t < n → (s t).rCmdBusy = true) :
    m + 17 ≤ n + (s n).lowlevel.left := by
  induction n, hmn using Nat.le_induction with
  | base =>
    have := left_taken h0 hstep htaken
    omega
  | succ n hmn ih =>
    have hacc : Llsdspi.byteAccepted c.toLlCfg (s m).lowlevel (llIn c (s m) (x m)) = true := htaken
    have hhold := hold_over hstep
      (hold_idle h0 hstep (Llsdspi.idle_of_accepted hacc).1) (by omega : m ≤ n)
    have hnext := Llsdspi.left_next (c := c.toLlCfg) (i := llIn c (s n) (x n)) hhold
      (hbusy n (by omega) (Nat.lt_succ_self n))
    have := ih fun t ht htn => hbusy t ht (by omega)
    rw [hstep]
    show m + 17 ≤ n + 1 + (Llsdspi.next c.toLlCfg (s n).lowlevel (llIn c (s n) (x n))).left
    omega

/-- **Bytes are far apart**, as the shifter takes them. -/
theorem taken_far (hm : taken c (s m) (x m) = true) (hn : taken c (s n) (x n) = true)
    (hmn : m < n) (hbusy : ∀ t, m < t → t < n → (s t).rCmdBusy = true) : m + 17 ≤ n := by
  have hafter := left_after h0 hstep hm hmn hbusy
  rw [taken, Bool.and_eq_true] at hn
  rw [Llsdspi.left_of_idle (rests_run h0 hstep n) hn.2] at hafter
  exact hafter

/-- Bytes are far apart, as they come in. -/
theorem strobe_far (hm : llOutStb c (s m) = true) (hn : llOutStb c (s n) = true)
    (hmn : m < n) (hbusy : ∀ t, m ≤ t → t < n → (s t).rCmdBusy = true) : m + 17 ≤ n := by
  have hhold : (s m).lowlevel.startupHold = false := by
    rw [Bool.eq_false_iff]
    intro hhold
    have hidle := ((tidy_run h0 hstep m).hold hhold).1
    rw [(rests_run h0 hstep m).strobe hm] at hidle
    exact absurd hidle (by decide)
  -- either the shifter still rests, or it has taken a byte since
  have hsince : ∀ t, m ≤ t → t < n → (s t).lowlevel.rState = Llsdspi.hotIdle ∨
      m + 17 ≤ t + (s t).lowlevel.left := by
    intro t ht
    induction t, ht using Nat.le_induction with
    | base => exact fun _ => .inl ((rests_run h0 hstep m).strobe hm)
    | succ t ht ih =>
      intro htn
      cases htaken : taken c (s t) (x t)
      · rcases ih (by omega) with hhot | hleft
        · left
          rw [hstep]
          exact Llsdspi.hot_next hhot (hbusy t ht (by omega)) htaken
        · right
          have hnext := Llsdspi.left_next (c := c.toLlCfg) (i := llIn c (s t) (x t))
            (hold_over hstep hhold ht) (hbusy t ht (by omega))
          rw [hstep]
          show m + 17 ≤ t + 1 + (Llsdspi.next c.toLlCfg (s t).lowlevel (llIn c (s t) (x t))).left
          omega
      · right
        have := left_taken h0 hstep htaken
        omega
  obtain ⟨l, rfl⟩ : ∃ l, n = l + 1 := ⟨n - 1, by omega⟩
  rw [hstep] at hn
  obtain ⟨hcold, hlast⟩ := Llsdspi.left_strobe hn
  rcases hsince l (by omega) (Nat.lt_succ_self l) with hhot | hleft
  · exact absurd hhot hcold
  · omega

end Runs

/-- The shifter is offered a byte, and may have the bus. -/
structure Offers (c : SdspiCfg) (s : Sdspi c.lgfifoln) (i : SdspiIn) : Prop where
  busy : s.rCmdBusy = true
  stb : s.llCmdStb = true
  granted : Llsdspi.granted c.toLlCfg (llIn c s i) = true

theorem Offers.taken {s : Sdspi c.lgfifoln} {i : SdspiIn} (h : Offers c s i)
    (hidle : s.lowlevel.rIdle = true) : taken c s i = true := by
  rw [Sdspi.taken, h.stb, llIdle, Llsdspi.oIdle, hidle, h.granted]
  show (true && (true && (s.rCmdBusy && true))) = true
  rw [h.busy]
  rfl

/-- **A byte that is offered is taken**, after a while. -/
theorem taken_again (h0 : AtPowerUp c (s 0)) (hstep : ∀ n, s (n + 1) = next c (s n) (x n)) (k : ℕ) :
    ∀ m, (s m).lowlevel.startupHold = false → (s m).lowlevel.stillTo ≤ k →
    (∀ t, m ≤ t → (∀ u, m ≤ u → u < t → taken c (s u) (x u) = false) → Offers c (s t) (x t)) →
    ∃ n, m ≤ n ∧ taken c (s n) (x n) = true ∧
      ∀ u, m ≤ u → u < n → taken c (s u) (x u) = false := by
  induction k with
  | zero =>
    intro m hhold hle hoffers
    have hnow := hoffers m (Nat.le_refl m) fun u hu hum => absurd hu (by omega)
    have hidle : (s m).lowlevel.rIdle = true := by
      by_contra hno
      rw [Llsdspi.stillTo, if_neg hno] at hle
      omega
    exact ⟨m, Nat.le_refl m, hnow.taken hidle, fun u hu hum => absurd hu (by omega)⟩
  | succ k ih =>
    intro m hhold hle hoffers
    have hnow := hoffers m (Nat.le_refl m) fun u hu hum => absurd hu (by omega)
    cases hidle : (s m).lowlevel.rIdle
    · have hnot : taken c (s m) (x m) = false := by
        rw [taken, llIdle, Llsdspi.oIdle, hidle, Bool.false_and, Bool.and_false]
      have hless := Llsdspi.stillTo_next (i := llIn c (s m) (x m)) hhold (tidy_run h0 hstep m)
        hnow.busy hnow.granted hidle
      have hlater : (s (m + 1)).lowlevel.stillTo ≤ k := by
        rw [hstep]
        exact Nat.le_of_lt_succ (Nat.lt_of_lt_of_le hless hle)
      obtain ⟨n, hn, htaken, hquiet⟩ := ih (m + 1) (hold_over hstep hhold (Nat.le_succ m)) hlater
        fun t ht hnone => hoffers t (by omega) fun u hu hut => by
          rcases Nat.lt_or_eq_of_le hu with hlt | rfl
          · exact hnone u hlt hut
          · exact hnot
      refine ⟨n, by omega, htaken, fun u hu hun => ?_⟩
      rcases Nat.lt_or_eq_of_le hu with hlt | rfl
      · exact hquiet u hlt hun
      · exact hnot
    · exact ⟨m, Nat.le_refl m, hnow.taken hidle, fun u hu hum => absurd hu (by omega)⟩

end Sdspi

end ZipStormMX.Sdcard
