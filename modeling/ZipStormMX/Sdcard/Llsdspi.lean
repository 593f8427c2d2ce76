/-
  `llsdspi.v`: the shifter that puts the SD card controller's bytes on the SPI wires.

  It takes a byte when it is idle and is offered one, shifts it out and another one in, and strobes
  `o_stb` when that one is complete.  What the controller relies on is how far these clocks are apart
  (`accepted_twice`, `oStb_twice`), and that the byte received stays until the next strobe.
-/
import Mathlib.Data.BitVec
import Mathlib.Data.Nat.Log
import ZipStormMX.Clocked

namespace ZipStormMX.Sdcard

/-- The parameters `STARTUP_CLOCKS` and `OPT_SPI_ARBITRATION`. -/
structure LlCfg where
  startupClocks : ℕ
  optSpiArbitration : Bool

structure LlIn where
  iSpeed : BitVec 7
  iCs : Bool
  iStb : Bool
  iByte : BitVec 8
  iMiso : Bool
  iBusGrant : Bool

structure Llsdspi where
  startupHold : Bool
  startupCounter : ℕ
  pastSclk : Bool
  rClkCounter : BitVec 7
  rZCounter : Bool
  rState : BitVec 4
  rIdle : Bool
  rByte : BitVec 8
  rIreg : BitVec 8
  oStb : Bool
  oByte : BitVec 8
  oCsN : Bool
  oSclk : Bool
  oMosi : Bool

namespace Llsdspi

/-! ## States -/

def idleState : BitVec 4 := 0
def hotIdle : BitVec 4 := 1
def waitState : BitVec 4 := 2
def startState : BitVec 4 := 3

variable (c : LlCfg) (s : Llsdspi) (i : LlIn)

/-- The bus is ours. -/
def granted : Bool := !c.optSpiArbitration || i.iBusGrant

def oIdle : Bool := s.rIdle && (i.iCs && granted c i)

def byteAccepted : Bool := i.iStb && oIdle c s i

/-- A start up sequence is wanted, and the clock has a rising edge. -/
def startupEdge : Bool := decide (0 < c.startupClocks) && s.startupHold && !s.pastSclk && s.oSclk

def nextClkCounter : BitVec 7 × Bool :=
  if !s.startupHold && (!i.iCs || !granted c i) then (0, true)
  else if s.startupHold || byteAccepted c s i then (i.iSpeed, i.iSpeed == 0)
  else if !s.rZCounter then (s.rClkCounter - 1, s.rClkCounter == 1)
  else if waitState < s.rState && !s.rIdle then
    if startState + 8 ≤ s.rState then (0, true) else (i.iSpeed, i.iSpeed == 0)
  else (s.rClkCounter, s.rZCounter)

/-- The registers of the big block, as it leaves them before the start up has its say. -/
def shift : Llsdspi :=
  let n := { s with oStb := false, oCsN := s.startupHold || !i.iCs }
  if !i.iCs then { n with rState := idleState, rIdle := s.rZCounter, oSclk := true }
  else if !s.rZCounter then { n with rIdle := false }
  else if s.rState == idleState then
    if byteAccepted c s i then
      { n with
        oSclk := true
        rByte := i.iByte
        rState :=
          if c.optSpiArbitration then
            if !s.oCsN && i.iBusGrant then startState else waitState
          else startState
        rIdle := false
        oMosi := i.iByte.getLsbD 7 }
    else { n with oSclk := true, rIdle := !s.startupHold }
  else if s.rState == waitState then
    { n with
      rIdle := false
      oSclk := true
      rState := if granted c i then startState else s.rState }
  else if s.rState == hotIdle then
    if byteAccepted c s i then
      { n with
        rByte := i.iByte.extractLsb' 0 7 ++ 1#1
        rState := startState + 1
        rIdle := false
        oMosi := i.iByte.getLsbD 7
        oSclk := false }
    else { n with oSclk := true, rIdle := true }
  else if s.oSclk then
    if startState + 8 ≤ s.rState then
      { n with
        oMosi := s.rByte.getLsbD 7
        rByte := s.rByte.extractLsb' 0 7 ++ 1#1
        rState := hotIdle
        rIdle := true
        oStb := true
        oByte := s.rIreg
        oSclk := true }
    else
      { n with
        oMosi := s.rByte.getLsbD 7
        rByte := s.rByte.extractLsb' 0 7 ++ 1#1
        rState := s.rState + 1
        oSclk := false }
  else
    { n with
      rIreg := s.rIreg.extractLsb' 0 7 ++ BitVec.ofBool i.iMiso
      oSclk := true }

def next : Llsdspi :=
  let z := nextClkCounter c s i
  let n := shift c s i
  { n with
    rClkCounter := z.1
    rZCounter := z.2
    pastSclk := s.oSclk
    startupCounter :=
      if startupEdge c s && s.startupCounter != 0 then s.startupCounter - 1
      else s.startupCounter
    startupHold :=
      if c.startupClocks == 0 then false
      else if startupEdge c s then s.startupCounter != 0
      else s.startupHold
    rIdle := if s.startupHold then false else n.rIdle
    oCsN := if s.startupHold then true else n.oCsN
    oSclk := if s.startupHold && s.rZCounter then !s.oSclk else n.oSclk }

/-- At power up, as far as the source has `initial` values. -/
structure AtPowerUp : Prop where
  startupHold : s.startupHold = decide (0 < c.startupClocks)
  startupCounter : s.startupCounter = c.startupClocks % 2 ^ Nat.clog 2 c.startupClocks
  pastSclk : s.pastSclk = true
  rClkCounter : s.rClkCounter = 0
  rZCounter : s.rZCounter = true
  rState : s.rState = idleState
  rIdle : s.rIdle = false
  oStb : s.oStb = false
  oCsN : s.oCsN = true
  oSclk : s.oSclk = true

/-- A state to start from: what the source leaves open is low. -/
def poweredUp (c : LlCfg) : Llsdspi where
  startupHold := decide (0 < c.startupClocks)
  startupCounter := c.startupClocks % 2 ^ Nat.clog 2 c.startupClocks
  pastSclk := true
  rClkCounter := 0
  rZCounter := true
  rState := idleState
  rIdle := false
  rByte := 0
  rIreg := 0
  oStb := false
  oByte := 0
  oCsN := true
  oSclk := true
  oMosi := false

theorem atPowerUp_poweredUp (c : LlCfg) : AtPowerUp c (poweredUp c) :=
  ⟨rfl, rfl, rfl, rfl, rfl, rfl, rfl, rfl, rfl, rfl⟩

/-! ## How far apart -/

variable {c : LlCfg} {s : Llsdspi} {i : LlIn}

/-- Idle is between two bytes, with the clock divider at rest; a byte is strobed as its shift ends. -/
structure Rests (s : Llsdspi) : Prop where
  divider : s.rIdle = true → s.rZCounter = true
  state : s.rIdle = true → s.rState = idleState ∨ s.rState = hotIdle
  strobe : s.oStb = true → s.rState = hotIdle

theorem rests_powerUp (h : AtPowerUp c s) : Rests s where
  divider _ := h.rZCounter
  state _ := .inl h.rState
  strobe hs := by
    rw [h.oStb] at hs
    exact absurd hs (by decide)

theorem next_rIdle : (next c s i).rIdle = (!s.startupHold && (shift c s i).rIdle) := by
  unfold next
  cases s.startupHold <;> rfl

theorem next_rState : (next c s i).rState = (shift c s i).rState := rfl

theorem next_oStb : (next c s i).oStb = (shift c s i).oStb := rfl

theorem next_oByte : (next c s i).oByte = (shift c s i).oByte := rfl

theorem next_rZCounter : (next c s i).rZCounter = (nextClkCounter c s i).2 := rfl

/-- A byte is taken only in one of the two idle states. -/
theorem idle_of_accepted (h : byteAccepted c s i = true) : s.rIdle = true ∧ i.iCs = true := by
  unfold byteAccepted oIdle at h
  simp only [Bool.and_eq_true] at h
  exact ⟨h.2.1, h.2.2.1⟩

/-- In the middle of a byte. -/
def shifting (s : Llsdspi) : Prop := waitState < s.rState

theorem shifting_iff : shifting s ↔
    s.rState ≠ idleState ∧ s.rState ≠ hotIdle ∧ s.rState ≠ waitState := by
  unfold shifting
  generalize s.rState = t
  revert t
  decide

/-- Where the shifter may end up idle. -/
theorem shift_idle (h : (shift c s i).rIdle = true) :
    (i.iCs = false ∧ s.rZCounter = true ∧ (shift c s i).rState = idleState) ∨
    (i.iCs = true ∧ s.rZCounter = true ∧ byteAccepted c s i = false ∧
      (s.rState = idleState ∨ s.rState = hotIdle) ∧ (shift c s i).rState = s.rState) ∨
    (i.iCs = true ∧ s.rZCounter = true ∧ startState + 8 ≤ s.rState ∧ shifting s ∧
      (shift c s i).rState = hotIdle) ∨
    (shifting s ∧ s.rIdle = true) := by
  rw [shifting_iff]
  unfold shift at h ⊢
  cases hcs : i.iCs
  · rw [hcs, if_pos (by decide)] at h
    exact .inl ⟨rfl, h, rfl⟩
  · cases hz : s.rZCounter
    · rw [hcs, hz, if_neg (by decide), if_pos (by decide)] at h
      exact absurd h Bool.false_ne_true
    · rw [hcs, hz, if_neg (by decide), if_neg (by decide)] at h
      rw [if_neg (by decide), if_neg (by decide)]
      by_cases h0 : s.rState = idleState
      · rw [if_pos (beq_iff_eq.2 h0)] at h ⊢
        cases hacc : byteAccepted c s i
        · exact .inr (.inl ⟨rfl, rfl, rfl, .inl h0, rfl⟩)
        · rw [hacc] at h
          exact absurd h Bool.false_ne_true
      · rw [if_neg (by simpa using h0)] at h ⊢
        by_cases h2 : s.rState = waitState
        · rw [if_pos (beq_iff_eq.2 h2)] at h
          exact absurd h Bool.false_ne_true
        · rw [if_neg (by simpa using h2)] at h ⊢
          by_cases h1 : s.rState = hotIdle
          · rw [if_pos (beq_iff_eq.2 h1)] at h ⊢
            cases hacc : byteAccepted c s i
            · exact .inr (.inl ⟨rfl, rfl, rfl, .inr h1, rfl⟩)
            · rw [hacc] at h
              exact absurd h Bool.false_ne_true
          · rw [if_neg (by simpa using h1)] at h ⊢
            by_cases hlast : startState + 8 ≤ s.rState
            · cases hsc : s.oSclk
              · rw [hsc, if_neg (by decide)] at h
                exact .inr (.inr (.inr ⟨⟨h0, h1, h2⟩, h⟩))
              · rw [if_pos rfl, if_pos hlast]
                exact .inr (.inr (.inl ⟨rfl, rfl, hlast, ⟨h0, h1, h2⟩, rfl⟩))
            · cases hsc : s.oSclk
              · rw [hsc, if_neg (by decide)] at h
                exact .inr (.inr (.inr ⟨⟨h0, h1, h2⟩, h⟩))
              · rw [hsc, if_pos rfl, if_neg hlast] at h
                exact .inr (.inr (.inr ⟨⟨h0, h1, h2⟩, h⟩))

theorem Rests.not_shifting (h : Rests s) (hs : shifting s) : s.rIdle = false := by
  rw [Bool.eq_false_iff]
  intro hidle
  obtain ⟨h0, h1, -⟩ := shifting_iff.1 hs
  rcases h.state hidle with hst | hst
  · exact h0 hst
  · exact h1 hst

/-- Only the end of a byte strobes. -/
theorem shift_strobe (h : (shift c s i).oStb = true) : (shift c s i).rState = hotIdle := by
  unfold shift at h ⊢
  split_ifs at h ⊢
  rfl

theorem Rests.next (h : Rests s) : Rests (next c s i) where
  divider hidle := by
    rw [next_rIdle, Bool.and_eq_true, Bool.not_eq_true'] at hidle
    rw [next_rZCounter]
    unfold nextClkCounter
    rw [hidle.1]
    rcases shift_idle hidle.2 with ⟨hcs, -⟩ | ⟨-, hz, hacc, hst, -⟩ | ⟨-, hz, hlast, hsh, -⟩ |
      ⟨hsh, hon⟩
    · rw [hcs]
      rfl
    · have hno : ¬(waitState < s.rState) := by
        rcases hst with hst | hst <;> (rw [hst]; decide)
      rw [hacc, hz, decide_eq_false hno]
      split_ifs <;> simp_all
    · have hacc : byteAccepted c s i = false := by
        rw [Bool.eq_false_iff]
        intro hacc
        exact absurd (idle_of_accepted hacc).1 (by simp [h.not_shifting hsh])
      have hlate : waitState < s.rState := hsh
      rw [hacc, hz, h.not_shifting hsh, decide_eq_true hlate, if_pos hlast]
      split_ifs <;> simp_all
    · rw [h.not_shifting hsh] at hon
      exact absurd hon (by decide)
  state hidle := by
    rw [next_rIdle, Bool.and_eq_true] at hidle
    rw [next_rState]
    rcases shift_idle hidle.2 with ⟨-, -, hst⟩ | ⟨-, -, -, hold, hst⟩ | ⟨-, -, -, -, hst⟩ |
      ⟨hsh, hon⟩
    · exact .inl hst
    · rw [hst]
      exact hold
    · exact .inr hst
    · rw [h.not_shifting hsh] at hon
      exact absurd hon (by decide)
  strobe hs := shift_strobe hs

/-- The shifter starts on a byte that it takes. -/
theorem shift_accepted (h : Rests s) (hacc : byteAccepted c s i = true) :
    (shift c s i).rIdle = false ∧ ((shift c s i).rState = startState ∨
      (shift c s i).rState = waitState ∨ (shift c s i).rState = startState + 1) := by
  obtain ⟨hidle, hcs⟩ := idle_of_accepted hacc
  have hz := h.divider hidle
  unfold shift
  rw [hcs, hz, hacc, if_neg (by decide), if_neg (by decide)]
  rcases h.state hidle with hst | hst
  · rw [hst, if_pos (by decide), if_pos rfl]
    refine ⟨rfl, ?_⟩
    dsimp only
    split_ifs
    · exact .inl rfl
    · exact .inr (.inl rfl)
    · exact .inl rfl
  · rw [hst, if_neg (by decide), if_neg (by decide), if_pos (by decide), if_pos rfl]
    exact ⟨rfl, .inr (.inr rfl)⟩

/-- Behind a byte that it takes, the shifter is not idle for two clocks. -/
theorem accepted_twice (h : Rests s) (hacc : byteAccepted c s i = true) (i' i'' : LlIn)
    (hcs : i'.iCs = true) : oIdle c (Llsdspi.next c s i) i' = false ∧
      oIdle c (Llsdspi.next c (Llsdspi.next c s i) i') i'' = false := by
  obtain ⟨hidle, hst⟩ := shift_accepted h hacc
  have hone : (Llsdspi.next c s i).rIdle = false := by
    rw [next_rIdle, hidle, Bool.and_false]
  refine ⟨by rw [oIdle, hone]; rfl, ?_⟩
  have htwo : (shift c (Llsdspi.next c s i) i').rIdle = false := by
    rw [Bool.eq_false_iff]
    intro hon
    rw [next_rState.symm] at hst
    rcases shift_idle hon with ⟨hoff, -⟩ | ⟨-, -, -, hold, -⟩ | ⟨-, -, hlast, -⟩ | ⟨-, hon'⟩
    · rw [hcs] at hoff
      exact absurd hoff (by decide)
    · rcases hst with hst | hst | hst <;> rcases hold with hold | hold <;>
        (rw [hst] at hold; exact absurd hold (by decide))
    · rcases hst with hst | hst | hst <;> (rw [hst] at hlast; exact absurd hlast (by decide))
    · rw [hone] at hon'
      exact absurd hon' (by decide)
  rw [oIdle, next_rIdle, htwo, Bool.and_false]
  rfl

/-- No two strobes stand side by side. -/
theorem oStb_twice (h : Rests s) (hs : s.oStb = true) : (Llsdspi.next c s i).oStb = false := by
  have hst := h.strobe hs
  rw [next_oStb]
  unfold shift
  rw [hst]
  split_ifs <;> first | rfl | simp_all [hotIdle, idleState, waitState]

/-- The byte received stays until the next strobe. -/
theorem oByte_stays (h : (Llsdspi.next c s i).oStb = false) :
    (Llsdspi.next c s i).oByte = s.oByte := by
  rw [next_oStb] at h
  rw [next_oByte]
  unfold shift at h ⊢
  split_ifs at h ⊢ <;> rfl

end Llsdspi

end ZipStormMX.Sdcard
