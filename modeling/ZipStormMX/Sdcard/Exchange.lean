/-
  The bytes that the SD card's shifter exchanges with the card.

  A byte that is taken goes through sixteen edges of the clock, falling and rising in turn: `mosi`
  changes with a falling edge, and `miso` is sampled with a rising one.  The first byte of a transaction
  is taken with the clock at rest, and its first edge comes a divider later; every other one is taken
  with its first edge.  From there on they are alike: `Shifting` says what the registers hold after `p`
  edges, and the divider runs out between any two of them (`remaining`).
-/
import ZipStormMX.Sdcard.Llsdspi

namespace ZipStormMX.Sdcard

namespace Llsdspi

/-- The bits of a byte, the left one first. -/
def bitsOf (w : BitVec 8) : List Bool := (List.range 8).map fun k => w.getLsbD (7 - k)

theorem bitsOf_shift (w : BitVec 8) (d : Bool) :
    bitsOf (w.extractLsb' 0 7 ++ BitVec.ofBool d) = (bitsOf w).tail ++ [d] :=
  (by decide +kernel : ∀ (w : BitVec 8) (d : Bool),
    bitsOf (w.extractLsb' 0 7 ++ BitVec.ofBool d) = (bitsOf w).tail ++ [d]) w d

theorem bitsOf_length (w : BitVec 8) : (bitsOf w).length = 8 := rfl

theorem bitsOf_head (w : BitVec 8) : (bitsOf w)[0]? = some (w.getLsbD 7) := rfl

variable {c : LlCfg} {s : Llsdspi} {i : LlIn}

/-! ## One clock -/

section Selected

variable (harb : c.optSpiArbitration = false) (hhold : s.startupHold = false)
  (hcs : i.iCs = true)

include harb hcs in
theorem oIdle_eq : oIdle c s i = s.rIdle := by
  rw [oIdle, granted, harb, hcs]
  cases s.rIdle <;> rfl

include harb hcs in
theorem accepted_eq : byteAccepted c s i = (i.iStb && s.rIdle) := by
  rw [byteAccepted, oIdle_eq harb hcs]

include hhold

theorem hold_stays : (next c s i).startupHold = false := by
  unfold next startupEdge
  rw [hhold]
  cases c.startupClocks == 0 <;> simp

theorem next_oSclk : (next c s i).oSclk = (shift c s i).oSclk := by
  unfold next
  rw [hhold]
  rfl

theorem rIdle_next : (next c s i).rIdle = (shift c s i).rIdle := by
  unfold next
  rw [hhold]
  rfl

include harb hcs

/-- The divider, once the start up is over. -/
theorem divider_eq : nextClkCounter c s i =
    if byteAccepted c s i then (i.iSpeed, i.iSpeed == 0)
    else if !s.rZCounter then (s.rClkCounter - 1, s.rClkCounter == 1)
    else if waitState < s.rState && !s.rIdle then
      if startState + 8 ≤ s.rState then (0, true) else (i.iSpeed, i.iSpeed == 0)
    else (s.rClkCounter, s.rZCounter) := by
  rw [nextClkCounter, hhold, hcs, granted, harb]
  rfl

end Selected

/-- What the shifter holds after `p` edges of the byte `b`; `l` is what has been sampled. -/
structure Shifting (s : Llsdspi) (b : BitVec 8) (p : ℕ) (l : List Bool) : Prop where
  hold : s.startupHold = false
  le : p ≤ 16
  state : s.rState = BitVec.ofNat 4 (3 + (p + 1) / 2)
  sclk : s.oSclk = decide (p % 2 = 0)
  mosi : p % 2 = 1 → (bitsOf b)[p / 2]? = some s.oMosi
  left : (bitsOf s.rByte).take (8 - (p + 1) / 2) = (bitsOf b).drop ((p + 1) / 2)
  samples : l = (bitsOf s.rIreg).drop (8 - p / 2)
  idle : s.rIdle = false
  strobe : s.oStb = false
  divider : s.rZCounter = (s.rClkCounter == 0)

/-- Between two bytes, or in front of the first one. -/
structure Waiting (s : Llsdspi) : Prop where
  hold : s.startupHold = false
  state : s.rState = idleState ∨ s.rState = hotIdle
  hot : s.rState = hotIdle → s.rIdle = true
  ready : s.rIdle = true → s.rZCounter = true ∧ s.oSclk = true
  divider : s.rZCounter = (s.rClkCounter == 0)

/-- How many clocks a byte may still take. -/
def remaining (s : Llsdspi) (p : ℕ) : ℕ := (16 - p) * 128 + s.rClkCounter.toNat

theorem state_facts : ∀ q < 9, (BitVec.ofNat 4 (3 + q) == idleState) = false ∧
    (BitVec.ofNat 4 (3 + q) == waitState) = false ∧ (BitVec.ofNat 4 (3 + q) == hotIdle) = false ∧
    waitState < BitVec.ofNat 4 (3 + q) ∧
    (startState + 8 ≤ BitVec.ofNat 4 (3 + q) ↔ q = 8) := by
  decide

theorem count_down (v : BitVec 7) : (v == 1) = (v - 1 == 0) := by
  rw [Bool.eq_iff_iff, beq_iff_eq, beq_iff_eq]
  bv_omega

section Step

variable {b : BitVec 8} {p : ℕ} {l : List Bool}

/-- While the divider runs, nothing moves. -/
theorem Shifting.waits (h : Shifting s b p l) (harb : c.optSpiArbitration = false)
    (hcs : i.iCs = true) (hz : s.rZCounter = false) :
    Shifting (next c s i) b p l ∧ remaining (next c s i) p < remaining s p := by
  have hshift : shift c s i =
      { s with
        oStb := false
        oCsN := s.startupHold || !i.iCs
        rIdle := false } := by
    unfold shift
    rw [hcs, hz]
    rfl
  have haccepted : byteAccepted c s i = false := by
    rw [accepted_eq harb hcs, h.idle, Bool.and_false]
  have hdiv : nextClkCounter c s i = (s.rClkCounter - 1, s.rClkCounter == 1) := by
    rw [divider_eq harb h.hold hcs, haccepted, hz]
    rfl
  have hne : s.rClkCounter ≠ 0 := by
    intro hzero
    rw [h.divider, hzero] at hz
    exact absurd hz (by decide)
  have hrun : (next c s i).rZCounter = (s.rClkCounter == 1) ∧
      (next c s i).rClkCounter = s.rClkCounter - 1 := by
    refine ⟨?_, ?_⟩
    · rw [next_rZCounter, hdiv]
    · show (nextClkCounter c s i).1 = _
      rw [hdiv]
  have hless : (s.rClkCounter - 1).toNat + 1 = s.rClkCounter.toNat := by
    have hpos : 0 < s.rClkCounter.toNat := by
      rw [Nat.pos_iff_ne_zero]
      intro hzero
      exact hne (BitVec.eq_of_toNat_eq hzero)
    bv_omega
  refine ⟨⟨hold_stays h.hold, h.le, ?_, ?_, fun hodd => ?_, ?_, ?_, ?_, ?_, ?_⟩, ?_⟩
  · rw [next_rState, hshift]
    exact h.state
  · rw [next_oSclk h.hold, hshift]
    exact h.sclk
  · show _ = some (shift c s i).oMosi
    rw [hshift]
    exact h.mosi hodd
  · show (bitsOf (shift c s i).rByte).take _ = _
    rw [hshift]
    exact h.left
  · show _ = (bitsOf (shift c s i).rIreg).drop _
    rw [hshift]
    exact h.samples
  · rw [rIdle_next h.hold, hshift]
  · rw [next_oStb, hshift]
  · rw [hrun.1, hrun.2, count_down]
  · unfold remaining
    rw [hrun.2]
    omega

/-- An edge loads the divider again, or leaves it at its end behind the last one. -/
theorem Shifting.divider_edge (h : Shifting s b p l) (harb : c.optSpiArbitration = false)
    (hcs : i.iCs = true) (hz : s.rZCounter = true) :
    (next c s i).rZCounter = ((next c s i).rClkCounter == 0) ∧
      (p < 16 → remaining (next c s i) (p + 1) < remaining s p) ∧
      (p = 16 → (next c s i).rZCounter = true) := by
  have haccepted : byteAccepted c s i = false := by
    rw [accepted_eq harb hcs, h.idle, Bool.and_false]
  obtain ⟨-, -, -, hlate, hlast⟩ := state_facts ((p + 1) / 2) (by have := h.le; omega)
  have hdiv : nextClkCounter c s i =
      if startState + 8 ≤ s.rState then (0, true) else (i.iSpeed, i.iSpeed == 0) := by
    rw [divider_eq harb h.hold hcs, haccepted, hz, h.idle, h.state, decide_eq_true hlate]
    rfl
  have hcount : (next c s i).rClkCounter = (nextClkCounter c s i).1 := rfl
  refine ⟨?_, fun hp => ?_, fun hp => ?_⟩
  · rw [next_rZCounter, hcount, hdiv]
    split_ifs <;> rfl
  · have hzero : s.rClkCounter.toNat = 0 := by
      rw [h.divider, beq_iff_eq] at hz
      rw [hz]
      rfl
    have hlt := (next c s i).rClkCounter.isLt
    unfold remaining
    omega
  · rw [next_rZCounter, hdiv, if_pos]
    rw [h.state, hlast]
    omega

/-- The clock falls, with the next bit on `mosi`. -/
theorem Shifting.falls (h : Shifting s b p l) (harb : c.optSpiArbitration = false)
    (hcs : i.iCs = true) (hz : s.rZCounter = true) (heven : p % 2 = 0) (hp : p < 16) :
    Shifting (next c s i) b (p + 1) l := by
  obtain ⟨hidle, hwait, hhot, -, hlast⟩ := state_facts ((p + 1) / 2) (by omega)
  have hsclk : s.oSclk = true := by rw [h.sclk, decide_eq_true heven]
  have hshift : shift c s i =
      { s with
        oStb := false
        oCsN := s.startupHold || !i.iCs
        oMosi := s.rByte.getLsbD 7
        rByte := s.rByte.extractLsb' 0 7 ++ BitVec.ofBool true
        rState := s.rState + 1
        oSclk := false } := by
    unfold shift
    rw [h.state, hcs, hz, hidle, hwait, hhot, hsclk, if_neg (by decide), if_neg (by decide),
      if_neg (by decide), if_neg (by decide), if_neg (by decide), if_pos rfl,
      if_neg (by rw [hlast]; omega)]
    rfl
  have hq : (p + 1 + 1) / 2 = (p + 1) / 2 + 1 := by omega
  refine ⟨hold_stays h.hold, by omega, ?_, ?_, fun _ => ?_, ?_, ?_, ?_, ?_,
    (h.divider_edge harb hcs hz).1⟩
  · rw [next_rState, hshift, hq, ← Nat.add_assoc, BitVec.ofNat_add]
    show s.rState + 1 = _
    rw [h.state]
    rfl
  · rw [next_oSclk h.hold, hshift]
    exact (decide_eq_false (by omega)).symm
  · show _ = some (shift c s i).oMosi
    have hfront := congrArg (fun m => m[0]?) h.left
    simp only [List.getElem?_take, List.getElem?_drop, bitsOf_head] at hfront
    rw [if_pos (by omega)] at hfront
    rw [hshift, hfront]
    exact congrArg (fun k => (bitsOf b)[k]?) (by omega)
  · show (bitsOf (shift c s i).rByte).take _ = _
    rw [hshift]
    show (bitsOf (s.rByte.extractLsb' 0 7 ++ BitVec.ofBool true)).take _ = _
    have htail := congrArg (List.drop 1) h.left
    rw [List.drop_drop, List.drop_take] at htail
    rw [bitsOf_shift, hq, ← List.drop_one, List.take_append_of_le_length (by
      rw [List.length_drop, bitsOf_length]
      omega), ← htail]
    exact congrArg (fun k => ((bitsOf s.rByte).drop 1).take k) (by omega)
  · show _ = (bitsOf (shift c s i).rIreg).drop _
    rw [hshift, h.samples]
    exact congrArg (fun k => (bitsOf s.rIreg).drop k) (by omega)
  · rw [rIdle_next h.hold, hshift]
    exact h.idle
  · rw [next_oStb, hshift]

/-- The clock rises, and `miso` is sampled. -/
theorem Shifting.rises (h : Shifting s b p l) (harb : c.optSpiArbitration = false)
    (hcs : i.iCs = true) (hz : s.rZCounter = true) (hodd : p % 2 = 1) :
    Shifting (next c s i) b (p + 1) (l ++ [i.iMiso]) ∧ (next c s i).oMosi = s.oMosi := by
  have hle := h.le
  obtain ⟨hidle, hwait, hhot, -, hlast⟩ := state_facts ((p + 1) / 2) (by omega)
  have hsclk : s.oSclk = false := by
    rw [h.sclk]
    exact decide_eq_false (by omega)
  have hshift : shift c s i =
      { s with
        oStb := false
        oCsN := s.startupHold || !i.iCs
        rIreg := s.rIreg.extractLsb' 0 7 ++ BitVec.ofBool i.iMiso
        oSclk := true } := by
    unfold shift
    rw [h.state, hcs, hz, hidle, hwait, hhot, hsclk]
    rfl
  have hq : (p + 1 + 1) / 2 = (p + 1) / 2 := by omega
  have hmosi : (next c s i).oMosi = s.oMosi := by
    show (shift c s i).oMosi = _
    rw [hshift]
  refine ⟨⟨hold_stays h.hold, by omega, ?_, ?_, fun hp => absurd hp (by omega), ?_, ?_, ?_, ?_,
    (h.divider_edge harb hcs hz).1⟩, hmosi⟩
  · rw [next_rState, hshift, hq]
    exact h.state
  · rw [next_oSclk h.hold, hshift]
    exact (decide_eq_true (by omega)).symm
  · show (bitsOf (shift c s i).rByte).take _ = _
    rw [hshift, hq]
    exact h.left
  · show _ = (bitsOf (shift c s i).rIreg).drop _
    rw [hshift, h.samples]
    show _ = (bitsOf (s.rIreg.extractLsb' 0 7 ++ BitVec.ofBool i.iMiso)).drop _
    rw [bitsOf_shift, List.drop_append_of_le_length (by
      rw [List.length_tail, bitsOf_length]
      omega), ← List.drop_one, List.drop_drop]
    exact congrArg (fun k => (bitsOf s.rIreg).drop k ++ [i.iMiso]) (by omega)
  · rw [rIdle_next h.hold, hshift]
    exact h.idle
  · rw [next_oStb, hshift]

/-- After the last edge the byte is strobed. -/
theorem Shifting.finishes (h : Shifting s b 16 l) (harb : c.optSpiArbitration = false)
    (hcs : i.iCs = true) (hz : s.rZCounter = true) :
    Waiting (next c s i) ∧ (next c s i).rIdle = true ∧ (next c s i).oStb = true ∧
      bitsOf (next c s i).oByte = l := by
  have hsclk : s.oSclk = true := by
    rw [h.sclk]
    rfl
  have hshift : shift c s i =
      { s with
        oCsN := s.startupHold || !i.iCs
        oMosi := s.rByte.getLsbD 7
        rByte := s.rByte.extractLsb' 0 7 ++ 1#1
        rState := hotIdle
        rIdle := true
        oStb := true
        oByte := s.rIreg
        oSclk := true } := by
    unfold shift
    rw [h.state, hcs, hz, hsclk]
    rfl
  obtain ⟨hdiv, -, hend⟩ := h.divider_edge harb hcs hz
  have hidle : (next c s i).rIdle = true := by rw [rIdle_next h.hold, hshift]
  have hclk : (next c s i).oSclk = true := by rw [next_oSclk h.hold, hshift]
  refine ⟨⟨hold_stays h.hold, ?_, fun _ => hidle, fun _ => ⟨hend rfl, hclk⟩, hdiv⟩, hidle, ?_, ?_⟩
  · right
    rw [next_rState, hshift]
  · rw [next_oStb, hshift]
  · show bitsOf (shift c s i).oByte = l
    rw [hshift, h.samples]
    rfl

/-- A byte is taken, with its first edge if it is not the first one. -/
theorem Waiting.accepts (h : Waiting s) (harb : c.optSpiArbitration = false)
    (hcs : i.iCs = true) (haccepted : byteAccepted c s i = true) :
    s.oSclk = true ∧ ∃ p ≤ 1, Shifting (next c s i) i.iByte p [] := by
  have hidle : s.rIdle = true := (idle_of_accepted haccepted).1
  obtain ⟨hz, hsclk⟩ := h.ready hidle
  have hdiv : nextClkCounter c s i = (i.iSpeed, i.iSpeed == 0) := by
    rw [divider_eq harb h.hold hcs, haccepted]
    rfl
  have hload : (next c s i).rZCounter = ((next c s i).rClkCounter == 0) := by
    show (nextClkCounter c s i).2 = ((nextClkCounter c s i).1 == 0)
    rw [hdiv]
  refine ⟨hsclk, ?_⟩
  rcases h.state with hst | hst
  · have hshift : shift c s i =
        { s with
          oStb := false
          oCsN := s.startupHold || !i.iCs
          oSclk := true
          rByte := i.iByte
          rState := startState
          rIdle := false
          oMosi := i.iByte.getLsbD 7 } := by
      unfold shift
      rw [hcs, hz, hst, haccepted, harb]
      rfl
    refine ⟨0, by decide, hold_stays h.hold, by decide, ?_, ?_, fun hp => absurd hp (by decide),
      ?_, rfl, ?_, ?_, hload⟩
    · rw [next_rState, hshift]
      rfl
    · rw [next_oSclk h.hold, hshift]
      rfl
    · show (bitsOf (shift c s i).rByte).take _ = _
      rw [hshift]
      rfl
    · rw [rIdle_next h.hold, hshift]
    · rw [next_oStb, hshift]
  · have hshift : shift c s i =
        { s with
          oStb := false
          oCsN := s.startupHold || !i.iCs
          oSclk := false
          rByte := i.iByte.extractLsb' 0 7 ++ BitVec.ofBool true
          rState := startState + 1
          rIdle := false
          oMosi := i.iByte.getLsbD 7 } := by
      unfold shift
      rw [hcs, hz, hst, haccepted]
      rfl
    refine ⟨1, by decide, hold_stays h.hold, by decide, ?_, ?_, fun _ => ?_, ?_, rfl, ?_, ?_, hload⟩
    · rw [next_rState, hshift]
      rfl
    · rw [next_oSclk h.hold, hshift]
      rfl
    · show _ = some (shift c s i).oMosi
      rw [hshift]
      rfl
    · show (bitsOf (shift c s i).rByte).take _ = _
      rw [hshift]
      show (bitsOf (i.iByte.extractLsb' 0 7 ++ BitVec.ofBool true)).take _ = _
      rw [bitsOf_shift]
      rfl
    · rw [rIdle_next h.hold, hshift]
    · rw [next_oStb, hshift]

/-- No byte is taken. -/
theorem Waiting.rests (h : Waiting s) (harb : c.optSpiArbitration = false) (hcs : i.iCs = true)
    (haccepted : byteAccepted c s i = false) : Waiting (next c s i) ∧ (next c s i).oStb = false ∧
      (s.oSclk = true → (next c s i).oSclk = true) := by
  have hlow : waitState < s.rState → False := by
    rcases h.state with hst | hst <;> (rw [hst]; decide)
  cases hz : s.rZCounter
  · -- the divider runs, and no byte has come yet
    have hst : s.rState = idleState := by
      refine h.state.resolve_right fun hst => ?_
      rw [(h.ready (h.hot hst)).1] at hz
      exact absurd hz (by decide)
    have hshift : shift c s i =
        { s with
          oStb := false
          oCsN := s.startupHold || !i.iCs
          rIdle := false } := by
      unfold shift
      rw [hcs, hz]
      rfl
    have hdiv : nextClkCounter c s i = (s.rClkCounter - 1, s.rClkCounter == 1) := by
      rw [divider_eq harb h.hold hcs, haccepted, hz]
      rfl
    have hoff : (next c s i).rIdle = false := by rw [rIdle_next h.hold, hshift]
    refine ⟨⟨hold_stays h.hold, .inl ?_, fun hhot => ?_, fun hon => ?_, ?_⟩, ?_, fun hsclk => ?_⟩
    · rw [next_rState, hshift]
      exact hst
    · rw [next_rState, hshift] at hhot
      exact absurd (hst.symm.trans hhot) (by decide)
    · rw [hoff] at hon
      exact absurd hon (by decide)
    · show (nextClkCounter c s i).2 = ((nextClkCounter c s i).1 == 0)
      rw [hdiv, count_down]
    · rw [next_oStb, hshift]
    · rw [next_oSclk h.hold, hshift]
      exact hsclk
  · have hshift : shift c s i =
        { s with
          oStb := false
          oCsN := s.startupHold || !i.iCs
          oSclk := true
          rIdle := true } := by
      unfold shift
      rcases h.state with hst | hst
      · rw [hcs, hz, hst, haccepted, h.hold]
        rfl
      · rw [hcs, hz, hst, haccepted]
        rfl
    have hdiv : nextClkCounter c s i = (s.rClkCounter, s.rZCounter) := by
      rw [divider_eq harb h.hold hcs, haccepted, hz, decide_eq_false hlow]
      rfl
    have hrun : (next c s i).rZCounter = true := by rw [next_rZCounter, hdiv, hz]
    have hclk : (next c s i).oSclk = true := by rw [next_oSclk h.hold, hshift]
    have hon : (next c s i).rIdle = true := by rw [rIdle_next h.hold, hshift]
    refine ⟨⟨hold_stays h.hold, ?_, fun _ => hon, fun _ => ⟨hrun, hclk⟩, ?_⟩, ?_, fun _ => hclk⟩
    · rw [next_rState, hshift]
      exact h.state
    · show (nextClkCounter c s i).2 = ((nextClkCounter c s i).1 == 0)
      rw [hdiv]
      exact h.divider
    · rw [next_oStb, hshift]

/-! ## Before the first byte -/

/-- The divider and its flag agree, the clock rests high, and nothing is taken during the start up. -/
structure Tidy (s : Llsdspi) : Prop where
  divider : s.rZCounter = (s.rClkCounter == 0)
  clock : s.rIdle = true → s.oSclk = true
  hold : s.startupHold = true → s.rState = idleState ∧ s.rIdle = false

theorem tidy_powerUp (h : AtPowerUp c s) : Tidy s where
  divider := by
    rw [h.rZCounter, h.rClkCounter]
    rfl
  clock _ := h.oSclk
  hold _ := ⟨h.rState, h.rIdle⟩

/-- The clock is high wherever the shifter becomes idle. -/
theorem shift_clock (h : Rests s) (hidle : (shift c s i).rIdle = true) :
    (shift c s i).oSclk = true := by
  have hlate := h.not_shifting
  rw [shifting_iff] at hlate
  unfold shift at hidle ⊢
  split_ifs at hidle ⊢ <;> first | rfl | simp_all

theorem hold_before (h : (next c s i).startupHold = true) : s.startupHold = true := by
  by_contra hoff
  rw [Bool.not_eq_true] at hoff
  rw [hold_stays hoff] at h
  exact absurd h (by decide)

/-- Nothing is taken during the start up. -/
theorem shift_hold (hst : s.rState = idleState) (hidle : s.rIdle = false) :
    (shift c s i).rState = idleState := by
  have haccepted : byteAccepted c s i = false := by
    rw [byteAccepted, oIdle, hidle, Bool.false_and, Bool.and_false]
  unfold shift
  rw [hst, haccepted]
  cases i.iCs <;> cases s.rZCounter <;> rfl

theorem Tidy.next (h : Tidy s) (hrests : Rests s) : Tidy (next c s i) where
  divider := by
    show (nextClkCounter c s i).2 = ((nextClkCounter c s i).1 == 0)
    unfold nextClkCounter
    split_ifs
    · rfl
    · rfl
    · exact count_down _
    · rfl
    · rfl
    · exact h.divider
  clock hidle := by
    rw [next_rIdle, Bool.and_eq_true, Bool.not_eq_true'] at hidle
    rw [next_oSclk hidle.1]
    exact shift_clock hrests hidle.2
  hold hhold := by
    obtain ⟨hst, hidle⟩ := h.hold (hold_before hhold)
    refine ⟨?_, ?_⟩
    · rw [next_rState]
      exact shift_hold hst hidle
    · rw [next_rIdle, hold_before hhold]
      rfl

end Step

/-! ## Whole bytes -/

section Runs

variable {s : ℕ → Llsdspi} {x : ℕ → LlIn}

/-- What `g` is at the rising edges of the clock, on `k` clocks from clock `n` on. -/
def atRises (s : ℕ → Llsdspi) (g : ℕ → Bool) (n : ℕ) : ℕ → List Bool
  | 0 => []
  | k + 1 =>
    atRises s g n k ++ if !(s (n + k)).oSclk && (s (n + k + 1)).oSclk then [g (n + k)] else []

/-- The falling edges. -/
def sckFalls (s : ℕ → Llsdspi) (n : ℕ) : ℕ → ℕ
  | 0 => 0
  | k + 1 => sckFalls s n k + if (s (n + k)).oSclk && !(s (n + k + 1)).oSclk then 1 else 0

/-- The byte that is taken on clock `n` is exchanged for the one strobed on clock `m`. -/
structure Exchange (c : LlCfg) (s : ℕ → Llsdspi) (x : ℕ → LlIn) (n m : ℕ) : Prop where
  taken : byteAccepted c (s n) (x n) = true
  later : n < m
  busy : ∀ t, n < t → t < m → oIdle c (s t) (x t) = false
  idle : oIdle c (s m) (x m) = true
  strobe : ∀ t, n < t → t ≤ m → ((s t).oStb = true ↔ t = m)
  falls : sckFalls s n (m - n) = 8
  mosi : atRises s (fun t => (s (t + 1)).oMosi) n (m - n) = bitsOf (x n).iByte
  miso : atRises s (fun t => (x t).iMiso) n (m - n) = bitsOf (s m).oByte
  stable : ∀ t, n ≤ t → t < m → (s t).oSclk = false → (s (t + 1)).oMosi = (s t).oMosi

/-- The byte taken on clock `n` has gone through `p` edges in `d` clocks. -/
structure Under (c : LlCfg) (s : ℕ → Llsdspi) (x : ℕ → LlIn) (n d p : ℕ) : Prop where
  taken : byteAccepted c (s n) (x n) = true
  later : 0 < d
  shifting : Shifting (s (n + d)) (x n).iByte p (atRises s (fun t => (x t).iMiso) n d)
  mosi : atRises s (fun t => (s (t + 1)).oMosi) n d = (bitsOf (x n).iByte).take (p / 2)
  falls : sckFalls s n d = (p + 1) / 2
  busy : ∀ t, n < t → t ≤ n + d → oIdle c (s t) (x t) = false ∧ (s t).oStb = false
  stable : ∀ t, n ≤ t → t < n + d → (s t).oSclk = false → (s (t + 1)).oMosi = (s t).oMosi

theorem Shifting.quiet {s : Llsdspi} {i : LlIn} {b : BitVec 8} {p : ℕ} {l : List Bool}
    (h : Shifting s b p l) : oIdle c s i = false ∧ s.oStb = false :=
  ⟨by rw [oIdle, h.idle, Bool.false_and], h.strobe⟩

section Course

variable (harb : c.optSpiArbitration = false)
  (hstep : ∀ n, s (n + 1) = Llsdspi.next c (s n) (x n)) {n d p : ℕ}

include harb hstep

theorem Waiting.under (h : Waiting (s n)) (hcs : (x n).iCs = true)
    (hacc : byteAccepted c (s n) (x n) = true) : ∃ p, Under c s x n 1 p := by
  obtain ⟨hsclk, p, hp, hshifting⟩ := h.accepts harb hcs hacc
  rw [← hstep] at hshifting
  have hnone : ∀ g, atRises s g n 1 = [] := by
    intro g
    show [] ++ (if !(s n).oSclk && (s (n + 1)).oSclk then [g n] else []) = []
    rw [hsclk]
    rfl
  refine ⟨p, hacc, Nat.one_pos, ?_, ?_, ?_, fun t hnt htn => ?_, fun t hnt htn hlow => ?_⟩
  · rw [hnone]
    exact hshifting
  · rw [hnone, show p / 2 = 0 by omega]
    rfl
  · show 0 + (if (s n).oSclk && !(s (n + 1)).oSclk then 1 else 0) = _
    rw [hsclk, hshifting.sclk]
    have hcases : p = 0 ∨ p = 1 := by omega
    rcases hcases with rfl | rfl <;> rfl
  · obtain rfl : t = n + 1 := by omega
    exact hshifting.quiet
  · obtain rfl : t = n := by omega
    rw [hsclk] at hlow
    exact absurd hlow (by decide)

/-- One clock of a byte: it goes on, with less to come, or it ends. -/
theorem Under.next (h : Under c s x n d p) (hcs : (x (n + d)).iCs = true)
    (hcs' : (x (n + d + 1)).iCs = true) :
    (∃ p', Under c s x n (d + 1) p' ∧ remaining (s (n + d + 1)) p' < remaining (s (n + d)) p) ∨
      Exchange c s x n (n + d + 1) := by
  have hle := h.shifting.le
  have hsclk := h.shifting.sclk
  -- the lists, once the next level of the clock is known
  have hrise : ∀ g, atRises s g n (d + 1) = atRises s g n d ++
      if !(s (n + d)).oSclk && (s (n + d + 1)).oSclk then [g (n + d)] else [] := fun _ => rfl
  have hfall : sckFalls s n (d + 1) = sckFalls s n d +
      if (s (n + d)).oSclk && !(s (n + d + 1)).oSclk then 1 else 0 := rfl
  have hbusy : ∀ {b p' l}, Shifting (s (n + d + 1)) b p' l → ∀ t, n < t → t ≤ n + (d + 1) →
      oIdle c (s t) (x t) = false ∧ (s t).oStb = false := by
    intro b p' l hshifting t hnt htd
    rcases Nat.lt_or_eq_of_le htd with hlt | rfl
    · exact h.busy t hnt (by omega)
    · exact hshifting.quiet
  have hstable : ((s (n + d)).oSclk = false → (s (n + d + 1)).oMosi = (s (n + d)).oMosi) →
      ∀ t, n ≤ t → t < n + d + 1 → (s t).oSclk = false → (s (t + 1)).oMosi = (s t).oMosi := by
    intro hlast t hnt htd
    rcases Nat.lt_or_eq_of_le (Nat.le_of_lt_succ htd) with hlt | rfl
    · exact h.stable t hnt hlt
    · exact hlast
  cases hz : (s (n + d)).rZCounter
  · -- the divider runs
    obtain ⟨hnext, hless⟩ := h.shifting.waits harb hcs hz
    rw [← hstep] at hnext hless
    have hsame : (s (n + d + 1)).oSclk = (s (n + d)).oSclk := by rw [hnext.sclk, hsclk]
    have hnone : ∀ g, atRises s g n (d + 1) = atRises s g n d := by
      intro g
      rw [hrise, hsame]
      cases (s (n + d)).oSclk <;> simp
    refine .inl ⟨p, ⟨h.taken, by omega, ?_, ?_, ?_, hbusy hnext, hstable fun hlow => ?_⟩, hless⟩
    · rw [hnone]
      exact hnext
    · rw [hnone]
      exact h.mosi
    · rw [hfall, hsame, h.falls]
      cases (s (n + d)).oSclk <;> simp
    · have hodd : p % 2 = 1 := by
        rw [hsclk, decide_eq_false_iff_not] at hlow
        omega
      have hbit := hnext.mosi hodd
      rw [h.shifting.mosi hodd] at hbit
      exact (Option.some.inj hbit).symm
  · rcases Nat.mod_two_eq_zero_or_one p with heven | hodd
    · have hhigh : (s (n + d)).oSclk = true := by rw [hsclk, decide_eq_true heven]
      have hnone : ∀ g, atRises s g n (d + 1) = atRises s g n d := by
        intro g
        rw [hrise, hhigh]
        exact List.append_nil _
      rcases Nat.lt_or_eq_of_le hle with hlt | rfl
      · -- a falling edge
        have hnext := h.shifting.falls harb hcs hz heven hlt
        have hless := (h.shifting.divider_edge harb hcs hz).2.1 hlt
        rw [← hstep] at hnext hless
        have hlow : (s (n + d + 1)).oSclk = false := by
          rw [hnext.sclk]
          exact decide_eq_false (by omega)
        refine .inl ⟨p + 1, ⟨h.taken, by omega, ?_, ?_, ?_, hbusy hnext, hstable fun hno => ?_⟩,
          hless⟩
        · rw [hnone]
          exact hnext
        · rw [hnone, h.mosi]
          exact congrArg (fun k => (bitsOf (x n).iByte).take k) (by omega)
        · rw [hfall, hhigh, hlow, h.falls]
          show (p + 1) / 2 + 1 = _
          omega
        · rw [hhigh] at hno
          exact absurd hno (by decide)
      · -- the last one is behind
        obtain ⟨-, hidle, hstrobe, hbyte⟩ := h.shifting.finishes harb hcs hz
        have hclk := ((h.shifting.finishes harb hcs hz).1.ready hidle).2
        rw [← hstep] at hidle hstrobe hbyte hclk
        have hd : n + d + 1 - n = d + 1 := by omega
        refine .inr ⟨h.taken, by omega, fun t hnt htd => (h.busy t hnt (by omega)).1, ?_,
          fun t hnt htd => ?_, ?_, ?_, ?_, hstable fun hno => ?_⟩
        · rw [oIdle_eq harb hcs']
          exact hidle
        · refine ⟨fun hon => ?_, fun heq => heq ▸ hstrobe⟩
          by_contra hne
          rw [(h.busy t hnt (by omega)).2] at hon
          exact absurd hon (by decide)
        · rw [hd, hfall, hhigh, hclk, h.falls]
          rfl
        · rw [hd, hnone, h.mosi]
          rfl
        · rw [hd, hnone, hbyte]
        · rw [hhigh] at hno
          exact absurd hno (by decide)
    · -- a rising edge
      obtain ⟨hnext, hmosi⟩ := h.shifting.rises harb hcs hz hodd
      have hless := (h.shifting.divider_edge harb hcs hz).2.1 (by omega)
      rw [← hstep] at hnext hless hmosi
      have hlow : (s (n + d)).oSclk = false := by
        rw [hsclk]
        exact decide_eq_false (by omega)
      have hhigh : (s (n + d + 1)).oSclk = true := by
        rw [hnext.sclk]
        exact decide_eq_true (by omega)
      have hone : ∀ g, atRises s g n (d + 1) = atRises s g n d ++ [g (n + d)] := by
        intro g
        rw [hrise, hlow, hhigh]
        rfl
      refine .inl ⟨p + 1, ⟨h.taken, by omega, ?_, ?_, ?_, hbusy hnext, hstable fun _ => hmosi⟩, hless⟩
      · rw [hone]
        exact hnext
      · have hbit := h.shifting.mosi hodd
        rw [hone, h.mosi, hmosi, show (p + 1) / 2 = p / 2 + 1 by omega, List.take_add_one, hbit]
        rfl
      · rw [hfall, hlow, h.falls]
        show (p + 1) / 2 + 0 = _
        omega

/-- A byte that is under way ends. -/
theorem Under.ends (hcs : ∀ t, n ≤ t → (x t).iCs = true) : ∀ k d p, Under c s x n d p →
    remaining (s (n + d)) p < k → ∃ m, n + d < m ∧ Exchange c s x n m := by
  intro k
  induction k with
  | zero => exact fun d p _ hlt => absurd hlt (Nat.not_lt_zero _)
  | succ k ih =>
    intro d p h hlt
    rcases h.next harb hstep (hcs _ (by omega)) (hcs _ (by omega)) with ⟨p', hunder, hless⟩ | hdone
    · have hless' : remaining (s (n + (d + 1))) p' < k :=
        Nat.lt_of_lt_of_le hless (Nat.le_of_lt_succ hlt)
      obtain ⟨m, hm, hexchange⟩ := ih (d + 1) p' hunder hless'
      exact ⟨m, by omega, hexchange⟩
    · exact ⟨n + d + 1, by omega, hdone⟩

end Course

/-! ## Whole transactions -/

/-- A transaction begins on clock `T`: the start up is over, and the card is selected from then on, but
    not before, unless that was during the start up. -/
structure Begins (s : ℕ → Llsdspi) (x : ℕ → LlIn) (T : ℕ) : Prop where
  started : (s T).startupHold = false
  held : ∀ t, T ≤ t → (x t).iCs = true
  fresh : T = 0 ∨ (x (T - 1)).iCs = false ∨ (s (T - 1)).startupHold = true

theorem rests_at (h0 : AtPowerUp c (s 0)) (hstep : ∀ n, s (n + 1) = next c (s n) (x n)) :
    ∀ n, Rests (s n) ∧ Tidy (s n) := by
  intro n
  induction n with
  | zero => exact ⟨rests_powerUp h0, tidy_powerUp h0⟩
  | succ n ih =>
    rw [hstep]
    exact ⟨ih.1.next, ih.2.next ih.1⟩

theorem Begins.idle {T : ℕ} (h : Begins s x T) (h0 : AtPowerUp c (s 0))
    (hstep : ∀ n, s (n + 1) = next c (s n) (x n)) : (s T).rState = idleState := by
  cases T with
  | zero => exact h0.rState
  | succ T =>
    rw [hstep, next_rState]
    rcases h.fresh with hzero | hcs | hhold
    · exact absurd hzero (by omega)
    · rw [Nat.add_sub_cancel] at hcs
      unfold shift
      rw [hcs]
      rfl
    · obtain ⟨hst, hidle⟩ := (rests_at h0 hstep T).2.hold hhold
      exact shift_hold hst hidle

section Transaction

variable {T : ℕ} (harb : c.optSpiArbitration = false) (h0 : AtPowerUp c (s 0))
  (hstep : ∀ n, s (n + 1) = next c (s n) (x n)) (hbegins : Begins s x T)

include harb h0 hstep hbegins

/-- On every clock a byte is under way, or the shifter waits; it strobes at the end of a byte. -/
theorem course : ∀ t, T ≤ t →
    (Waiting (s t) ∧ ((s t).oStb = true → ∃ n, T ≤ n ∧ Exchange c s x n t)) ∨
      ∃ n d p, T ≤ n ∧ n + d = t ∧ Under c s x n d p := by
  intro t ht
  induction t, ht using Nat.le_induction with
  | base =>
    obtain ⟨hrests, htidy⟩ := rests_at h0 hstep T
    have hst := hbegins.idle h0 hstep
    refine .inl ⟨⟨hbegins.started, .inl hst, fun hhot => ?_, fun hidle => ?_, htidy.divider⟩, ?_⟩
    · exact absurd (hst.symm.trans hhot) (by decide)
    · exact ⟨hrests.divider hidle, htidy.clock hidle⟩
    · intro hstb
      exact absurd (hst.symm.trans (hrests.strobe hstb)) (by decide)
  | succ t ht ih =>
    have hcs := hbegins.held t ht
    rcases ih with ⟨hwaiting, -⟩ | ⟨n, d, p, hn, rfl, hunder⟩
    · cases hacc : byteAccepted c (s t) (x t)
      · obtain ⟨hnext, hquiet, -⟩ := hwaiting.rests harb hcs hacc
        rw [← hstep] at hnext hquiet
        refine .inl ⟨hnext, fun hstb => ?_⟩
        rw [hquiet] at hstb
        exact absurd hstb (by decide)
      · obtain ⟨p, hunder⟩ := hwaiting.under harb hstep hcs hacc
        exact .inr ⟨t, 1, p, ht, rfl, hunder⟩
    · rcases hunder.next harb hstep hcs (hbegins.held _ (by omega)) with ⟨p', hnext, -⟩ | hdone
      · exact .inr ⟨n, d + 1, p', hn, rfl, hnext⟩
      · refine .inl ⟨?_, fun _ => ⟨n, hn, hdone⟩⟩
        obtain ⟨hrests, htidy⟩ := rests_at h0 hstep (n + d + 1)
        have hidle : (s (n + d + 1)).rIdle = true := by
          have hon := hdone.idle
          rwa [oIdle_eq harb (hbegins.held _ (by omega))] at hon
        refine ⟨?_, hrests.state hidle, fun _ => hidle,
          fun _ => ⟨hrests.divider hidle, htidy.clock hidle⟩, htidy.divider⟩
        rw [hstep]
        exact hold_stays hunder.shifting.hold

/-- **Whole bytes.**  In a transaction, every byte that is taken is exchanged for one from the card,
    every strobe and every falling edge of the clock belongs to such a byte. -/
theorem exchanges_bytes :
    (∀ n, T ≤ n → byteAccepted c (s n) (x n) = true → ∃ m, Exchange c s x n m) ∧
    (∀ m, T ≤ m → (s m).oStb = true → ∃ n, T ≤ n ∧ Exchange c s x n m) ∧
    (∀ t, T ≤ t → (s t).oSclk = true → (s (t + 1)).oSclk = false →
      ∃ n m, T ≤ n ∧ n ≤ t ∧ t < m ∧ Exchange c s x n m) := by
  have hends : ∀ n d p, T ≤ n → Under c s x n d p → ∃ m, n + d < m ∧ Exchange c s x n m :=
    fun n d p hn hunder => Under.ends harb hstep (fun t ht => hbegins.held t (by omega)) _ d p hunder
      (Nat.lt_succ_self _)
  refine ⟨fun n hn hacc => ?_, fun m hm hstb => ?_, fun t ht hhigh hlow => ?_⟩
  · have hidle : oIdle c (s n) (x n) = true := by
      rw [byteAccepted, Bool.and_eq_true] at hacc
      exact hacc.2
    rcases course harb h0 hstep hbegins n hn with ⟨hwaiting, -⟩ | ⟨n', d, p, -, rfl, hunder⟩
    · obtain ⟨p, hunder⟩ := hwaiting.under harb hstep (hbegins.held n hn) hacc
      obtain ⟨m, -, hexchange⟩ := hends n 1 p hn hunder
      exact ⟨m, hexchange⟩
    · rw [(hunder.busy _ (by have := hunder.later; omega) (Nat.le_refl _)).1] at hidle
      exact absurd hidle (by decide)
  · rcases course harb h0 hstep hbegins m hm with ⟨-, hfrom⟩ | ⟨n, d, p, -, rfl, hunder⟩
    · exact hfrom hstb
    · rw [hunder.shifting.strobe] at hstb
      exact absurd hstb (by decide)
  · rcases course harb h0 hstep hbegins t ht with ⟨hwaiting, -⟩ | ⟨n, d, p, hn, rfl, hunder⟩
    · cases hacc : byteAccepted c (s t) (x t)
      · have hstays := (hwaiting.rests harb (hbegins.held t ht) hacc).2.2 hhigh
        rw [← hstep, hlow] at hstays
        exact absurd hstays (by decide)
      · obtain ⟨p, hunder⟩ := hwaiting.under harb hstep (hbegins.held t ht) hacc
        obtain ⟨m, hm, hexchange⟩ := hends t 1 p ht hunder
        exact ⟨t, m, ht, Nat.le_refl t, by omega, hexchange⟩
    · obtain ⟨m, hm, hexchange⟩ := hends n d p hn hunder
      exact ⟨n, m, hn, by omega, hm, hexchange⟩

end Transaction

end Runs

/-- One byte is offered, from the first clock on. -/
def oneByte : LlIn := ⟨1, true, true, 0xa5, true, true⟩

theorem exchanges_bytes_one :
    ∃ m, Exchange ⟨0, false⟩ (Clocked.run (next ⟨0, false⟩) (poweredUp ⟨0, false⟩) fun _ => oneByte)
      (fun _ => oneByte) 1 m :=
  (exchanges_bytes rfl (atPowerUp_poweredUp ⟨0, false⟩) (fun _ => rfl)
    ⟨rfl, fun _ _ => rfl, .inl rfl⟩).1 1 (Nat.zero_le 1) (by decide +kernel)

end Llsdspi

end ZipStormMX.Sdcard
