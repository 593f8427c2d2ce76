/-
  The flash controller and a serial flash: every read returns the word that the flash holds.

  The crux is one invariant for the controller and the flash together.  `ack_delay` counts the
  clocks of SCK that are still to come, so it says where in the command or in the data both of them
  are: while it is above 32 the bits of the command go out (`Sending`), and from 32 on the bits of
  the word come in (`Receiving`).  A read that goes on where the last one ended is a `Receiving`
  whose flash has been left alone, with its address moved on by a word.

  * `SerialFlash`   the flash: it takes a command and an address, and then gives bits without end;
  * `Control`       what holds of the controller alone;
  * `reads_flash`   the two together serve their master.
-/
import ZipStormMX.Pipelined
import ZipStormMX.Flash.Spixpress

namespace ZipStormMX.Flash

variable {AW : ℕ}

/-! ## The flash -/

/-- The flash while it is selected: the clocks of SCK it has seen, and the first 32 bits they
    brought.  Of its commands only the read is of interest here. -/
structure SerialFlash where
  count : ℕ
  shifter : BitVec 32
  deriving DecidableEq, Repr

namespace SerialFlash

/-- One clock.  The flash is deselected by CS_n, and takes a bit with each pulse of SCK. -/
def next (f : SerialFlash) (csN sck mosi : Bool) : SerialFlash :=
  if csN then ⟨0, 0⟩
  else if sck then
    ⟨f.count + 1,
      if f.count < 32 then f.shifter.extractLsb' 0 31 ++ BitVec.ofBool mosi else f.shifter⟩
  else f

/-- The flash has been told to read, and drives its output. -/
def reads (f : SerialFlash) : Bool := decide (32 ≤ f.count) && f.shifter.extractLsb' 24 8 == 0x03

/-- The bit it gives: from the byte at the address on, the top bit of a byte first, and at its end
    from the start again. -/
def out (f : SerialFlash) (mem : BitVec (AW + 2) → BitVec 8) : Bool :=
  (mem (f.shifter.setWidth (AW + 2) + BitVec.ofNat (AW + 2) ((f.count - 32) / 8))).getLsbD
    (7 - (f.count - 32) % 8)

end SerialFlash

/-- The big-endian word at a word address. -/
def wordAt (mem : BitVec (AW + 2) → BitVec 8) (a : BitVec AW) : BitVec 32 :=
  mem (a ++ 0#2) ++ mem (a ++ 1#2) ++ mem (a ++ 2#2) ++ mem (a ++ 3#2)

/-- The top bit of a word is the top bit of its first byte. -/
theorem getLsbD_wordAt (mem : BitVec (AW + 2) → BitVec 8) (a : BitVec AW) {k : ℕ} (hk : k < 32) :
    (wordAt mem a).getLsbD (31 - k) =
      (mem (a ++ BitVec.ofNat 2 (k / 8))).getLsbD (7 - k % 8) := by
  rw [wordAt, BitVec.getLsbD_append, BitVec.getLsbD_append, BitVec.getLsbD_append]
  have hcases : k / 8 = 0 ∨ k / 8 = 1 ∨ k / 8 = 2 ∨ k / 8 = 3 := by omega
  rcases hcases with h | h | h | h
  · rw [if_neg (by omega), if_neg (by omega), if_neg (by omega), h]
    congr 1
    omega
  · rw [if_neg (by omega), if_neg (by omega), if_pos (by omega), h]
    congr 1
    omega
  · rw [if_neg (by omega), if_pos (by omega), h]
    congr 1
    omega
  · rw [if_pos (by omega), h]
    congr 1
    omega

/-- A byte in a word, `j` words on. -/
theorem byte_address (x : BitVec (AW + 2)) (a : BitVec AW) {j m : ℕ} (hm : m < 4)
    (h : x + BitVec.ofNat (AW + 2) (4 * j) = a ++ 0#2) :
    x + BitVec.ofNat (AW + 2) (4 * j + m) = a ++ BitVec.ofNat 2 m := by
  rw [BitVec.ofNat_add, ← BitVec.add_assoc, h]
  apply BitVec.eq_of_toNat_eq
  rw [BitVec.toNat_add, BitVec.toNat_append, BitVec.toNat_append, BitVec.toNat_ofNat,
    BitVec.toNat_ofNat, BitVec.toNat_ofNat, Nat.zero_mod, Nat.or_zero, Nat.shiftLeft_eq,
    Nat.mod_eq_of_lt (show m < 2 ^ 2 by omega)]
  have ha := a.isLt
  have hpow : 2 ^ (AW + 2) = 2 ^ AW * 2 ^ 2 := Nat.pow_add 2 AW 2
  have hm' : m < 2 ^ (AW + 2) := by
    have := Nat.one_le_two_pow (n := AW)
    omega
  rw [Nat.mod_eq_of_lt hm', Nat.mul_comm a.toNat,
    ← Nat.two_pow_add_eq_or_of_lt (show m < 2 ^ 2 by omega), Nat.mod_eq_of_lt (by omega)]

/-- Shifting in the next bit of `w`, of which `k` bits have come, the top one first. -/
theorem shift_in {x w : BitVec 32} {k : ℕ} (hk : k < 32)
    (h : ∀ b < k, x.getLsbD b = w.getLsbD (32 - k + b)) {bit : Bool}
    (hbit : bit = w.getLsbD (31 - k)) :
    ∀ b < k + 1, (x.extractLsb' 0 31 ++ BitVec.ofBool bit).getLsbD b =
      w.getLsbD (32 - (k + 1) + b) := by
  intro b hb
  rw [BitVec.getLsbD_append]
  rcases Nat.eq_zero_or_pos b with rfl | hpos
  · rw [if_pos Nat.one_pos, BitVec.getLsbD_ofBool, hbit]
    simp only [decide_true, Bool.true_and, Nat.add_zero]
    congr 1
    omega
  · rw [if_neg (by omega), BitVec.getLsbD_extractLsb', decide_eq_true (by omega), Bool.true_and,
      Nat.zero_add, h _ (by omega)]
    congr 1
    omega

/-! ## The controller alone -/

namespace Spixpress

variable {c : SpixCfg} {s : Spixpress AW} {i i' : SpixIn AW}

/-- A request of the bus: to the flash or to the control port. -/
def asks (i : SpixIn AW) : Bool := i.iWbStb || i.iCfgStb

/-- The bus holds on. -/
def held (i : SpixIn AW) : Bool := i.iWbCyc && !i.iReset

/-- A request is taken. -/
def takes (s : Spixpress AW) (i : SpixIn AW) : Bool := held i && asks i && !s.oWbStall

/-- What the master does in one clock: it strobes within its cycle, one port at a time, and keeps up
    a request that is stalled for as long as it holds on. -/
structure Polite (s : Spixpress AW) (i i' : SpixIn AW) : Prop where
  cyc : asks i = true → i.iWbCyc = true
  one : (i.iWbStb && i.iCfgStb) = false
  keeps : asks i = true → s.oWbStall = true → i'.iWbCyc = true →
    i'.iWbStb = i.iWbStb ∧ i'.iCfgStb = i.iCfgStb ∧ i'.iWbWe = i.iWbWe ∧ i'.iWbAddr = i.iWbAddr

/-- The clocks of SCK that are still to come. -/
def delay (s : Spixpress AW) : ℕ := s.ackDelay.toNat

theorem delay_next : delay (next c s i) =
    if i.iReset || !i.iWbCyc then 0
    else if busRequest s i then if s.oSpiCsN || !c.optPipe then 65 else 32
    else if userRequest c s i then 9
    else delay s - 1 := by
  have hlt := s.ackDelay.isLt
  show (nextAckDelay c s i).toNat = _
  rw [nextAckDelay]
  split
  · rfl
  · split
    · split <;> rfl
    · split
      · rfl
      · split
        · rename_i h
          have hne : s.ackDelay ≠ 0 := by simpa using h
          have hpos : s.ackDelay.toNat ≠ 0 := fun h0 =>
            hne (BitVec.eq_of_toNat_eq (by simpa using h0))
          show (2 ^ 7 - 1 + s.ackDelay.toNat) % 2 ^ 7 = s.ackDelay.toNat - 1
          omega
        · rename_i h
          have h0 : s.ackDelay = 0 := by simpa using h
          rw [delay, h0]
          rfl

/-- The comparisons of `ack_delay`. -/
theorem ackDelay_beq (k : ℕ) (hk : k < 128) :
    (s.ackDelay == BitVec.ofNat 7 k) = decide (delay s = k) := by
  rw [delay, Bool.eq_iff_iff, beq_iff_eq, decide_eq_true_iff]
  constructor
  · intro h
    rw [h, BitVec.toNat_ofNat, Nat.mod_eq_of_lt hk]
  · intro h
    apply BitVec.eq_of_toNat_eq
    rw [h, BitVec.toNat_ofNat, Nat.mod_eq_of_lt hk]

theorem ackDelay_gt (k : ℕ) (hk : k < 128) :
    decide (s.ackDelay > BitVec.ofNat 7 k) = decide (k < delay s) := by
  rw [Bool.eq_iff_iff, decide_eq_true_iff, decide_eq_true_iff, gt_iff_lt, BitVec.lt_def,
    BitVec.toNat_ofNat, Nat.mod_eq_of_lt hk, delay]

/-- What holds of the controller, whatever the flash does. -/
structure Control (c : SpixCfg) (s : Spixpress AW) (i : SpixIn AW) : Prop where
  le : delay s ≤ 65
  user : s.cfgUserMode = true → delay s ≤ 9
  idle : delay s = 0 → s.oWbStall = false
  stall : 1 < delay s → s.oWbStall = true
  sck : s.oSpiSck = (decide (1 < delay s) || (decide (delay s = 1) && !s.oWbStall))
  csN : s.oSpiCsN = !(s.cfgUserMode || decide (delay s ≠ 0))
  /-- The last clock of a read takes the next read, if that was announced. -/
  last : delay s = 1 → s.oWbStall = false → s.cfgUserMode = false ∧ c.optPipe = true ∧
    (held i = true → i.iWbStb = true ∧ i.iWbWe = false ∧ i.iWbAddr = s.rNextAddr)

/-! ### What one clock does

The bus lets go, a read or a byte for the port is taken, the port is closed, or time passes. -/

theorem no_request (hp : Polite s i i') (h : i.iWbCyc = false) :
    i.iWbStb = false ∧ i.iCfgStb = false := by
  have hasks : asks i = false := by
    cases ha : asks i
    · rfl
    · rw [hp.cyc ha] at h
      cases h
  simpa [asks] using hasks

/-- The bus lets go. -/
theorem next_dropped (hp : Polite s i i') (h : held i = false) :
    delay (next c s i) = 0 ∧ (next c s i).oWbStall = false ∧ (next c s i).oSpiSck = false ∧
      (next c s i).oWbAck = false ∧
      (next c s i).oSpiCsN = !(next c s i).cfgUserMode := by
  have hd : (i.iReset || !i.iWbCyc) = true := by
    cases hr : i.iReset
    · cases hc : i.iWbCyc
      · rfl
      · rw [held, hr, hc] at h
        cases h
    · rfl
  refine ⟨by rw [delay_next, if_pos hd], ?_, ?_, ?_, ?_⟩
  · show nextWbStall c s i = false
    rw [nextWbStall, if_pos hd]
  all_goals
    cases hr : i.iReset
    · have hcyc : i.iWbCyc = false := by simpa [hr] using hd
      obtain ⟨hstb, hcfg⟩ := no_request hp hcyc
      cases hu : s.cfgUserMode <;>
        simp [hu, next, nextSpiSck, nextWbAck, nextSpiCsN, nextUserMode, hr, hcyc, hstb, hcfg,
          busRequest, userRequest, cfgWrite, nextRequest]
    · simp [next, nextSpiSck, nextWbAck, nextSpiCsN, nextUserMode, hr]

theorem held_pins (h : held i = true) : i.iWbCyc = true ∧ i.iReset = false := by
  simpa [held] using h

/-- A read is taken. -/
theorem next_busRequest (hp : Polite s i i') (hh : held i = true) (h : busRequest s i = true) :
    delay (next c s i) = (if s.oSpiCsN || !c.optPipe then 65 else 32) ∧
      (next c s i).oWbStall = true ∧ (next c s i).oSpiSck = true ∧
      (next c s i).oSpiCsN = false ∧ (next c s i).cfgUserMode = false := by
  obtain ⟨hc, hr⟩ := held_pins hh
  have hpins : ((i.iWbStb = true ∧ s.oWbStall = false) ∧ i.iWbWe = false) ∧
      s.cfgUserMode = false := by simpa [busRequest] using h
  have hone := hp.one
  rw [hpins.1.1.1, Bool.true_and] at hone
  refine ⟨?_, ?_, ?_, ?_, ?_⟩
  · rw [delay_next, hr, hc, h]
    rfl
  · simp [next, nextWbStall, hr, hc, h]
  · simp [next, nextSpiSck, hr, h]
  · simp [next, nextSpiCsN, hr, hc, h]
  · simp [next, nextUserMode, hr, cfgWrite, hone, hpins]

/-- A byte for the port is taken. -/
theorem next_userRequest (hp : Polite s i i') (hh : held i = true)
    (h : userRequest c s i = true) :
    delay (next c s i) = 9 ∧ (next c s i).oWbStall = true ∧ (next c s i).oSpiSck = true ∧
      (next c s i).oSpiCsN = false ∧ (next c s i).cfgUserMode = true := by
  obtain ⟨hc, hr⟩ := held_pins hh
  have hpins : (((c.optCfg = true ∧ i.iCfgStb = true) ∧ s.oWbStall = false) ∧ i.iWbWe = true) ∧
      i.iWbData.getLsbD 8 = false := by simpa [userRequest] using h
  have hone := hp.one
  rw [hpins.1.1.1.2, Bool.and_true] at hone
  have hbus : busRequest s i = false := by simp [busRequest, hone]
  have hbit : i.iWbData[8] = false := hpins.2
  refine ⟨?_, ?_, ?_, ?_, ?_⟩
  · rw [delay_next, hr, hc, hbus, h]
    rfl
  · simp [next, nextWbStall, hr, hc, h]
  · simp [next, nextSpiSck, hr, h]
  · simp [next, nextSpiCsN, hr, hc, hbus, cfgWrite, hpins, hbit]
  · simp [next, nextUserMode, hr, cfgWrite, hpins, hbit]

/-- Nothing is taken that takes time.  The port may be closed, or a request that is not for the
    flash may be answered. -/
theorem next_passing (hp : Polite s i i') (hk : Control c s i) (hh : held i = true)
    (hbus : busRequest s i = false) (huser : userRequest c s i = false) :
    delay (next c s i) = delay s - 1 ∧
      (next c s i).oWbStall =
        (decide (1 < delay s) && !(nextRequest c s i && decide (delay s = 2))) ∧
      (next c s i).oSpiSck =
        (decide (2 < delay s) || (nextRequest c s i && decide (delay s = 2))) ∧
      (next c s i).oSpiCsN = !((next c s i).cfgUserMode || decide (1 < delay s)) ∧
      ((next c s i).cfgUserMode = true → s.cfgUserMode = true) ∧
      (0 < delay s → (next c s i).cfgUserMode = s.cfgUserMode) := by
  obtain ⟨hc, hr⟩ := held_pins hh
  have hclose : cfgWrite c s i = true → i.iWbData.getLsbD 8 = true ∧ delay s = 0 := by
    intro hw
    have hpins : ((c.optCfg = true ∧ i.iCfgStb = true) ∧ s.oWbStall = false) ∧ i.iWbWe = true := by
      simpa [cfgWrite] using hw
    have hbit : i.iWbData.getLsbD 8 = true := by simpa [userRequest, hpins] using huser
    refine ⟨hbit, ?_⟩
    rcases Nat.lt_trichotomy (delay s) 1 with hd | hd | hd
    · omega
    · have hstb := ((hk.last hd hpins.1.2).2.2 hh).1
      have hone := hp.one
      rw [hstb, hpins.1.1.2] at hone
      cases hone
    · rw [hk.stall hd] at hpins
      exact absurd hpins.1.2 Bool.true_eq_false_eq_False
  refine ⟨?_, ?_, ?_, ?_, ?_, ?_⟩
  · rw [delay_next, hr, hc, hbus, huser]
    rfl
  · have h2 : (s.ackDelay == (2 : BitVec 7)) = decide (delay s = 2) := ackDelay_beq 2 (by omega)
    have h1 : decide (s.ackDelay > (1 : BitVec 7)) = decide (1 < delay s) :=
      ackDelay_gt 1 (by omega)
    show nextWbStall c s i = _
    rw [nextWbStall, hr, hc, hbus, huser, h2, h1]
    cases nextRequest c s i && decide (delay s = 2) <;> simp
  · have h2 : (s.ackDelay == (2 : BitVec 7)) = decide (delay s = 2) := ackDelay_beq 2 (by omega)
    have h1 : decide (s.ackDelay > (2 : BitVec 7)) = decide (2 < delay s) :=
      ackDelay_gt 2 (by omega)
    show nextSpiSck c s i = _
    rw [nextSpiSck, hr, hc, hbus, huser, h2, h1]
    cases nextRequest c s i && decide (delay s = 2) <;> cases decide (2 < delay s) <;> simp
  · have h1 : (s.ackDelay == (1 : BitVec 7)) = decide (delay s = 1) := ackDelay_beq 1 (by omega)
    show nextSpiCsN c s i = !(nextUserMode c s i || _)
    rw [nextSpiCsN, nextUserMode, hr, hc, hbus, h1]
    cases hw : cfgWrite c s i
    · cases hu : s.cfgUserMode
      · have hcs := hk.csN
        rw [hu, Bool.false_or] at hcs
        by_cases hd : delay s = 1
        · simp [hd]
        · rw [hcs]
          have heq : decide (1 < delay s) = decide (delay s ≠ 0) := by
            rw [decide_eq_decide]
            omega
          simp [hd, heq]
      · simp
    · obtain ⟨hbit, hd⟩ := hclose hw
      rw [hbit, hd]
      simp
  · intro hu
    have hu' : nextUserMode c s i = true := hu
    rw [nextUserMode, hr] at hu'
    cases hw : cfgWrite c s i
    · simpa [hw] using hu'
    · rw [(hclose hw).1, hw] at hu'
      simp at hu'
  · intro hpos
    show nextUserMode c s i = _
    have hw : cfgWrite c s i = false := by
      cases hw : cfgWrite c s i
      · rfl
      · have := (hclose hw).2
        omega
    rw [nextUserMode, hr, hw]
    rfl

theorem control_next (hp : Polite s i i') (hk : Control c s i) : Control c (next c s i) i' := by
  cases hh : held i
  · obtain ⟨hd, hst, hsck, -, hcs⟩ := @next_dropped AW c s i i' hp hh
    exact {
      le := by omega
      user := fun _ => by omega
      idle := fun _ => hst
      stall := fun h => by omega
      sck := by simp [hsck, hd]
      csN := by simp [hcs, hd]
      last := fun h => by omega }
  · cases hbus : busRequest s i
    · cases huser : userRequest c s i
      · obtain ⟨hd, hst, hsck, hcs, humode, hukeep⟩ := next_passing hp hk hh hbus huser
        have hle := hk.le
        exact {
          le := by omega
          user := fun h => by
            have := hk.user (humode h)
            omega
          idle := fun h => by
            have h1 : ¬ 1 < delay s := by omega
            simp [hst, h1]
          stall := fun h => by
            have h1 : 1 < delay s := by omega
            have h2 : delay s ≠ 2 := by omega
            simp [hst, h1, h2]
          sck := by
            rw [hsck, hst, hd]
            by_cases h2 : delay s = 2
            · simp [h2]
            · have h3 : decide (2 < delay s) = decide (1 < delay s - 1) := by
                rw [decide_eq_decide]
                omega
              have h1 : delay s - 1 ≠ 1 := by omega
              simp [h2, h3, h1]
          csN := by
            have h1 : decide (1 < delay s) = decide (delay s - 1 ≠ 0) := by
              rw [decide_eq_decide]
              omega
            rw [hcs, hd, h1]
          last := fun h hstall => by
            have h2 : delay s = 2 := by omega
            have hs := hk.stall (by omega)
            have hreq : nextRequest c s i = true := by simpa [hst, h2] using hstall
            have hpins : (((c.optPipe = true ∧ i.iWbStb = true) ∧ i.iWbWe = false) ∧
                s.cfgUserMode = false) ∧ i.iWbAddr = nextAddr c s := by
              simpa [nextRequest] using hreq
            obtain ⟨⟨⟨⟨hpipe, hstb⟩, hwe⟩, hu⟩, haddr⟩ := hpins
            refine ⟨by rw [hukeep (by omega), hu], hpipe, fun hh' => ?_⟩
            have hasks : asks i = true := by simp [asks, hstb]
            obtain ⟨k1, -, k3, k4⟩ := hp.keeps hasks hs (held_pins hh').1
            refine ⟨by rw [k1, hstb], by rw [k3, hwe], ?_⟩
            rw [k4, haddr, nextAddr, if_pos hpipe]
            show s.rNextAddr = if !s.oWbStall then i.iWbAddr + 1 else s.rNextAddr
            rw [hs]
            rfl }
      · obtain ⟨hd, hst, hsck, hcs, hu⟩ := next_userRequest hp hh huser
        exact {
          le := by omega
          user := fun _ => by omega
          idle := fun h => by omega
          stall := fun _ => hst
          sck := by simp [hsck, hd]
          csN := by simp [hcs, hu]
          last := fun h => by omega }
    · obtain ⟨hd, hst, hsck, hcs, hu⟩ := @next_busRequest AW c s i i' hp hh hbus
      have hrange : 32 ≤ delay (next c s i) ∧ delay (next c s i) ≤ 65 := by
        rw [hd]
        split <;> omega
      exact {
        le := hrange.2
        user := fun h => by
          rw [hu] at h
          cases h
        idle := fun h => by omega
        stall := fun _ => hst
        sck := by
          have h1 : 1 < delay (next c s i) := by omega
          simp [hsck, h1]
        csN := by
          have h1 : delay (next c s i) ≠ 0 := by omega
          simp [hcs, h1]
        last := fun h => by omega }

theorem control_powerUp (h : AtPowerUp s) : Control c s i := by
  have hd : delay s = 0 := by rw [delay, h.ackDelay]; rfl
  exact {
    le := by omega
    user := fun _ => by omega
    idle := fun _ => h.stall
    stall := fun h => by omega
    sck := by simp [h.sck, hd]
    csN := by simp [h.csN, h.userMode, hd]
    last := fun h => by omega }

/-! ## The controller and the flash

`a` is the address that is read, and `pulse` tells whether SCK pulses on this clock: one clock after
`o_spi_sck`, as the pins delay it. -/

/-- The 32 bits that ask for a word. -/
def command (a : BitVec AW) : BitVec 32 := 0x03#8 ++ (a ++ 0#2).setWidth 24

theorem command_read (a : BitVec AW) : (command a).extractLsb' 24 8 = 0x03#8 := by
  rw [command, BitVec.extractLsb'_append_eq_left]

theorem command_address (hAW : AW ≤ 22) (a : BitVec AW) :
    (command a).setWidth (AW + 2) = a ++ 0#2 := by
  apply BitVec.eq_of_getLsbD_eq
  intro b hb
  rw [BitVec.getLsbD_setWidth, decide_eq_true hb, Bool.true_and, command, BitVec.getLsbD_append,
    if_pos (by omega), BitVec.getLsbD_setWidth, decide_eq_true (by omega : b < 24), Bool.true_and]

variable {mem : BitVec (AW + 2) → BitVec 8} {a : BitVec AW} {f : SerialFlash} {pulse : Bool}

/-- The command is on its way: the controller has what is still to go, the flash what has come. -/
structure Sending (a : BitVec AW) (s : Spixpress AW) (f : SerialFlash) (pulse : Bool) : Prop where
  more : 32 < delay s
  le : delay s ≤ 65
  pipe : ∀ b, 65 - delay s ≤ b → b ≤ 32 →
    s.wdataPipe.getLsbD b = (command a).getLsbD (b - (65 - delay s))
  pulses : pulse = decide (delay s < 65)
  count : f.count = 64 - delay s
  bits : ∀ b < f.count, f.shifter.getLsbD b = (command a).getLsbD (32 - f.count + b)

/-- The word is on its way: the flash is at the next bit of it, and the controller has the bits
    before. -/
structure Receiving (mem : BitVec (AW + 2) → BitVec 8) (a : BitVec AW) (s : Spixpress AW)
    (f : SerialFlash) (pulse : Bool) : Prop where
  more : 0 < delay s
  le : delay s ≤ 32
  pulses : pulse = true
  sck : s.actualSck = true
  told : f.shifter.extractLsb' 24 8 = 0x03#8
  place : ∃ j, f.count = 32 + 32 * j + (32 - delay s) ∧
    f.shifter.setWidth (AW + 2) + BitVec.ofNat (AW + 2) (4 * j) = a ++ 0#2
  data : ∀ b < 32 - delay s, s.oWbData.getLsbD b = (wordAt mem a).getLsbD (delay s + b)

/-- While the controller stalls, it shifts. -/
theorem pipe_next (hst : s.oWbStall = true) {b : ℕ} (hpos : 0 < b) (hb : b ≤ 32) :
    (next c s i).wdataPipe.getLsbD b = s.wdataPipe.getLsbD (b - 1) := by
  show (nextWdataPipe c s i).getLsbD b = _
  simp only [nextWdataPipe, hst, Bool.not_true, Bool.and_false, Bool.false_eq_true, if_false]
  rw [BitVec.getLsbD_append, BitVec.getLsbD_append]
  by_cases h24 : b < 24
  · rw [if_pos h24, if_neg (by omega), BitVec.getLsbD_extractLsb', decide_eq_true (by omega),
      Bool.true_and, Nat.zero_add]
  · rw [if_neg h24, BitVec.getLsbD_extractLsb', decide_eq_true (by omega), Bool.true_and]
    congr 1
    omega

/-- With a read, the pipe is loaded with its command. -/
theorem pipe_loaded (hbus : busRequest s i = true) (b : ℕ) :
    (next c s i).wdataPipe.getLsbD b = (command i.iWbAddr).getLsbD b := by
  have hpins : ((i.iWbStb = true ∧ s.oWbStall = false) ∧ i.iWbWe = false) ∧
      s.cfgUserMode = false := by simpa [busRequest] using hbus
  show (nextWdataPipe c s i).getLsbD b = _
  have hload : (!c.optCfg || i.iWbStb) && !s.oWbStall := by simp [hpins]
  rw [nextWdataPipe, if_pos hload, hpins.1.1.2, if_pos Bool.not_false, command,
    BitVec.getLsbD_append, BitVec.getLsbD_append, BitVec.getLsbD_append]
  by_cases h24 : b < 24
  · rw [if_pos h24, if_pos h24]
  · rw [if_neg h24, if_neg h24]
    by_cases h8 : b - 24 < 8
    · rw [if_pos h8]
    · rw [if_neg h8, BitVec.getLsbD_of_ge (0x03#8) _ (by omega), BitVec.getLsbD_zero]

theorem SerialFlash.next_pulse (f : SerialFlash) (mosi : Bool) : f.next false true mosi =
    ⟨f.count + 1,
      if f.count < 32 then f.shifter.extractLsb' 0 31 ++ BitVec.ofBool mosi else f.shifter⟩ := rfl

/-! ### The steps of a read -/

/-- A read starts with its command. -/
theorem sending_of_request (hp : Polite s i i') (hk : Control c s i) (hh : held i = true)
    (hbus : busRequest s i = true) (hd : delay s = 0) (mosi : Bool) :
    Sending i.iWbAddr (next c s i) (f.next s.oSpiCsN pulse mosi) s.oSpiSck := by
  have hu : s.cfgUserMode = false := by
    simp only [busRequest, Bool.and_eq_true, Bool.not_eq_true'] at hbus
    exact hbus.2
  have hcs : s.oSpiCsN = true := by
    rw [hk.csN, hu, hd]
    rfl
  have hsck : s.oSpiSck = false := by
    rw [hk.sck, hd]
    rfl
  have hd' := (next_busRequest (c := c) hp hh hbus).1
  rw [hcs, Bool.true_or, if_pos rfl] at hd'
  have hf : f.next s.oSpiCsN pulse mosi = ⟨0, 0⟩ := by
    rw [hcs]
    rfl
  exact {
    more := by omega
    le := by omega
    pipe := fun b _ _ => by
      rw [pipe_loaded hbus b, hd']
      rfl
    pulses := by
      rw [hsck, hd']
      rfl
    count := by rw [hf, hd']
    bits := fun b hb => by
      rw [hf] at hb
      exact absurd hb (Nat.not_lt_zero b) }

/-- Time passes in a read. -/
theorem next_reading (hp : Polite s i i') (hk : Control c s i) (hh : held i = true)
    (hu : s.cfgUserMode = false) (hd : 1 < delay s) :
    delay (next c s i) = delay s - 1 ∧ s.oWbStall = true ∧ s.oSpiSck = true ∧ s.oSpiCsN = false ∧
      (next c s i).cfgUserMode = false ∧ (next c s i).actualSck = true := by
  have hst := hk.stall hd
  have hbus : busRequest s i = false := by simp [busRequest, hst]
  have huser : userRequest c s i = false := by simp [userRequest, hst]
  have hsck : s.oSpiSck = true := by simp [hk.sck, hd]
  have hcs : s.oSpiCsN = false := by
    have h1 : delay s ≠ 0 := by omega
    simp [hk.csN, h1]
  obtain ⟨hd', -, -, -, -, hukeep⟩ := next_passing hp hk hh hbus huser
  obtain ⟨hc, hr⟩ := held_pins hh
  refine ⟨hd', hst, hsck, hcs, by rw [hukeep (by omega), hu], ?_⟩
  show (if i.iReset || !i.iWbCyc then false else s.oSpiSck) = true
  rw [hr, hc, hsck]
  rfl

/-- The bits of the command that the flash has, one clock later. -/
theorem bits_next (h : Sending a s f pulse) : ∀ b < 65 - delay s,
    (f.next false pulse s.oSpiMosi).shifter.getLsbD b =
      (command a).getLsbD (32 - (65 - delay s) + b) := by
  have hmore := h.more
  have hle := h.le
  rcases Nat.lt_or_ge (delay s) 65 with hd | hd
  · have hpulse : pulse = true := by rw [h.pulses, decide_eq_true hd]
    have hcount := h.count
    have hlt : f.count < 32 := by omega
    have hmosi : s.oSpiMosi = (command a).getLsbD (31 - f.count) := by
      rw [oSpiMosi, h.pipe 32 (by omega) (le_refl 32)]
      congr 1
      omega
    intro b hb
    rw [hpulse, SerialFlash.next_pulse]
    show (if f.count < 32 then _ else _ : BitVec 32).getLsbD b = _
    rw [if_pos hlt, shift_in hlt h.bits hmosi b (by omega)]
    congr 1
    omega
  · intro b hb
    omega

theorem count_next (h : Sending a s f pulse) :
    (f.next false pulse s.oSpiMosi).count = 65 - delay s := by
  have hcount := h.count
  have hle := h.le
  rcases Nat.lt_or_ge (delay s) 65 with hd | hd
  · have hpulse : pulse = true := by rw [h.pulses, decide_eq_true hd]
    rw [hpulse, SerialFlash.next_pulse]
    show f.count + 1 = _
    omega
  · have hpulse : pulse = false := by rw [h.pulses, decide_eq_false (by omega)]
    rw [hpulse]
    show f.count = _
    omega

theorem sending_next (hp : Polite s i i') (hk : Control c s i) (hh : held i = true)
    (hu : s.cfgUserMode = false) (h : Sending a s f pulse) (hd : 33 < delay s) :
    Sending a (next c s i) (f.next s.oSpiCsN pulse s.oSpiMosi) s.oSpiSck := by
  obtain ⟨hd', hst, hsck, hcs, -, -⟩ := next_reading hp hk hh hu (by omega)
  have hle := h.le
  have hcount := count_next h
  rw [hcs]
  exact {
    more := by omega
    le := by omega
    pipe := fun b hb hb' => by
      rw [pipe_next hst (by omega) hb', h.pipe (b - 1) (by omega) (by omega)]
      congr 1
      omega
    pulses := by rw [hsck, decide_eq_true (by omega)]
    count := by omega
    bits := by
      rw [hcount]
      exact bits_next h }

/-- The command has gone out. -/
theorem receiving_of_sending (hAW : AW ≤ 22) (hp : Polite s i i') (hk : Control c s i)
    (hh : held i = true) (hu : s.cfgUserMode = false) (h : Sending a s f pulse)
    (hd : delay s = 33) :
    Receiving mem a (next c s i) (f.next s.oSpiCsN pulse s.oSpiMosi) s.oSpiSck := by
  obtain ⟨hd', hst, hsck, hcs, -, hact⟩ := next_reading hp hk hh hu (by omega)
  have hcount := count_next h
  have hbits := bits_next h
  rw [hd] at hcount hbits
  rw [hcs]
  have hshift : (f.next false pulse s.oSpiMosi).shifter = command a := by
    apply BitVec.eq_of_getLsbD_eq
    intro b hb
    rw [hbits b hb]
    congr 1
    omega
  exact {
    more := by omega
    le := by omega
    pulses := hsck
    sck := hact
    told := by rw [hshift, command_read]
    place := ⟨0, by omega, by
      rw [hshift, command_address hAW]
      exact BitVec.add_zero _⟩
    data := fun b hb => by omega }

/-- The bit that the flash gives is the next one of the word. -/
theorem out_eq (h : Receiving mem a s f pulse) :
    f.reads = true ∧ f.out mem = (wordAt mem a).getLsbD (delay s - 1) := by
  obtain ⟨j, hcount, hplace⟩ := h.place
  have hmore := h.more
  have hle := h.le
  refine ⟨?_, ?_⟩
  · rw [SerialFlash.reads, h.told, decide_eq_true (by omega)]
    rfl
  · have hk : 31 - (32 - delay s) = delay s - 1 := by omega
    have hdiv : (f.count - 32) / 8 = 4 * j + (32 - delay s) / 8 := by omega
    have hmod : (f.count - 32) % 8 = (32 - delay s) % 8 := by omega
    rw [← hk, getLsbD_wordAt mem a (by omega), SerialFlash.out, hdiv, hmod,
      byte_address _ a (by omega) hplace]

/-- The bits of the word, one clock later. -/
theorem data_next (hu : s.cfgUserMode = false) (h : Receiving mem a s f pulse)
    (hmiso : i.iSpiMiso = f.out mem) : ∀ b < 33 - delay s,
      (next c s i).oWbData.getLsbD b = (wordAt mem a).getLsbD (delay s - 1 + b) := by
  have hmore := h.more
  have hle := h.le
  intro b hb
  have hk : 32 - (32 - delay s) = delay s := by omega
  have hdata : ∀ b < 32 - delay s, s.oWbData.getLsbD b =
      (wordAt mem a).getLsbD (32 - (32 - delay s) + b) := by
    rw [hk]
    exact h.data
  have hbit : i.iSpiMiso = (wordAt mem a).getLsbD (31 - (32 - delay s)) := by
    rw [hmiso, (out_eq h).2]
    congr 1
    omega
  have hnext : (next c s i).oWbData = s.oWbData.extractLsb' 0 31 ++ BitVec.ofBool i.iSpiMiso := by
    show nextWbData s i = _
    rw [nextWbData, h.sck, hu]
    rfl
  rw [hnext, shift_in (by omega) hdata hbit b (by omega)]
  congr 1
  omega

theorem receiving_next (hp : Polite s i i') (hk : Control c s i) (hh : held i = true)
    (hu : s.cfgUserMode = false) (h : Receiving mem a s f pulse) (hmiso : i.iSpiMiso = f.out mem)
    (hd : 1 < delay s) :
    Receiving mem a (next c s i) (f.next s.oSpiCsN pulse s.oSpiMosi) s.oSpiSck := by
  obtain ⟨hd', hst, hsck, hcs, -, hact⟩ := next_reading hp hk hh hu hd
  obtain ⟨j, hcount, hplace⟩ := h.place
  have hle := h.le
  have hshift : (f.next s.oSpiCsN pulse s.oSpiMosi).shifter = f.shifter := by
    rw [hcs, h.pulses, SerialFlash.next_pulse]
    exact if_neg (by omega)
  have hcount' : (f.next s.oSpiCsN pulse s.oSpiMosi).count = f.count + 1 := by
    rw [hcs, h.pulses, SerialFlash.next_pulse]
  exact {
    more := by omega
    le := by omega
    pulses := hsck
    sck := hact
    told := by rw [hshift, h.told]
    place := ⟨j, by omega, by rw [hshift, hplace]⟩
    data := fun b hb => by
      rw [data_next hu h hmiso b (by omega), hd'] }

/-- On its last clock a read is complete. -/
theorem data_complete (hu : s.cfgUserMode = false) (h : Receiving mem a s f pulse)
    (hmiso : i.iSpiMiso = f.out mem) (hd : delay s = 1) :
    (next c s i).oWbData = wordAt mem a := by
  apply BitVec.eq_of_getLsbD_eq
  intro b hb
  rw [data_next hu h hmiso b (by omega), hd]
  congr 1
  omega

/-- A word behind a word. -/
theorem next_word (x : BitVec (AW + 2)) {j : ℕ}
    (h : x + BitVec.ofNat (AW + 2) (4 * j) = a ++ 0#2) :
    x + BitVec.ofNat (AW + 2) (4 * (j + 1)) = (a + 1) ++ 0#2 := by
  rw [Nat.mul_succ, BitVec.ofNat_add, ← BitVec.add_assoc, h]
  apply BitVec.eq_of_toNat_eq
  have ha := a.isLt
  have hpow : 2 ^ (AW + 2) = 2 ^ AW * 2 ^ 2 := Nat.pow_add 2 AW 2
  rw [BitVec.toNat_add, BitVec.toNat_append, BitVec.toNat_append, BitVec.toNat_add]
  simp only [BitVec.toNat_ofNat, Nat.zero_mod, Nat.or_zero, Nat.shiftLeft_eq]
  rw [Nat.add_mod_mod, hpow, show a.toNat * 2 ^ 2 + 4 = (a.toNat + 1) * 2 ^ 2 by omega,
    Nat.mul_mod_mul_right]
  congr 1
  show (a.toNat + 1) % 2 ^ AW = (a.toNat + 1 % 2 ^ AW) % 2 ^ AW
  rw [Nat.add_mod_mod]

/-- A read of the next word goes on where the last one ends. -/
theorem receiving_of_request (hp : Polite s i i') (hk : Control c s i) (hh : held i = true)
    (h : Receiving mem a s f pulse) (hd : delay s = 1)
    (hbus : busRequest s i = true) (haddr : c.optPipe = true → s.rNextAddr = a + 1) :
    Receiving mem i.iWbAddr (next c s i) (f.next s.oSpiCsN pulse s.oSpiMosi) s.oSpiSck := by
  have hst : s.oWbStall = false := by
    simp only [busRequest, Bool.and_eq_true, Bool.not_eq_true'] at hbus
    exact hbus.1.1.2
  obtain ⟨-, hpipe, hreq⟩ := hk.last hd hst
  obtain ⟨hc, hr⟩ := held_pins hh
  have hcs : s.oSpiCsN = false := by
    simp [hk.csN, hd]
  have hsck : s.oSpiSck = true := by simp [hk.sck, hd, hst]
  have hd' := (next_busRequest (c := c) hp hh hbus).1
  rw [hcs, hpipe, Bool.false_or, Bool.not_true, if_neg Bool.false_ne_true] at hd'
  obtain ⟨j, hcount, hplace⟩ := h.place
  have hshift : (f.next s.oSpiCsN pulse s.oSpiMosi).shifter = f.shifter := by
    rw [hcs, h.pulses, SerialFlash.next_pulse]
    exact if_neg (by omega)
  have hcount' : (f.next s.oSpiCsN pulse s.oSpiMosi).count = f.count + 1 := by
    rw [hcs, h.pulses, SerialFlash.next_pulse]
  exact {
    more := by omega
    le := by omega
    pulses := hsck
    sck := by
      show (if i.iReset || !i.iWbCyc then false else s.oSpiSck) = true
      rw [hr, hc, hsck]
      rfl
    told := by rw [hshift, h.told]
    place := ⟨j + 1, by omega, by rw [hshift, next_word _ hplace, (hreq hh).2.2, haddr hpipe]⟩
    data := fun b hb => by omega }

end Spixpress

/-! ## Runs -/

/-- SCK as the pins have it: one clock late. -/
def pulseAt (s : ℕ → Spixpress AW) : ℕ → Bool
  | 0 => false
  | n + 1 => (s n).oSpiSck

/-- A flash on the pins of the controller.  Only in user mode can it be told to change. -/
structure Attached (s : ℕ → Spixpress AW) (i : ℕ → SpixIn AW) (f : ℕ → SerialFlash)
    (mem : ℕ → BitVec (AW + 2) → BitVec 8) : Prop where
  step : ∀ n, f (n + 1) = (f n).next (s n).oSpiCsN (pulseAt s n) (s n).oSpiMosi
  data : ∀ n, (s n).oSpiCsN = false → (f n).reads = true → (i n).iSpiMiso = (f n).out (mem n)
  keeps : ∀ n, (s n).cfgUserMode = false → mem (n + 1) = mem n

namespace Spixpress

open Pipelined

section

variable {c : SpixCfg} {s : ℕ → Spixpress AW} {i : ℕ → SpixIn AW} {f : ℕ → SerialFlash}
  {mem : ℕ → BitVec (AW + 2) → BitVec 8}

/-- The answer of clock `n` is right for the request taken on clock `t`: if that was a read, then
    its data is the word that the flash has held since. -/
def Right (s : ℕ → Spixpress AW) (i : ℕ → SpixIn AW) (mem : ℕ → BitVec (AW + 2) → BitVec 8)
    (t n : ℕ) : Prop :=
  busRequest (s t) (i t) = true → (s n).oWbData = wordAt (mem t) (i t).iWbAddr

/-- The request that is being worked on. -/
structure Current (c : SpixCfg) (s : ℕ → Spixpress AW) (i : ℕ → SpixIn AW) (f : ℕ → SerialFlash)
    (mem : ℕ → BitVec (AW + 2) → BitVec 8) (n t : ℕ) : Prop where
  read : busRequest (s t) (i t) = !(s n).cfgUserMode
  kept : (s n).cfgUserMode = false → mem n = mem t
  follows : (s n).cfgUserMode = false → c.optPipe = true → (s n).rNextAddr = (i t).iWbAddr + 1
  progress : (s n).cfgUserMode = false → Sending (i t).iWbAddr (s n) (f n) (pulseAt s n) ∨
    Receiving (mem n) (i t).iWbAddr (s n) (f n) (pulseAt s n)

/-- What waits at clock `n`: a request whose answer is given now, and one that is being worked
    on. -/
structure Books (c : SpixCfg) (s : ℕ → Spixpress AW) (i : ℕ → SpixIn AW) (f : ℕ → SerialFlash)
    (mem : ℕ → BitVec (AW + 2) → BitVec 8) (wait : List ℕ) (n : ℕ) : Prop where
  control : Control c (s n) (i n)
  queue : ∃ answered current : Option ℕ, wait = answered.toList ++ current.toList ∧
    answered.isSome = (s n).oWbAck ∧ current.isSome = decide (delay (s n) ≠ 0) ∧
    (∀ t, answered = some t → Right s i mem t n) ∧
    (∀ t, current = some t → Current c s i f mem n t)

/-- An acknowledgement comes when a read or a byte is through, and at once for all else. -/
theorem ack_next {s : Spixpress AW} {i i' : SpixIn AW} (hp : Polite s i i') (hh : held i = true) :
    (next c s i).oWbAck = (decide (delay s = 1) ||
      (takes s i && !busRequest s i && !userRequest c s i)) := by
  obtain ⟨hc, hr⟩ := held_pins hh
  have h1 : (s.ackDelay == (1 : BitVec 7)) = decide (delay s = 1) := ackDelay_beq 1 (by omega)
  have hone := hp.one
  show nextWbAck c s i = _
  rw [nextWbAck, hr, hc, h1, takes, hh, asks, busRequest, userRequest]
  cases hs : i.iWbStb
  · cases decide (delay s = 1) <;> cases i.iCfgStb <;> cases s.oWbStall <;> simp
  · rw [hs, Bool.true_and] at hone
    rw [hone]
    cases decide (delay s = 1) <;> cases s.oWbStall <;> simp

theorem takes_of_busRequest {s : Spixpress AW} {i : SpixIn AW} (hh : held i = true)
    (h : busRequest s i = true) :
    takes s i = true ∧ s.oWbStall = false ∧ s.cfgUserMode = false := by
  simp only [busRequest, Bool.and_eq_true, Bool.not_eq_true'] at h
  obtain ⟨⟨⟨hstb, hst⟩, -⟩, hu⟩ := h
  exact ⟨by simp [takes, asks, hh, hstb, hst], hst, hu⟩

theorem takes_of_userRequest {s : Spixpress AW} {i : SpixIn AW} (hh : held i = true)
    (h : userRequest c s i = true) :
    takes s i = true ∧ s.oWbStall = false ∧ i.iCfgStb = true := by
  simp only [userRequest, Bool.and_eq_true, Bool.not_eq_true'] at h
  obtain ⟨⟨⟨⟨-, hcfg⟩, hst⟩, -⟩, -⟩ := h
  exact ⟨by simp [takes, asks, hh, hcfg, hst], hst, hcfg⟩

theorem rNextAddr_stalled {s : Spixpress AW} {i : SpixIn AW} (h : s.oWbStall = true) :
    (next c s i).rNextAddr = s.rNextAddr := by
  show (if !s.oWbStall then i.iWbAddr + 1 else s.rNextAddr) = _
  rw [h]
  rfl

theorem rNextAddr_taken {s : Spixpress AW} {i : SpixIn AW} (h : s.oWbStall = false) :
    (next c s i).rNextAddr = i.iWbAddr + 1 := by
  show (if !s.oWbStall then i.iWbAddr + 1 else s.rNextAddr) = _
  rw [h]
  rfl

/-- The requests that wait. -/
def waitingAt (s : ℕ → Spixpress AW) (i : ℕ → SpixIn AW) : ℕ → List ℕ :=
  waiting (fun n => held (i n)) (fun n => takes (s n) (i n)) (fun n => (s n).oWbAck)

theorem waitingAt_succ (n : ℕ) : waitingAt s i (n + 1) =
    if held (i n) then
      (waitingAt s i n).drop (s n).oWbAck.toNat ++ (if takes (s n) (i n) then [n] else [])
    else [] := waiting_succ _ _ _ n

/-- What still waits behind the answer that is given now. -/
theorem drop_answered {answered current : Option ℕ} {ack : Bool} (h : answered.isSome = ack) :
    (answered.toList ++ current.toList).drop ack.toNat = current.toList := by
  cases answered with
  | none =>
    rw [← h]
    rfl
  | some t =>
    rw [← h]
    rfl

/-- A byte for the port is no read. -/
theorem current_of_byte {n t : ℕ} (hbus : busRequest (s t) (i t) = false)
    (hu : (s n).cfgUserMode = true) : Current c s i f mem n t := by
  have hno : (s n).cfgUserMode ≠ false := by
    rw [hu]
    exact Bool.noConfusion
  exact ⟨by rw [hbus, hu]; rfl, fun h => absurd h hno, fun h => absurd h hno, fun h => absurd h hno⟩

/-- A read in its last clock has all but one bit. -/
theorem Current.last {n t : ℕ} (h : Current c s i f mem n t) (hu : (s n).cfgUserMode = false)
    (hd : delay (s n) = 1) :
    Receiving (mem n) (i t).iWbAddr (s n) (f n) (pulseAt s n) := by
  rcases h.progress hu with h | h
  · have := h.more
    omega
  · exact h

/-- What the flash gives in a read. -/
theorem miso_eq (ha : Attached s i f mem) {n : ℕ} {a : BitVec AW} (hk : Control c (s n) (i n))
    (h : Receiving (mem n) a (s n) (f n) (pulseAt s n)) :
    (i n).iSpiMiso = (f n).out (mem n) := by
  have hcs : (s n).oSpiCsN = false := by
    have hmore := h.more
    have h0 : delay (s n) ≠ 0 := by omega
    simp [hk.csN, h0]
  exact ha.data n hcs (out_eq h).1

section Step

variable (hAW : AW ≤ 22) (ha : Attached s i f mem) (hs : ∀ n, s (n + 1) = next c (s n) (i n))
  {n : ℕ} (hp : Polite (s n) (i n) (i (n + 1)))
include ha hs hp

/-- A read that is taken is worked on. -/
theorem current_of_request (hh : held (i n) = true)
    (hbus : busRequest (s n) (i n) = true)
    (hprog : Sending (i n).iWbAddr (s (n + 1)) (f (n + 1)) (pulseAt s (n + 1)) ∨
      Receiving (mem (n + 1)) (i n).iWbAddr (s (n + 1)) (f (n + 1)) (pulseAt s (n + 1))) :
    Current c s i f mem (n + 1) n := by
  obtain ⟨-, hst, hu⟩ := takes_of_busRequest hh hbus
  obtain ⟨-, -, -, -, hu'⟩ := next_busRequest (c := c) hp hh hbus
  rw [← hs] at hu'
  exact {
    read := by rw [hbus, hu']; rfl
    kept := fun _ => ha.keeps n hu
    follows := fun _ _ => by rw [hs, rNextAddr_taken hst]
    progress := fun _ => hprog }

omit hp in
/-- The answer to a read is right. -/
theorem right_of_last {t : ℕ} (hk : Control c (s n) (i n)) (h : Current c s i f mem n t)
    (hd : delay (s n) = 1) : Right s i mem t (n + 1) := by
  intro hread
  have hu : (s n).cfgUserMode = false := by
    have := h.read
    rw [hread] at this
    cases hu : (s n).cfgUserMode
    · rfl
    · rw [hu] at this
      cases this
  have hrec := h.last hu hd
  rw [hs, data_complete hu hrec (miso_eq ha hk hrec) hd, h.kept hu]

include hAW

/-- A request that is being worked on is worked on one clock later. -/
theorem Current.next_clock {t : ℕ} (hk : Control c (s n) (i n)) (hh : held (i n) = true)
    (h : Current c s i f mem n t) (hd : 1 < delay (s n))
    (hu : (s (n + 1)).cfgUserMode = (s n).cfgUserMode) : Current c s i f mem (n + 1) t where
  read := by rw [h.read, hu]
  kept hu' := by
    rw [hu] at hu'
    rw [ha.keeps n hu', h.kept hu']
  follows hu' hpipe := by
    rw [hu] at hu'
    rw [hs, rNextAddr_stalled (hk.stall hd), h.follows hu' hpipe]
  progress hu' := by
    rw [hu] at hu'
    rw [ha.step, ha.keeps n hu', hs]
    rcases h.progress hu' with hsend | hrec
    · have hmore := hsend.more
      rcases Nat.lt_or_ge 33 (delay (s n)) with h33 | h33
      · exact .inl (sending_next hp hk hh hu' hsend h33)
      · exact .inr (receiving_of_sending hAW hp hk hh hu' hsend (by omega))
    · exact .inr (receiving_next hp hk hh hu' hrec (miso_eq ha hk hrec) hd)

theorem books_next (h : Books c s i f mem (waitingAt s i n) n) :
    Books c s i f mem (waitingAt s i (n + 1)) (n + 1) := by
  have hk := h.control
  obtain ⟨answered, current, hwait, hans, hcur, hright, hwork⟩ := h.queue
  have hk' : Control c (s (n + 1)) (i (n + 1)) := by
    rw [hs]
    exact control_next hp hk
  refine ⟨hk', ?_⟩
  rw [waitingAt_succ]
  cases hh : held (i n)
  · -- the bus lets go
    obtain ⟨hd, -, -, hack, -⟩ := next_dropped (c := c) hp hh
    rw [← hs] at hd hack
    refine ⟨none, none, rfl, by rw [hack]; rfl, by rw [hd]; rfl, ?_, ?_⟩ <;> intro t ht <;> cases ht
  rw [if_pos rfl, hwait, drop_answered hans]
  have hack := ack_next (c := c) hp hh
  rw [← hs] at hack
  cases hbus : busRequest (s n) (i n)
  · cases huser : userRequest c (s n) (i n)
    · obtain ⟨hd, -, -, -, -, hukeep⟩ := next_passing hp hk hh hbus huser
      rw [← hs] at hd hukeep
      rw [hbus, huser, Bool.not_false, Bool.and_true, Bool.and_true] at hack
      rcases Nat.lt_trichotomy (delay (s n)) 1 with hlt | heq | hgt
      · -- nothing is being worked on: a request is answered at once
        have h0 : delay (s n) = 0 := by omega
        have hnone : current = none := by simpa [h0] using hcur
        rw [h0] at hack
        rw [hnone]
        cases htake : takes (s n) (i n)
        · rw [htake] at hack
          refine ⟨none, none, rfl, hack.symm, by rw [hd, h0]; rfl, ?_, ?_⟩ <;>
            intro t ht <;> cases ht
        · rw [htake] at hack
          refine ⟨some n, none, rfl, hack.symm, by rw [hd, h0]; rfl, ?_, ?_⟩
          · intro t ht
            obtain rfl : n = t := Option.some.inj ht
            intro hread
            rw [hbus] at hread
            cases hread
          · intro t ht
            cases ht
      · -- the last clock
        have hst : (s n).oWbStall = true := by
          cases hst : (s n).oWbStall
          · obtain ⟨hu, -, hreq⟩ := hk.last heq hst
            obtain ⟨hstb, hwe, -⟩ := hreq hh
            simp [busRequest, hstb, hst, hwe, hu] at hbus
          · rfl
        have htake : takes (s n) (i n) = false := by simp [takes, hst]
        obtain ⟨t, ht⟩ : ∃ t, current = some t := by
          rw [← Option.isSome_iff_exists, hcur, heq]
          rfl
        rw [htake, heq] at hack
        rw [htake, ht]
        refine ⟨some t, none, rfl, hack.symm, by rw [hd, heq]; rfl, ?_, ?_⟩
        · intro u hu
          obtain rfl : t = u := Option.some.inj hu
          exact right_of_last ha hs hk (hwork t ht) heq
        · intro u hu
          cases hu
      · -- a clock like the others
        have htake : takes (s n) (i n) = false := by simp [takes, hk.stall hgt]
        have h1 : delay (s n) ≠ 1 := by omega
        rw [htake, decide_eq_false h1] at hack
        rw [htake, if_neg Bool.false_ne_true, List.append_nil]
        refine ⟨none, current, rfl, hack.symm, ?_, ?_, ?_⟩
        · rw [hcur, hd, decide_eq_decide]
          omega
        · intro t ht
          cases ht
        · intro t ht
          exact (hwork t ht).next_clock hAW ha hs hp hk hh hgt (hukeep (by omega))
    · -- a byte for the port
      obtain ⟨htake, hst, hcfg⟩ := takes_of_userRequest hh huser
      have hone := hp.one
      rw [hcfg, Bool.and_true] at hone
      have h0 : delay (s n) = 0 := by
        rcases Nat.lt_trichotomy (delay (s n)) 1 with hlt | heq | hgt
        · omega
        · rw [((hk.last heq hst).2.2 hh).1] at hone
          cases hone
        · rw [hk.stall hgt] at hst
          cases hst
      have hnone : current = none := by simpa [h0] using hcur
      obtain ⟨hd, -, -, -, hu⟩ := next_userRequest (c := c) hp hh huser
      rw [← hs] at hd hu
      rw [hbus, huser, h0, Bool.not_true, Bool.and_false] at hack
      rw [htake, hnone]
      refine ⟨none, some n, rfl, hack.symm, by rw [hd]; rfl, ?_, ?_⟩
      · intro t ht
        cases ht
      · intro t ht
        obtain rfl : n = t := Option.some.inj ht
        exact current_of_byte hbus hu
  · -- a read
    obtain ⟨htake, hst, hu⟩ := takes_of_busRequest hh hbus
    obtain ⟨hd, -, -, -, -⟩ := next_busRequest (c := c) hp hh hbus
    rw [← hs] at hd
    have hd' : delay (s (n + 1)) ≠ 0 := by
      rw [hd]
      split <;> omega
    rw [hbus, Bool.not_true, Bool.and_false, Bool.false_and, Bool.or_false] at hack
    rw [htake]
    rcases Nat.lt_trichotomy (delay (s n)) 1 with hlt | heq | hgt
    · have h0 : delay (s n) = 0 := by omega
      have hnone : current = none := by simpa [h0] using hcur
      rw [h0] at hack
      rw [hnone]
      refine ⟨none, some n, rfl, hack.symm, by rw [decide_eq_true hd']; rfl, ?_, ?_⟩
      · intro t ht
        cases ht
      · intro t ht
        obtain rfl : n = t := Option.some.inj ht
        refine current_of_request ha hs hp hh hbus (.inl ?_)
        rw [ha.step, hs]
        exact sending_of_request hp hk hh hbus h0 _
    · obtain ⟨t, ht⟩ : ∃ t, current = some t := by
        rw [← Option.isSome_iff_exists, hcur, heq]
        rfl
      have hrec := (hwork t ht).last hu heq
      rw [heq] at hack
      rw [ht]
      refine ⟨some t, some n, rfl, hack.symm, by rw [decide_eq_true hd']; rfl, ?_, ?_⟩
      · intro u hu
        obtain rfl : t = u := Option.some.inj hu
        exact right_of_last ha hs hk (hwork t ht) heq
      · intro u hu'
        obtain rfl : n = u := Option.some.inj hu'
        refine current_of_request ha hs hp hh hbus (.inr ?_)
        rw [ha.step, ha.keeps n hu, hs]
        exact receiving_of_request hp hk hh hrec heq hbus ((hwork t ht).follows hu)
    · rw [hk.stall hgt] at hst
      cases hst

end Step

/-- The clocks that are still to come do come, while the bus holds on. -/
theorem acknowledged (hs : ∀ n, s (n + 1) = next c (s n) (i n))
    (hp : ∀ n, Polite (s n) (i n) (i (n + 1))) (hk : ∀ n, Control c (s n) (i n)) (d : ℕ) :
    ∀ n, delay (s n) = d + 1 → (∀ k < d + 1, held (i (n + k)) = true) →
      (s (n + (d + 1))).oWbAck = true := by
  induction d with
  | zero =>
    intro n hd hh
    have hack := ack_next (c := c) (hp n) (hh 0 Nat.one_pos)
    rw [← hs, hd] at hack
    exact hack
  | succ d ih =>
    intro n hd hh
    have hst := (hk n).stall (by omega)
    have hbus : busRequest (s n) (i n) = false := by simp [busRequest, hst]
    have huser : userRequest c (s n) (i n) = false := by simp [userRequest, hst]
    have hd' := (next_passing (hp n) (hk n) (hh 0 (by omega)) hbus huser).1
    rw [← hs] at hd'
    have hrest := ih (n + 1) (by omega) fun k hk => by
      rw [Nat.add_assoc, Nat.add_comm 1 k]
      exact hh (k + 1) (by omega)
    rwa [Nat.add_assoc, Nat.add_comm 1 (d + 1)] at hrest

/-- **The flash is read right.**  From power-up, whatever the bus asks of the flash or of the
control port and whenever it lets go, with or without `OPT_PIPE`: each request that is taken is
acknowledged in its turn and once, within 66 clocks while the bus holds on, and the data of a read
is the big-endian word that the flash holds at its address. -/
theorem reads_flash (hAW : AW ≤ 22) (ha : Attached s i f mem) (h0 : AtPowerUp (s 0))
    (hs : ∀ n, s (n + 1) = next c (s n) (i n)) (hp : ∀ n, Polite (s n) (i n) (i (n + 1))) :
    Serves (fun n => held (i n)) (fun n => takes (s n) (i n)) (fun n => (s n).oWbAck)
      (Right s i mem) 66 := by
  have hbooks : ∀ n, Books c s i f mem (waitingAt s i n) n := by
    intro n
    induction n with
    | zero =>
      have hd : delay (s 0) = 0 := by rw [delay, h0.ackDelay]; rfl
      refine ⟨control_powerUp h0, none, none, rfl, h0.wbAck.symm, by rw [hd]; rfl, ?_, ?_⟩ <;>
        intro t ht <;> cases ht
    | succ n ih => exact books_next hAW ha hs (hp n) ih
  refine ⟨?_, ?_⟩
  · intro n _ hack
    obtain ⟨answered, current, hwait, hans, -, hright, -⟩ := (hbooks n).queue
    cases answered with
    | none =>
      rw [hack] at hans
      cases hans
    | some t => exact ⟨t, current.toList, hwait, hright t rfl⟩
  · intro n hwait hheld
    obtain ⟨answered, current, hqueue, hans, hcur, -, -⟩ := (hbooks n).queue
    cases hack : (s n).oWbAck
    · have hnone : answered = none := by
        rw [hack] at hans
        exact Option.isSome_eq_false_iff.1 hans |> Option.isNone_iff_eq_none.1
      have hd : delay (s n) ≠ 0 := by
        intro hd
        have hnone' : current = none := by simpa [hd] using hcur
        rw [hnone, hnone'] at hqueue
        exact hwait hqueue
      have hle := (hbooks n).control.le
      refine ⟨delay (s n), by omega, ?_⟩
      have hdone := acknowledged hs hp (fun n => (hbooks n).control) (delay (s n) - 1) n (by omega)
        fun k hk => hheld k (by omega)
      rwa [Nat.sub_add_cancel (by omega)] at hdone
    · exact ⟨0, by omega, hack⟩

end

/-! ### A flash that is read over and over -/

def pipedCfg : SpixCfg := ⟨true, true⟩

/-- A master that reads one word. -/
def reader : SpixIn 2 where
  iReset := false
  iWbCyc := true
  iWbStb := true
  iCfgStb := false
  iWbWe := false
  iWbAddr := 1
  iWbData := 0
  iSpiMiso := false

def poweredUp : Spixpress 2 where
  cfgUserMode := false
  wdataPipe := 0
  ackDelay := 0
  actualSck := false
  oWbStall := false
  oWbAck := false
  oWbData := 0
  oSpiCsN := true
  oSpiSck := false
  rNextAddr := 0

/-- Bytes that tell where they lie. -/
def numbered : BitVec 4 → BitVec 8 := fun a => a.setWidth 8

/-- The controller, the flash, and SCK as the pins have it. -/
def together : ℕ → Spixpress 2 × SerialFlash × Bool :=
  Clocked.run (fun x (_ : Unit) =>
    (next pipedCfg x.1 { reader with iSpiMiso := x.2.1.out numbered },
      x.2.1.next x.1.oSpiCsN x.2.2 x.1.oSpiMosi, x.1.oSpiSck))
    (poweredUp, ⟨0, 0⟩, false) fun _ => ()

def atPins (n : ℕ) : SpixIn 2 := { reader with iSpiMiso := (together n).2.1.out numbered }

theorem together_pulse : ∀ n, (together n).2.2 = pulseAt (fun n => (together n).1) n
  | 0 => rfl
  | _ + 1 => rfl

theorem together_attached : Attached (fun n => (together n).1) atPins (fun n => (together n).2.1)
    fun _ => numbered where
  step n := by
    rw [← together_pulse]
    rfl
  data _ _ _ := rfl
  keeps _ _ := rfl

theorem reads_flash_together : Serves (fun n => held (atPins n))
    (fun n => takes (together n).1 (atPins n)) (fun n => (together n).1.oWbAck)
    (Right (fun n => (together n).1) atPins fun _ => numbered) 66 :=
  reads_flash (c := pipedCfg) (by decide) together_attached
    ⟨rfl, rfl, rfl, rfl, rfl, rfl, rfl⟩ (fun _ => rfl)
    fun _ => ⟨fun _ => rfl, rfl, fun _ _ _ => ⟨rfl, rfl, rfl, rfl⟩⟩

/-- The word comes, 66 clocks after it was asked for. -/
example : ((together 66).1.oWbAck, (together 66).1.oWbData) = (true, 0x04050607) := by
  decide +kernel

end Spixpress

end ZipStormMX.Flash
