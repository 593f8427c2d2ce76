/-
  `wbscope.v`: the scope that records every sample.

  Synchronous.  A sample is taken whenever `i_ce` is high; it is written to a circular memory with the
  next one, until the scope stops, a number of samples after its trigger.  The memory is then read out
  through two registers, `this_addr` and `nxt_mem`, which run ahead of the bus.
-/
import Mathlib.Data.BitVec
import ZipStormMX.Clocked

namespace ZipStormMX.Scope

/-- The parameters. -/
structure WbscopeCfg where
  lgmem : ℕ
  lgmem_pos : 0 < lgmem
  holdoffbits : ℕ
  defaultHoldoff : ℕ

/-- The pins. -/
structure WbscopeIn where
  iCe : Bool
  iTrigger : Bool
  iData : BitVec 32
  iWbCyc : Bool
  iWbStb : Bool
  iWbWe : Bool
  iWbAddr : Bool
  iWbData : BitVec 32

/-- The registers. -/
structure Wbscope (lgmem : ℕ) where
  -- br_config: not in reset, manual trigger, trigger disabled
  brRun : Bool
  brManual : Bool
  brDisable : Bool
  brHoldoff : ℕ
  drTriggered : Bool
  counter : ℕ
  drStopped : Bool
  waddr : BitVec lgmem
  drPrimed : Bool
  dataPipe : BitVec 32
  mem : BitVec lgmem → BitVec 32
  raddr : BitVec lgmem
  thisAddr : BitVec lgmem
  nxtMem : BitVec 32
  readAddress : Bool
  brPreWbAck : Bool
  brWbAck : Bool
  oBusData : BitVec 32
  brLevelInterrupt : Bool

namespace WbscopeIn

variable (i : WbscopeIn)

def readFromData : Bool := i.iWbStb && !i.iWbWe && i.iWbAddr

def writeToControl : Bool := i.iWbStb && i.iWbWe && !i.iWbAddr

/-- A write that asks for a reset, and sets the holdoff. -/
def asksReset : Bool := i.writeToControl && !i.iWbData.getLsbD 31

end WbscopeIn

namespace Wbscope

variable (c : WbscopeCfg) (s : Wbscope c.lgmem) (i : WbscopeIn)

/-- `bw_reset_request`, which is its own acknowledgement. -/
def dwReset : Bool := !s.brRun

def dwTrigger : Bool := s.drPrimed && ((i.iTrigger && !s.brDisable) || s.brManual)

/-- The control register, as the bus reads it. -/
def control : BitVec 32 :=
  BitVec.ofBool (dwReset c s) ++ BitVec.ofBool s.drStopped ++ BitVec.ofBool s.drTriggered ++
    BitVec.ofBool s.drPrimed ++ BitVec.ofBool s.brManual ++ BitVec.ofBool s.brDisable ++
    BitVec.ofBool (s.raddr == 0) ++ BitVec.ofNat 5 c.lgmem ++ BitVec.ofNat 20 s.brHoldoff

def oWbAck : Bool := i.iWbCyc && s.brWbAck

def oInterrupt : Bool := s.drStopped && !s.brDisable && !s.brLevelInterrupt

/-- `i_ce` while the scope records. -/
def records : Bool := i.iCe && !s.drStopped

def next : Wbscope c.lgmem where
  brRun :=
    if i.writeToControl then
      if dwReset c s then true else if !s.brRun then false else i.iWbData.getLsbD 31
    else if dwReset c s then true
    else s.brRun
  brManual := if i.writeToControl then i.iWbData.getLsbD 27 else s.brManual
  brDisable := if i.writeToControl then i.iWbData.getLsbD 26 else s.brDisable
  brHoldoff :=
    if i.writeToControl && !i.iWbData.getLsbD 31 then i.iWbData.toNat % 2 ^ c.holdoffbits
    else s.brHoldoff
  drTriggered :=
    if dwReset c s then false
    else if i.iCe && dwTrigger c s i then true
    else s.drTriggered
  counter :=
    if dwReset c s then 0
    else if i.iCe && s.drTriggered && !s.drStopped then (s.counter + 1) % 2 ^ c.holdoffbits
    else s.counter
  drStopped :=
    if !s.drTriggered || dwReset c s then false
    -- not only when `i_ce` is high
    else if 1 < c.holdoffbits then s.counter ≥ s.brHoldoff
    else i.iCe && dwTrigger c s i
  waddr := if dwReset c s then 0 else if records c s i then s.waddr + 1 else s.waddr
  drPrimed :=
    if dwReset c s then false
    else if records c s i && !s.drPrimed then s.waddr == BitVec.allOnes c.lgmem
    else s.drPrimed
  dataPipe := if i.iCe then i.iData else s.dataPipe
  mem := if records c s i then fun a => if a = s.waddr then s.dataPipe else s.mem a else s.mem
  raddr :=
    if dwReset c s || i.writeToControl then 0
    else if i.readFromData && s.drStopped then s.raddr + 1
    else s.raddr
  thisAddr := if i.readFromData then s.raddr + s.waddr + 1 else s.raddr + s.waddr
  nxtMem := s.mem s.thisAddr
  readAddress := i.iWbAddr
  brPreWbAck := i.iWbStb
  brWbAck := s.brPreWbAck && i.iWbCyc
  oBusData :=
    if !s.readAddress then control c s else if !s.drStopped then i.iData else s.nxtMem
  brLevelInterrupt := if dwReset c s then false else s.drStopped && !s.brDisable

/-- The registers that the `initial` blocks set are as they say; the others hold what they hold. -/
structure Initial : Prop where
  brRun : s.brRun = false
  brManual : s.brManual = false
  brDisable : s.brDisable = false
  brHoldoff : s.brHoldoff = c.defaultHoldoff % 2 ^ c.holdoffbits
  drTriggered : s.drTriggered = false
  counter : s.counter = 0
  drStopped : s.drStopped = false
  waddr : s.waddr = 0
  drPrimed : s.drPrimed = false
  brPreWbAck : s.brPreWbAck = false
  brWbAck : s.brWbAck = false
  brLevelInterrupt : s.brLevelInterrupt = false

/-! ## Reset -/

/-- The scope on the clock after a reset; the registers not named here hold what they hold. -/
structure AfterReset : Prop where
  run : s.brRun = true
  triggered : s.drTriggered = false
  counter : s.counter = 0
  stopped : s.drStopped = false
  waddr : s.waddr = 0
  primed : s.drPrimed = false
  raddr : s.raddr = 0
  holdoff : s.brHoldoff < 2 ^ c.holdoffbits

variable {c s i}

/-- A reset takes one clock. -/
theorem afterReset_next (hreset : dwReset c s = true) (hhold : s.brHoldoff < 2 ^ c.holdoffbits) :
    AfterReset c (next c s i) where
  run := by
    show (if i.writeToControl then if dwReset c s then true else _ else if dwReset c s then true
      else _) = true
    rw [if_pos hreset, if_pos hreset, ite_self]
  triggered := if_pos hreset
  counter := if_pos hreset
  stopped := if_pos (by rw [hreset, Bool.or_true])
  waddr := if_pos hreset
  primed := if_pos hreset
  raddr := if_pos (by rw [hreset, Bool.true_or])
  holdoff := by
    show (if i.writeToControl && !i.iWbData.getLsbD 31 then _ else _) < _
    split
    · exact Nat.mod_lt _ (Nat.two_pow_pos _)
    · exact hhold

/-- The scope comes up in reset. -/
theorem Initial.dwReset (h : Initial c s) : dwReset c s = true := by
  rw [Wbscope.dwReset, h.brRun]
  rfl

/-- Only a write that asks for it resets the scope, or changes the holdoff. -/
theorem keeps_running (hrun : s.brRun = true) (hasks : i.asksReset = false) :
    (next c s i).brRun = true ∧ (next c s i).brHoldoff = s.brHoldoff := by
  have hnot : dwReset c s = false := by
    rw [Wbscope.dwReset, hrun]
    rfl
  constructor
  · show (if i.writeToControl then if dwReset c s then true else if !s.brRun then false
      else i.iWbData.getLsbD 31 else if dwReset c s then true else s.brRun) = true
    rw [hnot, hrun]
    cases hwrite : i.writeToControl
    · rfl
    · rw [WbscopeIn.asksReset, hwrite, Bool.true_and, Bool.not_eq_false'] at hasks
      exact hasks
  · exact if_neg (by rw [← WbscopeIn.asksReset, hasks]; decide)

end Wbscope

end ZipStormMX.Scope
