/-
  `wbscopc.v`: the compressed scope.

  Synchronous, with a data word of 31 bits.  A sample is taken whenever `i_ce` is high.  Behind the
  samples runs a run-length encoder, two words deep (`imm`, then `lst`), and behind that the memory.
  A word with its top bit set is a count: it repeats the word before it that many times, and once
  more.  Of two counts in a row only the last is recorded.
-/
import Mathlib.Data.BitVec
import ZipStormMX.Clocked

namespace ZipStormMX.Scope

/-- The parameters. -/
structure WbscopcCfg where
  lgmem : ℕ
  lgmem_pos : 0 < lgmem
  defaultHoldoff : BitVec 20
  maxStep : BitVec 31

/-- The pins. -/
structure WbscopcIn where
  iCe : Bool
  iTrigger : Bool
  iData : BitVec 31
  iWbCyc : Bool
  iWbStb : Bool
  iWbWe : Bool
  iWbAddr : Bool
  iWbData : BitVec 32

/-- The registers. -/
structure Wbscopc (lgmem : ℕ) where
  -- br_config: not in reset, manual trigger, trigger disabled
  brRun : Bool
  brManual : Bool
  brDisable : Bool
  brHoldoff : BitVec 20
  drTriggered : Bool
  drPrimed : Bool
  holdoffCounter : BitVec 20
  drStopped : Bool
  drStopPipe : BitVec 5
  ckAddr : BitVec 31
  qdData : BitVec 31
  drForceWrite : Bool
  drForceInhibit : Bool
  drRunTimeout : Bool
  newData : Bool
  immAdr : Bool
  immVal : BitVec 31
  lstAdr : Bool
  lstVal : BitVec 31
  recordCe : Bool
  rData : BitVec 32
  waddr : BitVec lgmem
  mem : BitVec lgmem → BitVec 32
  raddr : BitVec lgmem
  thisAddr : BitVec lgmem
  nxtMem : BitVec 32
  brPreWbAck : Bool
  brWbAck : Bool
  oWbData : BitVec 32
  brLevelInterrupt : Bool

namespace WbscopcIn

variable (i : WbscopcIn)

def readFromData : Bool := i.iWbStb && i.iWbAddr && !i.iWbWe

def writeToData : Bool := i.iWbStb && i.iWbAddr && i.iWbWe

def writeToControl : Bool := i.iWbStb && !i.iWbAddr && i.iWbWe

/-- A write that asks for a reset. -/
def asksReset : Bool := i.writeToControl && !i.iWbData.getLsbD 31

end WbscopcIn

namespace Wbscopc

variable (c : WbscopcCfg) (s : Wbscopc c.lgmem) (i : WbscopcIn)

/-- `bw_reset_request`, which is its own acknowledgement. -/
def dwReset : Bool := !s.brRun

def dwTrigger : Bool := s.drPrimed && ((i.iTrigger && !s.brDisable) || s.brManual)

/-- `bw_stopped` as well. -/
def dwFinalStop : Bool := s.drStopPipe.getLsbD 4

/-- The word to come is data, not a count. -/
def toData : Bool := s.newData || s.drForceWrite || s.drStopped

/-- Of two counts in a row only the last is recorded. -/
def toRecord : Bool := (!s.lstAdr || !s.immAdr) && !s.drStopPipe.getLsbD 2

/-- The control register, as the bus reads it. -/
def control : BitVec 32 :=
  BitVec.ofBool (dwReset c s) ++ BitVec.ofBool (dwFinalStop c s) ++ BitVec.ofBool s.drTriggered ++
    BitVec.ofBool s.drPrimed ++ BitVec.ofBool s.brManual ++ BitVec.ofBool s.brDisable ++
    BitVec.ofBool (s.raddr == 0) ++ BitVec.ofNat 5 c.lgmem ++ s.brHoldoff

def oWbAck : Bool := i.iWbCyc && s.brWbAck

def oInterrupt : Bool := dwFinalStop c s && !s.brDisable && !s.brLevelInterrupt

def next : Wbscopc c.lgmem where
  brRun :=
    if i.iWbStb && !i.iWbAddr then if i.iWbWe then i.iWbData.getLsbD 31 else s.brRun
    else s.brRun || dwReset c s
  brManual := if i.writeToControl then i.iWbData.getLsbD 27 else s.brManual
  brDisable := if i.writeToControl then i.iWbData.getLsbD 26 else s.brDisable
  brHoldoff := if i.writeToControl then i.iWbData.extractLsb' 0 20 else s.brHoldoff
  drTriggered :=
    if dwReset c s then false
    else if i.iCe && dwTrigger c s i then true
    else s.drTriggered
  drPrimed :=
    if dwReset c s then false
    else if s.recordCe then s.drPrimed || s.waddr == BitVec.allOnes c.lgmem
    else s.drPrimed
  holdoffCounter :=
    if dwReset c s then 0
    else if i.iCe && s.drTriggered && !s.drStopped then s.holdoffCounter + 1
    else s.holdoffCounter
  drStopped :=
    if !s.drTriggered || dwReset c s then false
    else if i.iCe && !s.drStopped then s.brHoldoff ≤ s.holdoffCounter
    else s.drStopped
  drStopPipe :=
    if dwReset c s then 0
    else if i.iCe then s.drStopPipe.extractLsb' 0 4 ++ BitVec.ofBool s.drStopped
    else s.drStopPipe
  ckAddr :=
    if dwReset c s then 0
    else if i.iCe then if toData c s then 0 else s.ckAddr + 1
    else s.ckAddr
  qdData := if i.iCe then i.iData else s.qdData
  drForceWrite :=
    if dwReset c s then true
    else if i.iCe then
      if s.drRunTimeout && !s.drForceWrite && !s.drForceInhibit then true
      else (dwTrigger c s i && !s.drTriggered) || !s.drPrimed
    else s.drForceWrite
  drForceInhibit :=
    if dwReset c s then false else if i.iCe then s.drForceWrite else s.drForceInhibit
  drRunTimeout :=
    if dwReset c s then true
    else if i.iCe then c.maxStep - 1 ≤ s.ckAddr
    else s.drRunTimeout
  newData := if dwReset c s then true else if i.iCe then i.iData != s.qdData else s.newData
  immAdr := if dwReset c s then true else if i.iCe then !toData c s else s.immAdr
  immVal :=
    if dwReset c s then 0
    else if i.iCe then if toData c s then s.qdData else s.ckAddr
    else s.immVal
  lstAdr := if dwReset c s then true else if i.iCe then s.immAdr else s.lstAdr
  lstVal := if dwReset c s then 0 else if i.iCe then s.immVal else s.lstVal
  recordCe := i.iCe && toRecord c s
  rData :=
    if !s.lstAdr || !s.immAdr then BitVec.ofBool s.lstAdr ++ s.lstVal else 0#1 ++ s.qdData
  waddr := if dwReset c s then 0 else if s.recordCe then s.waddr + 1 else s.waddr
  mem := if s.recordCe then fun a => if a = s.waddr then s.rData else s.mem a else s.mem
  raddr :=
    if dwReset c s || i.writeToData then 0
    else if i.readFromData && dwFinalStop c s then s.raddr + 1
    else s.raddr
  thisAddr := if i.readFromData then s.raddr + s.waddr + 1 else s.raddr + s.waddr
  nxtMem := s.mem s.thisAddr
  brPreWbAck := i.iWbStb
  brWbAck := s.brPreWbAck && i.iWbCyc
  oWbData :=
    if !i.iWbAddr then control c s else if !dwFinalStop c s then 0#1 ++ s.qdData else s.nxtMem
  -- bw_reset_complete is the request itself
  brLevelInterrupt := if dwReset c s then false else dwFinalStop c s && !s.brDisable

/-- The registers that the `initial` blocks set are as they say; the others hold what they hold. -/
structure Initial : Prop where
  brRun : s.brRun = false
  brManual : s.brManual = false
  brDisable : s.brDisable = false
  brHoldoff : s.brHoldoff = c.defaultHoldoff
  drTriggered : s.drTriggered = false
  drPrimed : s.drPrimed = false
  holdoffCounter : s.holdoffCounter = 0
  drStopped : s.drStopped = false
  ckAddr : s.ckAddr = 0
  drForceWrite : s.drForceWrite = false
  immAdr : s.immAdr = true
  lstAdr : s.lstAdr = true
  recordCe : s.recordCe = false
  waddr : s.waddr = 0
  brPreWbAck : s.brPreWbAck = false
  brWbAck : s.brWbAck = false
  brLevelInterrupt : s.brLevelInterrupt = false

/-! ## Reset -/

/-- The scope on the clock after a reset; the registers not named here hold what they hold.  Among
them is `record_ce`: a sample on the clock of the reset may send one more word of the old capture. -/
structure AfterReset : Prop where
  triggered : s.drTriggered = false
  primed : s.drPrimed = false
  counter : s.holdoffCounter = 0
  stopped : s.drStopped = false
  stopPipe : s.drStopPipe = 0
  force : s.drForceWrite = true
  fresh : s.newData = true
  immAdr : s.immAdr = true
  immVal : s.immVal = 0
  lstAdr : s.lstAdr = true
  waddr : s.waddr = 0
  raddr : s.raddr = 0

variable {c s i}

/-- A reset takes one clock. -/
theorem afterReset_next (hreset : dwReset c s = true) : AfterReset c (next c s i) where
  triggered := if_pos hreset
  primed := if_pos hreset
  counter := if_pos hreset
  stopped := if_pos (by rw [hreset, Bool.or_true])
  stopPipe := if_pos hreset
  force := if_pos hreset
  fresh := if_pos hreset
  immAdr := if_pos hreset
  immVal := if_pos hreset
  lstAdr := if_pos hreset
  waddr := if_pos hreset
  raddr := if_pos (by rw [hreset, Bool.true_or])

/-- The scope comes up in reset. -/
theorem Initial.dwReset (h : Initial c s) : dwReset c s = true := by
  rw [Wbscopc.dwReset, h.brRun]
  rfl

end Wbscopc

end ZipStormMX.Scope
