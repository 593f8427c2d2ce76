/-
  `memops.v`: the memory unit of the CPU without pipelined bus access.

  One request at a time.  `r_wb_cyc_gbl`/`r_wb_cyc_lcl` is the transaction's own cycle,
  `lock_gbl`/`lock_lcl` holds the bus for a locked sequence after the transaction is over, and the
  cycle line seen outside is the OR of the two.
-/
import ZipStormMX.Cpu.Memory

namespace ZipStormMX.Cpu

/-- The registers of `memops`. -/
structure Memops (AW : ℕ) where
  rWbCycGbl : Bool
  rWbCycLcl : Bool
  oWbStbGbl : Bool
  oWbStbLcl : Bool
  oWbWe : Bool
  oWbAddr : BitVec AW
  oWbData : BitVec 32
  oWbSel : BitVec 4
  rOp : BitVec 4
  oValid : Bool
  oErr : Bool
  oWreg : BitVec 5
  oResult : BitVec 32
  lockGbl : Bool
  lockLcl : Bool

namespace Memops

variable {AW : ℕ} (c : MemCfg) (s : Memops AW) (i : MemIn)

/-! ## Wires -/

def misaligned : Bool := c.optAlignmentErr && i.iStb && badAlignment (laneKey i.iOp i.iAddr)

def lclStb : Bool := i.iStb && c.withLocalBus && lclAddr i.iAddr && !misaligned c i

def gblStb : Bool := i.iStb && (!c.withLocalBus || !lclAddr i.iAddr) && !misaligned c i

def oWbCycGbl : Bool := s.rWbCycGbl || (c.implementLock && s.lockGbl)

def oWbCycLcl : Bool := s.rWbCycLcl || (c.implementLock && s.lockLcl)

def oBusy : Bool := s.rWbCycGbl || s.rWbCycLcl

/-! ## The next clock -/

def nextCycGbl : Bool :=
  if i.iReset then false
  else if s.rWbCycGbl || s.rWbCycLcl then
    if i.iWbAck || i.iWbErr then false else s.rWbCycGbl
  else gblStb c i

def nextCycLcl : Bool :=
  if i.iReset then false
  else if s.rWbCycGbl || s.rWbCycLcl then
    if i.iWbAck || i.iWbErr then false else s.rWbCycLcl
  else lclStb c i

-- the strobe looks at the cycle line with the lock in it, where `nextCycGbl` looks at the cycle's
-- own register
def nextStbGbl : Bool :=
  if i.iReset then false
  else if i.iWbErr && s.rWbCycGbl then false
  else if oWbCycGbl c s then s.oWbStbGbl && i.iWbStall
  else gblStb c i

def nextStbLcl : Bool :=
  if i.iReset then false
  else if i.iWbErr && s.rWbCycLcl then false
  else if oWbCycLcl c s then s.oWbStbLcl && i.iWbStall
  else lclStb c i

/-- Nobody uses the bus, and the outputs are to be zeroed when nobody does. -/
def zeroOut : Bool := c.optZeroOnIdle && !oWbCycGbl c s && !oWbCycLcl c s

def nextErr : Bool :=
  if i.iReset then false
  else if s.rWbCycGbl || s.rWbCycLcl then i.iWbErr
  else if i.iStb && !oBusy s then misaligned c i
  else false

def lockKill : Bool := (i.iWbErr && (s.rWbCycGbl || s.rWbCycLcl)) || misaligned c i

def nextLockGbl : Bool :=
  if i.iReset then false
  else if lockKill c s i then false
  else i.iLock && (s.rWbCycGbl || s.lockGbl) && !lclStb c i

def nextLockLcl : Bool :=
  if i.iReset then false
  else if lockKill c s i then false
  else i.iLock && (s.rWbCycLcl || s.lockLcl) && !gblStb c i

@[simps]
def next : Memops AW where
  rWbCycGbl := nextCycGbl c s i
  rWbCycLcl := nextCycLcl c s i
  oWbStbGbl := nextStbGbl c s i
  oWbStbLcl := nextStbLcl c s i
  oWbWe := if i.iStb then i.iOp.getLsbD 0 else if zeroOut c s then false else s.oWbWe
  oWbAddr := if i.iStb then i.iAddr.extractLsb' 2 AW else if zeroOut c s then 0 else s.oWbAddr
  oWbData :=
    if i.iStb then
      if c.optZeroOnIdle then laneData (laneKey i.iOp i.iAddr) i.iData
      else laneCopies (laneKey i.iOp i.iAddr) i.iData
    else if zeroOut c s then 0 else s.oWbData
  oWbSel :=
    if i.iStb then laneSel (laneKey i.iOp i.iAddr) else if zeroOut c s then 0 else s.oWbSel
  rOp := if i.iStb then laneKey i.iOp i.iAddr else s.rOp
  oValid := !i.iReset && ((oWbCycGbl c s || oWbCycLcl c s) && i.iWbAck && !s.oWbWe)
  oErr := nextErr c s i
  oWreg := if i.iStb then i.iOreg else s.oWreg
  oResult := if c.optZeroOnIdle && !i.iWbAck then 0 else laneResult s.rOp i.iWbData
  lockGbl := nextLockGbl c s i
  lockLcl := nextLockLcl c s i

def out : MemOut AW where
  oBusy := oBusy s
  oValid := s.oValid
  oErr := s.oErr
  oWreg := s.oWreg
  oResult := s.oResult
  oWbCycGbl := oWbCycGbl c s
  oWbCycLcl := oWbCycLcl c s
  oWbStbGbl := s.oWbStbGbl
  oWbStbLcl := s.oWbStbLcl
  oWbWe := s.oWbWe
  oWbAddr := s.oWbAddr
  oWbData := s.oWbData
  oWbSel := s.oWbSel

end Memops

/-- At power on.  A register without an `initial` value is zero here. -/
def Memops.init (AW : ℕ) : Memops AW :=
  { rWbCycGbl := false, rWbCycLcl := false, oWbStbGbl := false, oWbStbLcl := false,
    oWbWe := false, oWbAddr := 0, oWbData := 0, oWbSel := 0, rOp := 0, oValid := false,
    oErr := false, oWreg := 0, oResult := 0, lockGbl := false, lockLcl := false }

/-- `memops` as the memory unit of the CPU: `zipcpu.v` ties `mem_pipe_stalled` low. -/
def memops (AW : ℕ) (c : MemCfg) : MemUnit AW where
  State := Memops AW
  step := Memops.next c
  out := Memops.out c
  oPipeStalled _ _ := false

end ZipStormMX.Cpu
