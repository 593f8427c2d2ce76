/-
  `pipemem.v`: the memory unit of the CPU with pipelined bus access.

  A request may be presented while earlier ones of the same direction are still on the bus.  Where
  each result goes, and which lanes it comes from, waits in a FIFO of sixteen entries; the bus
  (global or local) and the direction are those of the request that opened the cycle.
-/
import ZipStormMX.Cpu.Memory

namespace ZipStormMX.Cpu

/-- The registers of `pipemem`. -/
structure Pipemem (AW : ℕ) where
  cyc : Bool
  rWbCycGbl : Bool
  rWbCycLcl : Bool
  fifoFull : Bool
  rdaddr : BitVec 4
  wraddr : BitVec 4
  fifoOreg : BitVec 4 → BitVec 8
  fifoGie : Bool
  oWbStbGbl : Bool
  oWbStbLcl : Bool
  oWbWe : Bool
  oWbAddr : BitVec AW
  oWbData : BitVec 32
  oWbSel : BitVec 4
  oValid : Bool
  oErr : Bool
  oWreg : BitVec 5
  oResult : BitVec 32
  lockGbl : Bool
  lockLcl : Bool

namespace Pipemem

variable {AW : ℕ} (c : MemCfg) (s : Pipemem AW) (i : MemIn)

/-! ## Wires -/

/-- The parameter `OPT_MAXDEPTH`. -/
def optMaxdepth : BitVec 4 := 0xd#4

-- the default of the `casez` is `i_pipe_stb` as well: with alignment errors on, every request is one
def misaligned : Bool :=
  c.optAlignmentErr &&
    (if badAlignment (laneKey i.iOp i.iAddr) then i.iStb else i.iStb)

/-- With alignment errors on, every request is taken for a misaligned one. -/
theorem misaligned_eq (c : MemCfg) (i : MemIn) :
    misaligned c i = (c.optAlignmentErr && i.iStb) := by
  unfold misaligned
  split <;> rfl

def lclBus : Bool := lclAddr i.iAddr && c.withLocalBus

def lclStb : Bool := lclBus c i && !misaligned c i

def gblStb : Bool := (!lclBus c i || !c.withLocalBus) && !misaligned c i

def fifoFill : BitVec 4 := s.wraddr - s.rdaddr

def nxtRdaddr : BitVec 4 := s.rdaddr + 1

def wWreg : BitVec 8 := s.fifoOreg s.rdaddr

/-- The FIFO is emptied: a bus error, or a misaligned request. -/
def flush : Bool := (i.iWbErr && s.cyc) || (i.iStb && misaligned c i)

/-- The last acknowledgement is here, and no request to follow it. -/
def lastAck : Bool :=
  i.iWbAck && nxtRdaddr s == s.wraddr && (!i.iStb || misaligned c i)

def oWbCycGbl : Bool := s.rWbCycGbl || (c.implementLock && s.lockGbl)

def oWbCycLcl : Bool := s.rWbCycLcl || (c.implementLock && s.lockLcl)

def oPipeStalled (iWbStall : Bool) : Bool :=
  (s.cyc && s.fifoFull) || (s.cyc && (iWbStall || (!s.oWbStbLcl && !s.oWbStbGbl)))

/-! ## The next clock -/

def nextCyc : Bool :=
  if i.iReset then false
  else if s.cyc then if lastAck c s i || i.iWbErr then false else s.cyc
  else if i.iStb then !misaligned c i else s.cyc

def nextCycGbl : Bool :=
  if i.iReset then false
  else if s.cyc then if lastAck c s i || i.iWbErr then false else s.rWbCycGbl
  else if i.iStb then gblStb c i else s.rWbCycGbl

def nextCycLcl : Bool :=
  if i.iReset then false
  else if s.cyc then if lastAck c s i || i.iWbErr then false else s.rWbCycLcl
  else if i.iStb then lclStb c i else s.rWbCycLcl

/-- Nothing more to ask for: the request on the bus is taken, and no other is presented. -/
def stbDone : Bool := (!i.iWbStall && !i.iStb && !misaligned c i) || i.iWbErr

def nextStbGbl : Bool :=
  if i.iReset then false
  else if s.cyc then
    if lastAck c s i || i.iWbErr then false
    else if stbDone c i then false else s.oWbStbGbl
  else if i.iStb then gblStb c i else s.oWbStbGbl

def nextStbLcl : Bool :=
  if i.iReset then false
  else if s.cyc then
    if lastAck c s i || i.iWbErr then false
    else if stbDone c i then false else s.oWbStbLcl
  else if i.iStb then lclStb c i else s.oWbStbLcl

/-- The bus side registers take the request that is presented. -/
def busCe : Bool := !s.cyc || !i.iWbStall

def idleZero : Bool := c.optZeroOnIdle && !i.iStb

def nextFifoFull : Bool :=
  if i.iReset then false
  else if flush c s i then false
  else if i.iStb then optMaxdepth - 1 ≤ fifoFill s
  else optMaxdepth ≤ fifoFill s

@[simps]
def next : Pipemem AW where
  cyc := nextCyc c s i
  rWbCycGbl := nextCycGbl c s i
  rWbCycLcl := nextCycLcl c s i
  fifoFull := nextFifoFull c s i
  rdaddr :=
    if i.iReset then 0
    else if flush c s i then 0
    else if i.iWbAck && s.cyc then s.rdaddr + 1 else s.rdaddr
  wraddr :=
    if i.iReset then 0
    else if flush c s i then 0
    else if i.iStb then s.wraddr + 1 else s.wraddr
  fifoOreg := fun a =>
    if a = s.wraddr then i.iOreg.extractLsb' 0 4 ++ laneKey i.iOp i.iAddr else s.fifoOreg a
  fifoGie := if i.iStb then i.iOreg.getLsbD 4 else s.fifoGie
  oWbStbGbl := nextStbGbl c s i
  oWbStbLcl := nextStbLcl c s i
  oWbWe :=
    if i.iStb && !s.cyc then i.iOp.getLsbD 0
    else if c.optZeroOnIdle && !s.cyc then false else s.oWbWe
  oWbAddr :=
    if busCe s i then if idleZero c i then 0 else i.iAddr.extractLsb' 2 AW else s.oWbAddr
  oWbData :=
    if busCe s i then
      if idleZero c i then 0 else laneData (laneKey i.iOp i.iAddr) i.iData
    else s.oWbData
  oWbSel :=
    if busCe s i then if idleZero c i then 0 else laneSel (laneKey i.iOp i.iAddr) else s.oWbSel
  oValid := !i.iReset && (s.cyc && i.iWbAck && !s.oWbWe)
  oErr := !i.iReset && ((s.cyc && i.iWbErr) || (i.iStb && misaligned c i))
  oWreg := BitVec.ofBool s.fifoGie ++ (wWreg s).extractLsb' 4 4
  oResult :=
    if c.optZeroOnIdle && (!s.cyc || (!i.iWbAck && !i.iWbErr)) then 0
    else laneResult ((wWreg s).extractLsb' 0 4) i.iWbData
  lockGbl :=
    !(i.iReset || flush c s i) && (i.iLock && (s.rWbCycGbl || s.lockGbl))
  lockLcl :=
    !(i.iReset || flush c s i) && (i.iLock && (s.rWbCycLcl || s.lockLcl))

def out : MemOut AW where
  oBusy := s.cyc
  oValid := s.oValid
  oErr := s.oErr
  oWreg := s.oWreg
  oResult := s.oResult
  oWbCycGbl := oWbCycGbl c s
  oWbCycLcl := oWbCycLcl c s
  oWbStbGbl := s.oWbStbGbl
  oWbStbLcl := s.oWbStbLcl
  oWbWe := s.oWbWe
  oWbAddr := s.oWbAddr
  oWbData := s.oWbData
  oWbSel := s.oWbSel

end Pipemem

/-- At power on.  A register without an `initial` value is zero here. -/
def Pipemem.init (AW : ℕ) : Pipemem AW :=
  { cyc := false, rWbCycGbl := false, rWbCycLcl := false, fifoFull := false, rdaddr := 0,
    wraddr := 0, fifoOreg := fun _ => 0, fifoGie := false, oWbStbGbl := false,
    oWbStbLcl := false, oWbWe := false, oWbAddr := 0, oWbData := 0, oWbSel := 0, oValid := false,
    oErr := false, oWreg := 0, oResult := 0, lockGbl := false, lockLcl := false }

/-- `pipemem` as the memory unit of the CPU. -/
def pipemem (AW : ℕ) (c : MemCfg) : MemUnit AW where
  State := Pipemem AW
  step := Pipemem.next c
  out := Pipemem.out c
  oPipeStalled := Pipemem.oPipeStalled

end ZipStormMX.Cpu
