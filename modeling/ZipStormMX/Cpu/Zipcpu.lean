/-
  `zipcpu.v`: the clock.

  One definition for each register, the right hand side of its `always` block, and `Zipcpu.next`,
  which puts them together.
-/
import ZipStormMX.Cpu.Wires

namespace ZipStormMX.Cpu.Zipcpu

variable {AW : ℕ} (c : CpuCfg AW) (s : Zipcpu AW) (x : CpuIn AW)

/-! ## Decode and operands -/

def nextCcInvalidForDcd : Bool :=
  (setCond c s && s.opValid
      && (s.opWF || (opWR c s && opR c s == BitVec.ofBool (gie s) ++ ccReg)))
    || (s.rCcInvalidForDcd && (aluBusy s || memRdbusy c x || divBusy c s || fpuBusy))

def nextPendingSregWrite : Bool :=
  if clearPipeline s then false
  else if issue c s x && setCond c s && !s.opIllegal && opWR c s && isSreg s (opR c s) then true
  else if !memRdbusy c x && !aluBusy s then false else s.rPendingSregWrite

def nextOpPipe : Bool :=
  if clearPipeline s || x.iHalt then false
  else if opCe c s x then dcdPipe c s && s.opValidMem
  else if wrRegCe c s x && wrRegId s x == opBid c s then false
  else if memCe c s x then false else s.rOpPipe

/-- The operand registers are loaded: always, where there is no pipeline. -/
def opLoad : Bool := !c.optPipelined || opCe c s x

def nextOpAv : BitVec 32 :=
  if opLoad c s x then
    if c.optPipelined && wrRegCe c s x && wrRegId s x == s.dcd.oDcdA then wrGpregVl c s x
    else if s.dcd.oDcdApc then wPcV c s (s.dcd.oDcdA.getLsbD 4)
    else if s.dcd.oDcdAcc then ccValue c s (s.dcd.oDcdA.getLsbD 4) (wOpAv s)
    else wOpAv s
  else if wrRegCe c s x && wrRegId s x == opAid c s && opRA c s then wrGpregVl c s x
  else s.rOpAv

def nextOpBv : BitVec 32 :=
  if opLoad c s x then
    if s.dcd.oDcdBpc && s.dcd.oRB then
      wPcV c s (s.dcd.oDcdB.getLsbD 4) + ((dcdI s).extractLsb' 0 30 ++ 0#2)
    else wOpBnI c s x + dcdI s
  else if opRB c s && wrRegCe c s x && opBid c s == wrRegId s x then wrGpregVl c s x
  else s.rOpBv

/-- The condition codes: `{ (flags not used), VNCZ mask, VNCZ value }`. -/
def condOf (k : BitVec 4) : BitVec 7 :=
  match (k.extractLsb' 0 3).toNat with
  | 0 => 0x00#7
  | 1 => 0x11#7
  | 2 => 0x44#7
  | 3 => 0x22#7
  | 4 => 0x08#7
  | 5 => 0x10#7
  | 6 => 0x40#7
  | _ => 0x20#7

/-- `op_valid` and the four that say which unit it is for: `now` is what a new instruction sets the
    flag to, `old` the flag. -/
def nextOpFlag (old now : Bool) : Bool :=
  if x.iReset || clearPipeline s then false
  else if opCe c s x then
    if c.optPipelined || !s.opValid then now
    else if issue c s x then false else old
  else if issue c s x then false else old

def nextOpValid : Bool := nextOpFlag c s x s.opValid (wOpValid c s || dcdEarlyBranch c s)

def nextOpValidAlu : Bool :=
  nextOpFlag c s x s.opValidAlu (wOpValid c s && (s.dcd.oALU || s.dcd.oIllegal))

def nextOpValidMem : Bool :=
  nextOpFlag c s x s.opValidMem (s.dcd.oM && !s.dcd.oIllegal && wOpValid c s)

def nextOpValidDiv : Bool :=
  nextOpFlag c s x s.opValidDiv
    (c.implementDivide && s.dcd.oDV && !s.dcd.oIllegal && wOpValid c s)

def nextOpValidFpu : Bool :=
  nextOpFlag c s x s.opValidFpu
    (c.implementFpu && s.dcd.oFP && !s.dcd.oIllegal && wOpValid c s)

def nextOpBreak : Bool :=
  if clearPipeline s then false
  else if c.optPipelined && opCe c s x then dcdValid s && s.dcd.oBreak && !s.dcd.oIllegal
  else if !c.optPipelined && dcdValid s then s.dcd.oBreak && !s.dcd.oIllegal
  else s.rOpBreak

def nextOpLock : Bool :=
  if clearPipeline s then false
  else if opCe c s x then dcdValid s && s.dcd.oLock && !s.dcd.oIllegal
  else s.rOpLock

def nextOpIllegal : Bool :=
  if x.iReset || clearPipeline s then false
  else if c.optPipelined then
    if opCe c s x then
      dcdValid s && !dcdLjmp c s && !dcdEarlyBranch c s && s.dcd.oIllegal
    else s.opIllegal
  else if dcdValid s then !dcdLjmp c s && !dcdEarlyBranch c s && s.dcd.oIllegal
  else s.opIllegal

def nextOpPhase : Bool :=
  if x.iReset || clearPipeline s then false
  else if opCe c s x then dcdPhase c s && (!s.dcd.oWR || !s.dcd.oDcdRpc)
  else s.rOpPhase

/-! ## Execute -/

def aluReset : Bool := x.iReset || clearPipeline s

/-- What `alu_wR` and `alu_wF` are loaded with: an instruction that fails its condition writes
    nothing. -/
def executes : Bool := setCond c s && !s.opIllegal

def nextAluWR : Bool :=
  if c.optPipelined then
    if x.iReset then false
    else if aluCe c s x then opWR c s && executes c s
    else if !aluBusy s then s.rHalted && x.iDbgWe else s.aluWR
  else opWR c s && executes c s

def nextAluWF : Bool :=
  if c.optPipelined then
    if x.iReset then false
    else if aluCe c s x then s.opWF && executes c s
    else if !aluBusy s then false else s.aluWF
  else s.opWF && executes c s

def nextAluPhase : Bool :=
  if x.iReset || clearPipeline s then false
  else if issue c s x && s.opValid then opPhase c s
  else if issue c s x then false else s.rAluPhase

/-- A debug write that the halted CPU takes. -/
def dbgWrite : Bool := s.rHalted && x.iDbgWe

def nextAluReg : BitVec 5 :=
  if c.optPipelined then
    if adfCeUnconditional c s x then opR c s
    else if dbgWrite s x then x.iDbgReg else s.aluReg
  else if dbgWrite s x then x.iDbgReg else opR c s

def nextWrIndex : BitVec 3 :=
  let loads := if c.optPipelined then memCe c s x || adfCeUnconditional c s x else s.opValid
  let i0 := s.wrIndex
  let i1 := if loads && s.opValidMem then 1#3 else i0
  let i2 := if loads && s.opValidAlu then 2#3 else i1
  let i3 := if loads && s.opValidDiv then 3#3 else i2
  let i4 := if loads && s.opValidFpu then 4#3 else i3
  let i5 := if dbgWrite s x then 0#3 else i4
  if c.implementFpu then i5 else i5 &&& 3#3

def nextDbgClearPipe : Bool :=
  if x.iReset || clearPipeline s then false
  else if dbgWrite s x then
    !c.optPipelined || (x.iDbgReg == opBid c s && opRB c s) || x.iDbgReg.extractLsb' 1 3 == 7#3
  else !c.optPipelined && x.iClearPfCache

def nextAluPc : BitVec (AW + 2) :=
  if x.iReset then 0
  else if adfCeUnconditional c s x
      || (masterCe c s x && s.opValidMem && !clearPipeline s && !memStalled c s x) then opPc c s
  else s.rAluPc

def nextAluIllegal : Bool :=
  if clearPipeline s then false
  else if adfCeUnconditional c s x then s.opIllegal else false

def nextAluPcValid : Bool :=
  if clearPipeline s then false
  else if adfCeUnconditional c s x && !opPhase c s then true
  else if (!aluBusy s && !divBusy c s && !fpuBusy) || clearPipeline s then false
  else s.rAluPcValid

def nextPrelockStall : Bool :=
  if clearPipeline s then false
  else if s.opValid && opLock c s && opCe c s x then true
  else if s.opValid && dcdValid s && x.pfValid then false
  else s.rPrelockStall

def nextPrelockPrimed : Bool :=
  if clearPipeline s then false
  else if s.rPrelockStall then true
  else if issue c s x then false else s.rPrelockPrimed

def nextBusLock : BitVec 2 :=
  if clearPipeline s then 0
  else if s.opValid && issue c s x then
    if s.rPrelockPrimed then 0b10#2
    else if s.rBusLock != 0 then s.rBusLock + 0b11#2 else s.rBusLock
  else s.rBusLock

/-! ## Write-back -/

def nextRegset : BitVec 5 → BitVec 32 := fun r =>
  if wrRegCe c s x && r == wrRegId s x then wrGpregVl c s x else s.regset r

def nextFlags : BitVec 4 :=
  if wrRegCe c s x && wrWriteUcc s x then (wrGpregVl c s x).extractLsb' 0 4
  else if wrFlagsCe c s && gie s then newFlags c s else s.flags

def nextIflags : BitVec 4 :=
  if wrRegCe c s x && wrWriteScc s x then (wrGpregVl c s x).extractLsb' 0 4
  else if wrFlagsCe c s && !gie s then newFlags c s else s.iflags

def nextBreakEn : Bool :=
  if x.iReset || x.iHalt then false
  else if wrRegCe c s x && wrWriteScc s x then ccBit s x breakBit else s.breakEn

def nextBreakPending : Bool :=
  if clearPipeline s || !s.opValid then false
  else if opBreak s && !s.rBreakPending then
    !aluBusy s && !divBusy c s && !fpuBusy && !x.memBusy && !wrRegCe c s x
  else s.rBreakPending

-- a user may set the sleep bit only while staying a user
def nextSleep : Bool :=
  if x.iReset || wSwitchToInterrupt c s x then false
  else if wrRegCe c s x && wrWriteCc s x && !gie s then
    ccBit s x sleepBit && (!x.iInterrupt || !ccBit s x gieBit)
  else if wrRegCe c s x && wrWriteCc s x && ccBit s x gieBit then ccBit s x sleepBit
  else s.sleep

def nextStep : Bool :=
  if x.iReset then false
  else if wrRegCe c s x && !gie s && wrWriteUcc s x then ccBit s x stepBit else s.step

def nextPendingInterrupt : Bool :=
  if x.iReset then false
  else if clearPipeline s || wSwitchToInterrupt c s x || !gie s then false
  else if x.iInterrupt then true
  else if adfCeUnconditional c s x then
    if s.opIllegal || s.step || breakPending c s then true else s.rPendingInterrupt
  else if breakPending c s then true
  else if memCe c s x && s.step then true
  else s.rPendingInterrupt

def nextGie : Bool :=
  if x.iReset then false
  else if wSwitchToInterrupt c s x then false
  else if wReleaseFromInterrupt c s x then true else s.rGie

def nextTrap : Bool :=
  if x.iReset || wReleaseFromInterrupt c s x then false
  else if gie s && wrRegCe c s x && !ccBit s x gieBit && wrWriteUcc s x then true
  else if wrRegCe c s x && wrWriteUcc s x && !gie s then s.rTrap && ccBit s x trapBit
  else s.rTrap

/-- A write to the user CC register by the supervisor or the debugger. -/
def outerUccWrite : Bool := (!gie s || s.dbgv) && wrRegCe c s x && wrWriteUcc s x

def nextUbreak : Bool :=
  if x.iReset || wReleaseFromInterrupt c s x then false
  else if gie s && breakPending c s && wSwitchToInterrupt c s x then true
  else if outerUccWrite c s x then s.rUbreak && ccBit s x breakBit
  else s.rUbreak

/-- A supervisor error flag, set by `err` and cleared by the debugger through bit `b`. -/
def nextIErr (old err : Bool) (b : ℕ) : Bool :=
  if x.iReset then false
  else if s.dbgv && wrWriteScc s x then old && ccBit s x b
  else if err && !gie s then true else old

def nextIllErrI : Bool :=
  nextIErr s x s.illErrI (aluIllegal c s && !clearPipeline s) illBit

def nextIbusErrFlag : Bool := nextIErr s x s.ibusErrFlag x.busErr buserrBit

def nextIdivErrFlag : Bool := nextIErr s x s.rIdivErrFlag (divError c s) diverrBit

def nextIfpuErrFlag : Bool := nextIErr s x s.rIfpuErrFlag (fpuError && fpuValid) fpuerrBit

/-- A user error flag, set by `err`, cleared by the supervisor or the debugger through bit `b` and
    on the way back to user mode. -/
def nextUErr (old err : Bool) (b : ℕ) : Bool :=
  if x.iReset || wReleaseFromInterrupt c s x then false
  else if outerUccWrite c s x then old && ccBit s x b
  else if err && gie s then true else old

def nextIllErrU : Bool :=
  nextUErr c s x s.rIllErrU (aluIllegal c s && !clearPipeline s) illBit

def nextUbusErrFlag : Bool := nextUErr c s x s.rUbusErrFlag x.busErr buserrBit

def nextUdivErrFlag : Bool := nextUErr c s x s.rUdivErrFlag (divError c s) diverrBit

-- here reset and release must come together
def nextUfpuErrFlag : Bool :=
  if x.iReset && wReleaseFromInterrupt c s x then false
  else if outerUccWrite c s x then s.rUfpuErrFlag && ccBit s x fpuerrBit
  else if fpuError && gie s && fpuValid then true else s.rUfpuErrFlag

def nextIhaltPhase : Bool :=
  if x.iReset then false
  else if !gie s && aluPcValid c s && !clearPipeline s then aluPhase c s else s.rIhaltPhase

def nextUhaltPhase : Bool :=
  if x.iReset || wReleaseFromInterrupt c s x then false
  else if gie s && aluPcValid c s then aluPhase c s
  else if !gie s && wrRegCe c s x && wrWritePc s x && (wrRegId s x).getLsbD 4 then
    (wrSpregVl s x).getLsbD 1
  else s.rUhaltPhase

/-! ## Program counters -/

/-- `{ wr_spreg_vl[AW+1:2], 2'b00 }`. -/
def spregPc : BitVec (AW + 2) := byteAddr ((wrSpregVl s x).extractLsb' 2 AW) 0#2

/-- An instruction is over and its address, `alu_pc`, stands. -/
def pcStrobe : Bool :=
  (aluPcValid c s && !clearPipeline s && !aluIllegal c s) || s.memPcValid

def nextUpc : BitVec (AW + 2) :=
  if wrRegCe c s x && (wrRegId s x).getLsbD 4 && wrWritePc s x then spregPc s x
  else if gie s && pcStrobe c s then aluPc c s else s.rUpc

def resetPc : BitVec (AW + 2) := byteAddr c.resetAddress 0#2

def nextIpc : BitVec (AW + 2) :=
  if x.iReset then resetPc c
  else if wrRegCe c s x && !(wrRegId s x).getLsbD 4 && wrWritePc s x then spregPc s x
  else if !gie s && !aluPhase c s && pcStrobe c s then aluPc c s
  else s.ipc

/-- `pfpcsrc`, the priority list of where the next fetch address comes from. -/
def nextPfPc : BitVec (AW + 2) :=
  if x.iReset then resetPc c
  else if s.dbgClearPipe && wrRegCe c s x && wrWritePc s x then spregPc s x
  else if wSwitchToInterrupt c s x || (!gie s && (wClearIcache s || s.dbgClearPipe)) then
    byteAddr (wordOf s.ipc) 0#2
  else if wReleaseFromInterrupt c s x || (gie s && (wClearIcache s || s.dbgClearPipe)) then
    byteAddr (wordOf (upc s)) 0#2
  else if wrRegCe c s x && (wrRegId s x).getLsbD 4 == gie s && wrWritePc s x then spregPc s x
  else if dcdEarlyBranchStb c s && !clearPipeline s then
    byteAddr (wordOf (dcdBranchPc c s) + 1) 0#2
  else if s.newPc || (!pfStalled c s x && x.pfValid) then byteAddr (wordOf s.pfPc + 1) 0#2
  else s.pfPc

def nextClearIcache : Bool :=
  if x.iReset then false
  else if s.rHalted && x.iClearPfCache then true
  else if wrRegCe c s x && wrWriteScc s x then ccBit s x clrcacheBit
  else false

def nextNewPc : Bool :=
  if x.iReset || wClearIcache s || s.dbgClearPipe then true
  else if wSwitchToInterrupt c s x then true
  else if wReleaseFromInterrupt c s x then true
  else wrRegCe c s x && gie s == (wrRegId s x).getLsbD 4 && wrWritePc s x

/-! ## The debug port -/

/-- `debug_pc`. -/
def debugPc (user : Bool) : BitVec 32 :=
  if user then (byteAddr (wordOf (upc s)) (BitVec.ofBool (uhaltPhase c s) ++ 0#1)).setWidth 32
  else (byteAddr (wordOf s.ipc) (BitVec.ofBool (ihaltPhase c s) ++ 0#1)).setWidth 32

/-- A CC register as the debugger reads it, `pre` being what the register file holds of it: the
    `gie` bit is that of the machine. -/
def debugCc (pre : BitVec 32) (user : Bool) : BitVec 32 :=
  let cc := if user then wUflags c s else wIflags c s
  wCpuInfo c ++ pre.extractLsb' 16 7 ++ 0#1
    ++ cc.extractLsb' 6 9 ++ BitVec.ofBool (gie s) ++ cc.extractLsb' 0 5

def nextDbgReg : BitVec 32 :=
  if x.iDbgReg.extractLsb' 0 4 == pcReg then debugPc c s (x.iDbgReg.getLsbD 4)
  else if x.iDbgReg.extractLsb' 0 4 == ccReg then
    debugCc c s s.preDbgReg (x.iDbgReg.getLsbD 4)
  else s.preDbgReg

def nextHalted : Bool :=
  if c.optPipelined then
    x.iHalt && !aluPhase c s && !busLock c s
      && (!x.pfCyc && !x.memBusy && !aluBusy s && !divBusy c s && !fpuBusy
        && (s.opValid || x.iReset || s.dcd.oIllegal)
        && (dcdValid s || x.iReset || x.pfIllegal))
  else
    x.iHalt && !aluPhase c s
      && !x.pfCyc && !x.memBusy && !aluBusy s && !divBusy c s && !fpuBusy

/-! ## All registers -/

@[simps]
def next : Zipcpu AW where
  regset := nextRegset c s x
  flags := nextFlags c s x
  iflags := nextIflags c s x
  breakEn := nextBreakEn c s x
  step := nextStep c s x
  sleep := nextSleep c s x
  rGie := nextGie c s x
  rTrap := nextTrap c s x
  rUbreak := nextUbreak c s x
  illErrI := nextIllErrI c s x
  rIllErrU := nextIllErrU c s x
  ibusErrFlag := nextIbusErrFlag s x
  rUbusErrFlag := nextUbusErrFlag c s x
  rIdivErrFlag := nextIdivErrFlag c s x
  rUdivErrFlag := nextUdivErrFlag c s x
  rIfpuErrFlag := nextIfpuErrFlag s x
  rUfpuErrFlag := nextUfpuErrFlag c s x
  rIhaltPhase := nextIhaltPhase c s x
  rUhaltPhase := nextUhaltPhase c s x
  rUpc := nextUpc c s x
  ipc := nextIpc c s x
  pfPc := nextPfPc c s x
  newPc := nextNewPc c s x
  rClearIcache := nextClearIcache c s x
  dcd := s.dcd.next c.decode (decodeIn c s x)
  rCcInvalidForDcd := nextCcInvalidForDcd c s x
  rPendingSregWrite := nextPendingSregWrite c s x
  preRewriteValue := if dcdCe c s x then wrGpregVl c s x else s.preRewriteValue
  preRewriteFlagA :=
    if dcdCe c s x then wrRegCe c s x && dcdPreA c s x == wrRegId s x else s.preRewriteFlagA
  preRewriteFlagB :=
    if dcdCe c s x then wrRegCe c s x && dcdPreB c s x == wrRegId s x else s.preRewriteFlagB
  preOpAv := if dcdCe c s x then s.regset (dcdPreA c s x) else s.preOpAv
  preOpBv := if dcdCe c s x then s.regset (dcdPreB c s x) else s.preOpBv
  opValid := nextOpValid c s x
  opValidMem := nextOpValidMem c s x
  opValidAlu := nextOpValidAlu c s x
  opValidDiv := nextOpValidDiv c s x
  opValidFpu := nextOpValidFpu c s x
  rOpPipe := nextOpPipe c s x
  rOpR := if opCe c s x then s.dcd.oDcdR else s.rOpR
  rOpAid := if opCe c s x then s.dcd.oDcdA else s.rOpAid
  rOpBid := if opCe c s x then s.dcd.oDcdB else s.rOpBid
  rOpRA :=
    if opCe c s x then s.dcd.oRA && !dcdEarlyBranch c s && !s.dcd.oIllegal else s.rOpRA
  rOpRB :=
    if opCe c s x then s.dcd.oRB && !dcdEarlyBranch c s && !s.dcd.oIllegal else s.rOpRB
  rOpAv := nextOpAv c s x
  rOpBv := nextOpBv c s x
  rOpF := if opLoad c s x then condOf s.dcd.oCond else s.rOpF
  rOpBreak := nextOpBreak c s x
  rOpLock := nextOpLock c s x
  opIllegal := nextOpIllegal c s x
  opWF :=
    if opLoad c s x then s.dcd.oWF && (!s.dcd.oDcdRcc || !s.dcd.oWR) && !dcdEarlyBranch c s
    else s.opWF
  rOpWR := if opCe c s x then s.dcd.oWR && !dcdEarlyBranch c s else s.rOpWR
  rOpPc :=
    if opCe c s x then if dcdEarlyBranch c s then dcdBranchPc c s else s.dcd.oPc else s.rOpPc
  rOpOpn :=
    if opCe c s x then if dcdEarlyBranch c s || s.dcd.oIllegal then 0xd#4 else s.dcd.oOp
    else s.rOpOpn
  rOpPhase := nextOpPhase c s x
  alu := s.alu.next c.implementMpy (aluReset s x) (aluCe c s x) (opOpn c s) (opAv c s x) (opBv c s x)
  div := s.div.next (aluReset s x) (divCe c s x) ((opOpn c s).getLsbD 0) (opAv c s x) (opBv c s x)
  aluWR := nextAluWR c s x
  aluWF := nextAluWF c s x
  rAluPhase := nextAluPhase c s x
  aluReg := nextAluReg c s x
  rAluPc := nextAluPc c s x
  rAluIllegal := nextAluIllegal c s x
  rAluPcValid := nextAluPcValid c s x
  memPcValid := !x.iReset && memCe c s x
  rPrelockStall := nextPrelockStall c s x
  rPrelockPrimed := nextPrelockPrimed c s x
  rBusLock := nextBusLock c s x
  wrIndex := nextWrIndex c s x
  rBreakPending := nextBreakPending c s x
  rPendingInterrupt := nextPendingInterrupt c s x
  lastWriteToCc := !x.iReset && (wrRegCe c s x && wrWriteCc s x)
  dbgv := !x.iReset && (x.iDbgWe && s.rHalted)
  dbgVal := x.iDbgData
  dbgClearPipe := nextDbgClearPipe c s x
  rHalted := nextHalted c s x
  preDbgReg := s.regset x.iDbgReg
  oDbgReg := nextDbgReg c s x
  oDbgCc :=
    BitVec.ofBool (oBreak c s x) ++ BitVec.ofBool x.busErr ++ BitVec.ofBool (gie s)
      ++ BitVec.ofBool s.sleep

/-- The request that the CPU presents to its memory unit, with the answer of the bus. -/
def memIn (ack stall err : Bool) (data : BitVec 32) : MemIn where
  iReset := x.iReset
  iStb := memStb c s x
  iLock := busLock c s
  iOp := (opOpn c s).extractLsb' 0 3
  iAddr := opBv c s x
  iData := opAv c s x
  iOreg := opR c s
  iWbAck := ack
  iWbStall := stall
  iWbErr := err
  iWbData := data

/-- The jump the CPU presents to its fetch unit, with the answer of the bus. -/
def fetchIn (memRequest ack stall err : Bool) (data : BitVec 32) : FetchIn AW where
  iReset := x.iReset
  iNewPc := pfNewPc c s
  iClearCache := wClearIcache s
  iStallN := !pfStalled c s x
  iPc := pfRequestAddress c s
  iPipePc := if s.newPc then s.pfPc else dcdBranchPc c s
  iWbRequest := memRequest
  iWbAck := ack
  iWbStall := stall
  iWbErr := err
  iWbData := data

/-- At power on.  A register without an `initial` value is zero here. -/
def init (c : CpuCfg AW) : Zipcpu AW :=
  { regset := fun _ => 0, flags := 0, iflags := 0, breakEn := false, step := false,
    sleep := false, rGie := false, rTrap := false, rUbreak := false, illErrI := false,
    rIllErrU := false, ibusErrFlag := false, rUbusErrFlag := false, rIdivErrFlag := false,
    rUdivErrFlag := false, rIfpuErrFlag := false, rUfpuErrFlag := false, rIhaltPhase := false,
    rUhaltPhase := false, rUpc := 0, ipc := resetPc c, pfPc := resetPc c,
    newPc := true, rClearIcache := true, dcd := Idecode.init AW, rCcInvalidForDcd := false,
    rPendingSregWrite := false, preRewriteValue := 0, preRewriteFlagA := false,
    preRewriteFlagB := false, preOpAv := 0, preOpBv := 0, opValid := false, opValidMem := false,
    opValidAlu := false, opValidDiv := false, opValidFpu := false, rOpPipe := false, rOpR := 0,
    rOpAid := 0, rOpBid := 0, rOpRA := false, rOpRB := false, rOpAv := 0, rOpBv := 0, rOpF := 0,
    rOpBreak := false, rOpLock := false, opIllegal := false, opWF := false, rOpWR := false,
    rOpPc := 0, rOpOpn := 0, rOpPhase := false, alu := Cpuops.init, div := Div.init,
    aluWR := false, aluWF := false, rAluPhase := false, aluReg := 0, rAluPc := 0,
    rAluIllegal := false, rAluPcValid := false, memPcValid := false, rPrelockStall := false,
    rPrelockPrimed := false, rBusLock := 0, wrIndex := 0, rBreakPending := false,
    rPendingInterrupt := false, lastWriteToCc := false, dbgv := false, dbgVal := 0,
    dbgClearPipe := false, rHalted := false, preDbgReg := 0, oDbgReg := 0, oDbgCc := 0 }

end ZipStormMX.Cpu.Zipcpu
