/-
  `zipcpu.v`: the wires, stage by stage.

  Each definition is one `assign` (or one combinational block) of the source, under its name.  Where
  a `generate` chooses between a register and a wire, the definition reads the parameter.
-/
import ZipStormMX.Cpu.Registers

namespace ZipStormMX.Cpu.Zipcpu

variable {AW : ℕ} (c : CpuCfg AW) (s : Zipcpu AW) (x : CpuIn AW)

/-- `w_cpu_info`: what this CPU was built with, the top bits of either CC register. -/
def wCpuInfo : BitVec 9 :=
  1#1 ++ BitVec.ofBool (0 < c.implementMpy) ++ BitVec.ofBool c.implementDivide
    ++ BitVec.ofBool c.implementFpu ++ BitVec.ofBool c.optPipelined
    ++ BitVec.ofBool c.optTraditionalCache ++ BitVec.ofBool c.earlyBranching
    ++ BitVec.ofBool c.optMempipe ++ BitVec.ofBool c.optCis

/-! ## Registers that some parameter replaces by a constant -/

def gie : Bool := s.rGie
def clearPipeline : Bool := s.newPc
def wClearIcache : Bool := s.rClearIcache
def trap : Bool := s.rTrap
def ubreak : Bool := s.rUbreak
def illErrU : Bool := s.rIllErrU
def ubusErrFlag : Bool := s.rUbusErrFlag
def idivErrFlag : Bool := c.implementDivide && s.rIdivErrFlag
def udivErrFlag : Bool := c.implementDivide && s.rUdivErrFlag
def ifpuErrFlag : Bool := c.implementFpu && s.rIfpuErrFlag
def ufpuErrFlag : Bool := c.implementFpu && s.rUfpuErrFlag
def ihaltPhase : Bool := c.optCis && s.rIhaltPhase
def uhaltPhase : Bool := c.optCis && s.rUhaltPhase
def upc : BitVec (AW + 2) := s.rUpc
def ccInvalidForDcd : Bool := c.optPipelined && s.rCcInvalidForDcd
def pendingSregWrite : Bool := c.optPipelined && s.rPendingSregWrite
def opPhase : Bool := c.optCis && s.rOpPhase
def opPipe : Bool := c.optMempipe && s.rOpPipe
def opBreak : Bool := s.rOpBreak
def opLock : Bool := c.optLock && s.rOpLock
def aluPhase : Bool := c.optCis && s.rAluPhase
def pendingInterrupt : Bool := s.rPendingInterrupt
def breakPending : Bool := if c.optPipelined then s.rBreakPending else opBreak s

-- the condition of the `generate` as it stands: the lock logic is there for a pipelined CPU
-- without `OPT_LOCK`
def hasLockLogic : Bool := c.optPipelined && !c.optLock
def prelockStall : Bool := hasLockLogic c && s.rPrelockStall
def busLock : Bool := hasLockLogic c && s.rBusLock != 0

/-! ## The execution units -/

def aluValid : Bool := s.alu.oValid
def aluBusy : Bool := s.alu.rBusy
def divBusy : Bool := c.implementDivide && s.div.oBusy
def divValid : Bool := c.implementDivide && s.div.oValid
def divError : Bool := c.implementDivide && s.div.oErr
def divResult : BitVec 32 := if c.implementDivide then s.div.oQuotient else 0
def divFlags : BitVec 4 := if c.implementDivide then s.div.oFlags else 0

-- there is no floating point unit, whatever `IMPLEMENT_FPU` says
def fpuBusy : Bool := false
def fpuValid : Bool := false
def fpuError : Bool := false
def fpuResult : BitVec 32 := 0
def fpuFlags : BitVec 4 := 0

def memRdbusy : Bool := x.memBusy && (!c.optPipelined || !x.memWe)

/-! ## Decode -/

def dcdValid : Bool := s.dcd.rValid
def dcdPhase : Bool := s.dcd.oPhase c.decode
def dcdPipe : Bool := s.dcd.oPipe c.decode
def dcdEarlyBranch : Bool := s.dcd.oEarlyBranch c.decode
def dcdEarlyBranchStb : Bool := s.dcd.oEarlyBranchStb c.decode
def dcdLjmp : Bool := s.dcd.oLjmp c.decode
def dcdBranchPc : BitVec (AW + 2) := s.dcd.oBranchPc c.decode
def dcdI : BitVec 32 := s.dcd.oI

/-! ## Operands -/

def opR : BitVec 5 := if c.optPipelined then s.rOpR else s.dcd.oDcdR
def opAid : BitVec 5 := if c.optPipelined then s.rOpAid else s.dcd.oDcdA
def opBid : BitVec 5 := if c.optPipelined then s.rOpBid else s.dcd.oDcdB
def opRA : Bool := if c.optPipelined then s.rOpRA else s.dcd.oRA
def opRB : Bool := if c.optPipelined then s.rOpRB else s.dcd.oRB
def opWR : Bool := if c.optPipelined || c.earlyBranching then s.rOpWR else s.dcd.oWR
def opPc : BitVec (AW + 2) := if c.optPipelined || c.earlyBranching then s.rOpPc else s.dcd.oPc
def opOpn : BitVec 4 := if c.optPipelined then s.rOpOpn else s.dcd.oOp

/-- `op_F`, eight bits: which of the flags VNCZ matter, then what they must be. -/
def opF : BitVec 8 := BitVec.ofBool (s.rOpF.getLsbD 3) ++ s.rOpF

/-! ## Write-back -/

def aluIllegal : Bool := if c.optPipelined then s.rAluIllegal else s.opIllegal

def aluPc : BitVec (AW + 2) := if c.optPipelined then s.rAluPc else opPc c s

def aluPcValid : Bool := s.rAluPcValid && (!aluBusy s && !divBusy c s && !fpuBusy)

def wrDiscard : Bool := clearPipeline s || aluIllegal c s

/-- `wr_reg_ce`: whether a register is written on this clock. -/
def wrRegCe : Bool :=
  match s.wrIndex.toNat with
  | 0 => s.dbgv
  | 1 => x.memValid
  | 3 => !wrDiscard c s && divValid c s && !divError c s
  | 4 => !wrDiscard c s && fpuValid && !fpuError
  | _ => !wrDiscard c s && (s.aluWR && aluValid s)

def wrRegId : BitVec 5 := if x.memValid then x.memWreg else s.aluReg

def wrWriteCc : Bool := (wrRegId s x).extractLsb' 0 4 == ccReg
def wrWriteScc : Bool := wrRegId s x == 0#1 ++ ccReg
def wrWriteUcc : Bool := wrRegId s x == 1#1 ++ ccReg
def wrWritePc : Bool := (wrRegId s x).extractLsb' 0 4 == pcReg

def wrGpregVl : BitVec 32 :=
  match s.wrIndex.toNat with
  | 0 => s.dbgVal
  | 1 => x.memResult
  | 3 => divResult c s
  | 4 => fpuResult
  | _ => s.alu.oC

def wrSpregVl : BitVec 32 :=
  match (s.wrIndex.extractLsb' 0 2).toNat with
  | 0 => s.dbgVal
  | 1 => x.memResult
  | _ => s.alu.oC

def wrFlagsCe : Bool :=
  s.aluWF && !wrDiscard c s &&
    match s.wrIndex.toNat with
    | 2 => aluValid s
    | 3 => divValid c s && !divError c s
    | 4 => fpuValid && !fpuError
    | _ => false

def wrFlags : BitVec 4 :=
  match s.wrIndex.toNat with
  | 2 => s.alu.oF
  | 3 => divFlags c s
  | 4 => fpuFlags
  | _ => 0

/-- What the flag registers take: unlike `wr_flags`, it does not look at `wr_index`. -/
def newFlags : BitVec 4 :=
  if divValid c s then divFlags c s else if fpuValid then fpuFlags else s.alu.oF

/-- `w_uflags`, the user CC register. -/
def wUflags : BitVec 15 :=
  0#1 ++ BitVec.ofBool (uhaltPhase c s) ++ BitVec.ofBool (ufpuErrFlag c s)
    ++ BitVec.ofBool (udivErrFlag c s) ++ BitVec.ofBool (ubusErrFlag s) ++ BitVec.ofBool (trap s)
    ++ BitVec.ofBool (illErrU s) ++ BitVec.ofBool (ubreak s) ++ BitVec.ofBool s.step ++ 1#1
    ++ BitVec.ofBool s.sleep ++ (if wrFlagsCe c s && gie s then wrFlags c s else s.flags)

/-- `w_iflags`, the supervisor CC register. -/
def wIflags : BitVec 15 :=
  0#1 ++ BitVec.ofBool (ihaltPhase c s) ++ BitVec.ofBool (ifpuErrFlag c s)
    ++ BitVec.ofBool (idivErrFlag c s) ++ BitVec.ofBool s.ibusErrFlag ++ BitVec.ofBool (trap s)
    ++ BitVec.ofBool s.illErrI ++ BitVec.ofBool s.breakEn ++ 0#1 ++ 0#1
    ++ BitVec.ofBool s.sleep ++ (if wrFlagsCe c s && !gie s then wrFlags c s else s.iflags)

/-! ## Operand values -/

def wOpAv : BitVec 32 := if s.preRewriteFlagA then s.preRewriteValue else s.preOpAv
def wOpBv : BitVec 32 := if s.preRewriteFlagB then s.preRewriteValue else s.preOpBv

/-- `w_pcA_v`, `w_pcB_v`: a program counter as an operand, by the register's set bit. -/
def wPcV (set : Bool) : BitVec 32 :=
  if set == gie s then (byteAddr (wordOf s.dcd.oPc) 0#2).setWidth 32
  else (byteAddr (wordOf (upc s)) (BitVec.ofBool (uhaltPhase c s) ++ 0#1)).setWidth 32

/-- A CC register as an operand: what the register file holds of it lies under the live bits. -/
def ccValue (set : Bool) (v : BitVec 32) : BitVec 32 :=
  wCpuInfo c ++ v.extractLsb' 16 7 ++ 0#1 ++ (if set then wUflags c s else wIflags c s)

def wOpBnI : BitVec 32 :=
  if !s.dcd.oRB then 0
  else if c.optPipelined && wrRegCe c s x && wrRegId s x == s.dcd.oDcdB then wrGpregVl c s x
  else if s.dcd.oDcdBcc then ccValue c s (s.dcd.oDcdB.getLsbD 4) (wOpBv s)
  else wOpBv s

def opAv : BitVec 32 :=
  if c.optPipelined && (wrRegCe c s x && wrRegId s x == opAid c s) then wrGpregVl c s x
  else s.rOpAv

def opBv : BitVec 32 :=
  if c.optPipelined && wrRegCe c s x && wrRegId s x == opBid c s && opRB c s then wrGpregVl c s x
  else s.rOpBv

/-- `op_Fl`: the flags of the mode in use. -/
def opFl : BitVec 4 :=
  if gie s then (wUflags c s).extractLsb' 0 4 else (wIflags c s).extractLsb' 0 4

def setCond : Bool := (opF s).extractLsb' 4 4 &&& opFl c s == (opF s).extractLsb' 0 4

/-! ## The master clock enable and the stalls -/

def oBreak : Bool :=
  ((s.breakEn || !gie s) && breakPending c s && !clearPipeline s) || s.illErrI
    || (!gie s && x.busErr) || (!gie s && divError c s) || (!gie s && fpuError)
    || (!gie s && aluIllegal c s && !clearPipeline s)

def ccWriteHold : Bool := (wrRegCe c s x && wrWriteCc s x) || s.lastWriteToCc

def masterCe : Bool :=
  (!x.iHalt || aluPhase c s) && !ccWriteHold c s x && !oBreak c s x && !s.sleep

def masterStall : Bool :=
  !masterCe c s x || !s.opValid || s.illErrI || s.ibusErrFlag || idivErrFlag c s
    || (pendingInterrupt s && !aluPhase c s) || aluBusy s || divBusy c s || fpuBusy || opBreak s
    || (c.optPipelined &&
        ((c.optLock && prelockStall c s) || (x.memBusy && s.opIllegal)
          || (x.memBusy && s.opValidDiv) || aluIllegal c s || oBreak c s x))

/-- The memory stage waits for flags, or for a write to the PC or the CC, which may change the PC
    as well. -/
def memWaits : Bool := wrRegCe c s x && (wrWritePc s x || wrWriteCc s x)

def memStalled : Bool :=
  if c.optMempipe then
    masterStall c s x ||
      (s.opValidMem && (x.memPipeStalled || x.busErr || divError c s
        || (!opPipe c s && x.memBusy) || memWaits c s x))
  else if c.optPipelined then
    masterStall c s x ||
      (s.opValidMem && (x.busErr || divError c s || x.memBusy || memWaits c s x))
  else masterStall c s x

def memCe : Bool :=
  masterCe c s x && s.opValidMem && !memStalled c s x && !clearPipeline s

def adfCeUnconditional : Bool :=
  if c.optPipelined then
    !masterStall c s x && !s.opValidMem && !memRdbusy c x
      && (!x.memBusy || !opWR c s || (opR c s).extractLsb' 1 4 != BitVec.ofBool (gie s) ++ 7#3)
  else !masterStall c s x && s.opValid && !s.opValidMem

def aluCe : Bool := adfCeUnconditional c s x && s.opValidAlu

def divCe : Bool := s.opValidDiv && adfCeUnconditional c s x && setCond c s

/-- `adf_ce_unconditional` or `mem_ce`: the instruction in the operand stage moves on. -/
def issue : Bool := adfCeUnconditional c s x || memCe c s x

/-- `r[3:1] == 3'h7` and `r` is not the PC in use. -/
def isSreg (r : BitVec 5) : Bool := r.extractLsb' 1 3 == 7#3 && r != BitVec.ofBool (gie s) ++ 0xf#4

def dcdAStall : Bool :=
  c.optPipelined &&
    ((s.dcd.oRA && (s.opValid || memRdbusy c x || divBusy c s || fpuBusy)
        && ((s.opWF || ccInvalidForDcd c s) && s.dcd.oDcdAcc))
      || (s.dcd.oRA && s.dcd.oDcdAcc && ccInvalidForDcd c s))

def dcdBStall : Bool :=
  c.optPipelined &&
    ((s.dcd.oRB && (s.opValid || memRdbusy c x || divBusy c s || fpuBusy || aluBusy s)
        && ((!s.dcd.oZI &&
              ((opR c s == s.dcd.oDcdB && opWR c s) || (memRdbusy c x && !dcdPipe c s)
                || ((aluBusy s || divBusy c s) && s.aluReg == s.dcd.oDcdB)
                || (wrRegCe c s x && (wrRegId s x).extractLsb' 1 3 == 7#3)))
            || ((s.opWF || ccInvalidForDcd c s) && s.dcd.oDcdBcc)))
      || (s.dcd.oRB && s.dcd.oDcdBcc && ccInvalidForDcd c s))

def dcdFStall : Bool :=
  c.optPipelined &&
    ((!s.dcd.oCond.getLsbD 3 || (s.dcd.oRA && isSreg s s.dcd.oDcdA)
        || (s.dcd.oRB && isSreg s s.dcd.oDcdB))
      && ((s.opValid && opWR c s && isSreg s (opR c s)) || pendingSregWrite c s))

def opStall : Bool :=
  c.optPipelined &&
    ((s.opValid && (!adfCeUnconditional c s x && !memCe c s x))
      || (dcdValid s && (dcdAStall c s x || dcdBStall c s x || dcdFStall c s)))

def opCe : Bool :=
  if c.optPipelined then (dcdValid s || s.dcd.oIllegal || dcdEarlyBranch c s) && !opStall c s x
  else (dcdValid s || dcdEarlyBranch c s) && !opStall c s x

def dcdStalled : Bool :=
  if c.optPipelined then dcdValid s && opStall c s x
  else !masterCe c s x || s.illErrI || dcdValid s || s.opValid || s.ibusErrFlag || idivErrFlag c s
    || aluBusy s || divBusy c s || fpuBusy || x.memBusy

def dcdCe : Bool := (c.optPipelined && !dcdValid s) || !dcdStalled c s x

def wOpValid : Bool :=
  !clearPipeline s && dcdValid s && !dcdLjmp c s && !dcdEarlyBranch c s

/-- The inputs of the decoder. -/
def decodeIn : DecodeIn AW where
  iReset := x.iReset || clearPipeline s || wClearIcache s
  iCe := dcdCe c s x
  iStalled := dcdStalled c s x
  iInstruction := x.pfInstruction
  iGie := gie s
  iPc := x.pfInstructionPc
  iPfValid := x.pfValid
  iIllegal := x.pfIllegal

def dcdPreA : BitVec 5 := s.dcd.oPreA c.decode (decodeIn c s x)
def dcdPreB : BitVec 5 := s.dcd.oPreB c.decode (decodeIn c s x)

/-! ## Fetch -/

def pfStalled : Bool := dcdStalled c s x || dcdPhase c s

def pfNewPc : Bool := s.newPc || (dcdEarlyBranchStb c s && !clearPipeline s)

def pfRequestAddress : BitVec (AW + 2) :=
  if dcdEarlyBranchStb c s && !clearPipeline s then dcdBranchPc c s else s.pfPc

/-! ## Modes -/

/-- A register that is written with the bit `b` of a CC register set. -/
def ccBit (b : ℕ) : Bool := (wrSpregVl s x).getLsbD b

/-- The five causes of leaving user mode. -/
def wSwitchToInterrupt : Bool :=
  gie s &&
    ((pendingInterrupt s && !aluPhase c s && !busLock c s && !x.memBusy)
      || divError c s || fpuError || x.busErr
      || (wrRegCe c s x && !ccBit s x gieBit && (wrRegId s x).getLsbD 4 && wrWriteCc s x))

def wReleaseFromInterrupt : Bool :=
  !gie s && !x.iInterrupt && (wrRegCe c s x && ccBit s x gieBit && wrWriteScc s x)

/-! ## Outputs -/

def oDbgStall : Bool := !s.rHalted

def oICount : Bool := aluPcValid c s && !clearPipeline s

/-- The request to the memory unit. -/
def memStb : Bool := memCe c s x && setCond c s

end ZipStormMX.Cpu.Zipcpu
