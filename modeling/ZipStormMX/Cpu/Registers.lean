/-
  `zipcpu.v`: the parameters, the registers and the pins of the CPU, with user mode built in.

  `Zipcpu` holds every register of `zipcpu.v` and those of the blocks that belong to it alone: the
  decoder, the ALU and the divide unit.  The fetch unit and the memory unit stand outside; the CPU
  sees what they drive as inputs (`CpuIn`), so that a fact about the CPU by itself holds whatever
  the bus, the fetch unit and the memory unit do.
-/
import ZipStormMX.Cpu.Idecode
import ZipStormMX.Cpu.Memory
import ZipStormMX.Cpu.Cpuops
import ZipStormMX.Cpu.Div

namespace ZipStormMX.Cpu

/-- The parameters of `zipcpu`, for addresses of `AW` bits. -/
structure CpuCfg (AW : ℕ) where
  resetAddress : BitVec AW
  implementMpy : ℕ
  implementDivide : Bool
  implementFpu : Bool
  implementLock : Bool
  earlyBranching : Bool
  optCis : Bool
  optPipelined : Bool
  optPipelinedBusAccess : Bool
  optTraditionalCache : Bool
  optSim : Bool
  withLocalBus : Bool
  deriving DecidableEq, Repr

namespace CpuCfg

variable {AW : ℕ} (c : CpuCfg AW)

/-- `OPT_MEMPIPE`: pipelined bus access is for the pipelined CPU only. -/
def optMempipe : Bool := c.optPipelined && c.optPipelinedBusAccess

def optLock : Bool := c.implementLock && c.optPipelined

def decode : DecodeCfg where
  optMpy := c.implementMpy != 0
  optEarlyBranching := c.earlyBranching
  optPipelined := c.optPipelined
  optDivide := c.implementDivide
  optFpu := c.implementFpu
  optCis := c.optCis
  optLock := c.optLock
  optOpipe := c.optMempipe
  optSim := c.optSim

end CpuCfg

/-- The bits of the CC register that the CPU writes: `CPU_CLRCACHE_BIT` and the others. -/
def clrcacheBit : ℕ := 14
def fpuerrBit : ℕ := 12
def diverrBit : ℕ := 11
def buserrBit : ℕ := 10
def trapBit : ℕ := 9
def illBit : ℕ := 8
def breakBit : ℕ := 7
def stepBit : ℕ := 6
def gieBit : ℕ := 5
def sleepBit : ℕ := 4

/-- The pins of the CPU during one clock: the interrupt and debug lines, then what the fetch unit
    and the memory unit drive. -/
structure CpuIn (AW : ℕ) where
  iReset : Bool
  iInterrupt : Bool
  iHalt : Bool
  iClearPfCache : Bool
  iDbgReg : BitVec 5
  iDbgWe : Bool
  iDbgData : BitVec 32
  pfInstruction : BitVec 32
  pfInstructionPc : BitVec (AW + 2)
  pfValid : Bool
  pfIllegal : Bool
  pfCyc : Bool
  memBusy : Bool
  memPipeStalled : Bool
  memValid : Bool
  busErr : Bool
  memWe : Bool
  memWreg : BitVec 5
  memResult : BitVec 32

/-- The registers of the CPU. -/
structure Zipcpu (AW : ℕ) where
  regset : BitVec 5 → BitVec 32
  -- the parts of the CC registers
  flags : BitVec 4
  iflags : BitVec 4
  breakEn : Bool
  step : Bool
  sleep : Bool
  rGie : Bool
  rTrap : Bool
  rUbreak : Bool
  illErrI : Bool
  rIllErrU : Bool
  ibusErrFlag : Bool
  rUbusErrFlag : Bool
  rIdivErrFlag : Bool
  rUdivErrFlag : Bool
  rIfpuErrFlag : Bool
  rUfpuErrFlag : Bool
  rIhaltPhase : Bool
  rUhaltPhase : Bool
  -- the program counters
  rUpc : BitVec (AW + 2)
  ipc : BitVec (AW + 2)
  pfPc : BitVec (AW + 2)
  newPc : Bool
  rClearIcache : Bool
  -- decode
  dcd : Idecode AW
  rCcInvalidForDcd : Bool
  rPendingSregWrite : Bool
  preRewriteValue : BitVec 32
  preRewriteFlagA : Bool
  preRewriteFlagB : Bool
  preOpAv : BitVec 32
  preOpBv : BitVec 32
  -- operands
  opValid : Bool
  opValidMem : Bool
  opValidAlu : Bool
  opValidDiv : Bool
  opValidFpu : Bool
  rOpPipe : Bool
  rOpR : BitVec 5
  rOpAid : BitVec 5
  rOpBid : BitVec 5
  rOpRA : Bool
  rOpRB : Bool
  rOpAv : BitVec 32
  rOpBv : BitVec 32
  rOpF : BitVec 7
  rOpBreak : Bool
  rOpLock : Bool
  opIllegal : Bool
  opWF : Bool
  rOpWR : Bool
  rOpPc : BitVec (AW + 2)
  rOpOpn : BitVec 4
  rOpPhase : Bool
  -- execute
  alu : Cpuops
  div : Div
  aluWR : Bool
  aluWF : Bool
  rAluPhase : Bool
  aluReg : BitVec 5
  rAluPc : BitVec (AW + 2)
  rAluIllegal : Bool
  rAluPcValid : Bool
  memPcValid : Bool
  rPrelockStall : Bool
  rPrelockPrimed : Bool
  rBusLock : BitVec 2
  -- write-back
  wrIndex : BitVec 3
  rBreakPending : Bool
  rPendingInterrupt : Bool
  lastWriteToCc : Bool
  -- the debug port
  dbgv : Bool
  dbgVal : BitVec 32
  dbgClearPipe : Bool
  rHalted : Bool
  preDbgReg : BitVec 32
  oDbgReg : BitVec 32
  oDbgCc : BitVec 4

end ZipStormMX.Cpu
