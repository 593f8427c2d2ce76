/-
  `zipbones.v`: the CPU with its debug port and nothing else.

  The debugger has two addresses: a control register (0), whose writes drive the `cmd_` registers,
  and a data register (1), through which it reads and writes the CPU register `cmd_addr`.
-/
import ZipStormMX.Cpu.System
import ZipStormMX.Cpu.Dblfetch
import ZipStormMX.Cpu.Memops

namespace ZipStormMX.Cpu

variable {AW : ℕ}

/-- The configuration of this repository (`cpudefs.v`, `main.v`), but for the reset address: the
    bit serial multiplier, compressed instructions and user mode, and nothing else. -/
def zipConfig (resetAddress : BitVec AW) : CpuCfg AW where
  resetAddress := resetAddress
  implementMpy := 32
  implementDivide := false
  implementFpu := false
  implementLock := true
  earlyBranching := false
  optCis := true
  optPipelined := false
  optPipelinedBusAccess := false
  optTraditionalCache := false
  optSim := false
  withLocalBus := false

/-- `zipcpu` as `zipbones` instantiates it. -/
abbrev BonesCpu (resetAddress : BitVec AW) : Type :=
  Sys (dblfetch AW) (memops AW (zipConfig resetAddress).memops)

/-- `RESET_BIT`, `STEP_BIT`, `HALT_BIT` and `CLEAR_CACHE_BIT` of the control register. -/
def cmdResetBit : ℕ := 6
def cmdStepBit : ℕ := 8
def cmdHaltBit : ℕ := 10
def cmdClearCacheBit : ℕ := 11

/-- The input pins of `zipbones`. -/
structure BonesIn where
  iReset : Bool
  iExtInt : Bool
  iWbAck : Bool
  iWbStall : Bool
  iWbErr : Bool
  iWbData : BitVec 32
  iDbgStb : Bool
  iDbgWe : Bool
  iDbgAddr : Bool
  iDbgData : BitVec 32
  deriving DecidableEq, Repr

/-- The registers of `zipbones`. -/
structure Zipbones (resetAddress : BitVec AW) where
  cpu : BonesCpu resetAddress
  cmdReset : Bool
  cmdHalt : Bool
  cmdStep : Bool
  cmdClearPfCache : Bool
  cmdAddr : BitVec 5

namespace Zipbones

variable {ra : BitVec AW} (startHalted : Bool) (s : Zipbones ra) (i : BonesIn)

def dbgCmdWrite : Bool := i.iDbgStb && i.iDbgWe && !i.iDbgAddr

def cpuDbgWe : Bool := i.iDbgStb && i.iDbgWe && i.iDbgAddr

/-- What `zipcpu` sees.  There is no local bus: a cycle on it is a bus error. -/
def cpuIn : SysIn :=
  let pins : SysIn :=
    { iReset := s.cmdReset
      iInterrupt := i.iExtInt
      iHalt := s.cmdHalt
      iClearPfCache := s.cmdClearPfCache
      iDbgReg := s.cmdAddr
      iDbgWe := cpuDbgWe i
      iDbgData := i.iDbgData
      iWbAck := i.iWbAck
      iWbStall := i.iWbStall
      iWbErr := i.iWbErr
      iWbData := i.iWbData }
  { pins with iWbErr := i.iWbErr || (s.cpu.bus (zipConfig ra) pins).cycB }

def cpuBreak : Bool :=
  Zipcpu.oBreak (zipConfig ra) s.cpu.cpu (s.cpu.cpuIn (zipConfig ra) (cpuIn s i))

def cpuDbgStall : Bool := Zipcpu.oDbgStall s.cpu.cpu

def nextCmdHalt : Bool :=
  if i.iReset then startHalted
  else if s.cmdReset then startHalted
  else if dbgCmdWrite i then i.iDbgData.getLsbD cmdHaltBit && !i.iDbgData.getLsbD cmdStepBit
  else if s.cmdStep || cpuBreak s i then true
  else s.cmdHalt

@[simps]
def next : Zipbones ra where
  cpu := s.cpu.next (zipConfig ra) (cpuIn s i)
  cmdReset := dbgCmdWrite i && i.iDbgData.getLsbD cmdResetBit
  cmdHalt := nextCmdHalt startHalted s i
  cmdStep := dbgCmdWrite i && i.iDbgData.getLsbD cmdStepBit
  cmdClearPfCache := dbgCmdWrite i && i.iDbgData.getLsbD cmdClearCacheBit
  cmdAddr := if dbgCmdWrite i then i.iDbgData.extractLsb' 0 5 else s.cmdAddr

end Zipbones

end ZipStormMX.Cpu
