/-
  `zipcpu.v` as a whole: the CPU with its fetch unit, its memory unit and the arbiter between them.

  Everything is generic in the fetch unit and the memory unit, which the source chooses by macros.
  Of the two masters the memory unit has priority in the pipelined CPU and the fetch unit in the
  other one.
-/
import ZipStormMX.Cpu.Zipcpu
import ZipStormMX.Cpu.Wbdblpriarb
import ZipStormMX.Cpu.Memops
import ZipStormMX.Cpu.Pipemem

namespace ZipStormMX.Cpu

variable {AW : ℕ}

/-- The input pins of `zipcpu`. -/
structure SysIn where
  iReset : Bool
  iInterrupt : Bool
  iHalt : Bool
  iClearPfCache : Bool
  iDbgReg : BitVec 5
  iDbgWe : Bool
  iDbgData : BitVec 32
  iWbAck : Bool
  iWbStall : Bool
  iWbErr : Bool
  iWbData : BitVec 32
  deriving DecidableEq, Repr

/-- The registers of `zipcpu` with those of the blocks it shares a bus with. -/
structure Sys (F : FetchUnit AW) (M : MemUnit AW) where
  cpu : Zipcpu AW
  pf : F.State
  mem : M.State
  rAOwner : Bool

namespace Sys

variable (c : CpuCfg AW) {F : FetchUnit AW} {M : MemUnit AW} (s : Sys F M) (i : SysIn)

/-! ## The fetch unit and the memory unit -/

def pfOut : FetchOut AW :=
  F.out s.pf i.iReset (Zipcpu.pfNewPc c s.cpu) (Zipcpu.wClearIcache s.cpu)

def memOut : MemOut AW := M.out s.mem

/-- The memory unit on the arbiter. -/
def memMaster : DblMaster AW where
  cycA := (memOut s).oWbCycGbl
  cycB := (memOut s).oWbCycLcl
  stbA := (memOut s).oWbStbGbl
  stbB := (memOut s).oWbStbLcl
  we := (memOut s).oWbWe
  adr := (memOut s).oWbAddr
  dat := (memOut s).oWbData
  sel := (memOut s).oWbSel

/-- The fetch unit on the arbiter.  It writes nothing, so that `mem_data` and `mem_sel` can be
    shared with the memory unit. -/
def pfMaster : DblMaster AW where
  cycA := (pfOut c s i).oWbCyc
  cycB := false
  stbA := (pfOut c s i).oWbStb
  stbB := false
  we := false
  adr := (pfOut c s i).oWbAddr
  dat := (memOut s).oWbData
  sel := (memOut s).oWbSel

/-! ## The arbiter -/

def masterA : DblMaster AW := if c.optPipelined then memMaster s else pfMaster c s i

def masterB : DblMaster AW := if c.optPipelined then pfMaster c s i else memMaster s

def slave : DblReply where
  ack := i.iWbAck
  stall := i.iWbStall
  err := i.iWbErr

def memReply : DblReply :=
  if c.optPipelined then Wbdblpriarb.replyA s.rAOwner (slave i)
  else Wbdblpriarb.replyB s.rAOwner (slave i)

def pfReply : DblReply :=
  if c.optPipelined then Wbdblpriarb.replyB s.rAOwner (slave i)
  else Wbdblpriarb.replyA s.rAOwner (slave i)

/-- The lines of the bus. -/
def bus : DblMaster AW := Wbdblpriarb.bus s.rAOwner (masterA c s i) (masterB c s i)

/-! ## The clock -/

/-- What the CPU sees. -/
@[simps]
def cpuIn : CpuIn AW where
  iReset := i.iReset
  iInterrupt := i.iInterrupt
  iHalt := i.iHalt
  iClearPfCache := i.iClearPfCache
  iDbgReg := i.iDbgReg
  iDbgWe := i.iDbgWe
  iDbgData := i.iDbgData
  pfInstruction := (pfOut c s i).oInsn
  pfInstructionPc := (pfOut c s i).oPc
  pfValid := (pfOut c s i).oValid
  pfIllegal := (pfOut c s i).oIllegal
  pfCyc := (pfOut c s i).oWbCyc
  memBusy := (memOut s).oBusy
  memPipeStalled := M.oPipeStalled s.mem (memReply c s i).stall
  memValid := (memOut s).oValid
  busErr := (memOut s).oErr
  memWe := (memOut s).oWbWe
  memWreg := (memOut s).oWreg
  memResult := (memOut s).oResult

/-- What the memory unit sees. -/
def memIn : MemIn :=
  Zipcpu.memIn c s.cpu (cpuIn c s i) (memReply c s i).ack (memReply c s i).stall
    (memReply c s i).err i.iWbData

/-- What the fetch unit sees. -/
def fetchIn : FetchIn AW :=
  Zipcpu.fetchIn c s.cpu (cpuIn c s i) ((memOut s).oWbCycLcl || (memOut s).oWbCycGbl)
    (pfReply c s i).ack (pfReply c s i).stall (pfReply c s i).err i.iWbData

@[simps]
def next : Sys F M where
  cpu := Zipcpu.next c s.cpu (cpuIn c s i)
  pf := F.step s.pf (fetchIn c s i)
  mem := M.step s.mem (memIn c s i)
  rAOwner := Wbdblpriarb.nextOwner s.rAOwner (masterA c s i) (masterB c s i) i.iReset

end Sys

/-! ## The memory units of the CPU -/

/-- The parameters `zipcpu.v` gives to `memops`; the others keep their defaults. -/
def CpuCfg.memops (c : CpuCfg AW) : MemCfg where
  implementLock := c.optLock
  withLocalBus := c.withLocalBus
  optAlignmentErr := true
  optZeroOnIdle := false

/-- The parameters `zipcpu.v` gives to `pipemem`. -/
def CpuCfg.pipemem (c : CpuCfg AW) : MemCfg where
  implementLock := c.optLock
  withLocalBus := c.withLocalBus
  optAlignmentErr := false
  optZeroOnIdle := false

/-- The memory unit that `zipcpu.v` instantiates without a data cache. -/
def CpuCfg.memUnit (c : CpuCfg AW) : MemUnit AW :=
  match c.optMempipe with
  | true => Cpu.pipemem AW c.pipemem
  | false => Cpu.memops AW c.memops

end ZipStormMX.Cpu
