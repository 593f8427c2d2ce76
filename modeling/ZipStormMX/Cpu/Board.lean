/-
  A CPU with a memory on its bus: the closed system in which a program runs.

  `Memdev` is `memdev.v`, and `Board` puts it on the global bus of a CPU.  What remains outside is
  what a board has no say in: reset, interrupts and the debugger (`Controls`).  A run of the board
  is a run of the CPU for the bus answers the memory gives (`Board.run_sys`).
-/
import ZipStormMX.Clocked
import ZipStormMX.Cpu.System
import ZipStormMX.Cpu.Dblfetch
import ZipStormMX.Cpu.Pfcache
import ZipStormMX.Cpu.Memops
import ZipStormMX.Cpu.Pipemem

namespace ZipStormMX.Cpu

variable {AW : ℕ}

/-! ## The memory -/

/-- The registers of `memdev`.  The `last` registers are those of `EXTRACLOCK`. -/
structure Memdev (AW : ℕ) where
  mem : BitVec AW → BitVec 32
  lastWstb : Bool
  lastStb : Bool
  lastAddr : BitVec AW
  lastData : BitVec 32
  lastSel : BitVec 4
  oWbAck : Bool
  oWbData : BitVec 32

namespace Memdev

variable (extraclock : Bool) (m : Memdev AW) (iReset : Bool) (bus : DblMaster AW)

def wWstb : Bool := if extraclock then m.lastWstb else bus.stbA && bus.we
def wStb : Bool := if extraclock then m.lastStb else bus.stbA
def wAddr : BitVec AW := if extraclock then m.lastAddr else bus.adr
def wData : BitVec 32 := if extraclock then m.lastData else bus.dat
def wSel : BitVec 4 := if extraclock then m.lastSel else bus.sel

/-- `old` with the bytes that `sel` selects taken from `new`. -/
def mergeBytes (sel : BitVec 4) (new old : BitVec 32) : BitVec 32 :=
  (if sel.getLsbD 3 then new else old).extractLsb' 24 8
    ++ (if sel.getLsbD 2 then new else old).extractLsb' 16 8
    ++ (if sel.getLsbD 1 then new else old).extractLsb' 8 8
    ++ (if sel.getLsbD 0 then new else old).extractLsb' 0 8

def next : Memdev AW where
  mem := fun a =>
    if wWstb extraclock m bus && a == wAddr extraclock m bus then
      mergeBytes (wSel extraclock m bus) (wData extraclock m bus) (m.mem a)
    else m.mem a
  lastWstb := bus.stbA && bus.we
  lastStb := !iReset && bus.stbA
  lastAddr := bus.adr
  lastData := bus.dat
  lastSel := bus.sel
  oWbAck := !iReset && (wStb extraclock m bus && bus.cycA)
  oWbData := m.mem (wAddr extraclock m bus)

/-- The memory at power on, holding `mem`. -/
def init (mem : BitVec AW → BitVec 32) : Memdev AW where
  mem := mem
  lastWstb := false
  lastStb := false
  lastAddr := 0
  lastData := 0
  lastSel := 0
  oWbAck := false
  oWbData := 0

end Memdev

/-! ## The board -/

/-- The pins of the CPU that do not come from the bus. -/
structure Controls where
  iReset : Bool
  iInterrupt : Bool
  iHalt : Bool
  iClearPfCache : Bool
  iDbgReg : BitVec 5
  iDbgWe : Bool
  iDbgData : BitVec 32
  deriving DecidableEq, Repr

/-- Nobody touches the CPU. -/
def Controls.quiet : Controls where
  iReset := false
  iInterrupt := false
  iHalt := false
  iClearPfCache := false
  iDbgReg := 0
  iDbgWe := false
  iDbgData := 0

/-- A clock of reset. -/
def Controls.reset : Controls := { Controls.quiet with iReset := true }

structure Board (F : FetchUnit AW) (M : MemUnit AW) where
  sys : Sys F M
  memory : Memdev AW

namespace Board

variable (c : CpuCfg AW) (extraclock : Bool) {F : FetchUnit AW} {M : MemUnit AW}

/-- The pins of the CPU: the memory never stalls and knows no errors. -/
def sysIn (b : Board F M) (k : Controls) : SysIn where
  iReset := k.iReset
  iInterrupt := k.iInterrupt
  iHalt := k.iHalt
  iClearPfCache := k.iClearPfCache
  iDbgReg := k.iDbgReg
  iDbgWe := k.iDbgWe
  iDbgData := k.iDbgData
  iWbAck := b.memory.oWbAck
  iWbStall := false
  iWbErr := false
  iWbData := b.memory.oWbData

def next (b : Board F M) (k : Controls) : Board F M where
  sys := b.sys.next c (b.sysIn k)
  memory := b.memory.next extraclock k.iReset (b.sys.bus c (b.sysIn k))

/-- What the CPU sees on its pins while the board runs. -/
def pins (b : Board F M) (k : ℕ → Controls) (n : ℕ) : SysIn :=
  (Clocked.run (next c extraclock) b k n).sysIn (k n)

/-- **The runs of the board are runs of the CPU.** -/
theorem run_sys (b : Board F M) (k : ℕ → Controls) (n : ℕ) :
    (Clocked.run (next c extraclock) b k n).sys =
      Clocked.run (Sys.next c) b.sys (pins c extraclock b k) n :=
  Clocked.run_map (fun _ _ => rfl) b k n

end Board

/-! ## Power on -/

/-- The CPU that is not pipelined, with `dblfetch` and `memops`, at power on. -/
def Sys.init (c : CpuCfg AW) : Sys (dblfetch AW) (memops AW c.memops) where
  cpu := Zipcpu.init c
  pf := Dblfetch.init AW
  mem := Memops.init AW
  rAOwner := true

/-- A memory image: the words of `prog` from address 0, and zeros. -/
def image (prog : List (BitVec 32)) : BitVec AW → BitVec 32 := fun a => prog.getD a.toNat 0

/-- The board at power on, with `prog` in its memory. -/
def Board.init (c : CpuCfg AW) (prog : List (BitVec 32)) :
    Board (dblfetch AW) (memops AW c.memops) where
  sys := Sys.init c
  memory := Memdev.init (image prog)

end ZipStormMX.Cpu
