/-
  `zipsystem.v`: the peripherals around the CPU, and the local bus they are on.

  The CPU is outside: the lines it drives are inputs, and so are the lines of the debug port behind
  its bus delay.  There is no MMU.
-/
import ZipStormMX.Peripheral.Icontrol
import ZipStormMX.Peripheral.Wbdmac

namespace ZipStormMX.Peripheral

/-! ## Parameters and lines -/

/-- The parameters and the macros that decide which peripherals there are. -/
structure ZipsystemCfg where
  externalInterrupts : ℕ
  includeAccountingCounters : Bool
  includeDmaController : Bool
  startHalted : Bool

namespace ZipsystemCfg

variable (c : ZipsystemCfg)

/-- `IUSED` of `pic` -/
def picWidth : ℕ := if c.externalInterrupts < 9 then 6 + c.externalInterrupts else 15

/-- There is a second interrupt controller. -/
def hasCtri : Bool := c.includeAccountingCounters || decide (9 < c.externalInterrupts)

/-- `IUSED` of `ctri` -/
def ctriWidth : ℕ :=
  if c.includeAccountingCounters then 8 + (c.externalInterrupts - 9) else c.externalInterrupts - 9

end ZipsystemCfg

/-- What the CPU drives. -/
structure CpuLines (PAW : ℕ) where
  gblCyc : Bool
  gblStb : Bool
  lclCyc : Bool
  lclStb : Bool
  we : Bool
  addr : BitVec PAW
  data : BitVec 32
  dbgCc : BitVec 4
  brk : Bool
  opStall : Bool
  pfStall : Bool
  iCount : Bool

/-- The debug port. -/
structure DbgLines where
  cyc : Bool
  stb : Bool
  we : Bool
  addr : Bool
  data : BitVec 32

/-- The inputs of one clock. -/
structure ZipsystemIn (PAW : ℕ) (EXT : ℕ) where
  iReset : Bool
  cpu : CpuLines PAW
  dbg : DbgLines
  iWb : WbReply
  iExtInt : BitVec EXT

/-- The accounting counters, in the order of their addresses. -/
inductive Counter where
  | mtc | moc | mpc | mic | utc | uoc | upc | uic
deriving DecidableEq, Repr

/-- `sys_addr[2:0]` of a counter. -/
def Counter.addr : Counter → BitVec 3
  | mtc => 0
  | moc => 1
  | mpc => 2
  | mic => 3
  | utc => 4
  | uoc => 5
  | upc => 6
  | uic => 7

/-! ## The registers -/

/-- The registers of `zipsystem`, its peripherals' included.  Of a peripheral that is there in two
    forms both are present, and the parameters tell which one is looked at. -/
structure Zipsystem (c : ZipsystemCfg) (PAW : ℕ) where
  cmdReset : Bool
  cmdHalt : Bool
  cmdStep : Bool
  cmdAddr : BitVec 6
  watchdog : Ziptimer
  watchbus : Wbwatchdog
  rWdbusData : BitVec PAW
  wdbusAck : Bool
  counters : Counter → Zipcounter
  rActrAck : Bool
  dmac : Wbdmac PAW
  rDmacAck : Bool
  ctri : Icontrol c.ctriWidth
  timerA : Ziptimer
  timerB : Ziptimer
  timerC : Ziptimer
  jiffies : Zipjiffies
  pic : Icontrol c.picWidth
  rMmusAck : Bool
  rAOwner : Bool
  sysIdata : BitVec 32
  sysAck : Bool

namespace Zipsystem

variable {c : ZipsystemCfg} {PAW : ℕ}

-- a register without an `initial` value is zero here
def init (c : ZipsystemCfg) (PAW : ℕ) : Zipsystem c PAW where
  cmdReset := true
  cmdHalt := c.startHalted
  cmdStep := false
  cmdAddr := 0
  watchdog := Ziptimer.init
  watchbus := Wbwatchdog.init
  rWdbusData := 0
  wdbusAck := false
  counters := fun _ => Zipcounter.init
  rActrAck := false
  dmac := Wbdmac.init PAW
  rDmacAck := false
  ctri := Icontrol.init _
  timerA := Ziptimer.init
  timerB := Ziptimer.init
  timerC := Ziptimer.init
  jiffies := Zipjiffies.init
  pic := Icontrol.init _
  rMmusAck := false
  rAOwner := true
  sysIdata := 0
  sysAck := false

variable (s : Zipsystem c PAW) (i : ZipsystemIn PAW c.externalInterrupts)

/-! ## The external bus -/

def dcCyc : Bool := c.includeDmaController && s.dmac.oMwbCyc

def dcStb : Bool := c.includeDmaController && s.dmac.oMwbStb

def oWbCyc : Bool := if s.rAOwner then i.cpu.gblCyc else dcCyc s

def oWbStb : Bool := if s.rAOwner then i.cpu.gblStb else dcStb s

def oWbAddr : BitVec PAW := if s.rAOwner then i.cpu.addr else s.dmac.oMwbAddr

def extErr : Bool := i.iWb.err || s.watchbus.oInt

/-- The acknowledgement of the global bus, for the CPU. -/
def mmuAck : Bool := if s.rAOwner then i.iWb.ack else false

def mmuErr : Bool := if s.rAOwner then extErr s i else false

def cpuErr : Bool := mmuErr s i && i.cpu.gblCyc

/-- The answer of the external bus to the DMA. -/
def dcReply : WbReply where
  ack := if s.rAOwner then false else i.iWb.ack
  stall := if s.rAOwner then true else i.iWb.stall
  data := i.iWb.data
  err := if s.rAOwner then false else extErr s i

/-- `r_a_owner` of the arbiter between the CPU and the DMA. -/
def nextOwner : Bool :=
  if !dcCyc s then true
  else if dcStb s && !i.cpu.gblCyc then false
  else s.rAOwner

/-! ## The local bus -/

def cpuReset : Bool := s.cmdReset

def sysDbgCyc : Bool := (i.dbg.cyc && !i.cpu.lclCyc && i.dbg.addr) && s.cmdAddr.getLsbD 5

def sysCyc : Bool := i.cpu.lclCyc || sysDbgCyc s i

def sysStb : Bool :=
  if i.cpu.lclCyc then i.cpu.lclStb else i.dbg.stb && i.dbg.addr && s.cmdAddr.getLsbD 5

def sysWe : Bool := if i.cpu.lclCyc then i.cpu.we else i.dbg.we

def sysAddr : BitVec 8 :=
  if i.cpu.lclCyc then i.cpu.addr.setWidth 8 else 0#3 ++ s.cmdAddr.extractLsb' 0 5

def sysData : BitVec 32 := if i.cpu.lclCyc then i.cpu.data else i.dbg.data

/-! ### Who is addressed -/

def selPic : Bool := sysStb s i && sysAddr s i == 0x00#8

def selWatchdog : Bool := sysStb s i && sysAddr s i == 0x01#8

def selBusWatchdog : Bool := sysStb s i && sysAddr s i == 0x02#8

def selApic : Bool := sysStb s i && sysAddr s i == 0x03#8

def selTimer : Bool := sysStb s i && (sysAddr s i).extractLsb' 2 6 == 0x1#6

def selCounter : Bool := sysStb s i && (sysAddr s i).extractLsb' 3 5 == 0x1#5

def selDmac : Bool := sysStb s i && (sysAddr s i).extractLsb' 4 4 == 0x1#4

/-- The request lines of a peripheral, with its own strobe. -/
def request (sel : Bool) : WbReq := { stb := sysStb s i && sel, we := sysWe i, data := sysData i }

def watchdogReq : WbReq := request s i (selWatchdog s i)

def counterReq (k : Counter) : WbReq :=
  request s i (selCounter s i && (sysAddr s i).extractLsb' 0 3 == k.addr)

def ctriReq : WbReq := request s i (selApic s i)

def timerReq (which : BitVec 2) : WbReq :=
  request s i (selTimer s i && (sysAddr s i).extractLsb' 0 2 == which)

def picReq : WbReq := request s i (sysCyc s i && selPic s i)

def dmacReq : DmaReq where
  cyc := sysCyc s i
  stb := sysStb s i && selDmac s i
  we := sysWe i
  addr := (sysAddr s i).extractLsb' 0 2
  data := sysData i

/-! ### The answers -/

def tmrAck : Bool :=
  s.timerA.oWbAck || s.timerB.oWbAck || s.timerC.oWbAck || s.jiffies.oWbAck

def tmrData : BitVec 32 :=
  if s.timerA.oWbAck then s.timerA.oWbData true
  else if s.timerB.oWbAck then s.timerB.oWbData true
  else if s.timerC.oWbAck then s.timerC.oWbData true
  else s.jiffies.oWbData

/-- One of the counters answers. -/
def countersAck : Bool :=
  (s.counters .mtc).oWbAck || (s.counters .moc).oWbAck || (s.counters .mpc).oWbAck
    || (s.counters .mic).oWbAck || ((s.counters .utc).oWbAck || (s.counters .uoc).oWbAck
    || (s.counters .upc).oWbAck || (s.counters .uic).oWbAck)

def actrAck : Bool := if c.includeAccountingCounters then countersAck s else s.rActrAck

def actrData : BitVec 32 :=
  if !c.includeAccountingCounters then 0
  else if (s.counters .mtc).oWbAck then (s.counters .mtc).oWbData
  else if (s.counters .moc).oWbAck then (s.counters .moc).oWbData
  else if (s.counters .mpc).oWbAck then (s.counters .mpc).oWbData
  else if (s.counters .mic).oWbAck then (s.counters .mic).oWbData
  else if (s.counters .utc).oWbAck then (s.counters .utc).oWbData
  else if (s.counters .uoc).oWbAck then (s.counters .uoc).oWbData
  else if (s.counters .upc).oWbAck then (s.counters .upc).oWbData
  else (s.counters .uic).oWbData

def dmacAck : Bool := if c.includeDmaController then s.dmac.oSwbAck else s.rDmacAck

def dmacData : BitVec 32 := if c.includeDmaController then s.dmac.oSwbData else 0

def picAck : Bool := Icontrol.oWbAck (picReq s i)

-- nothing drives `ctri_ack` where there is no second controller, and such a net reads as zero
def ctriAck : Bool := c.hasCtri && Icontrol.oWbAck (ctriReq s i)

def ctriData : BitVec 32 := if c.hasCtri then s.ctri.oWbData else 0

def wdbusData : BitVec 32 := s.rWdbusData.setWidth 32

/-- What `sys_idata` takes up: the data of the first peripheral, in this order, that answers. -/
def nextIdata : BitVec 32 :=
  if s.rMmusAck then 0
  else if tmrAck s then tmrData s
  else if s.watchdog.oWbAck then s.watchdog.oWbData false
  else if actrAck s then actrData s
  else if dmacAck s then dmacData s
  else if picAck s i then s.pic.oWbData
  else if ctriAck s i then ctriData s
  else if s.wdbusAck then wdbusData s
  else 0

/-- Any acknowledgement at all. -/
def anyAck : Bool :=
  mmuAck s i || tmrAck s || s.watchdog.oWbAck || actrAck s || dmacAck s || picAck s i
    || ctriAck s i || s.wdbusAck || s.rMmusAck

def nextAck : Bool := if i.iReset || !sysCyc s i then false else anyAck s i

/-! ## Interrupts -/

/-- `mtc_int` and the others, none of them without the counters. -/
def counterInt (k : Counter) : Bool := c.includeAccountingCounters && (s.counters k).oInt

def counterInts : BitVec 8 :=
  BitVec.ofBool (counterInt s .mtc) ++ (BitVec.ofBool (counterInt s .moc)
    ++ (BitVec.ofBool (counterInt s .mpc) ++ (BitVec.ofBool (counterInt s .mic)
    ++ (BitVec.ofBool (counterInt s .utc) ++ (BitVec.ofBool (counterInt s .uoc)
    ++ (BitVec.ofBool (counterInt s .upc) ++ BitVec.ofBool (counterInt s .uic)))))))

def ctriInt : Bool := c.hasCtri && s.ctri.oInterrupt

def dmacInt : Bool := c.includeDmaController && s.dmac.oInterrupt

def mainIntVector : BitVec 15 :=
  i.iExtInt.setWidth 9 ++ (BitVec.ofBool (ctriInt s) ++ (BitVec.ofBool s.timerA.oInt
    ++ (BitVec.ofBool s.timerB.oInt ++ (BitVec.ofBool s.timerC.oInt
    ++ (BitVec.ofBool s.jiffies.oInt ++ BitVec.ofBool (dmacInt s))))))

-- from 15 external interrupts on, the counters are joined by `i_ext_int[14:8]`, not `[15:9]`
def altIntVector : BitVec 15 :=
  if !c.includeAccountingCounters then
    if c.externalInterrupts ≤ 9 then 0 else i.iExtInt.extractLsb' 9 15
  else if c.externalInterrupts ≤ 9 then 0#7 ++ counterInts s
  else if 15 ≤ c.externalInterrupts then i.iExtInt.extractLsb' 8 7 ++ counterInts s
  else i.iExtInt.extractLsb' 9 7 ++ counterInts s

def dmacIntVec : BitVec 32 :=
  0#1 ++ (altIntVector s i ++ (0#1 ++ ((mainIntVector s i).extractLsb' 1 14 ++ 0#1)))

/-! ## The next state -/

def dbgCmdWrite : Bool := i.dbg.stb && i.dbg.we && !i.dbg.addr

def nextHalt : Bool :=
  if i.iReset then c.startHalted
  else if s.cmdReset then c.startHalted
  else if dbgCmdWrite i then i.dbg.data.getLsbD 10 && !i.dbg.data.getLsbD 8
  else if s.cmdStep || i.cpu.brk then true
  else s.cmdHalt

/-- What a counter counts. -/
def event : Counter → Bool
  | .mtc => !s.cmdHalt
  | .moc => i.cpu.opStall
  | .mpc => i.cpu.pfStall
  | .mic => i.cpu.iCount
  | .utc => !s.cmdHalt && i.cpu.dbgCc.getLsbD 1
  | .uoc => i.cpu.opStall && i.cpu.dbgCc.getLsbD 1
  | .upc => i.cpu.pfStall && i.cpu.dbgCc.getLsbD 1
  | .uic => i.cpu.iCount && i.cpu.dbgCc.getLsbD 1

def resetWdbusTimer : Bool := !oWbCyc s i || oWbStb s i || i.iWb.ack

@[simps]
def next : Zipsystem c PAW where
  cmdReset := (dbgCmdWrite i && i.dbg.data.getLsbD 6) || s.watchdog.oInt
  cmdHalt := nextHalt s i
  cmdStep := dbgCmdWrite i && i.dbg.data.getLsbD 8
  cmdAddr := if dbgCmdWrite i then i.dbg.data.extractLsb' 0 6 else s.cmdAddr
  watchdog := s.watchdog.next false (cpuReset s) (!s.cmdHalt) (watchdogReq s i)
  watchbus := s.watchbus.next (cpuReset s || resetWdbusTimer s i) 0x2000
  rWdbusData := if s.watchbus.oInt || cpuErr s i then oWbAddr s i else s.rWdbusData
  wdbusAck := sysCyc s i && sysStb s i && selBusWatchdog s i
  counters := fun k => (s.counters k).next false (event s i k) (counterReq s i k)
  rActrAck := selCounter s i
  dmac := s.dmac.next (cpuReset s) (dmacReq s i) (dcReply s i) (dmacIntVec s i)
  rDmacAck := sysCyc s i && (sysStb s i && selDmac s i)
  ctri := s.ctri.next (cpuReset s) (ctriReq s i) ((altIntVector s i).setWidth _)
  timerA := s.timerA.next true (cpuReset s) (!s.cmdHalt) (timerReq s i 0b00)
  timerB := s.timerB.next true (cpuReset s) (!s.cmdHalt) (timerReq s i 0b01)
  timerC := s.timerC.next true (cpuReset s) (!s.cmdHalt) (timerReq s i 0b10)
  jiffies := s.jiffies.next (cpuReset s) (!s.cmdHalt) (timerReq s i 0b11)
  pic := s.pic.next (cpuReset s) (picReq s i) ((mainIntVector s i).setWidth _)
  rMmusAck := sysStb s i && (sysAddr s i).getLsbD 7
  rAOwner := nextOwner s i
  sysIdata := nextIdata s i
  sysAck := nextAck s i

end Zipsystem

end ZipStormMX.Peripheral
