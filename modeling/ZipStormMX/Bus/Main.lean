/-
  `main.v`: the logic of bus `wb`, between its one master and its peripherals.

  Three bits to five of the word address choose a peripheral.  Registers of one clock (`wb_sio`) and
  of two (`wb_dio`) are answered here; the others answer for themselves.  Whatever answers, the
  acknowledgement goes through one register on its way back, and so does the data, taken from the
  peripheral that `r_wb_bus_select` remembers.
-/
import Mathlib.Data.BitVec
import ZipStormMX.Clocked

namespace ZipStormMX.Bus

/-- What a peripheral drives. -/
structure SlaveLines where
  ack : Bool
  stall : Bool
  data : BitVec 32
  deriving DecidableEq, Repr

/-- The lines that come into the logic of the bus. -/
structure MainIn where
  iReset : Bool
  wbCyc : Bool
  wbStb : Bool
  wbAddr : BitVec 21
  console : SlaveLines
  sdcard : SlaveLines
  bkram : SlaveLines
  flash : SlaveLines
  sdram : SlaveLines
  buildtimeData : BitVec 32
  buspicData : BitVec 32
  spioData : BitVec 32
  versionData : BitVec 32
  bustimerData : BitVec 32
  watchdogData : BitVec 32
  deriving DecidableEq, Repr

/-- The registers. -/
structure Main where
  wbAck : Bool
  wbManyAck : Bool
  wbIdata : BitVec 32
  rWbSioAck : Bool
  rWbSioData : BitVec 32
  rWbDioAck : BitVec 2
  rWbDioBusSelect : Bool
  rWbDioData : BitVec 32
  rWbBusSelect : BitVec 3
  rBuserrAddr : BitVec 21
  rPwrcountData : BitVec 32
  deriving DecidableEq, Repr

namespace Main

/-! ## Address decoding -/

section Select

variable (wbAddr : BitVec 21)

/-- `wb_addr[20:16]`. -/
def page : BitVec 5 := wbAddr.extractLsb' 16 5

def flashcfgSel : Bool := (page wbAddr &&& 0x1f) == 0x01
def wbDioSel : Bool := (page wbAddr &&& 0x1f) == 0x02
def consoleSel : Bool := (page wbAddr &&& 0x1f) == 0x03
def sdcardSel : Bool := (page wbAddr &&& 0x1f) == 0x04
def wbSioSel : Bool := (page wbAddr &&& 0x1f) == 0x05
def bkramSel : Bool := (page wbAddr &&& 0x1f) == 0x06
def flashSel : Bool := (page wbAddr &&& 0x1e) == 0x08
def sdramSel : Bool := (page wbAddr &&& 0x18) == 0x10

/-- The selects, in the order in which the source lists them. -/
def sels : List Bool :=
  [flashcfgSel wbAddr, wbDioSel wbAddr, consoleSel wbAddr, sdcardSel wbAddr, wbSioSel wbAddr,
    bkramSel wbAddr, flashSel wbAddr, sdramSel wbAddr]

end Select

variable (s : Main) (i : MainIn)

def wbNoneSel : Bool := i.wbStb && (sels i.wbAddr).all (!·)

/-! ## The peripherals -/

/-- The answer to `flashcfg` comes together with that of the flash. -/
def flashcfg : SlaveLines := ⟨false, false, i.flash.data⟩
def wbDio : SlaveLines := ⟨s.rWbDioAck.getLsbD 1, false, s.rWbDioData⟩
def wbSio : SlaveLines := ⟨s.rWbSioAck, false, s.rWbSioData⟩

/-- The peripherals, in the same order. -/
def slaves : List SlaveLines :=
  [flashcfg i, wbDio s, i.console, i.sdcard, wbSio s, i.bkram, i.flash, i.sdram]

def acks : List Bool := (slaves s i).map SlaveLines.ack

def buserrData : BitVec 32 := 0#9 ++ s.rBuserrAddr ++ 0#2

def wbStall : Bool :=
  ((sels i.wbAddr).zip (slaves s i)).any fun x => x.1 && x.2.stall

def wbErr : Bool := (i.wbStb && wbNoneSel i) || s.wbManyAck

/-! ## The registers -/

/-- `r_wb_sio_data`, from `wb_addr[2:0]`. -/
def nextSioData : BitVec 32 :=
  match (i.wbAddr.extractLsb' 0 3).toNat with
  | 0 => i.buildtimeData
  | 1 => buserrData s
  | 2 => i.buspicData
  | 3 => s.rPwrcountData
  | 4 => i.spioData
  | _ => i.versionData

def nextDioAck : BitVec 2 :=
  if i.iReset || !i.wbCyc then 0
  else s.rWbDioAck.extractLsb' 0 1 ++ BitVec.ofBool (i.wbStb && wbDioSel i.wbAddr)

def nextDioData : BitVec 32 := if s.rWbDioBusSelect then i.watchdogData else i.bustimerData

/-- `r_wb_bus_select`: the `casez` on `wb_addr[20:16]`. -/
def busSelect (p : BitVec 5) (old : BitVec 3) : BitVec 3 :=
  if p == 0b00001 then 0
  else if p == 0b00010 then 1
  else if p == 0b00011 then 2
  else if p == 0b00100 then 3
  else if p == 0b00101 then 4
  else if p == 0b00110 then 5
  else if p.extractLsb' 1 4 == 0b0100 then 6
  else if p.extractLsb' 3 2 == 0b10 then 7
  else old

def nextBusSelect : BitVec 3 :=
  if i.wbStb && !wbStall s i then busSelect (page i.wbAddr) s.rWbBusSelect else s.rWbBusSelect

/-- `wb_idata`: the `casez` on `r_wb_bus_select`. -/
def nextIdata : BitVec 32 :=
  match s.rWbBusSelect.toNat with
  | 0 => (flashcfg i).data
  | 1 => (wbDio s).data
  | 2 => i.console.data
  | 3 => i.sdcard.data
  | 4 => (wbSio s).data
  | 5 => i.bkram.data
  | 6 => i.flash.data
  | _ => i.sdram.data

def nextPwrcount : BitVec 32 :=
  if s.rPwrcountData.getLsbD 31 then 1#1 ++ (s.rPwrcountData.extractLsb' 0 31 + 1)
  else s.rPwrcountData + 1

/-- The clock. -/
def next : Main where
  wbAck := i.wbCyc && (acks s i).any id
  wbManyAck := if (acks s i).countP id ≤ 1 then false else i.wbCyc
  wbIdata := nextIdata s i
  rWbSioAck := i.wbStb && wbSioSel i.wbAddr
  rWbSioData := nextSioData s i
  rWbDioAck := nextDioAck s i
  rWbDioBusSelect := i.wbAddr.getLsbD 0
  rWbDioData := nextDioData s i
  rWbBusSelect := nextBusSelect s i
  rBuserrAddr := if wbErr s i then i.wbAddr else s.rBuserrAddr
  rPwrcountData := nextPwrcount s

end Main

end ZipStormMX.Bus
