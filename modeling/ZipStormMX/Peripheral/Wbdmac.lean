/-
  `wbdmac.v`: the DMA controller.

  Its slave side is the one modelled with `DELAY_ACCESS`: the request lines are registered before
  anything looks at them, so that a request is answered two clocks after it was made.
-/
import ZipStormMX.Peripheral.Timers

namespace ZipStormMX.Peripheral

/-- `dma_state` -/
inductive DmaState where
  | idle | wait | readReq | readAck | preWrite | writeReq | writeAck
deriving DecidableEq, Repr

/-- The lines of the slave side. -/
structure DmaReq where
  cyc : Bool
  stb : Bool
  we : Bool
  addr : BitVec 2
  data : BitVec 32
deriving DecidableEq, Repr

/-- What the bus answers a master. -/
structure WbReply where
  ack : Bool
  stall : Bool
  data : BitVec 32
  err : Bool
deriving DecidableEq, Repr

/-- The registers of `wbdmac`, for words of 32 bits and the block memory of 1024 words. -/
structure Wbdmac (AW : ℕ) where
  rS : DmaReq
  dmaState : DmaState
  cfgErr : Bool
  cfgLenNonzero : Bool
  cfgWaddr : BitVec AW
  cfgRaddr : BitVec AW
  cfgLen : BitVec AW
  cfgBlocklenSubOne : BitVec 10
  cfgIncs : Bool
  cfgIncd : Bool
  cfgDevTrigger : BitVec 5
  cfgOnDevTrigger : Bool
  dmaMem : BitVec 10 → BitVec 32
  nread : BitVec 11
  nwritten : BitVec 11
  nwacks : BitVec 11
  nracks : BitVec 11
  lastReadRequest : Bool
  lastReadAck : Bool
  lastWriteRequest : Bool
  lastWriteAck : Bool
  trigger : Bool
  abort : Bool
  userHalt : Bool
  rdaddr : BitVec 10
  oMwbAddr : BitVec AW
  oMwbData : BitVec 32
  oSwbAck : Bool
  oSwbData : BitVec 32
  oInterrupt : Bool

namespace Wbdmac

variable {AW : ℕ}

-- a register without an `initial` value is zero here
def init (AW : ℕ) : Wbdmac AW where
  rS := { cyc := false, stb := false, we := false, addr := 0, data := 0 }
  dmaState := .idle
  cfgErr := false
  cfgLenNonzero := false
  cfgWaddr := 0
  cfgRaddr := 0
  cfgLen := 0
  cfgBlocklenSubOne := BitVec.allOnes 10
  cfgIncs := false
  cfgIncd := false
  cfgDevTrigger := 0
  cfgOnDevTrigger := false
  dmaMem := fun _ => 0
  nread := 0
  nwritten := 0
  nwacks := 0
  nracks := 0
  lastReadRequest := false
  lastReadAck := false
  lastWriteRequest := false
  lastWriteAck := false
  trigger := false
  abort := false
  userHalt := false
  rdaddr := 0
  oMwbAddr := 0
  oMwbData := 0
  oSwbAck := false
  oSwbData := 0
  oInterrupt := false

variable (s : Wbdmac AW) (iReset : Bool) (slave : DmaReq) (m : WbReply) (iDevInts : BitVec 32)

/-! ### The master side -/

def oMwbCyc : Bool :=
  s.dmaState == .readReq || s.dmaState == .readAck || s.dmaState == .writeReq
    || s.dmaState == .writeAck

def oMwbStb : Bool := s.dmaState == .readReq || s.dmaState == .writeReq

def oMwbWe : Bool :=
  s.dmaState == .preWrite || s.dmaState == .writeReq || s.dmaState == .writeAck

/-! ### The state machine -/

/-- A register write, to the register `addr`. -/
def sWrite (addr : BitVec 2) : Bool := s.rS.stb && s.rS.we && s.rS.addr == addr

/-- The control word that starts a transfer. -/
def startWord : Bool :=
  s.rS.data.extractLsb' 16 12 == 0xfed#12 && s.rS.data.extractLsb' 30 2 == 0b00#2
    && s.cfgLenNonzero

/-- Where the last acknowledgement of a write leads. -/
def writeDone : DmaState := if s.cfgLen.setWidth 32 ≤ 1 then .idle else .wait

def nextDmaState : DmaState :=
  if iReset then .idle
  else match s.dmaState with
  | .idle => if sWrite s 0b00 && startWord s then .wait else .idle
  | .wait => if s.abort then .idle else if s.userHalt then .idle
      else if s.trigger then .readReq else .wait
  | .readReq => if m.err || s.abort then .idle
      else if m.ack && s.lastReadAck then .preWrite
      else if !m.stall && (s.lastReadRequest || s.userHalt) then .readAck
      else .readReq
  | .readAck => if m.err || s.abort then .idle
      else if m.ack && s.userHalt then .idle
      else if m.ack && s.lastReadAck then .preWrite
      else .readAck
  | .preWrite => if s.abort then .idle else .writeReq
  | .writeReq => if m.err || s.abort then .idle
      else if m.ack && s.lastWriteAck then writeDone s
      else if !s.cfgLenNonzero then .idle
      else if !m.stall && s.lastWriteRequest then .writeAck
      else .writeReq
  | .writeAck => if m.err || s.abort then .idle
      else if m.ack && s.lastWriteAck then writeDone s
      else if !s.cfgLenNonzero then .idle
      else .writeAck

/-- The control register is written while nothing runs. -/
def configure : Bool := !iReset && s.dmaState == .idle && sWrite s 0b00

def nextRaddr : BitVec AW :=
  if iReset then s.cfgRaddr
  else if s.dmaState == .idle && sWrite s 0b10 then s.rS.data.extractLsb' 2 AW
  else if (s.dmaState == .readReq || s.dmaState == .readAck) && !(m.err || s.abort) && m.ack
      && s.cfgIncs then s.cfgRaddr + 1
  else s.cfgRaddr

def nextWaddr : BitVec AW :=
  if iReset then s.cfgWaddr
  else if s.dmaState == .idle && sWrite s 0b11 then s.rS.data.extractLsb' 2 AW
  else if s.dmaState == .writeReq && !m.stall && s.cfgIncd then s.cfgWaddr + 1
  else s.cfgWaddr

def nextMwbAddr : BitVec AW :=
  if iReset then s.oMwbAddr
  else match s.dmaState with
  | .idle => s.cfgRaddr
  | .wait => s.cfgRaddr
  | .readReq => if !m.stall && s.cfgIncs then s.oMwbAddr + 1 else s.oMwbAddr
  | .preWrite => s.cfgWaddr
  | .writeReq => if !m.stall && s.cfgIncd then s.oMwbAddr + 1 else s.oMwbAddr
  | _ => s.oMwbAddr

/-! ### The counters -/

/-- The length is written while nothing runs. -/
def setLen : Bool := s.dmaState == .idle && sWrite s 0b01

def wordWritten : Bool := oMwbCyc s && oMwbWe s && m.ack

def nextLen : BitVec AW :=
  if iReset then 0
  else if setLen s then s.rS.data.setWidth AW
  else if wordWritten s m then s.cfgLen - 1
  else s.cfgLen

def nextLenNonzero : Bool :=
  if iReset then false
  else if setLen s then s.rS.data.setWidth AW != 0
  else if wordWritten s m then decide (1 < s.cfgLen.setWidth 32)
  else s.cfgLenNonzero

/-- Nothing is being transferred. -/
def resting : Bool := s.dmaState == .idle || s.dmaState == .wait

def nextNracks : BitVec 11 :=
  if iReset || resting s then 0
  else if oMwbStb s && !oMwbWe s && !m.stall then s.nracks + 1
  else s.nracks

def nextNread : BitVec 11 :=
  if iReset || resting s then 0
  else if !oMwbWe s && m.ack then s.nread + 1
  else s.nread

def nextNwritten : BitVec 11 :=
  if iReset || (!oMwbCyc s || !oMwbWe s) then 0
  else if oMwbStb s && !m.stall then s.nwritten + 1
  else s.nwritten

def nextNwacks : BitVec 11 :=
  if iReset || (!oMwbCyc s || !oMwbWe s) then 0
  else if m.ack then s.nwacks + 1
  else s.nwacks

def nextCfgErr : Bool :=
  if iReset then false
  else if s.dmaState == .idle then if sWrite s 0b00 then false else s.cfgErr
  else if (m.err && oMwbCyc s) || s.abort then true
  else s.cfgErr

/-! ### The predictions

Sums and differences are those of 32 bit integers, as the unsized constants make them. -/

/-- `{ 1'b0, cfg_blocklen_sub_one }` -/
def blocklen : BitVec 32 := s.cfgBlocklenSubOne.setWidth 32

def nextLastReadRequest : Bool :=
  if iReset then false
  else if s.dmaState == .wait || s.dmaState == .readReq then
    if !m.stall && s.dmaState == .readReq then
      s.nracks.setWidth 32 + 1 == blocklen s
        || s.nracks.setWidth 32 == s.cfgLen.setWidth 32 - 2
    else
      s.nracks.setWidth 32 == blocklen s
        || s.nracks.setWidth 32 == s.cfgLen.setWidth 32 - 1
  else false

/-- An acknowledgement with no request leaving on the same clock. -/
def ackAlone : Bool := m.ack && (!oMwbStb s || m.stall)

def nextLastReadAck : Bool :=
  if iReset then false
  else if s.dmaState == .readReq then
    if ackAlone s m then (s.nread + 1).setWidth 32 == blocklen s
    else s.nread.setWidth 32 == blocklen s
  else if s.dmaState == .readAck then
    if ackAlone s m then s.nread.setWidth 32 + 2 == s.nracks.setWidth 32
    else s.nread + 1 == s.nracks
  else false

def nextLastWriteRequest : Bool :=
  if iReset then false
  else if s.dmaState == .preWrite then decide (s.nread ≤ 1)
  else if s.dmaState == .writeReq then
    if m.stall then decide (s.nread.setWidth 32 - 1 ≤ s.nwritten.setWidth 32)
    else decide (s.nread.setWidth 32 - 2 ≤ s.nwritten.setWidth 32)
  else false

def nextLastWriteAck : Bool :=
  if iReset then false
  else if s.dmaState == .writeReq || s.dmaState == .writeAck then
    if ackAlone s m then s.nwacks.setWidth 32 + 2 == s.nwritten.setWidth 32
    else s.nwacks.setWidth 32 + 1 == s.nwritten.setWidth 32
  else false

/-! ### The block memory -/

def nextRdaddr : BitVec 10 :=
  if iReset then 0
  else if s.dmaState == .idle || s.dmaState == .wait || s.dmaState == .writeAck then 0
  else if s.dmaState == .preWrite || (s.dmaState == .writeReq && !m.stall) then s.rdaddr + 1
  else s.rdaddr

def nextMwbData : BitVec 32 :=
  if iReset then 0
  else if s.dmaState != .writeReq || !m.stall then s.dmaMem s.rdaddr
  else s.oMwbData

def nextMem : BitVec 10 → BitVec 32 := fun a =>
  if (s.dmaState == .readReq || s.dmaState == .readAck) && a == s.nread.setWidth 10 then m.data
  else s.dmaMem a

/-! ### The slave side -/

/-- The register at an address. -/
def register (addr : BitVec 2) : BitVec 32 :=
  if addr == 0b00 then
    BitVec.ofBool (s.dmaState != .idle) ++ (BitVec.ofBool s.cfgErr ++ (BitVec.ofBool (!s.cfgIncs)
      ++ (BitVec.ofBool (!s.cfgIncd) ++ (0#1 ++ (s.nread ++ (BitVec.ofBool s.cfgOnDevTrigger
      ++ (s.cfgDevTrigger ++ s.cfgBlocklenSubOne)))))))
  else if addr == 0b01 then s.cfgLen.setWidth 32
  else if addr == 0b10 then s.cfgRaddr.setWidth 30 ++ 0#2
  else s.cfgWaddr.setWidth 30 ++ 0#2

def nextSwbData : BitVec 32 := if iReset then 0 else register s s.rS.addr

/-- A request is answered, busy or not. -/
def nextSwbAck : Bool := if iReset then false else if !slave.cyc then false else s.rS.stb

def nextInterrupt : Bool :=
  if iReset then false
  else (s.dmaState == .writeAck && m.ack && s.lastWriteAck && s.cfgLen.setWidth 32 == 1#32)
    || (s.dmaState != .idle && m.err)

@[simps]
def next : Wbdmac AW where
  rS := { slave with stb := !iReset && slave.stb }
  dmaState := nextDmaState s iReset m
  cfgErr := nextCfgErr s iReset m
  cfgLenNonzero := nextLenNonzero s iReset m
  cfgWaddr := nextWaddr s iReset m
  cfgRaddr := nextRaddr s iReset m
  cfgLen := nextLen s iReset m
  cfgBlocklenSubOne :=
    if configure s iReset then s.rS.data.extractLsb' 0 10 + BitVec.allOnes 10
    else s.cfgBlocklenSubOne
  cfgIncs := if iReset then false else
    if configure s iReset then !s.rS.data.getLsbD 29 else s.cfgIncs
  cfgIncd := if iReset then false else
    if configure s iReset then !s.rS.data.getLsbD 28 else s.cfgIncd
  cfgDevTrigger :=
    if configure s iReset then s.rS.data.extractLsb' 10 5 else s.cfgDevTrigger
  cfgOnDevTrigger := if iReset then false else
    if configure s iReset then s.rS.data.getLsbD 15 else s.cfgOnDevTrigger
  dmaMem := nextMem s m
  nread := nextNread s iReset m
  nwritten := nextNwritten s iReset m
  nwacks := nextNwacks s iReset m
  nracks := nextNracks s iReset m
  lastReadRequest := nextLastReadRequest s iReset m
  lastReadAck := nextLastReadAck s iReset m
  lastWriteRequest := nextLastWriteRequest s iReset m
  lastWriteAck := nextLastWriteAck s iReset m
  trigger := !iReset && (s.dmaState == .wait
    && (!s.cfgOnDevTrigger || iDevInts.getLsbD s.cfgDevTrigger.toNat))
  abort := if iReset || s.dmaState == .idle then false
    else sWrite s 0b00 && s.rS.data == 0xffed0000#32
  userHalt := (s.userHalt && s.dmaState != .idle)
    || (sWrite s 0b00 && s.dmaState != .idle && s.rS.data == 0xafed0000#32)
  rdaddr := nextRdaddr s iReset m
  oMwbAddr := nextMwbAddr s iReset m
  oMwbData := nextMwbData s iReset m
  oSwbAck := nextSwbAck s iReset slave
  oSwbData := nextSwbData s iReset
  oInterrupt := nextInterrupt s iReset m

end Wbdmac

end ZipStormMX.Peripheral
