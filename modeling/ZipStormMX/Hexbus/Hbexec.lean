/-
  `hbexec.v`: bus command words become Wishbone transactions, and their results response words.

  One transaction at a time.  The address register is set by an address command and moves on by
  `inc` when a request leaves, whatever the answer to that request is.
-/
import ZipStormMX.Hexbus.Command

namespace ZipStormMX.Hexbus

/-! ## Response words -/

/-- `RSP_WRITE_ACKNOWLEDGEMENT` -/
def rspWriteAcknowledgement : BitVec 34 := 0b01#2 ++ 0#32

/-- `RSP_RESET` -/
def rspReset : BitVec 34 := 0b11#2 ++ (0b000#3 ++ 0#29)

/-- `RSP_BUS_ERROR` -/
def rspBusError : BitVec 34 := 0b11#2 ++ (0b001#3 ++ 0#29)

/-- `RSP_SUB_DATA` and the word read. -/
def rspData (word : BitVec 32) : BitVec 34 := 0b00#2 ++ word

/-- `RSP_SUB_ADDR`, the word address and the flag that it does not increment. -/
def rspAddr (addr : BitVec 30) (inc : Bool) : BitVec 34 :=
  0b10#2 ++ (addr ++ (0#1 ++ BitVec.ofBool !inc))

/-! ## hbexec -/

/-- The registers of `hbexec`, with the 30 address bits that `hbconsole` leaves it at. -/
structure Hbexec where
  oRspStb : Bool
  oRspWord : BitVec 34
  oWbCyc : Bool
  oWbStb : Bool
  oWbWe : Bool
  oWbAddr : BitVec 30
  oWbData : BitVec 32
  newaddr : Bool
  inc : Bool
deriving DecidableEq

/-- What a slave answers. -/
structure WbReply where
  iWbAck : Bool
  iWbStall : Bool
  iWbErr : Bool
  iWbData : BitVec 32
deriving DecidableEq

namespace Hbexec

-- a register without an `initial` value is zero here
def init : Hbexec :=
  { oRspStb := true, oRspWord := rspReset, oWbCyc := false, oWbStb := false, oWbWe := false,
    oWbAddr := 0, oWbData := 0, newaddr := false, inc := false }

variable (s : Hbexec) (iReset iCmdStb : Bool) (iCmdWord : BitVec 34) (w : WbReply)

def iCmdAddr : Bool := iCmdStb && iCmdWord.extractLsb' 32 2 == 0b10#2

def iCmdWr : Bool := iCmdStb && iCmdWord.extractLsb' 32 2 == 0b01#2

def iCmdBus : Bool := iCmdStb && iCmdWord.getLsbD 33 == false

def oCmdBusy : Bool := s.oWbCyc

def nextCyc : Bool :=
  if iReset || (w.iWbErr && s.oWbCyc) then false
  else if s.oWbStb then if !w.iWbStall && w.iWbAck then false else s.oWbCyc
  else if s.oWbCyc then if w.iWbAck then false else s.oWbCyc
  else if iCmdBus iCmdStb iCmdWord then true else s.oWbCyc

def nextStb : Bool :=
  if iReset || (w.iWbErr && s.oWbCyc) then false
  else if s.oWbStb then if !w.iWbStall then false else s.oWbStb
  else if s.oWbCyc then s.oWbStb
  else if iCmdBus iCmdStb iCmdWord then true else s.oWbStb

/-- An address command is taken. -/
def setAddr : Bool := iCmdAddr iCmdStb iCmdWord && !oCmdBusy s

def nextAddr : BitVec 30 :=
  if setAddr s iCmdStb iCmdWord then
    if !iCmdWord.getLsbD 1 then iCmdWord.extractLsb' 2 30
    else iCmdWord.extractLsb' 2 30 + s.oWbAddr
  else if s.oWbStb && !w.iWbStall then s.oWbAddr + (0#29 ++ BitVec.ofBool s.inc)
  else s.oWbAddr

def nextRspStb : Bool :=
  if iReset then true
  else if w.iWbErr then true
  else if s.oWbCyc then w.iWbAck
  else s.newaddr

def nextRspWord : BitVec 34 :=
  if iReset then rspReset
  else if w.iWbErr then rspBusError
  else if s.oWbCyc then
    if s.oWbWe then rspWriteAcknowledgement else rspData w.iWbData
  else rspAddr s.oWbAddr s.inc

@[simps]
def next : Hbexec where
  oRspStb := nextRspStb s iReset w
  oRspWord := nextRspWord s iReset w
  oWbCyc := nextCyc s iReset iCmdStb iCmdWord w
  oWbStb := nextStb s iReset iCmdStb iCmdWord w
  oWbWe := if !s.oWbCyc then iCmdWr iCmdStb iCmdWord else s.oWbWe
  oWbAddr := nextAddr s iCmdStb iCmdWord w
  oWbData := if !s.oWbStb || !w.iWbStall then iCmdWord.extractLsb' 0 32 else s.oWbData
  newaddr := !iReset && setAddr s iCmdStb iCmdWord
  inc := if setAddr s iCmdStb iCmdWord then !iCmdWord.getLsbD 0 else s.inc

/-! ## The command on the input -/

/-- The command offered to `hbexec`, none if it is one without effect. -/
def command (iCmdStb : Bool) (iCmdWord : BitVec 34) : Option BusCmd :=
  if iCmdStb then BusCmd.ofWord iCmdWord else none

/-- The top two bits of a command word tell the commands apart. -/
theorem command_cases (iCmdStb : Bool) (iCmdWord : BitVec 34) :
    (command iCmdStb iCmdWord = none ∧ iCmdBus iCmdStb iCmdWord = false ∧
      iCmdWr iCmdStb iCmdWord = false ∧ iCmdAddr iCmdStb iCmdWord = false) ∨
    (command iCmdStb iCmdWord = some .read ∧ iCmdBus iCmdStb iCmdWord = true ∧
      iCmdWr iCmdStb iCmdWord = false ∧ iCmdAddr iCmdStb iCmdWord = false) ∨
    (command iCmdStb iCmdWord = some (.write (iCmdWord.extractLsb' 0 32)) ∧
      iCmdBus iCmdStb iCmdWord = true ∧ iCmdWr iCmdStb iCmdWord = true ∧
      iCmdAddr iCmdStb iCmdWord = false) ∨
    (command iCmdStb iCmdWord = some (.addr (iCmdWord.extractLsb' 0 32)) ∧
      iCmdBus iCmdStb iCmdWord = false ∧ iCmdWr iCmdStb iCmdWord = false ∧
      iCmdAddr iCmdStb iCmdWord = true) := by
  have hbit : iCmdWord.getLsbD 33 = (iCmdWord.extractLsb' 32 2).getLsbD 1 := by
    rw [BitVec.getLsbD_extractLsb']
    rfl
  unfold command iCmdBus iCmdWr iCmdAddr BusCmd.ofWord
  rw [hbit]
  generalize iCmdWord.extractLsb' 32 2 = op
  cases iCmdStb
  · simp
  · have hop : op = 0b00#2 ∨ op = 0b01#2 ∨ op = 0b10#2 ∨ op = 0b11#2 := by
      revert op
      decide
    rcases hop with rfl | rfl | rfl | rfl <;> simp

/-- The bits of an address command, in the word that carries it. -/
theorem addr_bits (iCmdWord : BitVec 34) :
    iCmdWord.extractLsb' 2 30 = (iCmdWord.extractLsb' 0 32).extractLsb' 2 30 ∧
      iCmdWord.getLsbD 1 = (iCmdWord.extractLsb' 0 32).getLsbD 1 ∧
      iCmdWord.getLsbD 0 = (iCmdWord.extractLsb' 0 32).getLsbD 0 := by
  refine ⟨?_, ?_, ?_⟩
  · rw [BitVec.extractLsb'_extractLsb'_of_le (by omega)]
  · rw [BitVec.getLsbD_extractLsb']
    rfl
  · rw [BitVec.getLsbD_extractLsb']
    rfl

end Hbexec

end ZipStormMX.Hexbus
