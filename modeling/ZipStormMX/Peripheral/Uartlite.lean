/-
  `txuartlite.v` and `rxuartlite.v`: the two ends of a serial line.

  Each has a baud counter with a flag that tells one clock ahead that it is zero.  A frame is a start
  bit, eight data bits, the lowest first, and a stop bit; state 15 is idle, states 0 to 8 are those of
  the frame, state 9 waits for its end.
-/
import Mathlib.Data.BitVec
import ZipStormMX.Clocked

namespace ZipStormMX.Peripheral

/-- One less, in a counter of `tb` bits. -/
def countDown (tb n : ℕ) : ℕ := (n + 2 ^ tb - 1) % 2 ^ tb

/-! ## txuartlite -/

/-- The registers of `txuartlite`. -/
structure Txuartlite where
  baudCounter : ℕ
  state : ℕ
  lclData : BitVec 8
  rBusy : Bool
  zeroBaudCounter : Bool
  oUartTx : Bool
  deriving DecidableEq, Repr

namespace Txuartlite

def init : Txuartlite :=
  { baudCounter := 0, state := 15, lclData := 0xff#8, rBusy := true, zeroBaudCounter := true,
    oUartTx := true }

-- the parameters TIMING_BITS and CLOCKS_PER_BAUD
variable (tb clocksPerBaud : ℕ) (s : Txuartlite) (iWr : Bool) (iData : BitVec 8)

def oBusy : Bool := s.rBusy

/-- A byte is accepted. -/
def accepts : Bool := iWr && !s.rBusy

@[simps]
def next : Txuartlite where
  state :=
    if !s.zeroBaudCounter then s.state
    else if s.state > 8 then if accepts s iWr then 0 else 15
    else s.state + 1
  rBusy :=
    if !s.zeroBaudCounter then true
    else if s.state > 8 then accepts s iWr
    else true
  lclData :=
    if accepts s iWr then iData
    else if s.zeroBaudCounter then 1#1 ++ s.lclData.extractLsb' 1 7
    else s.lclData
  oUartTx :=
    if accepts s iWr then false
    else if s.zeroBaudCounter then s.lclData.getLsbD 0
    else s.oUartTx
  baudCounter :=
    if s.state = 15 then if accepts s iWr then clocksPerBaud - 1 else 0
    else if s.zeroBaudCounter && s.state = 9 then 0
    else if !s.zeroBaudCounter then countDown tb s.baudCounter
    else clocksPerBaud - 1
  zeroBaudCounter :=
    if s.state = 15 then !accepts s iWr
    else if s.zeroBaudCounter && s.state = 9 then true
    else s.baudCounter = 1

end Txuartlite

/-! ## rxuartlite -/

/-- The registers of `rxuartlite`. -/
structure Rxuartlite where
  qUart : Bool
  qqUart : Bool
  ckUart : Bool
  chgCounter : ℕ
  halfBaudTime : Bool
  state : ℕ
  dataReg : BitVec 8
  oWr : Bool
  oData : BitVec 8
  baudCounter : ℕ
  zeroBaudCounter : Bool
  deriving DecidableEq, Repr

namespace Rxuartlite

-- the parameters TIMER_BITS and CLOCKS_PER_BAUD
variable (tb clocksPerBaud : ℕ) (s : Rxuartlite) (iUartRx : Bool)

def init : Rxuartlite :=
  { qUart := true, qqUart := true, ckUart := true, chgCounter := 2 ^ tb - 1, halfBaudTime := false,
    state := 15, dataReg := 0, oWr := false, oData := 0, baudCounter := 0, zeroBaudCounter := true }

def halfBaud : ℕ := clocksPerBaud / 2

/-- The middle of a start bit, seen from the idle state. -/
def starts : Bool := s.state = 15 && !s.ckUart && s.halfBaudTime

@[simps]
def next : Rxuartlite where
  qUart := iUartRx
  qqUart := s.qUart
  ckUart := s.qqUart
  chgCounter :=
    if s.qqUart ≠ s.ckUart then 0
    else if s.chgCounter ≠ 2 ^ tb - 1 then s.chgCounter + 1
    else s.chgCounter
  -- `half_baud-1'b1-1'b1` wraps around below two
  halfBaudTime := !s.ckUart && (halfBaud clocksPerBaud + 2 ^ tb - 2) % 2 ^ tb ≤ s.chgCounter
  state :=
    if s.state = 15 then if !s.ckUart && s.halfBaudTime then 0 else 15
    else if 9 ≤ s.state ∧ s.ckUart = true then 15
    else if s.zeroBaudCounter then if s.state ≤ 8 then s.state + 1 else s.state
    else s.state
  dataReg :=
    if s.zeroBaudCounter && s.state ≠ 8 then
      BitVec.ofBool s.qqUart ++ s.dataReg.extractLsb' 1 7
    else s.dataReg
  oWr := s.zeroBaudCounter && s.state = 8 && s.ckUart
  oData := if s.zeroBaudCounter && s.state = 8 && s.ckUart then s.dataReg else s.oData
  baudCounter :=
    if starts s then clocksPerBaud - 1
    else if s.state = 9 then 0
    else if s.zeroBaudCounter && s.state < 8 then clocksPerBaud - 1
    else if !s.zeroBaudCounter then countDown tb s.baudCounter
    else s.baudCounter
  zeroBaudCounter :=
    if starts s then false
    else if s.state = 9 then true
    else if s.zeroBaudCounter && s.state < 8 then false
    else if s.baudCounter = 1 then true
    else s.zeroBaudCounter

end Rxuartlite

/-! ## The line between them -/

/-- The transmitter and the receiver it drives. -/
structure Uartlite where
  tx : Txuartlite
  rx : Rxuartlite
  deriving DecidableEq, Repr

namespace Uartlite

-- TIMING_BITS of the transmitter, TIMER_BITS of the receiver, and CLOCKS_PER_BAUD of both
variable (tbTx tbRx clocksPerBaud : ℕ)

def init : Uartlite := { tx := Txuartlite.init, rx := Rxuartlite.init tbRx }

def next (s : Uartlite) (i : Bool × BitVec 8) : Uartlite where
  tx := Txuartlite.next tbTx clocksPerBaud s.tx i.1 i.2
  rx := Rxuartlite.next tbRx clocksPerBaud s.rx s.tx.oUartTx

/-- The byte that is accepted. -/
def accepted (s : Uartlite) (i : Bool × BitVec 8) : List (BitVec 8) :=
  if s.tx.accepts i.1 then [i.2] else []

/-- The byte that is strobed. -/
def strobed (s : Uartlite) : List (BitVec 8) := if s.rx.oWr then [s.rx.oData] else []

end Uartlite

end ZipStormMX.Peripheral
