/-
  The timers of the ZipSystem: `ziptimer.v`, `zipjiffies.v`, `zipcounter.v` and `wbwatchdog.v`.

  The first three answer a bus request on the next clock.  `wbwatchdog` is on no bus: it watches one.
-/
import Mathlib.Data.BitVec

namespace ZipStormMX.Peripheral

/-- The request lines of a peripheral that has one register. -/
structure WbReq where
  stb : Bool
  we : Bool
  data : BitVec 32
deriving DecidableEq, Repr

/-! ## ziptimer -/

/-- The registers of `ziptimer`, for words of 32 bits and the 31 bit count of every instance. -/
structure Ziptimer where
  rRunning : Bool
  rZero : Bool
  rAutoReload : Bool
  rIntervalCount : BitVec 31
  rValue : BitVec 31
  oInt : Bool
  oWbAck : Bool
deriving DecidableEq, Repr

namespace Ziptimer

-- a register without an `initial` value is zero here
def init : Ziptimer :=
  { rRunning := false, rZero := true, rAutoReload := false, rIntervalCount := 0, rValue := 0,
    oInt := false, oWbAck := false }

variable (reloadable : Bool) (s : Ziptimer) (iReset iCe : Bool) (w : WbReq)

def wbWrite : Bool := w.stb && w.we

/-- The count in the word on the bus. -/
def written : BitVec 31 := w.data.extractLsb' 0 31

def autoReload : Bool := reloadable && s.rAutoReload

def intervalCount : BitVec 31 := if reloadable then s.rIntervalCount else 0

def nextRunning : Bool :=
  if iReset then false
  else if wbWrite w then written w != 0
  else if s.rZero && !autoReload reloadable s then false
  else s.rRunning

def nextValue : BitVec 31 :=
  if iReset then 0
  else if wbWrite w then written w
  else if iCe && s.rRunning then
    if !s.rZero then s.rValue - 1
    else if autoReload reloadable s then intervalCount reloadable s
    else s.rValue
  else s.rValue

def nextZero : Bool :=
  if iReset then true
  else if wbWrite w then written w == 0
  else if s.rRunning && iCe then
    if s.rValue == 1 then true
    else if s.rZero && autoReload reloadable s then false
    else s.rZero
  else s.rZero

def next : Ziptimer where
  rRunning := nextRunning reloadable s iReset w
  rZero := nextZero reloadable s iReset iCe w
  rAutoReload :=
    if iReset then false
    else if wbWrite w then w.data.getLsbD 31 && written w != 0
    else s.rAutoReload
  rIntervalCount := if wbWrite w then written w else s.rIntervalCount
  rValue := nextValue reloadable s iReset iCe w
  oInt := if iReset || wbWrite w || !iCe then false else s.rValue == 1
  oWbAck := !iReset && w.stb

def oWbData : BitVec 32 := BitVec.ofBool (autoReload reloadable s) ++ s.rValue

end Ziptimer

/-! ## zipjiffies -/

/-- The registers of `zipjiffies`. -/
structure Zipjiffies where
  rCounter : BitVec 32
  intSet : Bool
  newSet : Bool
  intWhen : BitVec 32
  newWhen : BitVec 32
  oInt : Bool
  oWbAck : Bool
deriving DecidableEq, Repr

namespace Zipjiffies

def init : Zipjiffies :=
  { rCounter := 0, intSet := false, newSet := false, intWhen := 0, newWhen := 0, oInt := false,
    oWbAck := false }

variable (s : Zipjiffies) (iReset iCe : Bool) (w : WbReq)

def tillWhen : BitVec 32 := s.intWhen - s.rCounter

def tillWb : BitVec 32 := s.newWhen - s.rCounter

/-- A new time that is still to come. -/
def future : Bool := s.newSet && (0#32).slt (tillWb s)

def nextInt : Bool :=
  if iReset then false
  else if iCe && s.intSet && s.rCounter == s.intWhen then true
  else s.newSet && (tillWb s).sle 0

def nextIntSet : Bool :=
  if iReset then false
  else if future s then true
  else if iCe && s.rCounter == s.intWhen then false
  else s.intSet

def next : Zipjiffies where
  rCounter := if iReset then 0 else if iCe then s.rCounter + 1 else s.rCounter
  intSet := nextIntSet s iReset iCe
  newSet := !iReset && (w.stb && w.we)
  intWhen :=
    if future s && ((tillWb s).slt (tillWhen s) || !s.intSet) then s.newWhen else s.intWhen
  newWhen := if iReset then 0 else w.data
  oInt := nextInt s iReset iCe
  oWbAck := !iReset && w.stb

def oWbData : BitVec 32 := s.rCounter

end Zipjiffies

/-! ## zipcounter -/

/-- The registers of `zipcounter`. -/
structure Zipcounter where
  oInt : Bool
  oWbAck : Bool
  oWbData : BitVec 32
deriving DecidableEq, Repr

namespace Zipcounter

def init : Zipcounter := { oInt := false, oWbAck := false, oWbData := 0 }

variable (s : Zipcounter) (iReset iEvent : Bool) (w : WbReq)

/-- `{ o_int, o_wb_data }` -/
def nextPair : Bool × BitVec 32 :=
  if iReset then (false, 0)
  else if w.stb && w.we then (false, w.data)
  else if iEvent then (s.oWbData == BitVec.allOnes 32, s.oWbData + 1)
  else (false, s.oWbData)

def next : Zipcounter where
  oInt := (nextPair s iReset iEvent w).1
  oWbAck := !iReset && w.stb
  oWbData := (nextPair s iReset iEvent w).2

end Zipcounter

/-! ## wbwatchdog -/

/-- The registers of `wbwatchdog`, for a count of 14 bits. -/
structure Wbwatchdog where
  rValue : BitVec 14
  oInt : Bool
deriving DecidableEq, Repr

namespace Wbwatchdog

def init : Wbwatchdog := { rValue := BitVec.allOnes 14, oInt := false }

def next (s : Wbwatchdog) (iReset : Bool) (iTimeout : BitVec 14) : Wbwatchdog where
  rValue := if iReset then iTimeout else if !s.oInt then s.rValue - 1 else s.rValue
  oInt := if iReset then false else if !s.oInt then s.rValue == 1 else s.oInt

end Wbwatchdog

end ZipStormMX.Peripheral
