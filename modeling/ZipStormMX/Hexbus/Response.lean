/-
  `hbints.v`, `hbidle.v`, `hbdeword.v`, `hbgenhex.v` and `hbnewline.v`: from response words to the
  characters sent.

  The first two may put a word of their own between the responses (an interrupt, a sign of life).
  `hbdeword` cuts a word into a letter and its digits, `hbgenhex` names them, and `hbnewline` adds
  a carriage return and a line feed whenever nothing more is waiting.
-/
import Mathlib.Tactic.Common
import Mathlib.Tactic.Simps.Basic

namespace ZipStormMX.Hexbus

/-! ## hbints -/

/-- `INT_WORD` -/
def intWord : BitVec 34 := 0b11010#5 ++ 0#29

/-- The registers of `hbints`. -/
structure Hbints where
  intState : Bool
  pendingInterrupt : Bool
  loaded : Bool
  intLoaded : Bool
  oIntStb : Bool
  oIntWord : BitVec 34
deriving DecidableEq

namespace Hbints

def init : Hbints :=
  { intState := false, pendingInterrupt := false, loaded := false, intLoaded := true,
    oIntStb := false, oIntWord := intWord }

variable (s : Hbints) (iReset iInterrupt iStb : Bool) (iWord : BitVec 34) (iBusy : Bool)

def oIntBusy : Bool := s.oIntStb && s.loaded

def nextState : Bool :=
  if iReset then false
  else if iInterrupt && !s.intState then true
  else if !s.pendingInterrupt && !iInterrupt then false
  else s.intState

def nextPending : Bool :=
  if iReset then false
  else if iInterrupt && !s.intState then true
  else if s.oIntStb && !iBusy && s.intLoaded then false
  else s.pendingInterrupt

def nextLoaded : Bool :=
  if iReset then false
  else if iStb && !oIntBusy s then true
  else if s.oIntStb && !iBusy then false
  else s.loaded

def nextStb : Bool :=
  if iReset then false
  else if iStb && !oIntBusy s then true
  else if s.pendingInterrupt && (!s.intLoaded || iBusy) then true
  else if !s.loaded || !iBusy then false
  else s.oIntStb

@[simps]
def next : Hbints where
  intState := nextState s iReset iInterrupt
  pendingInterrupt := nextPending s iReset iInterrupt iBusy
  loaded := nextLoaded s iReset iStb iBusy
  intLoaded :=
    if iStb && !oIntBusy s then false else if !iBusy || !s.oIntStb then true else s.intLoaded
  oIntStb := nextStb s iReset iStb iBusy
  oIntWord :=
    if iStb && !oIntBusy s then iWord
    else if !iBusy || !s.oIntStb then intWord else s.oIntWord

end Hbints

/-! ## hbidle -/

/-- `IDLE_WORD` -/
def idleWord : BitVec 34 := 0b11011#5 ++ 0#29

/-- The registers of `hbidle`.  The counter has 30 bits on the board and 23 in simulation. -/
structure Hbidle (W : ℕ) where
  idleStb : Bool
  idleCounter : BitVec W
  oIdlStb : Bool
  oIdlWord : BitVec 34
deriving DecidableEq

namespace Hbidle

variable {W : ℕ}

def init (W : ℕ) : Hbidle W :=
  { idleStb := false, idleCounter := 0, oIdlStb := false, oIdlWord := idleWord }

variable (s : Hbidle W) (iReset iCmdStb : Bool) (iCmdWord : BitVec 34) (iBusy : Bool)

def oIdlBusy : Bool := s.oIdlStb && iBusy

def nextStb : Bool :=
  if iReset then false
  else if iCmdStb && !oIdlBusy s iBusy then true
  else if s.idleStb && !s.oIdlStb then true
  else if !iBusy then false
  else s.oIdlStb

@[simps]
def next : Hbidle W where
  -- the strobe is the carry of the count
  idleStb := if iReset || iCmdStb then false else s.idleCounter == BitVec.allOnes W
  idleCounter := if iReset || iCmdStb then 0 else s.idleCounter + 1
  oIdlStb := nextStb s iReset iCmdStb iBusy
  oIdlWord :=
    if iCmdStb && !oIdlBusy s iBusy then iCmdWord
    else if !iBusy then idleWord else s.oIdlWord

end Hbidle

/-! ## hbdeword -/

/-- The registers of `hbdeword`. -/
structure Hbdeword where
  rLen : BitVec 4
  rWord : BitVec 32
  oDwStb : Bool
  oDwBits : BitVec 5
deriving DecidableEq

namespace Hbdeword

-- a register without an `initial` value is zero here
def init : Hbdeword := { rLen := 0, rWord := 0, oDwStb := false, oDwBits := 0 }

variable (s : Hbdeword) (iReset iStb : Bool) (iWord : BitVec 34) (iTxBusy : Bool)

def oDwBusy : Bool := s.oDwStb

/-- A word is taken. -/
def take : Bool := iStb && !oDwBusy s

/-- A word of the special kind has no digits. -/
def special : Bool := iWord.extractLsb' 32 2 == 0b11#2

def nextLen : BitVec 4 :=
  if iReset then 0
  else if take s iStb then if special iWord then 0 else 8
  else if !iTxBusy then if s.rLen != 0 then s.rLen - 1 else s.rLen
  else s.rLen

def nextStb : Bool :=
  if iReset then false
  else if take s iStb then true
  else if !iTxBusy then s.rLen != 0
  else s.oDwStb

def nextBits : BitVec 5 :=
  if take s iStb then
    if special iWord then iWord.extractLsb' 29 5 else 0b100#3 ++ iWord.extractLsb' 32 2
  else if !iTxBusy then 0#1 ++ s.rWord.extractLsb' 28 4
  else s.oDwBits

@[simps]
def next : Hbdeword where
  rLen := nextLen s iReset iStb iWord iTxBusy
  rWord :=
    if take s iStb then iWord.extractLsb' 0 32
    else if !iTxBusy then s.rWord.extractLsb' 0 28 ++ 0#4 else s.rWord
  oDwStb := nextStb s iReset iStb iTxBusy
  oDwBits := nextBits s iStb iWord iTxBusy

end Hbdeword

/-! ## hbgenhex -/

/-- The character of a code (`w_gx_char`, without its top bit). -/
def gxChar (bits : BitVec 5) : BitVec 7 :=
  if bits = 0x00#5 then 0x30#7
  else if bits = 0x01#5 then 0x31#7
  else if bits = 0x02#5 then 0x32#7
  else if bits = 0x03#5 then 0x33#7
  else if bits = 0x04#5 then 0x34#7
  else if bits = 0x05#5 then 0x35#7
  else if bits = 0x06#5 then 0x36#7
  else if bits = 0x07#5 then 0x37#7
  else if bits = 0x08#5 then 0x38#7
  else if bits = 0x09#5 then 0x39#7
  else if bits = 0x0a#5 then 0x61#7
  else if bits = 0x0b#5 then 0x62#7
  else if bits = 0x0c#5 then 0x63#7
  else if bits = 0x0d#5 then 0x64#7
  else if bits = 0x0e#5 then 0x65#7
  else if bits = 0x0f#5 then 0x66#7
  else if bits = 0x10#5 then 0x52#7 -- 'R', read response with data
  else if bits = 0x11#5 then 0x4b#7 -- 'K', write acknowledgement
  else if bits = 0x12#5 then 0x41#7 -- 'A', the address was set
  else if bits = 0x13#5 then 0x53#7 -- 'S', special
  else if bits = 0x18#5 then 0x54#7 -- 'T', reset
  else if bits = 0x19#5 then 0x45#7 -- 'E', bus error
  else if bits = 0x1a#5 then 0x49#7 -- 'I', interrupt
  else if bits = 0x1b#5 then 0x5a#7 -- 'Z', alive but idle
  else 0x0d#7

/-- The registers of `hbgenhex`. -/
structure Hbgenhex where
  oGxStb : Bool
  oGxChar : BitVec 7
deriving DecidableEq

namespace Hbgenhex

def init : Hbgenhex := { oGxStb := false, oGxChar := 0 }

variable (s : Hbgenhex) (iReset iStb : Bool) (iBits : BitVec 5) (iBusy : Bool)

def oGxBusy : Bool := s.oGxStb && iBusy

@[simps]
def next : Hbgenhex where
  oGxStb := if iReset then false else if !oGxBusy s iBusy then iStb else s.oGxStb
  oGxChar := if !oGxBusy s iBusy then gxChar iBits else s.oGxChar

end Hbgenhex

/-! ## hbnewline -/

/-- The registers of `hbnewline`. -/
structure Hbnewline where
  lastCr : Bool
  crState : Bool
  loaded : Bool
  oNlStb : Bool
  oNlByte : BitVec 7
deriving DecidableEq

namespace Hbnewline

def init : Hbnewline :=
  { lastCr := true, crState := false, loaded := false, oNlStb := false, oNlByte := 0x7f#7 }

variable (s : Hbnewline) (iReset iStb : Bool) (iByte : BitVec 7) (iBusy : Bool)

def oNlBusy : Bool := (iBusy && s.oNlStb && s.loaded) || (s.crState && !iBusy)

def next : Hbnewline :=
  if iReset then init
  else if iStb && !oNlBusy s iBusy then
    { oNlStb := iStb, oNlByte := iByte, crState := iByte == 0x0d#7, lastCr := iByte == 0x0d#7,
      loaded := true }
  else if !iBusy then
    if !s.lastCr then
      -- a command just ended: a carriage return, which a new command may still displace
      { crState := true, oNlByte := 0x0d#7, lastCr := !iStb, oNlStb := !iStb, loaded := false }
    else if s.crState then
      { s with crState := false, oNlByte := 0x0a#7, oNlStb := true, loaded := true }
    else { s with loaded := false, oNlStb := false, oNlByte := 0x7f#7 }
  else s

end Hbnewline

end ZipStormMX.Hexbus
