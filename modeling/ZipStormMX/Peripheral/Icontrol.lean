/-
  `icontrol.v`: an interrupt controller for `IUSED` interrupts.

  It answers a bus request on the clock of the request itself.
-/
import ZipStormMX.Peripheral.Timers

namespace ZipStormMX.Peripheral

/-- The registers of `icontrol`. -/
structure Icontrol (IUSED : ℕ) where
  rIntState : BitVec IUSED
  rIntEnable : BitVec IUSED
  rMie : Bool
  oInterrupt : Bool
  oWbData : BitVec 32
deriving DecidableEq, Repr

namespace Icontrol

variable {IUSED : ℕ} (s : Icontrol IUSED) (iReset : Bool) (w : WbReq) (iBrdInts : BitVec IUSED)

def init (IUSED : ℕ) : Icontrol IUSED :=
  { rIntState := 0, rIntEnable := 0, rMie := false, oInterrupt := false, oWbData := 0 }

def wbWrite : Bool := w.stb && w.we

def enableInts : Bool := wbWrite w && w.data.getLsbD 15

def disableInts : Bool := wbWrite w && !w.data.getLsbD 15

def wAny : Bool := s.rIntState &&& s.rIntEnable != 0

/-- `i_wb_data[16 +: IUSED]` -/
def maskBits (IUSED : ℕ) (w : WbReq) : BitVec IUSED := w.data.extractLsb' 16 IUSED

def nextState : BitVec IUSED :=
  if iReset then 0
  else if wbWrite w then iBrdInts ||| (s.rIntState &&& ~~~(w.data.setWidth IUSED))
  else s.rIntState ||| iBrdInts

def nextEnable : BitVec IUSED :=
  if iReset then 0
  else if enableInts w then s.rIntEnable ||| maskBits IUSED w
  else if disableInts w then s.rIntEnable &&& ~~~(maskBits IUSED w)
  else s.rIntEnable

def nextMie : Bool :=
  if iReset then false
  else if enableInts w && w.data.getLsbD 31 then true
  else if disableInts w && w.data.getLsbD 31 then false
  else s.rMie

/-- `word` with `field` written over it from bit `lo` on, the bits past the word dropped. -/
def overlay (word : BitVec 32) (lo : ℕ) (field : BitVec IUSED) : BitVec 32 :=
  (word &&& ~~~((BitVec.allOnes IUSED).setWidth 32 <<< lo)) ||| (field.setWidth 32 <<< lo)

-- the later assignments to `o_wb_data` win where the fields overlap
def nextData : BitVec 32 :=
  let word := overlay (overlay 0 31 (BitVec.ofBool s.rMie)) 15 (BitVec.ofBool (wAny s))
  overlay (overlay word 16 s.rIntEnable) 0 s.rIntState

def next : Icontrol IUSED where
  rIntState := nextState s iReset w iBrdInts
  rIntEnable := nextEnable s iReset w
  rMie := nextMie s iReset w
  oInterrupt := !iReset && (s.rMie && wAny s)
  oWbData := nextData s

/-- The acknowledgement is the strobe. -/
def oWbAck (w : WbReq) : Bool := w.stb

end Icontrol

end ZipStormMX.Peripheral
