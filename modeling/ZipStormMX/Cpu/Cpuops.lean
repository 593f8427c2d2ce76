/-
  `cpuops.v`: the ALU.
-/
import ZipStormMX.Cpu.Mpyop

namespace ZipStormMX.Cpu

/-- The registers of `cpuops`. -/
structure Cpuops where
  oC : BitVec 32
  c : Bool
  preSign : Bool
  setOvfl : Bool
  keepSgnOnOvfl : Bool
  rBusy : Bool
  oValid : Bool
  mpy : Mpyop
  deriving DecidableEq, Repr

namespace Cpuops

/-! ## Shifts and the other pre-logic -/

/-- `w_asr_result`: the result above the last bit shifted out. -/
def wAsrResult (iA iB : BitVec 32) : BitVec 33 :=
  if iB.extractLsb' 5 27 != 0 then if iA.getLsbD 31 then BitVec.allOnes 33 else 0
  else (iA ++ 0#1).sshiftRight (iB.extractLsb' 0 5).toNat

/-- The shift is by 33 or more. -/
def shiftsOut (iB : BitVec 32) : Bool :=
  iB.extractLsb' 6 26 != 0 || (iB.getLsbD 5 && iB.extractLsb' 0 5 != 0)

/-- `w_lsr_result`: the result above the last bit shifted out. -/
def wLsrResult (iA iB : BitVec 32) : BitVec 33 :=
  if shiftsOut iB then 0
  else if iB.getLsbD 5 then (iA.extractLsb' 31 1).setWidth 33
  else (iA ++ 0#1) >>> (iB.extractLsb' 0 5).toNat

/-- `w_lsl_result`: the last bit shifted out above the result. -/
def wLslResult (iA iB : BitVec 32) : BitVec 33 :=
  if shiftsOut iB then 0
  else if iB.getLsbD 5 then iA.extractLsb' 0 1 ++ 0#32
  else iA.setWidth 33 <<< (iB.extractLsb' 0 5).toNat

/-- The sum or difference may overflow into the sign. -/
def mayOverflow (iOp : BitVec 4) (iA iB : BitVec 32) : Bool :=
  (iOp == 0x0#4 && (iA.getLsbD 31 != iB.getLsbD 31))
    || (iOp == 0x2#4 && (iA.getLsbD 31 == iB.getLsbD 31))

def isMultiplyOp (iOp : BitVec 4) : Bool := iOp.extractLsb' 1 3 == 5#3 || iOp == 0xc#4

/-- The master ALU case statement: `(c, o_c)`, given the product. -/
def aluCase (iOp : BitVec 4) (iA iB : BitVec 32) (mpyResult : BitVec 64) : Bool × BitVec 32 :=
  let carryTop (r : BitVec 33) : Bool × BitVec 32 := (r.getLsbD 32, r.extractLsb' 0 32)
  let carryLow (r : BitVec 33) : Bool × BitVec 32 := (r.getLsbD 0, r.extractLsb' 1 32)
  match iOp.toNat with
  | 0x0 => carryTop (iA.setWidth 33 - iB.setWidth 33)
  | 0x1 => (false, iA &&& iB)
  | 0x2 => carryTop (iA.setWidth 33 + iB.setWidth 33)
  | 0x3 => (false, iA ||| iB)
  | 0x4 => (false, iA ^^^ iB)
  | 0x5 => carryLow (wLsrResult iA iB)
  | 0x6 => carryTop (wLslResult iA iB)
  | 0x7 => carryLow (wAsrResult iA iB)
  | 0x8 => (false, iB.reverse)
  | 0x9 => (false, iA.extractLsb' 16 16 ++ iB.extractLsb' 0 16)
  | 0xa => (false, mpyResult.extractLsb' 32 32)
  | 0xb => (false, mpyResult.extractLsb' 32 32)
  | 0xc => (false, mpyResult.extractLsb' 0 32)
  | _ => (false, iB)

/-! ## The clock -/

variable (implementMpy : ℕ) (s : Cpuops) (iReset iStb : Bool) (iOp : BitVec 4) (iA iB : BitVec 32)

def thisIsAMultiplyOp : Bool := iStb && isMultiplyOp iOp

def mpyOp : BitVec 2 := iOp.extractLsb' 0 2

def mpydone : Bool := Mpyop.oValid implementMpy s.mpy (thisIsAMultiplyOp iStb iOp)

def mpybusy : Bool := Mpyop.oBusy implementMpy s.mpy

def mpyResult : BitVec 64 := Mpyop.oResult implementMpy s.mpy (mpyOp iOp) iA iB

def mpyhi : Bool := Mpyop.hi implementMpy s.mpy (mpyOp iOp)

def nextOC : BitVec 32 :=
  if iStb then (aluCase iOp iA iB (mpyResult implementMpy s iOp iA iB)).2
  else if mpyhi implementMpy s iOp then
    (mpyResult implementMpy s iOp iA iB).extractLsb' 32 32
  else (mpyResult implementMpy s iOp iA iB).extractLsb' 0 32

def nextBusy : Bool :=
  !iReset && decide (1 < implementMpy)
    && ((iStb && thisIsAMultiplyOp iStb iOp) || mpybusy implementMpy s)

def nextValid : Bool :=
  if iReset then false
  else if implementMpy ≤ 1 then iStb
  else (iStb && !thisIsAMultiplyOp iStb iOp) || mpydone implementMpy s iStb iOp

@[simps]
def next : Cpuops where
  oC := nextOC implementMpy s iStb iOp iA iB
  c := if iStb then (aluCase iOp iA iB (mpyResult implementMpy s iOp iA iB)).1 else s.c
  preSign := if iStb then iA.getLsbD 31 else s.preSign
  setOvfl :=
    if iStb then mayOverflow iOp iA iB || iOp == 0x6#4 || iOp == 0x5#4 else s.setOvfl
  keepSgnOnOvfl := if iStb then mayOverflow iOp iA iB else s.keepSgnOnOvfl
  rBusy := nextBusy implementMpy s iReset iStb iOp
  oValid := nextValid implementMpy s iReset iStb iOp
  mpy := s.mpy.next iReset (thisIsAMultiplyOp iStb iOp) (mpyOp iOp) iA iB

/-- `o_f = { v, n^vx, c, z }`. -/
def oF : BitVec 4 :=
  let signChanged := s.preSign != s.oC.getLsbD 31
  BitVec.ofBool (s.setOvfl && signChanged)
    ++ BitVec.ofBool (s.oC.getLsbD 31 ^^ (s.keepSgnOnOvfl && signChanged))
    ++ BitVec.ofBool s.c ++ BitVec.ofBool (s.oC == 0)

end Cpuops

/-- At power on.  A register without an `initial` value is zero here. -/
def Cpuops.init : Cpuops :=
  { oC := 0, c := false, preSign := false, setOvfl := false, keepSgnOnOvfl := false,
    rBusy := false, oValid := false, mpy := Mpyop.init }

end ZipStormMX.Cpu
