/-
  `div.v`: the divide unit, for words of 32 bits.
-/
import Mathlib.Data.BitVec

namespace ZipStormMX.Cpu

/-- The registers of `div`. -/
structure Div where
  oBusy : Bool
  oValid : Bool
  oErr : Bool
  oQuotient : BitVec 32
  rBusy : Bool
  rDivisor : BitVec 32
  rDividend : BitVec 63
  rSign : Bool
  preSign : Bool
  rZ : Bool
  rC : Bool
  lastBit : Bool
  rBit : BitVec 5
  zeroDivisor : Bool
  deriving DecidableEq, Repr

namespace Div

variable (s : Div) (iReset iWr iSigned : Bool) (iNumerator iDenominator : BitVec 32)

/-- `diff`: bit 32 is the borrow. -/
def diff : BitVec 33 := (s.rDividend.extractLsb' 31 32).setWidth 33 - s.rDivisor.setWidth 33

def borrow : Bool := (diff s).getLsbD 32

def nextDividend : BitVec 63 :=
  if s.preSign then
    if s.rDividend.getLsbD 31 then BitVec.allOnes 31 ++ -(s.rDividend.extractLsb' 0 32)
    else s.rDividend
  else if s.rBusy then
    if borrow s then s.rDividend <<< 1
    else (diff s).extractLsb' 0 31 ++ (s.rDividend.extractLsb' 0 31 ++ 0#1)
  else 0#31 ++ iNumerator

def nextDivisor : BitVec 32 :=
  if iReset then 0
  else if s.preSign && s.rBusy then if s.rDivisor.getLsbD 31 then -s.rDivisor else s.rDivisor
  else if !s.rBusy then iDenominator else s.rDivisor

def nextBusy : Bool :=
  if iReset then false
  else if iWr then true
  else if (s.lastBit && !s.rSign) || s.zeroDivisor then false
  else if !s.rBusy then false else s.oBusy

def nextValid : Bool :=
  if iReset || s.oValid then false
  else if s.rBusy && s.zeroDivisor then true
  else if s.rBusy then if s.lastBit then !s.rSign else s.oValid
  else s.rSign

@[simps]
def next : Div where
  oBusy := nextBusy s iReset iWr
  oValid := nextValid s iReset
  oErr := !iReset && (s.rBusy && s.zeroDivisor)
  oQuotient :=
    if iReset then 0
    else if s.rBusy then s.oQuotient.extractLsb' 0 31 ++ BitVec.ofBool (!borrow s)
    else if s.rSign then -s.oQuotient else 0
  rBusy :=
    if iReset then false
    else if iWr then true else if s.lastBit || s.zeroDivisor then false else s.rBusy
  rDivisor := nextDivisor s iReset iDenominator
  rDividend := nextDividend s iNumerator
  rSign :=
    if iReset then false
    else if s.preSign then s.rDivisor.getLsbD 31 ^^ s.rDividend.getLsbD 31
    else if s.rBusy then s.rSign && !s.zeroDivisor else false
  preSign := !iReset && (iWr && iSigned && (iNumerator.getLsbD 31 || iDenominator.getLsbD 31))
  rZ := if iWr then true else if s.rBusy && !s.preSign && !borrow s then false else s.rZ
  rC := !iReset && (s.rBusy && diff s == 0)
  lastBit := !iReset && (s.rBusy && s.rBit == 30#5)
  rBit := if iReset then 0 else if s.rBusy && !s.preSign then s.rBit + 1 else 0
  zeroDivisor := if iWr then iDenominator == 0 else s.zeroDivisor

/-- `o_flags = { 1'b0, w_n, r_c, r_z }`. -/
def oFlags : BitVec 4 :=
  0#1 ++ BitVec.ofBool (s.oQuotient.getLsbD 31) ++ BitVec.ofBool s.rC ++ BitVec.ofBool s.rZ

end Div

/-- At power on.  A register without an `initial` value is zero here. -/
def Div.init : Div :=
  { oBusy := false, oValid := false, oErr := false, oQuotient := 0, rBusy := false, rDivisor := 0,
    rDividend := 0, rSign := false, preSign := false, rZ := false, rC := false, lastBit := false,
    rBit := 0, zeroDivisor := false }

end ZipStormMX.Cpu
