/-
  `mpyop.v` and `slowmpy.v`: the multiplier of the ALU, in its five variants.

  The parameter `IMPLEMENT_MPY` chooses one `generate` branch: no multiplier (0), one without a
  register (1), two, three or four clocks (2, 3, 4), and for anything larger the bit serial
  `slowmpy`, which is what this repository builds.  The model carries the registers of every
  branch; the outputs read those of the branch that is generated.
-/
import Mathlib.Data.BitVec

namespace ZipStormMX.Cpu

/-! ## `slowmpy` -/

/-- The registers of `slowmpy`, for factors of `NA` bits and a counter of `LGNA`. -/
structure Slowmpy (NA LGNA : ℕ) where
  oBusy : Bool
  oDone : Bool
  oP : BitVec (NA + NA)
  count : BitVec LGNA
  pA : BitVec NA
  pB : BitVec NA
  partialP : BitVec (NA + NA)
  almostDone : Bool
  deriving DecidableEq, Repr

namespace Slowmpy

variable {NA LGNA : ℕ} (optSigned : Bool) (s : Slowmpy NA LGNA)

def preDone : Bool := s.count == 0

def pwire : BitVec NA := if s.pB.getLsbD 0 then s.pA else 0

/-- The summand of one step.  Of a signed product the top bit of each row is inverted, and of the
    last row all the others. -/
def row : BitVec NA :=
  if optSigned && preDone s then ~~~(pwire s) ^^^ BitVec.twoPow NA (NA - 1)
  else if optSigned then pwire s ^^^ BitVec.twoPow NA (NA - 1)
  else pwire s

/-- `{ {1'b0, partial[NA+NB-1:NB]} + {1'b0, row}, partial[NB-1:1] }`. -/
def nextPartial : BitVec (NA + NA) :=
  let hi : BitVec (NA + 1) := (s.partialP.extractLsb' NA NA).setWidth (NA + 1)
    + (row optSigned s).setWidth (NA + 1)
  (hi.setWidth (NA + NA) <<< (NA - 1)) ||| (s.partialP.extractLsb' 1 (NA - 1)).setWidth (NA + NA)

/-- What the inverted bits of the rows add up to. -/
def correction : BitVec (NA + NA) :=
  BitVec.twoPow (NA + NA) (NA + NA - 1) + BitVec.twoPow (NA + NA) NA

def next (iReset iStb : Bool) (iA iB : BitVec NA) : Slowmpy NA LGNA where
  oBusy :=
    if iReset then false
    else if !s.oBusy && iStb then true
    else if s.oBusy && s.almostDone then false else s.oBusy
  oDone :=
    if iReset then false
    else if !s.oBusy && iStb then false
    else s.oBusy && s.almostDone
  oP :=
    if s.almostDone then if optSigned then s.partialP + correction else s.partialP else s.oP
  count := if !s.oBusy then BitVec.ofNat LGNA NA - 1 else s.count - 1
  pA := if !s.oBusy then iA else s.pA
  pB := if !s.oBusy then iB else s.pB >>> 1
  partialP := if !s.oBusy then 0 else nextPartial optSigned s
  almostDone := !iReset && s.oBusy && preDone s

end Slowmpy

/-! ## The other variants -/

/-- `{{(32){(x[31])&(sgn)}}, x}`. -/
def extend64 (sgn : Bool) (x : BitVec 32) : BitVec 64 :=
  if sgn then x.signExtend 64 else x.setWidth 64

/-- The registers of `mpyop`, whichever branch they belong to. -/
structure Mpyop where
  oHi : Bool
  -- MPY2CK
  mpypipe2 : Bool
  rMpyA2 : BitVec 64
  rMpyB2 : BitVec 64
  -- MPY3CK
  mpypipe3 : BitVec 2
  rMpyA3 : BitVec 32
  rMpyB3 : BitVec 32
  rSgn : BitVec 2
  rSmpyResult : BitVec 64
  rUmpyResult : BitVec 64
  -- MPY4CK
  mpypipe4 : BitVec 3
  rMpyA4 : BitVec 32
  rMpyB4 : BitVec 32
  rMpySigned : Bool
  ppF : BitVec 32
  ppL : BitVec 32
  ppOi : BitVec 33
  ppS : BitVec 33
  rMpyResult : BitVec 64
  -- MPYSLOW
  slow : Slowmpy 33 6
  deriving DecidableEq, Repr

namespace Mpyop

variable (implementMpy : ℕ) (s : Mpyop) (iReset iStb : Bool) (iOp : BitVec 2) (iA iB : BitVec 32)

/-- `{ (i_op[0])&(x[31]), x }`, a factor of the bit serial multiplier. -/
def slowFactor (x : BitVec 32) : BitVec 33 :=
  BitVec.ofBool (iOp.getLsbD 0 && x.getLsbD 31) ++ x

/-- A factor of the four clock multiplier: of a signed one, the sign bit is flipped. -/
def factor4 (x : BitVec 32) : BitVec 32 :=
  if iOp.getLsbD 0 then x ^^^ 0x80000000#32 else x

def half (x : BitVec 32) (k w : ℕ) : BitVec w := (x.extractLsb' (16 * k) 16).setWidth w

def nextResult4 : BitVec 64 :=
  ((s.ppL.extractLsb' 16 16).setWidth 48 + s.ppOi.setWidth 48 + (s.ppS ++ 0#15)
    + (s.ppF ++ 0#16)) ++ s.ppL.extractLsb' 0 16

@[simps]
def next : Mpyop where
  oHi := if iStb then iOp.getLsbD 1 else s.oHi
  mpypipe2 := !iReset && iStb
  rMpyA2 := extend64 (iOp.getLsbD 0) iA
  rMpyB2 := extend64 (iOp.getLsbD 0) iB
  mpypipe3 := if iReset then 0 else s.mpypipe3.extractLsb' 0 1 ++ BitVec.ofBool iStb
  rMpyA3 := iA
  rMpyB3 := iB
  rSgn := s.rSgn.extractLsb' 0 1 ++ iOp.extractLsb' 0 1
  rSmpyResult := s.rMpyA3.signExtend 64 * s.rMpyB3.signExtend 64
  rUmpyResult := s.rMpyA3.setWidth 64 * s.rMpyB3.setWidth 64
  mpypipe4 := if iReset then 0 else s.mpypipe4.extractLsb' 0 2 ++ BitVec.ofBool iStb
  rMpyA4 := factor4 iOp iA
  rMpyB4 := factor4 iOp iB
  rMpySigned := iOp.getLsbD 0
  ppF := half s.rMpyA4 1 32 * half s.rMpyB4 1 32
  ppL := half s.rMpyA4 0 32 * half s.rMpyB4 0 32
  ppOi := half s.rMpyA4 1 33 * half s.rMpyB4 0 33 + half s.rMpyA4 0 33 * half s.rMpyB4 1 33
  ppS :=
    if s.rMpySigned then 0x80000000#33 - (s.rMpyA4.setWidth 33 + s.rMpyB4.setWidth 33) else 0
  rMpyResult := nextResult4 s
  slow := s.slow.next true iReset iStb (slowFactor iOp iA) (slowFactor iOp iB)

/-- `o_valid`: the result is valid on the next clock. -/
def oValid : Bool :=
  match implementMpy with
  | 0 => iStb
  | 1 => false
  | 2 => s.mpypipe2
  | 3 => s.mpypipe3.getLsbD 1
  | 4 => s.mpypipe4.getLsbD 2
  | _ => s.slow.oDone

def oBusy : Bool :=
  match implementMpy with
  | 0 | 1 | 2 => false
  | 3 => s.mpypipe3.getLsbD 0
  | 4 => s.mpypipe4.getLsbD 0 || s.mpypipe4.getLsbD 1
  | _ => s.slow.oBusy

def oResult : BitVec 64 :=
  match implementMpy with
  | 0 => 0
  | 1 => extend64 (iOp.getLsbD 0) iA * extend64 (iOp.getLsbD 0) iB
  | 2 => s.rMpyA2 * s.rMpyB2
  | 3 => if s.rSgn.getLsbD 1 then s.rSmpyResult else s.rUmpyResult
  | 4 => s.rMpyResult
  | _ => s.slow.oP.setWidth 64

/-- `o_hi`: the high half of the product is wanted. -/
def hi : Bool :=
  match implementMpy with
  | 0 => false
  | 1 => iOp.getLsbD 1
  | _ => s.oHi

end Mpyop

/-- At power on.  A register without an `initial` value is zero here. -/
def Mpyop.init : Mpyop :=
  { oHi := false, mpypipe2 := false, rMpyA2 := 0, rMpyB2 := 0, mpypipe3 := 0, rMpyA3 := 0,
    rMpyB3 := 0, rSgn := 0, rSmpyResult := 0, rUmpyResult := 0, mpypipe4 := 0, rMpyA4 := 0,
    rMpyB4 := 0, rMpySigned := false, ppF := 0, ppL := 0, ppOi := 0, ppS := 0, rMpyResult := 0,
    slow := { oBusy := false, oDone := false, oP := 0, count := 0, pA := 0, pB := 0,
              partialP := 0, almostDone := false } }

end ZipStormMX.Cpu
