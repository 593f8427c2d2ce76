/-
  `idecode.v`: the instruction decoder, with user mode built in.

  `Decode` is the combinational half: every `w_` wire, as a function of the instruction word `iword`
  and of `i_gie`.  `Idecode` holds the registers, and `Idecode.next` is the clock.  A word whose top
  bit is set is a compressed pair; its upper half is decoded first, and while `o_phase` is set the
  lower half is decoded from `r_nxt_half`.
-/
import ZipStormMX.Cpu.Fetch

namespace ZipStormMX.Cpu

/-- The parameters of the decoder. -/
structure DecodeCfg where
  optMpy : Bool
  optEarlyBranching : Bool
  optPipelined : Bool
  optDivide : Bool
  optFpu : Bool
  optCis : Bool
  optLock : Bool
  optOpipe : Bool
  optSim : Bool
  deriving DecidableEq, Repr

/-- `CPU_SP_REG`, `CPU_CC_REG` and `CPU_PC_REG`. -/
def spReg : BitVec 4 := 0xd#4
def ccReg : BitVec 4 := 0xe#4
def pcReg : BitVec 4 := 0xf#4

namespace Decode

variable (c : DecodeCfg) (iword : BitVec 32) (gie : Bool)

/-- `iword[CISBIT]`: a compressed instruction. -/
def cis : Bool := iword.getLsbD 31

/-- `iword[IMMSEL]`: operand B is a register plus an immediate. -/
def immSel : Bool := iword.getLsbD 18

/-- `iword[CISIMMSEL]`, the same of a compressed instruction. -/
def cisImmSel : Bool := iword.getLsbD 23

/-- The operation the decoder goes by: `w_cis_op`. -/
def wCisOp : BitVec 5 :=
  if !c.optCis || !cis iword then iword.extractLsb' 22 5
  else match (iword.extractLsb' 24 3).toNat with
    | 0 => 0x00#5
    | 1 => 0x01#5
    | 2 => 0x02#5
    | 3 => 0x10#5
    | 4 => 0x12#5
    | 5 => 0x13#5
    | 6 => 0x18#5
    | _ => 0x0d#5

def wOp : BitVec 5 := iword.extractLsb' 22 5

def wMov : Bool := wCisOp c iword == 0x0d#5

def wLdi : Bool := (wCisOp c iword).extractLsb' 1 4 == 0xc#4

def wBrev : Bool := wCisOp c iword == 0x08#5

def wMpy : Bool := (wCisOp c iword).extractLsb' 1 4 == 0x5#4 || wCisOp c iword == 0x0c#5

def wCmptst : Bool := (wCisOp c iword).extractLsb' 1 4 == 0x8#4

def wLdilo : Bool := wCisOp c iword == 0x09#5

def wALU : Bool := !(wCisOp c iword).getLsbD 4 && (wCisOp c iword).extractLsb' 1 3 != 7#3

def wAdd : Bool := wCisOp c iword == 0x02#5

def wMem : Bool :=
  (wCisOp c iword).extractLsb' 3 2 == 0b10#2 && (wCisOp c iword).extractLsb' 1 2 != 0#2

def wSto : Bool := wMem c iword && (wCisOp c iword).getLsbD 0

def wDiv : Bool := !cis iword && (wOp iword).extractLsb' 1 4 == 0x7#4

/-- The register set a move names is free only for the supervisor. -/
def wDcdR : BitVec 5 :=
  BitVec.ofBool (if !cis iword && wMov c iword && !gie then immSel iword else gie)
    ++ iword.extractLsb' 27 4

def wDcdB : BitVec 5 :=
  BitVec.ofBool (if !cis iword && wMov c iword && !gie then iword.getLsbD 13 else gie)
    ++ (if cis iword then
          if !cisImmSel iword && iword.extractLsb' 25 2 == 0b10#2 then spReg
          else iword.extractLsb' 19 4
        else iword.extractLsb' 14 4)

def wDcdA : BitVec 5 := wDcdR c iword gie

/-- `r[3:1] == 3'h7`: the CC or the PC of either set. -/
def isSpecial (r : BitVec 5) : Bool := r.extractLsb' 1 3 == 7#3

/-- `{ i_gie, r }`: register `r` of the set in use. -/
def ownReg (gie : Bool) (r : BitVec 4) : BitVec 5 := BitVec.ofBool gie ++ r

def wDcdRPc : Bool := wDcdR c iword gie == ownReg gie pcReg

def wDcdRCc : Bool := wDcdR c iword gie == ownReg gie ccReg

def wFpu : Bool :=
  !cis iword && (wOp iword).extractLsb' 3 2 == 0b11#2 && !isSpecial (wDcdR c iword gie)
    && (wOp iword).extractLsb' 1 2 != 0#2

def wSpecial : Bool :=
  !cis iword && (!c.optFpu || isSpecial (wDcdR c iword gie))
    && (wOp iword).extractLsb' 2 3 == 0b111#3

def wBreak : Bool := wSpecial c iword gie && wOp iword == 0x1c#5

def wLock : Bool := wSpecial c iword gie && wOp iword == 0x1d#5

def wSim : Bool := wSpecial c iword gie && wOp iword == 0x1e#5

def wNoop : Bool := wSpecial c iword gie && wOp iword == 0x1f#5

/-- `w_cond`: bit 3 is set on what is always executed. -/
def wCond : BitVec 4 :=
  if wLdi c iword || wSpecial c iword gie || cis iword then 0x8#4
  else BitVec.ofBool (iword.extractLsb' 19 3 == 0#3) ++ iword.extractLsb' 19 3

def wRA : Bool :=
  (wFpu c iword gie && c.optFpu) || wDiv iword
    || (wALU c iword && !wBrev c iword && !wMov c iword) || wSto c iword || wCmptst c iword

def wRB : Bool :=
  wMov c iword || (!cis iword && immSel iword && !wLdi c iword && !wSpecial c iword gie)
    || (cis iword && cisImmSel iword && !wLdi c iword) || (cis iword && wMem c iword)

def wDcdBPc : Bool := wRB c iword gie && (wDcdB c iword gie).extractLsb' 0 4 == pcReg

def wDcdBCc : Bool := wRB c iword gie && (wDcdB c iword gie).extractLsb' 0 4 == ccReg

def wWR : Bool := !(wSto c iword || wSpecial c iword gie || wCmptst c iword)

def wWF : Bool :=
  wCmptst c iword
    || ((wCond c iword gie).getLsbD 3
        && ((wFpu c iword gie && c.optFpu) || wDiv iword
            || (wALU c iword && !wMov c iword && !wLdilo c iword && !wBrev c iword
                && !isSpecial (wDcdR c iword gie))))

/-- The immediate of a full word instruction. -/
def wFullI : BitVec 23 :=
  if wLdi c iword then iword.extractLsb' 0 23
  else if wMov c iword then (iword.extractLsb' 0 13).signExtend 23
  else if !immSel iword then (iword.extractLsb' 0 18).signExtend 23
  else (iword.extractLsb' 0 14).signExtend 23

/-- The immediate of a compressed instruction. -/
def wHalfI : BitVec 8 :=
  if iword.extractLsb' 24 3 == 6#3 then iword.extractLsb' 16 8
  else if iword.getLsbD 23 then (iword.extractLsb' 16 3).signExtend 8
  else (iword.extractLsb' 16 7).signExtend 8

def wI : BitVec 23 :=
  if c.optCis && cis iword then (wHalfI iword).signExtend 23 else wFullI c iword

def wIz : Bool := wI c iword == 0

/-- The word is one the decoder flags illegal, on its own account. -/
def wIllegal : Bool :=
  (!c.optCis && cis iword) || (!c.optMpy && wMpy c iword)
    || (if !c.optDivide && wDiv iword then true
        else c.optDivide && wDiv iword && isSpecial (wDcdR c iword gie))
    || (!c.optFpu && wFpu c iword gie) || (!c.optSim && wSim c iword gie)
    || (isSpecial (wDcdR c iword gie) && (wCisOp c iword).extractLsb' 1 4 == 0b1101#4)
    || (!c.optLock && wLock c iword gie)

/-- `o_op`: an LDI, and what does nothing, pass operand B through the ALU. -/
def op : BitVec 4 :=
  if wLdi c iword || wNoop c iword gie || wLock c iword gie then 0xd#4
  else (wCisOp c iword).extractLsb' 0 4

def isALU : Bool :=
  wALU c iword || wLdi c iword || wCmptst c iword || wNoop c iword gie
    || (!c.optLock && wLock c iword gie)

end Decode

/-- The inputs of the decoder. -/
structure DecodeIn (AW : ℕ) where
  iReset : Bool
  iCe : Bool
  iStalled : Bool
  iInstruction : BitVec 32
  iGie : Bool
  iPc : BitVec (AW + 2)
  iPfValid : Bool
  iIllegal : Bool

/-- The registers of `idecode`.  The bits that say that a register is the CC or the PC stand beside
    the register's number, where the source packs the three into one bus of seven. -/
structure Idecode (AW : ℕ) where
  rPhase : Bool
  oIllegal : Bool
  oPc : BitVec (AW + 2)
  oDcdRcc : Bool
  oDcdRpc : Bool
  oDcdR : BitVec 5
  oDcdAcc : Bool
  oDcdApc : Bool
  oDcdA : BitVec 5
  oDcdBcc : Bool
  oDcdBpc : Bool
  oDcdB : BitVec 5
  rI : BitVec 23
  oZI : Bool
  oCond : BitVec 4
  oWF : Bool
  oOp : BitVec 4
  oALU : Bool
  oM : Bool
  oDV : Bool
  oFP : Bool
  oBreak : Bool
  oLock : Bool
  oWR : Bool
  oRA : Bool
  oRB : Bool
  rNxtHalf : BitVec 15
  rEarlyBranch : Bool
  rEarlyBranchStb : Bool
  rLjmp : Bool
  rBranchPc : BitVec (AW + 2)
  rValid : Bool
  rInsnIsPipeable : Bool
  rPipe : Bool
  deriving DecidableEq, Repr

namespace Idecode

variable {AW : ℕ} (c : DecodeCfg) (s : Idecode AW) (i : DecodeIn AW)

/-! ## Outputs and wires -/

def oPhase : Bool := c.optCis && s.rPhase

def oEarlyBranch : Bool := c.optEarlyBranching && s.rEarlyBranch

def oEarlyBranchStb : Bool := c.optEarlyBranching && s.rEarlyBranchStb

def oLjmp : Bool := c.optEarlyBranching && s.rLjmp

def oBranchPc : BitVec (AW + 2) := if c.optEarlyBranching then s.rBranchPc else 0

def oPipe : Bool := c.optOpipe && s.rPipe

def oI : BitVec 32 := s.rI.signExtend 32

/-- The word being decoded: while `o_phase` is set, the saved half of the last one. -/
def iword : BitVec 32 :=
  if c.optCis then
    if oPhase c s then 1#1 ++ s.rNxtHalf ++ i.iInstruction.extractLsb' 0 16 else i.iInstruction
  else 0#1 ++ i.iInstruction.extractLsb' 0 31

def pfValid : Bool := i.iPfValid && !oEarlyBranchStb c s

def wLjmp : Bool := c.optEarlyBranching && iword c s i == 0x7c87c000#32

def wCisLjmp : Bool :=
  c.optEarlyBranching && c.optCis
    && (oPhase c s && (iword c s i).extractLsb' 16 16 == 0xfcf8#16)

/-! ## The next clock -/

def nextPhase : Bool :=
  if i.iReset || oLjmp c s then false
  else if i.iCe && pfValid c s i then
    if oPhase c s then false else i.iInstruction.getLsbD 31 && !i.iIllegal
  else if i.iCe then false else s.rPhase

-- the first test is of `i_instruction`, the word as it comes, the others of `iword`
def nextIllegal : Bool :=
  if i.iReset then false
  else if i.iCe && oPhase c s then s.oIllegal
  else if i.iCe && i.iPfValid then
    (!c.optCis && i.iInstruction.getLsbD 31) || Decode.wIllegal c (iword c s i) i.iGie
      || i.iIllegal
  else s.oIllegal

def nextPc : BitVec (AW + 2) :=
  if i.iCe && (oPhase c s || i.iPfValid) then
    if c.optCis && Decode.cis (iword c s i) then
      if oPhase c s then (s.oPc.extractLsb' 1 (AW + 1) + 1) ++ 0#1
      else byteAddr (wordOf i.iPc) 0b10#2
    else byteAddr (wordOf i.iPc + 1) 0#2
  else s.oPc

def nextLjmp : Bool :=
  if i.iReset then false
  else if i.iCe then
    if s.rLjmp && pfValid c s i then false
    else if oEarlyBranchStb c s then false
    else if pfValid c s i then
      if c.optCis && Decode.cis (iword c s i) then wCisLjmp c s i else wLjmp c s i
    else if c.optCis && oPhase c s && Decode.cis (iword c s i) then wCisLjmp c s i
    else s.rLjmp
  else s.rLjmp

/-- An unconditional `ADD #x,PC`. -/
def addToPc : Bool :=
  let w := iword c s i
  !Decode.cis w && w.extractLsb' 27 4 == pcReg && (Decode.wCond c w i.iGie).getLsbD 3
    && (Decode.wAdd c w && !Decode.immSel w)

def takesBranch : Bool := s.rLjmp || addToPc c s i

def nextEarlyBranch : Bool :=
  if i.iReset then false
  else if i.iCe && pfValid c s i then takesBranch c s i
  else if i.iCe then false else s.rEarlyBranch

def nextEarlyBranchStb : Bool :=
  if i.iReset then false
  else if i.iCe && pfValid c s i then takesBranch c s i
  else false

def nextBranchPc : BitVec (AW + 2) :=
  if i.iCe then
    if s.rLjmp then byteAddr ((iword c s i).extractLsb' 2 AW) 0#2
    else byteAddr (wordOf i.iPc + ((iword c s i).extractLsb' 2 16).signExtend AW + 1) 0#2
  else s.rBranchPc

/-- `w_I[13:0] - r_I[13:0]`. -/
def pipeAddrDiff : BitVec 14 :=
  (Decode.wI c (iword c s i)).extractLsb' 0 14 - s.rI.extractLsb' 0 14

def nextInsnIsPipeable : Bool :=
  let w := iword c s i
  if i.iReset then false
  else if i.iCe && (!pfValid c s i || i.iIllegal) && !oPhase c s then false
  else if oLjmp c s then false
  else if i.iCe && (!c.optCis && i.iInstruction.getLsbD 31) then false
  else if i.iCe then
    Decode.wMem c w && Decode.wRB c w i.iGie && !Decode.isSpecial (Decode.wDcdB c w i.iGie)
      && !Decode.isSpecial (Decode.wDcdR c w i.iGie)
      && ((Decode.wCisOp c w).getLsbD 0 || Decode.wDcdB c w i.iGie != Decode.wDcdA c w i.iGie)
  else s.rInsnIsPipeable

def nextPipe : Bool :=
  let w := iword c s i
  if i.iReset then false
  else if i.iCe then
    (pfValid c s i || oPhase c s) && s.rInsnIsPipeable && Decode.wMem c w
      && (s.oOp.getLsbD 0 == (Decode.wCisOp c w).getLsbD 0) && Decode.wRB c w i.iGie
      && ((Decode.wDcdB c w i.iGie).extractLsb' 0 4 == s.oDcdB.extractLsb' 0 4)
      && ((Decode.wCond c w i.iGie).extractLsb' 0 3 == s.oCond.extractLsb' 0 3
          || s.oCond.extractLsb' 0 3 == 0#3)
      && ((Decode.wI c w).getLsbD 13 == s.rI.getLsbD 13)
      && pipeAddrDiff c s i ≤ 4#14
  else s.rPipe

def nextValid : Bool :=
  let valid := (pfValid c s i || oPhase c s) && !oLjmp c s
  if i.iReset then false
  else if c.optPipelined then
    if i.iCe then valid else if !i.iStalled then false else s.rValid
  else if !i.iStalled then valid else false

@[simps]
def next : Idecode AW :=
  let w := iword c s i
  { rPhase := nextPhase c s i
    oIllegal := nextIllegal c s i
    oPc := nextPc c s i
    oDcdRcc := if i.iCe then Decode.wDcdRCc c w i.iGie else s.oDcdRcc
    oDcdRpc := if i.iCe then Decode.wDcdRPc c w i.iGie else s.oDcdRpc
    oDcdR := if i.iCe then Decode.wDcdR c w i.iGie else s.oDcdR
    oDcdAcc := if i.iCe then Decode.wDcdRCc c w i.iGie else s.oDcdAcc
    oDcdApc := if i.iCe then Decode.wDcdRPc c w i.iGie else s.oDcdApc
    oDcdA := if i.iCe then Decode.wDcdA c w i.iGie else s.oDcdA
    oDcdBcc := if i.iCe then Decode.wDcdBCc c w i.iGie else s.oDcdBcc
    oDcdBpc := if i.iCe then Decode.wDcdBPc c w i.iGie else s.oDcdBpc
    oDcdB := if i.iCe then Decode.wDcdB c w i.iGie else s.oDcdB
    rI := if i.iCe then Decode.wI c w else s.rI
    oZI := if i.iCe then Decode.wIz c w else s.oZI
    oCond := if i.iCe then Decode.wCond c w i.iGie else s.oCond
    oWF := if i.iCe then Decode.wWF c w i.iGie else s.oWF
    oOp := if i.iCe then Decode.op c w i.iGie else s.oOp
    oALU := if i.iCe then Decode.isALU c w i.iGie else s.oALU
    oM := if i.iCe then Decode.wMem c w else s.oM
    oDV := if i.iCe then c.optDivide && Decode.wDiv w else s.oDV
    oFP := if i.iCe then c.optFpu && Decode.wFpu c w i.iGie else s.oFP
    oBreak := if i.iCe then Decode.wBreak c w i.iGie else s.oBreak
    oLock := if i.iCe then c.optLock && Decode.wLock c w i.iGie else s.oLock
    oWR := if i.iCe then Decode.wWR c w i.iGie else s.oWR
    oRA := if i.iCe then Decode.wRA c w i.iGie else s.oRA
    oRB := if i.iCe then Decode.wRB c w i.iGie else s.oRB
    rNxtHalf := if i.iCe then if c.optCis then w.extractLsb' 0 15 else 0 else s.rNxtHalf
    rEarlyBranch := nextEarlyBranch c s i
    rEarlyBranchStb := nextEarlyBranchStb c s i
    rLjmp := nextLjmp c s i
    rBranchPc := nextBranchPc c s i
    rValid := nextValid c s i
    rInsnIsPipeable := nextInsnIsPipeable c s i
    rPipe := nextPipe c s i }

/-- `o_preA` and `o_preB`: the registers of the word that is about to be decoded. -/
def oPreA : BitVec 5 := Decode.wDcdA c (iword c s i) i.iGie

def oPreB : BitVec 5 := Decode.wDcdB c (iword c s i) i.iGie

end Idecode

/-- At power on.  A register without an `initial` value is zero here. -/
def Idecode.init (AW : ℕ) : Idecode AW :=
  { rPhase := false, oIllegal := false, oPc := 0, oDcdRcc := false, oDcdRpc := false, oDcdR := 0,
    oDcdAcc := false, oDcdApc := false, oDcdA := 0, oDcdBcc := false, oDcdBpc := false,
    oDcdB := 0, rI := 0, oZI := false, oCond := 0, oWF := false, oOp := 0, oALU := false,
    oM := false, oDV := false, oFP := false, oBreak := false, oLock := false, oWR := false,
    oRA := false, oRB := false, rNxtHalf := 0, rEarlyBranch := false, rEarlyBranchStb := false,
    rLjmp := false, rBranchPc := 0, rValid := false, rInsnIsPipeable := false, rPipe := false }

end ZipStormMX.Cpu
