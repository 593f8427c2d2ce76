/-
  `prefetch.v`: the simplest fetch unit, one bus cycle for each instruction.
-/
import ZipStormMX.Cpu.Fetch

namespace ZipStormMX.Cpu

/-- The registers of `prefetch`. -/
structure Prefetch (AW : ℕ) where
  oInsn : BitVec 32
  oValid : Bool
  oIllegal : Bool
  oWbCyc : Bool
  oWbStb : Bool
  oWbAddr : BitVec AW
  invalid : Bool

namespace Prefetch

variable {AW : ℕ} (s : Prefetch AW) (i : FetchIn AW)

/-- A bus cycle is due: the last instruction has been taken and was no bus error, or its answer was
    abandoned, or there is a jump. -/
def start : Bool := (i.iStallN && !s.oIllegal) || s.invalid || i.iNewPc

/-- The bus cycle is answered. -/
def answered : Bool := s.oWbCyc && (i.iWbAck || i.iWbErr)

def nextCyc : Bool :=
  if i.iReset || answered s i then false
  else if !s.oWbCyc && start s i then true
  else if s.oWbCyc then if i.iNewPc then false else s.oWbCyc
  else s.oWbCyc

def nextStb : Bool :=
  if i.iReset || answered s i then false
  else if !s.oWbCyc && start s i then true
  else if s.oWbCyc then
    if i.iNewPc then false else if !i.iWbStall then false else s.oWbStb
  else s.oWbStb

def flush : Bool := i.iReset || i.iNewPc || i.iClearCache

@[simps]
def next : Prefetch AW where
  oInsn := if s.oWbCyc && i.iWbAck then i.iWbData else s.oInsn
  oValid :=
    if flush i then false
    else if answered s i then true
    else if i.iStallN then false else s.oValid
  oIllegal :=
    if flush i then false
    else if answered s i then i.iWbErr else s.oIllegal
  oWbCyc := nextCyc s i
  oWbStb := nextStb s i
  oWbAddr :=
    if i.iNewPc then wordOf i.iPc
    else if s.oValid && i.iStallN && !s.oIllegal then s.oWbAddr + 1 else s.oWbAddr
  invalid :=
    if i.iReset || !s.oWbCyc then false
    else if i.iNewPc then true else s.invalid

def out : FetchOut AW where
  oInsn := s.oInsn
  oPc := byteAddr s.oWbAddr 0#2
  oValid := s.oValid
  oIllegal := s.oIllegal
  oWbCyc := s.oWbCyc
  oWbStb := s.oWbStb
  oWbAddr := s.oWbAddr

end Prefetch

/-- At power on.  A register without an `initial` value is zero here. -/
def Prefetch.init (AW : ℕ) : Prefetch AW :=
  { oInsn := 0, oValid := false, oIllegal := false, oWbCyc := false, oWbStb := false, oWbAddr := 0,
    invalid := false }

/-- `prefetch` as a fetch unit of the CPU: every output is a register. -/
def prefetch (AW : ℕ) : FetchUnit AW where
  State := Prefetch AW
  step := Prefetch.next
  out s _ _ _ := Prefetch.out s

end ZipStormMX.Cpu
