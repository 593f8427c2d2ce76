/-
  `dblfetch.v`: the two word prefetch, the fetch unit this repository configures.

  It reads two words at a time, one for the output and one to wait in `cache_word` behind it.
-/
import ZipStormMX.Cpu.Fetch

namespace ZipStormMX.Cpu

/-- The registers of `dblfetch`. -/
structure Dblfetch (AW : ℕ) where
  oInsn : BitVec 32
  oPc : BitVec (AW + 2)
  oValid : Bool
  oWbCyc : Bool
  oWbStb : Bool
  oWbAddr : BitVec AW
  oIllegal : Bool
  invalidBusCycle : Bool
  cacheWord : BitVec 32
  cacheValid : Bool
  inflight : BitVec 2
  cacheIllegal : Bool

namespace Dblfetch

variable {AW : ℕ} (s : Dblfetch AW) (i : FetchIn AW)

/-- One request more, and there may be no room for its answer. -/
def lastStb : Bool := s.inflight != 0 || (s.oValid && !i.iStallN)

/-- The last acknowledgement, nothing left to wait for, or a jump: the bus is released. -/
def release : Bool :=
  (i.iWbAck && !s.oWbStb && s.inflight ≤ 1) || (!s.oWbStb && s.inflight == 0)
    || (i.iNewPc || i.iClearCache)

/-- A new bus cycle is due. -/
def start : Bool :=
  i.iNewPc || s.invalidBusCycle || (s.oValid && i.iStallN && !s.oIllegal)

def nextCyc : Bool :=
  if i.iReset || (s.oWbCyc && i.iWbErr) then false
  else if s.oWbCyc then if release s i then false else s.oWbCyc
  else if start s i then true else s.oWbCyc

def nextStb : Bool :=
  if i.iReset || (s.oWbCyc && i.iWbErr) then false
  else if s.oWbCyc then
    if release s i then false
    else if !s.oWbStb || !i.iWbStall then !lastStb s i else s.oWbStb
  else if start s i then true else s.oWbStb

def nextInflight : BitVec 2 :=
  if !s.oWbCyc then 0
  else match s.oWbStb && !i.iWbStall, i.iWbAck with
    | false, true => s.inflight - 1
    | true, false => s.inflight + 1
    | _, _ => s.inflight

/-- The output register may take a new word. -/
def outCe : Bool := !s.oValid || i.iStallN

def flush : Bool := i.iReset || i.iNewPc || i.iClearCache

@[simps]
def next : Dblfetch AW where
  oInsn := if outCe s i then if s.cacheValid then s.cacheWord else i.iWbData else s.oInsn
  oPc :=
    if i.iNewPc then i.iPc
    else if s.oValid && i.iStallN then byteAddr (wordOf s.oPc + 1) (s.oPc.extractLsb' 0 2)
    else s.oPc
  oValid :=
    if flush i then false
    else if s.oWbCyc && (i.iWbAck || i.iWbErr) then true
    else if i.iStallN then s.cacheValid else s.oValid
  oWbCyc := nextCyc s i
  oWbStb := nextStb s i
  oWbAddr :=
    if i.iNewPc then wordOf i.iPc
    else if s.oWbStb && !i.iWbStall then s.oWbAddr + 1 else s.oWbAddr
  oIllegal :=
    if flush i then false
    else if outCe s i then
      if s.cacheValid then s.oIllegal || s.cacheIllegal
      else if s.oWbCyc && i.iWbErr then true else s.oIllegal
    else s.oIllegal
  invalidBusCycle :=
    if s.oWbCyc && i.iNewPc then true
    else if !s.oWbCyc then false else s.invalidBusCycle
  cacheWord := if s.oWbCyc && i.iWbAck then i.iWbData else s.cacheWord
  cacheValid :=
    if flush i then false
    else if s.oValid && s.oWbCyc && (i.iWbAck || i.iWbErr) then !i.iStallN || s.cacheValid
    else if i.iStallN then false else s.cacheValid
  inflight := nextInflight s i
  cacheIllegal :=
    if flush i then false
    else if s.oWbCyc && i.iWbErr && s.oValid && !i.iStallN then true else s.cacheIllegal

def out : FetchOut AW where
  oInsn := s.oInsn
  oPc := s.oPc
  oValid := s.oValid
  oIllegal := s.oIllegal
  oWbCyc := s.oWbCyc
  oWbStb := s.oWbStb
  oWbAddr := s.oWbAddr

end Dblfetch

/-- At power on.  A register without an `initial` value is zero here. -/
def Dblfetch.init (AW : ℕ) : Dblfetch AW :=
  { oInsn := 0, oPc := 0, oValid := false, oWbCyc := false, oWbStb := false,
    oWbAddr := BitVec.allOnes AW,
    oIllegal := false, invalidBusCycle := false, cacheWord := 0, cacheValid := false,
    inflight := 0, cacheIllegal := false }

/-- `dblfetch` as a fetch unit of the CPU: every output is a register. -/
def dblfetch (AW : ℕ) : FetchUnit AW where
  State := Dblfetch AW
  step := Dblfetch.next
  out s _ _ _ := Dblfetch.out s

end ZipStormMX.Cpu
