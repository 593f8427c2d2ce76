/-
  `pfcache.v`: the instruction cache, the fetch unit of the pipelined CPU
  (`OPT_TRADITIONAL_PFCACHE`).

  Two lookups are made each clock, at `i_pc` and at `lastpc`, and the one that matters is chosen on
  the clock after.  `CW` is the logarithm of the cache's words, `LGLINES` that of its lines, and
  `LS = CW - LGLINES` that of the words in a line.
-/
import ZipStormMX.Cpu.Fetch
import Mathlib.Tactic.Simps.Basic

namespace ZipStormMX.Cpu

/-- The registers and memories of `pfcache`. -/
structure Pfcache (AW CW LGLINES : ℕ) where
  oWbCyc : Bool
  oWbStb : Bool
  oWbAddr : BitVec AW
  oIllegal : Bool
  cache : BitVec CW → BitVec 32
  cacheTags : BitVec LGLINES → BitVec (AW - CW)
  validMask : BitVec LGLINES → Bool
  rVFromPc : Bool
  rVFromLast : Bool
  rNewRequest : Bool
  rvsrc : Bool
  lastpc : BitVec (AW + 2)
  wraddr : BitVec CW
  tagvalipc : BitVec (AW - CW)
  tagvallst : BitVec (AW - CW)
  illegalValid : Bool
  illegalCache : BitVec (AW - (CW - LGLINES))
  rPcCache : BitVec 32
  rLastCache : BitVec 32
  rPc : BitVec (AW + 2)
  rLastpc : BitVec (AW + 2)
  isrc : Bool
  delay : BitVec 2
  svmask : Bool
  lastAck : Bool
  needload : Bool
  lastAddr : Bool
  busAbort : Bool
  saddr : BitVec LGLINES
  rPriorIllegal : Bool

namespace Pfcache

variable {AW CW LGLINES : ℕ} (s : Pfcache AW CW LGLINES) (i : FetchIn AW)

/-! ## The fields of an address -/

def lineIndex (AW CW : ℕ) {LGLINES : ℕ} (pc : BitVec (AW + 2)) : BitVec LGLINES :=
  pc.extractLsb' (CW - LGLINES + 2) LGLINES

def tagOf (CW : ℕ) (pc : BitVec (AW + 2)) : BitVec (AW - CW) := pc.extractLsb' (CW + 2) (AW - CW)

def lineOf (CW LGLINES : ℕ) (pc : BitVec (AW + 2)) : BitVec (AW - (CW - LGLINES)) :=
  pc.extractLsb' (CW - LGLINES + 2) (AW - (CW - LGLINES))

/-- `a` with the word within its line cleared. -/
def lineBase {w : ℕ} (LS : ℕ) (a : BitVec w) : BitVec w := (a >>> LS) <<< LS

/-! ## Wires -/

def rV : Bool := (if s.rvsrc then s.rVFromPc else s.rVFromLast) && !s.rNewRequest

def wAdvance : Bool := i.iNewPc || (rV s && i.iStallN)

def oPc : BitVec (AW + 2) := if s.isrc then s.rPc else s.rLastpc

def oInsn : BitVec 32 := if s.isrc then s.rPcCache else s.rLastCache

def tagval : BitVec (AW - CW) := if s.isrc then s.tagvalipc else s.tagvallst

def wVFromPc : Bool :=
  lineOf CW LGLINES i.iPc == lineOf CW LGLINES s.lastpc
    && tagval s == tagOf CW i.iPc && s.validMask (lineIndex AW CW i.iPc)

def wVFromLast : Bool :=
  tagval s == tagOf CW s.lastpc && s.validMask (lineIndex AW CW s.lastpc)

def wInvalidateResult : Bool := i.iReset || i.iClearCache

def oValid (iNewPc : Bool) : Bool :=
  ((if s.rvsrc then s.rVFromPc else s.rVFromLast) || s.oIllegal) && !iNewPc
    && !s.rPriorIllegal

def illegalHere : Bool := s.illegalCache == lineOf CW LGLINES s.lastpc

/-! ## The next clock -/

def nextRvsrc : Bool := i.iReset || i.iClearCache || wAdvance s i

def nextDelay : BitVec 2 :=
  if i.iReset || i.iClearCache || wAdvance s i then 2
  else if !rV s && !s.oIllegal then
    if s.oWbCyc then 2 else if s.delay != 0 then s.delay + 3 else s.delay
  else if s.oIllegal then 2 else s.delay

def nextNeedload : Bool :=
  if i.iClearCache || s.oWbCyc then false
  else if wAdvance s i && !s.oIllegal then false
  else s.delay == 0 && !wVFromLast s && (!s.illegalValid || !illegalHere s)

def lastWord {w : ℕ} (LS : ℕ) (a : BitVec w) : Bool :=
  a.extractLsb' 1 (LS - 1) == BitVec.allOnes (LS - 1)

def nextLastAddr : Bool :=
  if !s.oWbCyc then false
  else if lastWord (CW - LGLINES) s.oWbAddr && (!i.iWbStall || s.oWbAddr.getLsbD 0) then true
  else s.lastAddr

def nextLastAck : Bool :=
  s.oWbCyc && (lastWord (CW - LGLINES) s.wraddr && (s.wraddr.getLsbD 0 || i.iWbAck))

def nextBusAbort : Bool :=
  if !s.oWbCyc then false else if i.iClearCache || i.iNewPc then true else s.busAbort

def nextCyc : Bool :=
  if i.iReset || i.iClearCache then false
  else if s.oWbCyc then if (i.iWbAck && s.lastAck) || i.iWbErr then false else s.oWbCyc
  else if s.needload && !i.iNewPc then true else s.oWbCyc

def nextStb : Bool :=
  if i.iReset || i.iClearCache then false
  else if s.oWbCyc then
    if i.iWbErr then false
    else if s.oWbStb && !i.iWbStall && s.lastAddr then false else s.oWbStb
  else if s.needload && !i.iNewPc then true else s.oWbStb

def nextWbAddr : BitVec AW :=
  if s.oWbStb && !i.iWbStall && !s.lastAddr then
    lineBase (CW - LGLINES) s.oWbAddr
      ||| ((s.oWbAddr + 1).extractLsb' 0 (CW - LGLINES)).setWidth AW
  else if !s.oWbCyc then lineBase (CW - LGLINES) (wordOf s.lastpc) else s.oWbAddr

def nextWraddr : BitVec CW :=
  if s.oWbCyc && i.iWbAck && !s.lastAck then s.wraddr + 1
  else if !s.oWbCyc then lineBase (CW - LGLINES) (s.lastpc.extractLsb' 2 CW) else s.wraddr

def nextValidMask (l : BitVec LGLINES) : Bool :=
  if i.iReset || i.iClearCache then false
  else if !s.oWbCyc && s.needload && l == lineIndex AW CW s.lastpc then false
  else if s.svmask && l == s.saddr then !s.busAbort
  else s.validMask l

def nextIllegal : Bool :=
  if i.iReset || i.iClearCache || i.iNewPc then false
  else if s.oIllegal || (oValid s i.iNewPc && i.iStallN) then false
  else s.illegalValid && illegalHere s

@[simps]
def next : Pfcache AW CW LGLINES where
  oWbCyc := nextCyc s i
  oWbStb := nextStb s i
  oWbAddr := nextWbAddr s i
  oIllegal := nextIllegal s i
  cache := fun a => if s.oWbCyc && a == s.wraddr then i.iWbData else s.cache a
  cacheTags := fun l =>
    if s.oWbCyc && i.iWbAck && l == s.oWbAddr.extractLsb' (CW - LGLINES) LGLINES then
      s.oWbAddr.extractLsb' CW (AW - CW)
    else s.cacheTags l
  validMask := nextValidMask s i
  rVFromPc := wVFromPc s i && !wInvalidateResult i && !s.oIllegal
  rVFromLast := wVFromLast s && !wInvalidateResult i
  rNewRequest := wInvalidateResult i
  rvsrc := nextRvsrc s i
  lastpc := if wAdvance s i then i.iPc else s.lastpc
  wraddr := nextWraddr s i
  tagvalipc := s.cacheTags (lineIndex AW CW i.iPc)
  tagvallst := s.cacheTags (lineIndex AW CW s.lastpc)
  illegalValid :=
    if i.iReset || i.iClearCache then false
    else if s.oWbCyc && i.iWbErr then true else s.illegalValid
  illegalCache :=
    if i.iReset || i.iClearCache then 0
    else if s.oWbCyc && i.iWbErr then
      s.oWbAddr.extractLsb' (CW - LGLINES) (AW - (CW - LGLINES))
    else s.illegalCache
  rPcCache := s.cache (i.iPc.extractLsb' 2 CW)
  rLastCache := s.cache (s.lastpc.extractLsb' 2 CW)
  rPc := i.iPc
  rLastpc := s.lastpc
  isrc := wAdvance s i
  delay := nextDelay s i
  svmask := !(i.iReset || i.iClearCache) && (s.oWbCyc && i.iWbAck && s.lastAck && !s.busAbort)
  lastAck := nextLastAck s i
  needload := nextNeedload s i
  lastAddr := nextLastAddr s i
  busAbort := nextBusAbort s i
  saddr :=
    if s.oWbCyc && i.iWbAck then s.wraddr.extractLsb' (CW - LGLINES) LGLINES else s.saddr
  rPriorIllegal := s.oWbCyc && i.iWbErr

def out (iNewPc : Bool) : FetchOut AW where
  oInsn := oInsn s
  oPc := oPc s
  oValid := oValid s iNewPc
  oIllegal := s.oIllegal
  oWbCyc := s.oWbCyc
  oWbStb := s.oWbStb
  oWbAddr := s.oWbAddr

end Pfcache

/-- At power on.  A register or memory without an `initial` value is zero here. -/
def Pfcache.init (AW CW LGLINES : ℕ) : Pfcache AW CW LGLINES :=
  { oWbCyc := false, oWbStb := false, oWbAddr := 0, oIllegal := false, cache := fun _ => 0,
    cacheTags := fun _ => 0, validMask := fun _ => false, rVFromPc := false,
    rVFromLast := false, rNewRequest := false, rvsrc := false, lastpc := 0, wraddr := 0,
    tagvalipc := 0, tagvallst := 0, illegalValid := false, illegalCache := 0, rPcCache := 0,
    rLastCache := 0, rPc := 0, rLastpc := 0, isrc := false, delay := 3, svmask := false,
    lastAck := false, needload := false, lastAddr := false, busAbort := false, saddr := 0,
    rPriorIllegal := false }

/-- `pfcache` as a fetch unit of the CPU: a jump takes `o_valid` away at once. -/
def pfcache (AW CW LGLINES : ℕ) : FetchUnit AW where
  State := Pfcache AW CW LGLINES
  step := Pfcache.next
  out s _ iNewPc _ := Pfcache.out s iNewPc

end ZipStormMX.Cpu
