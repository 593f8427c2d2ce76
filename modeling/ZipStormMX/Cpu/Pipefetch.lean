/-
  `pipefetch.v`: a fetch unit with a window on the program, read ahead of the CPU.

  The window begins at `r_cache_base` and holds `r_nvalid` words; it lies in the ring `cache` from
  the offset on that `r_cache_offset` counts in quarters.

  Its ports are `AW` bits wide, and its addresses those of words.  `zipcpu.v` gives it the byte
  address, of which it takes the low `AW` bits, and takes its `o_pc` for a byte address, whose two
  high bits nothing drives.
-/
import ZipStormMX.Cpu.Fetch

namespace ZipStormMX.Cpu

/-- The registers of `pipefetch`, with a cache of `2 ^ L` words. -/
structure Pipefetch (AW L : ℕ) where
  oI : BitVec 32
  oPc : BitVec AW
  oWbCyc : Bool
  oWbStb : Bool
  oWbAddr : BitVec AW
  rCacheBase : BitVec AW
  rNvalid : BitVec (L + 1)
  rAcksWaiting : BitVec (L + 1)
  cache : BitVec L → BitVec 32
  rCacheOffset : BitVec 2
  rAddrSet : Bool
  rAddr : BitVec AW
  rCv : Bool
  illAddress : BitVec AW

namespace Pipefetch

variable {AW L : ℕ} (s : Pipefetch AW L) (i : FetchIn AW)

/-- The address port, as it is wired. -/
def iPc : BitVec AW := i.iPipePc.setWidth AW

/-! ### The window

Sums with the unsized constants are those of 32 bit integers. -/

def cachelen : BitVec 32 := 1#32 <<< L

/-- A quarter of the cache. -/
def quarter (w L : ℕ) : BitVec w := 1#w <<< (L - 2)

def base : BitVec 32 := s.rCacheBase.setWidth 32

def nvalid : BitVec 32 := s.rNvalid.setWidth 32

def wPcOutOfBounds : Bool :=
  i.iNewPc && (s.rNvalid == 0 || decide (iPc i < s.rCacheBase)
    || decide (base s + cachelen (L := L) ≤ (iPc i).setWidth 32)
    || decide (base s + nvalid s + 5 ≤ (iPc i).setWidth 32))

def wRanOffEndOfCache : Bool :=
  s.rAddrSet && (decide (s.rAddr < s.rCacheBase)
    || decide (base s + cachelen (L := L) ≤ s.rAddr.setWidth 32)
    || decide (base s + nvalid s + 5 ≤ s.rAddr.setWidth 32))

def wRunningOutOfCache : Bool :=
  s.rAddrSet && decide (base s + 3#32 <<< (L - 2) ≤ s.rAddr.setWidth 32)
    && s.rNvalid.extractLsb' (L - 1) 2 != 0

/-- A new window is begun. -/
def restart : Bool := !s.oWbCyc && (wPcOutOfBounds s i || wRanOffEndOfCache s)

/-- The window moves on by a quarter. -/
def slide : Bool := !s.oWbCyc && wRunningOutOfCache s

/-! ### The bus -/

/-- The bus is idle, and wanted. -/
def wantsBus : Bool :=
  (!s.rNvalid.getLsbD L && !i.iWbRequest && s.rAddrSet)
    || (wPcOutOfBounds s i || wRanOffEndOfCache s) || wRunningOutOfCache s

/-- The bus is given up. -/
def abandon : Bool :=
  i.iReset || i.iClearCache || (s.oWbCyc && i.iWbErr) || (s.oWbCyc && wPcOutOfBounds s i)

/-- The last request: the window is full, or the data side wants the bus. -/
def lastRequest : Bool :=
  decide (cachelen (L := L) - 1 ≤ s.oWbAddr.setWidth 32 - base s) || i.iWbRequest

/-- Nothing is left to wait for. -/
def drained : Bool :=
  if i.iWbAck then s.rAcksWaiting == 1 && !s.oWbStb else s.rAcksWaiting == 0 && !s.oWbStb

def nextCyc : Bool :=
  if abandon s i then false
  else if !s.oWbCyc then wantsBus s i
  else !drained s i

def nextStb : Bool :=
  if abandon s i then false
  else if !s.oWbCyc then if wantsBus s i then true else s.oWbStb
  else if s.oWbStb && !i.iWbStall && lastRequest s i then false
  else s.oWbStb

def nextAddr : BitVec AW :=
  if i.iClearCache then iPc i
  else if s.oWbCyc && wPcOutOfBounds s i then
    if i.iWbAck then s.rCacheBase + s.rNvalid.setWidth AW + 1
    else s.rCacheBase + s.rNvalid.setWidth AW
  else if restart s i then if i.iNewPc then iPc i else s.rAddr
  else if s.oWbStb && !i.iWbStall then s.oWbAddr + 1
  else s.oWbAddr

def nextAcksWaiting : BitVec (L + 1) :=
  if !s.oWbCyc then 0
  else if s.oWbStb && !i.iWbStall && !i.iWbAck then s.rAcksWaiting + 1
  else if i.iWbAck && (!s.oWbStb || i.iWbStall) then s.rAcksWaiting - 1
  else s.rAcksWaiting

/-! ### The cache -/

def nextNvalid : BitVec (L + 1) :=
  if i.iReset || i.iClearCache then 0
  else if restart s i then 0
  else if slide s then s.rNvalid - quarter (L + 1) L
  else if s.oWbCyc && i.iWbAck then s.rNvalid + 1
  else s.rNvalid

def nextBase : BitVec AW :=
  if i.iClearCache then iPc i
  else if restart s i then if i.iNewPc then iPc i else s.rAddr
  else if slide s then s.rCacheBase + quarter AW L
  else s.rCacheBase

def nextOffset : BitVec 2 :=
  if i.iClearCache then 0
  else if restart s i then 0
  else if slide s then s.rCacheOffset + 1
  else s.rCacheOffset

def wCacheOffset : BitVec L := s.rCacheOffset.setWidth L <<< (L - 2)

def nextCache : BitVec L → BitVec 32 := fun a =>
  if s.oWbCyc && i.iWbAck && a == s.rNvalid.setWidth L + wCacheOffset s then i.iWbData
  else s.cache a

def cRdaddr : BitVec L := s.rAddr.setWidth L - s.rCacheBase.setWidth L + wCacheOffset s

/-! ### The output -/

/-- The address is in the cache. -/
def wCv : Bool :=
  s.rNvalid != 0 && decide (s.rCacheBase ≤ s.rAddr)
    && decide (s.rAddr - s.rCacheBase < s.rNvalid.setWidth AW)

def oV (iNewPc : Bool) : Bool := s.rCv && !iNewPc

/-- The output registers take up a word. -/
def outCe : Bool := !oV s i.iNewPc || (i.iStallN && oV s i.iNewPc)

def nextRAddr : BitVec AW :=
  if i.iNewPc then iPc i
  else if (i.iStallN && wCv s) || (!i.iStallN && wCv s && s.rAddr == s.oPc) then s.rAddr + 1
  else s.rAddr

@[simps]
def next : Pipefetch AW L where
  oI := if outCe s i then s.cache (cRdaddr s) else s.oI
  oPc := if outCe s i then s.rAddr else s.oPc
  oWbCyc := nextCyc s i
  oWbStb := nextStb s i
  oWbAddr := nextAddr s i
  rCacheBase := nextBase s i
  rNvalid := nextNvalid s i
  rAcksWaiting := nextAcksWaiting s i
  cache := nextCache s i
  rCacheOffset := nextOffset s i
  rAddrSet := if i.iReset || i.iNewPc then true else if i.iClearCache then false else s.rAddrSet
  rAddr := nextRAddr s i
  rCv := !i.iNewPc && (wCv s || (!i.iStallN && s.rCv))
  illAddress :=
    if s.oWbCyc && i.iWbErr then s.oWbAddr - s.rAcksWaiting.setWidth AW else s.illAddress

def out (iReset iNewPc iClearCache : Bool) : FetchOut AW where
  oInsn := s.oI
  oPc := s.oPc.setWidth (AW + 2)
  oValid := oV s iNewPc
  oIllegal := s.oPc == s.illAddress && !iReset && !iNewPc && !iClearCache
  oWbCyc := s.oWbCyc
  oWbStb := s.oWbStb
  oWbAddr := s.oWbAddr

end Pipefetch

/-- At power on.  A register without an `initial` value is zero here. -/
def Pipefetch.init {AW : ℕ} (L : ℕ) (resetBusAddress : BitVec AW) : Pipefetch AW L :=
  { oI := 0, oPc := 0, oWbCyc := false, oWbStb := false, oWbAddr := 0,
    rCacheBase := resetBusAddress, rNvalid := 0, rAcksWaiting := 0, cache := fun _ => 0,
    rCacheOffset := 0, rAddrSet := false, rAddr := 0, rCv := false, illAddress := 0 }

/-- `pipefetch` as a fetch unit of the CPU. -/
def pipefetch (AW L : ℕ) : FetchUnit AW where
  State := Pipefetch AW L
  step := Pipefetch.next
  out := Pipefetch.out

end ZipStormMX.Cpu
