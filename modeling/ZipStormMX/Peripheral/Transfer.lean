/-
  What a transfer of the DMA controller does on the bus.

  The history of a transfer records what it was asked for and, clock by clock, what it has done: the
  addresses it has read from, the words it has got, the words it has written and where to, and the
  acknowledgements of these.  The rest says what the last clock was like; the predictions that
  `wbdmac` makes, a clock ahead, of the last request and the last acknowledgement depend on it.
-/
import ZipStormMX.Peripheral.Wbdmac

namespace ZipStormMX.Peripheral

/-- The inputs of one clock, the reset apart. -/
structure DmaPins where
  slave : DmaReq
  m : WbReply
  iDevInts : BitVec 32

/-- The history of a transfer. -/
structure Transfer (AW : ℕ) where
  src : BitVec AW
  dst : BitVec AW
  incs : Bool
  incd : Bool
  len : ℕ
  reads : List (BitVec AW)
  words : List (BitVec 32)
  writes : List (BitVec AW × BitVec 32)
  wacks : ℕ
  -- on the last clock a request was accepted, one was acknowledged, and `nread` was one short of
  -- the block length
  accepted : Bool
  acked : Bool
  filled : Bool

variable {AW : ℕ}

namespace Wbdmac

variable (s : Wbdmac AW)

/-- The clock on which a transfer starts. -/
def starts : Bool := s.dmaState == .idle && sWrite s 0b00 && startWord s

/-- A request leaves. -/
def accepts (m : WbReply) : Bool := oMwbStb s && !m.stall

def step (x : DmaPins) : Wbdmac AW := s.next false x.slave x.m x.iDevInts

/-- Nothing has been asked for yet, and nothing is under way. -/
structure AtRest : Prop where
  dmaState : s.dmaState = .idle
  cfgLen : s.cfgLen = 0
  cfgLenNonzero : s.cfgLenNonzero = false
  abort : s.abort = false
  userHalt : s.userHalt = false

/-- The register write that is taken is none that aborts or halts a transfer under way. -/
def Undisturbed : Prop :=
  s.dmaState ≠ .idle → sWrite s 0b00 = true →
    s.rS.data ≠ 0xffed0000#32 ∧ s.rS.data ≠ 0xafed0000#32

end Wbdmac

namespace Transfer

/-- Before the first transfer. -/
def none (AW : ℕ) : Transfer AW where
  src := 0
  dst := 0
  incs := false
  incd := false
  len := 0
  reads := []
  words := []
  writes := []
  wacks := 0
  accepted := false
  acked := false
  filled := false

variable (h : Transfer AW) (s : Wbdmac AW)

/-- The history behind one more clock. -/
def next (m : WbReply) : Transfer AW :=
  if s.starts then
    { none AW with
      src := s.cfgRaddr
      dst := s.cfgWaddr
      incs := !s.rS.data.getLsbD 29
      incd := !s.rS.data.getLsbD 28
      len := s.cfgLen.toNat }
  else
    { h with
      reads := if s.accepts m && !s.oMwbWe then h.reads ++ [s.oMwbAddr] else h.reads
      words := if s.oMwbCyc && !s.oMwbWe && m.ack then h.words ++ [m.data] else h.words
      writes := if s.accepts m && s.oMwbWe then h.writes ++ [(s.oMwbAddr, s.oMwbData)]
        else h.writes
      wacks := if s.oMwbCyc && s.oMwbWe && m.ack then h.wacks + 1 else h.wacks
      accepted := s.accepts m
      acked := m.ack
      filled := s.nread.toNat == s.cfgBlocklenSubOne.toNat }

/-- The requests that wait for their acknowledgement. -/
def outstanding : ℕ := h.reads.length - h.words.length + (h.writes.length - h.wacks)

/-- Every request is acknowledged once, a clock or more after it has been accepted, and none fails. -/
structure Bus (m : WbReply) : Prop where
  err : m.err = false
  ack : m.ack = true → 0 < h.outstanding

/-- The acknowledgement of this clock does not come when the prediction is wrong:
    * the last read of a block is not acknowledged on the clock after it was accepted, unless it
      filled up a block of full length;
    * while words of a block are still to be written, none is acknowledged that is the only one
      outstanding, or one of two if the other has just been accepted and no acknowledgement came;
    * nor is any, if the last write has just been accepted so, unless three are outstanding. -/
structure Timely (m : WbReply) : Prop where
  read : m.ack = true → s.dmaState = .readAck → h.outstanding = 1 → h.accepted = true →
    h.filled = true
  writeReq : m.ack = true → s.dmaState = .writeReq →
    h.outstanding ≠ if h.accepted && !h.acked then 2 else 1
  writeAck : m.ack = true → s.dmaState = .writeAck → (h.accepted && !h.acked) = true →
    2 < h.outstanding

instance (m : WbReply) : Decidable (Bus h m) :=
  decidable_of_iff (m.err = false ∧ (m.ack = true → 0 < h.outstanding))
    ⟨fun ⟨he, ha⟩ => ⟨he, ha⟩, fun hb => ⟨hb.err, hb.ack⟩⟩

instance (m : WbReply) : Decidable (Timely h s m) :=
  decidable_of_iff
    ((m.ack = true → s.dmaState = .readAck → h.outstanding = 1 → h.accepted = true →
        h.filled = true) ∧
      (m.ack = true → s.dmaState = .writeReq →
        h.outstanding ≠ if h.accepted && !h.acked then 2 else 1) ∧
      (m.ack = true → s.dmaState = .writeAck → (h.accepted && !h.acked) = true →
        2 < h.outstanding))
    ⟨fun ⟨hr, hw, ha⟩ => ⟨hr, hw, ha⟩, fun ht => ⟨ht.read, ht.writeReq, ht.writeAck⟩⟩

/-- The address of word `i` of a transfer. -/
def address (base : BitVec AW) (inc : Bool) (i : ℕ) : BitVec AW :=
  if inc then base + BitVec.ofNat AW i else base

/-- **What a transfer has to be**: the acknowledgement that is awaited is due, nothing is read or
    written beyond the length, word `i` is read from the place it has to be, and written where it
    has to be, and the controller goes idle when the length has been written. -/
structure Copies : Prop where
  readAck : s.dmaState = .readAck → s.nread < s.nracks
  writeAck : s.dmaState = .writeAck → s.nwacks < s.nwritten
  reads_le : h.reads.length ≤ h.len
  writes_le : h.writes.length ≤ h.len
  reads : ∀ i a, h.reads[i]? = some a → a = address h.src h.incs i
  writes : ∀ i w, h.writes[i]? = some w →
    w.1 = address h.dst h.incd i ∧ h.words[i]? = some w.2
  done : s.dmaState = .idle → h.writes.length = h.len ∧ h.wacks = h.len

end Transfer

/-- A run of the controller, with its history. -/
def dmaStep (q : Wbdmac AW × Transfer AW) (x : DmaPins) : Wbdmac AW × Transfer AW :=
  (q.1.step x, q.2.next q.1 x.m)

end ZipStormMX.Peripheral
