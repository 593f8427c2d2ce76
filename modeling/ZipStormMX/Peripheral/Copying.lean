/-
  The DMA controller copies.

  Each state of the controller has an invariant between its counters and the history of the transfer
  (`ReadReq`, `ReadAck`, ...), and each clock leads from the invariant of a state to that of the next
  one.  The predictions are of the next clock, so most of it is arithmetic: what a prediction is
  made from, and what it should have been made from (`lastReadRequest_eq` and its like).  Two of them
  are made from the wrong counters; a bus that is `Timely` does not let that be seen.
-/
import ZipStormMX.Clocked
import ZipStormMX.Peripheral.Transfer

namespace ZipStormMX.Peripheral

open Clocked

namespace Wbdmac

variable {AW : ℕ} {s : Wbdmac AW} {m : WbReply}

/-! ## Predictions -/

theorem cfgLen_lt (hAW : AW ≤ 30) (s : Wbdmac AW) : s.cfgLen.toNat < 2 ^ 30 :=
  Nat.lt_of_lt_of_le s.cfgLen.isLt (Nat.pow_le_pow_right (by omega) hAW)

theorem toNat_cfgLen (hAW : AW ≤ 30) (s : Wbdmac AW) :
    (s.cfgLen.setWidth 32).toNat = s.cfgLen.toNat := by
  have := cfgLen_lt hAW s
  rw [BitVec.toNat_setWidth]
  omega

theorem toNat_blocklen (s : Wbdmac AW) : (blocklen s).toNat = s.cfgBlocklenSubOne.toNat := by
  have := s.cfgBlocklenSubOne.isLt
  unfold blocklen
  rw [BitVec.toNat_setWidth]
  omega

theorem toNat_counter (v : BitVec 11) : (v.setWidth 32).toNat = v.toNat := by
  have := v.isLt
  rw [BitVec.toNat_setWidth]
  omega

/-- The words of a block: as many as fit, of those that are left. -/
def target (s : Wbdmac AW) : ℕ := min (s.cfgBlocklenSubOne.toNat + 1) s.cfgLen.toNat

theorem target_le (s : Wbdmac AW) : target s ≤ 1024 := by
  have := s.cfgBlocklenSubOne.isLt
  unfold target
  omega

/-- The last read request is predicted rightly. -/
theorem lastReadRequest_wait (hAW : AW ≤ 30) (hs : s.dmaState = .wait) (hn : s.nracks = 0)
    (hc : 0 < s.cfgLen.toNat) (m : WbReply) :
    nextLastReadRequest s false m = decide (1 = target s) := by
  have hlt := cfgLen_lt hAW s
  have hst : (s.dmaState == DmaState.readReq) = false := by rw [hs]; rfl
  have hsw : (s.dmaState == DmaState.wait) = true := by rw [hs]; rfl
  unfold nextLastReadRequest target
  rw [hst, hsw, hn]
  simp only [Bool.false_eq_true, if_false, Bool.true_or, if_true, Bool.and_false]
  rw [Bool.eq_iff_iff, Bool.or_eq_true, beq_iff_eq, beq_iff_eq, decide_eq_true_iff,
    ← BitVec.toNat_inj, ← BitVec.toNat_inj, BitVec.toNat_sub, toNat_cfgLen hAW, toNat_blocklen,
    toNat_counter]
  simp
  omega

theorem lastReadRequest_eq (hAW : AW ≤ 30) (hs : s.dmaState = .readReq)
    (hn : s.nracks.toNat + (if m.stall then 0 else 1) < target s) :
    nextLastReadRequest s false m =
      decide (s.nracks.toNat + (if m.stall then 0 else 1) + 1 = target s) := by
  have hlt := cfgLen_lt hAW s
  have hb := s.cfgBlocklenSubOne.isLt
  have hst : (s.dmaState == DmaState.readReq) = true := by rw [hs]; rfl
  unfold nextLastReadRequest
  rw [hst]
  unfold target at hn ⊢
  cases hm : m.stall with
  | true =>
    simp only [hm, Bool.false_eq_true, if_false, Bool.or_true, if_true, Bool.not_true,
      Bool.false_and] at hn ⊢
    rw [Bool.eq_iff_iff, Bool.or_eq_true, beq_iff_eq, beq_iff_eq, decide_eq_true_iff,
      ← BitVec.toNat_inj, ← BitVec.toNat_inj, BitVec.toNat_sub, toNat_cfgLen hAW, toNat_blocklen,
      toNat_counter]
    simp
    omega
  | false =>
    simp only [hm, Bool.false_eq_true, if_false, Bool.or_true, if_true, Bool.not_false,
      Bool.and_self] at hn ⊢
    rw [Bool.eq_iff_iff, Bool.or_eq_true, beq_iff_eq, beq_iff_eq, decide_eq_true_iff,
      ← BitVec.toNat_inj, ← BitVec.toNat_inj, BitVec.toNat_sub, BitVec.toNat_add,
      toNat_cfgLen hAW, toNat_blocklen, toNat_counter]
    simp
    omega

/-- And so is the last acknowledgement of a read, once all are requested. -/
theorem lastReadAck_ack (hs : s.dmaState = .readAck) (hn : s.nread.toNat + 1 < 2048) :
    nextLastReadAck s false m =
      decide (s.nread.toNat + (if m.ack then 1 else 0) + 1 = s.nracks.toNat) := by
  have hr := s.nracks.isLt
  have hstb : oMwbStb s = false := by
    unfold oMwbStb
    rw [hs]
    rfl
  unfold nextLastReadAck ackAlone
  rw [hstb, hs]
  cases hm : m.ack with
  | true =>
    simp only [Bool.false_eq_true, if_false, Bool.not_false, Bool.true_or, Bool.and_self,
      if_true, reduceCtorEq, beq_iff_eq, beq_self_eq_true]
    rw [Bool.eq_iff_iff, beq_iff_eq, decide_eq_true_iff, ← BitVec.toNat_inj, BitVec.toNat_add,
      toNat_counter, toNat_counter]
    simp
    omega
  | false =>
    simp only [Bool.false_eq_true, if_false, Bool.false_and, if_true, reduceCtorEq,
      beq_iff_eq, beq_self_eq_true]
    rw [Bool.eq_iff_iff, beq_iff_eq, decide_eq_true_iff, ← BitVec.toNat_inj, BitVec.toNat_add]
    simp
    omega

/-- While requests leave, it is made from the words that have come before this clock. -/
theorem lastReadAck_req (hs : s.dmaState = .readReq) (hn : s.nread.toNat + 1 < 2048) :
    nextLastReadAck s false m =
      decide (s.nread.toNat + (if m.ack && m.stall then 1 else 0) =
        s.cfgBlocklenSubOne.toNat) := by
  have hstb : oMwbStb s = true := by
    unfold oMwbStb
    rw [hs]
    rfl
  unfold nextLastReadAck ackAlone
  rw [hstb, hs]
  simp only [Bool.not_true, Bool.false_or, Bool.false_eq_true, if_false, beq_self_eq_true, if_true]
  cases m.ack && m.stall with
  | true =>
    simp only [if_true]
    rw [Bool.eq_iff_iff, beq_iff_eq, decide_eq_true_iff, ← BitVec.toNat_inj, toNat_blocklen,
      toNat_counter, BitVec.toNat_add]
    simp
    omega
  | false =>
    simp only [Bool.false_eq_true, if_false]
    rw [Bool.eq_iff_iff, beq_iff_eq, decide_eq_true_iff, ← BitVec.toNat_inj, toNat_blocklen,
      toNat_counter]
    simp

/-- The last write request is predicted rightly. -/
theorem lastWriteRequest_pre (hs : s.dmaState = .preWrite) (hn : 0 < s.nread.toNat) :
    nextLastWriteRequest s false m = decide (0 + 1 = s.nread.toNat) := by
  unfold nextLastWriteRequest
  rw [hs]
  simp only [Bool.false_eq_true, if_false, beq_self_eq_true, if_true]
  apply decide_eq_decide.mpr
  rw [BitVec.le_def]
  simp
  omega

theorem lastWriteRequest_eq (hs : s.dmaState = .writeReq)
    (hn : s.nwritten.toNat + (if m.stall then 0 else 1) < s.nread.toNat) :
    nextLastWriteRequest s false m =
      decide (s.nwritten.toNat + (if m.stall then 0 else 1) + 1 = s.nread.toNat) := by
  have hr := s.nread.isLt
  unfold nextLastWriteRequest
  rw [hs]
  simp only [Bool.false_eq_true, if_false, beq_self_eq_true, if_true, reduceCtorEq, beq_iff_eq]
  cases hm : m.stall with
  | true =>
    simp only [hm, if_true] at hn ⊢
    apply decide_eq_decide.mpr
    rw [BitVec.le_def, BitVec.toNat_sub, toNat_counter, toNat_counter]
    simp
    omega
  | false =>
    simp only [hm, Bool.false_eq_true, if_false] at hn ⊢
    apply decide_eq_decide.mpr
    rw [BitVec.le_def, BitVec.toNat_sub, toNat_counter, toNat_counter]
    simp
    omega

/-- The last acknowledgement of a write is predicted from the counters as they were before this
    clock, unless an acknowledgement came and no request left. -/
theorem lastWriteAck_eq (hs : s.dmaState = .writeReq ∨ s.dmaState = .writeAck) :
    nextLastWriteAck s false m =
      decide (s.nwacks.toNat + (if m.ack && (!oMwbStb s || m.stall) then 2 else 1) =
        s.nwritten.toNat) := by
  have hw := s.nwacks.isLt
  have hst : (s.dmaState == DmaState.writeReq || s.dmaState == DmaState.writeAck) = true := by
    obtain hs | hs := hs <;> rw [hs] <;> rfl
  unfold nextLastWriteAck ackAlone
  rw [hst]
  simp only [Bool.false_eq_true, if_false, if_true]
  cases m.ack && (!oMwbStb s || m.stall) with
  | true =>
    simp only [if_true]
    rw [Bool.eq_iff_iff, beq_iff_eq, decide_eq_true_iff, ← BitVec.toNat_inj, BitVec.toNat_add,
      toNat_counter, toNat_counter]
    simp
    omega
  | false =>
    simp only [Bool.false_eq_true, if_false]
    rw [Bool.eq_iff_iff, beq_iff_eq, decide_eq_true_iff, ← BitVec.toNat_inj, BitVec.toNat_add,
      toNat_counter, toNat_counter]
    simp
    omega

end Wbdmac

namespace Transfer

variable {AW : ℕ}

/-! ## Invariants -/

/-- What holds in every state. -/
structure Common (h : Transfer AW) (s : Wbdmac AW) : Prop where
  abort : s.abort = false
  userHalt : s.userHalt = false
  nonzero : s.cfgLenNonzero = decide (s.cfgLen.toNat ≠ 0)
  reads : ∀ i a, h.reads[i]? = some a → a = address h.src h.incs i
  writes : ∀ i w, h.writes[i]? = some w → w.1 = address h.dst h.incd i ∧ h.words[i]? = some w.2

/-- What holds from the start of a transfer to its end. -/
structure Busy (h : Transfer AW) (s : Wbdmac AW) : Prop where
  incs : s.cfgIncs = h.incs
  incd : s.cfgIncd = h.incd
  cfgLen : s.cfgLen.toNat + h.wacks = h.len
  cfgRaddr : s.cfgRaddr = address h.src h.incs h.words.length
  cfgWaddr : s.cfgWaddr = address h.dst h.incd h.writes.length

/-- The words of a block are in the block memory. -/
def Held (h : Transfer AW) (s : Wbdmac AW) (base : ℕ) : Prop :=
  ∀ i < s.nread.toNat, h.words[base + i]? = some (s.dmaMem (BitVec.ofNat 10 i))

/-- Between two transfers: all that was asked for is done. -/
structure Idle (h : Transfer AW) : Prop where
  reads : h.reads.length = h.len
  words : h.words.length = h.len
  writes : h.writes.length = h.len
  wacks : h.wacks = h.len

/-- Between two blocks. -/
structure Wait (h : Transfer AW) (s : Wbdmac AW) : Prop where
  reads : h.reads.length = h.wacks
  words : h.words.length = h.wacks
  writes : h.writes.length = h.wacks
  wacks : h.wacks < h.len
  trigger : s.trigger = true → s.nracks = 0

/-- The reads of a block are requested. -/
structure ReadReq (h : Transfer AW) (s : Wbdmac AW) : Prop where
  writes : h.writes.length = h.wacks
  words : h.words.length = h.wacks + s.nread.toNat
  reads : h.reads.length = h.wacks + s.nracks.toNat
  le : s.nread.toNat ≤ s.nracks.toNat
  lt : s.nracks.toNat < s.target
  request : s.lastReadRequest = decide (s.nracks.toNat + 1 = s.target)
  ack : s.lastReadAck = true → s.nracks.toNat ≤ s.nread.toNat
  addr : s.oMwbAddr = address h.src h.incs h.reads.length
  rdaddr : s.rdaddr = 0
  held : Held h s h.wacks

/-- They are awaited. -/
structure ReadAck (h : Transfer AW) (s : Wbdmac AW) : Prop where
  writes : h.writes.length = h.wacks
  words : h.words.length = h.wacks + s.nread.toNat
  reads : h.reads.length = h.wacks + s.nracks.toNat
  lt : s.nread.toNat < s.nracks.toNat
  eq : s.nracks.toNat = s.target
  early : s.lastReadAck = true → s.nread.toNat + 1 = s.nracks.toNat
  late : s.nread.toNat + 1 = s.nracks.toNat → (h.accepted = true → h.filled = true) →
    s.lastReadAck = true
  rdaddr : s.rdaddr = 0
  held : Held h s h.wacks

/-- The block is read. -/
structure PreWrite (h : Transfer AW) (s : Wbdmac AW) : Prop where
  writes : h.writes.length = h.wacks
  words : h.words.length = h.wacks + s.nread.toNat
  reads : h.reads.length = h.wacks + s.nread.toNat
  pos : 0 < s.nread.toNat
  eq : s.nread.toNat = s.target
  rdaddr : s.rdaddr = 0
  held : Held h s h.wacks

/-- The last acknowledgement of a write is predicted, but behind a clock on which a request left and
    no acknowledgement came it is the last but one that is. -/
def Predicted (h : Transfer AW) (s : Wbdmac AW) : Prop :=
  s.lastWriteAck =
    decide (s.nwacks.toNat + (if h.accepted && !h.acked then 2 else 1) = s.nwritten.toNat)

/-- The writes of a block that began at `base`. -/
structure Writing (h : Transfer AW) (s : Wbdmac AW) (base : ℕ) : Prop where
  words : h.words.length = base + s.nread.toNat
  reads : h.reads.length = base + s.nread.toNat
  writes : h.writes.length = base + s.nwritten.toNat
  wacks : h.wacks = base + s.nwacks.toNat
  nread : s.nread.toNat ≤ 1024
  le : s.nwacks.toNat ≤ s.nwritten.toNat
  len : base + s.nread.toNat ≤ h.len
  ack : Predicted h s

/-- They are requested. -/
structure WriteReq (h : Transfer AW) (s : Wbdmac AW) (base : ℕ) : Prop extends
    Writing h s base where
  lt : s.nwritten.toNat < s.nread.toNat
  request : s.lastWriteRequest = decide (s.nwritten.toNat + 1 = s.nread.toNat)
  addr : s.oMwbAddr = s.cfgWaddr
  data : s.oMwbData = s.dmaMem (BitVec.ofNat 10 s.nwritten.toNat)
  rdaddr : s.rdaddr = BitVec.ofNat 10 (s.nwritten.toNat + 1)
  held : Held h s base

/-- They are awaited. -/
structure WriteAck (h : Transfer AW) (s : Wbdmac AW) (base : ℕ) : Prop extends
    Writing h s base where
  eq : s.nwritten.toNat = s.nread.toNat
  lt : s.nwacks.toNat < s.nwritten.toNat

/-- The invariant of a state of the controller. -/
def Phase (h : Transfer AW) (s : Wbdmac AW) : Prop :=
  match s.dmaState with
  | .idle => Idle h
  | .wait => Busy h s ∧ Wait h s
  | .readReq => Busy h s ∧ ReadReq h s
  | .readAck => Busy h s ∧ ReadAck h s
  | .preWrite => Busy h s ∧ PreWrite h s
  | .writeReq => Busy h s ∧ ∃ base, WriteReq h s base
  | .writeAck => Busy h s ∧ ∃ base, WriteAck h s base

/-- **The invariant.** -/
structure Inv (h : Transfer AW) (s : Wbdmac AW) : Prop extends Common h s where
  phase : Phase h s

theorem Inv.bounds {h : Transfer AW} {s : Wbdmac AW} (hi : Inv h s) :
    h.reads.length ≤ h.len ∧ h.writes.length ≤ h.len := by
  have hph := hi.phase
  unfold Phase at hph
  cases hs : s.dmaState <;> rw [hs] at hph
  case idle => exact ⟨hph.reads.le, hph.writes.le⟩
  case wait =>
    obtain ⟨hb, hw⟩ := hph
    exact ⟨hw.reads.le.trans hw.wacks.le, hw.writes.le.trans hw.wacks.le⟩
  case readReq =>
    obtain ⟨hb, hr⟩ := hph
    have h1 := hb.cfgLen
    have h2 := hr.lt
    have h3 := hr.reads
    have h4 := hr.writes
    unfold Wbdmac.target at h2
    constructor <;> omega
  case readAck =>
    obtain ⟨hb, hr⟩ := hph
    have h1 := hb.cfgLen
    have h2 := hr.eq
    have h3 := hr.reads
    have h4 := hr.writes
    unfold Wbdmac.target at h2
    constructor <;> omega
  case preWrite =>
    obtain ⟨hb, hr⟩ := hph
    have h1 := hb.cfgLen
    have h2 := hr.eq
    have h3 := hr.reads
    have h4 := hr.writes
    unfold Wbdmac.target at h2
    constructor <;> omega
  case writeReq =>
    obtain ⟨hb, base, hw⟩ := hph
    have h1 := hw.len
    have h2 := hw.reads
    have h3 := hw.writes
    have h4 := hw.lt
    constructor <;> omega
  case writeAck =>
    obtain ⟨hb, base, hw⟩ := hph
    have h1 := hw.len
    have h2 := hw.reads
    have h3 := hw.writes
    have h4 := hw.eq
    constructor <;> omega

/-- The invariant says what a transfer has to be. -/
theorem Inv.copies {h : Transfer AW} {s : Wbdmac AW} (hi : Inv h s) : Copies h s := by
  have hph := hi.phase
  unfold Phase at hph
  refine ⟨fun hs => ?_, fun hs => ?_, hi.bounds.1, hi.bounds.2, hi.reads, hi.writes,
    fun hs => ?_⟩ <;> rw [hs] at hph
  · exact hph.2.lt
  · obtain ⟨-, _, hw⟩ := hph
    exact hw.lt
  · exact ⟨hph.writes, hph.wacks⟩

/-! ## Steps -/

variable {h : Transfer AW} {s : Wbdmac AW} {x : DmaPins}

theorem getElem?_concat {α : Type} {l : List α} {a b : α} {i : ℕ} (h : (l ++ [a])[i]? = some b) :
    l[i]? = some b ∨ (i = l.length ∧ b = a) := by
  obtain hlt | heq | hgt := Nat.lt_trichotomy i l.length
  · rw [List.getElem?_append_left hlt] at h
    exact .inl h
  · subst heq
    rw [List.getElem?_concat_length] at h
    exact .inr ⟨rfl, (Option.some.inj h).symm⟩
  · rw [List.getElem?_eq_none (by simp; omega)] at h
    exact absurd h (by simp)

/-- What there is stays, when something is appended. -/
theorem getElem?_append_some {α : Type} {l l' : List α} {b : α} {i : ℕ} (h : l[i]? = some b) :
    (l ++ l')[i]? = some b := by
  have hlt : i < l.length := by
    rw [List.getElem?_eq_some_iff] at h
    exact h.1
  rw [List.getElem?_append_left hlt, h]

/-- A clock keeps what holds in every state, if the requests that leave on it are the right ones. -/
theorem Common.next (hc : Common h s) (hu : s.Undisturbed)
    (hack : s.wordWritten x.m = true → 0 < s.cfgLen.toNat)
    (hrd : s.accepts x.m = true → s.oMwbWe = false →
      s.oMwbAddr = address h.src h.incs h.reads.length)
    (hwr : s.accepts x.m = true → s.oMwbWe = true →
      s.oMwbAddr = address h.dst h.incd h.writes.length ∧
        h.words[h.writes.length]? = some s.oMwbData) (hAW : AW ≤ 30) :
    Common (h.next s x.m) (s.step x) := by
  refine ⟨?_, ?_, ?_, ?_, ?_⟩
  · simp only [Wbdmac.step, Wbdmac.next_abort, Bool.false_or]
    by_cases hs : s.dmaState = .idle
    · simp [hs]
    · cases hw : s.sWrite 0b00 with
      | false => simp
      | true => simp [(hu hs hw).1]
  · simp only [Wbdmac.step, Wbdmac.next_userHalt, hc.userHalt]
    by_cases hs : s.dmaState = .idle
    · simp [hs]
    · cases hw : s.sWrite 0b00 with
      | false => simp
      | true => simp [(hu hs hw).2]
  · have hlt := Wbdmac.cfgLen_lt hAW s
    simp only [Wbdmac.step, Wbdmac.next_cfgLenNonzero, Wbdmac.next_cfgLen, Wbdmac.nextLenNonzero,
      Wbdmac.nextLen, Bool.false_eq_true, if_false]
    split
    · rw [Bool.eq_iff_iff, bne_iff_ne, decide_eq_true_iff, ne_eq, ne_eq, ← BitVec.toNat_inj]
      rfl
    · split
      · rename_i hw
        have hpos := hack hw
        have h1 : s.cfgLen.toNat - 1 = (s.cfgLen - 1).toNat := by
          have h1 : (1 : BitVec AW).toNat = 1 % 2 ^ AW := BitVec.toNat_ofNat 1 _
          have hl := s.cfgLen.isLt
          have h2 : 1 < 2 ^ AW := by omega
          rw [BitVec.toNat_sub, h1, Nat.mod_eq_of_lt h2, ← Nat.sub_add_comm h2.le,
            Nat.add_sub_assoc (by omega), Nat.add_mod_left, Nat.mod_eq_of_lt (by omega)]
        rw [← h1]
        apply decide_eq_decide.mpr
        rw [BitVec.lt_def, Wbdmac.toNat_cfgLen hAW]
        simp
        omega
      · exact hc.nonzero
  · unfold Transfer.next
    split
    · intro i a hi
      simp [none] at hi
    · intro i a hi
      simp only at hi
      split at hi
      · rename_i hacc
        rw [Bool.and_eq_true, Bool.not_eq_true'] at hacc
        obtain hold | ⟨rfl, rfl⟩ := getElem?_concat hi
        · exact hc.reads i a hold
        · exact hrd hacc.1 hacc.2
      · exact hc.reads i a hi
  · unfold Transfer.next
    split
    · intro i w hi
      simp [none] at hi
    · intro i w hi
      have hwords : ∀ (j : ℕ) (b : BitVec 32), h.words[j]? = some b → (if s.oMwbCyc && !s.oMwbWe && x.m.ack then
          h.words ++ [x.m.data] else h.words)[j]? = some b := by
        intro j b hj
        split
        · exact getElem?_append_some hj
        · exact hj
      simp only at hi ⊢
      split at hi
      · rename_i hacc
        rw [Bool.and_eq_true] at hacc
        obtain hold | ⟨rfl, rfl⟩ := getElem?_concat hi
        · exact ⟨(hc.writes i w hold).1, hwords _ _ (hc.writes i w hold).2⟩
        · exact ⟨(hwr hacc.1 hacc.2).1, hwords _ _ (hwr hacc.1 hacc.2).2⟩
      · exact ⟨(hc.writes i w hi).1, hwords _ _ (hc.writes i w hi).2⟩

/-- A clock on which no transfer starts. -/
theorem next_busy (hs : s.starts = false) (m : WbReply) : h.next s m =
    { h with
      reads := if s.accepts m && !s.oMwbWe then h.reads ++ [s.oMwbAddr] else h.reads
      words := if s.oMwbCyc && !s.oMwbWe && m.ack then h.words ++ [m.data] else h.words
      writes := if s.accepts m && s.oMwbWe then h.writes ++ [(s.oMwbAddr, s.oMwbData)]
        else h.writes
      wacks := if s.oMwbCyc && s.oMwbWe && m.ack then h.wacks + 1 else h.wacks
      accepted := s.accepts m
      acked := m.ack
      filled := s.nread.toNat == s.cfgBlocklenSubOne.toNat } := by
  unfold Transfer.next
  rw [if_neg (by rw [hs]; exact Bool.false_ne_true)]

theorem starts_busy (hs : s.dmaState ≠ .idle) : s.starts = false := by
  unfold Wbdmac.starts
  rw [beq_eq_false_iff_ne.mpr hs]
  rfl

theorem address_succ (base : BitVec AW) (inc : Bool) (i : ℕ) : address base inc (i + 1) =
    if inc then address base inc i + 1 else address base inc i := by
  cases inc with
  | false => rfl
  | true =>
    show base + BitVec.ofNat AW (i + 1) = base + BitVec.ofNat AW i + 1
    rw [BitVec.ofNat_add, BitVec.add_assoc]
    rfl

/-- Nothing is under way: a transfer starts, or nothing happens. -/
theorem step_idle (hi : Inv h s) (hs : s.dmaState = .idle) : Phase (h.next s x.m) (s.step x) := by
  have hidle : Idle h := by
    have hph := hi.phase
    unfold Phase at hph
    rwa [hs] at hph
  have hcyc : s.oMwbCyc = false := by
    unfold Wbdmac.oMwbCyc
    rw [hs]
    rfl
  have hstb : s.oMwbStb = false := by
    unfold Wbdmac.oMwbStb
    rw [hs]
    rfl
  cases hst : s.starts with
  | true =>
    have hst' := hst
    unfold Wbdmac.starts at hst'
    rw [hs, Bool.and_eq_true, Bool.and_eq_true] at hst'
    obtain ⟨⟨-, hw⟩, hword⟩ := hst'
    have hw' := hw
    unfold Wbdmac.sWrite at hw'
    rw [Bool.and_eq_true, beq_iff_eq] at hw'
    have hother : ∀ a : BitVec 2, a ≠ 0b00 → s.sWrite a = false := by
      intro a ha
      unfold Wbdmac.sWrite
      rw [hw'.2, beq_eq_false_iff_ne.mpr ha.symm, Bool.and_false]
    have hw0 : s.sWrite 0#2 = true := hw
    have hw1 : s.sWrite 1#2 = false := hother 1 (by decide)
    have hw2 : s.sWrite 2#2 = false := hother 2 (by decide)
    have hw3 : s.sWrite 3#2 = false := hother 3 (by decide)
    have hstate : (s.step x).dmaState = .wait := by
      simp [Wbdmac.step, Wbdmac.nextDmaState, hs, hw0, hword]
    have hlen : 0 < s.cfgLen.toNat := by
      unfold Wbdmac.startWord at hword
      rw [Bool.and_eq_true, hi.nonzero, decide_eq_true_iff] at hword
      omega
    have hlen' : (s.step x).cfgLen = s.cfgLen := by
      simp [Wbdmac.step, Wbdmac.nextLen, Wbdmac.setLen, Wbdmac.wordWritten, hs, hcyc,
        hw1]
    unfold Phase
    rw [hstate]
    unfold Transfer.next
    rw [if_pos hst]
    refine ⟨⟨?_, ?_, ?_, ?_, ?_⟩, ⟨rfl, rfl, rfl, hlen, ?_⟩⟩
    · simp [Wbdmac.step, Wbdmac.configure, hs, hw0]
    · simp [Wbdmac.step, Wbdmac.configure, hs, hw0]
    · rw [hlen']
      rfl
    · have hra : (s.step x).cfgRaddr = s.cfgRaddr := by
        simp [Wbdmac.step, Wbdmac.nextRaddr, hs, hw2]
      rw [hra]
      simp [address, none]
    · have hwa : (s.step x).cfgWaddr = s.cfgWaddr := by
        simp [Wbdmac.step, Wbdmac.nextWaddr, hs, hw3]
      rw [hwa]
      simp [address, none]
    · simp [Wbdmac.step, hs]
  | false =>
    have hstate : (s.step x).dmaState = .idle := by
      unfold Wbdmac.starts at hst
      rw [hs] at hst
      have hst' : (s.sWrite 0#2 && s.startWord) = false := hst
      have himp := Bool.and_eq_false_imp.mp hst'
      simpa [Wbdmac.step, Wbdmac.nextDmaState, hs] using himp
    unfold Phase
    rw [hstate, next_busy hst]
    obtain ⟨h1, h2, h3, h4⟩ := hidle
    refine ⟨?_, ?_, ?_, ?_⟩
    · simp [Wbdmac.accepts, hstb, h1]
    · simp [hcyc, h2]
    · simp [Wbdmac.accepts, hstb, h3]
    · simp [hcyc, h4]

/-- Between two blocks: the controller waits, or the next block begins. -/
theorem step_wait (hAW : AW ≤ 30) (hi : Inv h s) (hs : s.dmaState = .wait) :
    Phase (h.next s x.m) (s.step x) := by
  obtain ⟨hb, hw⟩ : Busy h s ∧ Wait h s := by
    have hph := hi.phase
    unfold Phase at hph
    rwa [hs] at hph
  have hcyc : s.oMwbCyc = false := by
    unfold Wbdmac.oMwbCyc
    rw [hs]
    rfl
  have hstb : s.oMwbStb = false := by
    unfold Wbdmac.oMwbStb
    rw [hs]
    rfl
  have hlen : (s.step x).cfgLen = s.cfgLen := by
    simp [Wbdmac.step, Wbdmac.nextLen, Wbdmac.setLen, Wbdmac.wordWritten, hs, hcyc]
  have hra : (s.step x).cfgRaddr = s.cfgRaddr := by
    simp [Wbdmac.step, Wbdmac.nextRaddr, hs]
  have hwa : (s.step x).cfgWaddr = s.cfgWaddr := by
    simp [Wbdmac.step, Wbdmac.nextWaddr, hs]
  have hnr : (s.step x).nracks = 0 := by
    simp [Wbdmac.step, Wbdmac.nextNracks, Wbdmac.resting, hs]
  have hnd : (s.step x).nread = 0 := by
    simp [Wbdmac.step, Wbdmac.nextNread, Wbdmac.resting, hs]
  have hbl : (s.step x).cfgBlocklenSubOne = s.cfgBlocklenSubOne := by
    simp [Wbdmac.step, Wbdmac.configure, hs]
  have hbusy : Busy (h.next s x.m) (s.step x) := by
    rw [next_busy (starts_busy (by rw [hs]; decide))]
    refine ⟨?_, ?_, ?_, ?_, ?_⟩
    · simp [Wbdmac.step, Wbdmac.configure, hs, hb.incs]
    · simp [Wbdmac.step, Wbdmac.configure, hs, hb.incd]
    · simp [hlen, hcyc, hb.cfgLen]
    · simp [hra, hcyc, hb.cfgRaddr]
    · simp [hwa, Wbdmac.accepts, hstb, hb.cfgWaddr]
  have htarget : (s.step x).target = s.target := by
    unfold Wbdmac.target
    rw [hlen, hbl]
  have hpos : 0 < s.cfgLen.toNat := by
    have h1 := hb.cfgLen
    have h2 := hw.wacks
    omega
  unfold Phase
  cases htr : s.trigger with
  | false =>
    have hstate : (s.step x).dmaState = .wait := by
      simp [Wbdmac.step, Wbdmac.nextDmaState, hs, hi.abort, hi.userHalt, htr]
    rw [hstate]
    refine ⟨hbusy, ?_⟩
    rw [next_busy (starts_busy (by rw [hs]; decide))]
    refine ⟨?_, ?_, ?_, ?_, fun _ => hnr⟩
    · simp [Wbdmac.accepts, hstb, hcyc, hw.reads]
    · simp [hcyc, hw.words]
    · simp [Wbdmac.accepts, hstb, hcyc, hw.writes]
    · simp [hcyc, hw.wacks]
  | true =>
    have hstate : (s.step x).dmaState = .readReq := by
      simp [Wbdmac.step, Wbdmac.nextDmaState, hs, hi.abort, hi.userHalt, htr]
    rw [hstate]
    refine ⟨hbusy, ?_⟩
    rw [next_busy (starts_busy (by rw [hs]; decide))]
    refine ⟨?_, ?_, ?_, ?_, ?_, ?_, ?_, ?_, ?_, ?_⟩
    · simp [Wbdmac.accepts, hstb, hcyc, hw.writes]
    · simp [hcyc, hw.words, hnd]
    · simp [Wbdmac.accepts, hstb, hcyc, hw.reads, hnr]
    · simp [hnd, hnr]
    · have hlt : 0 < s.target := by
        unfold Wbdmac.target
        omega
      rw [htarget, hnr]
      exact hlt
    · rw [htarget, hnr]
      exact Wbdmac.lastReadRequest_wait hAW hs (hw.trigger htr) hpos x.m
    · simp [Wbdmac.step, Wbdmac.nextLastReadAck, hs]
    · have ho : (s.step x).oMwbAddr = s.cfgRaddr := by
        simp [Wbdmac.step, Wbdmac.nextMwbAddr, hs]
      rw [ho, hb.cfgRaddr, hw.words]
      simp [Wbdmac.accepts, hstb, hw.reads]
    · simp [Wbdmac.step, Wbdmac.nextRdaddr, hs]
    · intro i hlt
      rw [hnd] at hlt
      exact absurd hlt (Nat.not_lt_zero i)

/-! ### Reading -/

/-- The bus is the source's. -/
structure Reads (s : Wbdmac AW) : Prop where
  state : s.dmaState = .readReq ∨ s.dmaState = .readAck
  cyc : s.oMwbCyc = true
  we : s.oMwbWe = false

theorem Reads.of (hs : s.dmaState = .readReq ∨ s.dmaState = .readAck) : Reads s := by
  refine ⟨hs, ?_, ?_⟩
  · unfold Wbdmac.oMwbCyc
    obtain hs | hs := hs <;> rw [hs] <;> rfl
  · unfold Wbdmac.oMwbWe
    obtain hs | hs := hs <;> rw [hs] <;> rfl

theorem Reads.ne_idle (hr : Reads s) : s.dmaState ≠ .idle := by
  obtain hs | hs := hr.state <;> rw [hs] <;> decide

/-- The history of a clock on which the bus is the source's. -/
theorem Reads.next (hr : Reads s) (m : WbReply) : h.next s m =
    { h with
      reads := if s.accepts m then h.reads ++ [s.oMwbAddr] else h.reads
      words := if m.ack then h.words ++ [m.data] else h.words
      accepted := s.accepts m
      acked := m.ack
      filled := s.nread.toNat == s.cfgBlocklenSubOne.toNat } := by
  rw [next_busy (starts_busy hr.ne_idle), hr.cyc, hr.we]
  simp

theorem Reads.cfgLen (hr : Reads s) : (s.step x).cfgLen = s.cfgLen := by
  have hst : (s.dmaState == DmaState.idle) = false := beq_eq_false_iff_ne.mpr hr.ne_idle
  simp [Wbdmac.step, Wbdmac.nextLen, Wbdmac.setLen, Wbdmac.wordWritten, hst, hr.we]

theorem Reads.target (hr : Reads s) : (s.step x).target = s.target := by
  have hbl : (s.step x).cfgBlocklenSubOne = s.cfgBlocklenSubOne := by
    simp [Wbdmac.step, Wbdmac.configure, hr.ne_idle]
  unfold Wbdmac.target
  rw [hr.cfgLen, hbl]

theorem Reads.resting (hr : Reads s) : s.resting = false := by
  unfold Wbdmac.resting
  obtain hs | hs := hr.state <;> rw [hs] <;> rfl

theorem Reads.nread (hr : Reads s) (hn : s.nread.toNat < 1024) : (s.step x).nread.toNat =
    s.nread.toNat + if x.m.ack then 1 else 0 := by
  simp only [Wbdmac.step, Wbdmac.next_nread, Wbdmac.nextNread, hr.resting, hr.we]
  cases x.m.ack with
  | false => simp
  | true =>
    simp
    omega

theorem Reads.nracks (hr : Reads s) (hn : s.nracks.toNat < 2047) : (s.step x).nracks.toNat =
    s.nracks.toNat + if s.accepts x.m then 1 else 0 := by
  have hstep : (s.step x).nracks = if s.accepts x.m then s.nracks + 1 else s.nracks := by
    simp [Wbdmac.step, Wbdmac.nextNracks, hr.resting, hr.we, Wbdmac.accepts]
  rw [hstep]
  by_cases hacc : s.accepts x.m = true
  · rw [if_pos hacc, if_pos hacc, BitVec.toNat_add]
    exact Nat.mod_eq_of_lt (by simp; omega)
  · rw [if_neg hacc, if_neg hacc, Nat.add_zero]

theorem Reads.busy (hr : Reads s) (he : x.m.err = false) (hc : Common h s) (hb : Busy h s) :
    Busy (h.next s x.m) (s.step x) := by
  have hst : (s.dmaState == DmaState.idle) = false := beq_eq_false_iff_ne.mpr hr.ne_idle
  have hrd : (s.dmaState == DmaState.readReq || s.dmaState == DmaState.readAck) = true := by
    obtain hs | hs := hr.state <;> rw [hs] <;> rfl
  have hwr : (s.dmaState == DmaState.writeReq) = false := by
    obtain hs | hs := hr.state <;> rw [hs] <;> rfl
  rw [hr.next]
  refine ⟨?_, ?_, ?_, ?_, ?_⟩
  · simp [Wbdmac.step, Wbdmac.configure, hr.ne_idle, hb.incs]
  · simp [Wbdmac.step, Wbdmac.configure, hr.ne_idle, hb.incd]
  · rw [hr.cfgLen]
    exact hb.cfgLen
  · simp only [Wbdmac.step, Wbdmac.next_cfgRaddr, Wbdmac.nextRaddr, hst, hrd, he, hc.abort,
      Bool.false_and, Bool.false_eq_true, if_false, Bool.or_false, Bool.not_false, Bool.true_and,
      Bool.and_true, hb.incs, hb.cfgRaddr]
    cases x.m.ack with
    | false => simp
    | true => simp [address_succ]
  · have hwa : (s.step x).cfgWaddr = s.cfgWaddr := by
      simp [Wbdmac.step, Wbdmac.nextWaddr, hst, hwr]
    rw [hwa]
    exact hb.cfgWaddr

/-- A word that comes is stored behind those that are held. -/
theorem Reads.held (hr : Reads s) {base : ℕ} (hn : s.nread.toNat < 1024)
    (hw : h.words.length = base + s.nread.toNat) (hh : Held h s base) :
    Held (h.next s x.m) (s.step x) base := by
  have hrd : (s.dmaState == DmaState.readReq || s.dmaState == DmaState.readAck) = true := by
    obtain hs | hs := hr.state <;> rw [hs] <;> rfl
  have hmem : ∀ i < 1024, (s.step x).dmaMem (BitVec.ofNat 10 i) =
      if i = s.nread.toNat then x.m.data else s.dmaMem (BitVec.ofNat 10 i) := by
    intro i hi
    simp only [Wbdmac.step, Wbdmac.next_dmaMem, Wbdmac.nextMem, hrd, Bool.true_and]
    have hiff : (BitVec.ofNat 10 i == s.nread.setWidth 10) = decide (i = s.nread.toNat) := by
      rw [Bool.eq_iff_iff, beq_iff_eq, decide_eq_true_iff, ← BitVec.toNat_inj,
        BitVec.toNat_ofNat, BitVec.toNat_setWidth]
      omega
    rw [hiff]
    by_cases hin : i = s.nread.toNat
    · rw [if_pos hin, if_pos (by simpa using hin)]
    · rw [if_neg hin, if_neg (by simpa using hin)]
  intro i hi
  rw [hr.nread hn] at hi
  rw [hr.next, hmem i (by split at hi <;> omega)]
  cases hack : x.m.ack with
  | false =>
    rw [hack] at hi
    have hlt : i < s.nread.toNat := by simpa using hi
    rw [if_neg (Nat.ne_of_lt hlt)]
    exact hh i hlt
  | true =>
    rw [hack] at hi
    have hle : i < s.nread.toNat + 1 := by simpa using hi
    show (h.words ++ [x.m.data])[base + i]? = _
    obtain hlt | rfl := Nat.lt_or_eq_of_le (Nat.le_of_lt_succ hle)
    · rw [if_neg (by omega)]
      exact getElem?_append_some (hh i hlt)
    · rw [if_pos rfl, ← hw, List.getElem?_concat_length]

theorem step_readReq (hAW : AW ≤ 30) (hi : Inv h s) (hs : s.dmaState = .readReq)
    (hbus : Bus h x.m) : Phase (h.next s x.m) (s.step x) := by
  obtain ⟨hb, hq⟩ : Busy h s ∧ ReadReq h s := by
    have hph := hi.phase
    unfold Phase at hph
    rwa [hs] at hph
  have hr : Reads s := Reads.of (.inl hs)
  have hstb : s.oMwbStb = true := by
    unfold Wbdmac.oMwbStb
    rw [hs]
    rfl
  have hacc : s.accepts x.m = !x.m.stall := by
    unfold Wbdmac.accepts
    rw [hstb, Bool.true_and]
  have htle := s.target_le
  have hlt := hq.lt
  have hle := hq.le
  -- an acknowledgement is that of a request that has left before
  have hack : x.m.ack = true → s.nread.toNat < s.nracks.toNat := by
    intro ha
    have hout := hbus.ack ha
    unfold outstanding at hout
    rw [hq.reads, hq.words, hq.writes] at hout
    omega
  have hpre : (x.m.ack && s.lastReadAck) = false := by
    rw [Bool.and_eq_false_imp]
    intro ha
    rw [← Bool.not_eq_true]
    intro hl
    have h1 := hack ha
    have h2 := hq.ack hl
    omega
  have hnread : (s.step x).nread.toNat = s.nread.toNat + if x.m.ack then 1 else 0 :=
    hr.nread (by omega)
  have hnracks : (s.step x).nracks.toNat = s.nracks.toNat + if x.m.stall then 0 else 1 := by
    rw [hr.nracks (by omega), hacc]
    cases x.m.stall <;> rfl
  have hlast : (s.step x).lastReadAck = Wbdmac.nextLastReadAck s false x.m := rfl
  have hreads : (h.next s x.m).reads.length = h.wacks + (s.step x).nracks.toNat := by
    rw [hr.next, hnracks, hacc]
    cases x.m.stall
    · simp [hq.reads]
      omega
    · simp [hq.reads]
  have hwords : (h.next s x.m).words.length = h.wacks + (s.step x).nread.toNat := by
    rw [hr.next, hnread]
    cases x.m.ack
    · simp [hq.words]
    · simp [hq.words]
      omega
  have hbusy := hr.busy hbus.err hi.toCommon hb
  have hheld := hr.held (x := x) (by omega) hq.words hq.held
  have hrda : (s.step x).rdaddr = 0 := by
    simp [Wbdmac.step, Wbdmac.nextRdaddr, hs, hq.rdaddr]
  have hwacks : (h.next s x.m).wacks = h.wacks := by rw [hr.next]
  have hwrites : (h.next s x.m).writes = h.writes := by rw [hr.next]
  unfold Phase
  by_cases hend : (!x.m.stall && s.lastReadRequest) = true
  · have hstate : (s.step x).dmaState = .readAck := by
      simp [Wbdmac.step, Wbdmac.nextDmaState, hs, hi.abort, hi.userHalt, hbus.err, hpre, hend]
    rw [hstate]
    rw [Bool.and_eq_true, Bool.not_eq_true', hq.request, decide_eq_true_iff] at hend
    obtain ⟨hstall, hend⟩ := hend
    rw [Wbdmac.lastReadAck_req hs (by omega), hstall, Bool.and_false] at hlast
    rw [hstall] at hnracks
    simp only [Bool.false_eq_true, if_false] at hlast hnracks
    have hble : s.target ≤ s.cfgBlocklenSubOne.toNat + 1 := by
      unfold Wbdmac.target
      omega
    refine ⟨hbusy, ?_, ?_, ?_, ?_, ?_, ?_, ?_, hrda, ?_⟩
    · rw [hwrites, hwacks]
      exact hq.writes
    · rw [hwacks]
      exact hwords
    · rw [hwacks]
      exact hreads
    · rw [hnread, hnracks]
      split
      · have := hack ‹_›
        omega
      · omega
    · rw [hr.target, hnracks]
      exact hend
    · intro hl
      rw [hlast, decide_eq_true_iff] at hl
      rw [hnread, hnracks]
      cases ha : x.m.ack with
      | true =>
        have := hack ha
        omega
      | false =>
        simp only [Bool.false_eq_true, if_false]
        omega
    · intro _ hfill
      rw [hr.next] at hfill
      have hf := hfill (by rw [hacc, hstall]; rfl)
      rw [beq_iff_eq] at hf
      rw [hlast, decide_eq_true_iff]
      exact hf
    · rw [hwacks]
      exact hheld
  · have hstate : (s.step x).dmaState = .readReq := by
      rw [Bool.not_eq_true] at hend
      simp [Wbdmac.step, Wbdmac.nextDmaState, hs, hi.abort, hi.userHalt, hbus.err, hpre, hend]
    rw [hstate]
    have hmore : s.nracks.toNat + (if x.m.stall then 0 else 1) < s.target := by
      cases hst : x.m.stall with
      | true => simpa using hlt
      | false =>
        rw [hst, hq.request] at hend
        simp only [Bool.not_false, Bool.true_and, decide_eq_true_iff] at hend
        simp only [Bool.false_eq_true, if_false]
        omega
    refine ⟨hbusy, ?_, ?_, ?_, ?_, ?_, ?_, ?_, ?_, hrda, ?_⟩
    · rw [hwrites, hwacks]
      exact hq.writes
    · rw [hwacks]
      exact hwords
    · rw [hwacks]
      exact hreads
    · rw [hnread, hnracks]
      split
      · have := hack ‹_›
        omega
      · omega
    · rw [hr.target, hnracks]
      exact hmore
    · rw [hr.target, hnracks]
      exact Wbdmac.lastReadRequest_eq hAW hs hmore
    · intro hl
      rw [hlast, Wbdmac.lastReadAck_req hs (by omega), decide_eq_true_iff] at hl
      have hble : s.target ≤ s.cfgBlocklenSubOne.toNat + 1 := by
        unfold Wbdmac.target
        omega
      rw [hnread, hnracks]
      cases hst : x.m.stall <;> cases ha : x.m.ack <;> rw [hst] at hmore <;>
        simp [hst, ha] at hl hmore ⊢ <;> omega
    · have ho : (s.step x).oMwbAddr =
          if !x.m.stall && s.cfgIncs then s.oMwbAddr + 1 else s.oMwbAddr := by
        simp only [Wbdmac.step, Wbdmac.next_oMwbAddr, Wbdmac.nextMwbAddr, hs, Bool.false_eq_true,
          if_false]
      rw [ho, hr.next, hacc, hb.incs, hq.addr]
      cases x.m.stall with
      | true => rfl
      | false => simp [address_succ]
    · rw [hwacks]
      exact hheld

theorem step_readAck (hi : Inv h s) (hs : s.dmaState = .readAck) (hbus : Bus h x.m)
    (ht : Timely h s x.m) : Phase (h.next s x.m) (s.step x) := by
  obtain ⟨hb, hq⟩ : Busy h s ∧ ReadAck h s := by
    have hph := hi.phase
    unfold Phase at hph
    rwa [hs] at hph
  have hr : Reads s := Reads.of (.inr hs)
  have hacc : s.accepts x.m = false := by
    unfold Wbdmac.accepts Wbdmac.oMwbStb
    rw [hs]
    rfl
  have htle := s.target_le
  have hlt := hq.lt
  have heq := hq.eq
  have hnread : (s.step x).nread.toNat = s.nread.toNat + if x.m.ack then 1 else 0 :=
    hr.nread (by omega)
  have hnracks : (s.step x).nracks.toNat = s.nracks.toNat := by
    rw [hr.nracks (by omega), hacc]
    rfl
  have hreads : (h.next s x.m).reads.length = h.wacks + s.nracks.toNat := by
    rw [hr.next, hacc]
    exact hq.reads
  have hwords : (h.next s x.m).words.length = h.wacks + (s.step x).nread.toNat := by
    rw [hr.next, hnread]
    cases x.m.ack
    · simp [hq.words]
    · simp [hq.words]
      omega
  have hbusy := hr.busy hbus.err hi.toCommon hb
  have hheld := hr.held (x := x) (by omega) hq.words hq.held
  have hrda : (s.step x).rdaddr = 0 := by
    simp [Wbdmac.step, Wbdmac.nextRdaddr, hs, hq.rdaddr]
  have hwacks : (h.next s x.m).wacks = h.wacks := by rw [hr.next]
  have hwrites : (h.next s x.m).writes.length = h.wacks := by
    rw [hr.next]
    exact hq.writes
  -- on a timely bus the last acknowledgement does not come unnoticed
  have hlast : x.m.ack = true → s.nread.toNat + 1 = s.nracks.toNat → s.lastReadAck = true := by
    intro ha hn
    apply hq.late hn
    apply ht.read ha hs
    unfold outstanding
    rw [hq.reads, hq.words, hq.writes]
    omega
  unfold Phase
  by_cases hend : (x.m.ack && s.lastReadAck) = true
  · have hstate : (s.step x).dmaState = .preWrite := by
      simp [Wbdmac.step, Wbdmac.nextDmaState, hs, hi.abort, hi.userHalt, hbus.err, hend]
    rw [hstate]
    rw [Bool.and_eq_true] at hend
    obtain ⟨ha, hl⟩ := hend
    have hearly := hq.early hl
    rw [ha, if_pos rfl] at hnread
    refine ⟨hbusy, ?_, ?_, ?_, ?_, ?_, hrda, ?_⟩
    · rw [hwacks]
      exact hwrites
    · rw [hwacks]
      exact hwords
    · rw [hwacks, hreads, hnread]
      omega
    · omega
    · rw [hr.target]
      omega
    · rw [hwacks]
      exact hheld
  · have hstate : (s.step x).dmaState = .readAck := by
      rw [Bool.not_eq_true] at hend
      simp [Wbdmac.step, Wbdmac.nextDmaState, hs, hi.abort, hi.userHalt, hbus.err, hend]
    rw [hstate]
    have hmore : (s.step x).nread.toNat < s.nracks.toNat := by
      rw [hnread]
      cases ha : x.m.ack with
      | false => simpa using hlt
      | true =>
        have hne : s.nread.toNat + 1 ≠ s.nracks.toNat := by
          intro hn
          rw [ha, hlast ha hn] at hend
          exact hend rfl
        simp only [if_true]
        omega
    have hnext : (s.step x).lastReadAck =
        decide ((s.step x).nread.toNat + 1 = s.nracks.toNat) := by
      rw [hnread]
      exact Wbdmac.lastReadAck_ack hs (by omega)
    refine ⟨hbusy, ?_, ?_, ?_, ?_, ?_, ?_, ?_, hrda, ?_⟩
    · rw [hwacks]
      exact hwrites
    · rw [hwacks]
      exact hwords
    · rw [hwacks, hnracks]
      exact hreads
    · rw [hnracks]
      exact hmore
    · rw [hr.target, hnracks]
      exact heq
    · intro hl
      rw [hnext, decide_eq_true_iff] at hl
      rw [hnracks]
      exact hl
    · intro hl _
      rw [hnext, decide_eq_true_iff, ← hnracks]
      exact hl
    · rw [hwacks]
      exact hheld

/-! ### Writing -/

theorem step_preWrite (hi : Inv h s) (hs : s.dmaState = .preWrite) :
    Phase (h.next s x.m) (s.step x) := by
  obtain ⟨hb, hq⟩ : Busy h s ∧ PreWrite h s := by
    have hph := hi.phase
    unfold Phase at hph
    rwa [hs] at hph
  have hcyc : s.oMwbCyc = false := by
    unfold Wbdmac.oMwbCyc
    rw [hs]
    rfl
  have hwe : s.oMwbWe = true := by
    unfold Wbdmac.oMwbWe
    rw [hs]
    rfl
  have hacc : s.accepts x.m = false := by
    unfold Wbdmac.accepts Wbdmac.oMwbStb
    rw [hs]
    rfl
  have hresting : s.resting = false := by
    unfold Wbdmac.resting
    rw [hs]
    rfl
  have hnext : h.next s x.m = { h with
      accepted := false
      acked := x.m.ack
      filled := s.nread.toNat == s.cfgBlocklenSubOne.toNat } := by
    rw [next_busy (starts_busy (by rw [hs]; decide)), hacc, hcyc]
    rfl
  have hnread : (s.step x).nread = s.nread := by
    simp [Wbdmac.step, Wbdmac.nextNread, hresting, hwe]
  have hnwritten : (s.step x).nwritten = 0 := by
    simp [Wbdmac.step, Wbdmac.nextNwritten, hcyc]
  have hnwacks : (s.step x).nwacks = 0 := by
    simp [Wbdmac.step, Wbdmac.nextNwacks, hcyc]
  have hlen : (s.step x).cfgLen = s.cfgLen := by
    simp [Wbdmac.step, Wbdmac.nextLen, Wbdmac.setLen, Wbdmac.wordWritten, hs, hcyc]
  have hmem : (s.step x).dmaMem = s.dmaMem := by
    funext a
    simp [Wbdmac.step, Wbdmac.nextMem, hs]
  have hwaddr : (s.step x).cfgWaddr = s.cfgWaddr := by
    simp [Wbdmac.step, Wbdmac.nextWaddr, hs]
  have htle := s.target_le
  have heq := hq.eq
  have hstate : (s.step x).dmaState = .writeReq := by
    simp [Wbdmac.step, Wbdmac.nextDmaState, hs, hi.abort]
  unfold Phase
  rw [hstate, hnext]
  refine ⟨⟨?_, ?_, ?_, ?_, ?_⟩, h.wacks, ⟨?_, ?_, ?_, ?_, ?_, ?_, ?_, ?_⟩, ?_, ?_, ?_, ?_, ?_, ?_⟩
  · simp [Wbdmac.step, Wbdmac.configure, hs, hb.incs]
  · simp [Wbdmac.step, Wbdmac.configure, hs, hb.incd]
  · rw [hlen]
    exact hb.cfgLen
  · have hraddr : (s.step x).cfgRaddr = s.cfgRaddr := by
      simp [Wbdmac.step, Wbdmac.nextRaddr, hs]
    rw [hraddr]
    exact hb.cfgRaddr
  · rw [hwaddr]
    exact hb.cfgWaddr
  · rw [hnread]
    exact hq.words
  · rw [hnread]
    exact hq.reads
  · rw [hnwritten]
    exact hq.writes
  · rw [hnwacks]
    rfl
  · rw [hnread]
    omega
  · rw [hnwacks, hnwritten]
  · have h1 := hb.cfgLen
    have h2 : s.target ≤ s.cfgLen.toNat := by
      unfold Wbdmac.target
      omega
    rw [hnread]
    show h.wacks + s.nread.toNat ≤ h.len
    omega
  · unfold Predicted
    rw [hnwacks, hnwritten]
    simp [Wbdmac.step, Wbdmac.nextLastWriteAck, hs]
  · rw [hnwritten, hnread]
    exact hq.pos
  · rw [hnwritten, hnread]
    exact Wbdmac.lastWriteRequest_pre hs hq.pos
  · have ho : (s.step x).oMwbAddr = s.cfgWaddr := by
      simp [Wbdmac.step, Wbdmac.nextMwbAddr, hs]
    rw [ho, hwaddr]
  · have ho : (s.step x).oMwbData = s.dmaMem s.rdaddr := by
      simp [Wbdmac.step, Wbdmac.nextMwbData, hs]
    rw [ho, hmem, hq.rdaddr, hnwritten]
    rfl
  · have ho : (s.step x).rdaddr = s.rdaddr + 1 := by
      simp [Wbdmac.step, Wbdmac.nextRdaddr, hs]
    rw [ho, hq.rdaddr, hnwritten]
    rfl
  · intro i hlt
    rw [hnread] at hlt
    rw [hmem]
    exact hq.held i hlt

/-- The bus is the destination's. -/
structure Writes (s : Wbdmac AW) : Prop where
  state : s.dmaState = .writeReq ∨ s.dmaState = .writeAck
  cyc : s.oMwbCyc = true
  we : s.oMwbWe = true

theorem Writes.of (hs : s.dmaState = .writeReq ∨ s.dmaState = .writeAck) : Writes s := by
  refine ⟨hs, ?_, ?_⟩
  · unfold Wbdmac.oMwbCyc
    obtain hs | hs := hs <;> rw [hs] <;> rfl
  · unfold Wbdmac.oMwbWe
    obtain hs | hs := hs <;> rw [hs] <;> rfl

theorem Writes.ne_idle (hw : Writes s) : s.dmaState ≠ .idle := by
  obtain hs | hs := hw.state <;> rw [hs] <;> decide

theorem Writes.resting (hw : Writes s) : s.resting = false := by
  unfold Wbdmac.resting
  obtain hs | hs := hw.state <;> rw [hs] <;> rfl

/-- The history of a clock on which the bus is the destination's. -/
theorem Writes.next (hw : Writes s) (m : WbReply) : h.next s m =
    { h with
      writes := if s.accepts m then h.writes ++ [(s.oMwbAddr, s.oMwbData)] else h.writes
      wacks := if m.ack then h.wacks + 1 else h.wacks
      accepted := s.accepts m
      acked := m.ack
      filled := s.nread.toNat == s.cfgBlocklenSubOne.toNat } := by
  rw [next_busy (starts_busy hw.ne_idle), hw.cyc, hw.we]
  simp

theorem Writes.nread (hw : Writes s) : (s.step x).nread = s.nread := by
  simp [Wbdmac.step, Wbdmac.nextNread, hw.resting, hw.we]

theorem Writes.dmaMem (hw : Writes s) : (s.step x).dmaMem = s.dmaMem := by
  funext a
  obtain hs | hs := hw.state <;> simp [Wbdmac.step, Wbdmac.nextMem, hs]

theorem Writes.nwritten (hw : Writes s) (hn : s.nwritten.toNat < 2047) :
    (s.step x).nwritten.toNat = s.nwritten.toNat + if s.accepts x.m then 1 else 0 := by
  have hstep : (s.step x).nwritten = if s.accepts x.m then s.nwritten + 1 else s.nwritten := by
    simp [Wbdmac.step, Wbdmac.nextNwritten, hw.cyc, hw.we, Wbdmac.accepts]
  rw [hstep]
  by_cases hacc : s.accepts x.m = true
  · rw [if_pos hacc, if_pos hacc, BitVec.toNat_add]
    exact Nat.mod_eq_of_lt (by simp; omega)
  · rw [if_neg hacc, if_neg hacc, Nat.add_zero]

theorem Writes.nwacks (hw : Writes s) (hn : s.nwacks.toNat < 2047) :
    (s.step x).nwacks.toNat = s.nwacks.toNat + if x.m.ack then 1 else 0 := by
  have hstep : (s.step x).nwacks = if x.m.ack then s.nwacks + 1 else s.nwacks := by
    simp [Wbdmac.step, Wbdmac.nextNwacks, hw.cyc, hw.we]
  rw [hstep]
  cases x.m.ack with
  | false => rfl
  | true =>
    rw [if_pos rfl, if_pos rfl, BitVec.toNat_add]
    exact Nat.mod_eq_of_lt (by simp; omega)

theorem Writes.cfgLen (hw : Writes s) (hpos : 0 < s.cfgLen.toNat) :
    (s.step x).cfgLen.toNat = s.cfgLen.toNat - if x.m.ack then 1 else 0 := by
  have hstep : (s.step x).cfgLen = if x.m.ack then s.cfgLen - 1 else s.cfgLen := by
    have hst : (s.dmaState == DmaState.idle) = false := beq_eq_false_iff_ne.mpr hw.ne_idle
    simp [Wbdmac.step, Wbdmac.nextLen, Wbdmac.setLen, Wbdmac.wordWritten, hst, hw.cyc, hw.we]
  rw [hstep]
  cases x.m.ack with
  | false => rfl
  | true =>
    have h1 : (1 : BitVec AW).toNat = 1 % 2 ^ AW := BitVec.toNat_ofNat 1 _
    have hl := s.cfgLen.isLt
    have h2 : 1 < 2 ^ AW := by omega
    rw [if_pos rfl, if_pos rfl, BitVec.toNat_sub, h1, Nat.mod_eq_of_lt h2,
      ← Nat.sub_add_comm h2.le, Nat.add_sub_assoc (by omega), Nat.add_mod_left,
      Nat.mod_eq_of_lt (by omega)]

/-- The length counts the acknowledgements, and the address the requests. -/
theorem Writes.busy (hw : Writes s) (hb : Busy h s) (hpos : 0 < s.cfgLen.toNat) :
    Busy (h.next s x.m) (s.step x) := by
  have hst : (s.dmaState == DmaState.idle) = false := beq_eq_false_iff_ne.mpr hw.ne_idle
  rw [hw.next]
  refine ⟨?_, ?_, ?_, ?_, ?_⟩
  · simp [Wbdmac.step, Wbdmac.configure, hw.ne_idle, hb.incs]
  · simp [Wbdmac.step, Wbdmac.configure, hw.ne_idle, hb.incd]
  · rw [hw.cfgLen hpos]
    have hlen := hb.cfgLen
    cases x.m.ack with
    | false => exact hlen
    | true =>
      show s.cfgLen.toNat - 1 + (h.wacks + 1) = h.len
      omega
  · have hra : (s.step x).cfgRaddr = s.cfgRaddr := by
      obtain hs | hs := hw.state <;> simp [Wbdmac.step, Wbdmac.nextRaddr, hs]
    rw [hra]
    exact hb.cfgRaddr
  · have hwa : (s.step x).cfgWaddr =
        if s.accepts x.m && s.cfgIncd then s.cfgWaddr + 1 else s.cfgWaddr := by
      obtain hs | hs := hw.state <;>
        simp [Wbdmac.step, Wbdmac.nextWaddr, hs, Wbdmac.accepts, Wbdmac.oMwbStb]
    rw [hwa, hb.cfgWaddr, hb.incd]
    cases s.accepts x.m with
    | false => rfl
    | true => simp [address_succ]

/-- Of a prediction that is a clock old, this is the truth. -/
theorem Writes.predicted (hw : Writes s) (ha : s.nwacks.toNat < 2047)
    (hn : s.nwritten.toNat < 2047) : Predicted (h.next s x.m) (s.step x) := by
  have hl : (s.step x).lastWriteAck = Wbdmac.nextLastWriteAck s false x.m := rfl
  have hstb : (x.m.ack && (!s.oMwbStb || x.m.stall)) = (x.m.ack && !s.accepts x.m) := by
    unfold Wbdmac.accepts
    cases s.oMwbStb <;> cases x.m.stall <;> rfl
  unfold Predicted
  rw [hl, Wbdmac.lastWriteAck_eq hw.state, hstb, hw.nwacks ha, hw.nwritten hn, hw.next]
  apply decide_eq_decide.mpr
  show s.nwacks.toNat + (if (x.m.ack && !s.accepts x.m) = true then 2 else 1) =
      s.nwritten.toNat ↔
    s.nwacks.toNat + (if x.m.ack = true then 1 else 0) +
      (if (s.accepts x.m && !x.m.ack) = true then 2 else 1) =
      s.nwritten.toNat + (if s.accepts x.m = true then 1 else 0)
  cases x.m.ack <;> cases s.accepts x.m <;> simp

/-- What stays with the block while it is written. -/
theorem Writing.next (hw : Writes s) {base : ℕ} (hq : Writing h s base)
    (hn : s.nwritten.toNat ≤ s.nread.toNat)
    (hack : x.m.ack = true → s.nwacks.toNat < s.nwritten.toNat) :
    Writing (h.next s x.m) (s.step x) base := by
  have hle := hq.le
  have hnr := hq.nread
  refine ⟨?_, ?_, ?_, ?_, ?_, ?_, ?_, hw.predicted (by omega) (by omega)⟩
  · rw [hw.next, hw.nread]
    exact hq.words
  · rw [hw.next, hw.nread]
    exact hq.reads
  · rw [hw.next, hw.nwritten (by omega), ← Nat.add_assoc, ← hq.writes]
    cases s.accepts x.m <;> simp
  · rw [hw.next, hw.nwacks (by omega), ← Nat.add_assoc, ← hq.wacks]
    cases x.m.ack <;> rfl
  · rw [hw.nread]
    exact hnr
  · rw [hw.nwacks (by omega), hw.nwritten (by omega)]
    split
    · have := hack ‹_›
      omega
    · omega
  · rw [hw.next, hw.nread]
    exact hq.len

theorem Writing.outstanding {base : ℕ} (hq : Writing h s base) :
    h.outstanding = s.nwritten.toNat - s.nwacks.toNat := by
  unfold Transfer.outstanding
  rw [hq.reads, hq.words, hq.writes, hq.wacks]
  omega

theorem step_writeReq (hi : Inv h s) (hs : s.dmaState = .writeReq) (hbus : Bus h x.m)
    (ht : Timely h s x.m) : Phase (h.next s x.m) (s.step x) := by
  obtain ⟨hb, base, hq⟩ : Busy h s ∧ ∃ base, WriteReq h s base := by
    have hph := hi.phase
    unfold Phase at hph
    rwa [hs] at hph
  have hw : Writes s := Writes.of (.inl hs)
  have hacc : s.accepts x.m = !x.m.stall := by
    unfold Wbdmac.accepts Wbdmac.oMwbStb
    rw [hs]
    rfl
  have hlt := hq.lt
  have hle := hq.le
  have hnr := hq.nread
  have hpos : 0 < s.cfgLen.toNat := by
    have h1 := hb.cfgLen
    have h2 := hq.wacks
    have h3 := hq.len
    omega
  have hnz : s.cfgLenNonzero = true := by
    rw [hi.nonzero, decide_eq_true_iff]
    omega
  have hout := hq.outstanding
  have hack : x.m.ack = true → s.nwacks.toNat < s.nwritten.toNat := by
    intro ha
    have := hbus.ack ha
    omega
  -- on a timely bus no acknowledgement is taken for the last
  have hlast : (x.m.ack && s.lastWriteAck) = false := by
    rw [Bool.and_eq_false_imp]
    intro ha
    have h1 := ht.writeReq ha hs
    have h2 := hack ha
    rw [hq.ack, decide_eq_false_iff_not]
    by_cases hf : (h.accepted && !h.acked) = true
    · rw [if_pos hf] at h1 ⊢
      omega
    · rw [if_neg hf] at h1 ⊢
      omega
  have hbusy := hw.busy (x := x) hb hpos
  have hwriting := hq.toWriting.next (x := x) hw hlt.le hack
  have hnwritten : (s.step x).nwritten.toNat =
      s.nwritten.toNat + if x.m.stall then 0 else 1 := by
    rw [hw.nwritten (by omega), hacc]
    cases x.m.stall <;> rfl
  unfold Phase
  by_cases hend : (!x.m.stall && s.lastWriteRequest) = true
  · have hstate : (s.step x).dmaState = .writeAck := by
      simp [Wbdmac.step, Wbdmac.nextDmaState, hs, hi.abort, hbus.err, hlast, hnz, hend]
    rw [hstate]
    rw [Bool.and_eq_true, Bool.not_eq_true', hq.request, decide_eq_true_iff] at hend
    obtain ⟨hstall, hend⟩ := hend
    rw [hstall] at hnwritten
    simp only [Bool.false_eq_true, if_false] at hnwritten
    refine ⟨hbusy, base, hwriting, ?_, ?_⟩
    · rw [hnwritten, hw.nread]
      exact hend
    · rw [hnwritten, hw.nwacks (by omega)]
      split
      · have := hack ‹_›
        omega
      · omega
  · have hstate : (s.step x).dmaState = .writeReq := by
      rw [Bool.not_eq_true] at hend
      simp [Wbdmac.step, Wbdmac.nextDmaState, hs, hi.abort, hbus.err, hlast, hnz, hend]
    rw [hstate]
    have hmore : s.nwritten.toNat + (if x.m.stall then 0 else 1) < s.nread.toNat := by
      cases hst : x.m.stall with
      | true => simpa using hlt
      | false =>
        rw [hst, hq.request] at hend
        simp only [Bool.not_false, Bool.true_and, decide_eq_true_iff] at hend
        simp only [Bool.false_eq_true, if_false]
        omega
    refine ⟨hbusy, base, hwriting, ?_, ?_, ?_, ?_, ?_, ?_⟩
    · rw [hnwritten, hw.nread]
      exact hmore
    · rw [hnwritten, hw.nread]
      exact Wbdmac.lastWriteRequest_eq hs hmore
    · have ho : (s.step x).oMwbAddr =
          if !x.m.stall && s.cfgIncd then s.oMwbAddr + 1 else s.oMwbAddr := by
        simp only [Wbdmac.step, Wbdmac.next_oMwbAddr, Wbdmac.nextMwbAddr, hs, Bool.false_eq_true,
          if_false]
      have ha : (s.step x).cfgWaddr =
          if !x.m.stall && s.cfgIncd then s.cfgWaddr + 1 else s.cfgWaddr := by
        simp [Wbdmac.step, Wbdmac.nextWaddr, hs]
      rw [ho, ha, hq.addr]
    · rw [hw.dmaMem, hnwritten]
      have ho : (s.step x).oMwbData = if x.m.stall then s.oMwbData else s.dmaMem s.rdaddr := by
        cases hst : x.m.stall <;> simp [Wbdmac.step, Wbdmac.nextMwbData, hs, hst]
      rw [ho, hq.data, hq.rdaddr]
      cases x.m.stall <;> rfl
    · rw [hnwritten]
      have ho : (s.step x).rdaddr = if x.m.stall then s.rdaddr else s.rdaddr + 1 := by
        cases hst : x.m.stall <;> simp [Wbdmac.step, Wbdmac.nextRdaddr, hs, hst]
      rw [ho, hq.rdaddr]
      cases x.m.stall with
      | true => rfl
      | false =>
        show BitVec.ofNat 10 (s.nwritten.toNat + 1) + 1 = BitVec.ofNat 10 (s.nwritten.toNat + 1 + 1)
        rw [BitVec.ofNat_add (s.nwritten.toNat + 1) 1]
        rfl
    · intro i hlti
      rw [hw.nread] at hlti
      rw [hw.dmaMem, hw.next]
      exact hq.held i hlti

theorem step_writeAck (hAW : AW ≤ 30) (hi : Inv h s) (hs : s.dmaState = .writeAck)
    (hbus : Bus h x.m) (ht : Timely h s x.m) : Phase (h.next s x.m) (s.step x) := by
  obtain ⟨hb, base, hq⟩ : Busy h s ∧ ∃ base, WriteAck h s base := by
    have hph := hi.phase
    unfold Phase at hph
    rwa [hs] at hph
  have hw : Writes s := Writes.of (.inr hs)
  have hacc : s.accepts x.m = false := by
    unfold Wbdmac.accepts Wbdmac.oMwbStb
    rw [hs]
    rfl
  have hlt := hq.lt
  have heq := hq.eq
  have hnr := hq.nread
  have hlen := hb.cfgLen
  have hwk := hq.wacks
  have hle := hq.len
  have hpos : 0 < s.cfgLen.toNat := by omega
  have hnz : s.cfgLenNonzero = true := by
    rw [hi.nonzero, decide_eq_true_iff]
    omega
  have hout := hq.outstanding
  have hbusy := hw.busy (x := x) hb hpos
  have hwriting := hq.toWriting.next (x := x) hw heq.le (fun _ => hlt)
  have hnwritten : (s.step x).nwritten.toNat = s.nwritten.toNat := by
    rw [hw.nwritten (by omega), hacc]
    rfl
  have hnwacks := hw.nwacks (x := x) (by omega)
  -- on a timely bus the last acknowledgement is taken for the last, and no other is
  have hlast : x.m.ack = true →
      (s.lastWriteAck = true ↔ s.nwacks.toNat + 1 = s.nwritten.toNat) := by
    intro ha
    have h1 := ht.writeAck ha hs
    rw [hq.ack, decide_eq_true_iff]
    split
    · have := h1 ‹_›
      omega
    · rfl
  unfold Phase
  by_cases hend : (x.m.ack && s.lastWriteAck) = true
  · have hend' := hend
    rw [Bool.and_eq_true] at hend'
    obtain ⟨ha, hl⟩ := hend'
    have hone := (hlast ha).mp hl
    rw [ha, if_pos rfl] at hnwacks
    have hwrites : (h.next s x.m).writes.length = base + s.nread.toNat := by
      rw [hw.next, hacc]
      show h.writes.length = _
      rw [hq.writes, heq]
    have hwacks : (h.next s x.m).wacks = base + s.nread.toNat := by
      rw [hw.next, ha]
      show h.wacks + 1 = _
      omega
    have hreads : (h.next s x.m).reads.length = base + s.nread.toNat := by
      rw [hw.next]
      exact hq.reads
    have hwords : (h.next s x.m).words.length = base + s.nread.toNat := by
      rw [hw.next]
      exact hq.words
    have hln : (h.next s x.m).len = h.len := by rw [hw.next]
    have hstate : (s.step x).dmaState = if s.cfgLen.toNat ≤ 1 then .idle else .wait := by
      have hle1 : s.cfgLen.setWidth 32 ≤ 1 ↔ s.cfgLen.toNat ≤ 1 := by
        rw [BitVec.le_def, Wbdmac.toNat_cfgLen hAW]
        rfl
      have hdone : s.writeDone = if s.cfgLen.toNat ≤ 1 then .idle else .wait := by
        unfold Wbdmac.writeDone
        by_cases hc : s.cfgLen.toNat ≤ 1
        · rw [if_pos hc, if_pos (hle1.mpr hc)]
        · rw [if_neg hc, if_neg (fun hh => hc (hle1.mp hh))]
      rw [← hdone]
      simp [Wbdmac.step, Wbdmac.nextDmaState, hs, hi.abort, hbus.err, hend]
    rw [hstate]
    by_cases hc : s.cfgLen.toNat ≤ 1
    · rw [if_pos hc]
      refine ⟨?_, ?_, ?_, ?_⟩ <;> omega
    · rw [if_neg hc]
      refine ⟨hbusy, ?_, ?_, ?_, ?_, ?_⟩
      · omega
      · omega
      · omega
      · omega
      · intro htr
        simp [Wbdmac.step, hs] at htr
  · have hstate : (s.step x).dmaState = .writeAck := by
      rw [Bool.not_eq_true] at hend
      simp [Wbdmac.step, Wbdmac.nextDmaState, hs, hi.abort, hbus.err, hend, hnz]
    rw [hstate]
    refine ⟨hbusy, base, hwriting, ?_, ?_⟩
    · rw [hnwritten, hw.nread]
      exact heq
    · rw [hnwritten, hnwacks]
      cases ha : x.m.ack with
      | false => simpa using hlt
      | true =>
        have hne : ¬ s.nwacks.toNat + 1 = s.nwritten.toNat := by
          intro hone
          rw [ha, (hlast ha).mpr hone] at hend
          exact hend rfl
        simp only [if_true]
        omega

/-! ## Runs -/

/-- What leaves for the bus is what the history asks for. -/
theorem Inv.requests (hi : Inv h s) :
    (s.wordWritten x.m = true → 0 < s.cfgLen.toNat) ∧
    (s.accepts x.m = true → s.oMwbWe = false →
      s.oMwbAddr = address h.src h.incs h.reads.length) ∧
    (s.accepts x.m = true → s.oMwbWe = true →
      s.oMwbAddr = address h.dst h.incd h.writes.length ∧
        h.words[h.writes.length]? = some s.oMwbData) := by
  have hph := hi.phase
  unfold Phase at hph
  unfold Wbdmac.wordWritten Wbdmac.accepts Wbdmac.oMwbCyc Wbdmac.oMwbStb Wbdmac.oMwbWe
  cases hs : s.dmaState <;> rw [hs] at hph
  case readReq => exact ⟨fun h => absurd h (by simp), fun _ _ => hph.2.addr, fun _ h => absurd h
    (by simp)⟩
  case writeReq =>
    obtain ⟨hb, base, hq⟩ := hph
    refine ⟨fun _ => ?_, fun _ h => absurd h (by simp), fun _ _ => ⟨?_, ?_⟩⟩
    · have h1 := hb.cfgLen
      have h2 := hq.wacks
      have h3 := hq.len
      have h4 := hq.lt
      have h5 := hq.le
      omega
    · rw [hq.addr, hb.cfgWaddr]
    · rw [hq.data, hq.writes]
      exact hq.held _ hq.lt
  case writeAck =>
    obtain ⟨hb, base, hq⟩ := hph
    refine ⟨fun _ => ?_, fun h => absurd h (by simp), fun h => absurd h (by simp)⟩
    have h1 := hb.cfgLen
    have h2 := hq.wacks
    have h3 := hq.len
    have h4 := hq.lt
    have h5 := hq.eq
    omega
  all_goals exact ⟨fun h => absurd h (by simp), fun h => absurd h (by simp), fun h => absurd h
    (by simp)⟩

/-- **A clock of the controller keeps the invariant.** -/
theorem Inv.next (hAW : AW ≤ 30) (hi : Inv h s) (hu : s.Undisturbed) (hbus : Bus h x.m)
    (ht : Timely h s x.m) : Inv (h.next s x.m) (s.step x) := by
  obtain ⟨hack, hrd, hwr⟩ := hi.requests (x := x)
  refine ⟨hi.toCommon.next hu hack hrd hwr hAW, ?_⟩
  cases hs : s.dmaState with
  | idle => exact step_idle hi hs
  | wait => exact step_wait hAW hi hs
  | readReq => exact step_readReq hAW hi hs hbus
  | readAck => exact step_readAck hi hs hbus ht
  | preWrite => exact step_preWrite hi hs
  | writeReq => exact step_writeReq hi hs hbus ht
  | writeAck => exact step_writeAck hAW hi hs hbus ht

theorem Inv.atRest (hs : s.AtRest) : Inv (none AW) s where
  abort := hs.abort
  userHalt := hs.userHalt
  nonzero := by rw [hs.cfgLenNonzero, hs.cfgLen]; rfl
  reads _ _ hi := absurd hi (by simp [none])
  writes _ _ hi := absurd hi (by simp [none])
  phase := by
    unfold Phase
    rw [hs.dmaState]
    exact ⟨rfl, rfl, rfl, rfl⟩

/-- **On a timely bus the controller copies**: in every state of every run. -/
theorem copies_timely (hAW : AW ≤ 30) {s₀ : Wbdmac AW} (h0 : s₀.AtRest) (x : ℕ → DmaPins)
    (hu : ∀ n, (run dmaStep (s₀, none AW) x n).1.Undisturbed)
    (hbus : ∀ n, Bus (run dmaStep (s₀, none AW) x n).2 (x n).m)
    (ht : ∀ n, Timely (run dmaStep (s₀, none AW) x n).2 (run dmaStep (s₀, none AW) x n).1 (x n).m)
    (n : ℕ) :
    Copies (run dmaStep (s₀, none AW) x n).2 (run dmaStep (s₀, none AW) x n).1 := by
  have hinv : Inv (run dmaStep (s₀, none AW) x n).2 (run dmaStep (s₀, none AW) x n).1 :=
    run_invariant (P := fun q : Wbdmac AW × Transfer AW => Inv q.2 q.1)
      (E := fun q i => q.1.Undisturbed ∧ Bus q.2 i.m ∧ Timely q.2 q.1 i.m)
      (Inv.atRest h0) (fun n => ⟨hu n, hbus n, ht n⟩)
      (fun _ _ hq he => hq.next hAW he.1 he.2.1 he.2.2) n
  exact hinv.copies

/-- One word is asked for by the register writes of two clocks, the second being `word`, and the bus
    never stalls and acknowledges on the clocks `acks`. -/
def oneWord (word : BitVec 32) (acks : List ℕ) (n : ℕ) : DmaPins where
  slave :=
    match n with
    | 0 => ⟨true, true, true, 0b01, 1⟩
    | 1 => ⟨true, true, true, 0b00, word⟩
    | _ => ⟨false, false, false, 0, 0⟩
  m := { ack := acks.contains n, stall := false, data := 0x1234, err := false }
  iDevInts := 0

theorem oneWord_undisturbed {word : BitVec 32} (h1 : word ≠ 0xffed0000#32)
    (h2 : word ≠ 0xafed0000#32) (acks : List ℕ) (n : ℕ) :
    (run dmaStep (Wbdmac.init 30, none 30) (oneWord word acks) n).1.Undisturbed := by
  match n with
  | 0 => exact fun hs => absurd rfl hs
  | 1 => exact fun _ hw => absurd (show false = true from hw) Bool.false_ne_true
  | 2 => exact fun _ _ => ⟨h1, h2⟩
  | _ + 3 => exact fun _ hw => absurd (show false = true from hw) Bool.false_ne_true

/-- What is to be said of a bus is to be said of its acknowledgements. -/
theorem oneWord_bus {word : BitVec 32} {acks : List ℕ}
    (h : ∀ n ∈ acks, Bus (run dmaStep (Wbdmac.init 30, none 30) (oneWord word acks) n).2
      (oneWord word acks n).m) (n : ℕ) :
    Bus (run dmaStep (Wbdmac.init 30, none 30) (oneWord word acks) n).2 (oneWord word acks n).m := by
  by_cases hn : n ∈ acks
  · exact h n hn
  · exact ⟨rfl, fun ha => absurd (List.contains_iff_mem.mp ha) hn⟩

theorem oneWord_timely {word : BitVec 32} {acks : List ℕ}
    (h : ∀ n ∈ acks, Timely (run dmaStep (Wbdmac.init 30, none 30) (oneWord word acks) n).2
      (run dmaStep (Wbdmac.init 30, none 30) (oneWord word acks) n).1 (oneWord word acks n).m)
    (n : ℕ) : Timely (run dmaStep (Wbdmac.init 30, none 30) (oneWord word acks) n).2
      (run dmaStep (Wbdmac.init 30, none 30) (oneWord word acks) n).1 (oneWord word acks n).m := by
  by_cases hn : n ∈ acks
  · exact h n hn
  · have hna : ¬ (oneWord word acks n).m.ack = true :=
      fun ha => hn (List.contains_iff_mem.mp ha)
    exact ⟨fun ha => absurd ha hna, fun ha => absurd ha hna, fun ha => absurd ha hna⟩

/-- Blocks of one word; the read is acknowledged at once, the write a clock later. -/
theorem copies_timely_oneWord :
    (run dmaStep (Wbdmac.init 30, none 30) (oneWord 0x0fed0001#32 [6, 10]) 11).2.writes.length =
      1 :=
  ((copies_timely (by decide) ⟨rfl, rfl, rfl, rfl, rfl⟩ (oneWord 0x0fed0001#32 [6, 10])
    (oneWord_undisturbed (by decide) (by decide) _) (oneWord_bus (by decide +kernel))
    (oneWord_timely (by decide +kernel)) 11).done (by decide +kernel)).1.trans (by decide +kernel)

/-- Blocks of 1024 words; the read is acknowledged at once, and nobody notices. -/
theorem copies_oneWord_hangs :
    (Wbdmac.init 30).AtRest ∧
    (∀ n, (run dmaStep (Wbdmac.init 30, none 30) (oneWord 0x0fed0000#32 [6]) n).1.Undisturbed) ∧
    (∀ n, Bus (run dmaStep (Wbdmac.init 30, none 30) (oneWord 0x0fed0000#32 [6]) n).2
      (oneWord 0x0fed0000#32 [6] n).m) ∧
    ¬ Copies (run dmaStep (Wbdmac.init 30, none 30) (oneWord 0x0fed0000#32 [6]) 7).2
      (run dmaStep (Wbdmac.init 30, none 30) (oneWord 0x0fed0000#32 [6]) 7).1 := by
  refine ⟨⟨rfl, rfl, rfl, rfl, rfl⟩, oneWord_undisturbed (by decide) (by decide) _,
    oneWord_bus (by decide +kernel), fun hc => ?_⟩
  have hlt := hc.readAck (by decide +kernel)
  exact absurd hlt (by decide +kernel)

end Transfer

end ZipStormMX.Peripheral
