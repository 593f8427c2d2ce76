/-
  What a FIFO of the SD card controller holds, and how the bus reads and writes it.

  A word on its way into a FIFO is first in the registers of the bus, then at the write port, and then
  in the memories.  `contents` sees it from the first of these on, so that a write is done as soon as
  it is accepted, and each clock changes it in one way (`contents_next`).  The bus reads the memories
  themselves, and at the address of the clock before: what it gets is `contents` as long as the clock
  before is free (`Holds.memory`).
-/
import Mathlib.Data.Fin.VecNotation
import Mathlib.Tactic.FinCases
import ZipStormMX.Sdcard.Sdspi

namespace ZipStormMX.Sdcard

namespace Sdspi

/-! ## The bus -/

def writesFifo (i : SdspiIn) (f : Bool) : Bool := i.iWbStb && i.iWbWe && i.iWbAddr == fifoAddress f

def readsFifo (i : SdspiIn) (f : Bool) : Bool := i.iWbStb && !i.iWbWe && i.iWbAddr == fifoAddress f

/-- A read or a write, of either FIFO. -/
def accessesFifo (i : SdspiIn) : Bool := i.iWbStb && i.iWbAddr.getLsbD 1

def writesCommand (i : SdspiIn) : Bool := i.iWbStb && i.iWbWe && i.iWbAddr == cmdAddress

/-- The address that the next access to a FIFO goes to: a command write clears it, an access advances
    it.  It is not known before the first command write. -/
def pointer (lg : ℕ) (x : ℕ → SdspiIn) : ℕ → Option (BitVec lg)
  | 0 => none
  | n + 1 =>
    if writesCommand (x n) then some 0
    else if accessesFifo (x n) then (pointer lg x n).map (· + 1)
    else pointer lg x n

variable {c : SdspiCfg} {s : Sdspi c.lgfifoln} {i : SdspiIn}

theorem pointer_eq {s : ℕ → Sdspi c.lgfifoln} {x : ℕ → SdspiIn}
    (hstep : ∀ n, s (n + 1) = next c (s n) (x n)) {n : ℕ} {p : BitVec c.lgfifoln}
    (hp : pointer c.lgfifoln x n = some p) : (s (n + 1)).fifoWbAddr = p := by
  induction n generalizing p with
  | zero => exact absurd hp (by simp [pointer])
  | succ n ih =>
    have hnext : (s (n + 1 + 1)).fifoWbAddr =
        if writesCommand (x n) then 0
        else if accessesFifo (x n) then (s (n + 1)).fifoWbAddr + 1
        else (s (n + 1)).fifoWbAddr := by
      rw [hstep (n + 1), hstep n]
      rfl
    rw [hnext]
    unfold pointer at hp
    split_ifs at hp ⊢
    · exact Option.some.inj hp
    · obtain ⟨q, hq, hqp⟩ := Option.map_eq_some_iff.1 hp
      rw [ih hq]
      exact hqp
    · exact ih hp

/-! ## Contents -/

/-- The bytes of a FIFO, with the writes that are under way. -/
def contents (c : SdspiCfg) (s : Sdspi c.lgfifoln) (f : Bool) (k : Fin 4)
    (a : BitVec c.lgfifoln) : BitVec 8 :=
  if busWrite c s f && s.fifoWbAddr == a then lane s.rWbData k else (fifo c s f).nextMem k a

/-- A FIFO holds a word. -/
def Holds (c : SdspiCfg) (s : Sdspi c.lgfifoln) (f : Bool) (a : BitVec c.lgfifoln)
    (w : BitVec 32) : Prop := ∀ k, contents c s f k a = lane w k

theorem fifo_next (f : Bool) : fifo c (next c s i) f = nextFifo c s f := by
  cases f <;> rfl

/-- The bytes of a word that is put together. -/
theorem lane_append (d3 d2 d1 d0 : BitVec 8) (k : Fin 4) :
    lane (d3 ++ (d2 ++ (d1 ++ d0))) k = ![d0, d1, d2, d3] k := by
  unfold lane
  apply BitVec.eq_of_getLsbD_eq
  intro j hj
  rw [BitVec.getLsbD_extractLsb', BitVec.getLsbD_append, BitVec.getLsbD_append,
    BitVec.getLsbD_append, decide_eq_true hj, Bool.true_and]
  fin_cases k
  · rw [if_pos (by dsimp only; omega), if_pos (by dsimp only; omega), if_pos (by dsimp only; omega)]
    exact congrArg d0.getLsbD (by dsimp only; omega)
  · rw [if_pos (by dsimp only; omega), if_pos (by dsimp only; omega), if_neg (by dsimp only; omega)]
    exact congrArg d1.getLsbD (by dsimp only; omega)
  · rw [if_pos (by dsimp only; omega), if_neg (by dsimp only; omega)]
    exact congrArg d2.getLsbD (by dsimp only; omega)
  · rw [if_neg (by dsimp only; omega)]
    exact congrArg d3.getLsbD (by dsimp only; omega)

/-- A byte four times over. -/
theorem lane_repeated (d : BitVec 8) (k : Fin 4) : lane (d ++ (d ++ (d ++ d))) k = d := by
  rw [lane_append]
  fin_cases k <;> rfl

/-- A word is its bytes. -/
theorem append_lanes (w : BitVec 32) :
    lane w 3 ++ (lane w 2 ++ (lane w 1 ++ lane w 0)) = w := by
  unfold lane
  apply BitVec.eq_of_getLsbD_eq
  intro j hj
  rw [BitVec.getLsbD_append, BitVec.getLsbD_append, BitVec.getLsbD_append]
  split_ifs with h2 h1 h0
  · rw [BitVec.getLsbD_extractLsb', decide_eq_true h0, Bool.true_and]
    exact congrArg w.getLsbD (by omega)
  · rw [BitVec.getLsbD_extractLsb', decide_eq_true (by omega), Bool.true_and]
    exact congrArg w.getLsbD (by omega)
  · rw [BitVec.getLsbD_extractLsb', decide_eq_true (by omega), Bool.true_and]
    exact congrArg w.getLsbD (by omega)
  · rw [BitVec.getLsbD_extractLsb', decide_eq_true (by omega), Bool.true_and]
    exact congrArg w.getLsbD (by omega)

/-- A word from the bus goes into all four memories. -/
theorem nextMem_bus {f : Bool} (h : busWrite c s f = true) (k : Fin 4) (a : BitVec c.lgfifoln) :
    (nextFifo c s f).nextMem k a =
      if s.fifoWbAddr == a then lane s.rWbData k else (fifo c s f).nextMem k a := by
  have hwr : (nextFifo c s f).wr = true := by simp [nextFifo, h]
  have hmask : (nextFifo c s f).wrMask = 0b1111 := by simp [nextFifo, h]
  have haddr : (nextFifo c s f).wrAddr = s.fifoWbAddr := by simp [nextFifo, h]
  have hdata : (nextFifo c s f).wrData = s.rWbData := by simp [nextFifo, h]
  have hall : (0b1111 : BitVec 4).getLsbD k = true := by
    fin_cases k <;> rfl
  rw [SdFifo.nextMem, hwr, hmask, haddr, hdata, hall]
  rfl

/-- A byte from the card goes into one. -/
theorem nextMem_card {f : Bool} (h : busWrite c s f = false) (hpre : (fifo c s f).preWr = true)
    (k : Fin 4) (a : BitVec c.lgfifoln) : (nextFifo c s f).nextMem k a =
      if wordPart s.llFifoAddr == a && lanePart s.llFifoAddr == k then llOutDat c s
      else (fifo c s f).nextMem k a := by
  have hwr : (nextFifo c s f).wr = true := by simp [nextFifo, hpre]
  have hmask : (nextFifo c s f).wrMask = BitVec.twoPow 4 (lanePart s.llFifoAddr) := by
    simp [nextFifo, h, hpre]
  have haddr : (nextFifo c s f).wrAddr = wordPart s.llFifoAddr := by simp [nextFifo, h, hpre]
  have hdata : lane (nextFifo c s f).wrData k = llOutDat c s := by
    have hword : (nextFifo c s f).wrData =
        llOutDat c s ++ (llOutDat c s ++ (llOutDat c s ++ llOutDat c s)) := by
      simp [nextFifo, h]
    rw [hword, lane_repeated]
  have hlane : (BitVec.twoPow 4 (lanePart s.llFifoAddr)).getLsbD k =
      (lanePart s.llFifoAddr == k) :=
    (by decide : ∀ l k : Fin 4, (BitVec.twoPow 4 l).getLsbD k = (l == k)) _ _
  rw [SdFifo.nextMem, hwr, hmask, haddr, hdata, hlane, Bool.true_and, Bool.and_comm]
  rfl

theorem nextMem_rest {f : Bool} (h : busWrite c s f = false) (hpre : (fifo c s f).preWr = false)
    (k : Fin 4) (a : BitVec c.lgfifoln) :
    (nextFifo c s f).nextMem k a = (fifo c s f).nextMem k a := by
  have hwr : (nextFifo c s f).wr = false := by simp [nextFifo, h, hpre]
  rw [SdFifo.nextMem, hwr]
  rfl

/-- **One clock.**  A word comes over the bus, a byte comes from the card, or nothing changes. -/
theorem contents_next (f : Bool) (k : Fin 4) (a : BitVec c.lgfifoln) :
    contents c (next c s i) f k a =
      if writesFifo i f && (next c s i).fifoWbAddr == a then lane i.iWbData k
      else if !busWrite c s f && (fifo c s f).preWr && (wordPart s.llFifoAddr == a &&
        lanePart s.llFifoAddr == k) then llOutDat c s
      else contents c s f k a := by
  have hbus : busWrite c (next c s i) f = writesFifo i f := rfl
  have hdata : (next c s i).rWbData = i.iWbData := rfl
  rw [contents, hbus, hdata, fifo_next]
  refine if_congr Iff.rfl rfl ?_
  unfold contents
  cases hb : busWrite c s f
  · cases hpre : (fifo c s f).preWr
    · rw [nextMem_rest hb hpre]
      rfl
    · rw [nextMem_card hb hpre]
      rfl
  · rw [nextMem_bus hb]
    rfl

/-! ## Words -/

theorem holds_written {f : Bool} (h : writesFifo i f = true) :
    Holds c (next c s i) f (next c s i).fifoWbAddr i.iWbData := by
  intro k
  rw [contents_next, h, beq_self_eq_true]
  rfl

/-- Nothing is written to a word on this clock: not over the bus, whose address is `q` (unknown before
    the first command write), and not from the card. -/
structure Untouched (c : SdspiCfg) (s : Sdspi c.lgfifoln) (i : SdspiIn)
    (q : Option (BitVec c.lgfifoln)) (f : Bool) (a : BitVec c.lgfifoln) : Prop where
  bus : writesFifo i f = true → ∃ p, q = some p ∧ p ≠ a
  card : (fifo c s f).preWr = true → wordPart s.llFifoAddr ≠ a

/-- A word stays where it is, unless another one is written there. -/
theorem Holds.next {f : Bool} {a : BitVec c.lgfifoln} {w : BitVec 32} (h : Holds c s f a w)
    (hbus : writesFifo i f = true → (Sdspi.next c s i).fifoWbAddr ≠ a)
    (hcard : (fifo c s f).preWr = true → wordPart s.llFifoAddr ≠ a) :
    Holds c (Sdspi.next c s i) f a w := by
  intro k
  rw [contents_next]
  have hno : (writesFifo i f && (Sdspi.next c s i).fifoWbAddr == a) = false := by
    cases hw : writesFifo i f
    · rfl
    · simpa using hbus hw
  have hrest : (!busWrite c s f && (fifo c s f).preWr && (wordPart s.llFifoAddr == a &&
      lanePart s.llFifoAddr == k)) = false := by
    cases hpre : (fifo c s f).preWr
    · rw [Bool.and_false, Bool.false_and]
    · rw [beq_false_of_ne (hcard hpre), Bool.false_and, Bool.and_false]
  rw [hno, hrest]
  exact h k

/-- The memories hold what is not under way. -/
theorem Holds.memory {f : Bool} {a : BitVec c.lgfifoln} {w : BitVec 32}
    (h : Holds c (Sdspi.next c s i) f a w)
    (hfront : writesFifo i f = true → (Sdspi.next c s i).fifoWbAddr ≠ a)
    (hport : busWrite c s f = true → s.fifoWbAddr ≠ a)
    (hcard : (fifo c s f).preWr = true → wordPart s.llFifoAddr ≠ a)
    (k : Fin 4) : (fifo c (Sdspi.next c s i) f).mem k a = lane w k := by
  have hk := h k
  rw [contents, show busWrite c (Sdspi.next c s i) f = writesFifo i f from rfl] at hk
  have hno : (writesFifo i f && (Sdspi.next c s i).fifoWbAddr == a) = false := by
    cases hw : writesFifo i f
    · rfl
    · simpa using hfront hw
  rw [hno, if_neg (by decide), fifo_next] at hk
  rw [fifo_next]
  rw [← hk, SdFifo.nextMem]
  cases hb : busWrite c s f
  · cases hpre : (fifo c s f).preWr
    · have hwr : (nextFifo c s f).wr = false := by simp [nextFifo, hb, hpre]
      rw [hwr]
      rfl
    · have haddr : (nextFifo c s f).wrAddr = wordPart s.llFifoAddr := by
        simp [nextFifo, hb, hpre]
      rw [haddr, beq_false_of_ne (hcard hpre), Bool.and_false]
      rfl
  · have haddr : (nextFifo c s f).wrAddr = s.fifoWbAddr := by simp [nextFifo, hb]
    have hne : (s.fifoWbAddr == a) = false := by simpa using hport hb
    rw [haddr, hne, Bool.and_false]
    rfl

/-- The bytes of a word, the other way around. -/
def reversed (w : BitVec 32) : BitVec 32 := lane w 0 ++ (lane w 1 ++ (lane w 2 ++ lane w 3))

/-- The word whose bytes stand at the address of the bus, each in the memory that it is written to. -/
def showing (c : SdspiCfg) (s : Sdspi c.lgfifoln) (f : Bool) : BitVec 32 :=
  (fifo c s f).mem 3 s.fifoWbAddr ++ ((fifo c s f).mem 2 s.fifoWbAddr ++
    ((fifo c s f).mem 1 s.fifoWbAddr ++ (fifo c s f).mem 0 s.fifoWbAddr))

/-- The bus reads the word that stands there the other way around. -/
theorem word_eq (f : Bool) : (fifo c s f).word s.fifoWbAddr = reversed (showing c s f) := by
  unfold reversed showing
  rw [lane_append, lane_append, lane_append, lane_append]
  rfl

/-- It answers a read two clocks later, with what stands at the address when the read comes. -/
theorem answer_eq {s : ℕ → Sdspi c.lgfifoln} {x : ℕ → SdspiIn}
    (hstep : ∀ n, s (n + 1) = next c (s n) (x n)) {n : ℕ} {f : Bool}
    (hread : readsFifo (x n) f = true) : (s (n + 2)).oWbAck = true ∧
      (s (n + 2)).oWbData = reversed (showing c (s n) f) := by
  unfold readsFifo at hread
  simp only [Bool.and_eq_true, beq_iff_eq] at hread
  obtain ⟨⟨hstb, -⟩, haddr⟩ := hread
  have hreg : (fifo c (s (n + 1)) f).reg = reversed (showing c (s n) f) := by
    rw [hstep n, fifo_next, ← word_eq]
    rfl
  have haddr' : (s (n + 1)).rWbAddr = fifoAddress f := by
    rw [hstep n]
    exact haddr
  refine ⟨?_, ?_⟩
  · rw [hstep (n + 1), hstep n]
    exact hstb
  · rw [← hreg, hstep (n + 1)]
    show nextWbData c (s (n + 1)) = _
    unfold nextWbData
    rw [haddr']
    cases f <;> rfl

end Sdspi

end ZipStormMX.Sdcard
