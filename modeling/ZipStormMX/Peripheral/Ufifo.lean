/-
  `ufifo.v`: the FIFO of the console.

  The FIFO is a circular buffer with a register in front of everything: whether it is empty, whether
  the next write overflows it and the next read underflows it, and which of three registers the output
  comes from have all been decided on the clock before.  `Agrees` says that these registers tell the
  truth about the pointers, and every clock keeps it, whatever is read and written.

  Crux: a clock that reads from the empty FIFO moves the read pointer if it also writes.  The byte
  written is then behind both pointers, and is never seen (`lost`).  On all other clocks what the FIFO
  holds, and what is written to it, is what is seen, and what it holds after (`Ufifo.held_next`).
-/
import ZipStormMX.Clocked
import ZipStormMX.Fifo

namespace ZipStormMX

variable {L : ℕ} {α : Type}

/-! ## The model -/

/-- The registers of `ufifo`, which holds values of `α` in `2 ^ L` places. -/
structure Ufifo (L : ℕ) (α : Type) where
  fifo : BitVec L → α
  rFirst : BitVec L
  rLast : BitVec L
  rNext : BitVec L
  willOverflow : Bool
  rOvfl : Bool
  willUnderflow : Bool
  fifoHere : α
  fifoNext : α
  rData : α
  osrc : BitVec 2
  rEmptyN : Bool
  rFill : BitVec L

/-- The inputs of `ufifo`, the reset apart. -/
structure UfifoIn (α : Type) where
  iWr : Bool
  iData : α
  iRd : Bool

namespace Ufifo

section Next

variable (s : Ufifo L α) (iRst : Bool) (i : UfifoIn α)

def wFirstPlusOne : BitVec L := s.rFirst + 1
def wFirstPlusTwo : BitVec L := s.rFirst + 2
def wLastPlusOne : BitVec L := s.rNext

def nextWillOverflow : Bool :=
  if iRst then false
  else if i.iRd then s.willOverflow && i.iWr
  else if i.iWr then s.willOverflow || s.wFirstPlusTwo == s.rLast
  else if s.wFirstPlusOne = s.rLast then true
  else s.willOverflow

def nextFirst : BitVec L :=
  if iRst then 0
  else if i.iWr && (i.iRd || !s.willOverflow) then s.wFirstPlusOne
  else s.rFirst

def nextOvfl : Bool :=
  if iRst then false
  else if i.iWr && !(i.iRd || !s.willOverflow) then true
  else s.rOvfl

-- the place is written regardless of an overflow or a reset
def nextFifo : BitVec L → α := fun a => if i.iWr ∧ a = s.rFirst then i.iData else s.fifo a

def nextWillUnderflow : Bool :=
  if iRst then true
  else if i.iWr then s.willUnderflow && i.iRd
  else if i.iRd then s.willUnderflow || s.wLastPlusOne == s.rFirst
  else s.rLast == s.rFirst

/-- The read pointer moves on. -/
def moves : Bool := i.iRd && (i.iWr || !s.willUnderflow)

def nextOsrc : BitVec 2 :=
  if s.willUnderflow then 0b00#2
  else if i.iRd && s.rFirst == s.wLastPlusOne then 0b01#2
  else if i.iRd then 0b11#2
  else 0b10#2

def nextEmptyN : Bool :=
  if iRst then false
  else
    match i.iWr, i.iRd, s.willUnderflow with
    | false, false, _ => s.rFirst != s.rLast
    | true, true, _ => s.rFirst != s.rLast
    | true, false, _ => true
    | false, true, false => s.rFirst != s.wLastPlusOne
    | false, true, true => s.rEmptyN

/-- The fill register: the entries of a receive FIFO, the free places of a transmit FIFO. -/
def nextFill (rxfifo : Bool) : BitVec L :=
  if rxfifo then
    if iRst then 0
    else
      match i.iWr && !s.willOverflow, i.iRd && !s.willUnderflow with
      | false, true => s.rFirst - s.rNext
      | true, false => s.rFirst - s.rLast + 1
      | _, _ => s.rFirst - s.rLast
  else
    if iRst then BitVec.allOnes L
    else
      match i.iWr, i.iRd with
      | false, true => s.rLast - s.rFirst
      | true, false => s.rLast - s.wFirstPlusTwo
      | _, _ => s.rLast - s.wFirstPlusOne

@[simps]
def next (rxfifo : Bool) : Ufifo L α where
  fifo := s.nextFifo i
  rFirst := s.nextFirst iRst i
  rLast := if iRst then 0 else if s.moves i then s.rNext else s.rLast
  rNext := if iRst then 1 else if s.moves i then s.rLast + 2 else s.rNext
  willOverflow := s.nextWillOverflow iRst i
  rOvfl := s.nextOvfl iRst i
  willUnderflow := s.nextWillUnderflow iRst i
  fifoHere := s.fifo s.rLast
  fifoNext := s.fifo s.rNext
  rData := i.iData
  osrc := s.nextOsrc i
  rEmptyN := s.nextEmptyN iRst i
  rFill := s.nextFill iRst i rxfifo

/-- Something is in the FIFO. -/
def oEmptyN : Bool := s.rEmptyN

def oData : α :=
  if s.osrc.getLsbD 1 then if s.osrc.getLsbD 0 then s.fifoNext else s.fifoHere else s.rData

def oErr : Bool := s.rOvfl

/-- The status word: the size of the FIFO, its fill, whether that is half or more, and whether the
    FIFO can be read from, or in a transmit FIFO `w_full_n`. -/
def oStatus (rxfifo : Bool) : BitVec 16 :=
  BitVec.ofNat 4 L ++ (s.rFill.setWidth 10 ++ (BitVec.ofBool (s.rFill.getLsbD (L - 1)) ++
    BitVec.ofBool (if rxfifo then s.rEmptyN else s.willOverflow)))

end Next

/-! ## What the registers say -/

/-- How much the FIFO holds, as the pointers have it. -/
def fill (s : Ufifo L α) : ℕ := Fifo.fill s.rLast s.rFirst

/-- What the FIFO holds, oldest first. -/
def held (s : Ufifo L α) : List α := Fifo.contents s.fifo s.rLast s.fill

/-- The registers agree with the pointers. -/
structure Agrees (s : Ufifo L α) : Prop where
  next : s.rNext = s.rLast + 1
  overflow : s.willOverflow = (s.rFirst + 1 == s.rLast)
  underflow : s.willUnderflow = (s.rFirst == s.rLast)
  emptyN : s.rEmptyN = (s.rFirst != s.rLast)
  data : s.rFirst ≠ s.rLast → s.oData = s.fifo s.rLast

variable {s : Ufifo L α} {i : UfifoIn α} {rxfifo : Bool}

/-- A reset empties the FIFO. -/
theorem agrees_reset (hL : 2 ≤ L) : (s.next true i rxfifo).Agrees := by
  have hw : 1 < 2 ^ L := Nat.one_lt_two_pow (by omega)
  have hne : (0 + 1 : BitVec L) ≠ 0 := Fifo.add_one_ne hw 0
  constructor
  · show (1 : BitVec L) = 0 + 1
    exact (BitVec.zero_add 1).symm
  · exact (beq_eq_false_iff_ne.2 hne).symm
  · exact (beq_self_eq_true (0 : BitVec L)).symm
  · exact (bne_self_eq_false (0 : BitVec L)).symm
  · intro h
    exact absurd rfl h

theorem add_two (p : BitVec L) : p + 2 = p + 1 + 1 := by
  show p + BitVec.ofNat L 2 = p + BitVec.ofNat L 1 + BitVec.ofNat L 1
  rw [BitVec.add_assoc, ← BitVec.ofNat_add]

/-- A clock without a write or a read. -/
theorem agrees_quiet (hi : i.iWr = false) (hr : i.iRd = false) (h : s.Agrees) :
    (s.next false i rxfifo).Agrees := by
  obtain ⟨hnext, hov, hun, hem, hdata⟩ := h
  have hfifo : s.nextFifo i = s.fifo := by
    funext a
    simp [nextFifo, hi]
  have hfirst : s.nextFirst false i = s.rFirst := by simp [nextFirst, hi]
  have hmoves : s.moves i = false := by simp [moves, hr]
  constructor
  · simp [hmoves, hnext]
  · simp only [next_willOverflow, next_rFirst, next_rLast, nextWillOverflow, hi, hr, hfirst, hmoves,
      wFirstPlusOne, hov, Bool.false_eq_true, if_false]
    split_ifs with hfull
    · exact (beq_iff_eq.2 hfull).symm
    · rfl
  · simp [nextWillUnderflow, hi, hr, hfirst, hmoves, Bool.beq_comm]
  · simp [nextEmptyN, hi, hr, hfirst, hmoves]
  · intro hne
    simp only [next_rFirst, next_rLast, hfirst, hmoves, Bool.false_eq_true, if_false] at hne
    have hu : s.willUnderflow = false := by simpa [hun] using hne
    simp [oData, nextOsrc, hu, hr, hfifo, hmoves]

/-- A write alone: a byte written to the empty FIFO is on the output next. -/
theorem agrees_write (hL : 2 ≤ L) (hi : i.iWr = true) (hr : i.iRd = false) (h : s.Agrees) :
    (s.next false i rxfifo).Agrees := by
  obtain ⟨hnext, hov, hun, hem, hdata⟩ := h
  have hw : 1 < 2 ^ L := Nat.one_lt_two_pow (by omega)
  have hfirst : s.nextFirst false i = if s.rFirst + 1 = s.rLast then s.rFirst else s.rFirst + 1 := by
    simp only [nextFirst, hi, hr, hov, wFirstPlusOne, Bool.false_eq_true, if_false, Bool.true_and,
      Bool.false_or, Bool.not_eq_true', beq_eq_false_iff_ne, ne_eq, ite_not]
  have hmoves : s.moves i = false := by simp [moves, hr]
  have hne' : s.nextFirst false i ≠ s.rLast := by
    rw [hfirst]
    split_ifs with hfull
    · intro heq
      exact Fifo.add_one_ne hw s.rFirst (hfull.trans heq.symm)
    · exact hfull
  constructor
  · simp [hmoves, hnext]
  · simp only [next_willOverflow, next_rFirst, next_rLast, nextWillOverflow, hi, hr, hfirst, hmoves,
      wFirstPlusTwo, hov, add_two, Bool.false_eq_true, if_false, if_true]
    by_cases hfull : s.rFirst + 1 = s.rLast
    · rw [if_pos hfull, beq_iff_eq.2 hfull, Bool.true_or]
    · rw [if_neg hfull, beq_eq_false_iff_ne.2 hfull, Bool.false_or]
  · simp [nextWillUnderflow, hi, hr, hmoves, hne']
  · simp [nextEmptyN, hi, hr, hmoves, hne']
  · intro _
    simp only [next_fifo, next_rLast, hmoves, Bool.false_eq_true, if_false]
    by_cases hempty : s.rFirst = s.rLast
    · have hu : s.willUnderflow = true := by simpa [hun] using hempty
      simp [oData, nextOsrc, hu, nextFifo, hi, hempty]
    · have hu : s.willUnderflow = false := by simpa [hun] using hempty
      simp [oData, nextOsrc, hu, hr, nextFifo, hi, Ne.symm hempty]

/-- A read alone. -/
theorem agrees_read (hL : 2 ≤ L) (hi : i.iWr = false) (hr : i.iRd = true) (h : s.Agrees) :
    (s.next false i rxfifo).Agrees := by
  obtain ⟨hnext, hov, hun, hem, hdata⟩ := h
  have hw : 1 < 2 ^ L := Nat.one_lt_two_pow (by omega)
  have hfirst : s.nextFirst false i = s.rFirst := by simp [nextFirst, hi]
  by_cases hempty : s.rFirst = s.rLast
  · -- nothing moves
    have hu : s.willUnderflow = true := by simpa [hun] using hempty
    have hmoves : s.moves i = false := by simp [moves, hi, hu]
    constructor
    · simp [hmoves, hnext]
    · simp only [next_willOverflow, next_rFirst, next_rLast, nextWillOverflow, hi, hr, hfirst, hmoves,
        hempty, Bool.false_eq_true, if_false, if_true, Bool.and_false]
      exact (beq_eq_false_iff_ne.2 (Fifo.add_one_ne hw s.rLast)).symm
    · simp [nextWillUnderflow, hi, hr, hfirst, hmoves, hu, hempty]
    · simp [nextEmptyN, hi, hr, hfirst, hmoves, hu, hem]
    · intro hne
      simp only [next_rFirst, next_rLast, hfirst, hmoves, Bool.false_eq_true, if_false] at hne
      exact absurd hempty hne
  · have hu : s.willUnderflow = false := by simpa [hun] using hempty
    have hmoves : s.moves i = true := by simp [moves, hr, hu]
    have hone : s.rFirst + 1 ≠ s.rLast + 1 := fun heq => hempty ((BitVec.add_left_inj 1).1 heq)
    constructor
    · simp only [next_rNext, next_rLast, hmoves, hnext, Bool.false_eq_true, if_false, if_true, add_two]
    · simp only [next_willOverflow, next_rFirst, next_rLast, nextWillOverflow, hi, hr, hfirst, hmoves,
        hnext, Bool.false_eq_true, if_false, if_true, Bool.and_false]
      exact (beq_eq_false_iff_ne.2 hone).symm
    · simp [nextWillUnderflow, hi, hr, hfirst, hmoves, hu, wLastPlusOne, hnext, Bool.beq_comm]
    · simp [nextEmptyN, hi, hr, hfirst, hmoves, hu, wLastPlusOne, hnext]
    · intro hne
      simp only [next_rFirst, next_rLast, hfirst, hmoves, Bool.false_eq_true, if_false, if_true] at hne
      simp [oData, nextOsrc, hu, hr, wLastPlusOne, hne, hmoves, nextFifo, hi]

/-- A write and a read at once: both pointers move on, and the output comes past the buffer if the
    byte written is the next one. -/
theorem agrees_both (hi : i.iWr = true) (hr : i.iRd = true) (h : s.Agrees) :
    (s.next false i rxfifo).Agrees := by
  obtain ⟨hnext, hov, hun, hem, hdata⟩ := h
  have hfirst : s.nextFirst false i = s.rFirst + 1 := by simp [nextFirst, hi, hr, wFirstPlusOne]
  have hmoves : s.moves i = true := by simp [moves, hi, hr]
  constructor
  · simp only [next_rNext, next_rLast, hmoves, hnext, Bool.false_eq_true, if_false, if_true, add_two]
  · simp [nextWillOverflow, hi, hr, hfirst, hmoves, hnext, hov]
  · simp [nextWillUnderflow, hi, hr, hfirst, hmoves, hnext, hun]
  · simp only [next_rEmptyN, next_rFirst, next_rLast, nextEmptyN, hi, hr, hfirst, hmoves, hnext,
      Bool.false_eq_true, if_false, if_true]
    rw [Bool.eq_iff_iff, bne_iff_ne, bne_iff_ne, ne_eq, ne_eq, BitVec.add_left_inj]
  · intro hne
    have hempty : s.rFirst ≠ s.rLast := by
      intro heq
      simp [hfirst, hmoves, hnext, heq] at hne
    have hu : s.willUnderflow = false := by simpa [hun] using hempty
    by_cases hone : s.rFirst = s.rLast + 1
    · simp [oData, nextOsrc, hu, hr, wLastPlusOne, hnext, hone, hmoves, nextFifo, hi]
    · simp [-BitVec.ofNat_eq_ofNat, oData, nextOsrc, hu, hr, wLastPlusOne, hnext, hone, hmoves,
        nextFifo, hi, Ne.symm hone]

/-- **The registers keep agreeing**, whatever is written and read. -/
theorem agrees_next (hL : 2 ≤ L) (h : s.Agrees) : (s.next false i rxfifo).Agrees := by
  cases hi : i.iWr <;> cases hr : i.iRd
  · exact agrees_quiet hi hr h
  · exact agrees_read hL hi hr h
  · exact agrees_write hL hi hr h
  · exact agrees_both hi hr h

/-! ## What is written and what is seen -/

section Traffic

variable (s : Ufifo L α) (i : UfifoIn α)

/-- The byte written on a clock, while the FIFO is not full or is read from. -/
def accepted : List α := if i.iWr ∧ (s.fill < 2 ^ L - 1 ∨ i.iRd) then [i.iData] else []

/-- The byte seen by a read while the FIFO is not empty. -/
def seen : List α := if i.iRd && s.oEmptyN then [s.oData] else []

/-- A byte is written on a clock that reads from the empty FIFO. -/
def lost : Bool := i.iWr && i.iRd && !s.oEmptyN

end Traffic

/-- Not empty, as the pointers have it. -/
theorem fill_pos (h : s.Agrees) : s.oEmptyN = true ↔ 0 < s.fill := by
  rw [oEmptyN, h.emptyN, bne_iff_ne, Nat.pos_iff_ne_zero, ne_eq, ne_eq, fill, Fifo.fill_eq_zero,
    eq_comm]

/-- What is held by a FIFO that is not empty begins with the byte on the output. -/
theorem held_cons (h : s.Agrees) (hne : s.oEmptyN = true) :
    s.held = s.oData :: Fifo.contents s.fifo (s.rLast + 1) (Fifo.fill (s.rLast + 1) s.rFirst) := by
  have hpos := (fill_pos h).1 hne
  have hdata : s.oData = s.fifo s.rLast := by
    apply h.data
    rwa [oEmptyN, h.emptyN, bne_iff_ne] at hne
  rw [held, fill, ← Fifo.fill_pop hpos, hdata]
  rfl

theorem moves_eq (h : s.Agrees) : s.moves i = (i.iRd && (i.iWr || s.oEmptyN)) := by
  rw [moves, h.underflow, oEmptyN, h.emptyN, bne]

/-- The write pointer stands still if nothing is written, and if the FIFO is full. -/
theorem first_eq (hL : 2 ≤ L) (h : s.Agrees) : s.nextFirst false i =
    if i.iWr ∧ (s.fill < 2 ^ L - 1 ∨ i.iRd) then s.rFirst + 1 else s.rFirst := by
  have hw : 1 < 2 ^ L := Nat.one_lt_two_pow (by omega)
  have hfull : s.willOverflow = false ↔ s.fill < 2 ^ L - 1 := by
    have hlt : Fifo.fill s.rLast s.rFirst + 1 < 2 ^ L ↔ s.rFirst + 1 ≠ s.rLast := Fifo.fill_full hw
    rw [h.overflow, beq_eq_false_iff_ne, ← hlt, fill]
    omega
  simp only [nextFirst, wFirstPlusOne, Bool.false_eq_true, if_false, Bool.and_eq_true,
    Bool.or_eq_true, Bool.not_eq_true', hfull, or_comm]

/-- **One clock**: unless it loses a byte, what is held and what is written is what is seen and what
    is held after. -/
theorem held_next (hL : 2 ≤ L) (h : s.Agrees) (hlost : s.lost i = false) :
    s.held ++ s.accepted i = s.seen i ++ (s.next false i rxfifo).held := by
  have hheld : (s.next false i rxfifo).held = Fifo.contents (s.nextFifo i)
      (if s.moves i then s.rNext else s.rLast)
      (Fifo.fill (if s.moves i then s.rNext else s.rLast) (s.nextFirst false i)) := rfl
  rw [hheld, moves_eq h, first_eq hL h, h.next, accepted, seen]
  cases hi : i.iWr with
  | false =>
    have hfifo : s.nextFifo i = s.fifo := by
      funext a
      simp [nextFifo, hi]
    rw [hfifo]
    cases hr : i.iRd with
    | false => simp [held, fill]
    | true =>
      cases hne : s.oEmptyN with
      | false => simp [held, fill]
      | true => simp [held_cons h hne]
  | true =>
    have hfifo : s.nextFifo i = fun a => if a = s.rFirst then i.iData else s.fifo a := by
      funext a
      simp [nextFifo, hi]
    rw [hfifo]
    cases hr : i.iRd with
    | false =>
      by_cases hfull : s.fill < 2 ^ L - 1
      · have hpush : Fifo.fill s.rLast s.rFirst + 1 < 2 ^ L := by
          rw [fill] at hfull
          omega
        simp only [hfull, Bool.false_eq_true, Bool.false_and, or_false, and_self, if_true, if_false,
          List.nil_append]
        rw [Fifo.fill_push hpush, Fifo.contents_push]
        rfl
      · simp only [hfull, Bool.false_eq_true, Bool.false_and, or_false, and_false, if_false,
          List.nil_append, List.append_nil]
        exact (Fifo.contents_write i.iData).symm
    | true =>
      have hne : s.oEmptyN = true := by simpa [lost, hi, hr] using hlost
      have hpos := (fill_pos h).1 hne
      -- one entry leaves at the front, and one comes at the end
      have hpush : Fifo.fill (s.rLast + 1) s.rFirst + 1 < 2 ^ L := by
        have hlt := Fifo.fill_lt s.rLast s.rFirst
        rwa [← Fifo.fill_pop hpos] at hlt
      simp only [hne, Bool.or_true, Bool.and_self, and_self, or_true, if_true]
      rw [held_cons h hne, Fifo.fill_push hpush, Fifo.contents_push]
      rfl

/-! ## Runs -/

section Run

variable (rxfifo) (s₀ : Ufifo L α) (i₀ : UfifoIn α) (x : ℕ → UfifoIn α)

/-- The FIFO at clock `n`, where it has seen a reset in state `s₀` just before clock 0. -/
def run (n : ℕ) : Ufifo L α :=
  Clocked.run (fun s i => s.next false i rxfifo) (s₀.next true i₀ rxfifo) x n

/-- The bytes accepted before clock `n`. -/
def allAccepted (n : ℕ) : List α :=
  Clocked.events (fun s i => s.next false i rxfifo) accepted (s₀.next true i₀ rxfifo) x n

/-- The bytes seen before clock `n`. -/
def allSeen (n : ℕ) : List α :=
  Clocked.events (fun s i => s.next false i rxfifo) seen (s₀.next true i₀ rxfifo) x n

/-- **No byte is lost**: the bytes are seen in the order in which they were accepted; while one has
    not been seen the FIFO says that it is not empty, so that the next read sees it; and if it is
    read from time and again, all of them are seen. -/
structure LosesNothing : Prop where
  order : ∀ n, allSeen rxfifo s₀ i₀ x n <+: allAccepted rxfifo s₀ i₀ x n
  ready : ∀ n, (allSeen rxfifo s₀ i₀ x n).length < (allAccepted rxfifo s₀ i₀ x n).length →
    (run rxfifo s₀ i₀ x n).oEmptyN = true
  later : (∀ n, ∃ m, n ≤ m ∧ (x m).iRd = true) →
    ∀ n, ∃ m, allAccepted rxfifo s₀ i₀ x n <+: allSeen rxfifo s₀ i₀ x m

end Run

section Conservation

variable {s₀ : Ufifo L α} {i₀ : UfifoIn α} {x : ℕ → UfifoIn α}

/-- Up to the first byte lost, the bytes accepted are those seen and those held. -/
theorem accepted_eq (hL : 2 ≤ L) (n : ℕ)
    (hlost : ∀ k < n, (run rxfifo s₀ i₀ x k).lost (x k) = false) :
    (run rxfifo s₀ i₀ x n).Agrees ∧ allAccepted rxfifo s₀ i₀ x n =
      allSeen rxfifo s₀ i₀ x n ++ (run rxfifo s₀ i₀ x n).held := by
  have hempty : (s₀.next true i₀ rxfifo).held = [] := by
    show Fifo.contents _ (0 : BitVec L) (Fifo.fill (0 : BitVec L) 0) = []
    rw [Fifo.fill_self]
    rfl
  have h0 : (s₀.next true i₀ rxfifo).Agrees := agrees_reset hL
  have hstep : ∀ (s : Ufifo L α) (i : UfifoIn α), s.Agrees → s.lost i = false →
      (s.next false i rxfifo).Agrees ∧
        s.held ++ s.accepted i = s.seen i ++ (s.next false i rxfifo).held :=
    fun s i ha hl => ⟨agrees_next hL ha, held_next hL ha hl⟩
  have h := Clocked.events_conserve h0 hstep n hlost
  rwa [hempty, List.nil_append] at h

theorem allAccepted_mono {m n : ℕ} (h : m ≤ n) :
    allAccepted rxfifo s₀ i₀ x m <+: allAccepted rxfifo s₀ i₀ x n :=
  Clocked.events_mono (fun (s : Ufifo L α) i => s.next false i rxfifo) accepted _ x h

theorem allSeen_mono {m n : ℕ} (h : m ≤ n) :
    allSeen rxfifo s₀ i₀ x m <+: allSeen rxfifo s₀ i₀ x n :=
  Clocked.events_mono (fun (s : Ufifo L α) i => s.next false i rxfifo) seen _ x h

/-- If the next byte can always be read, and reads come time and again, each byte is seen. -/
theorem later_of_ready
    (horder : ∀ n, allSeen rxfifo s₀ i₀ x n <+: allAccepted rxfifo s₀ i₀ x n)
    (hready : ∀ n, (allSeen rxfifo s₀ i₀ x n).length < (allAccepted rxfifo s₀ i₀ x n).length →
      (run rxfifo s₀ i₀ x n).oEmptyN = true)
    (hreads : ∀ n, ∃ m, n ≤ m ∧ (x m).iRd = true) (n : ℕ) :
    ∃ m, allAccepted rxfifo s₀ i₀ x n <+: allSeen rxfifo s₀ i₀ x m := by
  have hgrow : ∀ m, (allSeen rxfifo s₀ i₀ x (n + m)).length < (allAccepted rxfifo s₀ i₀ x n).length →
      ∃ m', m ≤ m' ∧ (allSeen rxfifo s₀ i₀ x (n + m)).length <
        (allSeen rxfifo s₀ i₀ x (n + m')).length := by
    intro m hlt
    obtain ⟨k, hmk, hrd⟩ := hreads (n + m)
    have hmono : (allSeen rxfifo s₀ i₀ x (n + m)).length ≤ (allSeen rxfifo s₀ i₀ x k).length :=
      (allSeen_mono hmk).length_le
    have hacc : (allAccepted rxfifo s₀ i₀ x n).length ≤ (allAccepted rxfifo s₀ i₀ x k).length :=
      (allAccepted_mono (by omega)).length_le
    by_cases hmore : (allSeen rxfifo s₀ i₀ x (n + m)).length < (allSeen rxfifo s₀ i₀ x k).length
    · exact ⟨k - n, by omega, by rwa [show n + (k - n) = k by omega]⟩
    · -- the read at `k` sees one more
      have hne := hready k (by omega)
      refine ⟨k + 1 - n, by omega, ?_⟩
      have hseen : allSeen rxfifo s₀ i₀ x (k + 1) =
          allSeen rxfifo s₀ i₀ x k ++ (run rxfifo s₀ i₀ x k).seen (x k) := rfl
      rw [show n + (k + 1 - n) = k + 1 by omega, hseen, seen, hrd, hne]
      simp only [Bool.and_self, if_true, List.length_append, List.length_singleton]
      omega
  obtain ⟨m, -, hm⟩ := Clocked.reaches_of_grows hgrow 0
  exact ⟨n + m, List.prefix_of_prefix_length_le (allAccepted_mono (Nat.le_add_right n m))
    (horder (n + m)) hm⟩

/-- The first byte lost stays unseen, and the FIFO says that it is empty. -/
theorem not_ready_of_lost (hL : 2 ≤ L) {n : ℕ}
    (hfirst : ∀ k < n, (run rxfifo s₀ i₀ x k).lost (x k) = false)
    (hlost : (run rxfifo s₀ i₀ x n).lost (x n) = true) :
    (allSeen rxfifo s₀ i₀ x (n + 1)).length < (allAccepted rxfifo s₀ i₀ x (n + 1)).length ∧
      (run rxfifo s₀ i₀ x (n + 1)).oEmptyN = false := by
  obtain ⟨ha, heq⟩ := accepted_eq hL n hfirst
  simp only [lost, Bool.and_eq_true, Bool.not_eq_true'] at hlost
  obtain ⟨⟨hi, hr⟩, hempty⟩ := hlost
  constructor
  · have hacc : allAccepted rxfifo s₀ i₀ x (n + 1) =
        allAccepted rxfifo s₀ i₀ x n ++ (run rxfifo s₀ i₀ x n).accepted (x n) := rfl
    have hseen : allSeen rxfifo s₀ i₀ x (n + 1) =
        allSeen rxfifo s₀ i₀ x n ++ (run rxfifo s₀ i₀ x n).seen (x n) := rfl
    rw [hacc, hseen, heq, accepted, seen, hi, hr, hempty]
    simp only [or_true, and_self, if_true, Bool.and_false, Bool.false_eq_true, if_false,
      List.append_nil, List.length_append, List.length_singleton]
    omega
  · have hem := ha.emptyN
    rw [oEmptyN] at hempty
    rw [hempty] at hem
    show (run rxfifo s₀ i₀ x n).nextEmptyN false (x n) = false
    rw [nextEmptyN, hi, hr, ← hem]
    rfl

/-- **The console FIFO** loses no byte in a run if and only if the run writes no byte on a clock that
    reads from the empty FIFO. -/
theorem loses_nothing_iff (hL : 2 ≤ L) (rxfifo : Bool) (s₀ : Ufifo L α) (i₀ : UfifoIn α)
    (x : ℕ → UfifoIn α) : LosesNothing rxfifo s₀ i₀ x ↔
      ∀ n, ¬ ((x n).iWr = true ∧ (x n).iRd = true ∧ (run rxfifo s₀ i₀ x n).oEmptyN = false) := by
  have hlost : ∀ n, ¬ ((x n).iWr = true ∧ (x n).iRd = true ∧
      (run rxfifo s₀ i₀ x n).oEmptyN = false) ↔ (run rxfifo s₀ i₀ x n).lost (x n) = false := by
    intro n
    simp [lost]
  simp only [hlost]
  constructor
  · intro h n
    induction n using Nat.strong_induction_on with
    | _ n ih =>
      by_contra hn
      obtain ⟨hlen, hempty⟩ := not_ready_of_lost hL ih (by simpa using hn)
      rw [h.ready (n + 1) hlen] at hempty
      cases hempty
  · intro h
    have hkept : ∀ n, (run rxfifo s₀ i₀ x n).Agrees ∧ allAccepted rxfifo s₀ i₀ x n =
        allSeen rxfifo s₀ i₀ x n ++ (run rxfifo s₀ i₀ x n).held :=
      fun n => accepted_eq hL n fun k _ => h k
    have horder : ∀ n, allSeen rxfifo s₀ i₀ x n <+: allAccepted rxfifo s₀ i₀ x n := by
      intro n
      rw [(hkept n).2]
      exact List.prefix_append _ _
    have hready : ∀ n, (allSeen rxfifo s₀ i₀ x n).length < (allAccepted rxfifo s₀ i₀ x n).length →
        (run rxfifo s₀ i₀ x n).oEmptyN = true := by
      intro n hlen
      obtain ⟨ha, heq⟩ := hkept n
      by_contra hempty
      have hzero : (run rxfifo s₀ i₀ x n).fill = 0 := by
        have hpos := fill_pos ha
        by_contra hne
        exact hempty (hpos.2 (by omega))
      rw [heq, held, hzero] at hlen
      simp [Fifo.contents] at hlen
    exact ⟨horder, hready, later_of_ready horder hready⟩

end Conservation

/-! ## Two runs -/

/-- The FIFO of four places, before its reset. -/
def powerUp : Ufifo 2 (BitVec 7) where
  fifo := fun _ => 0
  rFirst := 0
  rLast := 0
  rNext := 0
  willOverflow := false
  rOvfl := false
  willUnderflow := true
  fifoHere := 0
  fifoNext := 0
  rData := 0
  osrc := 0
  rEmptyN := false
  rFill := 0

def idle : UfifoIn (BitVec 7) := { iWr := false, iData := 0, iRd := false }

/-- A byte is written at clock 0, and the FIFO is read on every clock behind it. -/
def writeThenRead : ℕ → UfifoIn (BitVec 7)
  | 0 => { iWr := true, iData := 0x41#7, iRd := false }
  | _ + 1 => { iWr := false, iData := 0, iRd := true }

theorem loses_nothing_write_then_read : LosesNothing true powerUp idle writeThenRead :=
  (loses_nothing_iff (by decide) true powerUp idle writeThenRead).2 (by
    intro n
    cases n with
    | zero => exact fun h => absurd h.2.1 (by decide)
    | succ n => exact fun h => absurd h.1 Bool.false_ne_true)

/-- A byte is written at clock 0, on which the empty FIFO is read, as `console.v` does it when the
    bus has asked for a byte on the clock before. -/
def writeAndRead : ℕ → UfifoIn (BitVec 7)
  | 0 => { iWr := true, iData := 0x41#7, iRd := true }
  | _ + 1 => { iWr := false, iData := 0, iRd := true }

/-- The byte is never seen. -/
theorem byte_lost : ¬ LosesNothing true powerUp idle writeAndRead := by
  intro h
  have hempty : (run true powerUp idle writeAndRead 1).oEmptyN = false := by decide
  rw [h.ready 1 (by decide)] at hempty
  cases hempty

end Ufifo

end ZipStormMX
