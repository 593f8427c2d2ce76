/-
  A word that is written into a FIFO of the SD card controller, and what the bus reads back.

  The word may stay in its FIFO, or go to the card in a block and come back in another one, into either
  FIFO, any number of times (`Kept`).  Its bytes are then in the memories that the bus has written them
  to (`Kept.holds`), but the bus does not read them in that order: it writes the right-hand byte of a
  word into the first memory, and reads the first memory as the left-hand byte.  So what it reads is
  the word the other way around.  A read that comes right behind another access finds the word of the
  address before.
-/
import ZipStormMX.Fifo
import ZipStormMX.Sdcard.Outgoing

namespace ZipStormMX.Sdcard

namespace Sdspi

variable {c : SdspiCfg} {s : ℕ → Sdspi c.lgfifoln} {x : ℕ → SdspiIn}

/-! ## Where a word is -/

/-- What goes to the card for the word `u` at address `p` with a command that starts in state `s`.
    The first byte of a block is the one that its FIFO's port shows then. -/
def sentWord (c : SdspiCfg) (s : Sdspi c.lgfifoln) (f : Bool) (p : BitVec c.lgfifoln)
    (u : BitVec 32) : BitVec 32 :=
  if p = 0 then lane u 3 ++ (lane u 2 ++ (lane u 1 ++ (fifo c s f).byte)) else u

/-- The word `w` has been written over the bus, and on clock `n` FIFO `f` has it at address `p`.
    There it is `u`, which is not `w` only if it was sent before its first byte could be read. -/
inductive Kept (c : SdspiCfg) (s : ℕ → Sdspi c.lgfifoln) (x : ℕ → SdspiIn) (w : BitVec 32) :
    Bool → BitVec c.lgfifoln → BitVec 32 → ℕ → Prop
  | written {f : Bool} {p : BitVec c.lgfifoln} {n : ℕ} (hwrite : writesFifo (x n) f = true)
      (hptr : pointer c.lgfifoln x n = some p) (hdata : (x n).iWbData = w) : Kept c s x w f p w (n + 1)
  | stays {f : Bool} {p : BitVec c.lgfifoln} {u : BitVec 32} {n : ℕ} (hkept : Kept c s x w f p u n)
      (hrest : Untouched c (s n) (x n) (pointer c.lgfifoln x n) f p) : Kept c s x w f p u (n + 1)
  | returned {f g : Bool} {p : BitVec c.lgfifoln} {u : BitVec 32} {n b a' b' : ℕ}
      {bytes bytes' : List (BitVec 8)} (hkept : Kept c s x w f p u n)
      (hrest : ∀ t, n ≤ t → t < b → Untouched c (s t) (x t) (pointer c.lgfifoln x t) f p)
      (hsends : Sends c s x f (n + 1) b bytes) (hlater : b ≤ a')
      (hreceives : Receives c s x g a' b' bytes') (hsame : bytes' <+: bytes)
      (hblock : 4 * p.toNat + 3 < bytes'.length ∧ bytes'.length ≤ 4 * 2 ^ c.lgfifoln) :
      Kept c s x w g p (sentWord c (s (n + 1)) f p u) b'

theorem lane_sentWord {s : Sdspi c.lgfifoln} {f : Bool} {p : BitVec c.lgfifoln} {u : BitVec 32}
    {k : Fin 4} (h : 0 < 4 * p.toNat + k.val) : lane (sentWord c s f p u) k = lane u k := by
  unfold sentWord
  split_ifs with hp
  · rw [lane_append]
    rw [hp] at h
    fin_cases k
    · exact absurd h (by simp)
    · rfl
    · rfl
    · rfl
  · rfl

theorem lane_sentWord_first {s : Sdspi c.lgfifoln} {f : Bool} {p : BitVec c.lgfifoln}
    {u : BitVec 32} (hp : p = 0) : lane (sentWord c s f p u) 0 = (fifo c s f).byte := by
  rw [sentWord, if_pos hp, lane_append]
  rfl

/-- When the controller has been free for two clocks and the word has reached the memories, it goes
    out as it is. -/
theorem sentWord_eq {s : Sdspi c.lgfifoln} {i i' : SdspiIn} {f : Bool} {p : BitVec c.lgfifoln}
    {u : BitVec 32} (hfree : s.rCmdBusy = false)
    (hmem : (fifo c (next c s i) f).mem 0 p = lane u 0) :
    sentWord c (next c (next c s i) i') f p u = u := by
  unfold sentWord
  split_ifs with hp
  · have haddr : (next c s i).llFifoAddr = 0 := by
      rw [next_llFifoAddr, nextLlFifoAddr, hfree]
      rfl
    have hzero : wordPart (0 : BitVec (c.lgfifoln + 2)) = 0 ∧
        lanePart (0 : BitVec (c.lgfifoln + 2)) = 0 := (parts_iff _ _ _).2 (by simp)
    rw [byte_next, haddr, hzero.1, hzero.2, ← hp, hmem, append_lanes]
  · rfl

section Keeping

variable (hstep : ∀ n, s (n + 1) = next c (s n) (x n)) {f : Bool} {p : BitVec c.lgfifoln}
  {u w : BitVec 32} {n : ℕ}

include hstep

/-- A write to the FIFO goes to another address. -/
theorem Untouched.front (h : Untouched c (s n) (x n) (pointer c.lgfifoln x n) f p)
    (hwrite : writesFifo (x n) f = true) : (s (n + 1)).fifoWbAddr ≠ p := by
  obtain ⟨q, hq, hqp⟩ := h.bus hwrite
  rw [pointer_eq hstep hq]
  exact hqp

theorem Untouched.holds (h : Untouched c (s n) (x n) (pointer c.lgfifoln x n) f p)
    (hholds : Holds c (s n) f p u) : Holds c (s (n + 1)) f p u := by
  have hfront := h.front hstep
  rw [hstep] at hfront ⊢
  exact hholds.next hfront h.card

/-- The memories have what has stayed for a clock. -/
theorem Untouched.memory (h : Untouched c (s n) (x n) (pointer c.lgfifoln x n) f p)
    (h' : Untouched c (s (n + 1)) (x (n + 1)) (pointer c.lgfifoln x (n + 1)) f p)
    (hholds : Holds c (s (n + 2)) f p u) (k : Fin 4) :
    (fifo c (s (n + 2)) f).mem k p = lane u k := by
  have hfront := h'.front hstep
  have hport : busWrite c (s (n + 1)) f = true → (s (n + 1)).fifoWbAddr ≠ p := by
    intro hbus
    refine h.front hstep ?_
    rw [hstep] at hbus
    exact hbus
  rw [hstep] at hfront hholds ⊢
  exact hholds.memory hfront hport h'.card k

theorem holds_until {b : ℕ} (hholds : Holds c (s n) f p u)
    (h : ∀ t, n ≤ t → t < b → Untouched c (s t) (x t) (pointer c.lgfifoln x t) f p) :
    ∀ t, n ≤ t → t ≤ b → Holds c (s t) f p u := by
  intro t ht
  induction t, ht using Nat.le_induction with
  | base => exact fun _ => hholds
  | succ t ht ih => exact fun htb => (h t ht (by omega)).holds hstep (ih (by omega))

/-- **A word is kept** in the memories that it was written to, wherever it goes. -/
theorem Kept.holds (h0 : AtPowerUp c (s 0)) (h : Kept c s x w f p u n) :
    Holds c (s n) f p u := by
  induction h with
  | @written f p n hwrite hptr hdata =>
    have haddr := pointer_eq hstep hptr
    rw [hstep] at haddr ⊢
    rw [← haddr, ← hdata]
    exact holds_written hwrite
  | stays _ hrest ih => exact hrest.holds hstep ih
  | @returned f g p u n b a' b' bytes bytes' _ hrest hsends _ hreceives hsame hblock ih =>
    have hmem : ∀ t, n + 1 < t → t < b → ∀ k : Fin 4, 0 < 4 * p.toNat + k.val →
        (fifo c (s t) f).mem k p = lane (sentWord c (s (n + 1)) f p u) k := by
      intro t ht htb k hk
      obtain ⟨m, rfl⟩ : ∃ m, t = m + 2 := ⟨t - 2, by omega⟩
      rw [lane_sentWord hk]
      exact (hrest m (by omega) (by omega)).memory hstep (hrest (m + 1) (by omega) (by omega))
        (holds_until hstep ih hrest _ (by omega) (by omega)) k
    intro k
    have hk := k.isLt
    have hin := hreceives.contents_eq h0 hstep hblock.2 p k (by omega)
    obtain ⟨rest, rfl⟩ := hsame
    have hout := hsends.bytes_eq h0 hstep hmem (fun hp => (lane_sentWord_first hp).symm) k (by
      rw [List.length_append]
      omega)
    rw [List.getElem?_append_left (by omega), hin] at hout
    exact Option.some.inj hout

/-- What was on the clock before. -/
theorem Kept.cases_last (h : Kept c s x w f p u (n + 1)) : accessesFifo (x n) = true ∨
    ((fifo c (s n) f).preWr = true → wordPart (s n).llFifoAddr ≠ p) := by
  generalize hm : n + 1 = m at h
  cases h with
  | @written _ _ n' hwrite =>
    obtain rfl : n = n' := by omega
    left
    unfold writesFifo at hwrite
    simp only [Bool.and_eq_true, beq_iff_eq] at hwrite
    rw [accessesFifo, hwrite.1.1, hwrite.2]
    cases f <;> rfl
  | @stays _ _ _ n' _ hrest =>
    obtain rfl : n = n' := by omega
    exact .inr hrest.card
  | returned _ _ _ _ hreceives =>
    right
    intro hpre
    have hlast := (hreceives.preWr_last hstep f).1
    rw [← hm, Nat.add_sub_cancel, hpre] at hlast
    exact absurd hlast (by decide)

end Keeping

/-! ## Reading it -/

/-- The clock before is taken by an access to a FIFO or a command. -/
def follows (x : ℕ → SdspiIn) (n : ℕ) : Bool :=
  accessesFifo (x (n - 1)) || writesCommand (x (n - 1))

/-- When the clock before is free, the word stands where the bus reads. -/
theorem Kept.showing_eq (h0 : AtPowerUp c (s 0)) (hstep : ∀ n, s (n + 1) = next c (s n) (x n))
    {f : Bool} {p : BitVec c.lgfifoln} {u w : BitVec 32} {n : ℕ} (h : Kept c s x w f p u n)
    (hptr : pointer c.lgfifoln x n = some p) (hfree : follows x n = false) :
    showing c (s n) f = u := by
  -- the address has been known for two clocks
  obtain ⟨m, rfl⟩ : ∃ m, n = m + 1 := by
    cases n with
    | zero => exact absurd hptr (by simp [pointer])
    | succ m => exact ⟨m, rfl⟩
  rw [follows, Nat.add_sub_cancel, Bool.or_eq_false_iff] at hfree
  have hbefore : pointer c.lgfifoln x m = some p := by
    rw [pointer, hfree.1, hfree.2] at hptr
    exact hptr
  obtain ⟨l, rfl⟩ : ∃ l, m = l + 1 := by
    cases m with
    | zero => exact absurd hbefore (by simp [pointer])
    | succ l => exact ⟨l, rfl⟩
  have haddr := pointer_eq hstep hbefore
  have hfront : writesFifo (x (l + 1)) f = false := by
    rw [Bool.eq_false_iff]
    intro hwrite
    unfold writesFifo at hwrite
    simp only [Bool.and_eq_true, beq_iff_eq] at hwrite
    rw [accessesFifo, hwrite.1.1, hwrite.2] at hfree
    exact absurd hfree.1 (by cases f <;> decide)
  have hport : busWrite c (s (l + 1)) f = true → (s (l + 1)).fifoWbAddr ≠ p := by
    -- a write on the clock before that one has advanced the address
    intro hbus hat
    rw [hstep] at hbus
    have hwrite : writesFifo (x l) f = true := hbus
    unfold writesFifo at hwrite
    simp only [Bool.and_eq_true, beq_iff_eq] at hwrite
    have hnext : (s (l + 2)).fifoWbAddr = (s (l + 1)).fifoWbAddr + 1 := by
      rw [hstep (l + 1), hstep l]
      show nextFifoWbAddr c (next c (s l) (x l)) = _
      unfold nextFifoWbAddr
      rw [next_rWbAddr, next_rWriteStb, next_rWbStb, hwrite.1.1, hwrite.1.2, hwrite.2]
      cases f <;> rfl
    rw [hnext, hat] at haddr
    exact Fifo.add_one_ne (Nat.one_lt_two_pow c.lgfifoln_pos.ne') p haddr
  have hcard : (fifo c (s (l + 1)) f).preWr = true → wordPart (s (l + 1)).llFifoAddr ≠ p := by
    rcases h.cases_last hstep with hlast | hlast
    · rw [hfree.1] at hlast
      exact absurd hlast (by decide)
    · exact hlast
  have hholds := h.holds hstep h0
  rw [hstep] at hholds haddr ⊢
  have hmem := hholds.memory (fun hwrite => absurd hwrite (by rw [hfront]; decide)) hport hcard
  rw [showing, haddr, hmem, hmem, hmem, hmem, append_lanes]

/-- **What the bus reads back.**  Two clocks after the read comes the word that was written, if it is
    its own reversal, and not otherwise.  Behind another access it is the word at the address before
    that decides. -/
theorem reads_back_iff (h0 : AtPowerUp c (s 0)) (hstep : ∀ n, s (n + 1) = next c (s n) (x n))
    {f : Bool} {p : BitVec c.lgfifoln} {u w : BitVec 32} {n : ℕ} (hkept : Kept c s x w f p u n)
    (hread : readsFifo (x n) f = true) (hptr : pointer c.lgfifoln x n = some p) :
    (s (n + 2)).oWbAck = true ∧ ((s (n + 2)).oWbData = w ↔
      if follows x n then reversed (showing c (s n) f) = w else reversed u = w) := by
  obtain ⟨hack, hdata⟩ := answer_eq hstep hread
  refine ⟨hack, ?_⟩
  rw [hdata]
  cases hfree : follows x n
  · rw [hkept.showing_eq h0 hstep hptr hfree, if_neg (by decide)]
  · rw [if_pos rfl]

/-! ### One word -/

/-- The parameters as the source gives them. -/
def boardCfg : SdspiCfg := ⟨⟨75, false⟩, 7, by decide, 7, 0x63⟩

def idleBus : SdspiIn := ⟨false, false, 0, 0, true, true⟩

def busWrites (a : BitVec 2) (w : BitVec 32) : SdspiIn := ⟨true, true, a, w, true, true⟩

/-- The address of FIFO A is cleared, a word written there, the address cleared again, and the word
    read. -/
def wordThere : ℕ → SdspiIn
  | 0 => busWrites cmdAddress 0
  | 1 => busWrites (fifoAddress false) 0x12345678
  | 2 => busWrites cmdAddress 0
  | 4 => ⟨true, false, fifoAddress false, 0, true, true⟩
  | _ => idleBus

theorem wordThere_kept : Kept boardCfg (Clocked.run (next boardCfg) (poweredUp boardCfg) wordThere)
    wordThere 0x12345678 false 0 0x12345678 4 := by
  refine .stays (.stays (.written rfl rfl rfl) ⟨fun hwrite => ?_, fun hpre => ?_⟩)
    ⟨fun hwrite => ?_, fun hpre => ?_⟩
  · exact absurd hwrite (by decide)
  · exact absurd hpre Bool.false_ne_true
  · exact absurd hwrite (by decide)
  · exact absurd hpre Bool.false_ne_true

theorem reads_back_iff_wordThere :
    (Clocked.run (next boardCfg) (poweredUp boardCfg) wordThere 6).oWbAck = true ∧
      ((Clocked.run (next boardCfg) (poweredUp boardCfg) wordThere 6).oWbData = 0x12345678 ↔
        if follows wordThere 4 then
          reversed (showing boardCfg
            (Clocked.run (next boardCfg) (poweredUp boardCfg) wordThere 4) false) = 0x12345678
        else reversed 0x12345678 = 0x12345678) :=
  reads_back_iff (atPowerUp_poweredUp _) (fun _ => rfl) wordThere_kept rfl rfl

/-- The word comes back the other way around. -/
theorem wordThere_reversed : ¬ ∀ (c : SdspiCfg) (s : ℕ → Sdspi c.lgfifoln) (x : ℕ → SdspiIn),
    AtPowerUp c (s 0) → (∀ n, s (n + 1) = next c (s n) (x n)) →
    ∀ (f : Bool) (p : BitVec c.lgfifoln) (w : BitVec 32) (n : ℕ), Kept c s x w f p w n →
      readsFifo (x n) f = true → pointer c.lgfifoln x n = some p → (s (n + 2)).oWbData = w := by
  intro h
  have hsame := h boardCfg (Clocked.run (next boardCfg) (poweredUp boardCfg) wordThere) wordThere
    (atPowerUp_poweredUp _) (fun _ => rfl) false 0 0x12345678 4 wordThere_kept rfl rfl
  rw [(answer_eq (n := 4) (f := false) (fun _ => rfl) rfl).2,
    wordThere_kept.showing_eq (atPowerUp_poweredUp _) (fun _ => rfl) rfl rfl] at hsame
  exact absurd hsame (by decide)

end Sdspi

end ZipStormMX.Sdcard
