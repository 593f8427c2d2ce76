/-
  What `hbdeword` and `hbgenhex` send for a response word.

  A word is its letter and, unless it is one of the special words, the eight digits of its payload.
  The two blocks hand over exactly these characters, word by word, whatever holds them up.
-/
import ZipStormMX.Clocked
import ZipStormMX.Hexbus.Response

namespace ZipStormMX.Hexbus

/-! ## The characters of a word -/

/-- The top `n` digits of a word. -/
def hexDigits : ℕ → BitVec 32 → List (BitVec 7)
  | 0, _ => []
  | n + 1, word =>
    gxChar (0#1 ++ word.extractLsb' 28 4) :: hexDigits n (word.extractLsb' 0 28 ++ 0#4)

/-- The code that `hbdeword` starts a word with. -/
def letterCode (word : BitVec 34) : BitVec 5 :=
  if Hbdeword.special word then word.extractLsb' 29 5 else 0b100#3 ++ word.extractLsb' 32 2

/-- The characters of a word. -/
def encode (word : BitVec 34) : List (BitVec 7) :=
  gxChar (letterCode word) ::
    hexDigits (if Hbdeword.special word then 0 else 8) (word.extractLsb' 0 32)

/-! ## The two blocks -/

/-- `hbdeword` feeding `hbgenhex`, as `hbconsole` connects them. -/
structure Encoder where
  unpackx : Hbdeword
  genhex : Hbgenhex
deriving DecidableEq

/-- A word offered, and whether what comes next is busy. -/
structure EncoderPins where
  iStb : Bool
  iWord : BitVec 34
  iBusy : Bool

namespace Encoder

def init : Encoder := { unpackx := .init, genhex := .init }

variable (s : Encoder) (i : EncoderPins)

def hxBusy : Bool := Hbgenhex.oGxBusy s.genhex i.iBusy

@[simps]
def next : Encoder where
  unpackx := Hbdeword.next s.unpackx false i.iStb i.iWord (hxBusy s i)
  genhex := Hbgenhex.next s.genhex false s.unpackx.oDwStb s.unpackx.oDwBits i.iBusy

/-- The word taken on this clock. -/
def accepted : List (BitVec 34) :=
  if i.iStb && !Hbdeword.oDwBusy s.unpackx then [i.iWord] else []

/-- The character handed over on this clock. -/
def emitted : List (BitVec 7) :=
  if s.genhex.oGxStb && !i.iBusy then [s.genhex.oGxChar] else []

/-- The words taken within the first `n` clocks. -/
def acceptedBy (x : ℕ → EncoderPins) (n : ℕ) : List (BitVec 34) :=
  Clocked.events next accepted init x n

/-- The characters handed over within the first `n` clocks. -/
def emittedBy (x : ℕ → EncoderPins) (n : ℕ) : List (BitVec 7) :=
  Clocked.events next emitted init x n

/-- The characters that `hbdeword` still holds. -/
def unpacking (s : Hbdeword) : List (BitVec 7) :=
  if s.oDwStb then gxChar s.oDwBits :: hexDigits s.rLen.toNat s.rWord else []

/-- The characters still inside. -/
def held : List (BitVec 7) :=
  (if s.genhex.oGxStb then [s.genhex.oGxChar] else []) ++ unpacking s.unpackx

/-! ## hbdeword -/

/-- Without a word there are no digits to come. -/
def Settled (s : Hbdeword) : Prop := s.oDwStb = false → s.rLen = 0

theorem settled_next {s : Hbdeword} (h : Settled s) (iStb : Bool) (iWord : BitVec 34)
    (iTxBusy : Bool) : Settled (Hbdeword.next s false iStb iWord iTxBusy) := by
  intro hstb
  simp only [Hbdeword.next_oDwStb, Hbdeword.next_rLen, Hbdeword.nextStb, Hbdeword.nextLen,
    Bool.false_eq_true, if_false] at hstb ⊢
  by_cases ht : Hbdeword.take s iStb = true
  · rw [if_pos ht] at hstb
    cases hstb
  · rw [if_neg ht] at hstb ⊢
    cases iTxBusy
    · simp only [Bool.not_false, if_true] at hstb ⊢
      rw [hstb]
      simpa using hstb
    · simp only [Bool.not_true, Bool.false_eq_true, if_false] at hstb ⊢
      exact h hstb

/-- A word is taken: its characters are those held. -/
theorem unpacking_take {s : Hbdeword} {iStb : Bool} (iWord : BitVec 34) (iTxBusy : Bool)
    (ht : Hbdeword.take s iStb = true) :
    unpacking (Hbdeword.next s false iStb iWord iTxBusy) = encode iWord := by
  simp only [unpacking, Hbdeword.next_oDwStb, Hbdeword.nextStb, Hbdeword.next_oDwBits,
    Hbdeword.nextBits, Hbdeword.next_rLen, Hbdeword.nextLen, Hbdeword.next_rWord, ht,
    Bool.false_eq_true, if_false, if_true, encode, letterCode]
  cases Hbdeword.special iWord <;> rfl

/-- A character is passed on, and the digits that follow it stay. -/
theorem unpacking_pass {s : Hbdeword} (h : Settled s) {iStb : Bool} (iWord : BitVec 34)
    (ht : Hbdeword.take s iStb = false) :
    unpacking s = (if s.oDwStb then [gxChar s.oDwBits] else []) ++
      unpacking (Hbdeword.next s false iStb iWord false) := by
  simp only [unpacking, Hbdeword.next_oDwStb, Hbdeword.nextStb, Hbdeword.next_oDwBits,
    Hbdeword.nextBits, Hbdeword.next_rLen, Hbdeword.nextLen, Hbdeword.next_rWord, ht,
    Bool.false_eq_true, if_false, Bool.not_false, if_true]
  by_cases hl : s.rLen = 0
  · rw [hl]
    cases s.oDwStb <;> rfl
  · have hne : (s.rLen != 0) = true := by simpa using hl
    have hstb : s.oDwStb = true := by
      by_contra hs
      exact hl (h (by simpa using hs))
    have hnat : s.rLen.toNat = (s.rLen - 1).toNat + 1 := by
      have : s.rLen.toNat ≠ 0 := fun h0 => hl (BitVec.eq_of_toNat_eq h0)
      bv_omega
    rw [hstb, hne, hnat]
    rfl

/-- Held up, it keeps what it has. -/
theorem unpacking_wait {s : Hbdeword} {iStb : Bool} (iWord : BitVec 34)
    (ht : Hbdeword.take s iStb = false) :
    unpacking (Hbdeword.next s false iStb iWord true) = unpacking s := by
  simp only [unpacking, Hbdeword.next_oDwStb, Hbdeword.nextStb, Hbdeword.next_oDwBits,
    Hbdeword.nextBits, Hbdeword.next_rLen, Hbdeword.nextLen, Hbdeword.next_rWord, ht,
    Bool.false_eq_true, if_false, Bool.not_true]

/-! ## Runs -/

/-- One clock: what is held and what is handed over is what was held and the word taken. -/
theorem held_next (h : Settled s.unpackx) :
    emitted s i ++ held (next s i) = held s ++ (accepted s i).flatMap encode := by
  have hacc : (accepted s i).flatMap encode =
      if Hbdeword.take s.unpackx i.iStb then encode i.iWord else [] := by
    show (if Hbdeword.take s.unpackx i.iStb then [i.iWord] else []).flatMap encode = _
    cases Hbdeword.take s.unpackx i.iStb <;> simp
  rw [hacc]
  cases hb : hxBusy s i
  · -- `hbgenhex` is free: its character leaves, and it takes what `hbdeword` shows
    have hgen : Hbgenhex.oGxBusy s.genhex i.iBusy = false := hb
    have hnow : emitted s i = if s.genhex.oGxStb then [s.genhex.oGxChar] else [] := by
      unfold emitted
      unfold Hbgenhex.oGxBusy at hgen
      cases hs : s.genhex.oGxStb
      · rfl
      · rw [hs, Bool.true_and] at hgen
        rw [hgen]
        rfl
    have hthen : held (next s i) = (if s.unpackx.oDwStb then [gxChar s.unpackx.oDwBits] else []) ++
        unpacking (next s i).unpackx := by
      simp only [held, next_genhex, Hbgenhex.next_oGxStb, Hbgenhex.next_oGxChar, hgen,
        Bool.false_eq_true, if_false, Bool.not_false, if_true]
    rw [hnow, hthen, next_unpackx, hb, held, List.append_assoc]
    congr 1
    cases ht : Hbdeword.take s.unpackx i.iStb
    · rw [← unpacking_pass h i.iWord ht]
      simp
    · have hidle : s.unpackx.oDwStb = false := by
        simp only [Hbdeword.take, Hbdeword.oDwBusy, Bool.and_eq_true, Bool.not_eq_true'] at ht
        exact ht.2
      rw [unpacking_take i.iWord false ht]
      simp [unpacking, hidle]
  · -- it is held up, and so is `hbdeword`, unless that is free to take a word
    have hgen : Hbgenhex.oGxBusy s.genhex i.iBusy = true := hb
    have hnow : emitted s i = [] := by
      simp only [Hbgenhex.oGxBusy, Bool.and_eq_true] at hgen
      simp [emitted, hgen.2]
    have hthen : held (next s i) = (if s.genhex.oGxStb then [s.genhex.oGxChar] else []) ++
        unpacking (next s i).unpackx := by
      simp only [held, next_genhex, Hbgenhex.next_oGxStb, Hbgenhex.next_oGxChar, hgen,
        Bool.false_eq_true, if_false, Bool.not_true]
    rw [hnow, hthen, next_unpackx, hb, held, List.nil_append, List.append_assoc]
    congr 1
    cases ht : Hbdeword.take s.unpackx i.iStb
    · rw [unpacking_wait i.iWord ht]
      simp
    · have hidle : s.unpackx.oDwStb = false := by
        simp only [Hbdeword.take, Hbdeword.oDwBusy, Bool.and_eq_true, Bool.not_eq_true'] at ht
        exact ht.2
      rw [unpacking_take i.iWord true ht]
      simp [unpacking, hidle]

/-- **What is handed over, with what is still inside, is the words taken, encoded.** -/
theorem emitted_encode (x : ℕ → EncoderPins) (n : ℕ) :
    emittedBy x n ++ held (Clocked.run next init x n) = (acceptedBy x n).flatMap encode := by
  have hset : ∀ n, Settled (Clocked.run next init x n).unpackx := by
    intro n
    induction n with
    | zero => exact fun _ => rfl
    | succ n ih => exact settled_next ih _ _ _
  induction n with
  | zero => rfl
  | succ n ih =>
    show (emittedBy x n ++ emitted (Clocked.run next init x n) (x n)) ++
        held (next (Clocked.run next init x n) (x n)) =
      (acceptedBy x n ++ accepted (Clocked.run next init x n) (x n)).flatMap encode
    rw [List.append_assoc, held_next _ _ (hset n), ← List.append_assoc, ih, List.flatMap_append]

end Encoder

end ZipStormMX.Hexbus
