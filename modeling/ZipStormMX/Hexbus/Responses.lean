/-
  What the characters of a response stream say.

  A response is a letter and the digits that follow it; it ends at the next character that is not
  a digit.  `Shadow` is the part of the host's state that responses are about, and
  `Shadow.respond` what each of them is to do to it.  Neither knows how the stream is cut into
  calls.
-/
import ZipStormMX.Hexbus.Host

namespace ZipStormMX.Hexbus

/-! ## Responses in a stream -/

/-- The response in progress, its letter and its digits so far, after one more character. -/
def respondingNext (p : Option (BitVec 8 × BitVec 32)) (ch : BitVec 8) :
    Option (BitVec 8 × BitVec 32) :=
  if digit ch then p.map fun (cmd, word) => (cmd, pushDigit word ch)
  else if isspace ch then none
  else some (ch, 0)

/-- The response in progress after the characters of the list. -/
def responding (l : List (BitVec 8)) : Option (BitVec 8 × BitVec 32) :=
  l.foldl respondingNext none

@[simp] theorem responding_nil : responding [] = none := rfl

@[simp] theorem responding_append_one (l : List (BitVec 8)) (ch : BitVec 8) :
    responding (l ++ [ch]) = respondingNext (responding l) ch := by
  simp only [responding, List.foldl_append, List.foldl_cons, List.foldl_nil]

theorem respondingNext_letter {p : Option (BitVec 8 × BitVec 32)} {ch : BitVec 8}
    (hd : digit ch = false) {cmd : BitVec 8} {word : BitVec 32}
    (h : respondingNext p ch = some (cmd, word)) :
    isspace ch = false ∧ cmd = ch ∧ word = 0 := by
  unfold respondingNext at h
  rw [hd] at h
  cases hs : isspace ch
  · rw [hs] at h
    simp only [Bool.false_eq_true, if_false, Option.some.injEq, Prod.mk.injEq] at h
    exact ⟨rfl, h.1.symm, h.2.symm⟩
  · rw [hs] at h
    simp at h

theorem respondingNext_digit {p : Option (BitVec 8 × BitVec 32)} {ch : BitVec 8}
    (hd : digit ch = true) {cmd : BitVec 8} {word : BitVec 32}
    (h : respondingNext p ch = some (cmd, word)) :
    ∃ w, p = some (cmd, w) ∧ word = pushDigit w ch := by
  unfold respondingNext at h
  rw [hd] at h
  simp only [if_true, Option.map_eq_some_iff, Prod.exists, Prod.mk.injEq] at h
  obtain ⟨c, w, hp, rfl, rfl⟩ := h
  exact ⟨w, hp, rfl⟩

/-! ## What responses are about -/

/-- The members of the class that responses are about. -/
structure Shadow where
  nacks : BitVec 32
  lastaddr : BitVec 32
  inc : Bool
  addrSet : Bool
  interruptFlag : Bool
deriving DecidableEq

def HexBus.shadow (s : HexBus) : Shadow where
  nacks := s.mNacks
  lastaddr := s.mLastaddr
  inc := s.mInc
  addrSet := s.mAddrSet
  interruptFlag := s.mInterruptFlag

namespace Shadow

/-- An access of the device is over: its address moves on if it is to. -/
def advance (v : Shadow) : Shadow :=
  { v with lastaddr := if v.inc then v.lastaddr + 4 else v.lastaddr }

/-- What a response does. -/
def respond (v : Shadow) (cmd : BitVec 8) (word : BitVec 32) : Shadow :=
  if cmd = hexbAck then { v.advance with nacks := v.nacks + 1 }
  else if cmd = hexbRead then v.advance
  else if cmd = hexbAddr then
    { v with addrSet := true, inc := !word.getLsbD 0, lastaddr := word &&& 0xfffffffc#32 }
  else if cmd = hexbInt then { v with interruptFlag := true }
  else v

end Shadow

/-! ## The ends of responses in the two parsers -/

namespace HexBus

variable (s : HexBus) (word : BitVec 32)

@[simp] theorem shadow_startCmd (ch : BitVec 8) : (s.startCmd ch).shadow = s.shadow := rfl

theorem shadow_advance : s.advance.shadow = s.shadow.advance := by
  cases h : s.mInc <;> simp [advance, Shadow.advance, shadow, h]

theorem shadow_recvAck : s.recvAck.shadow = { s.shadow.advance with nacks := s.mNacks + 1 } := by
  cases h : s.mInc <;> simp [recvAck, advance, Shadow.advance, shadow, h]

end HexBus

/-- The responses that both parsers act on the same way. -/
def common (cmd : BitVec 8) : Bool :=
  cmd == hexbAck || cmd == hexbRead || cmd == hexbAddr || cmd == hexbInt

/-- At the end of a response, `readidle` does what it is to. -/
theorem shadow_readidleEnd {s : HexBus} (word : BitVec 32) (hs : s.mIsspace = false)
    (hc : common s.mCmd = true) : (readidleEnd s word).shadow = s.shadow.respond s.mCmd word := by
  simp only [common, Bool.or_eq_true, beq_iff_eq] at hc
  unfold readidleEnd Shadow.respond
  rw [hs]
  rcases hc with ((hc | hc) | hc) | hc
  · rw [hc]
    exact HexBus.shadow_recvAck s
  · rw [hc]
    exact HexBus.shadow_advance s
  · rw [hc]
    rfl
  · rw [hc]
    rfl

/-- At the end of a response, `readword` does what it is to. -/
theorem shadow_readwordEnd {s : HexBus} (word : BitVec 32) (hs : s.mIsspace = false)
    (hc : common s.mCmd = true) : (readwordEnd s word).shadow = s.shadow.respond s.mCmd word := by
  simp only [common, Bool.or_eq_true, beq_iff_eq] at hc
  unfold readwordEnd Shadow.respond
  rw [hs]
  rcases hc with ((hc | hc) | hc) | hc
  · rw [hc]
    exact HexBus.shadow_recvAck s
  · rw [hc]
    exact HexBus.shadow_advance s
  · rw [hc]
    rfl
  · rw [hc]
    rfl

end ZipStormMX.Hexbus
