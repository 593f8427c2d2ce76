/-
  Idle characters in what `lclreadcode` returns.

  The loop is meant to close the gaps that idle characters leave, but it is the pointer written
  through that runs ahead on one, and `ret` is set before it.  A buffer without any comes back as it
  was, and that is the only case in which the result is what was meant.
-/
import ZipStormMX.Hexbus.Host

namespace ZipStormMX.Hexbus

/-- `ret = nr` -/
def lclreadcodeRet (buf : List (BitVec 8)) : ℕ := buf.length

/-- Not an idle character: bottom seven bits set. -/
def kept (c : BitVec 8) : Bool := c &&& 0x7f#8 != 0x7f#8

/-- The result is the characters that are not idle, and their number. -/
def IdlesRemoved (buf : List (BitVec 8)) : Prop :=
  (lclreadcode buf).take (lclreadcodeRet buf) = buf.filter kept ∧
  lclreadcodeRet buf = (buf.filter kept).length

instance (buf : List (BitVec 8)) : Decidable (IdlesRemoved buf) :=
  inferInstanceAs (Decidable (_ ∧ _))

/-- Without idle characters both pointers are the index. -/
theorem lclreadcode_loop {buf : List (BitVec 8)} (h : ∀ c ∈ buf, kept c = true) :
    ∀ n ≤ buf.length, (List.range n).foldl lclreadcodeStep (buf, 0, 0) = (buf, n, n) := by
  intro n
  induction n with
  | zero => exact fun _ => rfl
  | succ n ih =>
    intro hn
    rw [List.range_succ, List.foldl_append, ih (by omega)]
    have hget : buf.getD n 0 = buf[n] := by
      rw [List.getD_eq_getElem?_getD, List.getElem?_eq_getElem hn]
      rfl
    have hkept : ¬(buf[n] &&& 0x7f#8 = 0x7f#8) := by
      have hc := h buf[n] (List.getElem_mem hn)
      unfold kept at hc
      exact bne_iff_ne.1 hc
    show lclreadcodeStep (buf, n, n) n = _
    unfold lclreadcodeStep
    rw [hget, if_neg hkept, List.set_getElem_self]

/-- **`lclreadcode` removes the idle characters if and only if there are none.** -/
theorem idlesRemoved_iff (buf : List (BitVec 8)) :
    IdlesRemoved buf ↔ ∀ c ∈ buf, c &&& 0x7f#8 ≠ 0x7f#8 := by
  have hkept : (∀ c ∈ buf, c &&& 0x7f#8 ≠ 0x7f#8) ↔ ∀ c ∈ buf, kept c = true := by
    unfold kept
    simp only [bne_iff_ne]
  rw [hkept]
  constructor
  · rintro ⟨-, hlength⟩
    exact List.length_filter_eq_length_iff.1 hlength.symm
  · intro h
    have hfilter : buf.filter kept = buf := List.filter_eq_self.2 h
    refine ⟨?_, ?_⟩
    · unfold lclreadcode lclreadcodeRet
      rw [lclreadcode_loop h buf.length (Nat.le_refl _), hfilter]
      exact List.take_length
    · rw [hfilter]
      rfl

/-- 'A', an idle character, 'B'. -/
theorem idlesRemoved_between : ¬IdlesRemoved [0x41#8, 0x7f#8, 0x42#8] := by
  decide

end ZipStormMX.Hexbus
