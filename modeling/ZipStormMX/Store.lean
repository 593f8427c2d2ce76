/-
  Memories of words with byte selects.

  An access reads a word or writes some of its bytes, the ones that are selected.  What a memory holds
  after a list of accesses is `after`; nothing here knows who makes the accesses, and when.

  * `merge`        the bytes of a word that are written, and those that are kept;
  * `merge_append` a word that is written in two parts is written as a whole;
  * `after`        what a memory holds after accesses, one at a time.
-/
import Mathlib.Data.BitVec
import Mathlib.Logic.Function.Basic

namespace ZipStormMX.Store

/-! ## Bytes -/

section Bytes

variable {n m : ℕ}

/-- The bytes of `new` that are selected, and those of `old` that are not. -/
def merge (sel : BitVec n) (old new : BitVec (8 * n)) : BitVec (8 * n) :=
  (BitVec.ofBoolListLE ((List.range (8 * n)).map fun j =>
    if sel.getLsbD (j / 8) then new.getLsbD j else old.getLsbD j)).setWidth (8 * n)

theorem getLsbD_merge (sel : BitVec n) (old new : BitVec (8 * n)) (j : ℕ) :
    (merge sel old new).getLsbD j =
      if sel.getLsbD (j / 8) then new.getLsbD j else old.getLsbD j := by
  by_cases hj : j < 8 * n
  · rw [merge, BitVec.getLsbD_setWidth, decide_eq_true hj, Bool.true_and,
      BitVec.getLsbD_ofBoolListLE, List.getD_eq_getElem?_getD, List.getElem?_map,
      List.getElem?_range hj, Option.map_some, Option.getD_some]
  · rw [BitVec.getLsbD_of_ge _ _ (by omega), BitVec.getLsbD_of_ge new _ (by omega),
      BitVec.getLsbD_of_ge old _ (by omega), ite_self]

@[simp] theorem merge_allOnes (old new : BitVec (8 * n)) :
    merge (BitVec.allOnes n) old new = new := by
  apply BitVec.eq_of_getLsbD_eq
  intro j hj
  rw [getLsbD_merge, BitVec.getLsbD_allOnes, decide_eq_true (by omega), if_pos rfl]

@[simp] theorem merge_zero (old new : BitVec (8 * n)) : merge 0 old new = old := by
  apply BitVec.eq_of_getLsbD_eq
  intro j _
  rw [getLsbD_merge, BitVec.ofNat_eq_ofNat, BitVec.getLsbD_zero, if_neg Bool.false_ne_true]

end Bytes

/-- A word of four bytes that is written in two halves. -/
theorem merge_append (sel : BitVec 4) (hi lo : BitVec 16) (new : BitVec 32) :
    merge sel (hi ++ lo) new =
      merge (n := 2) (sel.extractLsb' 2 2) hi (new.extractLsb' 16 16) ++
        merge (n := 2) (sel.extractLsb' 0 2) lo (new.extractLsb' 0 16) := by
  apply BitVec.eq_of_getLsbD_eq
  intro j hj
  rw [getLsbD_merge, BitVec.getLsbD_append, BitVec.getLsbD_append]
  by_cases hlow : j < 16
  · rw [if_pos hlow, if_pos hlow, getLsbD_merge, BitVec.getLsbD_extractLsb',
      BitVec.getLsbD_extractLsb', decide_eq_true hlow, decide_eq_true (by omega), Nat.zero_add,
      Nat.zero_add, Bool.true_and, Bool.true_and]
  · rw [if_neg hlow, if_neg hlow, getLsbD_merge, BitVec.getLsbD_extractLsb',
      BitVec.getLsbD_extractLsb', decide_eq_true (by omega : j - 16 < 16),
      decide_eq_true (by omega : (j - 16) / 8 < 2), Bool.true_and, Bool.true_and,
      show 2 + (j - 16) / 8 = j / 8 by omega, show 16 + (j - 16) = j by omega]

/-! ## Accesses -/

/-- A read, or a write to the bytes that are selected. -/
structure Access (α : Type*) (n : ℕ) where
  we : Bool
  addr : α
  data : BitVec (8 * n)
  sel : BitVec n

section Accesses

variable {α : Type*} {n : ℕ} [DecidableEq α]

/-- What a memory holds after an access. -/
def Access.apply (m : α → BitVec (8 * n)) (r : Access α n) : α → BitVec (8 * n) :=
  if r.we then Function.update m r.addr (merge r.sel (m r.addr) r.data) else m

/-- What it holds after a list of them. -/
def after (m : α → BitVec (8 * n)) (rs : List (Access α n)) : α → BitVec (8 * n) :=
  rs.foldl Access.apply m

@[simp] theorem after_nil (m : α → BitVec (8 * n)) : after m [] = m := rfl

theorem after_append (m : α → BitVec (8 * n)) (rs ts : List (Access α n)) :
    after m (rs ++ ts) = after (after m rs) ts := List.foldl_append

theorem after_concat (m : α → BitVec (8 * n)) (rs : List (Access α n)) (r : Access α n) :
    after m (rs ++ [r]) = r.apply (after m rs) := by
  rw [after_append]
  rfl

/-- A read leaves the memory as it is. -/
theorem apply_read (m : α → BitVec (8 * n)) {r : Access α n} (h : r.we = false) :
    r.apply m = m := by
  rw [Access.apply, h, if_neg Bool.false_ne_true]

theorem apply_write (m : α → BitVec (8 * n)) {r : Access α n} (h : r.we = true) :
    r.apply m = Function.update m r.addr (merge r.sel (m r.addr) r.data) := by
  rw [Access.apply, h, if_pos rfl]

end Accesses

end ZipStormMX.Store
