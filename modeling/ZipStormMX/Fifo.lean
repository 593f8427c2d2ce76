/-
  A FIFO in a circular buffer.

  The buffer has `2 ^ w` places and two pointers of `w` bits, one to read at and one to write at, which
  run around it.  What the buffer holds is the list that is read by walking from the read pointer to
  the write pointer.  Nothing here knows what is stored.

  * `fill`      how many entries lie between the pointers, and how it counts;
  * `contents`  the entries, oldest first: writing at the write pointer appends one, and moving the
    read pointer on drops the first.
-/
import Mathlib.Data.BitVec

namespace ZipStormMX.Fifo

variable {α : Type*} {w : ℕ} {buf : BitVec w → α} {rd wr : BitVec w} {n : ℕ}

/-! ## Counting -/

/-- The number of entries between the pointers. -/
def fill (rd wr : BitVec w) : ℕ := (wr - rd).toNat

theorem fill_self (rd : BitVec w) : fill rd rd = 0 := by
  simp [fill]

theorem fill_lt (rd wr : BitVec w) : fill rd wr < 2 ^ w := (wr - rd).isLt

theorem wr_eq (rd wr : BitVec w) : wr = rd + BitVec.ofNat w (fill rd wr) := by
  rw [fill, BitVec.ofNat_toNat, BitVec.setWidth_eq, BitVec.add_comm, BitVec.sub_add_cancel]

theorem fill_eq_zero : fill rd wr = 0 ↔ rd = wr := by
  constructor
  · intro h
    have := wr_eq rd wr
    rw [h] at this
    simpa using this.symm
  · rintro rfl
    exact fill_self rd

theorem toNat_one (hw : 1 < 2 ^ w) : (1 : BitVec w).toNat = 1 := by
  show (BitVec.ofNat w 1).toNat = 1
  rw [BitVec.toNat_ofNat, Nat.mod_eq_of_lt hw]

theorem succ_sub (rd wr : BitVec w) : wr + 1 - rd = wr - rd + 1 := by
  rw [BitVec.sub_eq_add_neg, BitVec.sub_eq_add_neg, BitVec.add_assoc, BitVec.add_comm 1,
    ← BitVec.add_assoc]

theorem fill_push (h : fill rd wr + 1 < 2 ^ w) : fill rd (wr + 1) = fill rd wr + 1 := by
  have h1 : 1 < 2 ^ w := by omega
  simp only [fill, succ_sub, BitVec.toNat_add, toNat_one h1] at h ⊢
  rw [Nat.mod_eq_of_lt h]

theorem fill_pop (h : 0 < fill rd wr) : fill (rd + 1) wr + 1 = fill rd wr := by
  have hsub : wr - rd = wr - (rd + 1) + 1 := by
    rw [BitVec.sub_eq_add_neg, BitVec.sub_eq_add_neg, BitVec.neg_add, BitVec.sub_eq_add_neg,
      BitVec.add_assoc, BitVec.add_assoc, BitVec.add_comm (-1), BitVec.add_right_neg,
      BitVec.add_zero]
  have hlt := (wr - (rd + 1)).isLt
  have hw : 1 < 2 ^ w := by
    by_contra hw
    have h0 := (wr - rd).isLt
    rw [fill] at h
    omega
  simp only [fill, hsub, BitVec.toNat_add, toNat_one hw] at h ⊢
  rcases Nat.lt_or_ge ((wr - (rd + 1)).toNat + 1) (2 ^ w) with hle | hge
  · rw [Nat.mod_eq_of_lt hle]
  · have heq : (wr - (rd + 1)).toNat + 1 = 2 ^ w := by omega
    rw [heq, Nat.mod_self] at h
    omega

/-- The buffer is full when one more step takes the write pointer to the read pointer. -/
theorem fill_full (hw : 1 < 2 ^ w) : fill rd wr + 1 < 2 ^ w ↔ wr + 1 ≠ rd := by
  constructor
  · intro h heq
    have hpush := fill_push h
    rw [heq, fill_self] at hpush
    omega
  · intro hne
    by_contra h
    have hlt := fill_lt rd wr
    apply hne
    have hzero : wr + 1 - rd = 0 := by
      apply BitVec.eq_of_toNat_eq
      rw [fill] at h hlt
      rw [succ_sub, BitVec.toNat_add, toNat_one hw, show (wr - rd).toNat + 1 = 2 ^ w by omega,
        Nat.mod_self]
      rfl
    rw [← BitVec.sub_add_cancel (wr + 1) rd, hzero]
    exact BitVec.zero_add rd

theorem add_one_ne (hw : 1 < 2 ^ w) (p : BitVec w) : p + 1 ≠ p := by
  intro h
  have hone : (1 : BitVec w) = 0 := BitVec.add_right_eq_self.1 h
  have hnat := congrArg BitVec.toNat hone
  rw [toNat_one hw] at hnat
  exact absurd hnat (by simp)

/-! ## Entries -/

/-- The `n` entries from the read pointer on, oldest first. -/
def contents (buf : BitVec w → α) (rd : BitVec w) : ℕ → List α
  | 0 => []
  | n + 1 => buf rd :: contents buf (rd + 1) n

theorem contents_last : ∀ (n : ℕ) (rd : BitVec w),
    contents buf rd (n + 1) = contents buf rd n ++ [buf (rd + BitVec.ofNat w n)] := by
  intro n
  induction n with
  | zero => intro rd; simp [contents]
  | succ n ih =>
    intro rd
    have hn : rd + 1 + BitVec.ofNat w n = rd + BitVec.ofNat w (n + 1) := by
      rw [BitVec.add_assoc, BitVec.add_comm 1, BitVec.ofNat_add]
      rfl
    rw [contents, ih (rd + 1), hn]
    rfl

/-- Only the places that are walked over matter. -/
theorem contents_congr {buf' : BitVec w → α} : ∀ (n : ℕ) (rd : BitVec w),
    (∀ k < n, buf' (rd + BitVec.ofNat w k) = buf (rd + BitVec.ofNat w k)) →
    contents buf' rd n = contents buf rd n := by
  intro n
  induction n with
  | zero => intro rd _; rfl
  | succ n ih =>
    intro rd h
    rw [contents_last, contents_last, ih rd fun k hk => h k (by omega), h n (by omega)]

/-- The write pointer stands beyond the entries. -/
theorem contents_write (v : α) :
    contents (fun a => if a = wr then v else buf a) rd (fill rd wr) =
      contents buf rd (fill rd wr) := by
  have hwr := (wr_eq rd wr).symm
  have h := fill_lt rd wr
  refine contents_congr _ _ fun k hk => ?_
  rw [if_neg]
  intro heq
  rw [← hwr] at heq
  have hnat := congrArg BitVec.toNat ((BitVec.add_right_inj rd).mp heq)
  rw [BitVec.toNat_ofNat, BitVec.toNat_ofNat, Nat.mod_eq_of_lt (hk.trans h), Nat.mod_eq_of_lt h] at hnat
  omega

/-- Writing at the write pointer appends an entry. -/
theorem contents_push (v : α) :
    contents (fun a => if a = wr then v else buf a) rd (fill rd wr + 1) =
      contents buf rd (fill rd wr) ++ [v] := by
  rw [contents_last, contents_write, ← wr_eq, if_pos rfl]

/-- Moving the read pointer on drops the oldest entry. -/
theorem contents_pop (h : 0 < fill rd wr) :
    contents buf (rd + 1) (fill (rd + 1) wr) = (contents buf rd (fill rd wr)).tail := by
  rw [← fill_pop h]
  rfl

theorem contents_ne_nil (h : 0 < fill rd wr) : contents buf rd (fill rd wr) ≠ [] := by
  rw [← fill_pop h]
  exact List.cons_ne_nil _ _

end ZipStormMX.Fifo
