/-
  The status of `ufifo`.

  The fill register is a prediction, made on the clock before.  For a receive FIFO it is right but for
  a clock that both reads and writes while the FIFO is empty or full; bit 0 of a transmit FIFO is the
  flag that says the FIFO is full, so that its status is never right (`Ufifo.truthful_iff`).
-/
import ZipStormMX.Peripheral.Ufifo

namespace ZipStormMX.Ufifo

variable {L : ℕ} {α : Type}

/-- A write that is refused: the FIFO is full, and not read from. -/
def refused (s : Ufifo L α) (i : UfifoIn α) : Prop :=
  i.iWr = true ∧ i.iRd = false ∧ s.fill = 2 ^ L - 1

/-- What the status counts: the bytes held, or the bytes that can still be written. -/
def counted (s : Ufifo L α) (rxfifo : Bool) : ℕ := if rxfifo then s.fill else 2 ^ L - 1 - s.fill

/-- The status tells the truth, when `wasRefused` says whether a write has been refused. -/
structure Truthful (rxfifo : Bool) (s : Ufifo L α) (wasRefused : Prop) : Prop where
  fill : ((s.oStatus rxfifo).extractLsb' 2 10).toNat = s.counted rxfifo
  half : (s.oStatus rxfifo).getLsbD 1 = true ↔ 2 ^ L ≤ 2 * s.counted rxfifo
  ready : (s.oStatus rxfifo).getLsbD 0 = true ↔ 0 < s.counted rxfifo
  err : s.oErr = true ↔ wasRefused

/-- The prediction goes wrong: a read and a write at once, of an empty FIFO or a full one. -/
def mispredicted (s : Ufifo L α) (i : UfifoIn α) : Prop :=
  i.iWr = true ∧ i.iRd = true ∧ (s.fill = 0 ∨ s.fill = 2 ^ L - 1)

/-! ## The word -/

variable {s : Ufifo L α} {i : UfifoIn α} {rxfifo : Bool}

theorem status_fill (hL : L ≤ 10) : ((s.oStatus rxfifo).extractLsb' 2 10).toNat = s.rFill.toNat := by
  have hlt : s.rFill.toNat < 2 ^ 10 :=
    Nat.lt_of_lt_of_le s.rFill.isLt (Nat.pow_le_pow_right (by decide) hL)
  have hfield : (s.oStatus rxfifo).extractLsb' 2 10 = s.rFill.setWidth 10 := by
    unfold oStatus
    apply BitVec.eq_of_getLsbD_eq
    intro k hk
    simp
    grind
  rw [hfield, BitVec.toNat_setWidth, Nat.mod_eq_of_lt hlt]

theorem status_half : (s.oStatus rxfifo).getLsbD 1 = s.rFill.getLsbD (L - 1) := by
  unfold oStatus
  simp only [BitVec.getLsbD_append, BitVec.getLsbD_ofBool]
  simp

theorem status_ready :
    (s.oStatus rxfifo).getLsbD 0 = if rxfifo then s.rEmptyN else s.willOverflow := by
  unfold oStatus
  simp only [BitVec.getLsbD_append, BitVec.getLsbD_ofBool]
  simp

/-- The top bit is the half. -/
theorem half_iff (hL : 2 ≤ L) (v : BitVec L) : v.getLsbD (L - 1) = true ↔ 2 ^ L ≤ 2 * v.toNat := by
  have hpow : 2 ^ L = 2 * 2 ^ (L - 1) := by
    rw [← Nat.pow_succ', Nat.succ_eq_add_one, Nat.sub_add_cancel (by omega)]
  rw [← BitVec.msb_eq_getLsbD_last, BitVec.msb_eq_decide, decide_eq_true_iff]
  omega

/-! ## The registers -/

/-- What the registers say of the fill. -/
theorem Agrees.full_iff (hL : 2 ≤ L) (h : s.Agrees) :
    s.willOverflow = true ↔ s.fill = 2 ^ L - 1 := by
  have hw : 1 < 2 ^ L := Nat.one_lt_two_pow (by omega)
  have hlt : Fifo.fill s.rLast s.rFirst + 1 < 2 ^ L ↔ s.rFirst + 1 ≠ s.rLast := Fifo.fill_full hw
  have hle := Fifo.fill_lt s.rLast s.rFirst
  rw [h.overflow, beq_iff_eq, fill]
  by_cases heq : s.rFirst + 1 = s.rLast
  · have hno : ¬Fifo.fill s.rLast s.rFirst + 1 < 2 ^ L := fun hh => hlt.1 hh heq
    exact ⟨fun _ => by omega, fun _ => heq⟩
  · have hyes := hlt.2 heq
    exact ⟨fun hh => absurd hh heq, fun hh => by omega⟩

theorem Agrees.empty_iff (h : s.Agrees) : s.willUnderflow = true ↔ s.fill = 0 := by
  rw [h.underflow, beq_iff_eq, fill, Fifo.fill_eq_zero, eq_comm]

/-- The count of a receive FIFO, when the prediction is right. -/
theorem fill_next (hL : 2 ≤ L) (h : s.Agrees) :
    (s.next false i true).rFill.toNat = (s.next false i true).fill ↔ ¬mispredicted s i := by
  have hone : ∀ v : BitVec L, v + 1 ≠ v := Fifo.add_one_ne (Nat.one_lt_two_pow (by omega))
  have hfull := h.full_iff hL
  have hempty := h.empty_iff
  have hboth : ¬(s.willOverflow = true ∧ s.willUnderflow = true) := by
    rw [h.overflow, h.underflow, beq_iff_eq, beq_iff_eq]
    rintro ⟨h0, h1⟩
    exact hone s.rLast (by rw [← h1]; exact h0.trans h1.symm)
  unfold mispredicted
  rw [← hfull, ← hempty, fill, Fifo.fill, BitVec.toNat_inj]
  simp only [next_rFill, next_rFirst, next_rLast, nextFill, nextFirst, moves, wFirstPlusOne, h.next,
    if_true, Bool.false_eq_true, if_false]
  have hless : s.rFirst - (s.rLast + 1) = s.rFirst - s.rLast - 1 := by
    grind
  have hmore : s.rFirst + 1 - s.rLast = s.rFirst - s.rLast + 1 := Fifo.succ_sub _ _
  have hsame : s.rFirst + 1 - (s.rLast + 1) = s.rFirst - s.rLast := by
    grind
  have hup := hone (s.rFirst - s.rLast)
  have hdown : s.rFirst - s.rLast - 1 ≠ s.rFirst - s.rLast := by
    have hd := hone (s.rFirst - s.rLast - 1)
    rw [BitVec.sub_add_cancel] at hd
    exact hd.symm
  cases hw : i.iWr <;> cases hr : i.iRd <;> cases ho : s.willOverflow <;>
    cases hu : s.willUnderflow <;>
    simp_all

/-- After a reset the count of a receive FIFO is right. -/
theorem fill_reset : (s.next true i true).rFill.toNat = (s.next true i true).fill := by
  show (0 : BitVec L).toNat = Fifo.fill (0 : BitVec L) 0
  rw [Fifo.fill_self]
  exact BitVec.toNat_zero

/-! ## Runs -/

section Run

variable (rxfifo) (s₀ : Ufifo L α) (i₀ : UfifoIn α) (x : ℕ → UfifoIn α)

theorem run_agrees (hL : 2 ≤ L) (n : ℕ) : (run rxfifo s₀ i₀ x n).Agrees := by
  induction n with
  | zero => exact agrees_reset hL
  | succ n ih => exact agrees_next hL ih

/-- The error flag remembers every refusal. -/
theorem err_iff (hL : 2 ≤ L) (n : ℕ) :
    (run rxfifo s₀ i₀ x n).oErr = true ↔ ∃ k < n, refused (run rxfifo s₀ i₀ x k) (x k) := by
  induction n with
  | zero =>
    constructor
    · exact fun h => absurd h Bool.false_ne_true
    · rintro ⟨k, hk, -⟩
      omega
  | succ n ih =>
    have hstep : (run rxfifo s₀ i₀ x (n + 1)).oErr = true ↔
        refused (run rxfifo s₀ i₀ x n) (x n) ∨ (run rxfifo s₀ i₀ x n).oErr = true := by
      have hfull := (run_agrees rxfifo s₀ i₀ x hL n).full_iff hL
      show (run rxfifo s₀ i₀ x n).nextOvfl false (x n) = true ↔ _
      unfold refused nextOvfl oErr
      rw [← hfull]
      cases (x n).iWr <;> cases (x n).iRd <;> cases (run rxfifo s₀ i₀ x n).willOverflow <;> simp
    rw [hstep, ih]
    constructor
    · rintro (hr | ⟨k, hk, hr⟩)
      · exact ⟨n, by omega, hr⟩
      · exact ⟨k, by omega, hr⟩
    · rintro ⟨k, hk, hr⟩
      by_cases hn : k = n
      · exact Or.inl (hn ▸ hr)
      · exact Or.inr ⟨k, by omega, hr⟩

/-- **The status tells the truth exactly for a receive FIFO, when the clock before did not read and
    write at once with the FIFO empty or full.** -/
theorem truthful_iff (hL : 2 ≤ L) (hL' : L ≤ 10) (n : ℕ) :
    Truthful rxfifo (run rxfifo s₀ i₀ x n) (∃ k < n, refused (run rxfifo s₀ i₀ x k) (x k)) ↔
      rxfifo = true ∧ ∀ k, n = k + 1 → ¬mispredicted (run rxfifo s₀ i₀ x k) (x k) := by
  have hagrees := run_agrees rxfifo s₀ i₀ x hL n
  have herr := err_iff rxfifo s₀ i₀ x hL n
  cases hrx : rxfifo with
  | false =>
    subst hrx
    -- the ready bit is the flag that there is no room
    refine ⟨fun h => ?_, fun h => absurd h.1 Bool.false_ne_true⟩
    have hready := h.ready
    have hfull := hagrees.full_iff hL
    have hlt := Fifo.fill_lt (run false s₀ i₀ x n).rLast (run false s₀ i₀ x n).rFirst
    rw [status_ready] at hready
    change (run false s₀ i₀ x n).willOverflow = true ↔
      0 < 2 ^ L - 1 - (run false s₀ i₀ x n).fill at hready
    rw [hfull] at hready
    change (run false s₀ i₀ x n).fill < 2 ^ L at hlt
    omega
  | true =>
    subst hrx
    have hpred : (run true s₀ i₀ x n).rFill.toNat = (run true s₀ i₀ x n).fill ↔
        ∀ k, n = k + 1 → ¬mispredicted (run true s₀ i₀ x k) (x k) := by
      cases n with
      | zero => exact ⟨fun _ k hk => by omega, fun _ => fill_reset⟩
      | succ n =>
        rw [show (run true s₀ i₀ x (n + 1)) = (run true s₀ i₀ x n).next false (x n) true from rfl,
          fill_next hL (run_agrees true s₀ i₀ x hL n)]
        constructor
        · intro h k hk
          rw [← Nat.succ.inj hk]
          exact h
        · intro h
          exact h n rfl
    rw [← hpred]
    constructor
    · intro h
      refine ⟨rfl, ?_⟩
      exact (status_fill hL').symm.trans h.fill
    · rintro ⟨-, hfill⟩
      refine ⟨?_, ?_, ?_, herr⟩
      · rw [status_fill hL']
        exact hfill
      · rw [status_half, half_iff hL, hfill]
        rfl
      · rw [status_ready]
        exact fill_pos hagrees

end Run

/-- Two bytes received, the second as the first is read. -/
theorem truthful_received :
    Truthful true (run true powerUp idle (fun n => ⟨true, 0x41, n == 1⟩) 2)
      (∃ k < 2, refused (run true powerUp idle (fun n => ⟨true, 0x41, n == 1⟩) k)
        ⟨true, 0x41, k == 1⟩) := by
  apply (truthful_iff true powerUp idle (fun n => ⟨true, 0x41, n == 1⟩) (by decide)
    (by decide) 2).2
  refine ⟨rfl, ?_⟩
  intro k hk
  rw [← Nat.succ.inj hk]
  rintro ⟨-, -, h⟩
  exact absurd h (by decide)

/-- A transmit FIFO just after a reset. -/
theorem truthful_transmit :
    ¬Truthful false (run false powerUp idle (fun _ => idle) 0)
      (∃ k < 0, refused (run false powerUp idle (fun _ => idle) k) idle) := by
  intro h
  exact absurd (h.ready.2 (by decide)) (by decide)

end ZipStormMX.Ufifo
