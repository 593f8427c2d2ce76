/-
  Interrupts between the responses (`hbints.v`).

  The words pass in order, and every rise of `int_state` comes to one interrupt word; these hold in
  every run.  What does not is that a quiet channel lets an interrupt go: one that is raised while the
  output is idle waits until downstream is busy or another word comes (`Hbints.settles_iff`).
-/
import ZipStormMX.Hexbus.Response
import ZipStormMX.Clocked

namespace ZipStormMX.Hexbus

/-- The pins of `hbints` out of reset. -/
structure IntsPins where
  iInterrupt : Bool
  iStb : Bool
  iWord : BitVec 34
  iBusy : Bool

namespace Hbints

def step (s : Hbints) (i : IntsPins) : Hbints :=
  next s false i.iInterrupt i.iStb i.iWord i.iBusy

/-- What a reset leaves; it does not touch the word. -/
structure AfterReset (s : Hbints) : Prop where
  intState : s.intState = false
  pendingInterrupt : s.pendingInterrupt = false
  loaded : s.loaded = false
  oIntStb : s.oIntStb = false
  oIntWord : s.intLoaded = true ↔ s.oIntWord = intWord

/-! ## What goes in and out -/

variable (s : Hbints) (i : IntsPins)

/-- The word that is offered and accepted. -/
def accepted : List (BitVec 34) := if i.iStb && !s.oIntBusy then [i.iWord] else []

/-- The word that is accepted downstream. -/
def delivered : List (BitVec 34) := if s.oIntStb && !i.iBusy then [s.oIntWord] else []

/-- `int_state` rises. -/
def raises : Bool := i.iInterrupt && !s.intState

/-- The word on its way. -/
def held : List (BitVec 34) := if s.loaded then [s.oIntWord] else []

/-- No word is offered, and downstream is not busy. -/
def quiet : Prop := i.iStb = false ∧ i.iBusy = false

/-! ## One clock -/

/-- The flags fit together. -/
structure Consistent (s : Hbints) : Prop where
  intState : s.pendingInterrupt = true → s.intState = true
  loaded : s.loaded = true ↔ s.oIntStb = true ∧ s.intLoaded = false
  pending : s.oIntStb = true → s.intLoaded = true → s.pendingInterrupt = true
  oIntWord : s.intLoaded = true ↔ s.oIntWord = intWord

theorem AfterReset.consistent {s : Hbints} (h : AfterReset s) : Consistent s where
  intState := by
    simp [h.pendingInterrupt]
  loaded := by
    simp [h.loaded, h.oIntStb]
  pending := by
    simp [h.oIntStb]
  oIntWord := h.oIntWord

variable {s i}

theorem step_word (hw : i.iStb = true → i.iWord ≠ intWord) (h : Consistent s) :
    (step s i).intLoaded = true ↔ (step s i).oIntWord = intWord := by
  have hword := h.oIntWord
  unfold step
  simp only [next_intLoaded, next_oIntWord]
  split_ifs with hacc hidle
  · exact ⟨False.elim, fun heq => absurd heq (hw (by grind))⟩
  · exact ⟨fun _ => rfl, fun _ => rfl⟩
  · exact hword

/-- **One clock.**  The flags still fit, the word on its way is passed on or kept, and an interrupt
    that is raised is pending until its word is accepted. -/
theorem step_consistent (hw : i.iStb = true → i.iWord ≠ intWord) (h : Consistent s) :
    Consistent (step s i) := by
  have hword := step_word hw h
  obtain ⟨h0, h1, h2, -⟩ := h
  refine ⟨?_, ?_, ?_, hword⟩
  all_goals
    unfold step
    simp only [next_intState, next_pendingInterrupt, next_loaded, next_oIntStb, next_intLoaded,
      nextState, nextPending, nextLoaded, nextStb, oIntBusy]
    grind

theorem step_held (h : Consistent s) :
    s.held ++ accepted s i = (delivered s i).filter (· != intWord) ++ (step s i).held := by
  obtain ⟨h0, h1, h2, h3⟩ := h
  unfold held accepted delivered step
  simp only [next_loaded, next_oIntWord, nextLoaded, oIntBusy]
  grind

theorem step_count (h : Consistent s) :
    s.pendingInterrupt.toNat + (raises s i).toNat =
      (delivered s i).count intWord + (step s i).pendingInterrupt.toNat := by
  obtain ⟨h0, h1, h2, h3⟩ := h
  unfold raises delivered step
  simp only [next_pendingInterrupt, nextPending]
  grind

/-! ## An interrupt in an idle channel -/

/-- An interrupt is pending, and nothing is on its way out. -/
def stuck (s : Hbints) : Prop :=
  s.pendingInterrupt = true ∧ s.oIntStb = false ∧ s.intLoaded = true

/-- It got there just now, or was there and the channel is quiet. -/
theorem stuck_of_step (h : Consistent s) (hs : stuck (step s i)) :
    raises s i = true ∨ stuck s ∧ quiet i := by
  obtain ⟨h0, h1, h2, -⟩ := h
  unfold stuck step at hs
  simp only [next_pendingInterrupt, next_oIntStb, next_intLoaded, nextPending, nextStb, oIntBusy]
    at hs
  unfold raises stuck quiet
  grind

/-- In a quiet channel it stays. -/
theorem stuck_step (h : stuck s) (hq : quiet i) : stuck (step s i) := by
  obtain ⟨h0, h1, h2⟩ := h
  obtain ⟨hstb, hbusy⟩ := hq
  unfold stuck step
  simp only [next_pendingInterrupt, next_oIntStb, next_intLoaded, nextPending, nextStb, oIntBusy]
  grind

/-- An interrupt that is raised into an idle output is stuck. -/
theorem stuck_of_raises (h : Consistent s) (hr : raises s i = true)
    (hidle : (step s i).oIntStb = false) : stuck (step s i) := by
  obtain ⟨h0, h1, h2, -⟩ := h
  unfold raises at hr
  unfold stuck
  unfold step at *
  simp only [next_pendingInterrupt, next_oIntStb, next_intLoaded, nextPending, nextStb, oIntBusy]
    at *
  grind

/-- Elsewhere two quiet clocks are enough. -/
theorem pending_two (h : Consistent s) (hs : ¬stuck s) {i' : IntsPins} (hq : quiet i)
    (hq' : quiet i') (hp : s.pendingInterrupt = true) :
    (step (step s i) i').pendingInterrupt = false := by
  obtain ⟨h0, h1, h2, -⟩ := h
  obtain ⟨hstb, hbusy⟩ := hq
  obtain ⟨hstb', hbusy'⟩ := hq'
  unfold stuck at hs
  unfold step
  simp only [next_pendingInterrupt, next_intState, next_oIntStb, next_intLoaded, nextPending,
    nextState, nextStb, oIntBusy]
  grind

/-! ## Runs -/

def run (s : Hbints) (x : ℕ → IntsPins) (n : ℕ) : Hbints := Clocked.run step s x n

/-- The words accepted, and delivered, before clock `n`. -/
def wordsIn (s : Hbints) (x : ℕ → IntsPins) (n : ℕ) : List (BitVec 34) :=
  Clocked.events step accepted s x n

def wordsOut (s : Hbints) (x : ℕ → IntsPins) (n : ℕ) : List (BitVec 34) :=
  Clocked.events step delivered s x n

/-- The rises of `int_state` before clock `n`. -/
def rises (s : Hbints) (x : ℕ → IntsPins) : ℕ → ℕ
  | 0 => 0
  | n + 1 => rises s x n + (raises (run s x n) (x n)).toNat

/-- The insertion is exact: in order, an interrupt word for each rise, and none left over when the
    channel is quiet for two clocks. -/
structure Exact (s : Hbints) (x : ℕ → IntsPins) : Prop where
  order : ∀ n, (wordsOut s x n).filter (· != intWord) ++ (run s x n).held = wordsIn s x n
  one : ∀ n, (wordsOut s x n).count intWord + (run s x n).pendingInterrupt.toNat = rises s x n
  settles : ∀ n, quiet (x n) → quiet (x (n + 1)) → (run s x n).pendingInterrupt = true →
    (run s x (n + 2)).pendingInterrupt = false

/-- An interrupt is never raised into an idle channel: when nothing is on its way out on the clock
    after, then that clock or the next is not quiet. -/
def NotIdle (s : Hbints) (x : ℕ → IntsPins) : Prop :=
  ∀ n, raises (run s x n) (x n) = true → (run s x (n + 1)).oIntStb = false →
    quiet (x (n + 1)) → ¬quiet (x (n + 2))

theorem run_consistent {s : Hbints} {x : ℕ → IntsPins} (h : AfterReset s)
    (hw : ∀ n, (x n).iStb = true → (x n).iWord ≠ intWord) (n : ℕ) : Consistent (run s x n) := by
  induction n with
  | zero => exact h.consistent
  | succ n ih => exact step_consistent (hw n) ih

theorem order {s : Hbints} {x : ℕ → IntsPins} (h : AfterReset s)
    (hw : ∀ n, (x n).iStb = true → (x n).iWord ≠ intWord) (n : ℕ) :
    (wordsOut s x n).filter (· != intWord) ++ (run s x n).held = wordsIn s x n := by
  induction n with
  | zero =>
    show [] ++ s.held = []
    unfold held
    rw [h.loaded]
    rfl
  | succ n ih =>
    have hstep := step_held (i := x n) (run_consistent h hw n)
    show (wordsOut s x n ++ delivered (run s x n) (x n)).filter (· != intWord) ++ _ =
      wordsIn s x n ++ accepted (run s x n) (x n)
    rw [List.filter_append, List.append_assoc, ← ih, List.append_assoc, hstep]
    rfl

theorem one {s : Hbints} {x : ℕ → IntsPins} (h : AfterReset s)
    (hw : ∀ n, (x n).iStb = true → (x n).iWord ≠ intWord) (n : ℕ) :
    (wordsOut s x n).count intWord + (run s x n).pendingInterrupt.toNat = rises s x n := by
  induction n with
  | zero =>
    show 0 + s.pendingInterrupt.toNat = 0
    rw [h.pendingInterrupt]
    rfl
  | succ n ih =>
    have hstep := step_count (i := x n) (run_consistent h hw n)
    show (wordsOut s x n ++ delivered (run s x n) (x n)).count intWord +
      (step (run s x n) (x n)).pendingInterrupt.toNat = rises s x n + _
    rw [List.count_append]
    omega

/-- A stuck interrupt was raised, and all has been quiet since. -/
theorem stuck_since {s : Hbints} {x : ℕ → IntsPins} (h : AfterReset s)
    (hw : ∀ n, (x n).iStb = true → (x n).iWord ≠ intWord) (n : ℕ) (hs : stuck (run s x n)) :
    ∃ m < n, raises (run s x m) (x m) = true ∧ (run s x (m + 1)).oIntStb = false ∧
      ∀ k, m < k → k < n → quiet (x k) := by
  induction n with
  | zero =>
    have hp : s.pendingInterrupt = true := hs.1
    rw [h.pendingInterrupt] at hp
    exact absurd hp Bool.false_ne_true
  | succ n ih =>
    rcases stuck_of_step (run_consistent h hw n) hs with hr | ⟨hs', hq⟩
    · exact ⟨n, by omega, hr, hs.2.1, fun k h0 h1 => by omega⟩
    · obtain ⟨m, hm, hr, hidle, hquiet⟩ := ih hs'
      refine ⟨m, by omega, hr, hidle, ?_⟩
      intro k h0 h1
      by_cases hk : k = n
      · rw [hk]
        exact hq
      · exact hquiet k h0 (by omega)

/-- **Interrupt insertion is exact if and only if no interrupt is raised into an idle channel.** -/
theorem exact_iff {s : Hbints} {x : ℕ → IntsPins} (h : AfterReset s)
    (hw : ∀ n, (x n).iStb = true → (x n).iWord ≠ intWord) : Exact s x ↔ NotIdle s x := by
  constructor
  · intro hex n hr hidle hq hq'
    have hstuck := stuck_of_raises (run_consistent h hw n) hr hidle
    have hstuck' : stuck (run s x (n + 3)) := stuck_step (stuck_step hstuck hq) hq'
    have hsettles := hex.settles (n + 1) hq hq' hstuck.1
    exact absurd (hsettles.symm.trans hstuck'.1) Bool.false_ne_true
  · intro hno
    refine ⟨order h hw, one h hw, ?_⟩
    intro n hq hq' hp
    refine pending_two (run_consistent h hw n) ?_ hq hq' hp
    intro hs
    obtain ⟨m, hm, hr, hidle, hquiet⟩ := stuck_since h hw n hs
    have hall : ∀ k, m < k → k ≤ n + 1 → quiet (x k) := by
      intro k h0 h1
      by_cases hn : k < n
      · exact hquiet k h0 hn
      · rcases (by omega : k = n ∨ k = n + 1) with rfl | rfl
        · exact hq
        · exact hq'
    exact hno m hr hidle (hall (m + 1) (by omega) (by omega)) (hall (m + 2) (by omega) (by omega))

/-- An interrupt on the clock before downstream is busy. -/
theorem exact_beforeBusy :
    Exact init fun n => { iInterrupt := n == 1, iStb := false, iWord := 0, iBusy := n == 2 } := by
  apply (exact_iff ⟨rfl, rfl, rfl, rfl, by decide⟩ (fun n hno => absurd hno Bool.false_ne_true)).2
  intro n hr _ hq
  have hn : n = 1 := by
    have hi : (n == 1) = true := (Bool.and_eq_true_iff.1 hr).1
    exact beq_iff_eq.1 hi
  subst hn
  exact absurd hq.2 (by decide)

/-- An interrupt, and nothing else. -/
theorem exact_alone :
    ¬Exact init fun n => { iInterrupt := n == 0, iStb := false, iWord := 0, iBusy := false } := by
  intro h
  exact absurd (h.settles 1 ⟨rfl, rfl⟩ ⟨rfl, rfl⟩ (by decide)) (by decide)

end Hbints

end ZipStormMX.Hexbus
