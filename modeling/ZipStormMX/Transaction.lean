/-
  One request at a time on a bus with a strobe.

  A master raises its strobe for a request until the slave takes it (does not stall), and then waits
  for the answer; the answer may come in the clock of the acceptance.  `Phase` is the master's state
  and `Phase.next` its clock; a request carries a tag (a direction, a bus), which the phase keeps.
  Nothing here knows who the master is.

  * `Slave`   the other side: it answers every accepted strobe exactly once, and does not stall
    forever;
  * `served`  every request that a run of `Phase` takes has an acceptance and an answer, and the
    phases from the request to the next one are told apart by the two.
-/
import Mathlib.Data.Nat.Find
import Mathlib.Tactic.Common

namespace ZipStormMX.Transaction

variable {τ : Type*}

/-! ## The master -/

/-- The state of the master. -/
inductive Phase (τ : Type*) where
  | idle
  | strobing (tag : τ)
  | waiting (tag : τ)
  deriving DecidableEq, Repr

/-- What the master sees during one clock. -/
structure Pins (τ : Type*) where
  request : Option τ
  stall : Bool
  answer : Bool

/-- The clock.  A request is taken by an idle master only. -/
def Phase.next : Phase τ → Pins τ → Phase τ
  | .idle, i => match i.request with
    | some tag => .strobing tag
    | none => .idle
  | .strobing tag, i => if i.answer then .idle else if i.stall then .strobing tag else .waiting tag
  | .waiting tag, i => if i.answer then .idle else .waiting tag

/-- The strobe. -/
def Phase.strobe : Phase τ → Bool
  | .strobing _ => true
  | _ => false

@[simp] theorem strobe_idle : (Phase.idle : Phase τ).strobe = false := rfl
@[simp] theorem strobe_strobing (tag : τ) : (Phase.strobing tag).strobe = true := rfl
@[simp] theorem strobe_waiting (tag : τ) : (Phase.waiting tag).strobe = false := rfl

/-! ## The slave -/

/-- The strobes a slave has accepted and not answered before clock `n`. -/
def pending (strobe stall answer : ℕ → Bool) : ℕ → ℕ
  | 0 => 0
  | n + 1 =>
    pending strobe stall answer n + (strobe n && !stall n).toNat - (answer n).toNat

/-- A slave that answers each accepted strobe exactly once. -/
structure Slave (strobe stall answer : ℕ → Bool) : Prop where
  /-- An answer has a strobe that was accepted, at the latest on the same clock. -/
  honest : ∀ n, answer n = true →
    0 < pending strobe stall answer n + (strobe n && !stall n).toNat
  /-- An accepted strobe is answered some time. -/
  prompt : ∀ n, 0 < pending strobe stall answer n → ∃ m, n ≤ m ∧ answer m = true
  /-- The slave does not stall forever. -/
  fair : ∀ n, ∃ m, n ≤ m ∧ stall m = false

/-- A run of the master. -/
def Follows (p : ℕ → Phase τ) (i : ℕ → Pins τ) : Prop :=
  p 0 = .idle ∧ ∀ n, p (n + 1) = (p n).next (i n)

/-- The strobes that are out in a phase: one while waiting, none otherwise. -/
def owed : Phase τ → ℕ
  | .waiting _ => 1
  | _ => 0

/-- The slave answers only what it was asked. -/
def Legal (p : Phase τ) (i : Pins τ) : Prop :=
  i.answer = true → 0 < owed p + (p.strobe && !i.stall).toNat

/-- No answer reaches an idle master. -/
theorem legal_idle {i : Pins τ} (h : Legal .idle i) : i.answer = false := by
  cases ha : i.answer
  · rfl
  · exact absurd (h ha) (by simp [owed])

/-- A strobe that is stalled is not answered. -/
theorem legal_stalled {i : Pins τ} {tag : τ} (h : Legal (.strobing tag) i)
    (hst : i.stall = true) : i.answer = false := by
  cases ha : i.answer
  · rfl
  · exact absurd (h ha) (by simp [owed, hst])

/-- What the slave owes is what the phase waits for, one clock later as well. -/
theorem owed_next {p : Phase τ} {i : Pins τ} (h : Legal p i) :
    owed p + (p.strobe && !i.stall).toNat - i.answer.toNat = owed (p.next i) := by
  cases p with
  | idle =>
    cases hq : i.request <;> simp [owed, Phase.next, hq]
  | strobing tag =>
    cases hst : i.stall
    · cases ha : i.answer <;> simp [owed, Phase.next, ha, hst]
    · simp [owed, Phase.next, hst, legal_stalled h hst]
  | waiting tag =>
    cases ha : i.answer <;> simp [owed, Phase.next, ha]

section Run

variable {p : ℕ → Phase τ} {i : ℕ → Pins τ}

/-- The pins of a run, one by one. -/
def strobes (p : ℕ → Phase τ) : ℕ → Bool := fun n => (p n).strobe
def stalls (i : ℕ → Pins τ) : ℕ → Bool := fun n => (i n).stall
def answers (i : ℕ → Pins τ) : ℕ → Bool := fun n => (i n).answer

theorem legal_of_pending (hs : Slave (strobes p) (stalls i) (answers i)) {n : ℕ}
    (hn : pending (strobes p) (stalls i) (answers i) n = owed (p n)) : Legal (p n) (i n) := by
  intro ha
  rw [← hn]
  exact hs.honest n ha

theorem pending_eq (hf : Follows p i) (hs : Slave (strobes p) (stalls i) (answers i)) :
    ∀ n, pending (strobes p) (stalls i) (answers i) n = owed (p n) := by
  intro n
  induction n with
  | zero =>
    rw [hf.1]
    rfl
  | succ n ih =>
    rw [pending, ih, hf.2 n]
    exact owed_next (legal_of_pending hs ih)

theorem legal (hf : Follows p i) (hs : Slave (strobes p) (stalls i) (answers i)) (n : ℕ) :
    Legal (p n) (i n) :=
  legal_of_pending hs (pending_eq hf hs n)

/-! ## One request -/

/-- While the slave stalls, the master strobes. -/
theorem strobing_until (hf : Follows p i) (hs : Slave (strobes p) (stalls i) (answers i))
    {t a : ℕ} {tag : τ} (ht : p t = .idle) (hq : (i t).request = some tag)
    (hst : ∀ k, t < k → k < a → (i k).stall = true) :
    ∀ k, t < k → k ≤ a → p k = .strobing tag := by
  intro k hk
  induction k, hk using Nat.le_induction with
  | base =>
    intro _
    rw [hf.2 t, ht]
    simp [Phase.next, hq]
  | succ k hk ih =>
    intro hka
    have hp := ih (by omega)
    have hstk := hst k hk (by omega)
    rw [hf.2 k, hp]
    simp [Phase.next, hstk, legal_stalled (hp ▸ legal hf hs k) hstk]

/-- From the acceptance to the answer, the master waits. -/
theorem waiting_until (hf : Follows p i) {a d : ℕ} {tag : τ} (ha : p a = .strobing tag)
    (hst : (i a).stall = false) (hno : ∀ k, a ≤ k → k < d → (i k).answer = false) :
    ∀ k, a < k → k ≤ d → p k = .waiting tag := by
  intro k hk
  induction k, hk using Nat.le_induction with
  | base =>
    intro had
    rw [hf.2 a, ha]
    simp [Phase.next, hst, hno a (le_refl a) (by omega)]
  | succ k hk ih =>
    intro hkd
    rw [hf.2 k, ih (by omega)]
    simp [Phase.next, hno k (by omega) (by omega)]

/-- Without a request an idle master stays idle. -/
theorem idle_until (hf : Follows p i) {d : ℕ} (hd : p d = .idle) :
    ∀ k, d ≤ k → (∀ j, d ≤ j → j < k → (i j).request = none) → p k = .idle := by
  intro k hk
  induction k, hk using Nat.le_induction with
  | base => exact fun _ => hd
  | succ k hk ih =>
    intro hno
    rw [hf.2 k, ih (fun j h1 h2 => hno j h1 (by omega))]
    simp [Phase.next, hno k hk (by omega)]

/-- The acceptance `a` and the answer `d` of the request made at `t`, and the phases they
    separate. -/
structure Served (p : ℕ → Phase τ) (i : ℕ → Pins τ) (t : ℕ) (tag : τ) (a d : ℕ) : Prop where
  lt : t < a
  le : a ≤ d
  strobing : ∀ k, t < k → k ≤ a → p k = .strobing tag
  stalled : ∀ k, t < k → k < a → (i k).stall = true
  accepted : (i a).stall = false
  waiting : ∀ k, a < k → k ≤ d → p k = .waiting tag
  answered : (i d).answer = true
  unanswered : ∀ k, t ≤ k → k < d → (i k).answer = false
  idle : ∀ k, d < k → (∀ j, d < j → j < k → (i j).request = none) → p k = .idle

/-- The strobe is accepted: the first clock without a stall. -/
theorem exists_accept (hs : Slave (strobes p) (stalls i) (answers i)) (t : ℕ) :
    ∃ a, t < a ∧ (i a).stall = false ∧ ∀ k, t < k → k < a → (i k).stall = true := by
  have hex : ∃ a, t < a ∧ (i a).stall = false := by
    obtain ⟨m, hm, hst⟩ := hs.fair (t + 1)
    exact ⟨m, by omega, hst⟩
  refine ⟨Nat.find hex, (Nat.find_spec hex).1, (Nat.find_spec hex).2, ?_⟩
  intro k hk hka
  have hmin := Nat.find_min hex hka
  cases hst : (i k).stall
  · exact absurd ⟨hk, hst⟩ hmin
  · rfl

/-- The answer comes: at the acceptance, or once the strobe is owed. -/
theorem exists_answer (hf : Follows p i) (hs : Slave (strobes p) (stalls i) (answers i)) {a : ℕ}
    {tag : τ} (ha : p a = .strobing tag) (hst : (i a).stall = false) :
    ∃ d, a ≤ d ∧ (i d).answer = true ∧ ∀ k, a ≤ k → k < d → (i k).answer = false := by
  have hex : ∃ d, a ≤ d ∧ (i d).answer = true := by
    cases haa : (i a).answer
    · have hw : p (a + 1) = .waiting tag := by
        rw [hf.2 a, ha]
        simp [Phase.next, hst, haa]
      have hpos : 0 < pending (strobes p) (stalls i) (answers i) (a + 1) := by
        rw [pending_eq hf hs, hw]
        exact Nat.one_pos
      obtain ⟨m, hm, han⟩ := hs.prompt (a + 1) hpos
      exact ⟨m, by omega, han⟩
    · exact ⟨a, le_refl a, haa⟩
  refine ⟨Nat.find hex, (Nat.find_spec hex).1, (Nat.find_spec hex).2, ?_⟩
  intro k hk hkd
  have hmin := Nat.find_min hex hkd
  cases han : (i k).answer
  · rfl
  · exact absurd ⟨hk, han⟩ hmin

/-- **Every request is served**, in finite time and once. -/
theorem served (hf : Follows p i) (hs : Slave (strobes p) (stalls i) (answers i)) {t : ℕ} {tag : τ}
    (ht : p t = .idle) (hq : (i t).request = some tag) : ∃ a d, Served p i t tag a d := by
  obtain ⟨a, hta, hacc, hst⟩ := exists_accept hs t
  have hstr := strobing_until hf hs ht hq hst
  have hpa := hstr a hta (le_refl a)
  obtain ⟨d, had, hans, hno⟩ := exists_answer hf hs hpa hacc
  have hwait := waiting_until hf hpa hacc hno
  have hidle : p (d + 1) = .idle := by
    rw [hf.2 d]
    rcases Nat.lt_or_ge a d with hlt | hge
    · rw [hwait d hlt (le_refl d)]
      simp [Phase.next, hans]
    · have had : d = a := by omega
      rw [had, hpa]
      rw [had] at hans
      simp [Phase.next, hans]
  refine ⟨a, d, hta, had, hstr, hst, hacc, hwait, hans, ?_, ?_⟩
  · intro k hk hkd
    rcases Nat.lt_or_ge k a with hka | hka
    · rcases Nat.lt_or_ge t k with htk | htk
      · exact legal_stalled (hstr k htk (by omega) ▸ legal hf hs k) (hst k htk hka)
      · have : k = t := by omega
        rw [this]
        exact legal_idle (ht ▸ legal hf hs t)
    · exact hno k hka hkd
  · intro k hk hreq
    exact idle_until hf hidle k hk (fun j h1 h2 => hreq j (by omega) h2)

end Run

end ZipStormMX.Transaction
