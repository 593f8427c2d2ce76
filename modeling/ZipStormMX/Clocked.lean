/-
  Clocked machines: the runs of a synchronous circuit.

  A synchronous circuit is a next-state function `step : σ → ι → σ`, from the values the registers
  hold during a clock and the values on the input pins to the values held during the next one.
  Nothing here knows which circuit it is.  The file provides

  * `run`      the state at each clock, for a stream of inputs;
  * `run_invariant` / `run_invariant_of`  one induction for every "holds in every reachable state":
    a base case and a step case, the step case under an assumption on each clock's inputs (an
    environment: a bus that keeps a protocol, a debugger that stays away);
  * `run_map`  a projection that commutes with `step` commutes with whole runs, so that a fact about
    the runs of one block carries over to every circuit the block is a part of;
  * `events`   what a run emits: the concatenation of the lists emitted clock by clock, with the
    induction rule that relates the state to all that has been emitted so far.
-/
import Mathlib.Data.Nat.Init
import Mathlib.Tactic.Common

namespace ZipStormMX.Clocked

variable {σ τ ι κ ε : Type*}

/-! ## Runs -/

/-- The state at clock `n`, when the circuit starts in `s` and sees the inputs `x`. -/
def run (step : σ → ι → σ) (s : σ) (x : ℕ → ι) : ℕ → σ
  | 0 => s
  | n + 1 => step (run step s x n) (x n)

@[simp] theorem run_zero (step : σ → ι → σ) (s : σ) (x : ℕ → ι) : run step s x 0 = s := rfl

theorem run_succ (step : σ → ι → σ) (s : σ) (x : ℕ → ι) (n : ℕ) :
    run step s x (n + 1) = step (run step s x n) (x n) := rfl

/-- A run continues as the run that starts in the state it has reached. -/
theorem run_add (step : σ → ι → σ) (s : σ) (x : ℕ → ι) (m : ℕ) :
    ∀ n, run step s x (m + n) = run step (run step s x m) (fun k => x (m + k)) n := by
  intro n
  induction n with
  | zero => rfl
  | succ n ih =>
    show step (run step s x (m + n)) (x (m + n)) = _
    rw [ih]
    rfl

/-- A run depends on the inputs that have been only. -/
theorem run_congr {step : σ → ι → σ} {s : σ} {x y : ℕ → ι} {n : ℕ} (h : ∀ k < n, x k = y k) :
    run step s x n = run step s y n := by
  induction n with
  | zero => rfl
  | succ n ih =>
    have hbefore : run step s x n = run step s y n := ih fun k hk => h k (by omega)
    rw [run_succ, run_succ, hbefore, h n (by omega)]

/-! ## Invariants -/

/-- **The invariant rule.**  `P` holds at every clock if it holds at the first one and every step
    that the environment `E` allows preserves it. -/
theorem run_invariant {step : σ → ι → σ} {P : σ → Prop} {E : σ → ι → Prop} {s : σ} {x : ℕ → ι}
    (h0 : P s) (hE : ∀ n, E (run step s x n) (x n))
    (hstep : ∀ s i, P s → E s i → P (step s i)) : ∀ n, P (run step s x n) := by
  intro n
  induction n with
  | zero => exact h0
  | succ n ih => exact hstep _ _ ih (hE n)

/-- The invariant rule from a clock on: what holds at clock `m` and is preserved from there holds
    at every later clock. -/
theorem run_invariant_from {step : σ → ι → σ} {P : σ → Prop} {s : σ} {x : ℕ → ι} {m : ℕ}
    (h0 : P (run step s x m))
    (hstep : ∀ n, m ≤ n → P (run step s x n) → P (run step s x (n + 1))) :
    ∀ n, m ≤ n → P (run step s x n) := by
  intro n hn
  induction n, hn using Nat.le_induction with
  | base => exact h0
  | succ n hn ih => exact hstep n hn ih

/-! ## Projections -/

/-- A projection `f` that commutes with one step commutes with runs: the inputs of the projected
    run are what `g` makes of the state and the inputs of the outer one. -/
theorem run_map {step : σ → ι → σ} {step' : τ → κ → τ} {f : σ → τ} {g : σ → ι → κ}
    (h : ∀ s i, f (step s i) = step' (f s) (g s i)) (s : σ) (x : ℕ → ι) :
    ∀ n, f (run step s x n) = run step' (f s) (fun k => g (run step s x k) (x k)) n := by
  intro n
  induction n with
  | zero => rfl
  | succ n ih => rw [run_succ, h, ih, run_succ]

/-! ## Emitted events -/

/-- All that a run has emitted before clock `n`, oldest first. -/
def events (step : σ → ι → σ) (emit : σ → ι → List ε) (s : σ) (x : ℕ → ι) : ℕ → List ε
  | 0 => []
  | n + 1 => events step emit s x n ++ emit (run step s x n) (x n)

/-- What a run emits up to clock `m`, and then on. -/
theorem events_add (step : σ → ι → σ) (emit : σ → ι → List ε) (s : σ) (x : ℕ → ι) (m : ℕ) :
    ∀ n, events step emit s x (m + n) = events step emit s x m ++
      events step emit (run step s x m) (fun k => x (m + k)) n := by
  intro n
  induction n with
  | zero => exact (List.append_nil _).symm
  | succ n ih =>
    show events step emit s x (m + n) ++ emit (run step s x (m + n)) (x (m + n)) = _
    rw [ih, run_add, List.append_assoc]
    rfl

/-- What a projected run emits, if each step emits the same. -/
theorem events_map {step : σ → ι → σ} {step' : τ → κ → τ} {f : σ → τ} {g : σ → ι → κ}
    {emit : σ → ι → List ε} {emit' : τ → κ → List ε}
    (h : ∀ s i, f (step s i) = step' (f s) (g s i)) (he : ∀ s i, emit s i = emit' (f s) (g s i))
    (s : σ) (x : ℕ → ι) : ∀ n, events step emit s x n =
      events step' emit' (f s) (fun k => g (run step s x k) (x k)) n := by
  intro n
  induction n with
  | zero => rfl
  | succ n ih =>
    show events step emit s x n ++ emit (run step s x n) (x n) = _
    rw [ih, he, run_map h]
    rfl

/-- **The history rule.**  A relation between the state and the history emitted so far holds at
    every clock if it holds of the first state and the empty history, and each step keeps it. -/
theorem events_invariant {step : σ → ι → σ} {emit : σ → ι → List ε} {R : σ → List ε → Prop}
    {E : σ → ι → Prop} {s : σ} {x : ℕ → ι} (h0 : R s []) (hE : ∀ n, E (run step s x n) (x n))
    (hstep : ∀ s i l, R s l → E s i → R (step s i) (l ++ emit s i)) :
    ∀ n, R (run step s x n) (events step emit s x n) := by
  intro n
  induction n with
  | zero => exact h0
  | succ n ih => exact hstep _ _ _ ih (hE n)

/-- **The conservation rule.**  If on every clock what is held and what comes in is what goes out
    and what is held after, then that is so of the histories: nothing is lost, doubled or overtaken. -/
theorem events_conserve {step : σ → ι → σ} {inp out : σ → ι → List ε} {held : σ → List ε}
    {P : σ → Prop} {E : σ → ι → Prop} {s : σ} {x : ℕ → ι} (h0 : P s)
    (hstep : ∀ s i, P s → E s i → P (step s i) ∧ held s ++ inp s i = out s i ++ held (step s i)) :
    ∀ n, (∀ k < n, E (run step s x k) (x k)) → P (run step s x n) ∧
      held s ++ events step inp s x n = events step out s x n ++ held (run step s x n) := by
  intro n
  induction n with
  | zero => exact fun _ => ⟨h0, List.append_nil _⟩
  | succ n ih =>
    intro hE
    obtain ⟨hP, hheld⟩ := ih fun k hk => hE k (Nat.lt_succ_of_lt hk)
    obtain ⟨hP', hheld'⟩ := hstep _ _ hP (hE n (Nat.lt_succ_self n))
    refine ⟨hP', ?_⟩
    show held s ++ (events step inp s x n ++ inp (run step s x n) (x n)) =
      events step out s x n ++ out (run step s x n) (x n) ++ held (run step s x (n + 1))
    rw [← List.append_assoc, hheld, List.append_assoc, hheld', List.append_assoc]
    rfl

/-- What has been emitted stays. -/
theorem events_mono (step : σ → ι → σ) (emit : σ → ι → List ε) (s : σ) (x : ℕ → ι) {m n : ℕ}
    (h : m ≤ n) : events step emit s x m <+: events step emit s x n := by
  obtain ⟨k, rfl⟩ := Nat.exists_eq_add_of_le h
  rw [events_add]
  exact List.prefix_append _ _

/-- A count that grows time and again while it is below `k` reaches `k`. -/
theorem reaches_of_grows {f : ℕ → ℕ} {k : ℕ} (h : ∀ n, f n < k → ∃ m, n ≤ m ∧ f n < f m) (n : ℕ) :
    ∃ m, n ≤ m ∧ k ≤ f m := by
  induction hd : k - f n using Nat.strong_induction_on generalizing n with
  | _ d ih =>
    by_cases hk : k ≤ f n
    · exact ⟨n, Nat.le_refl n, hk⟩
    · obtain ⟨m, hnm, hlt⟩ := h n (by omega)
      obtain ⟨m', hmm', hk'⟩ := ih (k - f m) (by omega) m rfl
      exact ⟨m', Nat.le_trans hnm hmm', hk'⟩

/-- What is waited for leads on: `P` stays until `W` comes at the latest, and then there is `Q`. -/
theorem leads_to {P Q W : ℕ → Prop} {n : ℕ} (hP : P n) (hW : ∃ m, n ≤ m ∧ W m)
    (hstep : ∀ j, n ≤ j → P j → Q (j + 1) ∨ P (j + 1) ∧ ¬W j) : ∃ j, n < j ∧ Q j := by
  obtain ⟨m, hnm, hm⟩ := hW
  have hstays : ∀ j, n ≤ j → (∃ j, n < j ∧ Q j) ∨ P j := by
    intro j hj
    induction j, hj using Nat.le_induction with
    | base => exact .inr hP
    | succ j hj ih =>
      rcases ih with hdone | hPj
      · exact .inl hdone
      · rcases hstep j hj hPj with hQ | ⟨hPj', -⟩
        · exact .inl ⟨j + 1, by omega, hQ⟩
        · exact .inr hPj'
  rcases hstays m hnm with hdone | hPm
  · exact hdone
  · rcases hstep m hnm hPm with hQ | ⟨-, hno⟩
    · exact ⟨m + 1, by omega, hQ⟩
    · exact absurd hm hno

/-! ## The clocks of an event -/

/-- The clocks before `n` on which `p` happens, in order. -/
def clocks (p : ℕ → Bool) (n : ℕ) : List ℕ := (List.range n).filter p

theorem clocks_succ (p : ℕ → Bool) (n : ℕ) :
    clocks p (n + 1) = clocks p n ++ if p n then [n] else [] := by
  unfold clocks
  rw [List.range_succ, List.filter_append]
  cases hp : p n <;> simp [hp]

theorem mem_clocks {p : ℕ → Bool} {n k : ℕ} : k ∈ clocks p n ↔ k < n ∧ p k = true := by
  simp [clocks]

/-- The clocks that have passed stay. -/
theorem clocks_mono (p : ℕ → Bool) {m n : ℕ} (h : m ≤ n) : clocks p m <+: clocks p n := by
  induction n, h using Nat.le_induction with
  | base => exact List.prefix_rfl
  | succ n _ ih =>
    rw [clocks_succ]
    exact ih.trans (List.prefix_append _ _)

/-- The `k`-th clock of an event is the `k`-th from then on. -/
theorem clocks_get_mono {p : ℕ → Bool} {m n k t : ℕ} (h : m ≤ n) (hk : (clocks p m)[k]? = some t) :
    (clocks p n)[k]? = some t := by
  obtain ⟨l, hl⟩ := clocks_mono p h
  have hlt : k < (clocks p m).length := (List.getElem?_eq_some_iff.1 hk).1
  rw [← hl, List.getElem?_append_left hlt, hk]

/-- The first `k` clocks do not depend on how long one waits. -/
theorem clocks_take {p : ℕ → Bool} {m n k : ℕ} (hm : k ≤ (clocks p m).length)
    (hn : k ≤ (clocks p n).length) : (clocks p m).take k = (clocks p n).take k := by
  obtain ⟨l, hl⟩ := clocks_mono p (Nat.le_max_left m n)
  obtain ⟨l', hl'⟩ := clocks_mono p (Nat.le_max_right m n)
  rw [← List.take_append_of_le_length hm, hl, ← hl', List.take_append_of_le_length hn]

/-- Before the `k`-th clock of an event there are `k` of them. -/
theorem clocks_length_of_get {p : ℕ → Bool} {n k t : ℕ} (hk : (clocks p n)[k]? = some t) :
    (clocks p t).length = k := by
  induction n with
  | zero => simp [clocks] at hk
  | succ n ih =>
    rw [clocks_succ] at hk
    by_cases hlt : k < (clocks p n).length
    · rw [List.getElem?_append_left hlt] at hk
      exact ih hk
    · rw [List.getElem?_append_right (by omega)] at hk
      split at hk
      · obtain ⟨hzero, ht⟩ := List.getElem?_eq_some_iff.1 hk
        simp only [List.length_singleton] at hzero
        simp only [List.getElem_singleton] at ht
        rw [← ht]
        omega
      · simp at hk

/-- An event one clock after another. -/
theorem clocks_shift {p q : ℕ → Bool} (h0 : p 0 = false) (h : ∀ n, p (n + 1) = q n) :
    ∀ n, clocks p (n + 1) = (clocks q n).map (· + 1) := by
  intro n
  induction n with
  | zero => simp [clocks, h0]
  | succ n ih =>
    rw [clocks_succ, ih, clocks_succ, List.map_append, h]
    cases q n <;> rfl

/-- **Conservation, by clocks.**  What comes in on the clocks of `p` is what goes out on those of `q`
    and what is held. -/
theorem clocks_conserve {p q : ℕ → Bool} {f g : ℕ → ε} {held : ℕ → List ε} {n : ℕ}
    (h : (clocks p n).map f = (clocks q n).map g ++ held n)
    (hstep : held n ++ (if p n then [f n] else []) = (if q n then [g n] else []) ++ held (n + 1)) :
    (clocks p (n + 1)).map f = (clocks q (n + 1)).map g ++ held (n + 1) := by
  have hp : ((if p n then [n] else []).map f) = if p n then [f n] else [] := by
    cases p n <;> rfl
  have hq : ((if q n then [n] else []).map g) = if q n then [g n] else [] := by
    cases q n <;> rfl
  rw [clocks_succ, clocks_succ, List.map_append, List.map_append, hp, hq, h, List.append_assoc,
    hstep, List.append_assoc]

end ZipStormMX.Clocked
