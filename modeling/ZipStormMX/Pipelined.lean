/-
  A pipelined bus slave: requests that are answered in the order in which they were taken.

  A slave takes a request on some clocks and gives an answer on others, one clock later at the
  earliest.  Requests are named by the clock on which they were taken.  `waiting` are those that
  still wait: an answer is for the first of them, and a master that lets go of the bus gives all of
  them up.  Nothing here knows who the slave is.

  * `Serves`      every answer has a request to answer, and is right for it; and no request waits
    longer than a bound while the bus is held;
  * `waiting_eq`  the rule by which a circuit is shown to serve: one list of requests that it keeps
    in its registers, and what one clock does to that list;
  * `serves_joined`  several slaves behind an address decoder, with a register on the way back: if a
    master turns to one of them at a time, they are one slave.
-/
import Mathlib.Data.List.Basic
import Mathlib.Data.Nat.Init
import Mathlib.Tactic.Common

namespace ZipStormMX.Pipelined

/-! ## The requests that wait -/

section

variable (held taken answer : ℕ → Bool)

/-- The requests that wait for an answer, by the clocks on which they were taken. -/
def waiting : ℕ → List ℕ
  | 0 => []
  | n + 1 =>
    if held n then (waiting n).drop (answer n).toNat ++ (if taken n then [n] else []) else []

@[simp] theorem waiting_zero : waiting held taken answer 0 = [] := rfl

theorem waiting_succ (n : ℕ) : waiting held taken answer (n + 1) =
    if held n then
      (waiting held taken answer n).drop (answer n).toNat ++ (if taken n then [n] else [])
    else [] := rfl

/-- What waits was taken before. -/
theorem taken_of_waiting {n t : ℕ} (h : t ∈ waiting held taken answer n) :
    t < n ∧ taken t = true := by
  induction n with
  | zero => exact absurd h List.not_mem_nil
  | succ n ih =>
    rw [waiting_succ] at h
    split at h
    · rcases List.mem_append.1 h with h | h
      · obtain ⟨hlt, ht⟩ := ih (List.mem_of_mem_drop h)
        exact ⟨Nat.lt_succ_of_lt hlt, ht⟩
      · split at h
        · rename_i htk
          rw [List.mem_singleton] at h
          exact ⟨h ▸ Nat.lt_succ_self n, h ▸ htk⟩
        · exact absurd h List.not_mem_nil
    · exact absurd h List.not_mem_nil

/-- A slave that answers: `right t n` if the answer of clock `n` is right for the request taken on
    clock `t`. -/
structure Serves (right : ℕ → ℕ → Prop) (bound : ℕ) : Prop where
  honest : ∀ n, held n = true → answer n = true →
    ∃ t l, waiting held taken answer n = t :: l ∧ right t n
  prompt : ∀ n, waiting held taken answer n ≠ [] → (∀ k < bound, held (n + k) = true) →
    ∃ k < bound, answer (n + k) = true

end

variable {held taken answer : ℕ → Bool} {right : ℕ → ℕ → Prop} {bound : ℕ}

/-- A slave may be promised more time, and less may be asked of it. -/
theorem Serves.mono {right' : ℕ → ℕ → Prop} {bound' : ℕ}
    (h : Serves held taken answer right bound) (hr : ∀ t n, right t n → right' t n)
    (hb : bound ≤ bound') : Serves held taken answer right' bound' where
  honest n hn ha := by
    obtain ⟨t, l, hl, ht⟩ := h.honest n hn ha
    exact ⟨t, l, hl, hr t n ht⟩
  prompt n hw hh := by
    obtain ⟨k, hk, ha⟩ := h.prompt n hw fun k hk => hh k (Nat.lt_of_lt_of_le hk hb)
    exact ⟨k, Nat.lt_of_lt_of_le hk hb, ha⟩

/-- **The queue rule.**  If a circuit keeps its requests in a list, which one clock changes as it
changes the requests that wait, then that list is what waits. -/
theorem waiting_eq {queue : ℕ → List ℕ} (h0 : queue 0 = [])
    (hstep : ∀ n, queue (n + 1) =
      if held n then (queue n).drop (answer n).toNat ++ (if taken n then [n] else []) else []) :
    ∀ n, waiting held taken answer n = queue n := by
  intro n
  induction n with
  | zero => exact h0.symm
  | succ n ih => rw [waiting_succ, ih, hstep]

/-! ## Several slaves -/

section Joined

variable {ι : Type*} [DecidableEq ι] {port : ℕ → ι} {ans : ι → ℕ → Bool}
  {rights : ι → ℕ → ℕ → Prop}

/-- The requests that go to slave `k`. -/
def takenBy (taken : ℕ → Bool) (port : ℕ → ι) (k : ι) (n : ℕ) : Bool :=
  taken n && decide (port n = k)

/-- A master that turns to one slave at a time. -/
def OneAtATime (held taken answer : ℕ → Bool) (port : ℕ → ι) (n : ℕ) : Prop :=
  taken n = true → ∀ t ∈ waiting held taken answer n, port n = port t

/-- The requests that wait all wait for one slave, and each slave has its own. -/
structure Sorted (held taken answer : ℕ → Bool) (port : ℕ → ι) (ans : ι → ℕ → Bool) (n : ℕ) :
    Prop where
  same : ∀ t ∈ waiting held taken answer n, ∀ u ∈ waiting held taken answer n, port t = port u
  own : ∀ k, waiting held (takenBy taken port k) (ans k) n =
    (waiting held taken answer n).filter fun t => decide (port t = k)

variable (h : ∀ k, Serves held (takenBy taken port k) (ans k) (rights k) bound)
  (hany : ∀ n, answer n = true ↔ ∃ k, ans k n = true)

/-- All wait for the slave that the first of them waits for. -/
theorem Sorted.own_eq {n t : ℕ} {l : List ℕ} (hs : Sorted held taken answer port ans n)
    (hw : waiting held taken answer n = t :: l) (k : ι) :
    waiting held (takenBy taken port k) (ans k) n =
      if port t = k then waiting held taken answer n else [] := by
  rw [hs.own]
  have hall : ∀ u ∈ waiting held taken answer n, port u = port t :=
    fun u hu => hs.same u hu t (hw ▸ List.mem_cons_self)
  split
  · rename_i hk
    exact List.filter_eq_self.2 fun u hu => decide_eq_true ((hall u hu).trans hk)
  · rename_i hk
    exact List.filter_eq_nil_iff.2 fun u hu hd =>
      hk ((hall u hu).symm.trans (of_decide_eq_true hd))

include h

/-- Only the slave that is waited for answers. -/
theorem Sorted.answered {n : ℕ} (hs : Sorted held taken answer port ans n) (hh : held n = true)
    {k : ι} (ha : ans k n = true) :
    ∃ t l, waiting held taken answer n = t :: l ∧ port t = k ∧ rights k t n := by
  obtain ⟨t, l, hl, hr⟩ := (h k).honest n hh ha
  have hmem : t ∈ (waiting held taken answer n).filter fun t => decide (port t = k) := by
    rw [← hs.own k, hl]
    exact List.mem_cons_self
  obtain ⟨hmem, hport⟩ := List.mem_filter.1 hmem
  cases hw : waiting held taken answer n with
  | nil =>
    rw [hw] at hmem
    exact absurd hmem List.not_mem_nil
  | cons u l' =>
    have hu : port u = k := (hs.same u (hw ▸ List.mem_cons_self) t hmem).trans
      (of_decide_eq_true hport)
    have hown := hs.own_eq hw k
    rw [if_pos hu, hl, hw] at hown
    obtain ⟨rfl, rfl⟩ := List.cons.inj hown
    exact ⟨t, l, rfl, hu, hr⟩

include hany

theorem sorted_next {n : ℕ} (hone : OneAtATime held taken answer port n)
    (hs : Sorted held taken answer port ans n) : Sorted held taken answer port ans (n + 1) := by
  cases hh : held n
  · refine ⟨?_, fun k => ?_⟩
    · intro t ht
      rw [waiting_succ, hh] at ht
      exact absurd ht List.not_mem_nil
    · rw [waiting_succ, waiting_succ, hh]
      rfl
  · have hold : ∀ t ∈ (waiting held taken answer n).drop (answer n).toNat,
        t ∈ waiting held taken answer n := fun t => List.mem_of_mem_drop
    refine ⟨?_, fun k => ?_⟩
    · intro t ht u hu
      rw [waiting_succ, hh, if_pos rfl, List.mem_append] at ht hu
      cases htk : taken n
      · rw [htk] at ht hu
        simp only [Bool.false_eq_true, if_false, List.not_mem_nil, or_false] at ht hu
        exact hs.same t (hold t ht) u (hold u hu)
      · rw [htk] at ht hu
        simp only [if_true, List.mem_singleton] at ht hu
        rcases ht with ht | rfl
        · rcases hu with hu | rfl
          · exact hs.same t (hold t ht) u (hold u hu)
          · exact (hone htk t (hold t ht)).symm
        · rcases hu with hu | rfl
          · exact hone htk u (hold u hu)
          · rfl
    · have hnew : (if takenBy taken port k n then [n] else []) =
          (if taken n then [n] else []).filter fun t => decide (port t = k) := by
        rw [takenBy]
        cases taken n
        · rfl
        · by_cases hk : port n = k <;> simp [hk]
      rw [waiting_succ, waiting_succ, hh, if_pos rfl, if_pos rfl, List.filter_append, ← hnew]
      congr 1
      cases hw : waiting held taken answer n with
      | nil =>
        have hno : waiting held (takenBy taken port k) (ans k) n = [] := by
          rw [hs.own, hw]
          rfl
        rw [hno, List.drop_nil, List.drop_nil]
        rfl
      | cons t l =>
        have hown := hs.own_eq hw k
        by_cases hk : port t = k
        · have hans : ans k n = answer n := by
            rw [Bool.eq_iff_iff, hany]
            refine ⟨fun ha => ⟨k, ha⟩, fun ⟨j, hj⟩ => ?_⟩
            obtain ⟨u, l', hu, hport, -⟩ := hs.answered h hh hj
            obtain ⟨rfl, rfl⟩ := List.cons.inj (hw.symm.trans hu)
            rwa [← hk, hport]
          rw [if_pos hk] at hown
          rw [hown, hans, hw]
          refine (List.filter_eq_self.2 fun u hu => decide_eq_true ?_).symm
          have hmem : u ∈ waiting held taken answer n := hw ▸ List.mem_of_mem_drop hu
          rw [hs.same u hmem t (hw ▸ List.mem_cons_self), hk]
        · rw [if_neg hk] at hown
          rw [hown, List.drop_nil]
          refine (List.filter_eq_nil_iff.2 fun u hu hd => hk ?_).symm
          have hmem : u ∈ waiting held taken answer n := hw ▸ List.mem_of_mem_drop hu
          rw [← of_decide_eq_true hd]
          exact hs.same t (hw ▸ List.mem_cons_self) u hmem

theorem sorted_of {n : ℕ} (hone : ∀ m < n, OneAtATime held taken answer port m) :
    Sorted held taken answer port ans n := by
  induction n with
  | zero => exact ⟨fun _ ht => absurd ht List.not_mem_nil, fun _ => rfl⟩
  | succ n ih =>
    exact sorted_next h hany (hone n (Nat.lt_succ_self n))
      (ih fun m hm => hone m (Nat.lt_succ_of_lt hm))

end Joined

/-! ## A register on the way back -/

section Registered

variable {late : ℕ → Bool} {right' : ℕ → ℕ → Prop}

/-- What waits before the register, waits behind it as well: only the answer that the register holds
has still to be seen there. -/
theorem waiting_late (h0 : late 0 = false) (hlate : ∀ n, late (n + 1) = (held n && answer n))
    (hright : ∀ t n, right t n → right' t (n + 1)) {n : ℕ}
    (hs : ∀ m < n, held m = true → answer m = true →
      ∃ t l, waiting held taken answer m = t :: l ∧ right t m) :
    ∃ l, waiting held taken late n = l ++ waiting held taken answer n ∧
      l.length = (late n).toNat ∧ ∀ t ∈ l, right' t n := by
  induction n with
  | zero => exact ⟨[], rfl, by rw [h0]; rfl, fun _ ht => absurd ht List.not_mem_nil⟩
  | succ n ih =>
    obtain ⟨l, hl, hlen, -⟩ := ih fun m hm => hs m (Nat.lt_succ_of_lt hm)
    rw [waiting_succ, waiting_succ, hlate, hl, List.drop_left' hlen]
    cases hh : held n
    · exact ⟨[], rfl, rfl, fun _ ht => absurd ht List.not_mem_nil⟩
    · rw [if_pos rfl, if_pos rfl]
      cases ha : answer n
      · exact ⟨[], rfl, rfl, fun _ ht => absurd ht List.not_mem_nil⟩
      · obtain ⟨t, l', hw, hr⟩ := hs n (Nat.lt_succ_self n) hh ha
        refine ⟨[t], by rw [hw]; rfl, rfl, ?_⟩
        intro u hu
        rw [List.mem_singleton.1 hu]
        exact hright t n hr

end Registered

/-- **Several slaves behind a decoder and a register are one.** -/
theorem serves_joined {ι : Type*} [DecidableEq ι] {port : ℕ → ι} {ans : ι → ℕ → Bool}
    {rights : ι → ℕ → ℕ → Prop} {late : ℕ → Bool} {right' : ℕ → ℕ → Prop}
    (h : ∀ k, Serves held (takenBy taken port k) (ans k) (rights k) bound)
    (hany : ∀ n, answer n = true ↔ ∃ k, ans k n = true) (h0 : late 0 = false)
    (hlate : ∀ n, late (n + 1) = (held n && answer n))
    (hright : ∀ t n, ans (port t) n = true → (∃ l, waiting held taken answer n = t :: l) →
      rights (port t) t n → right' t (n + 1))
    (hone : ∀ n, OneAtATime held taken late port n) :
    Serves held taken late right' (bound + 1) ∧
      ∀ n, Sorted held taken answer port ans n := by
  -- both sides of the register at once: what is known up to a clock orders the next one
  have hboth : ∀ n, Sorted held taken answer port ans n ∧
      ∃ l, waiting held taken late n = l ++ waiting held taken answer n ∧
        l.length = (late n).toNat ∧ ∀ t ∈ l, right' t n := by
    intro n
    induction n using Nat.strong_induction_on with
    | _ n ih =>
      have hinner : ∀ m < n, OneAtATime held taken answer port m := by
        intro m hm htk t ht
        obtain ⟨-, l, hl, -, -⟩ := ih m hm
        exact hone m htk t (by rw [hl]; exact List.mem_append_right _ ht)
      refine ⟨sorted_of h hany hinner, ?_⟩
      have hfirst : ∀ m < n, held m = true → answer m = true →
          ∃ t l, waiting held taken answer m = t :: l ∧ (ans (port t) m = true ∧
            (∃ l, waiting held taken answer m = t :: l) ∧ rights (port t) t m) := by
        intro m hm hh ha
        obtain ⟨k, hk⟩ := (hany m).1 ha
        obtain ⟨t, l, hw, rfl, hr⟩ := (ih m hm).1.answered h hh hk
        exact ⟨t, l, hw, hk, ⟨l, hw⟩, hr⟩
      refine waiting_late h0 hlate ?_ hfirst
      intro t m hr
      exact hright t m hr.1 hr.2.1 hr.2.2
  refine ⟨⟨?_, ?_⟩, fun n => (hboth n).1⟩
  · intro n _ ha
    obtain ⟨-, l, hl, hlen, hr⟩ := hboth n
    rw [ha] at hlen
    obtain ⟨t, rfl⟩ := List.length_eq_one_iff.1 hlen
    exact ⟨t, _, hl, hr t (List.mem_singleton.2 rfl)⟩
  · intro n hw hh
    obtain ⟨hsort, l, hl, hlen, -⟩ := hboth n
    cases ha : late n
    · rw [ha] at hlen
      have hnil : l = [] := List.eq_nil_of_length_eq_zero hlen
      rw [hl, hnil, List.nil_append] at hw
      obtain ⟨t, l', htl⟩ := List.exists_cons_of_ne_nil hw
      have hk : waiting held (takenBy taken port (port t)) (ans (port t)) n ≠ [] := by
        rw [hsort.own_eq htl, if_pos rfl]
        exact hw
      obtain ⟨j, hj, hans⟩ := (h (port t)).prompt n hk fun k hk => hh k (Nat.lt_succ_of_lt hk)
      refine ⟨j + 1, Nat.succ_lt_succ hj, ?_⟩
      rw [← Nat.add_assoc, hlate, hh j (Nat.lt_succ_of_lt hj), (hany _).2 ⟨_, hans⟩]
      rfl
    · exact ⟨0, Nat.succ_pos bound, ha⟩

end ZipStormMX.Pipelined
