/-
  The wake-ups of `zipjiffies.v`.

  What the timer is for: a list of times that are waited for.  A time that is still to come when it
  is taken over is added, and when the counter reaches one of them there is an interrupt, which ends
  the wait for all (`waitingNext`).  The timer itself has one time register for the whole list, and
  it is to hold the earliest.

  Crux: the time register is compared with a new time on the very clock on which it is reached.  The
  new time is then the later of the two, so it is not kept, while `int_set` stays set for it: the
  timer goes on waiting for a time that has passed (`Strands`).
-/
import ZipStormMX.Clocked
import ZipStormMX.Peripheral.Timers

namespace ZipStormMX.Peripheral

/-- The inputs of `zipjiffies`. -/
structure JiffiesIn where
  iReset : Bool
  iCe : Bool
  w : WbReq

namespace Zipjiffies

/-! ## Times -/

/-- How far a time is ahead of the counter, as a signed number. -/
def ahead (c t : BitVec 32) : ℤ := (t - c).toInt

theorem ahead_self (c : BitVec 32) : ahead c c = 0 := by
  rw [ahead, BitVec.sub_self]
  rfl

theorem ahead_eq_zero {c t : BitVec 32} (h : ahead c t = 0) : t = c := by
  have hzero : t - c = 0 := BitVec.eq_of_toInt_eq h
  rw [← BitVec.sub_add_cancel t c, hzero]
  exact BitVec.zero_add c

/-- The counter comes one closer to a time ahead, and passes the one it is at. -/
theorem ahead_tick {c t : BitVec 32} (h : 0 ≤ ahead c t) : ahead (c + 1) t = ahead c t - 1 := by
  have hsub : t - (c + 1) = t - c - 1 := by bv_omega
  unfold ahead at h ⊢
  rw [hsub]
  generalize t - c = d at h ⊢
  have hone : (1 : BitVec 32).toInt = 1 := rfl
  have hd := d.toInt_lt
  rw [BitVec.toInt_sub, hone, Int.bmod_eq_of_le] <;> omega

/-! ## The times waited for -/

section Waiting

variable (s : Zipjiffies) (i : JiffiesIn) (l : List (BitVec 32))

/-- The times waited for after a clock. -/
def waitingNext : List (BitVec 32) :=
  if i.iReset then []
  else (if i.iCe && l.contains s.rCounter then [] else l) ++ if s.future then [s.newWhen] else []

/-- A wake-up fires on the clock on which a new time is taken over. -/
def Strands : Prop :=
  i.iReset = false ∧ i.iCe = true ∧ s.intSet = true ∧ s.rCounter = s.intWhen ∧ s.future = true

/-- The time register is not in the past, and holds the earliest of the times waited for. -/
structure Earliest : Prop where
  ahead : s.intSet = true → 0 ≤ ahead s.rCounter s.intWhen
  mem : s.intSet = true → s.intWhen ∈ l
  first : s.intSet = true → ∀ t ∈ l, Zipjiffies.ahead s.rCounter s.intWhen ≤ Zipjiffies.ahead s.rCounter t

/-- What the timer keeps: it waits if there is anything to wait for. -/
structure Waits : Prop extends Earliest s l where
  set : l ≠ [] → s.intSet = true

end Waiting

variable {s : Zipjiffies} {i : JiffiesIn} {l : List (BitVec 32)}

theorem future_iff : s.future = true ↔ s.newSet = true ∧ 0 < ahead s.rCounter s.newWhen := by
  rw [future, Bool.and_eq_true, BitVec.slt_iff_toInt_lt]
  rfl

/-- The time register is reached exactly when one of the times is. -/
theorem reached_iff (h : Waits s l) :
    s.rCounter ∈ l ↔ s.intSet = true ∧ s.rCounter = s.intWhen := by
  constructor
  · intro hmem
    have hset := h.set (List.ne_nil_of_mem hmem)
    have hfirst := h.first hset _ hmem
    rw [ahead_self] at hfirst
    have hzero := le_antisymm hfirst (h.ahead hset)
    exact ⟨hset, (ahead_eq_zero hzero).symm⟩
  · rintro ⟨hset, heq⟩
    rw [heq]
    exact h.mem hset

/-- The interrupt of a time reached, and of a time that is not ahead. -/
theorem oInt_next (h : Waits s l) : (s.next i.iReset i.iCe i.w).oInt = true ↔ i.iReset = false ∧
    ((i.iCe = true ∧ s.rCounter ∈ l) ∨ (s.newSet = true ∧ ahead s.rCounter s.newWhen ≤ 0)) := by
  have hpast : (s.tillWb.sle 0 = true) ↔ ahead s.rCounter s.newWhen ≤ 0 := BitVec.sle_iff_toInt_le
  rw [reached_iff h, ← hpast]
  show s.nextInt i.iReset i.iCe = true ↔ _
  rw [nextInt]
  cases i.iReset <;> cases i.iCe <;> cases s.intSet <;> simp

/-- The time register after a clock, outside of a reset. -/
theorem intWhen_next : (s.next i.iReset i.iCe i.w).intWhen =
    if s.future = true ∧ (ahead s.rCounter s.newWhen < ahead s.rCounter s.intWhen ∨ s.intSet = false)
    then s.newWhen else s.intWhen := by
  have hsooner : (s.tillWb.slt s.tillWhen = true) ↔
      ahead s.rCounter s.newWhen < ahead s.rCounter s.intWhen := BitVec.slt_iff_toInt_lt
  show (if s.future && (s.tillWb.slt s.tillWhen || !s.intSet) then s.newWhen else s.intWhen) = _
  simp only [Bool.and_eq_true, Bool.or_eq_true, Bool.not_eq_true', hsooner]

/-- A time ahead stays ahead until it is reached, and the others keep their distance from it. -/
theorem ahead_next (hr : i.iReset = false) {t : BitVec 32} (ht : 0 ≤ ahead s.rCounter t)
    (hne : i.iCe = true → t ≠ s.rCounter) : 0 ≤ ahead (s.next i.iReset i.iCe i.w).rCounter t ∧
      ahead (s.next i.iReset i.iCe i.w).rCounter t =
        ahead s.rCounter t - if i.iCe then 1 else 0 := by
  show 0 ≤ ahead (if i.iReset then 0 else if i.iCe then s.rCounter + 1 else s.rCounter) t ∧
    ahead (if i.iReset then 0 else if i.iCe then s.rCounter + 1 else s.rCounter) t = _
  rw [hr]
  cases hce : i.iCe with
  | false => exact ⟨ht, (Int.sub_zero _).symm⟩
  | true =>
    have hpos : 0 < ahead s.rCounter t := by
      rcases ht.lt_or_eq with hlt | heq
      · exact hlt
      · exact absurd (ahead_eq_zero heq.symm) (hne hce)
    have htick := ahead_tick ht
    refine ⟨?_, htick⟩
    show 0 ≤ ahead (s.rCounter + 1) t
    omega

/-- A clock on which a time is reached. -/
theorem waits_fire (h : Waits s l) (hr : i.iReset = false) (hs : ¬ Strands s i)
    (hce : i.iCe = true) (hmem : s.rCounter ∈ l) :
    Waits (s.next i.iReset i.iCe i.w) (waitingNext s i l) := by
  obtain ⟨hset, heq⟩ := (reached_iff h).1 hmem
  have hfuture : s.future = false := by
    by_contra hf
    exact hs ⟨hr, hce, hset, heq, by simpa using hf⟩
  have hset' : (s.next i.iReset i.iCe i.w).intSet = false := by
    show s.nextIntSet i.iReset i.iCe = false
    simp [nextIntSet, hr, hce, hfuture, heq]
  have hl : waitingNext s i l = [] := by
    simp [waitingNext, hr, hce, hfuture, hmem]
  rw [hl]
  refine ⟨⟨?_, ?_, ?_⟩, fun hne => absurd rfl hne⟩ <;>
    · intro h1
      rw [hset'] at h1
      cases h1

/-- A clock on which none is reached. -/
theorem waits_keep (h : Waits s l) (hr : i.iReset = false)
    (hnone : ¬ (i.iCe = true ∧ s.rCounter ∈ l)) :
    Waits (s.next i.iReset i.iCe i.w) (waitingNext s i l) := by
  have hl : waitingNext s i l = l ++ if s.future then [s.newWhen] else [] := by
    have hc : (i.iCe && l.contains s.rCounter) = false := by
      simpa using hnone
    rw [waitingNext, hr, hc]
    rfl
  -- the times waited for move on together
  have hold : ∀ t ∈ l, 0 ≤ ahead s.rCounter t := by
    intro t ht
    have hset := h.set (List.ne_nil_of_mem ht)
    exact le_trans (h.ahead hset) (h.first hset t ht)
  have hne : ∀ t ∈ l, i.iCe = true → t ≠ s.rCounter := by
    rintro t ht hce rfl
    exact hnone ⟨hce, ht⟩
  have hmove : ∀ t ∈ l, 0 ≤ ahead (s.next i.iReset i.iCe i.w).rCounter t ∧
      ahead (s.next i.iReset i.iCe i.w).rCounter t =
        ahead s.rCounter t - if i.iCe then 1 else 0 :=
    fun t ht => ahead_next hr (hold t ht) (hne t ht)
  rw [hl]
  cases hf : s.future with
  | false =>
    have hset' : (s.next i.iReset i.iCe i.w).intSet = s.intSet := by
      show s.nextIntSet i.iReset i.iCe = s.intSet
      rw [nextIntSet, hr, hf]
      cases hset : s.intSet with
      | false => simp
      | true =>
        cases hce : i.iCe with
        | false => simp
        | true =>
          have hnot : s.rCounter ≠ s.intWhen :=
            fun heq => hnone ⟨hce, (reached_iff h).2 ⟨hset, heq⟩⟩
          simpa using hnot
    have hwhen : (s.next i.iReset i.iCe i.w).intWhen = s.intWhen := by
      rw [intWhen_next, hf, if_neg fun hx => Bool.false_ne_true hx.1]
    simp only [Bool.false_eq_true, if_false, List.append_nil]
    constructor
    · constructor
      · intro h1
        rw [hset'] at h1
        rw [hwhen]
        exact (hmove _ (h.mem h1)).1
      · intro h1
        rw [hset'] at h1
        rw [hwhen]
        exact h.mem h1
      · intro h1 t ht
        rw [hset'] at h1
        rw [hwhen, (hmove _ (h.mem h1)).2, (hmove t ht).2]
        have := h.first h1 t ht
        omega
    · intro hne'
      rw [hset']
      exact h.set hne'
  | true =>
    obtain ⟨-, hpos⟩ := future_iff.1 hf
    have hset' : (s.next i.iReset i.iCe i.w).intSet = true := by
      show s.nextIntSet i.iReset i.iCe = true
      rw [nextIntSet, hr, hf]
      rfl
    have hnew := ahead_next (s := s) hr hpos.le fun _ heq => by
      rw [heq, ahead_self] at hpos
      exact absurd hpos (by decide)
    have hmem : ∀ t ∈ l ++ [s.newWhen], 0 ≤ ahead (s.next i.iReset i.iCe i.w).rCounter t ∧
        ahead (s.next i.iReset i.iCe i.w).rCounter t =
          ahead s.rCounter t - if i.iCe then 1 else 0 := by
      intro t ht
      rcases List.mem_append.1 ht with ht | ht
      · exact hmove t ht
      · rw [List.mem_singleton.1 ht]
        exact hnew
    simp only [if_true]
    suffices hwhen : (s.next i.iReset i.iCe i.w).intWhen ∈ l ++ [s.newWhen] ∧
        ∀ t ∈ l ++ [s.newWhen],
          ahead s.rCounter (s.next i.iReset i.iCe i.w).intWhen ≤ ahead s.rCounter t by
      refine ⟨⟨fun _ => (hmem _ hwhen.1).1, fun _ => hwhen.1, fun _ t ht => ?_⟩, fun _ => hset'⟩
      rw [(hmem _ hwhen.1).2, (hmem t ht).2]
      have := hwhen.2 t ht
      omega
    rw [intWhen_next, hf]
    split_ifs with hsooner
    · -- the new time is the earliest
      refine ⟨List.mem_append_right _ (List.mem_singleton_self _), fun t ht => ?_⟩
      rcases List.mem_append.1 ht with ht | ht
      · have hset := h.set (List.ne_nil_of_mem ht)
        rcases hsooner.2 with hlt | hnot
        · exact le_trans hlt.le (h.first hset t ht)
        · rw [hset] at hnot
          cases hnot
      · rw [List.mem_singleton.1 ht]
    · -- the time register stays the earliest
      have hset : s.intSet = true := by
        by_contra hnot
        exact hsooner ⟨rfl, Or.inr (by simpa using hnot)⟩
      have hle : ahead s.rCounter s.intWhen ≤ ahead s.rCounter s.newWhen := by
        by_contra hlt
        exact hsooner ⟨rfl, Or.inl (by omega)⟩
      refine ⟨List.mem_append_left _ (h.mem hset), fun t ht => ?_⟩
      rcases List.mem_append.1 ht with ht | ht
      · exact h.first hset t ht
      · rw [List.mem_singleton.1 ht]
        exact hle

/-- **One clock**: unless it strands a time, the timer keeps the earliest of the times. -/
theorem waits_next (h : Waits s l) (hs : ¬ Strands s i) :
    Waits (s.next i.iReset i.iCe i.w) (waitingNext s i l) := by
  cases hr : i.iReset with
  | true =>
    have hset : (s.next true i.iCe i.w).intSet = false := rfl
    have hl : waitingNext s i l = [] := by rw [waitingNext, hr]; rfl
    rw [hl]
    refine ⟨⟨?_, ?_, ?_⟩, fun hne => absurd rfl hne⟩ <;>
      · intro h1
        rw [hset] at h1
        cases h1
  | false =>
    rw [← hr]
    by_cases hfire : i.iCe = true ∧ s.rCounter ∈ l
    · exact waits_fire h hr hs hfire.1 hfire.2
    · exact waits_keep h hr hfire

/-- The clock of a stranded time leaves the time register in the past. -/
theorem strands_next (hs : Strands s i) : (s.next i.iReset i.iCe i.w).intSet = true ∧
    ahead (s.next i.iReset i.iCe i.w).rCounter (s.next i.iReset i.iCe i.w).intWhen < 0 := by
  obtain ⟨hr, hce, hset, heq, hf⟩ := hs
  have hpos := (future_iff.1 hf).2
  constructor
  · show s.nextIntSet i.iReset i.iCe = true
    rw [nextIntSet, hr, hf]
    rfl
  · have hwhen : (s.next i.iReset i.iCe i.w).intWhen = s.intWhen := by
      rw [intWhen_next, if_neg]
      rintro ⟨-, hlt | hnot⟩
      · rw [← heq, ahead_self] at hlt
        omega
      · rw [hset] at hnot
        cases hnot
    have hcount : (s.next i.iReset i.iCe i.w).rCounter = s.intWhen + 1 := by
      show (if i.iReset then 0 else if i.iCe then s.rCounter + 1 else s.rCounter) = _
      rw [hr, hce, heq]
      rfl
    rw [hwhen, hcount, ahead_tick (ahead_self _).ge, ahead_self]
    decide

/-! ## Runs -/

variable (x : ℕ → JiffiesIn)

/-- The timer at clock `n`. -/
def run (n : ℕ) : Zipjiffies :=
  Clocked.run (fun s (i : JiffiesIn) => s.next i.iReset i.iCe i.w) init x n

/-- The times that are waited for at clock `n`. -/
def waiting : ℕ → List (BitVec 32)
  | 0 => []
  | n + 1 => waitingNext (run x n) (x n) (waiting n)

/-- A time that is taken over at clock `n` raises the interrupt: at once if it is not ahead, and
    otherwise later, and no later than on the clock behind the one on which the counter reaches it. -/
def Answered (n : ℕ) : Prop :=
  (run x n).newSet = true → (x n).iReset = false →
    (ahead (run x n).rCounter (run x n).newWhen ≤ 0 → (run x (n + 1)).oInt = true) ∧
    (0 < ahead (run x n).rCounter (run x n).newWhen →
      ∀ m, n ≤ m → (∀ k, n ≤ k → k ≤ m → (x k).iReset = false) →
        (run x m).rCounter = (run x n).newWhen → (x m).iCe = true →
        ∃ k, n < k ∧ k ≤ m ∧ (run x (k + 1)).oInt = true)

/-- **No wake-up is forgotten.** -/
structure ForgetsNothing : Prop where
  earliest : ∀ n, Earliest (run x n) (waiting x n)
  answered : ∀ n, Answered x n

variable {x}

theorem waits (hs : ∀ n, ¬ Strands (run x n) (x n)) (n : ℕ) : Waits (run x n) (waiting x n) := by
  induction n with
  | zero =>
    have hset : (run x 0).intSet = false := rfl
    refine ⟨⟨?_, ?_, ?_⟩, fun hne => absurd rfl hne⟩ <;>
      · intro h1
        rw [hset] at h1
        cases h1
  | succ n ih => exact waits_next ih (hs n)

/-- A time is waited for until an interrupt. -/
theorem waiting_or_fired (hs : ∀ n, ¬ Strands (run x n) (x n)) {n : ℕ} {t : BitVec 32}
    (ht : t ∈ waiting x n) (d : ℕ) (hr : ∀ k, n ≤ k → k < n + d → (x k).iReset = false) :
    (∃ k, n ≤ k ∧ k < n + d ∧ (run x (k + 1)).oInt = true) ∨ t ∈ waiting x (n + d) := by
  induction d with
  | zero => exact Or.inr ht
  | succ d ih =>
    rcases ih fun k h1 h2 => hr k h1 (by omega) with ⟨k, h1, h2, h3⟩ | hmem
    · exact Or.inl ⟨k, h1, by omega, h3⟩
    · have hrd := hr (n + d) (by omega) (by omega)
      by_cases hfire : (x (n + d)).iCe = true ∧ (run x (n + d)).rCounter ∈ waiting x (n + d)
      · exact Or.inl ⟨n + d, by omega, by omega,
          (oInt_next (waits hs (n + d))).2 ⟨hrd, Or.inl hfire⟩⟩
      · right
        show t ∈ waitingNext (run x (n + d)) (x (n + d)) (waiting x (n + d))
        have hc : ((x (n + d)).iCe && (waiting x (n + d)).contains (run x (n + d)).rCounter) =
            false := by simpa using hfire
        rw [waitingNext, hrd, hc]
        exact List.mem_append_left _ hmem

theorem answered (hs : ∀ n, ¬ Strands (run x n) (x n)) (n : ℕ) : Answered x n := by
  intro hnew hr
  refine ⟨fun hle => (oInt_next (waits hs n)).2 ⟨hr, Or.inr ⟨hnew, hle⟩⟩, ?_⟩
  intro hpos m hnm hreset hcount hce
  have hlt : n < m := by
    rcases Nat.lt_or_eq_of_le hnm with hlt | rfl
    · exact hlt
    · rw [hcount, ahead_self] at hpos
      omega
  have hmem : (run x n).newWhen ∈ waiting x (n + 1) := by
    show _ ∈ waitingNext (run x n) (x n) (waiting x n)
    rw [waitingNext, hr, future_iff.2 ⟨hnew, hpos⟩]
    exact List.mem_append_right _ (List.mem_singleton_self _)
  obtain ⟨d, rfl⟩ := Nat.exists_eq_add_of_le (Nat.succ_le_of_lt hlt)
  rcases waiting_or_fired hs hmem d fun k h1 h2 => hreset k (by omega) (by omega) with
    ⟨k, h1, h2, h3⟩ | hwait
  · exact ⟨k, by omega, by omega, h3⟩
  · -- the counter reaches it
    refine ⟨n + 1 + d, by omega, le_refl _, ?_⟩
    refine (oInt_next (waits hs (n + 1 + d))).2 ⟨hreset _ hnm (le_refl _), Or.inl ⟨hce, ?_⟩⟩
    change (run x (n + 1 + d)).rCounter = _ at hcount
    rw [hcount]
    exact hwait

/-- **The jiffies timer** forgets no wake-up in a run if and only if no wake-up fires on a clock on
    which a time ahead is taken over. -/
theorem forgets_nothing_iff (x : ℕ → JiffiesIn) :
    ForgetsNothing x ↔ ∀ n, ¬ Strands (run x n) (x n) := by
  constructor
  · intro h n hs
    obtain ⟨hset, hpast⟩ := strands_next hs
    have hahead := (h.earliest (n + 1)).ahead hset
    exact absurd hahead (not_le.2 hpast)
  · intro hs
    exact ⟨fun n => (waits hs n).toEarliest, answered hs⟩

/-! ## A time that is forgotten -/

/-- The time 3 is written at clock 0, and the time 10 at clock 2: it is taken over at clock 3, on
    which the counter is 3. -/
def twoTimes : ℕ → JiffiesIn
  | 0 => { iReset := false, iCe := true, w := { stb := true, we := true, data := 3#32 } }
  | 2 => { iReset := false, iCe := true, w := { stb := true, we := true, data := 10#32 } }
  | _ => { iReset := false, iCe := true, w := { stb := false, we := false, data := 0#32 } }

/-- The second time is never waited for. -/
theorem time_forgotten : ¬ ForgetsNothing twoTimes := by
  intro h
  have hset : (run twoTimes 4).intSet = true := by decide
  have hahead := (h.earliest 4).ahead hset
  exact absurd hahead (by decide)

end Zipjiffies

end ZipStormMX.Peripheral
