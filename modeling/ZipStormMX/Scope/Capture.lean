/-
  What `wbscope` shows, and where the trigger is in it.

  A sample is written with the next one, so the memory lags one step of `i_ce` behind; but the scope
  stops on the clock after its counter has reached the holdoff, whether `i_ce` is high or not.  The
  crux: the last sample that belongs in the memory is still on its way then, and gets there only if
  `i_ce` is high on that very clock (`Timely`).

    * `Records`      the memory while the scope records: the last samples but one.
    * `shows`        which sample each read returns.
    * `places_iff`   when the trigger is where the host looks for it.
-/
import Mathlib.Data.Nat.Find
import ZipStormMX.Scope.Wbscope

namespace ZipStormMX.Scope

/-! ## Samples -/

/-- The samples taken before clock `t`. -/
def samples (x : ℕ → WbscopeIn) (t : ℕ) : List (BitVec 32) :=
  (Clocked.clocks (fun n => (x n).iCe) t).map fun n => (x n).iData

/-- The number of samples taken before clock `t`. -/
def sampled (x : ℕ → WbscopeIn) (t : ℕ) : ℕ := (samples x t).length

section Samples

variable {x : ℕ → WbscopeIn}

theorem samples_succ (x : ℕ → WbscopeIn) (t : ℕ) :
    samples x (t + 1) = samples x t ++ if (x t).iCe then [(x t).iData] else [] := by
  rw [samples, Clocked.clocks_succ, List.map_append]
  cases (x t).iCe <;> rfl

theorem sampled_succ (x : ℕ → WbscopeIn) (t : ℕ) :
    sampled x (t + 1) = sampled x t + (x t).iCe.toNat := by
  rw [sampled, samples_succ, List.length_append]
  cases (x t).iCe <;> rfl

theorem sampled_mono {a b : ℕ} (h : a ≤ b) : sampled x a ≤ sampled x b := by
  induction b, h using Nat.le_induction with
  | base => exact Nat.le_refl _
  | succ b _ ih =>
    rw [sampled_succ]
    omega

/-- A sample keeps its number. -/
theorem samples_get {a b k : ℕ} (h : a ≤ b) (hk : k < sampled x a) :
    (samples x b)[k]? = (samples x a)[k]? := by
  induction b, h using Nat.le_induction with
  | base => rfl
  | succ b hb ih =>
    have hlt : k < (samples x b).length := Nat.lt_of_lt_of_le hk (sampled_mono hb)
    rw [samples_succ, List.getElem?_append_left hlt, ih]

/-- A number of samples that has been passed was reached with some sample. -/
theorem sampled_reaches {a b n : ℕ} (ha : sampled x a ≤ n) (hb : n < sampled x b) :
    ∃ e, a ≤ e ∧ e < b ∧ (x e).iCe = true ∧ sampled x (e + 1) = n + 1 := by
  have hab : a ≤ b := by
    by_contra hlt
    have := sampled_mono (x := x) (by omega : b ≤ a)
    omega
  induction b, hab using Nat.le_induction with
  | base => omega
  | succ b hab ih =>
    by_cases hn : n < sampled x b
    · obtain ⟨e, hae, heb, hce, he⟩ := ih hn
      exact ⟨e, hae, by omega, hce, he⟩
    · have hlast := sampled_succ x b
      cases hce : (x b).iCe
      · rw [hce, Bool.toNat_false] at hlast
        omega
      · rw [hce, Bool.toNat_true] at hlast
        exact ⟨b, hab, Nat.lt_succ_self b, hce, by omega⟩

end Samples

/-! ## Addresses -/

theorem ofNat_ne_of_lt {w a b : ℕ} (hlt : a < b) (hgt : b < a + 2 ^ w) :
    BitVec.ofNat w a ≠ BitVec.ofNat w b := by
  intro h
  have hmod : a % 2 ^ w = b % 2 ^ w := by
    rw [← BitVec.toNat_ofNat, ← BitVec.toNat_ofNat, h]
  have hdvd : 2 ^ w ∣ b - a := (Nat.modEq_iff_dvd' (Nat.le_of_lt hlt)).mp hmod
  have := Nat.le_of_dvd (by omega) hdvd
  omega

theorem ofNat_add_two_pow (w a : ℕ) : BitVec.ofNat w (a + 2 ^ w) = BitVec.ofNat w a := by
  apply BitVec.eq_of_toNat_eq
  rw [BitVec.toNat_ofNat, BitVec.toNat_ofNat, Nat.add_mod_right]

theorem ofNat_succ (w a : ℕ) : BitVec.ofNat w (a + 1) = BitVec.ofNat w a + 1 := BitVec.ofNat_add a 1

/-- The last address of the first time around. -/
theorem ofNat_eq_allOnes {w a : ℕ} (h : a < 2 ^ w) :
    BitVec.ofNat w a = BitVec.allOnes w ↔ 2 ^ w ≤ a + 1 := by
  rw [← BitVec.toNat_inj, BitVec.toNat_ofNat, BitVec.toNat_allOnes, Nat.mod_eq_of_lt h]
  omega

namespace Wbscope

/-! ## While the scope records -/

section Recording

variable {c : WbscopeCfg}

/-- The scope has taken the samples `l`, and all but the last have been written. -/
structure Records (s : Wbscope c.lgmem) (l : List (BitVec 32)) (h : ℕ) : Prop where
  run : s.brRun = true
  holdoff : s.brHoldoff = h
  waddr : s.waddr = BitVec.ofNat c.lgmem l.length
  primed : s.drPrimed = true ↔ 2 ^ c.lgmem ≤ l.length
  pipe : ∀ k, l.length = k + 1 → l[k]? = some s.dataPipe
  mem : ∀ k, k + 1 < l.length → l.length ≤ k + 1 + 2 ^ c.lgmem →
    l[k]? = some (s.mem (BitVec.ofNat c.lgmem (k + 1)))
  raddr : s.raddr = 0

theorem AfterReset.records {s : Wbscope c.lgmem} (h : AfterReset c s) : Records s [] s.brHoldoff where
  run := h.run
  holdoff := rfl
  waddr := h.waddr
  primed := by
    have hpos := Nat.two_pow_pos c.lgmem
    rw [h.primed, List.length_nil]
    constructor
    · exact fun hno => absurd hno Bool.false_ne_true
    · intro hle
      omega
  pipe := fun k hk => absurd hk (Nat.zero_ne_add_one k)
  mem := fun k hk => absurd hk (Nat.not_lt_zero _)
  raddr := h.raddr

/-- One clock of recording. -/
theorem Records.next {s : Wbscope c.lgmem} {l : List (BitVec 32)} {h : ℕ} (hrec : Records s l h)
    {i : WbscopeIn} (hasks : i.asksReset = false) (hstop : s.drStopped = false) :
    Records (Wbscope.next c s i) (l ++ if i.iCe then [i.iData] else []) h := by
  obtain ⟨hrun', hhold'⟩ := keeps_running hrec.run hasks
  have hreset : dwReset c s = false := by
    rw [dwReset, hrec.run]
    rfl
  have hraddr : (Wbscope.next c s i).raddr = 0 := by
    show (if dwReset c s || i.writeToControl then _ else if i.readFromData && s.drStopped then _
      else s.raddr) = (0 : BitVec c.lgmem)
    rw [hstop, Bool.and_false, if_neg Bool.false_ne_true, hrec.raddr, ite_self]
  have hwaddr : (Wbscope.next c s i).waddr = if i.iCe then s.waddr + 1 else s.waddr := by
    show (if dwReset c s then _ else if i.iCe && !s.drStopped then _ else _) = _
    rw [hreset, hstop, Bool.not_false, Bool.and_true, if_neg Bool.false_ne_true]
  have hprimed : (Wbscope.next c s i).drPrimed =
      if i.iCe && !s.drPrimed then s.waddr == BitVec.allOnes c.lgmem else s.drPrimed := by
    show (if dwReset c s then _ else if i.iCe && !s.drStopped && !s.drPrimed then _ else _) = _
    rw [hreset, hstop, Bool.not_false, Bool.and_true, if_neg Bool.false_ne_true]
  have hpipe : (Wbscope.next c s i).dataPipe = if i.iCe then i.iData else s.dataPipe := rfl
  have hmem : (Wbscope.next c s i).mem =
      if i.iCe then fun a => if a = s.waddr then s.dataPipe else s.mem a else s.mem := by
    show (if i.iCe && !s.drStopped then _ else _) = _
    rw [hstop, Bool.not_false, Bool.and_true]
  cases hce : i.iCe
  · -- nothing moves
    rw [hce, if_neg Bool.false_ne_true] at hwaddr hpipe hmem
    rw [hce, Bool.false_and, if_neg Bool.false_ne_true] at hprimed
    rw [if_neg Bool.false_ne_true, List.append_nil]
    exact ⟨hrun', hhold'.trans hrec.holdoff, hwaddr.trans hrec.waddr,
      by rw [hprimed]; exact hrec.primed, by rw [hpipe]; exact hrec.pipe,
      by rw [hmem]; exact hrec.mem, hraddr⟩
  · -- the sample before this one is written
    rw [hce, if_pos rfl] at hwaddr hpipe hmem
    rw [hce, Bool.true_and] at hprimed
    rw [if_pos rfl]
    have hlen : (l ++ [i.iData]).length = l.length + 1 := List.length_append
    refine ⟨hrun', hhold'.trans hrec.holdoff, ?_, ?_, fun k hk => ?_, fun k hk hle => ?_, hraddr⟩
    · rw [hwaddr, hrec.waddr, hlen, ofNat_succ]
    · rw [hprimed, hlen]
      cases hfull : s.drPrimed
      · have hlt : l.length < 2 ^ c.lgmem := by
          by_contra hge
          rw [hrec.primed.mpr (by omega)] at hfull
          exact absurd hfull (by decide)
        rw [Bool.not_false, if_pos rfl, beq_iff_eq, hrec.waddr]
        exact ofNat_eq_allOnes hlt
      · have := hrec.primed.mp hfull
        rw [Bool.not_true, if_neg Bool.false_ne_true]
        exact iff_of_true rfl (by omega)
    · have hk' : k = l.length := by omega
      rw [hpipe, hk', List.getElem?_concat_length]
    · rw [hmem, List.getElem?_append_left (by omega)]
      by_cases hlast : k + 1 = l.length
      · rw [hrec.pipe k hlast.symm, hlast, hrec.waddr]
        exact congrArg some (if_pos rfl).symm
      · rw [hrec.mem k (by omega) (by omega), hrec.waddr]
        exact congrArg some (if_neg (ofNat_ne_of_lt (by omega) (by omega))).symm

end Recording

/-! ## The trigger and the stop -/

section Runs

variable {c : WbscopeCfg}

/-- The trigger is seen. -/
def fires (c : WbscopeCfg) (s : ℕ → Wbscope c.lgmem) (x : ℕ → WbscopeIn) (t : ℕ) : Bool :=
  (x t).iCe && dwTrigger c (s t) (x t)

/-- The trigger is first seen on clock `t₀`. -/
structure Triggers (c : WbscopeCfg) (s : ℕ → Wbscope c.lgmem) (x : ℕ → WbscopeIn) (t₀ : ℕ) :
    Prop where
  fires : fires c s x t₀ = true
  first : ∀ t < t₀, Wbscope.fires c s x t = false

/-- On clock `e` the sample is taken that comes `h` samples after the one of clock `t₀`. -/
structure HoldsOff (x : ℕ → WbscopeIn) (t₀ h e : ℕ) : Prop where
  later : t₀ ≤ e
  iCe : (x e).iCe = true
  count : sampled x (e + 1) = sampled x t₀ + 1 + h

/-- A run after a reset, with the holdoff `h`, that is not reset again. -/
structure Captures (c : WbscopeCfg) (s : ℕ → Wbscope c.lgmem) (x : ℕ → WbscopeIn) (h : ℕ) :
    Prop where
  step : ∀ t, s (t + 1) = next c (s t) (x t)
  start : AfterReset c (s 0)
  holdoff : (s 0).brHoldoff = h
  asks : ∀ t, (x t).asksReset = false
  wide : 1 < c.holdoffbits

namespace Captures

variable {s : ℕ → Wbscope c.lgmem} {x : ℕ → WbscopeIn} {h t₀ e : ℕ}

theorem running (hrun : Captures c s x h) (t : ℕ) : (s t).brRun = true ∧ (s t).brHoldoff = h := by
  induction t with
  | zero => exact ⟨hrun.start.run, hrun.holdoff⟩
  | succ t ih =>
    obtain ⟨hrun', hhold'⟩ := keeps_running ih.1 (hrun.asks t)
    rw [hrun.step]
    exact ⟨hrun', hhold'.trans ih.2⟩

theorem not_reset (hrun : Captures c s x h) (t : ℕ) : dwReset c (s t) = false := by
  rw [dwReset, (hrun.running t).1]
  rfl

/-- The trigger flag, the counter and the stop flag of the next clock. -/
theorem flags_next (hrun : Captures c s x h) (t : ℕ) :
    (s (t + 1)).drTriggered = (fires c s x t || (s t).drTriggered) ∧
    (s (t + 1)).counter = (if (x t).iCe && (s t).drTriggered && !(s t).drStopped then
      ((s t).counter + 1) % 2 ^ c.holdoffbits else (s t).counter) ∧
    (s (t + 1)).drStopped = ((s t).drTriggered && decide (h ≤ (s t).counter)) := by
  rw [hrun.step]
  refine ⟨?_, ?_, ?_⟩
  · show (if dwReset c (s t) then false else if (x t).iCe && dwTrigger c (s t) (x t) then true
      else (s t).drTriggered) = _
    rw [hrun.not_reset, if_neg Bool.false_ne_true, fires]
    cases (x t).iCe && dwTrigger c (s t) (x t) <;> rfl
  · show (if dwReset c (s t) then 0 else _) = _
    rw [hrun.not_reset, if_neg Bool.false_ne_true]
  · show (if !(s t).drTriggered || dwReset c (s t) then false
      else if 1 < c.holdoffbits then decide ((s t).counter ≥ (s t).brHoldoff) else _) = _
    rw [hrun.not_reset, Bool.or_false, if_pos hrun.wide, (hrun.running t).2]
    cases (s t).drTriggered <;> rfl

theorem holdoff_lt (hrun : Captures c s x h) : h < 2 ^ c.holdoffbits :=
  hrun.holdoff ▸ hrun.start.holdoff

/-- While the scope has not stopped it records. -/
theorem records (hrun : Captures c s x h) (t : ℕ) (hgo : ∀ u < t, (s u).drStopped = false) :
    Records (s t) (samples x t) h := by
  induction t with
  | zero => exact hrun.holdoff ▸ hrun.start.records
  | succ t ih =>
    rw [hrun.step, samples_succ]
    exact (ih fun u hu => hgo u (by omega)).next (hrun.asks t) (hgo t (Nat.lt_succ_self t))

/-- Up to the trigger. -/
theorem before (hrun : Captures c s x h) {t : ℕ} (hfirst : ∀ u < t, fires c s x u = false) :
    (s t).drTriggered = false ∧ (s t).counter = 0 ∧ (s t).drStopped = false := by
  induction t with
  | zero => exact ⟨hrun.start.triggered, hrun.start.counter, hrun.start.stopped⟩
  | succ t ih =>
    obtain ⟨htrig, hcount, -⟩ := ih fun u hu => hfirst u (by omega)
    obtain ⟨htrig', hcount', hstop'⟩ := hrun.flags_next t
    rw [htrig', hcount', hstop', htrig, hcount, hfirst t (Nat.lt_succ_self t), Bool.and_false,
      Bool.false_and]
    exact ⟨rfl, rfl, rfl⟩

/-- From the trigger on, the counter counts the samples until the scope stops. -/
theorem counts (hrun : Captures c s x h) (htrig : Triggers c s x t₀) {t : ℕ} (ht : t₀ < t)
    (hgo : ∀ u < t, (s u).drStopped = false) :
    (s t).drTriggered = true ∧
    (s t).counter = (sampled x t - sampled x (t₀ + 1)) % 2 ^ c.holdoffbits := by
  induction t, ht using Nat.le_induction with
  | base =>
    obtain ⟨hno, hzero, -⟩ := hrun.before htrig.first
    obtain ⟨htrig', hcount', -⟩ := hrun.flags_next t₀
    rw [htrig', hcount', htrig.fires, hno, hzero, Bool.and_false, Bool.false_and, Nat.sub_self]
    exact ⟨rfl, (Nat.zero_mod _).symm⟩
  | succ t ht ih =>
    obtain ⟨htrig₁, hcount⟩ := ih fun u hu => hgo u (by omega)
    obtain ⟨htrig', hcount', -⟩ := hrun.flags_next t
    rw [htrig', hcount', htrig₁, hgo t (Nat.lt_succ_self t), hcount, sampled_succ x t,
      Bool.or_true, Bool.and_true, Bool.not_false, Bool.and_true]
    refine ⟨rfl, ?_⟩
    have hmono : sampled x (t₀ + 1) ≤ sampled x t := sampled_mono ht
    cases (x t).iCe
    · rfl
    · rw [if_pos rfl, Nat.mod_add_mod, Bool.toNat_true]
      congr 1
      omega

/-- The scope records up to the clock after the last sample. -/
theorem goes (hrun : Captures c s x h) (htrig : Triggers c s x t₀) (hoff : HoldsOff x t₀ h e) :
    ∀ t ≤ e + 1, (s t).drStopped = false := by
  obtain ⟨hlater, hce, hcount⟩ := hoff
  have hlast := sampled_succ x e
  rw [hce, Bool.toNat_true] at hlast
  have hfirst := sampled_succ x t₀
  rw [((Bool.and_eq_true _ _).mp htrig.fires).1, Bool.toNat_true] at hfirst
  intro t
  induction t using Nat.strong_induction_on with
  | _ t ih =>
    intro ht
    by_cases hbefore : t ≤ t₀
    · exact (hrun.before fun u hu => htrig.first u (by omega)).2.2
    · obtain ⟨u, rfl⟩ := Nat.exists_eq_add_of_lt (by omega : t₀ < t)
      have hgo : ∀ v ≤ t₀ + u, (s v).drStopped = false := fun v hv => ih v (by omega) (by omega)
      rw [(hrun.flags_next (t₀ + u)).2.2]
      by_cases hu : u = 0
      · subst hu
        rw [Nat.add_zero, (hrun.before htrig.first).1]
        rfl
      · -- the counter has not come to the holdoff
        obtain ⟨-, hcounter⟩ := hrun.counts htrig (t := t₀ + u) (by omega)
          fun v hv => hgo v (by omega)
        have hle := sampled_mono (x := x) (by omega : t₀ + u ≤ e)
        have hle' := Nat.mod_le (sampled x (t₀ + u) - sampled x (t₀ + 1)) (2 ^ c.holdoffbits)
        have hge := sampled_mono (x := x) (by omega : t₀ + 1 ≤ e)
        rw [decide_eq_false (by omega), Bool.and_false]

/-- The scope stops two clocks after the last sample; on the clock between, one more may be taken. -/
theorem stops (hrun : Captures c s x h) (htrig : Triggers c s x t₀) (hoff : HoldsOff x t₀ h e) :
    (s (e + 2)).drTriggered = true ∧ (s (e + 2)).drStopped = true ∧
    (s (e + 2)).counter = (h + (x (e + 1)).iCe.toNat) % 2 ^ c.holdoffbits := by
  have hgo := hrun.goes htrig hoff
  have hfirst := sampled_succ x t₀
  rw [((Bool.and_eq_true _ _).mp htrig.fires).1, Bool.toNat_true] at hfirst
  obtain ⟨hlater, -, hcount⟩ := hoff
  obtain ⟨htrig₁, hcounter⟩ := hrun.counts htrig (t := e + 1) (by omega)
    fun v hv => hgo v (by omega)
  rw [hcount, hfirst, Nat.add_sub_cancel_left, Nat.mod_eq_of_lt hrun.holdoff_lt] at hcounter
  obtain ⟨htrig', hcount', hstop'⟩ := hrun.flags_next (e + 1)
  rw [htrig', hcount', hstop', htrig₁, hcounter, hgo (e + 1) (Nat.le_refl _), Bool.or_true,
    Bool.and_true, Bool.not_false, Bool.and_true, decide_eq_true (Nat.le_refl h)]
  refine ⟨rfl, rfl, ?_⟩
  cases (x (e + 1)).iCe
  · exact (Nat.mod_eq_of_lt hrun.holdoff_lt).symm
  · rfl

/-- If the counter does not wrap around on that clock, the scope has stopped for good. -/
theorem stays (hrun : Captures c s x h) (htrig : Triggers c s x t₀) (hoff : HoldsOff x t₀ h e)
    (hroom : h + 1 < 2 ^ c.holdoffbits ∨ (x (e + 1)).iCe = false) {t : ℕ} (ht : e + 2 ≤ t) :
    (s t).drTriggered = true ∧ (s t).drStopped = true ∧ h ≤ (s t).counter := by
  induction t, ht using Nat.le_induction with
  | base =>
    obtain ⟨htrig₁, hstop, hcounter⟩ := hrun.stops htrig hoff
    refine ⟨htrig₁, hstop, ?_⟩
    rw [hcounter]
    have hlt := hrun.holdoff_lt
    rcases hroom with hroom | hlow
    · have := Bool.toNat_le (x (e + 1)).iCe
      rw [Nat.mod_eq_of_lt (by omega)]
      omega
    · rw [hlow, Bool.toNat_false, Nat.mod_eq_of_lt (by omega)]
      omega
  | succ t _ ih =>
    obtain ⟨htrig₁, hstop, hge⟩ := ih
    obtain ⟨htrig', hcount', hstop'⟩ := hrun.flags_next t
    rw [htrig', hcount', hstop', htrig₁, hstop, Bool.or_true, Bool.and_true, Bool.not_true,
      Bool.and_false, if_neg Bool.false_ne_true, decide_eq_true hge]
    exact ⟨rfl, rfl, hge⟩

/-- If it does, the scope goes on recording. -/
theorem goes_on (hrun : Captures c s x h) (htrig : Triggers c s x t₀) (hoff : HoldsOff x t₀ h e)
    (hwrap : ¬(h + 1 < 2 ^ c.holdoffbits ∨ (x (e + 1)).iCe = false)) :
    (s (e + 3)).drStopped = false := by
  rw [not_or, Bool.not_eq_false] at hwrap
  obtain ⟨hfull, hce⟩ := hwrap
  obtain ⟨-, -, hcounter⟩ := hrun.stops htrig hoff
  have hlt := hrun.holdoff_lt
  have hpos : 2 ^ 1 < 2 ^ c.holdoffbits := Nat.pow_lt_pow_right (by decide) hrun.wide
  have hwide : h + 1 = 2 ^ c.holdoffbits := by omega
  rw [hce, Bool.toNat_true, hwide, Nat.mod_self] at hcounter
  rw [(hrun.flags_next (e + 2)).2.2, hcounter, decide_eq_false (by omega), Bool.and_false]

/-- The scope stops only so. -/
theorem stopped_only (hrun : Captures c s x h) {t : ℕ} (hstop : (s t).drStopped = true) :
    ∃ t₀ e, Triggers c s x t₀ ∧ HoldsOff x t₀ h e ∧ e + 2 ≤ t := by
  classical
  -- the clock on which it first stops
  have hex : ∃ u, (s u).drStopped = true := ⟨t, hstop⟩
  have hle : Nat.find hex ≤ t := Nat.find_min' hex hstop
  have hgo : ∀ u < Nat.find hex, (s u).drStopped = false :=
    fun u hu => Bool.eq_false_iff.mpr (Nat.find_min hex hu)
  obtain ⟨u, hu⟩ : ∃ u, Nat.find hex = u + 1 := by
    refine Nat.exists_eq_succ_of_ne_zero fun hzero => ?_
    have := Nat.find_spec hex
    rw [hzero, hrun.start.stopped] at this
    exact absurd this Bool.false_ne_true
  have hspec := Nat.find_spec hex
  rw [hu] at hspec hgo hle
  rw [(hrun.flags_next u).2.2, Bool.and_eq_true, decide_eq_true_eq] at hspec
  obtain ⟨htriggered, hge⟩ := hspec
  -- the clock on which the trigger is first seen
  have hfires : ∃ v, v < u ∧ fires c s x v = true := by
    by_contra hno
    rw [(hrun.before fun v hv => Bool.eq_false_iff.mpr fun hv' => hno ⟨v, hv, hv'⟩).1]
      at htriggered
    exact absurd htriggered Bool.false_ne_true
  obtain ⟨hlt, hfire⟩ := Nat.find_spec hfires
  have htrig : Triggers c s x (Nat.find hfires) := by
    refine ⟨hfire, fun v hv => Bool.eq_false_iff.mpr fun hv' => ?_⟩
    exact Nat.find_min hfires hv ⟨by omega, hv'⟩
  generalize Nat.find hfires = t₀ at hlt hfire htrig
  have hce := ((Bool.and_eq_true _ _).mp hfire).1
  have hfirst := sampled_succ x t₀
  rw [hce, Bool.toNat_true] at hfirst
  obtain ⟨-, hcounter⟩ := hrun.counts htrig hlt fun v hv => hgo v (by omega)
  have hmod := Nat.mod_le (sampled x u - sampled x (t₀ + 1)) (2 ^ c.holdoffbits)
  by_cases hzero : h = 0
  · exact ⟨t₀, t₀, htrig, ⟨Nat.le_refl _, hce, by omega⟩, by omega⟩
  · obtain ⟨e, hle', hlt', hce', hcount⟩ := sampled_reaches (x := x) (a := t₀ + 1) (b := u)
      (n := sampled x t₀ + h) (by omega) (by omega)
    exact ⟨t₀, e, htrig, ⟨by omega, hce', by omega⟩, by omega⟩

end Captures

/-! ## Reading -/

/-- The reads of the data register from clock `n` on. -/
def readsFrom (x : ℕ → WbscopeIn) (n t : ℕ) : Bool := decide (n ≤ t) && (x t).readFromData

/-- The clocks `r 0`, `r 1`, … are those of successive reads from clock `n` on, with no write to the
control register in between or after. -/
structure Reads (c : WbscopeCfg) (x : ℕ → WbscopeIn) (n : ℕ) (r : ℕ → ℕ) : Prop where
  read : ∀ j < 2 ^ c.lgmem, readsFrom x n (r j) = true
  count : ∀ j < 2 ^ c.lgmem, (Clocked.clocks (readsFrom x n) (r j)).length = j
  quiet : ∀ t, r 0 ≤ t → (x t).writeToControl = false

/-- The number of the sample that read `j` returns. -/
def shown (c : WbscopeCfg) (x : ℕ → WbscopeIn) (k₀ h e j : ℕ) : ℕ :=
  if j = 0 ∧ (x (e + 2)).readFromData = true then
    -- the address was made on the clock before the scope stopped
    if (x (e + 1)).readFromData then k₀ + h + 1 - 2 ^ c.lgmem
    else if (x (e + 1)).iCe then k₀ + h else k₀ + h - 2 ^ c.lgmem
  else k₀ + h + (x (e + 1)).iCe.toNat - 2 ^ c.lgmem + j

namespace Captures

variable {s : ℕ → Wbscope c.lgmem} {x : ℕ → WbscopeIn} {h t₀ e : ℕ} {r : ℕ → ℕ}

theorem readsFrom_eq {n t : ℕ} (ht : n ≤ t) : readsFrom x n t = (x t).readFromData := by
  rw [readsFrom, decide_eq_true ht, Bool.true_and]

/-- A read is no write. -/
theorem not_read_of_write {i : WbscopeIn} (hwrite : i.writeToControl = true) :
    i.readFromData = false := by
  simp only [WbscopeIn.writeToControl, WbscopeIn.readFromData, Bool.and_eq_true,
    Bool.not_eq_true'] at hwrite ⊢
  rw [hwrite.1.2, Bool.not_true, Bool.and_false, Bool.false_and]

/-- Memory stands still while the scope is stopped. -/
theorem rests (hrun : Captures c s x h) {t : ℕ} (hstop : (s t).drStopped = true) :
    (s (t + 1)).mem = (s t).mem ∧ (s (t + 1)).waddr = (s t).waddr := by
  have hno : Wbscope.records c (s t) (x t) = false := by
    rw [Wbscope.records, hstop, Bool.not_true, Bool.and_false]
  rw [hrun.step]
  constructor
  · show (if Wbscope.records c (s t) (x t) then _ else _) = _
    rw [hno, if_neg Bool.false_ne_true]
  · show (if dwReset c (s t) then _ else if Wbscope.records c (s t) (x t) then _ else _) = _
    rw [hrun.not_reset, hno, if_neg Bool.false_ne_true, if_neg Bool.false_ne_true]

theorem none_yet {n t : ℕ} (ht : t ≤ n) : (Clocked.clocks (readsFrom x n) t).length = 0 := by
  rw [List.length_eq_zero_iff, List.eq_nil_iff_forall_not_mem]
  intro k hk
  rw [Clocked.mem_clocks, readsFrom, Bool.and_eq_true, decide_eq_true_eq] at hk
  omega

/-- No read has come before the first. -/
theorem none_before {n : ℕ} (hreads : Reads c x n r) {t : ℕ} (ht : t ≤ r 0) :
    (Clocked.clocks (readsFrom x n) t).length = 0 := by
  have hle := (Clocked.clocks_mono (readsFrom x n) ht).length_le
  rw [hreads.count 0 (Nat.two_pow_pos _)] at hle
  omega

/-- The read pointer and the two addresses, `t` clocks into the stop. -/
structure Reading (c : WbscopeCfg) (s : ℕ → Wbscope c.lgmem) (x : ℕ → WbscopeIn) (e t : ℕ) : Prop where
  mem : (s t).mem = (s (e + 2)).mem
  waddr : (s t).waddr = (s (e + 2)).waddr
  raddr : (s t).raddr = BitVec.ofNat c.lgmem (Clocked.clocks (readsFrom x (e + 2)) t).length
  thisAddr : e + 2 < t → (s t).thisAddr = (s t).raddr + (s t).waddr

theorem reading (hrun : Captures c s x h) (htrig : Triggers c s x t₀) (hoff : HoldsOff x t₀ h e)
    (hstays : ∀ t, e + 2 ≤ t → (s t).drStopped = true) (hreads : Reads c x (e + 2) r) {t : ℕ}
    (ht : e + 2 ≤ t) : Reading c s x e t := by
  induction t, ht using Nat.le_induction with
  | base =>
    have hrec := hrun.records (e + 2) fun u hu => hrun.goes htrig hoff u (by omega)
    exact ⟨rfl, rfl, by rw [none_yet (Nat.le_refl _)]; exact hrec.raddr,
      fun hlt => absurd hlt (Nat.lt_irrefl _)⟩
  | succ t ht ih =>
    obtain ⟨hmem, hwaddr⟩ := hrun.rests (hstays t ht)
    have hraddr' : (s (t + 1)).raddr = if (x t).writeToControl then 0
        else if (x t).readFromData then (s t).raddr + 1 else (s t).raddr := by
      rw [hrun.step]
      show (if dwReset c (s t) || _ then _ else if _ && (s t).drStopped then _ else _) = _
      rw [hrun.not_reset, Bool.false_or, hstays t ht, Bool.and_true]
    have hthis' : (s (t + 1)).thisAddr = if (x t).readFromData then
        (s t).raddr + (s t).waddr + 1 else (s t).raddr + (s t).waddr := by
      rw [hrun.step]
      rfl
    have hcount : (Clocked.clocks (readsFrom x (e + 2)) (t + 1)).length =
        (Clocked.clocks (readsFrom x (e + 2)) t).length + (x t).readFromData.toNat := by
      rw [Clocked.clocks_succ, List.length_append, readsFrom_eq ht]
      cases (x t).readFromData <;> rfl
    cases hwrite : (x t).writeToControl
    · rw [hwrite, if_neg Bool.false_ne_true] at hraddr'
      cases hread : (x t).readFromData
      · rw [hread, if_neg Bool.false_ne_true] at hraddr' hthis'
        rw [hread, Bool.toNat_false, Nat.add_zero] at hcount
        exact ⟨hmem.trans ih.mem, hwaddr.trans ih.waddr,
          by rw [hraddr', hcount]; exact ih.raddr, fun _ => by rw [hthis', hraddr', hwaddr]⟩
      · rw [hread, if_pos rfl] at hraddr' hthis'
        rw [hread, Bool.toNat_true] at hcount
        exact ⟨hmem.trans ih.mem, hwaddr.trans ih.waddr,
          by rw [hraddr', hcount, ih.raddr, ofNat_succ],
          fun _ => by rw [hthis', hraddr', hwaddr, add_right_comm]⟩
    · -- the pointer has not moved yet, and is cleared again
      have hearly : t < r 0 := by
        by_contra hge
        rw [hreads.quiet t (by omega)] at hwrite
        exact absurd hwrite Bool.false_ne_true
      have hzero : (s t).raddr = 0 := by
        rw [ih.raddr, none_before hreads (Nat.le_of_lt hearly)]
        rfl
      rw [hwrite, if_pos rfl] at hraddr'
      rw [not_read_of_write hwrite, if_neg Bool.false_ne_true] at hthis'
      exact ⟨hmem.trans ih.mem, hwaddr.trans ih.waddr,
        by rw [hraddr', none_before hreads hearly]; rfl,
        fun _ => by rw [hthis', hraddr', hwaddr, hzero]⟩

/-- A read returns the word that `this_addr` points to, two clocks later. -/
theorem returns (hrun : Captures c s x h) {t : ℕ} (hread : (x t).readFromData = true)
    (hstop : (s (t + 1)).drStopped = true) :
    (s (t + 2)).oBusData = (s t).mem (s t).thisAddr := by
  have haddr : (s (t + 1)).readAddress = true := by
    rw [hrun.step]
    rw [WbscopeIn.readFromData, Bool.and_eq_true] at hread
    exact hread.2
  have hnxt : (s (t + 1)).nxtMem = (s t).mem (s t).thisAddr := by
    rw [hrun.step]
    rfl
  rw [hrun.step (t + 1)]
  show (if !(s (t + 1)).readAddress then _ else if !(s (t + 1)).drStopped then _ else _) = _
  rw [haddr, hstop, Bool.not_true, if_neg Bool.false_ne_true, if_neg Bool.false_ne_true, hnxt]

/-- The memory is full when the trigger is seen. -/
theorem full (hrun : Captures c s x h) (htrig : Triggers c s x t₀) :
    2 ^ c.lgmem ≤ sampled x t₀ := by
  have hrec := hrun.records t₀ fun u hu =>
    (hrun.before fun v hv => htrig.first v (by omega)).2.2
  have hfire := htrig.fires
  rw [fires, dwTrigger, Bool.and_eq_true, Bool.and_eq_true] at hfire
  exact hrec.primed.mp hfire.2.1

/-- **Which sample each read returns.** -/
theorem shows (hrun : Captures c s x h) (htrig : Triggers c s x t₀) (hoff : HoldsOff x t₀ h e)
    (hstays : ∀ t, e + 2 ≤ t → (s t).drStopped = true) (hreads : Reads c x (e + 2) r) {j : ℕ}
    (hj : j < 2 ^ c.lgmem) :
    (samples x (e + 1))[shown c x (sampled x t₀) h e j]? = some (s (r j + 2)).oBusData := by
  have hgo := hrun.goes htrig hoff
  have hrec := hrun.records (e + 2) fun u hu => hgo u (by omega)
  have hrec₁ := hrun.records (e + 1) fun u hu => hgo u (by omega)
  have hfull := hrun.full htrig
  have hlen : sampled x (e + 1) = sampled x t₀ + 1 + h := hoff.count
  have hlen₂ : sampled x (e + 2) = sampled x (e + 1) + (x (e + 1)).iCe.toNat := sampled_succ x _
  have hpos : 2 ^ 0 < 2 ^ c.lgmem := Nat.pow_lt_pow_right (by decide) c.lgmem_pos
  have hce := Bool.toNat_le (x (e + 1)).iCe
  -- the word at an address of the memory that was stopped
  have hword : ∀ k, k + 1 < sampled x (e + 2) → sampled x (e + 2) ≤ k + 1 + 2 ^ c.lgmem →
      (samples x (e + 1))[k]? = some ((s (e + 2)).mem (BitVec.ofNat c.lgmem (k + 1))) := by
    intro k hk hle
    rw [← samples_get (Nat.le_succ (e + 1)) (by omega : k < sampled x (e + 1))]
    exact hrec.mem k hk hle
  obtain ⟨hlow, hread⟩ : e + 2 ≤ r j ∧ (x (r j)).readFromData = true := by
    have hread := hreads.read j hj
    rw [readsFrom, Bool.and_eq_true, decide_eq_true_eq] at hread
    exact hread
  have hreading := hrun.reading htrig hoff hstays hreads hlow
  rw [hrun.returns hread (hstays _ (by omega)), hreading.mem]
  by_cases hfirst : r j = e + 2
  · -- the address is that of the clock before
    have hzero : j = 0 := by
      rw [← hreads.count j hj, hfirst, none_yet (Nat.le_refl _)]
    have hthis : (s (e + 2)).thisAddr =
        BitVec.ofNat c.lgmem (sampled x (e + 1) + (x (e + 1)).readFromData.toNat) := by
      rw [hrun.step]
      show (if (x (e + 1)).readFromData then (s (e + 1)).raddr + (s (e + 1)).waddr + 1
        else (s (e + 1)).raddr + (s (e + 1)).waddr) = _
      rw [hrec₁.raddr, hrec₁.waddr, zero_add]
      cases (x (e + 1)).readFromData
      · rfl
      · exact (ofNat_succ _ _).symm
    rw [hfirst] at hread ⊢
    rw [shown, if_pos ⟨hzero, hread⟩, hthis]
    cases hprior : (x (e + 1)).readFromData
    · rw [if_neg Bool.false_ne_true, Bool.toNat_false, Nat.add_zero]
      cases hcase : (x (e + 1)).iCe
      · rw [hcase, Bool.toNat_false] at hlen₂
        rw [if_neg Bool.false_ne_true, hword _ (by omega) (by omega), ← ofNat_add_two_pow]
        congr 3
        omega
      · rw [hcase, Bool.toNat_true] at hlen₂
        rw [if_pos rfl, hword _ (by omega) (by omega)]
        congr 3
        omega
    · rw [if_pos rfl, Bool.toNat_true, hword _ (by omega) (by omega), ← ofNat_add_two_pow]
      congr 3
      omega
  · have hnot : ¬(j = 0 ∧ (x (e + 2)).readFromData = true) := by
      rintro ⟨hzero, hread₂⟩
      -- a read on that clock would be the first
      have hmem : e + 2 ∈ Clocked.clocks (readsFrom x (e + 2)) (r j) := by
        rw [Clocked.mem_clocks, readsFrom_eq (Nat.le_refl _)]
        exact ⟨by omega, hread₂⟩
      rw [List.length_eq_zero_iff.mp ((hreads.count j hj).trans hzero)] at hmem
      exact absurd hmem List.not_mem_nil
    rw [shown, if_neg hnot, hreading.thisAddr (by omega), hreading.raddr, hreads.count j hj,
      hreading.waddr, hrec.waddr, ← BitVec.ofNat_add, hword _ (by omega) (by omega),
      ← ofNat_add_two_pow]
    congr 3
    show _ = j + sampled x (e + 2)
    omega

/-- A request of the bus is acknowledged two clocks later. -/
theorem acknowledges (hrun : Captures c s x h) (t : ℕ) :
    (s (t + 2)).brWbAck = ((x t).iWbStb && (x (t + 1)).iWbCyc) := by
  rw [hrun.step (t + 1), hrun.step t]
  rfl

end Captures

/-! ## Where the trigger is -/

/-- Once stopped the scope stays so, and the reads return consecutive samples, oldest first, with that
of the trigger where `SCOPE::print` looks for it. -/
structure Places (c : WbscopeCfg) (s : ℕ → Wbscope c.lgmem) (x : ℕ → WbscopeIn) (h t₀ e : ℕ)
    (r : ℕ → ℕ) : Prop where
  stopped : ∀ t, e + 2 ≤ t → (s t).drStopped = true
  placed : ∃ first, first + (2 ^ c.lgmem - 1 - h) = sampled x t₀ ∧
    ∀ j < 2 ^ c.lgmem, (samples x (e + 1))[first + j]? = some (s (r j + 2)).oBusData

/-- `i_ce` is high on the clock after the last sample, and the first read does not come on the clock
on which the scope stops, unless there is one on the clock before as well. -/
def Timely (x : ℕ → WbscopeIn) (e : ℕ) : Prop :=
  (x (e + 1)).iCe = true ∧
  ((x (e + 2)).readFromData = true → (x (e + 1)).readFromData = true)

/-- The samples that are shown cannot be told from those that should be. -/
def Alike (c : WbscopeCfg) (x : ℕ → WbscopeIn) (k₀ h e : ℕ) : Prop :=
  ∀ j < 2 ^ c.lgmem, (samples x (e + 1))[shown c x k₀ h e j]? =
    (samples x (e + 1))[k₀ + h + 1 - 2 ^ c.lgmem + j]?

variable {s : ℕ → Wbscope c.lgmem} {x : ℕ → WbscopeIn} {h t₀ e : ℕ} {r : ℕ → ℕ}

/-- In time, the samples shown are those that should be. -/
theorem Timely.shown_eq (htimely : Timely x e) (k₀ : ℕ) {j : ℕ} :
    shown c x k₀ h e j = k₀ + h + 1 - 2 ^ c.lgmem + j := by
  obtain ⟨hce, hread⟩ := htimely
  rw [shown]
  split
  · rename_i hfirst
    rw [hread hfirst.2, if_pos rfl, hfirst.1]
    exact (Nat.add_zero _).symm
  · rw [hce, Bool.toNat_true]

/-- **When the trigger is where the host looks for it.** -/
theorem places_iff (hrun : Captures c s x h) (hh : h < 2 ^ c.lgmem) (htrig : Triggers c s x t₀)
    (hoff : HoldsOff x t₀ h e) (hreads : Reads c x (e + 2) r) :
    Places c s x h t₀ e r ↔ (h + 1 < 2 ^ c.holdoffbits ∨ (x (e + 1)).iCe = false) ∧
      (Timely x e ∨ Alike c x (sampled x t₀) h e) := by
  have hfull : 2 ^ c.lgmem ≤ sampled x t₀ := hrun.full htrig
  constructor
  · intro hplaces
    obtain ⟨hstopped, first, hfirst, hplaced⟩ := hplaces
    constructor
    · by_contra hwrap
      have hon := hrun.goes_on htrig hoff hwrap
      rw [hstopped (e + 3) (by omega)] at hon
      exact absurd hon (by decide)
    · refine .inr fun j hj => ?_
      rw [hrun.shows htrig hoff hstopped hreads hj, ← hplaced j hj]
      congr 1
      omega
  · rintro ⟨hroom, halike⟩
    have hstopped : ∀ t, e + 2 ≤ t → (s t).drStopped = true :=
      fun t ht => (hrun.stays htrig hoff hroom ht).2.1
    refine ⟨hstopped, sampled x t₀ + h + 1 - 2 ^ c.lgmem, by omega, fun j hj => ?_⟩
    rw [← hrun.shows htrig hoff hstopped hreads hj]
    rcases halike with htimely | halike
    · rw [htimely.shown_eq]
    · exact (halike j hj).symm

/-- A scope with two words, after a reset. -/
def smallCfg : WbscopeCfg := ⟨1, Nat.one_pos, 20, 0⟩

def resetWith (h : ℕ) : Wbscope smallCfg.lgmem where
  brRun := true
  brManual := false
  brDisable := false
  brHoldoff := h
  drTriggered := false
  counter := 0
  drStopped := false
  waddr := 0
  drPrimed := false
  dataPipe := 0
  mem := fun _ => 0
  raddr := 0
  thisAddr := 0
  nxtMem := 0
  readAddress := false
  brPreWbAck := false
  brWbAck := false
  oBusData := 0
  brLevelInterrupt := false

/-- The samples are the numbers of their clocks, the trigger is on the third, and the host reads from
clock `n` on; `i_ce` may be low on the fourth. -/
def counting (ce : Bool) (n t : ℕ) : WbscopeIn where
  iCe := t ≠ 3 || ce
  iTrigger := t == 2
  iData := BitVec.ofNat 32 t
  iWbCyc := true
  iWbStb := n ≤ t
  iWbWe := false
  iWbAddr := true
  iWbData := 0

theorem counting_writes (ce : Bool) (n t : ℕ) : (counting ce n t).writeToControl = false := by
  rw [WbscopeIn.writeToControl]
  show (_ && false && _) = false
  rw [Bool.and_false, Bool.false_and]

theorem counting_captures (ce : Bool) (n : ℕ) {h : ℕ} (hh : h < 2 ^ smallCfg.holdoffbits) :
    Captures smallCfg (Clocked.run (next smallCfg) (resetWith h) (counting ce n)) (counting ce n)
      h where
  step := fun _ => rfl
  start := ⟨rfl, rfl, rfl, rfl, rfl, rfl, rfl, hh⟩
  holdoff := rfl
  asks := fun t => by rw [WbscopeIn.asksReset, counting_writes, Bool.false_and]
  wide := by decide

theorem places_iff_counting : Places smallCfg
    (Clocked.run (next smallCfg) (resetWith 1) (counting true 6)) (counting true 6) 1 2 3
      (fun j => 6 + j) :=
  (places_iff (counting_captures true 6 (by decide)) (by decide)
    ⟨by decide +kernel, by decide +kernel⟩ ⟨by decide, by decide, by decide +kernel⟩
    ⟨by decide, by decide, fun t _ => counting_writes true 6 t⟩).mpr
    ⟨.inl (by decide), .inl ⟨by decide, by decide⟩⟩

/-- With a holdoff of none and a gap in `i_ce` after the trigger, the sample of the trigger is not
there. -/
theorem counting_late :
    Captures smallCfg (Clocked.run (next smallCfg) (resetWith 0) (counting false 5))
      (counting false 5) 0 ∧
    Triggers smallCfg (Clocked.run (next smallCfg) (resetWith 0) (counting false 5))
      (counting false 5) 2 ∧
    HoldsOff (counting false 5) 2 0 2 ∧ Reads smallCfg (counting false 5) 4 (fun j => 5 + j) ∧
    ¬Places smallCfg (Clocked.run (next smallCfg) (resetWith 0) (counting false 5))
      (counting false 5) 0 2 2 (fun j => 5 + j) := by
  refine ⟨counting_captures false 5 (by decide), ⟨by decide +kernel, by decide +kernel⟩,
    ⟨by decide, by decide, by decide +kernel⟩,
    ⟨by decide, by decide, fun t _ => counting_writes false 5 t⟩, ?_⟩
  rintro ⟨-, first, hfirst, hplaced⟩
  have hone : first = 1 := Nat.succ.inj (hfirst.trans (by decide : sampled (counting false 5) 2 = 2))
  have hword := hplaced 1 (by decide)
  rw [hone] at hword
  exact absurd hword (by decide +kernel)

end Runs

end Wbscope

end ZipStormMX.Scope
