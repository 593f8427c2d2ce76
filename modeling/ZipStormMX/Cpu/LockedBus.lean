/-
  The two memory units under a bus lock, one request at a time.

  Each unit is compared with the abstract master of `Transaction`: a simulation `R` between the
  registers and the phases, which every clock keeps as long as the unit is `ready` for the requests
  it is given.  A request it is not ready for raises no strobe at all.  So a run serves all its
  requests exactly if the unit was ready for each of them (`servesAll_iff`).

  `pipemem` is always ready.  `memops` is not while it holds the lock on the bus of the request: its
  strobe looks at the cycle line with the lock in it, and takes the locked bus for one it is already
  using.
-/
import ZipStormMX.Clocked
import ZipStormMX.Transaction
import ZipStormMX.Cpu.Memops
import ZipStormMX.Cpu.Pipemem

namespace ZipStormMX.Cpu

open Transaction

variable {AW : ℕ}

/-! ## Requests and what it means to serve them -/

/-- What a request is for: the local or the global bus, a store or a load. -/
structure Access where
  lcl : Bool
  store : Bool
  deriving DecidableEq, Repr

/-- The bus a request goes to. -/
def MemIn.access (c : MemCfg) (i : MemIn) : Access where
  lcl := c.withLocalBus && lclAddr i.iAddr
  store := i.iOp.getLsbD 0

/-- The request and the answer of one clock. -/
def MemIn.pins (c : MemCfg) (i : MemIn) : Pins Access where
  request := if i.iStb then some (i.access c) else none
  stall := i.iWbStall
  answer := i.iWbAck || i.iWbErr

/-- The strobe of the local (`true`) or the global bus. -/
def MemOut.stb (o : MemOut AW) (lcl : Bool) : Bool := if lcl then o.oWbStbLcl else o.oWbStbGbl

def MemOut.cyc (o : MemOut AW) (lcl : Bool) : Bool := if lcl then o.oWbCycLcl else o.oWbCycGbl

/-- A slave sees a strobe. -/
def MemOut.anyStb (o : MemOut AW) : Bool :=
  (o.oWbCycGbl && o.oWbStbGbl) || (o.oWbCycLcl && o.oWbStbLcl)

/-- Aligned requests, presented only while the unit is not busy, and a slave that answers each
    accepted strobe exactly once. -/
structure Requests (o : ℕ → MemOut AW) (i : ℕ → MemIn) : Prop where
  noReset : ∀ n, (i n).iReset = false
  notBusy : ∀ n, (i n).iStb = true → (o n).oBusy = false
  aligned : ∀ n, (i n).iStb = true → badAlignment (laneKey (i n).iOp (i n).iAddr) = false
  slave : Slave (fun n => (o n).anyStb) (fun n => (i n).iWbStall)
    (fun n => (i n).iWbAck || (i n).iWbErr)

/-- No request after clock `t` and before clock `k`. -/
def NoRequest (i : ℕ → MemIn) (t k : ℕ) : Prop := ∀ j, t < j → j < k → (i j).iStb = false

/-- The request of clock `t` is performed: up to the next request its strobe is raised until it is
    accepted at `a`, the unit is busy until it is answered at `d`, and it is completed by `o_valid`
    (a load) or `o_err` on the clock after. -/
structure Performs (c : MemCfg) (o : ℕ → MemOut AW) (i : ℕ → MemIn) (t a d : ℕ) : Prop where
  lt : t < a
  le : a ≤ d
  strobe : ∀ k, t < k → NoRequest i t k → ((o k).stb ((i t).access c).lcl = true ↔ k ≤ a)
  other : ∀ k, t < k → NoRequest i t k → (o k).stb (!((i t).access c).lcl) = false
  stalled : ∀ k, t < k → k < a → (i k).iWbStall = true
  accepted : (i a).iWbStall = false
  busy : ∀ k, t < k → NoRequest i t k → ((o k).oBusy = true ↔ k ≤ d)
  valid : ∀ k, t < k → NoRequest i t k →
    ((o k).oValid = true ↔ k = d + 1 ∧ ((i t).access c).store = false ∧ (i d).iWbAck = true)
  err : ∀ k, t < k → NoRequest i t k → ((o k).oErr = true ↔ k = d + 1 ∧ (i d).iWbErr = true)

/-- Between two requests to one bus, the cycle line stays up while `i_lock` does (and no bus error
    comes). -/
def KeepsCycle (c : MemCfg) (o : ℕ → MemOut AW) (i : ℕ → MemIn) : Prop :=
  ∀ t t', t < t' → (i t).iStb = true → (i t').iStb = true → NoRequest i t t' →
    ((i t).access c).lcl = ((i t').access c).lcl →
    (∀ k, t < k → k < t' → (i k).iLock = true ∧ (i k).iWbErr = false) →
    ∀ k, t < k → k ≤ t' + 1 → (o k).cyc ((i t).access c).lcl = true

/-- Every access is performed, and the lock holds the bus. -/
structure ServesAll (c : MemCfg) (o : ℕ → MemOut AW) (i : ℕ → MemIn) : Prop where
  performs : ∀ t, (i t).iStb = true → ∃ a d, Performs c o i t a d
  keeps : KeepsCycle c o i

/-! ## Phases as a memory unit shows them -/

/-- The access a phase is about. -/
def accessOf : Phase Access → Option Access
  | .idle => none
  | .strobing r => some r
  | .waiting r => some r

def busyOf (p : Phase Access) : Bool := (accessOf p).isSome

def cycOf (p : Phase Access) (lcl : Bool) : Bool :=
  match accessOf p with
  | none => false
  | some r => r.lcl == lcl

def stbOf (p : Phase Access) (lcl : Bool) : Bool := p.strobe && cycOf p lcl

/-- A load is acknowledged. -/
def validOf (p : Phase Access) (i : MemIn) : Bool :=
  match accessOf p with
  | none => false
  | some r => !r.store && i.iWbAck

def errOf (p : Phase Access) (i : MemIn) : Bool := busyOf p && i.iWbErr

/-- **A unit that behaves like the abstract master** for the requests it is `ready` for, and that
    raises no strobe for any other. -/
structure Simulates (M : MemUnit AW) (c : MemCfg) (ready : M.State → MemIn → Prop)
    (R : M.State → Phase Access → Prop) : Prop where
  reset : ∀ s i, i.iReset = true → R (M.step s i) .idle
  busy : ∀ s p, R s p → (M.out s).oBusy = busyOf p
  stb : ∀ s p lcl, R s p → (M.out s).stb lcl = stbOf p lcl
  cyc : ∀ s p lcl, R s p → cycOf p lcl = true → (M.out s).cyc lcl = true
  step : ∀ s p i, R s p → Legal p (i.pins c) → i.iReset = false → (i.iStb = true → p = .idle) →
    (i.iStb = true → badAlignment (laneKey i.iOp i.iAddr) = false) →
    (i.iStb = true → ready s i) →
    R (M.step s i) (p.next (i.pins c)) ∧ (M.out (M.step s i)).oValid = validOf p i ∧
      (M.out (M.step s i)).oErr = errOf p i
  held : ∀ s i lcl, i.iReset = false → i.iStb = false → i.iWbErr = false → i.iLock = true →
    (M.out s).cyc lcl = true → (M.out (M.step s i)).cyc lcl = true
  refused : ∀ s i, R s .idle → i.iReset = false → i.iStb = true → ¬ready s i →
    (M.out (M.step s i)).stb (i.access c).lcl = false

/-! ## Runs of a unit that simulates the master -/

section Simulation

variable {M : MemUnit AW} {c : MemCfg} {ready : M.State → MemIn → Prop}
  {R : M.State → Phase Access → Prop} {s : M.State} {i : ℕ → MemIn}

/-- The phases of a run of requests. -/
def phases (c : MemCfg) (i : ℕ → MemIn) : ℕ → Phase Access :=
  Clocked.run Phase.next Phase.idle (fun n => (i n).pins c)

theorem follows_phases (c : MemCfg) (i : ℕ → MemIn) :
    Follows (phases c i) (fun n => (i n).pins c) :=
  ⟨rfl, fun _ => rfl⟩

/-- What the unit puts on its outputs. -/
def outputs (M : MemUnit AW) (s : M.State) (i : ℕ → MemIn) (n : ℕ) : MemOut AW :=
  M.out (Clocked.run M.step s i n)

/-- With its cycle up, the slave sees the strobe of the phase. -/
theorem anyStb_of_sim (hM : Simulates M c ready R) {q : M.State} {p : Phase Access} (hq : R q p) :
    (M.out q).anyStb = p.strobe := by
  have hg := hM.stb q p false hq
  have hl := hM.stb q p true hq
  have hcg := hM.cyc q p false hq
  have hcl := hM.cyc q p true hq
  simp only [MemOut.stb, MemOut.cyc, stbOf] at hg hl hcg hcl
  cases p with
  | idle => simp_all [MemOut.anyStb]
  | waiting r => simp_all [MemOut.anyStb]
  | strobing r =>
    cases hr : r.lcl <;> simp_all [MemOut.anyStb, cycOf, accessOf]

theorem busyOf_eq_false {p : Phase Access} : busyOf p = false ↔ p = .idle := by
  cases p <;> simp [busyOf, accessOf]

/-- As long as the unit was ready for every request, it is where the abstract master is, and the
    slave owes what the master waits for. -/
theorem sim_run (hM : Simulates M c ready R) (h0 : R s .idle)
    (hi : Requests (outputs M s i) i) :
    ∀ n, (∀ t, t < n → (i t).iStb = true → ready (Clocked.run M.step s i t) (i t)) →
      R (Clocked.run M.step s i n) (phases c i n) ∧
        pending (fun n => (outputs M s i n).anyStb) (fun n => (i n).iWbStall)
          (fun n => (i n).iWbAck || (i n).iWbErr) n = owed (phases c i n) := by
  intro n
  induction n with
  | zero => exact fun _ => ⟨h0, rfl⟩
  | succ n ih =>
    intro hready
    obtain ⟨hR, hp⟩ := ih (fun t ht => hready t (by omega))
    have hstb : (outputs M s i n).anyStb = (phases c i n).strobe := anyStb_of_sim hM hR
    have hlegal : Legal (phases c i n) ((i n).pins c) := by
      intro ha
      have hpos := hi.slave.honest n ha
      rw [hp] at hpos
      rw [hstb] at hpos
      exact hpos
    have hidle : (i n).iStb = true → phases c i n = .idle := by
      intro hst
      have hb := hi.notBusy n hst
      rw [outputs, hM.busy _ _ hR] at hb
      exact busyOf_eq_false.mp hb
    refine ⟨(hM.step _ _ _ hR hlegal (hi.noReset n) hidle (hi.aligned n)
      (hready n (by omega))).1, ?_⟩
    rw [pending, hp, hstb]
    exact owed_next hlegal

/-- The unit was ready for every request of the run. -/
def AlwaysReady (ready : M.State → MemIn → Prop) (s : M.State) (i : ℕ → MemIn) : Prop :=
  ∀ t, (i t).iStb = true → ready (Clocked.run M.step s i t) (i t)

theorem sim_always (hM : Simulates M c ready R) (h0 : R s .idle)
    (hi : Requests (outputs M s i) i) (hready : AlwaysReady ready s i) (n : ℕ) :
    R (Clocked.run M.step s i n) (phases c i n) :=
  (sim_run hM h0 hi n (fun t _ => hready t)).1

theorem slave_phases (hM : Simulates M c ready R) (h0 : R s .idle)
    (hi : Requests (outputs M s i) i) (hready : AlwaysReady ready s i) :
    Slave (strobes (phases c i)) (stalls fun n => (i n).pins c)
      (answers fun n => (i n).pins c) := by
  have hstb : (fun n => (outputs M s i n).anyStb) = strobes (phases c i) := by
    funext n
    exact anyStb_of_sim hM (sim_always hM h0 hi hready n)
  have hs := hi.slave
  rw [hstb] at hs
  exact hs

theorem idle_of_request (hM : Simulates M c ready R) (h0 : R s .idle)
    (hi : Requests (outputs M s i) i) (hready : AlwaysReady ready s i) {t : ℕ}
    (ht : (i t).iStb = true) : phases c i t = .idle := by
  have hb := hi.notBusy t ht
  rw [outputs, hM.busy _ _ (sim_always hM h0 hi hready t)] at hb
  exact busyOf_eq_false.mp hb

/-- `o_valid` and `o_err` of the next clock are those of the phase. -/
theorem complete_next (hM : Simulates M c ready R) (h0 : R s .idle)
    (hi : Requests (outputs M s i) i) (hready : AlwaysReady ready s i) (n : ℕ) :
    (outputs M s i (n + 1)).oValid = validOf (phases c i n) (i n) ∧
      (outputs M s i (n + 1)).oErr = errOf (phases c i n) (i n) :=
  (hM.step _ _ _ (sim_always hM h0 hi hready n)
    (legal (follows_phases c i) (slave_phases hM h0 hi hready) n) (hi.noReset n)
    (fun ht => idle_of_request hM h0 hi hready ht) (hi.aligned n) (hready n)).2

/-- The phase at each clock between a request and the next. -/
theorem phase_between {p : ℕ → Phase Access} {x : ℕ → Pins Access} {t a d : ℕ} {r : Access}
    (h : Served p x t r a d) {k : ℕ} (hk : t < k)
    (hno : ∀ j, d < j → j < k → (x j).request = none) :
    (k ≤ a ∧ p k = .strobing r) ∨ (a < k ∧ k ≤ d ∧ p k = .waiting r) ∨ (d < k ∧ p k = .idle) := by
  rcases Nat.lt_or_ge a k with hak | hak
  · rcases Nat.lt_or_ge d k with hdk | hdk
    · exact Or.inr (Or.inr ⟨hdk, h.idle k hdk hno⟩)
    · exact Or.inr (Or.inl ⟨hak, hdk, h.waiting k hak hdk⟩)
  · exact Or.inl ⟨hak, h.strobing k hk hak⟩

theorem request_none (c : MemCfg) {i : ℕ → MemIn} {t d k : ℕ} (htd : t < d)
    (hno : NoRequest i t k) :
    ∀ j, d < j → j < k → ((i j).pins c).request = none := by
  intro j hdj hjk
  simp [MemIn.pins, hno j (by omega) hjk]

/-- A request that the unit serves is performed. -/
theorem performs_of_served (hM : Simulates M c ready R) (h0 : R s .idle)
    (hi : Requests (outputs M s i) i) (hready : AlwaysReady ready s i) {t a d : ℕ}
    (ht : (i t).iStb = true)
    (h : Served (phases c i) (fun n => (i n).pins c) t ((i t).access c) a d) :
    Performs c (outputs M s i) i t a d := by
  have hsim := sim_always hM h0 hi hready
  have hlt := h.lt
  have hle := h.le
  have hcase : ∀ k, t < k → NoRequest i t k → _ := fun k hk hno =>
    phase_between h hk (request_none c (by omega) hno)
  have hans : ∀ k, t < k → k < d → (i k).iWbAck = false ∧ (i k).iWbErr = false := by
    intro k hk hkd
    exact Bool.or_eq_false_iff.mp (h.unanswered k (by omega) hkd)
  refine ⟨hlt, hle, ?_, ?_, h.stalled, h.accepted, ?_, ?_, ?_⟩
  · intro k hk hno
    rw [outputs, hM.stb _ _ _ (hsim k)]
    rcases hcase k hk hno with ⟨hka, hp⟩ | ⟨hka, -, hp⟩ | ⟨hdk, hp⟩
    · simp [hp, stbOf, cycOf, accessOf, hka]
    · simp [hp, stbOf, hka]
    · simp [hp, stbOf]
      omega
  · intro k hk hno
    rw [outputs, hM.stb _ _ _ (hsim k)]
    rcases hcase k hk hno with ⟨-, hp⟩ | ⟨-, -, hp⟩ | ⟨-, hp⟩
    · simp [hp, stbOf, cycOf, accessOf]
    · simp [hp, stbOf]
    · simp [hp, stbOf]
  · intro k hk hno
    rw [outputs, hM.busy _ _ (hsim k)]
    rcases hcase k hk hno with ⟨hka, hp⟩ | ⟨-, hkd, hp⟩ | ⟨hdk, hp⟩
    · simp [hp, busyOf, accessOf]
      omega
    · simp [hp, busyOf, accessOf, hkd]
    · simp [hp, busyOf, accessOf, hdk]
  · intro k hk hno
    obtain ⟨j, rfl⟩ : ∃ j, k = j + 1 := ⟨k - 1, by omega⟩
    rw [(complete_next hM h0 hi hready j).1]
    rcases Nat.lt_or_ge t j with htj | htj
    · have hp := hcase j htj (fun m h1 h2 => hno m h1 (by omega))
      rcases Nat.lt_trichotomy j d with hjd | hjd | hjd
      · rcases hp with ⟨-, hp⟩ | ⟨-, -, hp⟩ | ⟨hdj, -⟩
        · simp [hp, validOf, accessOf, (hans j htj hjd).1]
          omega
        · simp [hp, validOf, accessOf, (hans j htj hjd).1]
          omega
        · omega
      · subst hjd
        rcases hp with ⟨-, hp⟩ | ⟨-, -, hp⟩ | ⟨hdj, -⟩
        · simp [hp, validOf, accessOf]
        · simp [hp, validOf, accessOf]
        · omega
      · rcases hp with ⟨hja, -⟩ | ⟨-, hjd', -⟩ | ⟨-, hp⟩
        · omega
        · omega
        · simp [hp, validOf, accessOf]
          omega
    · have hjt : j = t := by omega
      have hidle := idle_of_request hM h0 hi hready ht
      simp [hjt, hidle, validOf, accessOf]
      omega
  · intro k hk hno
    obtain ⟨j, rfl⟩ : ∃ j, k = j + 1 := ⟨k - 1, by omega⟩
    rw [(complete_next hM h0 hi hready j).2]
    rcases Nat.lt_or_ge t j with htj | htj
    · have hp := hcase j htj (fun m h1 h2 => hno m h1 (by omega))
      rcases Nat.lt_trichotomy j d with hjd | hjd | hjd
      · simp [errOf, (hans j htj hjd).2]
        omega
      · subst hjd
        rcases hp with ⟨-, hp⟩ | ⟨-, -, hp⟩ | ⟨hdj, -⟩
        · simp [hp, errOf, busyOf, accessOf]
        · simp [hp, errOf, busyOf, accessOf]
        · omega
      · rcases hp with ⟨hja, -⟩ | ⟨-, hjd', -⟩ | ⟨-, hp⟩
        · omega
        · omega
        · simp [hp, errOf, busyOf, accessOf]
          omega
    · have hjt : j = t := by omega
      have hidle := idle_of_request hM h0 hi hready ht
      simp [hjt, hidle, errOf, busyOf, accessOf]
      omega

/-- From a request on, the lock keeps the cycle line up to the next request to the same bus, and
    that request keeps it up. -/
theorem keepsCycle_of_sim (hM : Simulates M c ready R) (h0 : R s .idle)
    (hi : Requests (outputs M s i) i) (hready : AlwaysReady ready s i) :
    KeepsCycle c (outputs M s i) i := by
  intro t t' htt' ht ht' hno hbus hlock
  -- the cycle of a request is up on the clock after it
  have hopen : ∀ n, (i n).iStb = true →
      (outputs M s i (n + 1)).cyc ((i n).access c).lcl = true := by
    intro n hn
    apply hM.cyc _ _ _ (sim_always hM h0 hi hready (n + 1))
    have hp : phases c i (n + 1) = (phases c i n).next ((i n).pins c) := rfl
    rw [hp, idle_of_request hM h0 hi hready hn]
    simp [Phase.next, MemIn.pins, hn, cycOf, accessOf]
  have hmid : ∀ k, t < k → k ≤ t' → (outputs M s i k).cyc ((i t).access c).lcl = true := by
    intro k hk
    induction k, hk using Nat.le_induction with
    | base => exact fun _ => hopen t ht
    | succ k hk ih =>
      intro hkt'
      obtain ⟨hl, he⟩ := hlock k hk (by omega)
      exact hM.held _ _ _ (hi.noReset k) (hno k hk (by omega)) he hl (ih (by omega))
  intro k hk hkt'
  rcases Nat.lt_or_ge t' k with hlt | hge
  · have hkeq : k = t' + 1 := by omega
    rw [hkeq, hbus]
    exact hopen t' ht'
  · exact hmid k hk hge

/-- **A run serves all its requests exactly if the unit was ready for each.** -/
theorem servesAll_iff (hM : Simulates M c ready R) (h0 : R s .idle)
    (hi : Requests (outputs M s i) i) :
    ServesAll c (outputs M s i) i ↔ AlwaysReady ready s i := by
  constructor
  · intro hserves t
    -- the first request the unit is not ready for raises no strobe
    induction t using Nat.strong_induction_on with
    | _ t ih =>
      intro ht
      by_contra hnot
      have hsim := (sim_run hM h0 hi t ih).1
      have hidle : phases c i t = .idle := by
        have hb := hi.notBusy t ht
        rw [outputs, hM.busy _ _ hsim] at hb
        exact busyOf_eq_false.mp hb
      rw [hidle] at hsim
      have hstb := hM.refused _ (i t) hsim (hi.noReset t) ht hnot
      obtain ⟨a, d, hp⟩ := hserves.performs t ht
      have hlt := hp.lt
      have htrue := (hp.strobe (t + 1) (by omega) (fun j h1 h2 => by omega)).mpr (by omega)
      rw [outputs, Clocked.run_succ, hstb] at htrue
      cases htrue
  · intro hready
    refine ⟨?_, keepsCycle_of_sim hM h0 hi hready⟩
    intro t ht
    have hidle := idle_of_request hM h0 hi hready ht
    have hreq : ((i t).pins c).request = some ((i t).access c) := by simp [MemIn.pins, ht]
    obtain ⟨a, d, h⟩ := Transaction.served (follows_phases c i) (slave_phases hM h0 hi hready)
      hidle hreq
    exact ⟨a, d, performs_of_served hM h0 hi hready ht h⟩

end Simulation

/-! ## `memops` -/

namespace Memops

/-- The unit is ready for a request to a bus on which it holds no lock. -/
def Ready (c : MemCfg) (s : Memops AW) (i : MemIn) : Prop :=
  c.implementLock = true → (if (i.access c).lcl then s.lockLcl else s.lockGbl) = false

/-- The registers show the phase. -/
structure Sim (s : Memops AW) (p : Phase Access) : Prop where
  cycGbl : s.rWbCycGbl = cycOf p false
  cycLcl : s.rWbCycLcl = cycOf p true
  stbGbl : s.oWbStbGbl = stbOf p false
  stbLcl : s.oWbStbLcl = stbOf p true
  we : ∀ r, accessOf p = some r → s.oWbWe = r.store

variable {c : MemCfg} {s : Memops AW} {i : MemIn} {p : Phase Access}

theorem misaligned_eq_false
    (ha : i.iStb = true → badAlignment (laneKey i.iOp i.iAddr) = false) :
    misaligned c i = false := by
  cases hs : i.iStb
  · simp [misaligned, hs]
  · simp [misaligned, ha hs]

/-- An aligned request goes to one bus, the other one stays quiet. -/
theorem stbs_of_request (hs : i.iStb = true)
    (ha : i.iStb = true → badAlignment (laneKey i.iOp i.iAddr) = false) :
    lclStb c i = (i.access c).lcl ∧ gblStb c i = !(i.access c).lcl := by
  simp [lclStb, gblStb, MemIn.access, misaligned_eq_false ha, hs]

theorem stbs_of_no_request (hs : i.iStb = false) : lclStb c i = false ∧ gblStb c i = false := by
  simp [lclStb, gblStb, hs]

theorem oBusy_of_sim (h : Sim s p) : oBusy s = busyOf p := by
  rw [oBusy, h.cycGbl, h.cycLcl]
  cases p with
  | idle => rfl
  | strobing r => cases hr : r.lcl <;> simp [cycOf, accessOf, busyOf, hr]
  | waiting r => cases hr : r.lcl <;> simp [cycOf, accessOf, busyOf, hr]

theorem sim_reset (hr : i.iReset = true) : Sim (next c s i) .idle := by
  constructor <;> simp [hr, nextCycGbl, nextCycLcl, nextStbGbl, nextStbLcl, cycOf, stbOf, accessOf]

/-- A request out of idleness. -/
theorem sim_request (h : Sim s .idle) (hr : i.iReset = false) (hs : i.iStb = true)
    (ha : i.iStb = true → badAlignment (laneKey i.iOp i.iAddr) = false) (hready : Ready c s i) :
    Sim (next c s i) (.strobing (i.access c)) := by
  obtain ⟨hlcl, hgbl⟩ : lclStb c i = _ ∧ gblStb c i = _ := stbs_of_request hs ha
  have hg : s.rWbCycGbl = false := h.cycGbl
  have hl : s.rWbCycLcl = false := h.cycLcl
  have hsg : s.oWbStbGbl = false := h.stbGbl
  have hsl : s.oWbStbLcl = false := h.stbLcl
  refine ⟨?_, ?_, ?_, ?_, ?_⟩
  · simp [nextCycGbl, hr, hg, hl, hgbl, cycOf, accessOf]
  · simp [nextCycLcl, hr, hg, hl, hlcl, cycOf, accessOf]
  · cases hb : (i.access c).lcl
    · have hlock : (c.implementLock && s.lockGbl) = false := by
        have := hready
        simp only [Ready, hb] at this
        cases hc : c.implementLock <;> simp_all
      simp [nextStbGbl, hr, hg, oWbCycGbl, hlock, hgbl, stbOf, cycOf, accessOf, hb]
    · simp [nextStbGbl, hr, hg, hsg, hgbl, stbOf, cycOf, accessOf, hb]
  · cases hb : (i.access c).lcl
    · simp [nextStbLcl, hr, hl, hsl, hlcl, stbOf, cycOf, accessOf, hb]
    · have hlock : (c.implementLock && s.lockLcl) = false := by
        have := hready
        simp only [Ready, hb] at this
        cases hc : c.implementLock <;> simp_all
      simp [nextStbLcl, hr, hl, oWbCycLcl, hlock, hlcl, stbOf, cycOf, accessOf, hb]
  · rintro r ⟨⟩
    simp [hs, MemIn.access]

/-- No request: an idle unit stays idle, a busy one follows the bus. -/
theorem sim_no_request (h : Sim s p) (hl : Legal p (i.pins c)) (hr : i.iReset = false)
    (hs : i.iStb = false) : Sim (next c s i) (p.next (i.pins c)) := by
  obtain ⟨hlcl, hgbl⟩ : lclStb c i = _ ∧ gblStb c i = _ := stbs_of_no_request hs
  obtain ⟨hg, hlc, hsg, hsl, hwe⟩ := h
  have hpins : (i.pins c).request = none := by simp [MemIn.pins, hs]
  have hans : (i.pins c).answer = (i.iWbAck || i.iWbErr) := rfl
  have hstl : (i.pins c).stall = i.iWbStall := rfl
  cases p with
  | idle =>
    have hno : i.iWbAck = false ∧ i.iWbErr = false := Bool.or_eq_false_iff.mp (legal_idle hl)
    have hp : (Phase.idle : Phase Access).next (i.pins c) = .idle := by simp [Phase.next, hpins]
    rw [hp]
    constructor <;>
      simp_all [nextCycGbl, nextCycLcl, nextStbGbl, nextStbLcl, cycOf, stbOf, accessOf]
  | strobing r =>
    have hw := hwe r rfl
    cases hst : i.iWbStall
    · rw [Phase.next, hans, hstl, hst]
      cases hb : r.lcl <;> cases ha : i.iWbAck <;> cases he : i.iWbErr <;> constructor <;>
        simp_all [nextCycGbl, nextCycLcl, nextStbGbl, nextStbLcl, cycOf, stbOf, accessOf,
          oWbCycGbl, oWbCycLcl, zeroOut]
    · have hno : i.iWbAck = false ∧ i.iWbErr = false :=
        Bool.or_eq_false_iff.mp (legal_stalled hl hst)
      rw [Phase.next, hans, hstl, hst, hno.1, hno.2]
      cases hb : r.lcl <;> constructor <;>
        simp_all [nextCycGbl, nextCycLcl, nextStbGbl, nextStbLcl, cycOf, stbOf, accessOf,
          oWbCycGbl, oWbCycLcl, zeroOut]
  | waiting r =>
    have hw := hwe r rfl
    rw [Phase.next, hans]
    cases hb : r.lcl <;> cases ha : i.iWbAck <;> cases he : i.iWbErr <;> constructor <;>
      simp_all [nextCycGbl, nextCycLcl, nextStbGbl, nextStbLcl, cycOf, stbOf, accessOf,
        oWbCycGbl, oWbCycLcl, zeroOut]

/-- One clock of the simulation. -/
theorem sim_next (h : Sim s p) (hl : Legal p (i.pins c)) (hr : i.iReset = false)
    (hidle : i.iStb = true → p = .idle)
    (ha : i.iStb = true → badAlignment (laneKey i.iOp i.iAddr) = false)
    (hready : i.iStb = true → Ready c s i) : Sim (next c s i) (p.next (i.pins c)) := by
  cases hs : i.iStb
  · exact sim_no_request h hl hr hs
  · have hp := hidle hs
    subst hp
    have hn : (Phase.idle : Phase Access).next (i.pins c) = .strobing (i.access c) := by
      simp [Phase.next, MemIn.pins, hs]
    rw [hn]
    exact sim_request h hr hs ha (hready hs)

/-- A load that is acknowledged is valid on the next clock, an error is reported, and nothing else
    is. -/
theorem outputs_next (h : Sim s p) (hl : Legal p (i.pins c)) (hr : i.iReset = false)
    (ha : i.iStb = true → badAlignment (laneKey i.iOp i.iAddr) = false) :
    (next c s i).oValid = validOf p i ∧ (next c s i).oErr = errOf p i := by
  have hmis : misaligned c i = false := misaligned_eq_false ha
  obtain ⟨hg, hlc, -, -, hwe⟩ := h
  cases p with
  | idle =>
    have hno : i.iWbAck = false ∧ i.iWbErr = false := Bool.or_eq_false_iff.mp (legal_idle hl)
    simp_all [nextErr, validOf, errOf, accessOf, busyOf, cycOf]
  | strobing r =>
    have hw := hwe r rfl
    cases hb : r.lcl <;> cases hs : r.store <;>
      simp_all [nextErr, validOf, errOf, accessOf, busyOf, cycOf, oWbCycGbl, oWbCycLcl]
  | waiting r =>
    have hw := hwe r rfl
    cases hb : r.lcl <;> cases hs : r.store <;>
      simp_all [nextErr, validOf, errOf, accessOf, busyOf, cycOf, oWbCycGbl, oWbCycLcl]

/-- The lock holds the cycle line. -/
theorem cyc_held (hlk : c.implementLock = true) (hr : i.iReset = false) (hs : i.iStb = false)
    (he : i.iWbErr = false) (hl : i.iLock = true) (lcl : Bool)
    (hc : (out c s).cyc lcl = true) : (out c (next c s i)).cyc lcl = true := by
  obtain ⟨hlcl, hgbl⟩ : lclStb c i = _ ∧ gblStb c i = _ := stbs_of_no_request hs
  have hmis : misaligned c i = false := by simp [misaligned, hs]
  cases lcl
  · simp only [MemOut.cyc, out, oWbCycGbl, hlk, Bool.false_eq_true, if_false, Bool.true_and] at hc
    simp [MemOut.cyc, out, oWbCycGbl, hlk, nextLockGbl, lockKill, hr, he, hmis, hl, hlcl, hc]
  · simp only [MemOut.cyc, out, oWbCycLcl, hlk, if_true, Bool.true_and] at hc
    simp [MemOut.cyc, out, oWbCycLcl, hlk, nextLockLcl, lockKill, hr, he, hmis, hl, hgbl, hc]

/-- A request to a bus on which the unit holds a lock raises no strobe. -/
theorem stb_refused (h : Sim s .idle) (hr : i.iReset = false) (hnot : ¬Ready c s i) :
    (out c (next c s i)).stb (i.access c).lcl = false := by
  have hg : s.rWbCycGbl = false := h.cycGbl
  have hl : s.rWbCycLcl = false := h.cycLcl
  have hsg : s.oWbStbGbl = false := h.stbGbl
  have hsl : s.oWbStbLcl = false := h.stbLcl
  simp only [Ready, Classical.not_imp, Bool.not_eq_false] at hnot
  obtain ⟨hc, hlock⟩ := hnot
  cases hb : (i.access c).lcl
  · rw [hb] at hlock
    simp only [Bool.false_eq_true, if_false] at hlock
    simp [MemOut.stb, out, nextStbGbl, hr, hg, oWbCycGbl, hc, hlock, hsg]
  · rw [hb] at hlock
    simp only [if_true] at hlock
    simp [MemOut.stb, out, nextStbLcl, hr, hl, oWbCycLcl, hc, hlock, hsl]

theorem simulates (hlk : c.implementLock = true) :
    Simulates (memops AW c) c (Ready c) Sim where
  reset _ _ := sim_reset
  busy _ _ := oBusy_of_sim
  stb s p lcl h := by
    cases lcl
    · exact h.stbGbl
    · exact h.stbLcl
  cyc s p lcl h hc := by
    cases lcl
    · show (s.rWbCycGbl || _) = true
      rw [h.cycGbl, hc, Bool.true_or]
    · show (s.rWbCycLcl || _) = true
      rw [h.cycLcl, hc, Bool.true_or]
  step _ _ _ h hl hr hidle ha hready :=
    ⟨sim_next h hl hr hidle ha hready, outputs_next h hl hr ha⟩
  held _ _ lcl hr hs he hl hc := cyc_held hlk hr hs he hl lcl hc
  refused _ _ h hr _ hnot := stb_refused h hr hnot

end Memops

/-! ## `pipemem` -/

namespace Pipemem

/-- The unit is ready for anything, unless it takes every request for a misaligned one. -/
def Ready (c : MemCfg) (_ : Pipemem AW) (_ : MemIn) : Prop := c.optAlignmentErr = false

/-- The registers show the phase: the FIFO holds the access that is under way. -/
structure Sim (s : Pipemem AW) (p : Phase Access) : Prop where
  cyc : s.cyc = busyOf p
  cycGbl : s.rWbCycGbl = cycOf p false
  cycLcl : s.rWbCycLcl = cycOf p true
  stbGbl : s.oWbStbGbl = stbOf p false
  stbLcl : s.oWbStbLcl = stbOf p true
  we : ∀ r, accessOf p = some r → s.oWbWe = r.store
  fifo : s.wraddr = if busyOf p then s.rdaddr + 1 else s.rdaddr

variable {c : MemCfg} {s : Pipemem AW} {i : MemIn} {p : Phase Access}

theorem sim_reset (hr : i.iReset = true) : Sim (next c s i) .idle := by
  constructor <;> simp [hr, nextCyc, nextCycGbl, nextCycLcl, nextStbGbl, nextStbLcl, cycOf, stbOf,
    accessOf, busyOf]

theorem lclBus_eq (c : MemCfg) (i : MemIn) : lclBus c i = (i.access c).lcl := by
  simp [lclBus, MemIn.access, Bool.and_comm]

theorem stbs_of_ready (hready : c.optAlignmentErr = false) :
    lclStb c i = (i.access c).lcl ∧ gblStb c i = !(i.access c).lcl := by
  have hl : (i.access c).lcl = true → c.withLocalBus = true := by
    simp only [MemIn.access, Bool.and_eq_true]
    exact fun h => h.1
  refine ⟨by simp [lclStb, misaligned_eq, hready, lclBus_eq], ?_⟩
  cases hb : (i.access c).lcl
  · simp [gblStb, misaligned_eq, hready, lclBus_eq, hb]
  · simp [gblStb, misaligned_eq, hready, lclBus_eq, hb, hl hb]

/-- A request out of idleness. -/
theorem sim_request (h : Sim s .idle) (hr : i.iReset = false) (hs : i.iStb = true)
    (hready : c.optAlignmentErr = false) : Sim (next c s i) (.strobing (i.access c)) := by
  obtain ⟨hlcl, hgbl⟩ : lclStb c i = _ ∧ gblStb c i = _ := stbs_of_ready hready
  have hc : s.cyc = false := h.cyc
  have hfifo : s.wraddr = s.rdaddr := h.fifo
  have hmis : misaligned c i = false := by rw [misaligned_eq, hready, Bool.false_and]
  constructor <;>
    simp [hr, hs, hc, hmis, hlcl, hgbl, hfifo, nextCyc, nextCycGbl, nextCycLcl, nextStbGbl,
      nextStbLcl, flush, cycOf, stbOf, accessOf, busyOf, MemIn.access]

/-- No request: an idle unit stays idle, a busy one follows the bus. -/
theorem sim_no_request (h : Sim s p) (hl : Legal p (i.pins c)) (hr : i.iReset = false)
    (hs : i.iStb = false) : Sim (next c s i) (p.next (i.pins c)) := by
  obtain ⟨hc, hg, hlc, hsg, hsl, hwe, hfifo⟩ := h
  have hmis : misaligned c i = false := by rw [misaligned_eq, hs, Bool.and_false]
  have hpins : (i.pins c).request = none := by simp [MemIn.pins, hs]
  have hans : (i.pins c).answer = (i.iWbAck || i.iWbErr) := rfl
  have hstl : (i.pins c).stall = i.iWbStall := rfl
  cases p with
  | idle =>
    have hno : i.iWbAck = false ∧ i.iWbErr = false := Bool.or_eq_false_iff.mp (legal_idle hl)
    have hp : (Phase.idle : Phase Access).next (i.pins c) = .idle := by simp [Phase.next, hpins]
    rw [hp]
    constructor <;>
      simp_all [nextCyc, nextCycGbl, nextCycLcl, nextStbGbl, nextStbLcl, cycOf, stbOf, accessOf,
        busyOf, flush]
  | strobing r =>
    have hw := hwe r rfl
    cases hst : i.iWbStall
    · rw [Phase.next, hans, hstl, hst]
      cases hb : r.lcl <;> cases ha : i.iWbAck <;> cases he : i.iWbErr <;> constructor <;>
        simp_all [nextCyc, nextCycGbl, nextCycLcl, nextStbGbl, nextStbLcl, cycOf, stbOf, accessOf,
          busyOf, flush, lastAck, nxtRdaddr, stbDone]
    · have hno : i.iWbAck = false ∧ i.iWbErr = false :=
        Bool.or_eq_false_iff.mp (legal_stalled hl hst)
      rw [Phase.next, hans, hstl, hst, hno.1, hno.2]
      cases hb : r.lcl <;> constructor <;>
        simp_all [nextCyc, nextCycGbl, nextCycLcl, nextStbGbl, nextStbLcl, cycOf, stbOf, accessOf,
          busyOf, flush, lastAck, nxtRdaddr, stbDone]
  | waiting r =>
    have hw := hwe r rfl
    rw [Phase.next, hans]
    cases hb : r.lcl <;> cases ha : i.iWbAck <;> cases he : i.iWbErr <;> constructor <;>
      simp_all [nextCyc, nextCycGbl, nextCycLcl, nextStbGbl, nextStbLcl, cycOf, stbOf, accessOf,
        busyOf, flush, lastAck, nxtRdaddr, stbDone]

theorem sim_next (h : Sim s p) (hl : Legal p (i.pins c)) (hr : i.iReset = false)
    (hidle : i.iStb = true → p = .idle) (hready : i.iStb = true → Ready c s i) :
    Sim (next c s i) (p.next (i.pins c)) := by
  cases hs : i.iStb
  · exact sim_no_request h hl hr hs
  · have hp := hidle hs
    subst hp
    have hn : (Phase.idle : Phase Access).next (i.pins c) = .strobing (i.access c) := by
      simp [Phase.next, MemIn.pins, hs]
    rw [hn]
    exact sim_request h hr hs (hready hs)

theorem outputs_next (h : Sim s p) (hl : Legal p (i.pins c)) (hr : i.iReset = false)
    (hready : i.iStb = true → Ready c s i) :
    (next c s i).oValid = validOf p i ∧ (next c s i).oErr = errOf p i := by
  have hmis : (i.iStb && misaligned c i) = false := by
    rw [misaligned_eq]
    cases hs : i.iStb
    · rfl
    · have hc : c.optAlignmentErr = false := hready hs
      rw [hc]
      rfl
  obtain ⟨hc, -, -, -, -, hwe, -⟩ := h
  cases p with
  | idle => simp_all [validOf, errOf, accessOf, busyOf]
  | strobing r =>
    have hw := hwe r rfl
    cases hs : r.store <;> simp_all [validOf, errOf, accessOf, busyOf]
  | waiting r =>
    have hw := hwe r rfl
    cases hs : r.store <;> simp_all [validOf, errOf, accessOf, busyOf]

theorem cyc_held (hlk : c.implementLock = true) (hr : i.iReset = false) (hs : i.iStb = false)
    (he : i.iWbErr = false) (hl : i.iLock = true) (lcl : Bool)
    (hc : (out c s).cyc lcl = true) : (out c (next c s i)).cyc lcl = true := by
  cases lcl
  · simp only [MemOut.cyc, out, oWbCycGbl, hlk, Bool.false_eq_true, if_false, Bool.true_and] at hc
    simp [MemOut.cyc, out, oWbCycGbl, hlk, flush, hr, he, hs, hl, hc]
  · simp only [MemOut.cyc, out, oWbCycLcl, hlk, if_true, Bool.true_and] at hc
    simp [MemOut.cyc, out, oWbCycLcl, hlk, flush, hr, he, hs, hl, hc]

/-- With `OPT_ALIGNMENT_ERR` no request raises a strobe. -/
theorem stb_refused (h : Sim s .idle) (hr : i.iReset = false) (hs : i.iStb = true)
    (hnot : ¬Ready c s i) : (out c (next c s i)).stb (i.access c).lcl = false := by
  have hc : s.cyc = false := h.cyc
  have hopt : c.optAlignmentErr = true := by simpa [Ready] using hnot
  have hmis : misaligned c i = true := by rw [misaligned_eq, hopt, hs, Bool.true_and]
  cases hb : (i.access c).lcl
  · simp [MemOut.stb, out, nextStbGbl, hr, hc, hs, gblStb, hmis]
  · simp [MemOut.stb, out, nextStbLcl, hr, hc, hs, lclStb, hmis]

theorem simulates (hlk : c.implementLock = true) :
    Simulates (pipemem AW c) c (Ready c) Sim where
  reset _ _ := sim_reset
  busy _ _ h := h.cyc
  stb s p lcl h := by
    cases lcl
    · exact h.stbGbl
    · exact h.stbLcl
  cyc s p lcl h hc := by
    cases lcl
    · show (s.rWbCycGbl || _) = true
      rw [h.cycGbl, hc, Bool.true_or]
    · show (s.rWbCycLcl || _) = true
      rw [h.cycLcl, hc, Bool.true_or]
  step _ _ _ h hl hr hidle _ hready := ⟨sim_next h hl hr hidle hready, outputs_next h hl hr hready⟩
  held _ _ lcl hr hs he hl hc := cyc_held hlk hr hs he hl lcl hc
  refused _ _ h hr hs hnot := stb_refused h hr hs hnot

end Pipemem

/-! ## Both -/

/-- The memory units that can hold a lock. -/
inductive MemKind where
  | memops
  | pipemem
  deriving DecidableEq, Repr

namespace MemKind

/-- The unit. -/
def unit (AW : ℕ) (c : MemCfg) : MemKind → MemUnit AW
  | .memops => Cpu.memops AW c
  | .pipemem => Cpu.pipemem AW c

/-- The unit is ready for the request: `memops` holds no lock on its bus, `pipemem` does not take
    every request for a misaligned one. -/
def Ready (c : MemCfg) : (k : MemKind) → (k.unit AW c).State → MemIn → Prop
  | .memops => Memops.Ready c
  | .pipemem => Pipemem.Ready c

theorem simulates {c : MemCfg} (hlk : c.implementLock = true) :
    ∀ k : MemKind, ∃ R, Simulates (k.unit AW c) c (k.Ready c) R
  | .memops => ⟨_, Memops.simulates hlk⟩
  | .pipemem => ⟨_, Pipemem.simulates hlk⟩

/-- **A memory unit with a bus lock serves all the requests of a run** exactly if it was ready for
    each of them when it was presented. -/
theorem locked_servesAll_iff (k : MemKind) {c : MemCfg} (hlk : c.implementLock = true)
    (s : (k.unit AW c).State) (r : MemIn) (hr : r.iReset = true) (i : ℕ → MemIn)
    (hi : Requests (outputs (k.unit AW c) ((k.unit AW c).step s r) i) i) :
    ServesAll c (outputs (k.unit AW c) ((k.unit AW c).step s r) i) i ↔
      AlwaysReady (k.Ready c) ((k.unit AW c).step s r) i := by
  obtain ⟨R, hR⟩ : ∃ R, Simulates (k.unit AW c) c (k.Ready c) R := simulates hlk k
  exact servesAll_iff hR (hR.reset s r hr) hi

end MemKind

/-! ## The second access of a locked sequence

  Two loads from the global bus, at clocks 0 and 3, with `i_lock` up all the time; the slave never
  stalls and acknowledges the first load at clock 2. -/

/-- The parameters of `memops` by default. -/
def lockedCfg : MemCfg where
  implementLock := true
  withLocalBus := true
  optAlignmentErr := true
  optZeroOnIdle := false

/-- One word load at clock 0, and another at clock 3 if `again`. -/
def lockedLoads (again : Bool) (n : ℕ) : MemIn where
  iReset := false
  iStb := n == 0 || (again && n == 3)
  iLock := true
  iOp := 0b010#3
  iAddr := 0
  iData := 0
  iOreg := 0
  iWbAck := n == 2
  iWbStall := false
  iWbErr := false
  iWbData := 0

def lockedReset : MemIn := { lockedLoads false 0 with iReset := true, iStb := false }

/-- `memops` after a reset. -/
def lockedStart : Memops 21 := Memops.next lockedCfg (Memops.init 21) lockedReset

/-- What it puts on its outputs. -/
def lockedOutputs (again : Bool) (n : ℕ) : MemOut 21 :=
  Memops.out lockedCfg (Clocked.run (Memops.next lockedCfg) lockedStart (lockedLoads again) n)

/-- Without a request no strobe rises. -/
theorem Memops.stb_low {c : MemCfg} {s : Memops AW} {i : MemIn} (hs : i.iStb = false)
    (h : s.oWbStbGbl = false ∧ s.oWbStbLcl = false) :
    (next c s i).oWbStbGbl = false ∧ (next c s i).oWbStbLcl = false := by
  obtain ⟨hlcl, hgbl⟩ : lclStb c i = _ ∧ gblStb c i = _ := stbs_of_no_request hs
  simp [nextStbGbl, nextStbLcl, hlcl, hgbl, h.1, h.2]

/-- The only strobe is that of the first load. -/
theorem lockedOutputs_anyStb (again : Bool) (n : ℕ) :
    (lockedOutputs again n).anyStb = (n == 1) := by
  rcases Nat.lt_or_ge n 5 with hn | hn
  · revert n
    cases again <;> decide +kernel
  · have hlow : (Clocked.run (Memops.next lockedCfg) lockedStart (lockedLoads again) n).oWbStbGbl
          = false ∧
        (Clocked.run (Memops.next lockedCfg) lockedStart (lockedLoads again) n).oWbStbLcl
          = false := by
      induction n, hn using Nat.le_induction with
      | base => cases again <;> decide +kernel
      | succ n hn ih =>
        refine Memops.stb_low ?_ ih
        have h0 : (n == 0) = false := by simp; omega
        have h3 : (n == 3) = false := by simp; omega
        simp [lockedLoads, h0, h3]
    have h1 : (n == 1) = false := by simp; omega
    rw [h1]
    simp [lockedOutputs, MemOut.anyStb, Memops.out, hlow.1, hlow.2]

/-- One strobe at clock 1, one answer at clock 2. -/
theorem slave_one_answer : Slave (fun n => n == 1) (fun _ => false) (fun n => n == 2) := by
  have hlate : ∀ n, 3 ≤ n →
      pending (fun n => n == 1) (fun _ => false) (fun n => n == 2) n = 0 := by
    intro n hn
    induction n, hn using Nat.le_induction with
    | base => rfl
    | succ n hn ih =>
      have h1 : (n == 1) = false := by simp; omega
      rw [pending, ih, h1]
      simp
  refine ⟨?_, ?_, fun n => ⟨n, le_refl n, rfl⟩⟩
  · intro n hn
    have : n = 2 := by simpa using hn
    rw [this]
    decide
  · intro n hn
    rcases Nat.lt_or_ge n 3 with hlt | hge
    · exact ⟨2, by omega, rfl⟩
    · rw [hlate n hge] at hn
      exact absurd hn (by decide)

theorem lockedLoads_requests (again : Bool) :
    Requests (lockedOutputs again) (lockedLoads again) := by
  refine ⟨fun _ => rfl, ?_, fun _ _ => ?_, ?_⟩
  · intro n hn
    have hcase : n = 0 ∨ n = 3 := by
      simp only [lockedLoads, Bool.or_eq_true, Bool.and_eq_true, beq_iff_eq] at hn
      omega
    rcases hcase with rfl | rfl
    · cases again <;> decide +kernel
    · cases again <;> decide +kernel
  · show badAlignment (laneKey 0b010#3 0) = false
    decide
  · have hstb : (fun n => (lockedOutputs again n).anyStb) = fun n => n == 1 :=
      funext (lockedOutputs_anyStb again)
    rw [hstb]
    have hans : (fun n => (lockedLoads again n).iWbAck || (lockedLoads again n).iWbErr) =
        fun n => n == 2 := by
      funext n
      simp [lockedLoads]
    rw [hans]
    exact slave_one_answer

theorem MemKind.locked_servesAll_once :
    ServesAll lockedCfg (lockedOutputs false) (lockedLoads false) := by
  refine (MemKind.locked_servesAll_iff .memops rfl (Memops.init 21) lockedReset rfl
    (lockedLoads false) (lockedLoads_requests false)).mpr ?_
  intro t ht _
  have ht0 : t = 0 := by simpa [lockedLoads] using ht
  rw [ht0]
  decide +kernel

/-- The second access of the locked sequence is never performed. -/
theorem MemKind.locked_second_lost :
    ¬ ∀ (k : MemKind) (c : MemCfg) (s : (k.unit 21 c).State) (r : MemIn) (i : ℕ → MemIn),
      c.implementLock = true → r.iReset = true →
      Requests (outputs (k.unit 21 c) ((k.unit 21 c).step s r) i) i →
      ServesAll c (outputs (k.unit 21 c) ((k.unit 21 c).step s r) i) i := by
  intro h
  have hserves : ServesAll lockedCfg (lockedOutputs true) (lockedLoads true) :=
    h .memops lockedCfg (Memops.init 21) lockedReset (lockedLoads true) rfl rfl
      (lockedLoads_requests true)
  obtain ⟨a, d, hp⟩ := hserves.performs 3 rfl
  have hlt := hp.lt
  have hstb := (hp.strobe 4 (by decide) (fun j h1 h2 => by omega)).mpr (by omega)
  exact absurd hstb (by decide +kernel)

end ZipStormMX.Cpu
