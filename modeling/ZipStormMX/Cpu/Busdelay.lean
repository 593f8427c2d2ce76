/-
  `busdelay.v`: a bus, one clock later.

  Requests pass through one output register and, with DELAY_STALL, one more behind it, which takes
  the request that is accepted on the clock the stall of the slave is noticed.  Answers pass through
  one register.  A cycle that the master drops, an error and a reset empty them all.
-/
import ZipStormMX.Clocked
import ZipStormMX.Cpu.Arbiters

namespace ZipStormMX.Cpu

/-- What a request says. -/
structure BusRequest (AW DW : ℕ) where
  we : Bool
  addr : BitVec AW
  data : BitVec DW
  sel : BitVec (DW / 8)
  deriving DecidableEq, Repr

/-- The input pins of `busdelay`. -/
structure BusdelayIn (AW DW : ℕ) where
  iReset : Bool
  iWbCyc : Bool
  iWbStb : Bool
  iWb : BusRequest AW DW
  iDlyAck : Bool
  iDlyStall : Bool
  iDlyData : BitVec DW
  iDlyErr : Bool
  deriving DecidableEq, Repr

/-- The registers of `busdelay`.  `rStb` and `r` are those that DELAY_STALL adds. -/
structure Busdelay (AW DW : ℕ) where
  oDlyCyc : Bool
  oDlyStb : Bool
  oDly : BusRequest AW DW
  rStb : Bool
  r : BusRequest AW DW
  oWbAck : Bool
  oWbData : BitVec DW
  oWbErr : Bool
  deriving DecidableEq, Repr

namespace Busdelay

variable {AW DW : ℕ} (delayStall : Bool) (s : Busdelay AW DW) (i : BusdelayIn AW DW)

def init (AW DW : ℕ) : Busdelay AW DW :=
  { oDlyCyc := false, oDlyStb := false, oDly := ⟨false, 0, 0, 0⟩, rStb := false,
    r := ⟨false, 0, 0, 0⟩, oWbAck := false, oWbData := 0, oWbErr := false }

def oWbStall : Bool := if delayStall then s.rStb else i.iDlyStall && s.oDlyStb

/-- The slave takes what is strobed, or nothing is. -/
def moves : Bool := !i.iDlyStall || !s.oDlyStb

/-- What ends a cycle in the version with DELAY_STALL. -/
def ends : Bool := !i.iWbCyc || (i.iDlyErr && s.oDlyCyc) || s.oWbErr

/-- The next clock with DELAY_STALL. -/
@[simps]
def nextStalled : Busdelay AW DW where
  oDlyCyc := i.iWbCyc && !i.iReset && !s.oWbErr && (!i.iDlyErr || !s.oDlyCyc)
  oDlyStb :=
    if i.iReset then false
    else if ends s i then false
    else if moves s i then if s.rStb then true else i.iWbStb
    else s.oDlyStb
  oDly := if moves s i then if s.rStb then s.r else i.iWb else s.oDly
  rStb :=
    if i.iReset then false
    else if ends s i then false
    else if moves s i then false
    else if !s.rStb && !oWbStall true s i then i.iWbStb
    else s.rStb
  r :=
    let r := if moves s i || (!s.rStb && !oWbStall true s i) then i.iWb else s.r
    if i.iReset then { r with we := false } else r
  oWbAck :=
    if i.iReset then false
    else if i.iReset || !i.iWbCyc || s.oWbErr then false
    else i.iDlyAck && s.oDlyCyc && !i.iDlyErr
  oWbData := i.iDlyData
  oWbErr :=
    if i.iReset then false else if !i.iWbCyc then false else i.iDlyErr && s.oDlyCyc

/-- The next clock without. -/
@[simps]
def nextDirect : Busdelay AW DW where
  oDlyCyc :=
    if i.iReset then false
    else if i.iDlyErr && s.oDlyCyc then false
    else if s.oWbErr && i.iWbCyc then false
    else i.iWbCyc
  oDlyStb :=
    if i.iReset then false
    else if i.iDlyErr && s.oDlyCyc then false
    else if s.oWbErr && i.iWbCyc then false
    else if !i.iWbCyc then false
    else if !oWbStall false s i then i.iWbStb
    else s.oDlyStb
  oDly := if !oWbStall false s i then i.iWb else s.oDly
  rStb := s.rStb
  r := s.r
  oWbAck :=
    if i.iReset then false
    else i.iDlyAck && !i.iDlyErr && s.oDlyCyc && i.iWbCyc && !s.oWbErr
  oWbData := i.iDlyData
  oWbErr :=
    if i.iReset then false
    else if !s.oDlyCyc then false
    else s.oWbErr || (i.iDlyErr && i.iWbCyc)

def next : Busdelay AW DW := if delayStall then nextStalled s i else nextDirect s i

/-! ## What goes through -/

/-- The request the master gets accepted. -/
def taken : List (BusRequest AW DW) :=
  if i.iWbCyc && i.iWbStb && !oWbStall delayStall s i then [i.iWb] else []

/-- The request the slave accepts. -/
def passed : List (BusRequest AW DW) :=
  if s.oDlyCyc && s.oDlyStb && !i.iDlyStall then [s.oDly] else []

/-- The requests in the registers, the first of them on the bus. -/
def held : List (BusRequest AW DW) :=
  (if s.oDlyStb then [s.oDly] else []) ++ (if s.rStb then [s.r] else [])

/-- What the slave answers within a cycle. -/
def answered : List (BitVec DW) :=
  if i.iDlyAck && s.oDlyCyc && !i.iDlyErr then [i.iDlyData] else []

/-- What is acknowledged to the master. -/
def returned : List (BitVec DW) := if s.oWbAck then [s.oWbData] else []

/-! ## One clock -/

/-- What holds of the registers in every run. -/
structure Inv : Prop where
  stb : s.oDlyStb = true → s.oDlyCyc = true
  skid : s.rStb = true → s.oDlyStb = true ∧ delayStall = true
  err : s.oWbErr = true → s.oDlyCyc = false

/-- The registers between two cycles. -/
structure Fresh : Prop where
  cyc : s.oDlyCyc = false
  stb : s.oDlyStb = false
  skid : s.rStb = false
  ack : s.oWbAck = false
  err : s.oWbErr = false

/-- The master stays in the cycle during a clock. -/
structure Steady : Prop where
  cyc : i.iWbCyc = true
  reset : i.iReset = false
  err : s.oWbErr = false

variable {delayStall s i}

theorem inv_init : Inv delayStall (init AW DW) := ⟨nofun, nofun, nofun⟩

theorem fresh_init : Fresh (init AW DW) := ⟨rfl, rfl, rfl, rfl, rfl⟩

theorem inv_next (h : Inv delayStall s) : Inv delayStall (next delayStall s i) := by
  obtain ⟨hstb, hskid, herr⟩ := h
  cases delayStall
  · refine ⟨?_, ?_, ?_⟩
    · show (nextDirect s i).oDlyStb = true → (nextDirect s i).oDlyCyc = true
      simp only [nextDirect_oDlyStb, nextDirect_oDlyCyc]
      grind
    · show s.rStb = true → _
      intro h
      exact absurd (hskid h).2 Bool.false_ne_true
    · show (nextDirect s i).oWbErr = true → (nextDirect s i).oDlyCyc = false
      simp only [nextDirect_oWbErr, nextDirect_oDlyCyc]
      grind
  · refine ⟨?_, ?_, ?_⟩
    · show (nextStalled s i).oDlyStb = true → (nextStalled s i).oDlyCyc = true
      simp only [nextStalled_oDlyStb, nextStalled_oDlyCyc, ends]
      grind
    · show (nextStalled s i).rStb = true → (nextStalled s i).oDlyStb = true ∧ true = true
      simp only [nextStalled_oDlyStb, nextStalled_rStb, ends, moves]
      grind
    · show (nextStalled s i).oWbErr = true → (nextStalled s i).oDlyCyc = false
      simp only [nextStalled_oWbErr, nextStalled_oDlyCyc]
      grind

/-- A dropped cycle and a reset leave nothing behind. -/
theorem fresh_next (h : Inv delayStall s) (hi : i.iWbCyc = false ∨ i.iReset = true) :
    Fresh (next delayStall s i) := by
  obtain ⟨hstb, hskid, herr⟩ := h
  cases delayStall
  · refine ⟨?_, ?_, ?_, ?_, ?_⟩
    · show (nextDirect s i).oDlyCyc = false
      simp only [nextDirect_oDlyCyc]
      grind
    · show (nextDirect s i).oDlyStb = false
      simp only [nextDirect_oDlyStb]
      grind
    · show s.rStb = false
      rw [Bool.eq_false_iff]
      intro h
      exact Bool.false_ne_true (hskid h).2
    · show (nextDirect s i).oWbAck = false
      simp only [nextDirect_oWbAck]
      grind
    · show (nextDirect s i).oWbErr = false
      simp only [nextDirect_oWbErr]
      grind
  · refine ⟨?_, ?_, ?_, ?_, ?_⟩
    · show (nextStalled s i).oDlyCyc = false
      simp only [nextStalled_oDlyCyc]
      grind
    · show (nextStalled s i).oDlyStb = false
      simp only [nextStalled_oDlyStb, ends]
      grind
    · show (nextStalled s i).rStb = false
      simp only [nextStalled_rStb, ends]
      grind
    · show (nextStalled s i).oWbAck = false
      simp only [nextStalled_oWbAck]
      grind
    · show (nextStalled s i).oWbErr = false
      simp only [nextStalled_oWbErr]
      grind

/-- The error of the slave, one clock later. -/
theorem oWbErr_next (hs : Steady s i) :
    (next delayStall s i).oWbErr = (i.iDlyErr && s.oDlyCyc) := by
  obtain ⟨hcyc, hreset, herr⟩ := hs
  cases delayStall
  · show (nextDirect s i).oWbErr = _
    simp only [nextDirect_oWbErr, hcyc, hreset, herr]
    cases s.oDlyCyc <;> simp
  · show (nextStalled s i).oWbErr = _
    simp [nextStalled_oWbErr, hcyc, hreset]

/-- The acknowledgement of the slave, one clock later. -/
theorem returned_next (delayStall : Bool) (hs : Steady s i) :
    returned (next delayStall s i) = answered s i := by
  obtain ⟨hcyc, hreset, herr⟩ := hs
  unfold returned answered
  cases delayStall
  · show (if (nextDirect s i).oWbAck then [(nextDirect s i).oWbData] else []) = _
    simp only [nextDirect_oWbAck, nextDirect_oWbData, hcyc, hreset, herr]
    cases i.iDlyAck <;> cases i.iDlyErr <;> cases s.oDlyCyc <;> rfl
  · show (if (nextStalled s i).oWbAck then [(nextStalled s i).oWbData] else []) = _
    simp only [nextStalled_oWbAck, nextStalled_oWbData, hcyc, hreset, herr]
    cases i.iDlyAck <;> cases i.iDlyErr <;> cases s.oDlyCyc <;> rfl

/-- What the slave accepts is what waits first. -/
theorem passed_held : passed s i <+: held s := by
  unfold passed held
  cases s.oDlyStb with
  | false => simp
  | true =>
    split
    · exact List.prefix_append _ _
    · exact List.nil_prefix

/-- Nothing is lost, doubled or overtaken on a clock without an error. -/
theorem conserve (h : Inv delayStall s) (hs : Steady s i)
    (hok : (i.iDlyErr && s.oDlyCyc) = false) :
    held s ++ taken delayStall s i = passed s i ++ held (next delayStall s i) := by
  obtain ⟨hstb, hskid, -⟩ := h
  obtain ⟨hcyc, hreset, herr⟩ := hs
  cases delayStall
  · show _ = passed s i ++ held (nextDirect s i)
    have hnoskid : s.rStb = false := by
      rw [Bool.eq_false_iff]
      intro h
      exact Bool.false_ne_true (hskid h).2
    unfold held passed taken
    simp only [nextDirect_oDlyStb, nextDirect_oDly, nextDirect_rStb, nextDirect_r, hcyc, hreset,
      herr, hok, hnoskid, oWbStall]
    cases hs : s.oDlyStb <;> cases i.iDlyStall <;> simp [hs, hstb]
  · show _ = passed s i ++ held (nextStalled s i)
    unfold held passed taken
    simp only [nextStalled_oDlyStb, nextStalled_oDly, nextStalled_rStb, nextStalled_r, hcyc, hreset,
      herr, hok, ends, moves, oWbStall]
    by_cases hs : s.oDlyStb = true <;> by_cases hr : s.rStb = true <;>
      by_cases hd : i.iDlyStall = true <;> simp_all

/-! ## Whole runs -/

/-- The registers at each clock. -/
def state (delayStall : Bool) (x : ℕ → BusdelayIn AW DW) : ℕ → Busdelay AW DW :=
  Clocked.run (next delayStall) (init AW DW) x

/-- A cycle of the master may begin at this clock. -/
def Begins (x : ℕ → BusdelayIn AW DW) : ℕ → Prop
  | 0 => True
  | t + 1 => (x t).iWbCyc = false ∨ (x t).iReset = true

/-- The master has been in one cycle for the `m` clocks from `t` on, and has seen no error. -/
structure Cycle (delayStall : Bool) (x : ℕ → BusdelayIn AW DW) (t m : ℕ) : Prop where
  begins : Begins x t
  steady : ∀ j < m, Steady (state delayStall x (t + j)) (x (t + j))

/-- The request strobed downstream on clock `k` may be answered on clock `n`. -/
structure Open (delayStall : Bool) (x : ℕ → BusdelayIn AW DW) (k n : ℕ) : Prop where
  le : k ≤ n
  stb : (state delayStall x k).oDlyStb = true
  cyc : ∀ j, k ≤ j → j < n → (state delayStall x j).oDlyCyc = true

/-- A pure delay.  Within a cycle, the slave accepts what the master has got accepted, in order, and
    before an error comes back all of it but what waits in the registers, which is strobed; the
    acknowledgements and the error come back one clock later; and whatever comes back answers a
    request that was strobed in this cycle (`own`). -/
structure PureDelay (delayStall : Bool) (x : ℕ → BusdelayIn AW DW) : Prop where
  inOrder : ∀ t m, Cycle delayStall x t m →
    Clocked.events (next delayStall) passed (state delayStall x t) (fun k => x (t + k)) m <+:
      Clocked.events (next delayStall) (taken delayStall) (state delayStall x t)
        (fun k => x (t + k)) m
  complete : ∀ t m, Cycle delayStall x t m → (state delayStall x (t + m)).oWbErr = false →
    Clocked.events (next delayStall) (taken delayStall) (state delayStall x t)
        (fun k => x (t + k)) m =
      Clocked.events (next delayStall) passed (state delayStall x t) (fun k => x (t + k)) m ++
        held (state delayStall x (t + m))
  strobes : ∀ n, held (state delayStall x n) ≠ [] →
    (state delayStall x n).oDlyCyc = true ∧ (state delayStall x n).oDlyStb = true
  answers : ∀ t m, Cycle delayStall x t m →
    Clocked.events (next delayStall) answered (state delayStall x t) (fun k => x (t + k)) m =
      Clocked.events (next delayStall) (fun s _ => returned s) (state delayStall x t)
        (fun k => x (t + k)) m ++ returned (state delayStall x (t + m))
  quiet : ∀ t, Begins x t →
    (state delayStall x t).oWbAck = false ∧ (state delayStall x t).oWbErr = false
  errors : ∀ t m, Cycle delayStall x t (m + 1) → (state delayStall x (t + m + 1)).oWbErr =
    ((x (t + m)).iDlyErr && (state delayStall x (t + m)).oDlyCyc)
  own : ∀ t, Begins x t → ∀ k n, t ≤ n → Open delayStall x k n →
    (state delayStall x n).oDlyCyc = true → t < k

theorem inv_run (delayStall : Bool) (x : ℕ → BusdelayIn AW DW) (n : ℕ) :
    Inv delayStall (state delayStall x n) :=
  Clocked.run_invariant (E := fun _ _ => True) inv_init (fun _ => trivial)
    (fun _ _ h _ => inv_next h) n

theorem fresh_run (delayStall : Bool) {x : ℕ → BusdelayIn AW DW} {t : ℕ} (h : Begins x t) :
    Fresh (state delayStall x t) := by
  cases t with
  | zero => exact fresh_init
  | succ t => exact fresh_next (inv_run delayStall x t) h

section

variable {x : ℕ → BusdelayIn AW DW} {t m : ℕ}

theorem Cycle.of_succ (h : Cycle delayStall x t (m + 1)) : Cycle delayStall x t m :=
  ⟨h.begins, fun j hj => h.steady j (Nat.lt_succ_of_lt hj)⟩

theorem state_eq (t m : ℕ) : Clocked.run (next delayStall) (state delayStall x t)
    (fun k => x (t + k)) m = state delayStall x (t + m) :=
  (Clocked.run_add _ _ _ t m).symm

/-- Until an error comes back, all that has been accepted has been passed on or waits. -/
theorem events_taken (h : Cycle delayStall x t m)
    (herr : (state delayStall x (t + m)).oWbErr = false) :
    Clocked.events (next delayStall) (taken delayStall) (state delayStall x t)
        (fun k => x (t + k)) m =
      Clocked.events (next delayStall) passed (state delayStall x t) (fun k => x (t + k)) m ++
        held (state delayStall x (t + m)) := by
  induction m with
  | zero =>
    have hfresh := fresh_run delayStall h.begins
    show [] = [] ++ held (state delayStall x t)
    unfold held
    rw [hfresh.stb, hfresh.skid]
    rfl
  | succ m ih =>
    have hsteady := h.steady m (Nat.lt_succ_self m)
    have hnone : ((x (t + m)).iDlyErr && (state delayStall x (t + m)).oDlyCyc) = false := by
      rw [← oWbErr_next hsteady]
      exact herr
    have hstep := conserve (inv_run delayStall x (t + m)) hsteady hnone
    show _ ++ taken delayStall (Clocked.run _ _ _ m) (x (t + m)) =
      _ ++ passed (Clocked.run _ _ _ m) (x (t + m)) ++
        held (next delayStall (state delayStall x (t + m)) (x (t + m)))
    rw [ih h.of_succ hsteady.err, state_eq, List.append_assoc, hstep, List.append_assoc]

/-- What has been passed on is what has been accepted first. -/
theorem events_passed (h : Cycle delayStall x t m) :
    Clocked.events (next delayStall) passed (state delayStall x t) (fun k => x (t + k)) m <+:
      Clocked.events (next delayStall) (taken delayStall) (state delayStall x t)
        (fun k => x (t + k)) m := by
  cases m with
  | zero => exact List.prefix_rfl
  | succ m =>
    have hsteady := h.steady m (Nat.lt_succ_self m)
    obtain ⟨rest, hrest⟩ := passed_held (s := state delayStall x (t + m)) (i := x (t + m))
    show _ ++ passed (Clocked.run _ _ _ m) (x (t + m)) <+:
      _ ++ taken delayStall (Clocked.run _ _ _ m) (x (t + m))
    rw [events_taken h.of_succ hsteady.err, state_eq, ← hrest]
    simp

/-- Every acknowledgement is returned, or stands in its register. -/
theorem events_answered (h : Cycle delayStall x t m) :
    Clocked.events (next delayStall) answered (state delayStall x t) (fun k => x (t + k)) m =
      Clocked.events (next delayStall) (fun s _ => returned s) (state delayStall x t)
        (fun k => x (t + k)) m ++ returned (state delayStall x (t + m)) := by
  induction m with
  | zero =>
    have hfresh := fresh_run delayStall h.begins
    show [] = [] ++ returned (state delayStall x t)
    unfold returned
    rw [hfresh.ack]
    rfl
  | succ m ih =>
    have hstep := returned_next delayStall (h.steady m (Nat.lt_succ_self m))
    show _ ++ answered (Clocked.run _ _ _ m) (x (t + m)) =
      _ ++ returned (Clocked.run _ _ _ m) ++
        returned (next delayStall (state delayStall x (t + m)) (x (t + m)))
    rw [ih h.of_succ, state_eq, hstep]

end

/-- `busdelay` delays, and does nothing else. -/
theorem pure_delay (delayStall : Bool) (x : ℕ → BusdelayIn AW DW) : PureDelay delayStall x := by
  refine ⟨fun _ _ h => events_passed h, fun _ _ h herr => events_taken h herr, ?_,
    fun _ _ h => events_answered h, ?_, ?_, ?_⟩
  · intro n hne
    have hinv := inv_run delayStall x n
    have hstb : (state delayStall x n).oDlyStb = true := by
      by_contra hno
      have hskid : (state delayStall x n).rStb ≠ true := fun h => hno (hinv.skid h).1
      apply hne
      unfold held
      rw [if_neg hno, if_neg hskid]
      rfl
    exact ⟨hinv.stb hstb, hstb⟩
  · intro t ht
    have hfresh := fresh_run delayStall ht
    exact ⟨hfresh.ack, hfresh.err⟩
  · intro t m h
    exact oWbErr_next (h.steady m (Nat.lt_succ_self m))
  · intro t ht k n htn hopen hcyc
    -- the cycle line is low when the cycle begins
    have hlow := (fresh_run delayStall ht).cyc
    by_contra hkt
    have hhigh : (state delayStall x t).oDlyCyc = true := by
      rcases Nat.lt_or_eq_of_le htn with hlt | heq
      · exact hopen.cyc t (by omega) hlt
      · rw [heq]
        exact hcyc
    rw [hlow] at hhigh
    exact Bool.false_ne_true hhigh

end Busdelay

end ZipStormMX.Cpu
