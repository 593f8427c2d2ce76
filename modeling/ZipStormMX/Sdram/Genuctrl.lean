/-
  `genuctrl.v`: the little sequencer that runs the SDRAM's start up and its refresh cycle.

  It reads a table of words, one after the other.  A word is either a command, which goes to the
  output, or a number of clocks to wait.  There is a word in `r_cmd` ahead of the output, and
  `r_addr` is one ahead of that, so what the registers hold is a function of `r_addr` alone (`stage`),
  up to the clocks that are left to wait.  That is the crux: whatever is to be said of what the
  sequencer shows is then said of the sixteen stages of a table.
-/
import Mathlib.Algebra.GroupWithZero.Nat
import Mathlib.Tactic.Common
import Mathlib.Data.Fin.Basic
import Mathlib.Data.Fin.VecNotation

namespace ZipStormMX.Sdram

variable {κ : Type}

scoped instance neZeroSixteen : NeZero 16 := ⟨Nat.succ_ne_zero 15⟩

/-- A word of the table: the top bit tells which. -/
inductive UWord (κ : Type) where
  | wait (clocks : ℕ)
  | out (cmd : κ)

/-- The parameters `COMMANDS` and `OPT_REPEAT`.  The first word is a command. -/
structure UProgram (κ : Type) where
  commands : Fin 16 → UWord κ
  first : κ
  optRepeat : Bool
  commands_zero : commands 0 = .out first

/-- The registers of `genuctrl`. -/
structure Genuctrl (κ : Type) where
  rStep : Bool
  rCount : ℕ
  rAddr : Fin 16
  rCmd : UWord κ
  oCmd : κ

namespace Genuctrl

variable (p : UProgram κ)

/-- The clocks that a word asks for. -/
def clocks : UWord κ → ℕ
  | .wait n => n
  | .out _ => 0

/-- What the output shows behind a word. -/
def shows (w : UWord κ) (cmd : κ) : κ :=
  match w with
  | .wait _ => cmd
  | .out c => c

/-- At power up, and on every clock in reset. -/
def init : Genuctrl κ where
  rStep := clocks (p.commands 0) == 0
  rCount := clocks (p.commands 0)
  rAddr := 0
  rCmd := p.commands 0
  oCmd := p.first

@[simps]
def next (u : Genuctrl κ) (iReset : Bool) : Genuctrl κ where
  rStep :=
    if iReset then clocks (p.commands 0) == 0
    else if u.rStep then clocks u.rCmd == 0
    else u.rCount == 1
  rCount :=
    if iReset then clocks (p.commands 0)
    else if u.rStep then clocks u.rCmd
    else u.rCount - 1
  rAddr :=
    if iReset then 0
    else if u.rStep && (p.optRepeat || u.rAddr != 15) then u.rAddr + 1
    else u.rAddr
  rCmd :=
    if iReset then p.commands 0
    else if u.rStep then p.commands u.rAddr
    else u.rCmd
  oCmd :=
    if iReset then p.first
    else if u.rStep then shows u.rCmd u.oCmd
    else u.oCmd

/-! ## Stages -/

/-- The word that is read and the command that is shown, when `r_addr` stands at `k`. -/
def stage : ℕ → UWord κ × κ
  | 0 => (p.commands 0, p.first)
  | k + 1 => (p.commands (Fin.ofNat 16 k), shows (stage k).1 (stage k).2)

/-- Behind its last word, a table that repeats is where it was in reset, and one that does not stays
    at its last words. -/
def Closes : Prop := stage p 16 = if p.optRepeat then stage p 0 else stage p 15

/-- What the registers hold is a stage of the table. -/
structure Staged (u : Genuctrl κ) : Prop where
  step : u.rStep = true ↔ u.rCount = 0
  stage : (u.rCmd, u.oCmd) = stage p u.rAddr

variable {p}

theorem next_reset (u : Genuctrl κ) : next p u true = init p := rfl

theorem staged_init : Staged p (init p) where
  step := by simp [init]
  stage := rfl

theorem Staged.next (hp : Closes p) {u : Genuctrl κ} (h : Staged p u) (r : Bool) :
    Staged p (next p u r) := by
  cases r
  case true =>
    rw [next_reset]
    exact staged_init
  case false =>
    cases hstep : u.rStep
    · have hcount : u.rCount ≠ 0 := by
        intro hzero
        simp [h.step.2 hzero] at hstep
      refine ⟨?_, ?_⟩
      · simp [hstep]
        omega
      · simpa [hstep] using h.stage
    · refine ⟨by simp [hstep], ?_⟩
      have hword : u.rCmd = (Genuctrl.stage p u.rAddr).1 := congrArg Prod.fst h.stage
      have hshown : u.oCmd = (Genuctrl.stage p u.rAddr).2 := congrArg Prod.snd h.stage
      have hsucc : ((Genuctrl.next p u false).rCmd, (Genuctrl.next p u false).oCmd) =
          Genuctrl.stage p (u.rAddr + 1) := by
        simp [hstep, Genuctrl.stage, hword, hshown]
      rw [hsucc]
      by_cases hlast : u.rAddr = 15
      · have hp' : Genuctrl.stage p 16 = _ := hp
        cases hrep : p.optRepeat
        · simp [hstep, hlast, hrep, hp']
        · simp [hstep, hlast, hrep, hp']
      · have hval : (u.rAddr + 1 : Fin 16).val = u.rAddr.val + 1 := by
          omega
        simp [hstep, hlast, hval]

/-- What is shown stays, or it is that of the next stage. -/
theorem Staged.oCmd_next {u : Genuctrl κ} (h : Staged p u) :
    (Genuctrl.next p u false).oCmd = (Genuctrl.stage p u.rAddr).2 ∨
      (Genuctrl.next p u false).oCmd = (Genuctrl.stage p (u.rAddr.val + 1)).2 := by
  have hword : u.rCmd = (Genuctrl.stage p u.rAddr).1 := congrArg Prod.fst h.stage
  have hshown : u.oCmd = (Genuctrl.stage p u.rAddr).2 := congrArg Prod.snd h.stage
  cases hstep : u.rStep
  · exact .inl (by simp [hstep, hshown])
  · exact .inr (by simp [hstep, Genuctrl.stage, hword, hshown])

/-! ## Progress -/

section Progress

variable {u : ℕ → Genuctrl κ} {r : ℕ → Bool} {n : ℕ}

/-- A wait ends. -/
theorem step_comes (hu : ∀ k, u (k + 1) = next p (u k) (r k)) (hr : ∀ k, n ≤ k → r k = false)
    (h : ∀ k, Staged p (u k)) : ∃ m, n ≤ m ∧ (u m).rStep = true ∧ (u m).rAddr = (u n).rAddr := by
  induction hc : (u n).rCount generalizing n with
  | zero => exact ⟨n, Nat.le_refl n, (h n).step.2 hc, rfl⟩
  | succ c ih =>
    have hstep : (u n).rStep = false := by
      cases hstep : (u n).rStep
      · rfl
      · rw [(h n).step.1 hstep] at hc
        simp at hc
    have hcount : (u (n + 1)).rCount = c := by
      rw [hu, hr n (Nat.le_refl n)]
      simp [hstep, hc]
    obtain ⟨m, hm, hms, hma⟩ := ih (fun k hk => hr k (by omega)) hcount
    refine ⟨m, by omega, hms, ?_⟩
    rw [hma, hu, hr n (Nat.le_refl n)]
    simp [hstep]

/-- A table that repeats comes to each of its words again and again. -/
theorem addr_comes (hrep : p.optRepeat = true) (hu : ∀ k, u (k + 1) = next p (u k) (r k))
    (hr : ∀ k, n ≤ k → r k = false) (h : ∀ k, Staged p (u k)) (d : ℕ) :
    ∃ m, n ≤ m ∧ (u m).rStep = true ∧ (u m).rAddr = (u n).rAddr + Fin.ofNat 16 d := by
  induction d with
  | zero =>
    obtain ⟨m, hm, hms, hma⟩ := step_comes hu hr h
    exact ⟨m, hm, hms, by simpa using hma⟩
  | succ d ih =>
    obtain ⟨m, hm, hms, hma⟩ := ih
    obtain ⟨m', hm', hms', hma'⟩ :=
      @step_comes κ p u r (m + 1) hu (fun k hk => hr k (by omega)) h
    refine ⟨m', by omega, hms', ?_⟩
    rw [hma', hu, hr m hm]
    have hnext : (u m).rAddr + 1 = (u n).rAddr + Fin.ofNat 16 (d + 1) := by
      rw [hma]
      apply Fin.ext
      simp only [Fin.val_add, Fin.ofNat]
      omega
    simpa [hms, hrep] using hnext

end Progress

end Genuctrl

end ZipStormMX.Sdram
