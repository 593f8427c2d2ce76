/-
  The clock of a sequencer, and what the two sequencers of the SDRAM show at each clock of theirs.

  `Genuctrl` says what the registers hold at a stage of the table, but not for how long.  Here the
  clocks are counted (`phase`): the wait that is left, taken from the clock at which the stage is
  left.  The phase goes up by one on every clock, and a table is then a list of clocks: the refresh
  stalls the bus, takes the memory, closes its banks and refreshes it, each at one phase or between
  two of them.
-/
import Mathlib.Tactic.FinCases
import ZipStormMX.Sdram.Maintenance

namespace ZipStormMX.Sdram

namespace Genuctrl

variable {κ : Type}

/-! ## Phases -/

/-- The clock behind a reset at which stage `k` is left. -/
def leaves (p : UProgram κ) : ℕ → ℕ
  | 0 => 0
  | k + 1 => leaves p k + 1 + clocks (stage p k).1

/-- The clock of the table that the sequencer is at. -/
def phase (p : UProgram κ) (u : Genuctrl κ) : ℕ := leaves p u.rAddr - u.rCount

/-- The last stage does not wait. -/
def Rests (p : UProgram κ) : Prop := clocks (stage p 15).1 = 0

/-- A stage of the table, and no more clocks to wait than it asks for. -/
structure Phased (p : UProgram κ) (u : Genuctrl κ) : Prop where
  staged : Staged p u
  first : u.rAddr.val = 0 → u.rCount = 0
  count : ∀ k, u.rAddr.val = k + 1 → u.rCount ≤ clocks (stage p k).1

variable {p : UProgram κ} {u : Genuctrl κ}

theorem phased_init : Phased p (init p) where
  staged := staged_init
  first _ := by simp [init, p.commands_zero, clocks]
  count k hk := by simp [init] at hk

/-- The stage that follows: behind the last one a table starts again, or stays. -/
theorem rAddr_next (h : u.rStep = true) : ((next p u false).rAddr : ℕ) =
    if u.rAddr.val = 15 then if p.optRepeat then 0 else 15 else u.rAddr.val + 1 := by
  by_cases hlast : u.rAddr = 15
  · cases hrep : p.optRepeat <;> simp [h, hlast, hrep]
  · have hne : u.rAddr.val ≠ 15 := fun he => hlast (Fin.ext he)
    have hval : (u.rAddr + 1 : Fin 16).val = u.rAddr.val + 1 := by
      omega
    simp [h, hlast, hne, hval]

theorem Phased.next (hc : Closes p) (hr : Rests p) (h : Phased p u) (r : Bool) :
    Phased p (next p u r) := by
  cases r
  case true =>
    rw [next_reset]
    exact phased_init
  case false =>
    have hstaged := h.staged.next hc false
    cases hstep : u.rStep
    · have haddr : (Genuctrl.next p u false).rAddr = u.rAddr := by
        simp [hstep]
      have hcount : (Genuctrl.next p u false).rCount = u.rCount - 1 := by
        simp [hstep]
      refine ⟨hstaged, ?_, ?_⟩
      · intro hz
        rw [haddr] at hz
        have hzero := h.first hz
        omega
      · intro k hk
        rw [haddr] at hk
        have hle := h.count k hk
        omega
    · have haddr := @rAddr_next κ p u hstep
      have hword : u.rCmd = (stage p u.rAddr).1 := congrArg Prod.fst h.staged.stage
      have hcount : (Genuctrl.next p u false).rCount = clocks (stage p u.rAddr).1 := by
        simp [hstep, hword]
      refine ⟨hstaged, ?_, ?_⟩
      · intro hz
        rw [haddr] at hz
        have hlast : u.rAddr.val = 15 := by
          split_ifs at hz
          assumption
        rw [hcount, hlast]
        exact hr
      · intro k hk
        rw [haddr] at hk
        rw [hcount]
        split_ifs at hk with hlast hrep
        · have hrest : clocks (stage p 15).1 = 0 := hr
          rw [hlast, hrest]
          exact Nat.zero_le _
        · rw [Nat.succ_inj.1 hk]

/-- The clocks of a stage. -/
theorem Phased.slot (h : Phased p u) : match u.rAddr.val with
    | 0 => phase p u = 0
    | k + 1 => leaves p k < phase p u ∧ phase p u ≤ leaves p (k + 1) := by
  unfold phase
  cases hk : u.rAddr.val with
  | zero => simp [leaves]
  | succ k =>
    have hle := h.count k hk
    dsimp only [leaves]
    omega

theorem leaves_succ (k : ℕ) : leaves p (k + 1) = leaves p k + 1 + clocks (stage p k).1 := rfl

theorem leaves_mono {j k : ℕ} (h : j ≤ k) : leaves p j ≤ leaves p k := by
  induction h with
  | refl => exact Nat.le_refl _
  | step _ ih =>
    rw [leaves_succ]
    omega

/-- **One clock.**  The phase goes up by one, until the last stage is left. -/
theorem Phased.phase_next (hr : Rests p) (h : Phased p u) : phase p (Genuctrl.next p u false) =
    if phase p u = leaves p 15 then if p.optRepeat then 0 else leaves p 15
    else phase p u + 1 := by
  have hbound : u.rAddr.val ≤ 15 := by
    omega
  cases hstep : u.rStep
  · have hpos : u.rCount ≠ 0 := by
      intro hz
      rw [h.staged.step.2 hz] at hstep
      exact absurd hstep (by decide)
    have hle : u.rCount ≤ leaves p u.rAddr := by
      cases hk : u.rAddr.val with
      | zero => exact absurd (h.first hk) hpos
      | succ k =>
        have hcount := h.count k hk
        dsimp only [leaves]
        omega
    have hne : phase p u ≠ leaves p 15 := by
      have hmono := leaves_mono (p := p) hbound
      unfold phase
      omega
    rw [if_neg hne]
    have haddr : (Genuctrl.next p u false).rAddr = u.rAddr := by
      simp [hstep]
    have hcount : (Genuctrl.next p u false).rCount = u.rCount - 1 := by
      simp [hstep]
    unfold phase
    rw [haddr, hcount]
    omega
  · have hzero : u.rCount = 0 := h.staged.step.1 hstep
    have haddr := @rAddr_next κ p u hstep
    have hword : u.rCmd = (stage p u.rAddr).1 := congrArg Prod.fst h.staged.stage
    have hcount : (Genuctrl.next p u false).rCount = clocks (stage p u.rAddr).1 := by
      simp [hstep, hword]
    have hphase : phase p u = leaves p u.rAddr := by
      rw [phase, hzero, Nat.sub_zero]
    rw [hphase]
    unfold phase
    rw [haddr, hcount]
    by_cases hlast : u.rAddr.val = 15
    · rw [if_pos hlast, hlast, if_pos rfl]
      have hrest : clocks (stage p 15).1 = 0 := hr
      rw [hrest]
      cases p.optRepeat <;> rfl
    · have hlt : leaves p u.rAddr < leaves p 15 := by
        have hmono := leaves_mono (p := p) (by omega : u.rAddr.val + 1 ≤ 15)
        rw [leaves_succ] at hmono
        omega
      rw [if_neg hlast, if_neg (Nat.ne_of_lt hlt)]
      dsimp only [leaves]
      omega

end Genuctrl

open Genuctrl

/-! ## The two tables -/

theorem resetProgram_rests : Rests resetProgram := rfl

theorem refreshProgram_rests (remaining : ℕ) : Rests (refreshProgram remaining) := rfl

theorem refresh_period (remaining : ℕ) : leaves (refreshProgram remaining) 15 = remaining + 24 := by
  simp [leaves, stage, refreshProgram, clocks, Fin.ofNat]
  omega

/-- What the refresh shows, by its phase. -/
theorem refresh_shows {remaining : ℕ} {u : Genuctrl RefreshCmd}
    (h : Phased (refreshProgram remaining) u) :
    (u.oCmd.stall = true ↔ remaining + 4 ≤ phase (refreshProgram remaining) u ∧
      phase (refreshProgram remaining) u ≤ remaining + 20) ∧
    (u.oCmd.active = true ↔ remaining + 10 ≤ phase (refreshProgram remaining) u ∧
      phase (refreshProgram remaining) u ≤ remaining + 20) ∧
    u.oCmd.cmd = if phase (refreshProgram remaining) u = remaining + 10 then cmdPrecharge
      else if phase (refreshProgram remaining) u = remaining + 14 then cmdRefresh else cmdNoop := by
  have hslot := h.slot
  have hshown : u.oCmd = (stage (refreshProgram remaining) u.rAddr).2 :=
    congrArg Prod.snd h.staged.stage
  rw [hshown]
  generalize phase (refreshProgram remaining) u = t at *
  generalize u.rAddr = k at *
  fin_cases k <;>
    simp [leaves, stage, refreshProgram, clocks, Fin.ofNat] at hslot <;>
    refine ⟨?_, ?_, ?_⟩ <;>
    simp [stage, refreshProgram, Fin.ofNat, Genuctrl.shows] <;>
    first
    | omega
    | (split_ifs <;> first | rfl | (exfalso; omega))

/-- What the start up shows, by its phase. -/
theorem reset_shows {u : Genuctrl ResetCmd} (h : Phased resetProgram u) :
    (u.oCmd.active = true ↔ phase resetProgram u ≤ 25) ∧
    u.oCmd.cmd = if phase resetProgram u = 3 then cmdPrecharge
      else if phase resetProgram u = 6 ∨ phase resetProgram u = 15 then cmdRefresh
      else if phase resetProgram u = 24 then cmdSetMode else cmdNoop := by
  have hslot := h.slot
  have hshown : u.oCmd = (stage resetProgram u.rAddr).2 := congrArg Prod.snd h.staged.stage
  rw [hshown]
  generalize phase resetProgram u = t at *
  generalize u.rAddr = k at *
  fin_cases k <;>
    simp [leaves, stage, resetProgram, clocks, Fin.ofNat] at hslot <;>
    refine ⟨?_, ?_⟩ <;>
    simp [stage, resetProgram, Fin.ofNat, Genuctrl.shows] <;>
    first
    | omega
    | (split_ifs <;> first | rfl | (exfalso; omega))

/-! ## Upkeep -/

namespace Wbsdram

variable {c : SdramCfg}

def resetPhase (s : Wbsdram) : ℕ := phase resetProgram s.resetController

def refreshPhase (c : SdramCfg) (s : Wbsdram) : ℕ :=
  phase (refreshProgram c.ckRemaining) s.refreshController

/-- The two sequencers are in step with their tables. -/
structure Sequenced (c : SdramCfg) (s : Wbsdram) : Prop where
  kept : Kept c s
  reset : Phased resetProgram s.resetController
  refresh : Phased (refreshProgram c.ckRemaining) s.refreshController
  held : s.startupHold = true → s.resetController = Genuctrl.init resetProgram

variable {s : Wbsdram} {i : SdramIn}

theorem sequenced_powerUp (h : AtPowerUp c s) : Sequenced c s where
  kept := kept_powerUp h
  reset := by
    rw [h.resetController]
    exact phased_init
  refresh := by
    rw [h.refreshController]
    exact phased_init
  held _ := h.resetController

theorem Sequenced.next (h : Sequenced c s) : Sequenced c (Wbsdram.next c s i) where
  kept := h.kept.next
  reset := h.reset.next resetProgram_closes resetProgram_rests _
  refresh := h.refresh.next (refreshProgram_closes _) (refreshProgram_rests _) _
  held hhold := by
    rw [next_startupHold, bne_iff_ne] at hhold
    rw [next_resetController, h.kept.hold hhold]
    rfl

theorem sequenced_run {s : ℕ → Wbsdram} {i : ℕ → SdramIn} (h0 : AtPowerUp c (s 0))
    (hstep : ∀ n, s (n + 1) = Wbsdram.next c (s n) (i n)) : ∀ n, Sequenced c (s n) := by
  intro n
  induction n with
  | zero => exact sequenced_powerUp h0
  | succ n ih =>
    rw [hstep]
    exact ih.next

/-- The phase of the start up. -/
theorem Sequenced.resetPhase_next (h : Sequenced c s) (hpos : 0 < resetPhase s) :
    resetPhase (Wbsdram.next c s i) = min (resetPhase s + 1) 27 := by
  have hbound : resetPhase s ≤ 27 := by
    have hslot := h.reset.slot
    have hmono := leaves_mono (p := resetProgram) (by omega : s.resetController.rAddr.val ≤ 15)
    have hlast : leaves resetProgram 15 = 27 := by decide
    have hle : resetPhase s ≤ leaves resetProgram s.resetController.rAddr := Nat.sub_le _ _
    omega
  have hoff : s.startupHold = false := by
    cases hhold : s.startupHold
    · rfl
    · have hzero : resetPhase s = 0 := by
        rw [resetPhase, h.held hhold]
        rfl
      omega
  have hphase := h.reset.phase_next resetProgram_rests
  have hlast : leaves resetProgram 15 = 27 := by decide
  have hrep : resetProgram.optRepeat = false := rfl
  rw [hlast, hrep, if_neg (by decide : ¬(false = true))] at hphase
  show phase resetProgram (Genuctrl.next resetProgram s.resetController s.startupHold) = _
  rw [hoff, hphase]
  unfold resetPhase at *
  split_ifs <;> omega

/-- The phase of the refresh. -/
theorem Sequenced.refreshPhase_next (h : Sequenced c s) (hoff : s.resetActive = false) :
    refreshPhase c (Wbsdram.next c s i) =
      if refreshPhase c s = c.ckRemaining + 24 then 0 else refreshPhase c s + 1 := by
  have hphase := h.refresh.phase_next (refreshProgram_rests _)
  rw [refresh_period] at hphase
  show phase _ (Genuctrl.next _ s.refreshController s.resetActive) = _
  rw [hoff, hphase]
  rfl

/-! ### What the sequencers ask for -/

/-- A sequencer takes the memory: `maintenance_mode`, a clock later. -/
def takes (s : Wbsdram) : Bool := s.resetActive || s.refreshActive

/-- What it gives: `maintenance_cmd`, a clock later. -/
def gives (s : Wbsdram) : BitVec 4 :=
  if s.resetActive then s.resetController.oCmd.cmd
  else if s.refreshActive then s.refreshController.oCmd.cmd
  else cmdNoop

theorem Sequenced.resetActive_iff (h : Sequenced c s) :
    s.resetActive = true ↔ resetPhase s ≤ 25 := (reset_shows h.reset).1

theorem Sequenced.refreshActive_iff (h : Sequenced c s) : s.refreshActive = true ↔
    c.ckRemaining + 10 ≤ refreshPhase c s ∧ refreshPhase c s ≤ c.ckRemaining + 20 :=
  (refresh_shows h.refresh).2.1

theorem Sequenced.refreshStall_iff (h : Sequenced c s) : s.refreshStall = true ↔
    c.ckRemaining + 4 ≤ refreshPhase c s ∧ refreshPhase c s ≤ c.ckRemaining + 20 :=
  (refresh_shows h.refresh).1

theorem refreshPhase_le : refreshPhase c s ≤ c.ckRemaining + 24 := by
  have hmono := leaves_mono (p := refreshProgram c.ckRemaining)
    (by omega : s.refreshController.rAddr.val ≤ 15)
  rw [refresh_period] at hmono
  exact (Nat.sub_le _ _).trans hmono

/-- While the start up is on, so is its command. -/
theorem Sequenced.gives_reset (h : Sequenced c s) (hon : s.resetActive = true) : gives s =
    if resetPhase s = 3 then cmdPrecharge
    else if resetPhase s = 6 ∨ resetPhase s = 15 then cmdRefresh
    else if resetPhase s = 24 then cmdSetMode else cmdNoop := by
  rw [gives, if_pos hon]
  exact (reset_shows h.reset).2

theorem Sequenced.gives_refresh (h : Sequenced c s) (hoff : s.resetActive = false) : gives s =
    if refreshPhase c s = c.ckRemaining + 10 then cmdPrecharge
    else if refreshPhase c s = c.ckRemaining + 14 then cmdRefresh else cmdNoop := by
  have hcmd := (refresh_shows h.refresh).2.2
  have hactive := h.refreshActive_iff
  rw [gives, if_neg (by rw [hoff]; decide)]
  by_cases hon : s.refreshActive = true
  · rw [if_pos hon]
    exact hcmd
  · rw [if_neg hon]
    rw [hactive] at hon
    rw [if_neg (by omega), if_neg (by omega)]

/-- The banks are closed at one phase of each table. -/
theorem Sequenced.gives_precharge (h : Sequenced c s) (hg : gives s = cmdPrecharge) :
    (s.resetActive = true ∧ resetPhase s = 3) ∨
    (s.resetActive = false ∧ refreshPhase c s = c.ckRemaining + 10) := by
  cases hr : s.resetActive
  · rw [h.gives_refresh hr] at hg
    split_ifs at hg with h1 h2
    · exact .inr ⟨rfl, h1⟩
    · exact absurd hg (by decide)
    · exact absurd hg (by decide)
  · rw [h.gives_reset hr] at hg
    split_ifs at hg with h1 h2 h3
    · exact .inl ⟨rfl, h1⟩
    all_goals exact absurd hg (by decide)

theorem Sequenced.gives_refreshes (h : Sequenced c s) (hg : gives s = cmdRefresh) :
    (s.resetActive = true ∧ (resetPhase s = 6 ∨ resetPhase s = 15)) ∨
    (s.resetActive = false ∧ refreshPhase c s = c.ckRemaining + 14) := by
  cases hr : s.resetActive
  · rw [h.gives_refresh hr] at hg
    split_ifs at hg with h1 h2
    · exact absurd hg (by decide)
    · exact .inr ⟨rfl, h2⟩
    · exact absurd hg (by decide)
  · rw [h.gives_reset hr] at hg
    split_ifs at hg with h1 h2 h3
    · exact absurd hg (by decide)
    · exact .inl ⟨rfl, h2⟩
    all_goals exact absurd hg (by decide)

/-! ### Whole runs -/

section Runs

variable {s : ℕ → Wbsdram} {i : ℕ → SdramIn}

theorem resetActive_off (hseq : ∀ n, Sequenced c (s n))
    (hstep : ∀ n, s (n + 1) = Wbsdram.next c (s n) (i n)) {n : ℕ}
    (hoff : (s n).resetActive = false) : ∀ k, (s (n + k)).resetActive = false := by
  intro k
  induction k with
  | zero => exact hoff
  | succ k ih =>
    rw [Bool.eq_false_iff]
    intro hon
    rw [show n + (k + 1) = (n + k) + 1 from rfl, hstep] at hon
    have hold := (hseq (n + k)).kept.resetActive_of_next hon
    rw [ih] at hold
    exact absurd hold (by decide)

theorem resetPhase_add (hseq : ∀ n, Sequenced c (s n))
    (hstep : ∀ n, s (n + 1) = Wbsdram.next c (s n) (i n)) {n : ℕ}
    (hpos : 0 < resetPhase (s n)) : ∀ k, resetPhase (s n) + k ≤ 27 →
      resetPhase (s (n + k)) = resetPhase (s n) + k := by
  intro k
  induction k with
  | zero => exact fun _ => rfl
  | succ k ih =>
    intro hk
    have hlast := ih (by omega)
    rw [show n + (k + 1) = (n + k) + 1 from rfl, hstep, (hseq _).resetPhase_next (by omega), hlast]
    omega

theorem refreshPhase_add (hseq : ∀ n, Sequenced c (s n))
    (hstep : ∀ n, s (n + 1) = Wbsdram.next c (s n) (i n)) {n : ℕ}
    (hoff : (s n).resetActive = false) : ∀ k, refreshPhase c (s (n + k)) =
      (refreshPhase c (s n) + k) % (c.ckRemaining + 25) := by
  intro k
  induction k with
  | zero =>
    have hle := @refreshPhase_le c (s n)
    exact (Nat.mod_eq_of_lt (by rw [Nat.add_zero]; omega)).symm
  | succ k ih =>
    have hoff' := resetActive_off hseq hstep hoff k
    have hlt := Nat.mod_lt (refreshPhase c (s n) + k) (by omega : 0 < c.ckRemaining + 25)
    rw [show n + (k + 1) = (n + k) + 1 from rfl, hstep, (hseq _).refreshPhase_next hoff', ih,
      ← Nat.add_assoc, ← Nat.mod_add_mod (refreshPhase c (s n) + k)]
    generalize (refreshPhase c (s n) + k) % (c.ckRemaining + 25) = t at hlt ⊢
    split_ifs with hlast
    · rw [hlast]
      exact (Nat.mod_self _).symm
    · exact (Nat.mod_eq_of_lt (by omega)).symm

end Runs

end Wbsdram

end ZipStormMX.Sdram
