/-
  The step command of the debugger.

  A write to the control register of `zipbones` with the STEP bit set releases the CPU for one clock.
  `OneStep` is such a write to the halted CPU and the time until it is halted again, and what retires
  in that time is what was ready on the released clock.
-/
import ZipStormMX.Cpu.SingleStep
import ZipStormMX.Cpu.DebugWrite

namespace ZipStormMX.Cpu

variable {AW : ℕ}

/-- The CPU of this repository has neither pipeline nor divide unit nor FPU. -/
theorem zipConfig_plain (ra : BitVec AW) : (zipConfig ra).Plain where
  pipe := rfl
  early := rfl
  divide := rfl
  fpu := rfl
  sim := rfl

namespace Sys

variable {c : CpuCfg AW} {F : FetchUnit AW} {s : Sys F (memops AW c.memops)} {x : ℕ → SysIn}

theorem kinds_run (hc : c.Plain) (hr : (x 0).iReset = true) :
    ∀ n, 0 < n → Zipcpu.Kinds c (Clocked.run (next c) s x n).cpu := by
  intro n hn
  induction n, hn using Nat.le_induction with
  | base => exact Zipcpu.kinds_reset hr
  | succ n hn ih => exact Zipcpu.kinds_next hc ih (seq_run hc.toSequential hr n hn).dcd

/-- After a clock of reset nothing retires as long as the CPU is held, but for one more clock. -/
theorem none_after_reset (hc : c.Plain) {n : ℕ} (hq : Quiet c s) (hseq : Seq c s)
    (hst : (x 0).iHalt = true) (hr : (x 0).iReset = true)
    (hheld : ∀ m, 2 ≤ m → m < n → (x m).iHalt = true ∧ (x m).iReset = false) :
    ∀ m, m ≤ n → Clocked.events (next c) (retires c) s x m = [] := by
  have hi := Zipcpu.issue_of_held (x := s.cpuIn c (x 0)) hq.rest.aluPhase (Or.inl hst)
  have hav : Zipcpu.aluValid s.cpu = false := hq.rest.aluValid
  have h0 : retires c s (x 0) = [] := by
    rw [retires_of_not_issue hi, hav]
    rfl
  have hclr : Zipcpu.clearPipeline (Clocked.run (next c) s x 1).cpu = true := by
    show Zipcpu.nextNewPc c s.cpu (s.cpuIn c (x 0)) = true
    simp [Zipcpu.nextNewPc, hr]
  have hev1 : Clocked.events (next c) (retires c) s x 1 = [] := by
    show [] ++ retires c s (x 0) = []
    rw [h0]
    rfl
  have hev2 : Clocked.events (next c) (retires c) s x 2 = [] := by
    show Clocked.events (next c) (retires c) s x 1 ++ _ = []
    rw [hev1, retires_of_clear hclr]
    rfl
  have hsp : Spent c (Clocked.run (next c) s x 2) := spent_of_clear hclr
  have hsq : ∀ m, Seq c (Clocked.run (next c) s x m) := by
    intro m
    induction m with
    | zero => exact hseq
    | succ m ih => exact seq_next hc.toSequential ih
  intro m hmn
  rcases m with _ | _ | m
  · rfl
  · exact hev1
  · rw [(spent_run hc hsq hheld hsp (m + 2) (by omega) hmn).2, hev2]

end Sys

namespace Zipbones

variable {ra : BitVec AW} {startHalted : Bool} {s : Zipbones ra} {x : ℕ → BonesIn} {n : ℕ}

/-- A state that some run reaches from a clock of reset, which every power on begins with. -/
def Reachable (startHalted : Bool) (s : Zipbones ra) : Prop :=
  ∃ (s₀ : Zipbones ra) (y : ℕ → BonesIn) (t : ℕ), s₀.cmdReset = true ∧ 0 < t ∧
    s = Clocked.run (next startHalted) s₀ y t

/-- The instructions that retire on this clock. -/
def retires (s : Zipbones ra) (i : BonesIn) : List Bool :=
  Sys.retires (zipConfig ra) s.cpu (cpuIn s i)

/-- The halted CPU, awake and not at a break, is sent one step command on clock 0, and on clock `n`
    it reports itself halted again; in between the debugger leaves it alone.  A command that resets
    the CPU as well is no step. -/
structure OneStep (startHalted : Bool) (s : Zipbones ra) (x : ℕ → BonesIn) (n : ℕ) : Prop where
  reachable : Reachable startHalted s
  cmdHalt : s.cmdHalt = true
  halted : cpuDbgStall s = false
  awake : s.cpu.cpu.sleep = false
  unbroken : cpuBreak s (x 0) = false
  command : dbgCmdWrite (x 0) = true
  step : (x 0).iDbgData.getLsbD cmdStepBit = true
  noReset : (x 0).iDbgData.getLsbD cmdResetBit = false
  alone : ∀ m, 0 < m → m < n → ((x m).iDbgStb && (x m).iDbgWe) = false
  powered : ∀ m, m < n → (x m).iReset = false
  rises : ∃ a, 0 < a ∧ a < n ∧ ∀ m, m < n →
    cpuDbgStall (Clocked.run (next startHalted) s x m) = decide (a ≤ m)
  again : cpuDbgStall (Clocked.run (next startHalted) s x n) = false

/-- What the CPU sees on the clocks from the released one on. -/
def stepPins (startHalted : Bool) (s : Zipbones ra) (x : ℕ → BonesIn) (m : ℕ) : SysIn :=
  cpuIn (Clocked.run (next startHalted) s x (1 + m)) (x (1 + m))

/-- An instruction is ready on the clock on which the CPU is released, and nothing takes it back. -/
def StepReady (startHalted : Bool) (s : Zipbones ra) (x : ℕ → BonesIn) : Prop :=
  s.cmdReset = false ∧ Sys.StepReady (zipConfig ra) (next startHalted s (x 0)).cpu
    (stepPins startHalted s x)

/-- What the CPU is between a reset and the step command. -/
theorem OneStep.before (h : OneStep startHalted s x n) : Sys.Quiet (zipConfig ra) s.cpu ∧
    Sys.Seq (zipConfig ra) s.cpu ∧ Zipcpu.Kinds (zipConfig ra) s.cpu.cpu := by
  obtain ⟨s₀, y, t, hr, ht, hs⟩ := h.reachable
  have hrun : s.cpu = Clocked.run (Sys.next (zipConfig ra)) s₀.cpu
      (fun k => cpuIn (Clocked.run (next startHalted) s₀ y k) (y k)) t := by
    rw [hs]
    exact Clocked.run_map (f := Zipbones.cpu) (g := cpuIn) (fun _ _ => rfl) s₀ y t
  have hh : s.cpu.cpu.rHalted = true := by
    have := h.halted
    simpa [cpuDbgStall, Zipcpu.oDbgStall] using this
  rw [hrun] at hh ⊢
  exact ⟨Sys.quiet_at_halt rfl hr ht hh, Sys.seq_run (zipConfig_plain ra).toSequential hr t ht,
    Sys.kinds_run (zipConfig_plain ra) hr t ht⟩

theorem OneStep.long (h : OneStep startHalted s x n) : 1 < n := by
  obtain ⟨a, ha, han, -⟩ := h.rises
  omega

/-- The command itself. -/
theorem OneStep.commanded (h : OneStep startHalted s x n) :
    (next startHalted s (x 0)).cmdStep = true ∧ (next startHalted s (x 0)).cmdReset = false := by
  simp [h.command, h.step, h.noReset]

/-- After the command, `cmd_halt` is raised again, and nothing else comes from the debugger. -/
theorem OneStep.held (h : OneStep startHalted s x n) : ∀ m, 1 < m → m ≤ n →
    (Clocked.run (next startHalted) s x m).cmdHalt = true ∧
      (Clocked.run (next startHalted) s x m).cmdReset = false ∧
      (Clocked.run (next startHalted) s x m).cmdClearPfCache = false := by
  have hno : ∀ m, 0 < m → m < n → dbgCmdWrite (x m) = false := by
    intro m hm hmn
    have := h.alone m hm hmn
    simp [dbgCmdWrite, this]
  intro m hm
  induction m, hm using Nat.le_induction with
  | base =>
    intro hn
    obtain ⟨hstep, hreset⟩ := h.commanded
    show nextCmdHalt startHalted (next startHalted s (x 0)) (x 1) = true ∧
      (dbgCmdWrite (x 1) && _) = false ∧ (dbgCmdWrite (x 1) && _) = false
    rw [hno 1 (by omega) (by omega)]
    have hp := h.powered 1 (by omega)
    have hno1 := hno 1 (by omega) (by omega)
    refine ⟨?_, rfl, rfl⟩
    rw [nextCmdHalt, hp, hreset, hno1, hstep]
    simp
  | succ m hm ih =>
    intro hmn
    obtain ⟨hhalt, hreset, -⟩ := ih (by omega)
    show nextCmdHalt startHalted (Clocked.run (next startHalted) s x m) (x m) = true ∧
      (dbgCmdWrite (x m) && _) = false ∧ (dbgCmdWrite (x m) && _) = false
    have hp := h.powered m (by omega)
    have hnom := hno m (by omega) (by omega)
    rw [hnom]
    refine ⟨?_, rfl, rfl⟩
    rw [nextCmdHalt, hp, hreset, hnom, hhalt]
    simp

theorem cpu_next (s : Zipbones ra) (i : BonesIn) :
    (next startHalted s i).cpu = Sys.next (zipConfig ra) s.cpu (cpuIn s i) := rfl

/-- What retires from the command on is what retires from the released clock on. -/
theorem events_eq (h0 : retires s (x 0) = []) (hn : 0 < n) :
    Clocked.events (next startHalted) retires s x n =
      Clocked.events (Sys.next (zipConfig ra)) (Sys.retires (zipConfig ra))
        (next startHalted s (x 0)).cpu (stepPins startHalted s x) (n - 1) := by
  obtain ⟨k, rfl⟩ : ∃ k, n = 1 + k := ⟨n - 1, by omega⟩
  rw [Clocked.events_add]
  show ([] ++ retires s (x 0)) ++ _ = _
  rw [h0, List.append_nil, List.nil_append, Nat.add_sub_cancel_left]
  refine (Clocked.events_map (f := Zipbones.cpu) (g := cpuIn) cpu_next (fun _ _ => rfl)
    (Clocked.run (next startHalted) s x 1) (fun m => x (1 + m)) k).trans ?_
  congr 1
  funext m
  rw [stepPins, Clocked.run_add]

/-- The CPU from the released clock on. -/
theorem run_eq (n : ℕ) : (Clocked.run (next startHalted) s x (1 + n)).cpu =
    Clocked.run (Sys.next (zipConfig ra)) (next startHalted s (x 0)).cpu
      (stepPins startHalted s x) n := by
  rw [Clocked.run_add]
  refine (Clocked.run_map (f := Zipbones.cpu) (g := cpuIn) cpu_next _ _ n).trans ?_
  congr 1
  funext m
  rw [stepPins, Clocked.run_add]

/-- When it is halted again, all units rest. -/
theorem OneStep.rest_at_end (h : OneStep startHalted s x n) :
    Zipcpu.UnitsRest (zipConfig ra) (Clocked.run (next startHalted) s x n).cpu.cpu := by
  have hseq : ∀ m, Sys.Seq (zipConfig ra) (Clocked.run (next startHalted) s x m).cpu := by
    intro m
    induction m with
    | zero => exact h.before.2.1
    | succ m ih => exact Sys.seq_next (zipConfig_plain ra).toSequential ih
  have hh := h.again
  have hlong := h.long
  obtain ⟨k, rfl⟩ : ∃ k, n = k + 1 := ⟨n - 1, by omega⟩
  have hh' : (Clocked.run (next startHalted) s x (k + 1)).cpu.cpu.rHalted = true := by
    simpa [cpuDbgStall, Zipcpu.oDbgStall] using hh
  exact (Sys.quiet_of_halted rfl (hseq k).sane hh').rest.toUnitsRest

/-- The clocks after the released one. -/
theorem OneStep.pins (h : OneStep startHalted s x n) : ∀ m, 0 < m → m < n - 1 →
    ((stepPins startHalted s x m).iHalt = true ∧ (stepPins startHalted s x m).iClearPfCache = false) ∧
      (stepPins startHalted s x m).iReset = false ∧ (stepPins startHalted s x m).iDbgWe = false := by
  intro m hm hmn
  obtain ⟨hhalt, hreset, hclr⟩ := h.held (1 + m) (by omega) (by omega)
  have hwe := h.alone (1 + m) (by omega) (by omega)
  refine ⟨⟨hhalt, hclr⟩, hreset, ?_⟩
  show ((x (1 + m)).iDbgStb && (x (1 + m)).iDbgWe && (x (1 + m)).iDbgAddr) = false
  rw [hwe]
  rfl

/-- Unless the CPU is being reset, the command releases it for one clock. -/
theorem OneStep.released (h : OneStep startHalted s x n) (hr : s.cmdReset = false) :
    Sys.Released (stepPins startHalted s x) (n - 1) where
  released := by
    show nextCmdHalt startHalted s (x 0) = false
    have hlong := h.long
    have hp := h.powered 0 (by omega)
    rw [nextCmdHalt, hp, hr, h.command, h.step]
    simp
  held m hm hmn := (h.pins m hm hmn).1
  alone m hmn := by
    rcases Nat.eq_zero_or_pos m with rfl | hm
    · have hwe := h.alone 1 (by omega) (by omega)
      refine ⟨h.commanded.2, ?_⟩
      show ((x 1).iDbgStb && (x 1).iDbgWe && (x 1).iDbgAddr) = false
      rw [hwe]
      rfl
    · exact (h.pins m hm hmn).2

/-- **A step command executes what is ready.** -/
theorem step_one_iff (h : OneStep startHalted s x n) :
    Sys.OneRetired (Clocked.events (next startHalted) retires s x n) ↔
      StepReady startHalted s x := by
  have hc := zipConfig_plain ra
  have hlong := h.long
  obtain ⟨hq, hseq, hkinds⟩ := h.before
  have hst : (cpuIn s (x 0)).iHalt = true := h.cmdHalt
  have hi := Zipcpu.issue_of_held (x := s.cpu.cpuIn (zipConfig ra) (cpuIn s (x 0)))
    hq.rest.aluPhase (Or.inl hst)
  have h0 : retires s (x 0) = [] := by
    have hav : Zipcpu.aluValid s.cpu.cpu = false := hq.rest.aluValid
    rw [retires, Sys.retires_of_not_issue hi, hav]
    rfl
  cases hr : s.cmdReset
  · -- the command releases the CPU
    have hdbgv : (next startHalted s (x 0)).cpu.cpu.dbgv = false := by
      have haddr : (x 0).iDbgAddr = false := by
        have hcmd := h.command
        simp only [dbgCmdWrite, Bool.and_eq_true, Bool.not_eq_true'] at hcmd
        exact hcmd.2
      have hwe : (cpuIn s (x 0)).iDbgWe = false := by simp [cpuIn, cpuDbgWe, haddr]
      simp [hwe]
    have hat : Sys.AtRelease (zipConfig ra) (next startHalted s (x 0)).cpu :=
      ⟨Sys.quiet_next rfl hq (Or.inl hi), Sys.seq_next hc.toSequential hseq,
        Zipcpu.kinds_next hc hkinds hseq.dcd, hdbgv⟩
    have hn : 1 < n - 1 := by
      -- the CPU is not halted on the clock after the released one
      obtain ⟨a, ha, han, hall⟩ := h.rises
      by_contra hle
      obtain rfl : n = 2 := by omega
      have hh := h.again
      have hnot : (Clocked.run (next startHalted) s x 2).cpu.cpu.rHalted = false := by
        have hrel := (h.released hr).released
        show Zipcpu.nextHalted (zipConfig ra) _ (Sys.cpuIn _ _ (stepPins startHalted s x 0)) = false
        simp [Zipcpu.nextHalted, hrel, hc.pipe]
      simp [cpuDbgStall, Zipcpu.oDbgStall, hnot] at hh
    have hend : Zipcpu.UnitsRest (zipConfig ra) (Clocked.run (Sys.next (zipConfig ra))
        (next startHalted s (x 0)).cpu (stepPins startHalted s x) (n - 1)).cpu := by
      have hend := h.rest_at_end
      rwa [show n = 1 + (n - 1) by omega, run_eq] at hend
    have hmpy : 1 < (zipConfig ra).implementMpy := show 1 < 32 by decide
    rw [events_eq h0 (by omega), Sys.one_retired_iff hc hat (h.released hr) hmpy hn hend]
    exact ⟨fun hready => ⟨hr, hready⟩, fun hready => hready.2⟩
  · -- the command is lost in a reset
    have hnone : Clocked.events (next startHalted) retires s x n = [] := by
      refine (Clocked.events_map (f := Zipbones.cpu) (g := cpuIn) cpu_next (fun _ _ => rfl)
        s x n).trans ?_
      exact Sys.none_after_reset hc hq hseq hst hr
        (fun m hm hmn => ⟨(h.held m (by omega) (by omega)).1, (h.held m (by omega) (by omega)).2.1⟩)
        n (le_refl n)
    rw [hnone]
    constructor
    · rintro (hone | hone) <;> cases hone
    · rintro ⟨hno, -⟩
      rw [hr] at hno
      cases hno

end Zipbones

/-! ## Two steps -/

/-- `zipbones` with a memory on its bus. -/
structure Bench (ra : BitVec AW) where
  bones : Zipbones ra
  memory : Memdev AW

namespace Bench

variable {ra : BitVec AW}

/-- The pins of `zipbones`: those of the debugger come from outside, those of the bus from the
    memory. -/
def pins (b : Bench ra) (k : BonesIn) : BonesIn :=
  { k with
    iWbAck := b.memory.oWbAck, iWbStall := false, iWbErr := false, iWbData := b.memory.oWbData }

def next (startHalted : Bool) (b : Bench ra) (k : BonesIn) : Bench ra where
  bones := b.bones.next startHalted (b.pins k)
  memory := b.memory.next true k.iReset
    (b.bones.cpu.bus (zipConfig ra) (b.bones.cpuIn (b.pins k)))

end Bench

namespace Zipbones

/-- At power on, as this repository configures it: in reset, and halted. -/
def init (ra : BitVec AW) : Zipbones ra where
  cpu := Sys.init (zipConfig ra)
  cmdReset := true
  cmdHalt := true
  cmdStep := false
  cmdClearPfCache := true
  cmdAddr := 0

/-- A debugger that sends a step command on clock 20 and another one on clock 40. -/
def stepper (n : ℕ) : BonesIn where
  iReset := false
  iExtInt := false
  iWbAck := false
  iWbStall := false
  iWbErr := false
  iWbData := 0
  iDbgStb := n == 20 || n == 40
  iDbgWe := n == 20 || n == 40
  iDbgAddr := false
  iDbgData := 0x100#32

/-- What `zipbones` sees under that debugger, with a program in its memory. -/
def stepPinsAt (n : ℕ) : BonesIn :=
  (Clocked.run (Bench.next true) ⟨init 0#21, Memdev.init (image Sys.countProg)⟩ stepper n).pins
    (stepper n)

/-- What is seen on clock `t` of that run, from clock `t` on. -/
theorem oneStep_stepper {t n : ℕ} (ht : 0 < t)
    (hhalt : (Clocked.run (next true) (init 0#21) stepPinsAt t).cmdHalt = true)
    (hstall : cpuDbgStall (Clocked.run (next true) (init 0#21) stepPinsAt t) = false)
    (hsleep : (Clocked.run (next true) (init 0#21) stepPinsAt t).cpu.cpu.sleep = false)
    (hbreak : cpuBreak (Clocked.run (next true) (init 0#21) stepPinsAt t) (stepPinsAt t) = false)
    (hstep : t = 20 ∨ t = 40) (hn : 2 < n ∧ n < 20)
    (hrises : ∀ m < n, cpuDbgStall (Clocked.run (next true)
      (Clocked.run (next true) (init 0#21) stepPinsAt t) (fun m => stepPinsAt (t + m)) m) =
        decide (2 ≤ m))
    (hagain : cpuDbgStall (Clocked.run (next true)
      (Clocked.run (next true) (init 0#21) stepPinsAt t) (fun m => stepPinsAt (t + m)) n) = false) :
    OneStep true (Clocked.run (next true) (init 0#21) stepPinsAt t)
      (fun m => stepPinsAt (t + m)) n where
  reachable := ⟨init 0#21, stepPinsAt, t, rfl, ht, rfl⟩
  cmdHalt := hhalt
  halted := hstall
  awake := hsleep
  unbroken := hbreak
  command := by rcases hstep with rfl | rfl <;> rfl
  step := by show (0x100#32).getLsbD cmdStepBit = true; decide
  noReset := by show (0x100#32).getLsbD cmdResetBit = false; decide
  alone m hm hmn := by
    have hno : (t + m == 20 || t + m == 40) = false := by
      simp only [Bool.or_eq_false_iff, beq_eq_false_iff_ne]
      omega
    show ((t + m == 20 || t + m == 40) && (t + m == 20 || t + m == 40)) = false
    rw [hno]
    rfl
  powered _ _ := rfl
  rises := ⟨2, by omega, by omega, hrises⟩
  again := hagain

/-- The second of the two commands finds an instruction in the operand stage, and executes it. -/
theorem second_step_retires_one :
    Sys.OneRetired (Clocked.events (next true) retires
      (Clocked.run (next true) (init 0#21) stepPinsAt 40) (fun m => stepPinsAt (40 + m)) 3) := by
  refine (step_one_iff (oneStep_stepper (by decide) (by decide +kernel) (by decide +kernel)
    (by decide +kernel) (by decide +kernel) (Or.inr rfl) (by decide) (by decide +kernel)
    (by decide +kernel))).mpr ⟨by decide +kernel, ?_⟩
  refine ⟨⟨by decide +kernel, by decide +kernel, by decide +kernel, by decide +kernel,
    by decide +kernel, by decide +kernel, by decide +kernel, by decide +kernel⟩, by decide +kernel,
    fun _ => ⟨by decide +kernel, by decide +kernel⟩, fun _ hmul => ?_, fun _ hmul => ?_⟩
  -- an LDI is no multiplication
  · exact absurd hmul (by decide +kernel)
  · exact absurd hmul (by decide +kernel)

/-- The first one finds the operand stage empty: an instruction is decoded, and none retires. -/
theorem first_step_retires_none :
    ¬ ∀ (s : Zipbones 0#21) (x : ℕ → BonesIn) (n : ℕ), OneStep true s x n →
        Sys.OneRetired (Clocked.events (next true) retires s x n) := by
  intro h
  have hone := h _ _ 6 (oneStep_stepper (t := 20) (by decide) (by decide +kernel)
    (by decide +kernel) (by decide +kernel) (by decide +kernel) (Or.inl rfl) (by decide)
    (by decide +kernel) (by decide +kernel))
  have hnone : Clocked.events (next true) retires (Clocked.run (next true) (init 0#21) stepPinsAt 20)
      (fun m => stepPinsAt (20 + m)) 6 = [] := by
    decide +kernel
  rw [hnone] at hone
  rcases hone with hone | hone <;> cases hone

end Zipbones

end ZipStormMX.Cpu
