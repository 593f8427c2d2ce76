/-
  The halted CPU.

  `r_halted` is raised only when nothing is on its way: no unit busy, no bus cycle, no second half of
  a compressed pair to come.  From then on, as long as nothing is issued, the CPU is `Quiet`: the only
  write to a register can be one of the debugger's, and the program counters stand.  What `r_halted`
  does not look at, results that are ready, is covered by `Sane`, which every run keeps from its
  reset on.
-/
import ZipStormMX.Cpu.Stall
import ZipStormMX.Cpu.Units
import ZipStormMX.Cpu.MemQueue

namespace ZipStormMX.Cpu

variable {AW : ℕ}

namespace Zipcpu

variable {c : CpuCfg AW} {s : Zipcpu AW} {x : CpuIn AW}

/-! ## What every run keeps -/

/-- The units cover what they have under way; an instruction is over (`alu_pc_valid`) only when it
    is not the first half of a pair, so that the halt phases tell of no half; the write-back takes
    the value of a debug write from the debug port. -/
structure Sane (c : CpuCfg AW) (s : Zipcpu AW) : Prop where
  alu : Cpuops.Sound c.implementMpy s.alu
  div : c.implementDivide = true → Div.Sound s.div
  phase : s.rAluPcValid = true → s.rAluPhase = false
  ihalt : s.rIhaltPhase = false
  uhalt : s.rGie = true → s.rUhaltPhase = false
  port : s.dbgv = true → s.wrIndex = 0

theorem wrIndex_of_dbgWrite (h : dbgWrite s x = true) : nextWrIndex c s x = 0 := by
  simp [nextWrIndex, h]

theorem sane_of_reset (hr : x.iReset = true) : Sane c (next c s x) where
  alu := Cpuops.sound_reset (by simp [aluReset, hr])
  div _ := Div.sound_reset (by simp [aluReset, hr])
  phase _ := by simp [nextAluPhase, hr]
  ihalt := by simp [nextIhaltPhase, hr]
  uhalt _ := by simp [nextUhaltPhase, hr]
  port h := by simp [hr] at h

/-- While a unit works, nothing is issued. -/
theorem issue_of_unitBusy (h : aluBusy s = true ∨ divBusy c s = true) : issue c s x = false := by
  cases hi : issue c s x
  · rfl
  · have hready := ready_of_issue hi
    rcases h with h | h
    · rw [hready.aluBusy] at h
      cases h
    · rw [hready.divBusy] at h
      cases h

theorem phase_next (h : s.rAluPcValid = true → s.rAluPhase = false)
    (hv : nextAluPcValid c s x = true) : nextAluPhase c s x = false := by
  simp only [nextAluPcValid] at hv
  split at hv
  · cases hv
  rename_i hn
  split at hv
  · -- a whole instruction, or a second half, is issued
    rename_i ha
    obtain ⟨ha, hp⟩ := Bool.and_eq_true_iff.mp ha
    have hp : opPhase c s = false := by simpa using hp
    have hi : issue c s x = true := by simp [issue, ha]
    simp [nextAluPhase, hi, hp]
  · split at hv
    · cases hv
    · -- a unit is still at work on the last one
      rename_i hb
      have hbusy : aluBusy s = true ∨ divBusy c s = true := by
        cases ha : aluBusy s <;> cases hd : divBusy c s <;> simp_all [fpuBusy]
      rw [nextAluPhase_of_not_issue (issue_of_unitBusy hbusy), h hv, Bool.and_false]

theorem aluPhase_of_aluPcValid (h : Sane c s) (hv : aluPcValid c s = true) :
    aluPhase c s = false := by
  have hr : s.rAluPcValid = true := (Bool.and_eq_true_iff.mp hv).1
  simp [aluPhase, h.phase hr]

theorem sane_next (h : Sane c s) : Sane c (next c s x) where
  alu := Cpuops.sound_next h.alu fun ha =>
    (ready_of_adf (Bool.and_eq_true_iff.mp ha).1).aluBusy
  div hc := by
    refine Div.sound_next (h.div hc) fun hd => ?_
    simp only [divCe, Bool.and_eq_true] at hd
    have hb := (ready_of_adf hd.1.2).divBusy
    simpa [divBusy, hc] using hb
  phase hv := phase_next h.phase hv
  ihalt := by
    simp only [next_rIhaltPhase, nextIhaltPhase]
    split
    · rfl
    · split
      · rename_i hv
        simp only [Bool.and_eq_true] at hv
        exact aluPhase_of_aluPcValid h hv.1.2
      · exact h.ihalt
  uhalt hg := by
    simp only [next_rUhaltPhase, nextUhaltPhase]
    split
    · rfl
    · rename_i hn
      have hg0 : s.rGie = true := by
        simp only [next_rGie, nextGie] at hg
        split at hg
        · cases hg
        · split at hg
          · cases hg
          · split at hg
            · rename_i hrel
              simp [hrel] at hn
            · exact hg
      split
      · rename_i hv
        exact aluPhase_of_aluPcValid h (Bool.and_eq_true_iff.mp hv).2
      · rw [if_neg (by simp [gie, hg0])]
        exact h.uhalt hg0
  port hd := by
    simp only [next_dbgv, Bool.and_eq_true] at hd
    exact wrIndex_of_dbgWrite (by simp [dbgWrite, hd.2.1, hd.2.2])

/-! ## Nothing on its way -/

/-- No unit of the CPU works or has a result ready. -/
structure UnitsRest (c : CpuCfg AW) (s : Zipcpu AW) : Prop where
  aluBusy : aluBusy s = false
  aluValid : aluValid s = false
  divBusy : divBusy c s = false
  divValid : divValid c s = false
  divError : divError c s = false

/-- Nor is a half of a pair owed, nor a program counter about to move. -/
structure Resting (c : CpuCfg AW) (s : Zipcpu AW) : Prop extends UnitsRest c s where
  aluPhase : aluPhase c s = false
  aluPc : clearPipeline s = false → s.rAluPcValid = false
  memPc : s.memPcValid = false

/-- Nothing takes effect on this clock: there is no issue, or the pipeline is being cleared. -/
def Idle (c : CpuCfg AW) (s : Zipcpu AW) (x : CpuIn AW) : Prop :=
  issue c s x = false ∨ clearPipeline s = true

theorem adf_of_not_issue (h : issue c s x = false) : adfCeUnconditional c s x = false :=
  (Bool.or_eq_false_iff.mp h).1

theorem memCe_of_not_issue (h : issue c s x = false) : memCe c s x = false :=
  (Bool.or_eq_false_iff.mp h).2

theorem memCe_of_idle (h : Idle c s x) : memCe c s x = false := by
  rcases h with h | h
  · exact memCe_of_not_issue h
  · simp [memCe, h]

/-- The units at the end of an idle clock on which none of them was busy. -/
theorem unitsRest_next (hs : Sane c s) (ha : aluBusy s = false) (hd : divBusy c s = false)
    (hi : Idle c s x) : UnitsRest c (next c s x) := by
  have halu : (next c s x).alu.rBusy = false ∧ (next c s x).alu.oValid = false := by
    rcases hi with hi | hi
    · exact Cpuops.rest_next hs.alu ha (by simp [aluCe, adf_of_not_issue hi])
    · exact Cpuops.rest_reset (by simp [aluReset, hi])
  have hdiv : c.implementDivide = true → (next c s x).div.oBusy = false ∧
      (next c s x).div.oValid = false ∧ (next c s x).div.oErr = false := by
    intro hc
    rcases hi with hi | hi
    · refine Div.rest_next (hs.div hc) ?_ (by simp [divCe, adf_of_not_issue hi])
      simpa [divBusy, hc] using hd
    · exact Div.rest_reset (by simp [aluReset, hi])
  refine ⟨halu.1, halu.2, ?_, ?_, ?_⟩
  · cases hc : c.implementDivide
    · simp [divBusy, hc]
    · rw [divBusy, (hdiv hc).1, Bool.and_false]
  · cases hc : c.implementDivide
    · simp [divValid, hc]
    · rw [divValid, (hdiv hc).2.1, Bool.and_false]
  · cases hc : c.implementDivide
    · simp [divError, hc]
    · rw [divError, (hdiv hc).2.2, Bool.and_false]

theorem resting_next (hs : Sane c s) (ha : aluBusy s = false) (hd : divBusy c s = false)
    (hp : aluPhase c s = false) (hi : Idle c s x) : Resting c (next c s x) where
  toUnitsRest := unitsRest_next hs ha hd hi
  aluPhase := by
    rcases hi with hi | hi
    · simp only [aluPhase, Bool.and_eq_false_iff] at hp
      simp only [aluPhase, next_rAluPhase, nextAluPhase_of_not_issue hi]
      rcases hp with hp | hp <;> simp [hp]
    · simp [aluPhase, nextAluPhase, hi]
  aluPc _ := by
    simp only [next_rAluPcValid, nextAluPcValid]
    rcases hi with hi | hi
    · simp [adf_of_not_issue hi, ha, hd, fpuBusy]
    · simp [hi]
  memPc := by simp [memCe_of_idle hi]

/-- At rest, no program counter moves by itself. -/
theorem Resting.pcStrobe (h : Resting c s) : pcStrobe c s = false := by
  simp only [Zipcpu.pcStrobe, h.memPc, Bool.or_false]
  cases hn : clearPipeline s
  · simp [aluPcValid, h.aluPc hn]
  · simp

/-- At rest, no flags are written. -/
theorem Resting.wrFlagsCe (h : Resting c s) : wrFlagsCe c s = false := by
  simp only [Zipcpu.wrFlagsCe]
  split <;> simp [h.aluValid, h.divValid, fpuValid]

/-- Halted, or with nothing in the operand stage, the CPU issues nothing. -/
theorem issue_of_held (h : aluPhase c s = false) (hx : x.iHalt = true ∨ s.opValid = false) :
    issue c s x = false := by
  cases hi : issue c s x
  · rfl
  · have hready := ready_of_issue hi
    rcases hx with hx | hx
    · have hce := hready.masterCe
      simp [masterCe, hx, h] at hce
    · rw [hready.opValid] at hx
      cases hx

end Zipcpu

/-! ## The memory unit -/

/-- `memops` without a lock: not busy and not asked, it has nothing to say on the next clock. -/
theorem Memops.rest_next {c : MemCfg} {s : Memops AW} {i : MemIn} (hl : c.implementLock = false)
    (hb : oBusy s = false) (hs : i.iStb = false) :
    oBusy (next c s i) = false ∧ (next c s i).oValid = false ∧ (next c s i).oErr = false := by
  simp only [oBusy, Bool.or_eq_false_iff] at hb
  refine ⟨?_, ?_, ?_⟩
  · simp [oBusy, nextCycGbl, nextCycLcl, hb.1, hb.2, gblStb, lclStb, hs]
  · simp [oWbCycGbl, oWbCycLcl, hb.1, hb.2, hl]
  · simp [nextErr, hb.1, hb.2, hs]

namespace Sys

variable {c : CpuCfg AW} {F : FetchUnit AW} {s : Sys F (memops AW c.memops)} {i : SysIn}

/-- Nothing is on its way, in the CPU or on the bus. -/
structure Quiet (c : CpuCfg AW) (s : Sys F (memops AW c.memops)) : Prop where
  sane : Zipcpu.Sane c s.cpu
  rest : Zipcpu.Resting c s.cpu
  memBusy : (memOut s).oBusy = false
  memValid : (memOut s).oValid = false
  busErr : (memOut s).oErr = false

theorem quiet_next_of (hc : c.optPipelined = false) (hs : Zipcpu.Sane c s.cpu)
    (ha : Zipcpu.aluBusy s.cpu = false) (hd : Zipcpu.divBusy c s.cpu = false)
    (hp : Zipcpu.aluPhase c s.cpu = false) (hm : (memOut s).oBusy = false)
    (hi : Zipcpu.Idle c s.cpu (s.cpuIn c i)) : Quiet c (s.next c i) := by
  have hstb : (s.memIn c i).iStb = false := by
    simp [memIn, Zipcpu.memIn, Zipcpu.memStb, Zipcpu.memCe_of_idle hi]
  have hl : c.memops.implementLock = false := by simp [CpuCfg.memops, CpuCfg.optLock, hc]
  obtain ⟨hb, hv, he⟩ := Memops.rest_next hl hm hstb
  exact ⟨Zipcpu.sane_next hs, Zipcpu.resting_next hs ha hd hp hi, hb, hv, he⟩

/-- **Quiet it stays** as long as nothing takes effect. -/
theorem quiet_next (hc : c.optPipelined = false) (h : Quiet c s)
    (hi : Zipcpu.Idle c s.cpu (s.cpuIn c i)) : Quiet c (s.next c i) :=
  quiet_next_of hc h.sane h.rest.aluBusy h.rest.divBusy h.rest.aluPhase h.memBusy hi

/-- **A halted CPU is quiet.** -/
theorem quiet_of_halted (hc : c.optPipelined = false) (hs : Zipcpu.Sane c s.cpu)
    (hh : (s.next c i).cpu.rHalted = true) : Quiet c (s.next c i) := by
  have hh' : Zipcpu.nextHalted c s.cpu (s.cpuIn c i) = true := hh
  simp only [Zipcpu.nextHalted, hc, Bool.false_eq_true, if_false, Bool.and_eq_true,
    Bool.not_eq_true'] at hh'
  obtain ⟨⟨⟨⟨⟨⟨hx, hp⟩, -⟩, hm⟩, ha⟩, hd⟩, -⟩ := hh'
  exact quiet_next_of hc hs ha hd hp hm (Or.inl (Zipcpu.issue_of_held hp (Or.inl hx)))

/-- So is one that comes out of reset. -/
theorem quiet_of_reset (hr : i.iReset = true) : Quiet c (s.next c i) where
  sane := Zipcpu.sane_of_reset hr
  rest :=
    { aluBusy := by
        exact (Cpuops.rest_reset (by simp [Zipcpu.aluReset, hr])).1
      aluValid := by
        exact (Cpuops.rest_reset (by simp [Zipcpu.aluReset, hr])).2
      divBusy := by
        simp [Zipcpu.divBusy, Div.nextBusy, Zipcpu.aluReset, hr]
      divValid := by
        simp [Zipcpu.divValid, Div.nextValid, Zipcpu.aluReset, hr]
      divError := by
        simp [Zipcpu.divError, Zipcpu.aluReset, hr]
      aluPhase := by simp [Zipcpu.aluPhase, Zipcpu.nextAluPhase, hr]
      aluPc := by simp [Zipcpu.clearPipeline, Zipcpu.nextNewPc, hr]
      memPc := by simp [hr] }
  memBusy := (Memops.rest_reset (i := s.memIn c i) hr).1
  memValid := (Memops.rest_reset (i := s.memIn c i) hr).2.1
  busErr := (Memops.rest_reset (i := s.memIn c i) hr).2.2

end Sys

end ZipStormMX.Cpu
