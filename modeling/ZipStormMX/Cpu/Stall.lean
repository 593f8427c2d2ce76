/-
  What it takes for an instruction to leave the operand stage.

  `adf_ce_unconditional` and `mem_ce` both come out of `master_stall`, and `master_stall` out of
  `master_ce`.  The conditions are collected once, as `Ready`, and everything that later needs to
  know why nothing is issued (asleep, halted, a CC register being written, a unit at work) reads it
  from there.
-/
import ZipStormMX.Cpu.Zipcpu

namespace ZipStormMX.Cpu.Zipcpu

variable {AW : ℕ} {c : CpuCfg AW} {s : Zipcpu AW} {x : CpuIn AW}

/-! ## `master_ce` -/

theorem masterCe_iff : masterCe c s x = true ↔
    (x.iHalt = false ∨ aluPhase c s = true) ∧ ccWriteHold c s x = false ∧ oBreak c s x = false ∧
      s.sleep = false := by
  simp [masterCe, and_assoc]

theorem masterCe_of_sleep (h : s.sleep = true) : masterCe c s x = false := by
  simp [masterCe, h]

theorem masterCe_of_ccWrite (hw : wrRegCe c s x = true) (hcc : wrWriteCc s x = true) :
    masterCe c s x = false := by
  simp [masterCe, ccWriteHold, hw, hcc]

/-! ## `master_stall` -/

/-- Nothing holds the operand stage back. -/
structure Ready (c : CpuCfg AW) (s : Zipcpu AW) (x : CpuIn AW) : Prop where
  masterCe : masterCe c s x = true
  opValid : s.opValid = true
  illErrI : s.illErrI = false
  ibusErrFlag : s.ibusErrFlag = false
  idivErrFlag : idivErrFlag c s = false
  pending : pendingInterrupt s = true → aluPhase c s = true
  aluBusy : aluBusy s = false
  divBusy : divBusy c s = false
  opBreak : opBreak s = false
  illegal : c.optPipelined = true → x.memBusy = true → s.opIllegal = false
  aluIllegal : c.optPipelined = true → aluIllegal c s = false

theorem ready_of_not_masterStall (h : masterStall c s x = false) : Ready c s x := by
  simp only [masterStall, Bool.or_eq_false_iff, Bool.not_eq_false', Bool.and_eq_false_iff] at h
  obtain ⟨⟨⟨⟨⟨⟨⟨⟨⟨⟨hce, hov⟩, hill⟩, hbus⟩, hdiv⟩, hpend⟩, halu⟩, hdb⟩, -⟩, hbrk⟩, hpipe⟩ := h
  refine ⟨hce, hov, hill, hbus, hdiv, ?_, halu, hdb, hbrk, ?_, ?_⟩
  · intro hp
    rcases hpend with hpend | hpend
    · rw [hp] at hpend
      cases hpend
    · exact hpend
  · intro hc hm
    rcases hpipe with hpipe | ⟨⟨⟨⟨-, hi⟩, -⟩, -⟩, -⟩
    · rw [hc] at hpipe
      cases hpipe
    · rcases hi with hi | hi
      · rw [hm] at hi
        cases hi
      · exact hi
  · intro hc
    rcases hpipe with hpipe | ⟨⟨-, ha⟩, -⟩
    · rw [hc] at hpipe
      cases hpipe
    · exact ha

theorem ready_of_adf (h : adfCeUnconditional c s x = true) : Ready c s x := by
  apply ready_of_not_masterStall
  cases hst : masterStall c s x
  · rfl
  · simp [adfCeUnconditional, hst] at h

theorem not_memStalled_imp (h : memStalled c s x = false) : masterStall c s x = false := by
  cases hst : masterStall c s x
  · rfl
  · simp [memStalled, hst] at h

theorem ready_of_memCe (h : memCe c s x = true) : Ready c s x := by
  simp only [memCe, Bool.and_eq_true, Bool.not_eq_true'] at h
  exact ready_of_not_masterStall (not_memStalled_imp h.1.2)

/-- **What an issue takes.** -/
theorem ready_of_issue (h : issue c s x = true) : Ready c s x := by
  rcases Bool.or_eq_true_iff.mp h with h | h
  · exact ready_of_adf h
  · exact ready_of_memCe h

theorem issue_of_not_masterCe (h : masterCe c s x = false) : issue c s x = false := by
  cases hi : issue c s x
  · rfl
  · have := (ready_of_issue hi).masterCe
    rw [h] at this
    cases this

/-- Without an issue, `alu_phase` keeps its value or the pipeline is cleared. -/
theorem nextAluPhase_of_not_issue (h : issue c s x = false) :
    nextAluPhase c s x = (!(x.iReset || clearPipeline s) && s.rAluPhase) := by
  simp [nextAluPhase, h]

end ZipStormMX.Cpu.Zipcpu
