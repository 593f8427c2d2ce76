/-
  The supervisor at work, and nothing from outside.

  `Calm` says that the registers a program sees are those of the interpreter's state, and that
  nothing else can change them: no user mode, no error, no break, no sleep.  So it stays from clock
  to clock, up to what the write-back does (`Calm.next`), as long as that is no CC register; a write
  to the program counter clears the pipeline, and nothing else does.  What an instruction waits for
  is then only the instruction ahead of it.
-/
import ZipStormMX.Cpu.Intake
import ZipStormMX.Cpu.UnitWork

namespace ZipStormMX.Cpu.Zipcpu

variable {AW : ℕ} {c : CpuCfg AW} {prog : BitVec AW → BitVec 32} {s : Zipcpu AW} {x : CpuIn AW}
  {a : Arch AW}

/-! ## Nothing from outside -/

/-- No reset, no debugger, no halt and no bus error.  Interrupts may come. -/
structure Undisturbed (x : CpuIn AW) : Prop where
  reset : x.iReset = false
  halt : x.iHalt = false
  dbgWe : x.iDbgWe = false
  clear : x.iClearPfCache = false
  busErr : x.busErr = false

/-- The supervisor runs, with the registers of `a`; no error, break, sleep, step or trap. -/
structure Calm (s : Zipcpu AW) (a : Arch AW) : Prop where
  rGie : s.rGie = false
  sleep : s.sleep = false
  rTrap : s.rTrap = false
  rUbreak : s.rUbreak = false
  illErrI : s.illErrI = false
  rIllErrU : s.rIllErrU = false
  ibusErrFlag : s.ibusErrFlag = false
  rUbusErrFlag : s.rUbusErrFlag = false
  breakEn : s.breakEn = false
  step : s.step = false
  rClearIcache : s.rClearIcache = false
  dbgv : s.dbgv = false
  dbgClearPipe : s.dbgClearPipe = false
  lastWriteToCc : s.lastWriteToCc = false
  rPendingInterrupt : s.rPendingInterrupt = false
  opIllegal : s.opIllegal = false
  opBreak : clearPipeline s = false → s.rOpBreak = false
  regs : s.regset = a.regs
  flags : s.iflags = a.flags
  userFlags : s.flags = a.userFlags
  upc : s.rUpc = a.upc
  uphase : s.rUhaltPhase = a.uphase

/-- The registers after a write of `v` to register `r`, if `w`, and of the flags, if `f`. -/
def written (a : Arch AW) (w : Bool) (r : BitVec 5) (v : BitVec 32) (f : Bool) (fl : BitVec 4) :
    Arch AW :=
  let b : Arch AW := { a with flags := if f then fl else a.flags }
  if w then b.write r v else b

/-- What the write-back does on this clock. -/
structure WritesBack (c : CpuCfg AW) (s : Zipcpu AW) (x : CpuIn AW) (w : Bool) (r : BitVec 5)
    (v : BitVec 32) (f : Bool) (fl : BitVec 4) : Prop where
  ce : wrRegCe c s x = w
  reg : w = true → wrRegId s x = r
  value : w = true → wrGpregVl c s x = v
  special : w = true → wrSpregVl s x = v
  noCc : w = true → r.extractLsb' 0 4 ≠ ccReg
  flagsCe : wrFlagsCe c s = f
  flagsAre : f = true → newFlags c s = fl

/-- The two program counters by their numbers. -/
theorem user_pc (r : BitVec 5) :
    (r.getLsbD 4 && r.extractLsb' 0 4 == pcReg) = (r == 1#1 ++ pcReg) := by
  revert r
  decide

theorem own_pc (r : BitVec 5) :
    (!r.getLsbD 4 && r.extractLsb' 0 4 == pcReg) = (r == 0#1 ++ pcReg) := by
  revert r
  decide

namespace WritesBack

variable {w f : Bool} {r : BitVec 5} {v : BitVec 32} {fl : BitVec 4}

theorem cc (h : WritesBack c s x w r v f fl) : (wrRegCe c s x && wrWriteCc s x) = false := by
  cases hw : wrRegCe c s x
  · rfl
  · have hw' : w = true := h.ce.symm.trans hw
    rw [wrWriteCc, h.reg hw', Bool.true_and, beq_eq_false_iff_ne]
    exact h.noCc hw'

theorem scc (h : WritesBack c s x w r v f fl) : (wrRegCe c s x && wrWriteScc s x) = false := by
  have hcc := h.cc
  cases hw : wrRegCe c s x
  · rfl
  · rw [hw, Bool.true_and] at hcc
    rw [Bool.true_and]
    rw [wrWriteCc, beq_eq_false_iff_ne] at hcc
    rw [wrWriteScc, beq_eq_false_iff_ne]
    rintro heq
    rw [heq] at hcc
    exact hcc rfl

theorem ucc (h : WritesBack c s x w r v f fl) : (wrRegCe c s x && wrWriteUcc s x) = false := by
  have hcc := h.cc
  cases hw : wrRegCe c s x
  · rfl
  · rw [hw, Bool.true_and] at hcc
    rw [Bool.true_and]
    rw [wrWriteCc, beq_eq_false_iff_ne] at hcc
    rw [wrWriteUcc, beq_eq_false_iff_ne]
    rintro heq
    rw [heq] at hcc
    exact hcc rfl

theorem release (h : WritesBack c s x w r v f fl) : wReleaseFromInterrupt c s x = false := by
  have hscc := h.scc
  rw [wReleaseFromInterrupt]
  cases hce : wrRegCe c s x
  · simp
  · rw [hce, Bool.true_and] at hscc
    rw [hscc, Bool.and_false, Bool.and_false]

theorem userPc (h : WritesBack c s x w r v f fl) :
    (wrRegCe c s x && (wrRegId s x).getLsbD 4 && wrWritePc s x) = (w && r == 1#1 ++ pcReg) := by
  rw [h.ce]
  cases hw : w
  · rfl
  · rw [wrWritePc, h.reg hw, Bool.true_and, Bool.true_and, user_pc]

theorem ownPc (h : WritesBack c s x w r v f fl) :
    (wrRegCe c s x && !(wrRegId s x).getLsbD 4 && wrWritePc s x) = (w && r == 0#1 ++ pcReg) := by
  rw [h.ce]
  cases hw : w
  · rfl
  · rw [wrWritePc, h.reg hw, Bool.true_and, Bool.true_and, own_pc]

theorem target (h : WritesBack c s x w r v f fl) (hw : w = true) : spregPc s x = jumpTarget v := by
  rw [spregPc, h.special hw]
  rfl

end WritesBack

/-! ## The registers of the program -/

section

variable {w f : Bool} {r : BitVec 5} {v : BitVec 32} {fl : BitVec 4}

theorem Calm.mode (h : Calm s a) : gie s = false := h.rGie

theorem Calm.aluIllegal (h : Calm s a) (hc : c.Sequential) : aluIllegal c s = false := by
  rw [Zipcpu.aluIllegal, hc.pipe, if_neg Bool.false_ne_true, h.opIllegal]

theorem Calm.nextGie (h : Calm s a) (hw : WritesBack c s x w r v f fl) :
    nextGie c s x = false := by
  rw [Zipcpu.nextGie, hw.release, if_neg Bool.false_ne_true, h.rGie, ite_self, ite_self]

/-- **The program's registers** take what is written back, and nothing else happens. -/
theorem Calm.next (h : Calm s a) (hc : c.Sequential) (hx : Undisturbed x)
    (hw : WritesBack c s x w r v f fl)
    (hdec : clearPipeline s = false → dcdValid s = true →
      s.dcd.oIllegal = false ∧ s.dcd.oBreak = false) :
    Calm (next c s x) (written a w r v f fl) := by
  have hg := h.mode
  have hscc := hw.scc
  have hucc := hw.ucc
  have hill := h.aluIllegal hc
  have hswitch : wSwitchToInterrupt c s x = false := by rw [wSwitchToInterrupt, hg]; rfl
  have hrel := hw.release
  have houter : outerUccWrite c s x = false := by
    rw [outerUccWrite, Bool.and_assoc, hucc, Bool.and_false]
  have hport : s.dbgv = false := h.dbgv
  constructor
  · exact h.nextGie hw
  · simp [nextSleep, hw.cc, h.sleep]
  · simp [nextTrap, hg, hucc, h.rTrap]
  · simp [nextUbreak, hg, houter, h.rUbreak]
  · simp [nextIllErrI, nextIErr, hport, hill, h.illErrI]
  · simp [nextIllErrU, nextUErr, houter, hg, h.rIllErrU]
  · simp [nextIbusErrFlag, nextIErr, hport, hx.busErr, h.ibusErrFlag]
  · simp [nextUbusErrFlag, nextUErr, houter, hg, h.rUbusErrFlag]
  · simp [nextBreakEn, hscc, h.breakEn]
  · have hu : (wrRegCe c s x && !gie s && wrWriteUcc s x) = false := by
      rw [Bool.and_right_comm, hucc, Bool.false_and]
    simp [nextStep, hu, h.step]
  · simp [nextClearIcache, hx.clear, hscc]
  · simp [hx.dbgWe]
  · simp [nextDbgClearPipe, dbgWrite, hx.dbgWe, hx.clear]
  · simp [hw.cc]
  · simp [nextPendingInterrupt, hg]
  · have hkeep : s.opIllegal = false := h.opIllegal
    simp only [next_opIllegal, nextOpIllegal, hc.pipe, Bool.false_eq_true, if_false]
    cases hcl : clearPipeline s
    · cases hd : dcdValid s
      · simp [hkeep]
      · simp [(hdec hcl hd).1]
    · simp
  · intro _
    simp only [next_rOpBreak, nextOpBreak, hc.pipe]
    cases hcl : clearPipeline s
    · cases hd : dcdValid s
      · simp [h.opBreak hcl]
      · simp [(hdec hcl hd).2]
    · simp
  · show nextRegset c s x = _
    unfold nextRegset written
    rw [hw.ce, h.regs]
    cases hwv : w
    · simp
    · simp [hw.reg hwv, hw.value hwv, Arch.write]
  · show nextIflags c s x = _
    unfold nextIflags written
    rw [hscc, if_neg Bool.false_ne_true, hw.flagsCe, hg, h.flags, Bool.not_false, Bool.and_true]
    cases hfv : f
    · cases w <;> rfl
    · rw [if_pos rfl, hw.flagsAre hfv]
      cases w <;> rfl
  · show nextFlags c s x = _
    unfold nextFlags written
    rw [hucc, if_neg Bool.false_ne_true, hg, Bool.and_false, if_neg Bool.false_ne_true, h.userFlags]
    cases w <;> rfl
  · show nextUpc c s x = _
    unfold nextUpc written
    rw [hw.userPc, hg, Bool.false_and, if_neg Bool.false_ne_true, h.upc]
    cases hwv : w
    · rfl
    · rw [hw.target hwv, Bool.true_and]
      simp only [if_true, Arch.write, beq_iff_eq]
  · show nextUhaltPhase c s x = _
    unfold nextUhaltPhase written
    have hu : (!gie s && wrRegCe c s x && wrWritePc s x && (wrRegId s x).getLsbD 4) =
        (w && r == 1#1 ++ pcReg) := by
      rw [← hw.userPc, hg]
      cases wrRegCe c s x <;> cases wrWritePc s x <;> simp
    rw [hx.reset, hrel, Bool.or_self, if_neg Bool.false_ne_true, hu, hg, Bool.false_and,
      if_neg Bool.false_ne_true, h.uphase]
    cases hwv : w
    · rfl
    · rw [hw.special hwv, Bool.true_and]
      simp only [if_true, Arch.write, beq_iff_eq]

/-- The pipeline is cleared by a write to the program counter. -/
theorem Calm.clear_next (h : Calm s a) (hx : Undisturbed x) (hw : WritesBack c s x w r v f fl) :
    clearPipeline (Zipcpu.next c s x) = (w && r == 0#1 ++ pcReg) := by
  have hg := h.mode
  have hrel := hw.release
  have hcache : wClearIcache s = false := h.rClearIcache
  show nextNewPc c s x = _
  rw [nextNewPc, hx.reset, hcache, h.dbgClearPipe, hrel, ← hw.ownPc, wSwitchToInterrupt, hg]
  cases wrRegCe c s x <;> cases (wrRegId s x).getLsbD 4 <;> rfl

/-- A jump. -/
theorem Calm.jump_next (h : Calm s a) (hx : Undisturbed x) (hw : WritesBack c s x w r v f fl)
    (hjump : (w && r == 0#1 ++ pcReg) = true) :
    (Zipcpu.next c s x).pfPc = jumpTarget v ∧ (Zipcpu.next c s x).ipc = jumpTarget v := by
  have hg := h.mode
  have hrel := hw.release
  have hcache : wClearIcache s = false := h.rClearIcache
  have hwt : w = true := (Bool.and_eq_true_iff.mp hjump).1
  have hown := hw.ownPc.trans hjump
  have hsame : (wrRegCe c s x && (wrRegId s x).getLsbD 4 == gie s && wrWritePc s x) = true := by
    rw [hg, ← hown]
    cases wrRegCe c s x <;> cases (wrRegId s x).getLsbD 4 <;> rfl
  constructor
  · show nextPfPc c s x = _
    rw [nextPfPc, hx.reset, h.dbgClearPipe, hcache, hrel, wSwitchToInterrupt, hsame, hg,
      hw.target hwt]
    rfl
  · show nextIpc c s x = _
    rw [nextIpc, hx.reset, if_neg Bool.false_ne_true, hown, if_pos rfl, hw.target hwt]

/-- Without a jump, the program counter is set as an instruction is over. -/
theorem Calm.ipc_next (h : Calm s a) (hx : Undisturbed x) (hw : WritesBack c s x w r v f fl)
    (hjump : (w && r == 0#1 ++ pcReg) = false) :
    (Zipcpu.next c s x).ipc = if !aluPhase c s && pcStrobe c s then aluPc c s else s.ipc := by
  show nextIpc c s x = _
  rw [nextIpc, hx.reset, if_neg Bool.false_ne_true, hw.ownPc, hjump, if_neg Bool.false_ne_true,
    h.mode, Bool.not_false, Bool.true_and]

end

/-! ## Nothing holds the CPU back -/

section Stalls

variable (hp : c.Plain) (h : Calm s a) (hx : Undisturbed x)
include hp h hx

theorem Calm.oBreak (hcl : clearPipeline s = false) : Zipcpu.oBreak c s x = false := by
  have hbrk : breakPending c s = false := by
    rw [breakPending, hp.pipe, if_neg Bool.false_ne_true]
    exact h.opBreak hcl
  have hdiv : divError c s = false := by rw [divError, hp.divide, Bool.false_and]
  rw [Zipcpu.oBreak, hbrk, h.illErrI, hx.busErr, hdiv, h.aluIllegal hp.toSequential]
  simp [fpuError]

theorem Calm.masterCe (hcl : clearPipeline s = false)
    (hcc : (wrRegCe c s x && wrWriteCc s x) = false) : Zipcpu.masterCe c s x = true := by
  rw [masterCe_iff]
  refine ⟨.inl hx.halt, ?_, h.oBreak hp hx hcl, h.sleep⟩
  rw [ccWriteHold, hcc, h.lastWriteToCc, Bool.or_self]

/-- The decoder waits for nothing but the instruction ahead of it. -/
theorem Calm.dcdStalled (hcl : clearPipeline s = false)
    (hcc : (wrRegCe c s x && wrWriteCc s x) = false) :
    Zipcpu.dcdStalled c s x = (dcdValid s || s.opValid || aluBusy s || x.memBusy) := by
  have hce := h.masterCe hp hx hcl hcc
  have hdiv : divBusy c s = false := by rw [divBusy, hp.divide, Bool.false_and]
  have herr : idivErrFlag c s = false := by rw [idivErrFlag, hp.divide, Bool.false_and]
  rw [Zipcpu.dcdStalled, hp.pipe, if_neg Bool.false_ne_true, hce, h.illErrI, h.ibusErrFlag, herr,
    hdiv]
  simp [fpuBusy]

/-- What is in the operand stage leaves it at once. -/
theorem Calm.masterStall (hcl : clearPipeline s = false)
    (hcc : (wrRegCe c s x && wrWriteCc s x) = false) (hv : s.opValid = true)
    (hb : aluBusy s = false) : Zipcpu.masterStall c s x = false := by
  have hce := h.masterCe hp hx hcl hcc
  have hdiv : divBusy c s = false := by rw [divBusy, hp.divide, Bool.false_and]
  have herr : idivErrFlag c s = false := by rw [idivErrFlag, hp.divide, Bool.false_and]
  have hbrk : Zipcpu.opBreak s = false := h.opBreak hcl
  have hpend : pendingInterrupt s = false := h.rPendingInterrupt
  rw [Zipcpu.masterStall, hce, hv, h.illErrI, h.ibusErrFlag, herr, hpend, hb, hdiv, hbrk, hp.pipe]
  simp [fpuBusy]

end Stalls

/-- The operands of the next instruction are read as the decoder takes it in, from the registers as
    this clock leaves them. -/
theorem operands_read (hc : c.Sequential) (hst : dcdStalled c s x = false) :
    wOpAv (next c s x) = (next c s x).regset (next c s x).dcd.oDcdA ∧
      wOpBv (next c s x) = (next c s x).regset (next c s x).dcd.oDcdB := by
  have hce : dcdCe c s x = true := by
    rw [dcdCe_eq hc, hst]
    rfl
  have hin : (decodeIn c s x).iCe = true := hce
  have ha : (next c s x).dcd.oDcdA = dcdPreA c s x := by
    rw [next_dcd, Idecode.next_oDcdA, if_pos hin]
    rfl
  have hb : (next c s x).dcd.oDcdB = dcdPreB c s x := by
    rw [next_dcd, Idecode.next_oDcdB, if_pos hin]
    rfl
  rw [ha, hb, next_regset]
  constructor
  · rw [wOpAv, next_preRewriteFlagA, next_preRewriteValue, next_preOpAv, if_pos hce, if_pos hce,
      if_pos hce]
    rfl
  · rw [wOpBv, next_preRewriteFlagB, next_preRewriteValue, next_preOpBv, if_pos hce, if_pos hce,
      if_pos hce]
    rfl

end ZipStormMX.Cpu.Zipcpu
