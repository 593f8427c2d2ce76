/-
  The CPU follows the interpreter: through the units, and back to the registers.

  An instruction leaves the operand stage as soon as it is there.  For the ALU it is over when the
  answer is, for the memory when the bus has answered: a store then, a load one clock later.  A
  memory instruction whose condition fails is over at once.

  The crux is `finish`: on the clock of the write-back the decoder takes in the next instruction,
  and both see the same registers.
-/
import ZipStormMX.Cpu.Following

namespace ZipStormMX.Cpu

variable {AW : ℕ}

/-- A write to the program counter goes to a whole word. -/
theorem wordStart_jumpTarget (v : BitVec 32) :
    wordStart (jumpTarget v : BitVec (AW + 2)) = jumpTarget v := by
  rw [wordStart, jumpTarget, wordOf_byteAddr]

/-- The flags are written. -/
def Arch.setsFlags (a : Arch AW) (j : Insn) : Bool :=
  !j.mem && a.executes j && j.wF && (!j.rCc || !j.wR)

/-- One instruction writes what the write-back writes, and moves the program counter. -/
theorem Arch.step_eq (c : CpuCfg AW) (a : Arch AW) (j : Insn) (d : BitVec 32) :
    a.step c j d =
      { Zipcpu.written a (a.executes j && j.writes) j.r (a.result c j d) (a.setsFlags j)
          (aluAnswer j.op (a.operandA c j) (a.operandB c j)).oF with
        pc := if a.jumps j then jumpTarget (a.result c j d) else j.nextPc a.pc } := by
  rw [Arch.step, Zipcpu.written, Arch.jumps, Arch.setsFlags]
  cases a.executes j && j.writes
  · rfl
  · simp only [if_true, Bool.true_and, Arch.write]

/-- The registers that the CPU shows say nothing about `pc`. -/
theorem Zipcpu.Calm.at {s : Zipcpu AW} {a : Arch AW} (h : s.Calm a) (pc : BitVec (AW + 2)) :
    s.Calm { a with pc := pc } := by
  obtain ⟨h1, h2, h3, h4, h5, h6, h7, h8, h9, h10, h11, h12, h13, h14, h15, h16, h17, h18, h19,
    h20, h21, h22⟩ := h
  exact ⟨h1, h2, h3, h4, h5, h6, h7, h8, h9, h10, h11, h12, h13, h14, h15, h16, h17, h18, h19,
    h20, h21, h22⟩

namespace Sys

variable {F : FetchUnit AW} {c : CpuCfg AW} {prog : BitVec AW → BitVec 32}
  {s : Sys F (memops AW c.memops)} {i : SysIn} {due : Option (BitVec (AW + 2))} {a : Arch AW}

/-! ## Into the units -/

theorem kinds (hp : c.Plain) (hgo : ¬a.Stops c (a.insn c prog)) :
    (a.insn c prog).alu = !(a.insn c prog).mem := by
  let w := c.decode.wordAt a.pc (prog (wordOf a.pc))
  have hlock : c.decode.optLock = false := by simp [CpuCfg.decode, CpuCfg.optLock, hp.pipe]
  have hkind : (Decode.isALU c.decode w false || Decode.wMem c.decode w
      || Decode.wIllegal c.decode w false || Decode.wBreak c.decode w false) = true :=
    Decode.kind hp.divide hp.fpu hp.sim hlock
  have hbrk : Decode.wBreak c.decode w false = false := by
    cases hb : Decode.wBreak c.decode w false
    · rfl
    · exact absurd (.inr (.inl hb)) hgo
  have hill : Decode.wIllegal c.decode w false = false := by
    cases hl : Decode.wIllegal c.decode w false
    · rfl
    · refine absurd (.inl ?_) hgo
      show (Decode.wIllegal c.decode w false || _) = true
      rw [hl, Bool.true_or]
  rw [hbrk, hill, Bool.or_false, Bool.or_false] at hkind
  show Decode.isALU c.decode w false = !Decode.wMem c.decode w
  cases hmem : Decode.wMem c.decode w
  · rw [hmem, Bool.or_false] at hkind
    exact hkind
  · exact not_alu_of_mem hmem

/-- A multiplication that is met is implemented. -/
theorem implemented (hgo : ¬a.Stops c (a.insn c prog)) (halu : (a.insn c prog).alu = true)
    (hmul : Cpuops.isMultiplyOp (a.insn c prog).op = true) : c.implementMpy ≠ 0 := by
  intro h0
  have hmpy : Decode.wMpy c.decode (c.decode.wordAt a.pc (prog (wordOf a.pc))) = true :=
    wMpy_of_isMultiplyOp halu hmul
  refine hgo (.inl ?_)
  show (Decode.wIllegal c.decode _ false || _) = true
  have hopt : c.decode.optMpy = false := by simp [CpuCfg.decode, h0]
  rw [Decode.wIllegal, hmpy, hopt]
  simp

/-- The condition that the operand stage tests. -/
theorem setCond_eq (hm : s.cpu.Calm a) (hf : Zipcpu.wrFlagsCe c s.cpu = false) {j : Insn}
    (hcond : s.cpu.rOpF = Zipcpu.condOf j.cond) : Zipcpu.setCond c s.cpu = a.executes j := by
  rw [Zipcpu.setCond, flags_seen hm hf, Zipcpu.opF, hcond]
  rfl

/-- There is only the ALU. -/
theorem unitsRest_of_alu (hp : c.Plain) {z : Zipcpu AW} (hb : z.alu.rBusy = false)
    (hv : z.alu.oValid = false) : Zipcpu.UnitsRest c z :=
  ⟨hb, hv, by rw [Zipcpu.divBusy, hp.divide, Bool.false_and],
    by rw [Zipcpu.divValid, hp.divide, Bool.false_and],
    by rw [Zipcpu.divError, hp.divide, Bool.false_and]⟩

theorem units_noAlu (hp : c.Plain) (hs : Zipcpu.Sane c s.cpu)
    (hn : Zipcpu.aluCe c s.cpu (s.cpuIn c i) = false) (hb : Zipcpu.aluBusy s.cpu = false) :
    Zipcpu.UnitsRest c (s.next c i).cpu := by
  have hrest : (s.next c i).cpu.alu.rBusy = false ∧ (s.next c i).cpu.alu.oValid = false := by
    rw [next_cpu, Zipcpu.next_alu]
    exact Cpuops.rest_next hs.alu hb hn
  exact unitsRest_of_alu hp hrest.1 hrest.2

/-- The program counter behind an instruction that does not jump. -/
theorem strobe_pc (hjump : a.jumps (a.insn c prog) = false) :
    (if !(a.insn c prog).upper a.pc then (a.insn c prog).nextPc a.pc else wordStart a.pc) =
      wordStart ((a.insn c prog).nextPc a.pc) := by
  have hwr : (a.insn c prog).writes = (a.insn c prog).wR :=
    Insn.writes_eq c.decode (c.decode.wordAt a.pc (prog (wordOf a.pc)))
  have hrpc : (a.insn c prog).rPc = ((a.insn c prog).r == 0#1 ++ pcReg) := rfl
  cases hfirst : (a.insn c prog).half && !a.pc.getLsbD 1
  · have hup : (a.insn c prog).upper a.pc = false := by
      rw [Insn.upper, hfirst, Bool.false_and]
    rw [hup, Bool.not_false, if_pos rfl, Insn.nextPc, hfirst, if_neg Bool.false_ne_true, wordStart,
      wordOf_byteAddr]
  · -- a compressed instruction has no condition, so that one that could jump does
    have hhalf : (a.insn c prog).half = true := (Bool.and_eq_true_iff.mp hfirst).1
    have hcond : (a.insn c prog).cond = 8#4 :=
      Insn.cond_of_half (d := c.decode) (w := c.decode.wordAt a.pc (prog (wordOf a.pc))) hhalf
    have hexec : a.executes (a.insn c prog) = true := by
      rw [Arch.executes, hcond]
      exact condHolds_always _
    have hup : (a.insn c prog).upper a.pc = true := by
      rw [Arch.jumps, hexec, hwr, Bool.true_and, ← hrpc] at hjump
      rw [Insn.upper, hfirst, Bool.true_and]
      cases h1 : (a.insn c prog).wR <;> cases h2 : (a.insn c prog).rPc
      · rfl
      · rfl
      · rfl
      · rw [h1, h2] at hjump
        cases hjump
    rw [hup, Bool.not_true, if_neg Bool.false_ne_true, Insn.nextPc, hfirst, if_pos rfl, wordStart,
      wordStart, wordOf_byteAddr]

/-- A memory instruction that writes no register only moves the program counter. -/
theorem step_quiet {j : Insn} (hmem : j.mem = true) (hq : (a.executes j && j.writes) = false)
    (d : BitVec 32) : a.step c j d = { a with pc := j.nextPc a.pc } := by
  rw [Arch.step, hq, hmem]
  rfl

/-! ## Out of the operand stage -/

/-- What the operand stage does on this clock. -/
structure Issues (c : CpuCfg AW) (s : Sys F (memops AW c.memops)) (i : SysIn) (j : Insn) :
    Prop where
  adf : Zipcpu.adfCeUnconditional c s.cpu (s.cpuIn c i) = !j.mem
  memCe : Zipcpu.memCe c s.cpu (s.cpuIn c i) = j.mem
  issue : Zipcpu.issue c s.cpu (s.cpuIn c i) = true

theorem InOperand.issues (hp : c.Plain) (hm : s.cpu.Calm a) (hi : Free i)
    (h : InOperand c prog s due a) : Issues c s i (a.insn c prog) := by
  have hw := writesNothing (i := i) hp hm.dbgv h.units.aluValid h.mem.valid
  have hx := hi.undisturbed (c := c) (s := s) h.mem.err
  have hst := hm.masterStall hp hx h.clear hw.cc h.full h.units.aluBusy
  have hce := hm.masterCe hp hx h.clear hw.cc
  refine ⟨?_, ?_, Zipcpu.adf_or_mem hp.toSequential h.full hst h.clear⟩
  · rw [Zipcpu.adfCeUnconditional, hp.pipe, if_neg Bool.false_ne_true, hst, h.full, h.forMem]
    rfl
  · have hmst : Zipcpu.memStalled c s.cpu (s.cpuIn c i) = false := by
      rw [Zipcpu.memStalled, CpuCfg.optMempipe, hp.pipe, Bool.false_and,
        if_neg Bool.false_ne_true, if_neg Bool.false_ne_true, hst]
    rw [Zipcpu.memCe, hce, hmst, h.clear, h.forMem]
    simp

/-- What the stage is given up for. -/
theorem InOperand.executing (hp : c.Plain) (hm : s.cpu.Calm a) (hi : Free i)
    (h : InOperand c prog s due a) :
    Executing c prog (s.next c i) (Zipcpu.nextDue c s.cpu (s.cpuIn c i) due) a := by
  have hc := hp.toSequential
  have hw := writesNothing (i := i) hp hm.dbgv h.units.aluValid h.mem.valid
  have hx := hi.undisturbed (c := c) (s := s) h.mem.err
  have hstr := straight hp hm hi h.clear
  have hst : Zipcpu.dcdStalled c s.cpu (s.cpuIn c i) = true :=
    Zipcpu.dcdStalled_of_opValid hc h.full
  have hissue := (h.issues hp hm hi).issue
  refine ⟨h.go, Zipcpu.stalled hstr hst h.decodes, calm_clear hm hi hw h.mem.err,
    Zipcpu.stalled_valid hstr hst, ?_, ?_⟩
  · rw [next_cpu, Zipcpu.opValid_next hc (fun hd => absurd hd (by simp [h.dcd])), h.dcd, hissue]
    simp
  · rw [Zipcpu.aluPhase, next_cpu, Zipcpu.next_rAluPhase, Zipcpu.nextAluPhase, hx.reset, h.clear,
      Bool.or_self, if_neg Bool.false_ne_true, hissue, h.full, Bool.and_self, if_pos rfl, ← h.phase,
      Zipcpu.opPhase]
    cases c.optCis <;> rfl

/-- What the write-back of the ALU needs is set anew on every clock. -/
theorem aluWrites_next (hp : c.Plain) (hm : s.cpu.Calm a)
    (hf : Zipcpu.wrFlagsCe c s.cpu = false) (hd : Zipcpu.Decodes c prog s.cpu due a.pc)
    (hcond : Conditioned c prog s a) (hi : Free i) :
    (s.next c i).cpu.aluReg = (a.insn c prog).r ∧
    (s.next c i).cpu.aluWR = ((a.insn c prog).wR && a.executes (a.insn c prog)) ∧
    (s.next c i).cpu.aluWF = ((a.insn c prog).wF &&
      (!(a.insn c prog).rCc || !(a.insn c prog).wR) && a.executes (a.insn c prog)) := by
  have hj : Zipcpu.Holds s.cpu.dcd (a.insn c prog) := hd.holds
  have hdbg : Zipcpu.dbgWrite s.cpu (s.cpuIn c i) = false := by
    have hwe : (s.cpuIn c i).iDbgWe = false := hi.dbgWe
    rw [Zipcpu.dbgWrite, hwe, Bool.and_false]
  have hexec : Zipcpu.executes c s.cpu = a.executes (a.insn c prog) := by
    rw [Zipcpu.executes, setCond_eq hm hf hcond.cond, hm.opIllegal, Bool.not_false, Bool.and_true]
  refine ⟨?_, ?_, ?_⟩
  · rw [next_cpu, Zipcpu.next_aluReg, Zipcpu.nextAluReg, hp.pipe, if_neg Bool.false_ne_true, hdbg,
      if_neg Bool.false_ne_true, Zipcpu.opR, hp.pipe, if_neg Bool.false_ne_true, hj.r]
  · rw [next_cpu, Zipcpu.next_aluWR, Zipcpu.nextAluWR, hp.pipe, if_neg Bool.false_ne_true, hexec,
      Zipcpu.opWR, hp.pipe, hp.early, Bool.or_self, if_neg Bool.false_ne_true, hj.wR]
  · rw [next_cpu, Zipcpu.next_aluWF, Zipcpu.nextAluWF, hp.pipe, if_neg Bool.false_ne_true, hexec,
      hcond.wF]

/-- The value is taken from the unit the instruction went to. -/
theorem InOperand.index_next (hp : c.Plain) (hi : Free i) (h : InOperand c prog s due a) :
    (s.next c i).cpu.wrIndex = if (a.insn c prog).mem then 1 else 2 := by
  have hdbg : Zipcpu.dbgWrite s.cpu (s.cpuIn c i) = false := by
    have hwe : (s.cpuIn c i).iDbgWe = false := hi.dbgWe
    rw [Zipcpu.dbgWrite, hwe, Bool.and_false]
  rw [next_cpu, Zipcpu.next_wrIndex, Zipcpu.nextWrIndex, hp.pipe, hp.fpu, hdbg]
  simp only [Bool.false_eq_true, if_false, h.full, Bool.true_and, h.noDiv, h.noFpu, h.forAlu,
    h.forMem, kinds hp h.go]
  cases (a.insn c prog).mem <;> simp

/-- **Into the ALU.** -/
theorem InOperand.next_alu (hp : c.Plain) (hs : Zipcpu.Sane c s.cpu) (hm : s.cpu.Calm a)
    (hi : Free i) (h : InOperand c prog s due a)
    (hmem : (a.insn c prog).mem = false) :
    Computing c prog (s.next c i) (Zipcpu.nextDue c s.cpu (s.cpuIn c i) due) a := by
  have hw := writesNothing (i := i) hp hm.dbgv h.units.aluValid h.mem.valid
  have hiss := h.issues hp hm hi
  have hj : Zipcpu.Holds s.cpu.dcd (a.insn c prog) := h.decodes.holds
  obtain ⟨hreg, hwr, hwf⟩ := aluWrites_next hp hm hw.flagsCe h.decodes h.toConditioned hi
  have halu : (a.insn c prog).alu = true := by rw [kinds hp h.go, hmem, Bool.not_false]
  have hadf : Zipcpu.adfCeUnconditional c s.cpu (s.cpuIn c i) = true := by
    rw [hiss.adf, hmem, Bool.not_false]
  have hstb : (s.memIn c i).iStb = false := by
    show Zipcpu.memStb c s.cpu (s.cpuIn c i) = false
    rw [Zipcpu.memStb, hiss.memCe, hmem, Bool.false_and]
  refine
    { toExecuting := h.executing hp hm hi, toConditioned := conditioned_next hp h.decodes
      works := ?_, mem := h.mem.next (lock_eq hp) hstb, noMem := hmem
      index := ?_, reg := hreg, aluWR := hwr, aluWF := hwf, aluPc := ?_, memPc := ?_, ipc := ?_ }
  · have hce : Zipcpu.aluCe c s.cpu (s.cpuIn c i) = true := by
      rw [Zipcpu.aluCe, hadf, h.forAlu, halu, Bool.and_self]
    have hrst : Zipcpu.aluReset s.cpu (s.cpuIn c i) = false := by
      have hr : (s.cpuIn c i).iReset = false := hi.reset
      rw [Zipcpu.aluReset, hr, h.clear, Bool.or_self]
    have hop : Zipcpu.opOpn c s.cpu = (a.insn c prog).op := by
      rw [Zipcpu.opOpn, hp.pipe, if_neg Bool.false_ne_true, hj.op]
    have hA : Zipcpu.opAv c s.cpu (s.cpuIn c i) = a.operandA c (a.insn c prog) := by
      rw [Zipcpu.opAv, hp.pipe, Bool.false_and, if_neg Bool.false_ne_true, h.opA]
    have hB : Zipcpu.opBv c s.cpu (s.cpuIn c i) = a.operandB c (a.insn c prog) := by
      rw [Zipcpu.opBv, hp.pipe, Bool.false_and, Bool.false_and, Bool.false_and,
        if_neg Bool.false_ne_true, h.opB]
    rw [next_cpu, Zipcpu.next_alu, hce, hrst, hop, hA, hB]
    exact Cpuops.works_issued hs.alu h.units.aluBusy (implemented h.go halu)
  · rw [h.index_next hp hi, hmem]
    rfl
  · rw [next_cpu, Zipcpu.next_rAluPcValid, Zipcpu.nextAluPcValid, h.clear,
      if_neg Bool.false_ne_true, hadf, h.phase, h.units.aluBusy, h.units.divBusy]
    cases (a.insn c prog).upper a.pc <;> rfl
  · rw [next_cpu, Zipcpu.next_memPcValid, hiss.memCe, hmem, Bool.and_false]
  · rw [ipc_still hm hi hw h.mem.err, strobe_still h.aluPc h.memPc, Bool.and_false,
      if_neg Bool.false_ne_true, h.ipc]

/-- The program counter of a memory instruction, whether its condition holds or not. -/
theorem InOperand.memIpc_next (hp : c.Plain) (hm : s.cpu.Calm a) (hi : Free i)
    (h : InOperand c prog s due a) (hmem : (a.insn c prog).mem = true)
    (hjump : a.jumps (a.insn c prog) = false) :
    (if !Zipcpu.aluPhase c (s.next c i).cpu && (s.next c i).cpu.memPcValid then
        (s.next c i).cpu.dcd.oPc else (s.next c i).cpu.ipc) =
      wordStart ((a.insn c prog).nextPc a.pc) := by
  have hw := writesNothing (i := i) hp hm.dbgv h.units.aluValid h.mem.valid
  have hexec := h.executing hp hm hi
  have hmp : (s.next c i).cpu.memPcValid = true := by
    have hr : (s.cpuIn c i).iReset = false := hi.reset
    rw [next_cpu, Zipcpu.next_memPcValid, (h.issues hp hm hi).memCe, hmem, hr]
    rfl
  have hpc : (s.next c i).cpu.dcd.oPc = (a.insn c prog).nextPc a.pc := hexec.decodes.behind
  have hipc : (s.next c i).cpu.ipc = wordStart a.pc := by
    rw [ipc_still hm hi hw h.mem.err, strobe_still h.aluPc h.memPc, Bool.and_false,
      if_neg Bool.false_ne_true, h.ipc]
  rw [hmp, hpc, hipc, hexec.phase, Bool.and_true]
  exact strobe_pc hjump

/-- What the units are left with by a memory instruction. -/
theorem InOperand.memUnits_next (hp : c.Plain) (hs : Zipcpu.Sane c s.cpu) (hm : s.cpu.Calm a)
    (hi : Free i) (h : InOperand c prog s due a) (hmem : (a.insn c prog).mem = true) :
    Zipcpu.UnitsRest c (s.next c i).cpu ∧ (s.next c i).cpu.rAluPcValid = false := by
  have hadf : Zipcpu.adfCeUnconditional c s.cpu (s.cpuIn c i) = false := by
    rw [(h.issues hp hm hi).adf, hmem, Bool.not_true]
  refine ⟨units_noAlu hp hs (by rw [Zipcpu.aluCe, hadf, Bool.false_and]) h.units.aluBusy, ?_⟩
  rw [next_cpu, Zipcpu.next_rAluPcValid, Zipcpu.nextAluPcValid, h.clear, if_neg Bool.false_ne_true,
    hadf, h.units.aluBusy, h.units.divBusy]
  rfl

/-- **Into the memory unit.** -/
theorem InOperand.next_mem (hp : c.Plain) (hs : Zipcpu.Sane c s.cpu) (hm : s.cpu.Calm a)
    (hi : Free i) (h : InOperand c prog s due a)
    (hmem : (a.insn c prog).mem = true) (hexec : a.executes (a.insn c prog) = true) :
    Accessing c prog (s.next c i) (Zipcpu.nextDue c s.cpu (s.cpuIn c i) due) a := by
  have hw := writesNothing (i := i) hp hm.dbgv h.units.aluValid h.mem.valid
  have hj : Zipcpu.Holds s.cpu.dcd (a.insn c prog) := h.decodes.holds
  obtain ⟨hunits, haluPc⟩ := h.memUnits_next hp hs hm hi hmem
  have hop : Zipcpu.opOpn c s.cpu = (a.insn c prog).op := by
    rw [Zipcpu.opOpn, hp.pipe, if_neg Bool.false_ne_true, hj.op]
  have hA : Zipcpu.opAv c s.cpu (s.cpuIn c i) = a.operandA c (a.insn c prog) := by
    rw [Zipcpu.opAv, hp.pipe, Bool.false_and, if_neg Bool.false_ne_true, h.opA]
  have hB : Zipcpu.opBv c s.cpu (s.cpuIn c i) = a.operandB c (a.insn c prog) := by
    rw [Zipcpu.opBv, hp.pipe, Bool.false_and, Bool.false_and, Bool.false_and,
      if_neg Bool.false_ne_true, h.opB]
  have hreg : Zipcpu.opR c s.cpu = (a.insn c prog).r := by
    rw [Zipcpu.opR, hp.pipe, if_neg Bool.false_ne_true, hj.r]
  have hstb : (s.memIn c i).iStb = true := by
    show Zipcpu.memStb c s.cpu (s.cpuIn c i) = true
    rw [Zipcpu.memStb, (h.issues hp hm hi).memCe, hmem, setCond_eq hm hw.flagsCe h.cond, hexec,
      Bool.and_self]
  have hal : badAlignment (laneKey (s.memIn c i).iOp (s.memIn c i).iAddr) = false := by
    show badAlignment (laneKey ((Zipcpu.opOpn c s.cpu).extractLsb' 0 3)
      (Zipcpu.opBv c s.cpu (s.cpuIn c i))) = false
    rw [hop, hB]
    cases hbad : badAlignment (laneKey ((a.insn c prog).op.extractLsb' 0 3)
      (a.operandB c (a.insn c prog)))
    · rfl
    · exact absurd (.inr (.inr ⟨hexec, .inr ⟨hmem, hbad⟩⟩)) h.go
  refine
    { toExecuting := h.executing hp hm hi, units := hunits, isMem := hmem, goes := hexec
      index := ?_, aluPc := haluPc, ipc := h.memIpc_next hp hm hi hmem, serving := ?_ }
  · rw [h.index_next hp hi, hmem]
    rfl
  · have hserve : Memops.Serving c.memops ((Zipcpu.opOpn c s.cpu).extractLsb' 0 3)
        (Zipcpu.opBv c s.cpu (s.cpuIn c i)) (Zipcpu.opAv c s.cpu (s.cpuIn c i))
        (Zipcpu.opR c s.cpu) (s.next c i).mem :=
      Memops.serving_issued (lock_eq hp) rfl h.mem hi.reset hstb hal
    rwa [hop, hA, hB, hreg] at hserve

/-- **A memory instruction whose condition fails** is over. -/
theorem InOperand.next_skip (hp : c.Plain) (hs : Zipcpu.Sane c s.cpu) (hm : s.cpu.Calm a)
    (hi : Free i) (h : InOperand c prog s due a) (hmem : (a.insn c prog).mem = true)
    (hexec : a.executes (a.insn c prog) = false) (d : BitVec 32) :
    (s.next c i).cpu.Calm (a.step c (a.insn c prog) d) ∧
      Fetching c prog (s.next c i) (Zipcpu.nextDue c s.cpu (s.cpuIn c i) due)
        (a.step c (a.insn c prog) d) := by
  have hw := writesNothing (i := i) hp hm.dbgv h.units.aluValid h.mem.valid
  obtain ⟨hunits, haluPc⟩ := h.memUnits_next hp hs hm hi hmem
  have hgone := h.executing hp hm hi
  have hjump : a.jumps (a.insn c prog) = false := by rw [Arch.jumps, hexec]; rfl
  have hstb : (s.memIn c i).iStb = false := by
    show Zipcpu.memStb c s.cpu (s.cpuIn c i) = false
    rw [Zipcpu.memStb, setCond_eq hm hw.flagsCe h.cond, hexec, Bool.and_false]
  rw [step_quiet hmem (by rw [hexec, Bool.false_and])]
  refine ⟨(calm_still hp hm hi hw h.mem.err fun _ hd => ?_).at _,
    { before := hgone.decodes.before, clear := hgone.clear, dcd := hgone.dcd
      empty := hgone.empty, units := hunits, mem := h.mem.next (lock_eq hp) hstb
      aluPc := haluPc, ipc := h.memIpc_next hp hm hi hmem hjump }⟩
  rw [h.dcd] at hd
  cases hd

/-! ## The write-back -/

/-- This clock writes what the instruction leaves. -/
def Commits (c : CpuCfg AW) (s : Sys F (memops AW c.memops)) (i : SysIn) (a : Arch AW) (j : Insn)
    (d : BitVec 32) : Prop :=
  Zipcpu.WritesBack c s.cpu (s.cpuIn c i) (a.executes j && j.writes) j.r (a.result c j d)
    (a.setsFlags j) (aluAnswer j.op (a.operandA c j) (a.operandB c j)).oF

/-- **The end of an instruction**, and the beginning of the next one. -/
theorem finish (hp : c.Plain) (hs : Zipcpu.Sane c s.cpu) (hm : s.cpu.Calm a) (hi : Free i)
    (hfed : Zipcpu.Fed c prog s.cpu (s.cpuIn c i) due) (h : Executing c prog s due a)
    (hbusy : Zipcpu.aluBusy s.cpu = false) (hmb : (memOut s).oBusy = false)
    (herr : (memOut s).oErr = false) (hmem : Memops.Resting (s.next c i).mem) {d : BitVec 32}
    (hw : Commits c s i a (a.insn c prog) d)
    (hipc : a.jumps (a.insn c prog) = false →
      (if !Zipcpu.aluPhase c s.cpu && Zipcpu.pcStrobe c s.cpu then Zipcpu.aluPc c s.cpu
        else s.cpu.ipc) = wordStart ((a.insn c prog).nextPc a.pc)) :
    (s.next c i).cpu.Calm (a.step c (a.insn c prog) d) ∧
      (Jumping c (s.next c i) (a.step c (a.insn c prog) d) ∨
        Fetching c prog (s.next c i) (Zipcpu.nextDue c s.cpu (s.cpuIn c i) due)
          (a.step c (a.insn c prog) d) ∨
        Decoded c prog (s.next c i) (Zipcpu.nextDue c s.cpu (s.cpuIn c i) due)
          (a.step c (a.insn c prog) d)) := by
  have hx := hi.undisturbed (c := c) (s := s) herr
  have hn := noIssue (i := i) h.empty
  have hcalm : (s.next c i).cpu.Calm (a.step c (a.insn c prog) d) := by
    rw [Arch.step_eq]
    refine (hm.next hp.toSequential hx hw fun _ hd => ?_).at _
    rw [h.dcd] at hd
    cases hd
  have hclear : Zipcpu.clearPipeline (s.next c i).cpu = a.jumps (a.insn c prog) :=
    hm.clear_next hx hw
  have hpc : (a.step c (a.insn c prog) d).pc =
      if a.jumps (a.insn c prog) then jumpTarget (a.result c (a.insn c prog) d)
      else (a.insn c prog).nextPc a.pc := by
    rw [Arch.step_eq]
  refine ⟨hcalm, ?_⟩
  cases hj : a.jumps (a.insn c prog)
  · right
    rw [hj, if_neg Bool.false_ne_true] at hpc
    have hst : Zipcpu.dcdStalled c s.cpu (s.cpuIn c i) = false := by
      have hmb' : (s.cpuIn c i).memBusy = false := hmb
      rw [hm.dcdStalled hp hx h.clear hw.cc, h.dcd, h.empty, hbusy, hmb']
      rfl
    have hbefore : Zipcpu.Before c prog s.cpu due ((a.insn c prog).nextPc a.pc) :=
      h.decodes.before
    rw [← hpc] at hbefore
    refine arrive hp hs (straight hp hm hi h.clear) hst hfed h.empty h.dcd hbusy hbefore hcalm
      (hclear.trans hj) hmem ?_
    rw [hpc, ← hipc hj]
    exact hm.ipc_next hx hw hj
  · left
    rw [hj, if_pos rfl] at hpc
    obtain ⟨hpf, hipc'⟩ := hm.jump_next hx hw hj
    exact
      { clear := hclear.trans hj
        target := hpf.trans hpc.symm
        aligned := by rw [hpc, wordStart_jumpTarget]
        ipc := hipc'.trans hpc.symm
        empty := empty_next hp h.dcd h.empty
        memPc := memPc_next hn
        units := units_next hp hs hn hbusy
        mem := hmem }

/-! ## In the ALU -/

/-- What the ALU has answered is what is written. -/
theorem Computing.commits (hp : c.Plain) (hm : s.cpu.Calm a) (h : Computing c prog s due a)
    (hans : Cpuops.Answered (a.insn c prog).op (a.operandA c (a.insn c prog))
      (a.operandB c (a.insn c prog)) s.cpu.alu) (d : BitVec 32) :
    Commits c s i a (a.insn c prog) d := by
  have hkeep : Zipcpu.wrDiscard c s.cpu = false := by
    rw [Zipcpu.wrDiscard, h.clear, hm.aluIllegal hp.toSequential, Bool.or_self]
  have hvalid : Zipcpu.aluValid s.cpu = true := hans.valid
  have hwrites : (a.insn c prog).writes = (a.insn c prog).wR :=
    Insn.writes_eq c.decode (c.decode.wordAt a.pc (prog (wordOf a.pc)))
  have hce : Zipcpu.wrRegCe c s.cpu (s.cpuIn c i) =
      (a.executes (a.insn c prog) && (a.insn c prog).writes) := by
    rw [Zipcpu.wrRegCe, h.index, hkeep, h.aluWR, hvalid, hwrites,
      Bool.and_comm (a.executes (a.insn c prog))]
    exact Bool.and_true _
  have hresult : s.cpu.alu.oC = a.result c (a.insn c prog) d := by
    rw [hans.result, Arch.result, h.noMem, if_neg Bool.false_ne_true]
  refine ⟨hce, fun _ => ?_, fun _ => ?_, fun _ => ?_, fun hw => ?_, ?_, fun _ => ?_⟩
  · have hmv : (s.cpuIn c i).memValid = false := h.mem.valid
    rw [Zipcpu.wrRegId, hmv, if_neg Bool.false_ne_true, h.reg]
  · rw [Zipcpu.wrGpregVl, h.index, ← hresult]
    rfl
  · rw [Zipcpu.wrSpregVl, h.index, ← hresult]
    rfl
  · intro hcc
    obtain ⟨hexec, hwr⟩ := Bool.and_eq_true_iff.mp hw
    exact h.go (.inr (.inr ⟨hexec, .inl ⟨hwr, hcc⟩⟩))
  · rw [Zipcpu.wrFlagsCe, h.index, hkeep, h.aluWF, Arch.setsFlags, h.noMem]
    show (_ && Zipcpu.aluValid s.cpu) = _
    rw [hvalid]
    cases (a.insn c prog).wF <;> cases a.executes (a.insn c prog) <;> simp
  · have hdiv : Zipcpu.divValid c s.cpu = false := by
      rw [Zipcpu.divValid, hp.divide, Bool.false_and]
    rw [Zipcpu.newFlags, hdiv, if_neg Bool.false_ne_true, Zipcpu.fpuValid,
      if_neg Bool.false_ne_true, hans.flags]

/-- The multiplier goes on. -/
theorem Computing.alu_next (hs : Zipcpu.Sane c s.cpu) (hi : Free i)
    (h : Computing c prog s due a) {k : ℕ}
    (hmul : Cpuops.Multiplying c.implementMpy (a.insn c prog).op (a.operandA c (a.insn c prog))
      (a.operandB c (a.insn c prog)) k s.cpu.alu) :
    Cpuops.Answered (a.insn c prog).op (a.operandA c (a.insn c prog))
        (a.operandB c (a.insn c prog)) (s.next c i).cpu.alu ∨
      Cpuops.Multiplying c.implementMpy (a.insn c prog).op (a.operandA c (a.insn c prog))
        (a.operandB c (a.insn c prog)) (k + 1) (s.next c i).cpu.alu := by
  have hn := noIssue (i := i) h.empty
  have hr : (s.cpuIn c i).iReset = false := hi.reset
  have hce : Zipcpu.aluCe c s.cpu (s.cpuIn c i) = false := by
    rw [Zipcpu.aluCe, Zipcpu.adf_of_not_issue hn, Bool.false_and]
  have hrst : Zipcpu.aluReset s.cpu (s.cpuIn c i) = false := by
    rw [Zipcpu.aluReset, hr, h.clear, Bool.or_self]
  rw [next_cpu, Zipcpu.next_alu, hce, hrst]
  exact hmul.next hs.alu _ _ _

/-- **The ALU works on.** -/
theorem Computing.next_busy (hp : c.Plain) (hs : Zipcpu.Sane c s.cpu) (hm : s.cpu.Calm a)
    (hi : Free i) (h : Computing c prog s due a) {k : ℕ}
    (hmul : Cpuops.Multiplying c.implementMpy (a.insn c prog).op (a.operandA c (a.insn c prog))
      (a.operandB c (a.insn c prog)) k s.cpu.alu) :
    (s.next c i).cpu.Calm a ∧
      Computing c prog (s.next c i) (Zipcpu.nextDue c s.cpu (s.cpuIn c i) due) a := by
  have hc := hp.toSequential
  have hw := writesNothing (i := i) hp hm.dbgv hmul.invalid h.mem.valid
  have hx := hi.undisturbed (c := c) (s := s) h.mem.err
  have hn := noIssue (i := i) h.empty
  have hstr := straight hp hm hi h.clear
  have hbusy : Zipcpu.aluBusy s.cpu = true := hmul.busy
  have hdiv : Zipcpu.divBusy c s.cpu = false := by rw [Zipcpu.divBusy, hp.divide, Bool.false_and]
  have hst : Zipcpu.dcdStalled c s.cpu (s.cpuIn c i) = true :=
    Zipcpu.dcdStalled_of_busy hc (.inl hbusy)
  have hmem : (s.cpuIn c i).memBusy = false := h.mem.busy
  obtain ⟨hreg, hwr, hwf⟩ := aluWrites_next hp hm hw.flagsCe h.decodes h.toConditioned hi
  refine ⟨calm_still hp hm hi hw h.mem.err fun _ hd => absurd hd (by simp [h.dcd]), ?_⟩
  refine
    { go := h.go, decodes := Zipcpu.stalled hstr hst h.decodes
      clear := calm_clear hm hi hw h.mem.err, dcd := Zipcpu.stalled_valid hstr hst
      empty := empty_next hp h.dcd h.empty, phase := ?_
      toConditioned := conditioned_next hp h.decodes, works := ?_
      mem := h.mem.next (lock_eq hp) (noStb hn), noMem := h.noMem, index := ?_, reg := hreg
      aluWR := hwr, aluWF := hwf, aluPc := ?_, memPc := memPc_next hn, ipc := ?_ }
  · rw [← h.phase, Zipcpu.aluPhase, next_cpu, Zipcpu.next_rAluPhase,
      Zipcpu.nextAluPhase_of_not_issue hn, hx.reset, h.clear]
    rfl
  · rcases h.alu_next hs hi hmul with hans | hmul'
    · exact .inl hans
    · exact .inr ⟨k + 1, hmul'⟩
  · have hdbg : Zipcpu.dbgWrite s.cpu (s.cpuIn c i) = false := by
      rw [Zipcpu.dbgWrite, hx.dbgWe, Bool.and_false]
    rw [next_cpu, Zipcpu.next_wrIndex, Zipcpu.nextWrIndex, hp.pipe, hp.fpu, hdbg]
    simp [h.empty, h.index]
  · rw [next_cpu, Zipcpu.next_rAluPcValid, Zipcpu.nextAluPcValid, h.clear,
      if_neg Bool.false_ne_true, Zipcpu.adf_of_not_issue hn, hbusy, ← h.aluPc]
    rfl
  · have hstrobe : Zipcpu.pcStrobe c s.cpu = false := by
      rw [Zipcpu.pcStrobe, Zipcpu.aluPcValid, hbusy, h.memPc]
      simp
    rw [ipc_still hm hi hw h.mem.err, hstrobe, Bool.and_false, if_neg Bool.false_ne_true, h.ipc]

/-- **The ALU has answered.** -/
theorem Computing.next_answered (hp : c.Plain) (hs : Zipcpu.Sane c s.cpu) (hm : s.cpu.Calm a)
    (hi : Free i) (hfed : Zipcpu.Fed c prog s.cpu (s.cpuIn c i) due)
    (h : Computing c prog s due a)
    (hans : Cpuops.Answered (a.insn c prog).op (a.operandA c (a.insn c prog))
      (a.operandB c (a.insn c prog)) s.cpu.alu) (d : BitVec 32) :
    (s.next c i).cpu.Calm (a.step c (a.insn c prog) d) ∧
      (Jumping c (s.next c i) (a.step c (a.insn c prog) d) ∨
        Fetching c prog (s.next c i) (Zipcpu.nextDue c s.cpu (s.cpuIn c i) due)
          (a.step c (a.insn c prog) d) ∨
        Decoded c prog (s.next c i) (Zipcpu.nextDue c s.cpu (s.cpuIn c i) due)
          (a.step c (a.insn c prog) d)) := by
  have hn := noIssue (i := i) h.empty
  have hidle : Zipcpu.aluBusy s.cpu = false := hans.idle
  have hbehind : s.cpu.dcd.oPc = (a.insn c prog).nextPc a.pc := h.decodes.behind
  refine finish hp hs hm hi hfed h.toExecuting hidle h.mem.busy h.mem.err
    (h.mem.next (lock_eq hp) (noStb hn)) (h.commits hp hm hans d) fun hjump => ?_
  have hdiv : Zipcpu.divBusy c s.cpu = false := by rw [Zipcpu.divBusy, hp.divide, Bool.false_and]
  have hstrobe : Zipcpu.pcStrobe c s.cpu = !(a.insn c prog).upper a.pc := by
    rw [Zipcpu.pcStrobe, Zipcpu.aluPcValid, h.aluPc, hidle, hdiv, h.clear,
      hm.aluIllegal hp.toSequential, h.memPc]
    simp [Zipcpu.fpuBusy]
  rw [h.phase, hstrobe, aluPc_eq hp, hbehind, h.ipc, Bool.and_self]
  exact strobe_pc hjump

/-! ## In the memory unit -/

/-- **Waiting for the bus**, and where its answer leaves the CPU. -/
theorem AtMemory.next (hp : c.Plain) (hs : Zipcpu.Sane c s.cpu) (hm : s.cpu.Calm a) (hi : Free i)
    (h : AtMemory c prog s due a) (hbusy : (memOut s).oBusy = true)
    (hmv : (memOut s).oValid = false) (herr : (memOut s).oErr = false) :
    (s.next c i).cpu.Calm a ∧
      AtMemory c prog (s.next c i) (Zipcpu.nextDue c s.cpu (s.cpuIn c i) due) a := by
  have hc := hp.toSequential
  have hw := writesNothing (i := i) hp hm.dbgv h.units.aluValid hmv
  have hx := hi.undisturbed (c := c) (s := s) herr
  have hn := noIssue (i := i) h.empty
  have hstr := straight hp hm hi h.clear
  have hst : Zipcpu.dcdStalled c s.cpu (s.cpuIn c i) = true :=
    Zipcpu.dcdStalled_of_busy hc (.inr (.inr hbusy))
  have hphase : Zipcpu.aluPhase c (s.next c i).cpu = (a.insn c prog).upper a.pc := by
    rw [← h.phase, Zipcpu.aluPhase, next_cpu, Zipcpu.next_rAluPhase,
      Zipcpu.nextAluPhase_of_not_issue hn, hx.reset, h.clear]
    rfl
  refine ⟨calm_still hp hm hi hw herr fun _ hd => absurd hd (by simp [h.dcd]), ?_⟩
  refine
    { go := h.go, decodes := Zipcpu.stalled hstr hst h.decodes, clear := calm_clear hm hi hw herr
      dcd := Zipcpu.stalled_valid hstr hst, empty := empty_next hp h.dcd h.empty, phase := hphase
      units := units_next hp hs hn h.units.aluBusy, isMem := h.isMem, goes := h.goes, index := ?_
      aluPc := aluPc_next hn hp h.units.aluBusy, ipc := fun hjump => ?_ }
  · have hdbg : Zipcpu.dbgWrite s.cpu (s.cpuIn c i) = false := by
      rw [Zipcpu.dbgWrite, hx.dbgWe, Bool.and_false]
    rw [next_cpu, Zipcpu.next_wrIndex, Zipcpu.nextWrIndex, hp.pipe, hp.fpu, hdbg]
    simp [h.empty, h.index]
  · rw [memPc_next hn, Bool.and_false, if_neg Bool.false_ne_true, ipc_still hm hi hw herr,
      pcStrobe_of_mem h.aluPc, aluPc_eq hp]
    exact h.ipc hjump

/-- **A store has been answered.** -/
theorem Accessing.next_store (hp : c.Plain) (hs : Zipcpu.Sane c s.cpu) (hm : s.cpu.Calm a)
    (hi : Free i) (h : Accessing c prog s due a) (hstore : (a.insn c prog).isStore = true)
    (hack : (memReply c s i).ack = true) (d : BitVec 32) :
    (s.next c i).cpu.Calm (a.step c (a.insn c prog) d) ∧
      Fetching c prog (s.next c i) (Zipcpu.nextDue c s.cpu (s.cpuIn c i) due)
        (a.step c (a.insn c prog) d) := by
  have hn := noIssue (i := i) h.empty
  obtain ⟨hcalm, hat⟩ :=
    h.toAtMemory.next hp hs hm hi h.serving.busy h.serving.valid h.serving.err
  have hquiet : (a.executes (a.insn c prog) && (a.insn c prog).writes) = false := by
    rw [Insn.writes, h.isMem, if_pos rfl, hstore, Bool.not_true, Bool.and_false]
  have hjump : a.jumps (a.insn c prog) = false := by rw [Arch.jumps, hquiet, Bool.false_and]
  have hrest : Memops.Resting (s.next c i).mem := by
    have hdone := h.serving.answered (i := s.memIn c i) (lock_eq hp) rfl hi.reset (noStb hn)
      (memErr hi) hack
    have hop : ((a.insn c prog).op.extractLsb' 0 3).getLsbD 0 = true := by
      rw [BitVec.getLsbD_extractLsb']
      exact hstore
    rwa [hop, if_pos rfl] at hdone
  rw [step_quiet h.isMem hquiet]
  exact ⟨hcalm.at _,
    { before := hat.decodes.before, clear := hat.clear, dcd := hat.dcd, empty := hat.empty
      units := hat.units, mem := hrest, aluPc := hat.aluPc, ipc := hat.ipc hjump }⟩

/-- **A load has been answered.** -/
theorem Accessing.next_load (hp : c.Plain) (hs : Zipcpu.Sane c s.cpu) (hm : s.cpu.Calm a)
    (hi : Free i) (h : Accessing c prog s due a) (hload : (a.insn c prog).isStore = false)
    (hack : (memReply c s i).ack = true) :
    (s.next c i).cpu.Calm a ∧
      Holding c prog (s.next c i) (Zipcpu.nextDue c s.cpu (s.cpuIn c i) due) a i.iWbData := by
  have hn := noIssue (i := i) h.empty
  obtain ⟨hcalm, hat⟩ :=
    h.toAtMemory.next hp hs hm hi h.serving.busy h.serving.valid h.serving.err
  refine ⟨hcalm, { toAtMemory := hat, load := hload, loaded := ?_ }⟩
  have hdone := h.serving.answered (i := s.memIn c i) (lock_eq hp) rfl hi.reset (noStb hn)
    (memErr hi) hack
  have hop : ((a.insn c prog).op.extractLsb' 0 3).getLsbD 0 = false := by
    rw [BitVec.getLsbD_extractLsb']
    exact hload
  rwa [hop, if_neg Bool.false_ne_true] at hdone

/-- **The bus has not answered.** -/
theorem Accessing.next_wait (hp : c.Plain) (hs : Zipcpu.Sane c s.cpu) (hm : s.cpu.Calm a)
    (hi : Free i) (h : Accessing c prog s due a) (hack : (memReply c s i).ack = false) :
    (s.next c i).cpu.Calm a ∧
      Accessing c prog (s.next c i) (Zipcpu.nextDue c s.cpu (s.cpuIn c i) due) a := by
  have hn := noIssue (i := i) h.empty
  obtain ⟨hcalm, hat⟩ :=
    h.toAtMemory.next hp hs hm hi h.serving.busy h.serving.valid h.serving.err
  exact ⟨hcalm,
    { toAtMemory := hat
      serving := h.serving.wait rfl hi.reset (noStb hn) (memErr hi) hack }⟩

/-- What has been loaded is what is written. -/
theorem Holding.commits {d : BitVec 32}
    (h : Holding c prog s due a d) : Commits c s i a (a.insn c prog) d := by
  have hmv : (s.cpuIn c i).memValid = true := h.loaded.valid
  have hw : (a.executes (a.insn c prog) && (a.insn c prog).writes) = true := by
    rw [h.goes, Insn.writes, h.isMem, if_pos rfl, h.load]
    rfl
  have hresult : (s.cpuIn c i).memResult = a.result c (a.insn c prog) d := by
    rw [Arch.result, h.isMem, if_pos rfl]
    exact h.loaded.result
  refine ⟨?_, fun _ => ?_, fun _ => ?_, fun _ => ?_, fun _ hcc => ?_, ?_, fun hf => ?_⟩
  · rw [hw, Zipcpu.wrRegCe, h.index]
    exact hmv
  · rw [Zipcpu.wrRegId, hmv, if_pos rfl]
    exact h.loaded.wreg
  · rw [Zipcpu.wrGpregVl, h.index]
    exact hresult
  · rw [Zipcpu.wrSpregVl, h.index]
    exact hresult
  · obtain ⟨hexec, hwr⟩ := Bool.and_eq_true_iff.mp hw
    exact h.go (.inr (.inr ⟨hexec, .inl ⟨hwr, hcc⟩⟩))
  · rw [Zipcpu.wrFlagsCe, h.index, Arch.setsFlags, h.isMem]
    exact Bool.and_false _
  · rw [Arch.setsFlags, h.isMem] at hf
    cases hf

/-- **The value of a load is written.** -/
theorem Holding.next (hp : c.Plain) (hs : Zipcpu.Sane c s.cpu) (hm : s.cpu.Calm a) (hi : Free i)
    (hfed : Zipcpu.Fed c prog s.cpu (s.cpuIn c i) due)
    {d : BitVec 32} (h : Holding c prog s due a d) :
    (s.next c i).cpu.Calm (a.step c (a.insn c prog) d) ∧
      (Jumping c (s.next c i) (a.step c (a.insn c prog) d) ∨
        Fetching c prog (s.next c i) (Zipcpu.nextDue c s.cpu (s.cpuIn c i) due)
          (a.step c (a.insn c prog) d) ∨
        Decoded c prog (s.next c i) (Zipcpu.nextDue c s.cpu (s.cpuIn c i) due)
          (a.step c (a.insn c prog) d)) := by
  have hn := noIssue (i := i) h.empty
  refine finish hp hs hm hi hfed h.toExecuting h.units.aluBusy h.loaded.busy h.loaded.err
    (h.loaded.next (lock_eq hp) (noStb hn)) (h.commits) fun hjump => ?_
  rw [pcStrobe_of_mem h.aluPc, aluPc_eq hp]
  exact h.ipc hjump

end Sys

end ZipStormMX.Cpu
