/-
  The CPU follows the interpreter, clock by clock.

  Without a pipeline an instruction goes through the decoder, the operand stage and a unit, and the
  next one comes into the decoder as the last one is through.  The registers are those of the
  interpreter's state `a`, and the instruction at `a.pc` is in one of seven places: the CPU jumps to
  it, waits for it, has it in the decoder, in the operand stage, in the ALU, in the memory unit, or
  has just loaded its value.  A clock moves it on by one place or keeps it; as it leaves the last
  one, the interpreter makes its step.

  The crux is that an instruction is taken in on the clock in which the one before is written back,
  so that what the decoder reads are the registers as that clock leaves them (`finish`).
-/
import ZipStormMX.Cpu.Supervisor
import ZipStormMX.Cpu.UnitWork

namespace ZipStormMX.Cpu

variable {AW : ℕ}

/-- The upper half of a word that does not jump: the lower half belongs to the same instruction
    word. -/
def Insn.upper (i : Insn) (pc : BitVec (AW + 2)) : Bool :=
  i.half && !pc.getLsbD 1 && (!i.wR || !i.rPc)

/-- Where the word of `pc` is. -/
def wordStart (pc : BitVec (AW + 2)) : BitVec (AW + 2) := byteAddr (wordOf pc) 0#2

/-- The instruction writes the program counter of the supervisor. -/
def Arch.jumps (a : Arch AW) (i : Insn) : Bool :=
  a.executes i && i.writes && i.r == 0#1 ++ pcReg

namespace Sys

variable {F : FetchUnit AW}

/-! ## The places -/

section

variable (c : CpuCfg AW) (prog : BitVec AW → BitVec 32) (s : Sys F (memops AW c.memops))
  (due : Option (BitVec (AW + 2))) (a : Arch AW)

/-- The CPU jumps to the instruction. -/
structure Jumping : Prop where
  clear : Zipcpu.clearPipeline s.cpu = true
  target : s.cpu.pfPc = a.pc
  aligned : a.pc = wordStart a.pc
  ipc : s.cpu.ipc = a.pc
  empty : s.cpu.opValid = false
  memPc : s.cpu.memPcValid = false
  units : Zipcpu.UnitsRest c s.cpu
  mem : Memops.Resting s.mem

/-- It waits for the instruction. -/
structure Fetching : Prop where
  before : Zipcpu.Before c prog s.cpu due a.pc
  clear : Zipcpu.clearPipeline s.cpu = false
  dcd : Zipcpu.dcdValid s.cpu = false
  empty : s.cpu.opValid = false
  units : Zipcpu.UnitsRest c s.cpu
  mem : Memops.Resting s.mem
  aluPc : s.cpu.rAluPcValid = false
  ipc : (if !Zipcpu.aluPhase c s.cpu && s.cpu.memPcValid then s.cpu.dcd.oPc else s.cpu.ipc) =
    wordStart a.pc

/-- The instruction is in the decoder. -/
structure Decoded : Prop where
  decodes : Zipcpu.Decodes c prog s.cpu due a.pc
  clear : Zipcpu.clearPipeline s.cpu = false
  dcd : Zipcpu.dcdValid s.cpu = true
  empty : s.cpu.opValid = false
  units : Zipcpu.UnitsRest c s.cpu
  mem : Memops.Resting s.mem
  aluPc : s.cpu.rAluPcValid = false
  memPc : s.cpu.memPcValid = false
  ipc : s.cpu.ipc = wordStart a.pc
  valueA : Zipcpu.wOpAv s.cpu = a.regs (a.insn c prog).a
  valueB : Zipcpu.wOpBv s.cpu = a.regs (a.insn c prog).b

/-- What the operand stage has made of the condition and of the flags to write. -/
structure Conditioned : Prop where
  cond : s.cpu.rOpF = Zipcpu.condOf (a.insn c prog).cond
  wF : s.cpu.opWF = ((a.insn c prog).wF && (!(a.insn c prog).rCc || !(a.insn c prog).wR))

/-- The instruction is in the operand stage. -/
structure InOperand : Prop extends Conditioned c prog s a where
  go : ¬a.Stops c (a.insn c prog)
  decodes : Zipcpu.Decodes c prog s.cpu due a.pc
  clear : Zipcpu.clearPipeline s.cpu = false
  dcd : Zipcpu.dcdValid s.cpu = false
  full : s.cpu.opValid = true
  units : Zipcpu.UnitsRest c s.cpu
  mem : Memops.Resting s.mem
  aluPc : s.cpu.rAluPcValid = false
  memPc : s.cpu.memPcValid = false
  ipc : s.cpu.ipc = wordStart a.pc
  forAlu : s.cpu.opValidAlu = (a.insn c prog).alu
  forMem : s.cpu.opValidMem = (a.insn c prog).mem
  noDiv : s.cpu.opValidDiv = false
  noFpu : s.cpu.opValidFpu = false
  opA : s.cpu.rOpAv = a.operandA c (a.insn c prog)
  opB : s.cpu.rOpBv = a.operandB c (a.insn c prog)
  phase : Zipcpu.opPhase c s.cpu = (a.insn c prog).upper a.pc

/-- The instruction is out of the operand stage, and not through. -/
structure Executing : Prop where
  go : ¬a.Stops c (a.insn c prog)
  decodes : Zipcpu.Decodes c prog s.cpu due a.pc
  clear : Zipcpu.clearPipeline s.cpu = false
  dcd : Zipcpu.dcdValid s.cpu = false
  empty : s.cpu.opValid = false
  phase : Zipcpu.aluPhase c s.cpu = (a.insn c prog).upper a.pc

/-- The ALU has the instruction. -/
structure Computing : Prop extends Executing c prog s due a, Conditioned c prog s a where
  works : Cpuops.Works c.implementMpy (a.insn c prog).op (a.operandA c (a.insn c prog))
    (a.operandB c (a.insn c prog)) s.cpu.alu
  mem : Memops.Resting s.mem
  noMem : (a.insn c prog).mem = false
  index : s.cpu.wrIndex = 2
  reg : s.cpu.aluReg = (a.insn c prog).r
  aluWR : s.cpu.aluWR = ((a.insn c prog).wR && a.executes (a.insn c prog))
  aluWF : s.cpu.aluWF = ((a.insn c prog).wF && (!(a.insn c prog).rCc || !(a.insn c prog).wR)
    && a.executes (a.insn c prog))
  aluPc : s.cpu.rAluPcValid = !(a.insn c prog).upper a.pc
  memPc : s.cpu.memPcValid = false
  ipc : s.cpu.ipc = wordStart a.pc

/-- The memory unit has the instruction, or its value. -/
structure AtMemory : Prop extends Executing c prog s due a where
  units : Zipcpu.UnitsRest c s.cpu
  isMem : (a.insn c prog).mem = true
  goes : a.executes (a.insn c prog) = true
  index : s.cpu.wrIndex = 1
  aluPc : s.cpu.rAluPcValid = false
  ipc : a.jumps (a.insn c prog) = false →
    (if !Zipcpu.aluPhase c s.cpu && s.cpu.memPcValid then s.cpu.dcd.oPc else s.cpu.ipc) =
      wordStart ((a.insn c prog).nextPc a.pc)

/-- The access is under way. -/
structure Accessing : Prop extends AtMemory c prog s due a where
  serving : Memops.Serving c.memops ((a.insn c prog).op.extractLsb' 0 3)
    (a.operandB c (a.insn c prog)) (a.operandA c (a.insn c prog)) (a.insn c prog).r s.mem

/-- The value `d` has been loaded. -/
structure Holding (d : BitVec 32) : Prop extends AtMemory c prog s due a where
  load : (a.insn c prog).isStore = false
  loaded : Memops.Loaded ((a.insn c prog).op.extractLsb' 0 3) (a.operandB c (a.insn c prog))
    (a.insn c prog).r d s.mem

end

/-! ## Where nothing is issued -/

/-- The pins of the CPU: no reset, no debugger, no halt, no bus error. -/
structure Free (i : SysIn) : Prop where
  reset : i.iReset = false
  halt : i.iHalt = false
  dbgWe : i.iDbgWe = false
  clear : i.iClearPfCache = false
  err : i.iWbErr = false

variable {c : CpuCfg AW} {prog : BitVec AW → BitVec 32} {s : Sys F (memops AW c.memops)}
  {i : SysIn} {due : Option (BitVec (AW + 2))} {a : Arch AW}

theorem Free.undisturbed (h : Free i) (he : (memOut s).oErr = false) :
    Zipcpu.Undisturbed (s.cpuIn c i) := ⟨h.reset, h.halt, h.dbgWe, h.clear, he⟩

theorem noIssue (h : s.cpu.opValid = false) : Zipcpu.issue c s.cpu (s.cpuIn c i) = false := by
  cases hi : Zipcpu.issue c s.cpu (s.cpuIn c i)
  · rfl
  · rw [(Zipcpu.ready_of_issue hi).opValid] at h
    cases h

theorem noStb (h : Zipcpu.issue c s.cpu (s.cpuIn c i) = false) : (s.memIn c i).iStb = false := by
  show Zipcpu.memStb c s.cpu (s.cpuIn c i) = false
  rw [Zipcpu.memStb, Zipcpu.memCe_of_not_issue h, Bool.false_and]

theorem memErr (h : Free i) : (s.memIn c i).iWbErr = false := by
  show (memReply c s i).err = false
  unfold memReply Wbdblpriarb.replyA Wbdblpriarb.replyB slave
  rw [h.err]
  cases c.optPipelined <;> cases s.rAOwner <;> rfl

theorem lock_eq (hp : c.Plain) : c.memops.implementLock = false := by
  simp [CpuCfg.memops, CpuCfg.optLock, hp.pipe]

/-- Nothing is written back while no unit has a result. -/
theorem writesNothing (hp : c.Plain) (hd : s.cpu.dbgv = false)
    (hav : Zipcpu.aluValid s.cpu = false) (hmv : (memOut s).oValid = false) :
    Zipcpu.WritesBack c s.cpu (s.cpuIn c i) false 0 0 false 0 := by
  have hdiv : Zipcpu.divValid c s.cpu = false := by rw [Zipcpu.divValid, hp.divide, Bool.false_and]
  have hno : ∀ {P : Prop}, false = true → P := fun h => absurd h Bool.false_ne_true
  refine ⟨?_, hno, hno, hno, hno, ?_, hno⟩
  · unfold Zipcpu.wrRegCe
    generalize s.cpu.wrIndex.toNat = n
    have halu : (!Zipcpu.wrDiscard c s.cpu && (s.cpu.aluWR && Zipcpu.aluValid s.cpu)) = false := by
      rw [hav, Bool.and_false, Bool.and_false]
    rcases n with _ | _ | _ | _ | _ | n
    · exact hd
    · exact hmv
    · exact halu
    · show (_ && Zipcpu.divValid c s.cpu && _) = false
      rw [hdiv, Bool.and_false, Bool.false_and]
    · show (_ && Zipcpu.fpuValid && _) = false
      rw [Zipcpu.fpuValid, Bool.and_false, Bool.false_and]
    · exact halu
  · unfold Zipcpu.wrFlagsCe
    generalize s.cpu.wrIndex.toNat = n
    rcases n with _ | _ | _ | _ | _ | n
    · exact Bool.and_false _
    · exact Bool.and_false _
    · show (_ && Zipcpu.aluValid s.cpu) = false
      rw [hav, Bool.and_false]
    · show (_ && (Zipcpu.divValid c s.cpu && _)) = false
      rw [hdiv, Bool.false_and, Bool.and_false]
    · exact Bool.and_false _
    · exact Bool.and_false _

theorem aluPc_next (hn : Zipcpu.issue c s.cpu (s.cpuIn c i) = false) (hp : c.Plain)
    (hb : Zipcpu.aluBusy s.cpu = false) : (s.next c i).cpu.rAluPcValid = false := by
  show Zipcpu.nextAluPcValid c s.cpu (s.cpuIn c i) = false
  have hdiv : Zipcpu.divBusy c s.cpu = false := by rw [Zipcpu.divBusy, hp.divide, Bool.false_and]
  rw [Zipcpu.nextAluPcValid, Zipcpu.adf_of_not_issue hn, hb, hdiv]
  simp [Zipcpu.fpuBusy]

theorem memPc_next (hn : Zipcpu.issue c s.cpu (s.cpuIn c i) = false) :
    (s.next c i).cpu.memPcValid = false := by
  rw [next_cpu, Zipcpu.next_memPcValid, Zipcpu.memCe_of_not_issue hn, Bool.and_false]

theorem empty_next (hp : c.Plain) (hd : Zipcpu.dcdValid s.cpu = false)
    (he : s.cpu.opValid = false) : (s.next c i).cpu.opValid = false := by
  rw [next_cpu, Zipcpu.opValid_next hp.toSequential (fun _ => he), hd, he]
  simp

theorem units_next (hp : c.Plain) (hs : Zipcpu.Sane c s.cpu)
    (hn : Zipcpu.issue c s.cpu (s.cpuIn c i) = false) (hb : Zipcpu.aluBusy s.cpu = false) :
    Zipcpu.UnitsRest c (s.next c i).cpu :=
  Zipcpu.unitsRest_next hs hb (by rw [Zipcpu.divBusy, hp.divide, Bool.false_and]) (.inl hn)

theorem straight (hp : c.Plain) (hm : s.cpu.Calm a) (hi : Free i)
    (hcl : Zipcpu.clearPipeline s.cpu = false) : Zipcpu.Straight c s.cpu (s.cpuIn c i) :=
  ⟨hp.toSequential, hi.reset, hcl, hm.rClearIcache, hm.rGie⟩

/-- The registers stay where nothing is written back. -/
theorem calm_still (hp : c.Plain) (hm : s.cpu.Calm a) (hi : Free i)
    (hw : Zipcpu.WritesBack c s.cpu (s.cpuIn c i) false 0 0 false 0) (he : (memOut s).oErr = false)
    (hdec : Zipcpu.clearPipeline s.cpu = false → Zipcpu.dcdValid s.cpu = true →
      s.cpu.dcd.oIllegal = false ∧ s.cpu.dcd.oBreak = false) : (s.next c i).cpu.Calm a :=
  hm.next hp.toSequential (hi.undisturbed he) hw hdec

theorem calm_clear (hm : s.cpu.Calm a) (hi : Free i)
    (hw : Zipcpu.WritesBack c s.cpu (s.cpuIn c i) false 0 0 false 0)
    (he : (memOut s).oErr = false) : Zipcpu.clearPipeline (s.next c i).cpu = false :=
  hm.clear_next (hi.undisturbed he) hw

theorem ipc_still (hm : s.cpu.Calm a) (hi : Free i)
    (hw : Zipcpu.WritesBack c s.cpu (s.cpuIn c i) false 0 0 false 0)
    (he : (memOut s).oErr = false) :
    (s.next c i).cpu.ipc =
      if !Zipcpu.aluPhase c s.cpu && Zipcpu.pcStrobe c s.cpu then Zipcpu.aluPc c s.cpu
      else s.cpu.ipc :=
  hm.ipc_next (hi.undisturbed he) hw rfl

/-! ## From place to place -/

/-- **The jump.** -/
theorem Jumping.next (hp : c.Plain) (hs : Zipcpu.Sane c s.cpu) (hm : s.cpu.Calm a) (hi : Free i)
    (h : Jumping c s a) : (s.next c i).cpu.Calm a ∧
      Fetching c prog (s.next c i) (Zipcpu.nextDue c s.cpu (s.cpuIn c i) due) a := by
  have hw := writesNothing (i := i) hp hm.dbgv h.units.aluValid h.mem.valid
  have hn := noIssue (i := i) h.empty
  have hc := hp.toSequential
  refine ⟨calm_still hp hm hi hw h.mem.err fun hcl => ?_, ?_⟩
  · rw [h.clear] at hcl
    cases hcl
  have hheld : ((s.cpuIn c i).iReset || Zipcpu.clearPipeline s.cpu ||
      Zipcpu.wClearIcache s.cpu) = true := by
    rw [h.clear, Bool.or_true, Bool.true_or]
  have hstrobe : Zipcpu.pcStrobe c s.cpu = false := by
    rw [Zipcpu.pcStrobe, h.clear, h.memPc, Bool.not_true, Bool.and_false, Bool.false_and,
      Bool.or_false]
  have hnew : Zipcpu.nextDue c s.cpu (s.cpuIn c i) due = some (wordStart a.pc) := by
    have hclear : s.cpu.newPc = true := h.clear
    rw [Zipcpu.nextDue, Zipcpu.pfNewPc, hclear, Bool.true_or, if_pos rfl,
      Zipcpu.pfRequestAddress, Zipcpu.dcdEarlyBranchStb_eq hc, Bool.false_and,
      if_neg Bool.false_ne_true, h.target, ← h.aligned]
  refine
    { before := ?_, clear := calm_clear hm hi hw h.mem.err, dcd := ?_, empty := ?_
      units := units_next hp hs hn h.units.aluBusy
      mem := h.mem.next (lock_eq hp) (noStb hn), aluPc := aluPc_next hn hp h.units.aluBusy
      ipc := ?_ }
  · have hb : Zipcpu.Before c prog (s.next c i).cpu
        (Zipcpu.nextDue c s.cpu (s.cpuIn c i) due) (wordStart a.pc) := by
      refine .word (wordOf a.pc) ?_ hnew
      rw [next_cpu, Zipcpu.dcdPhase_next hc, hheld]
      rfl
    rwa [← h.aligned] at hb
  · rw [next_cpu, Zipcpu.dcdValid_next hc, hheld]
    rfl
  · rw [next_cpu, Zipcpu.next_opValid, Zipcpu.nextOpValid, Zipcpu.nextOpFlag, h.clear,
      Bool.or_true, if_pos rfl]
  · rw [memPc_next hn, Bool.and_false, if_neg Bool.false_ne_true, ipc_still hm hi hw h.mem.err,
      hstrobe, Bool.and_false, if_neg Bool.false_ne_true, h.ipc, ← h.aligned]

/-- A memory instruction sets the program counter one clock after it has left. -/
theorem pcStrobe_of_mem (haluPc : s.cpu.rAluPcValid = false) :
    Zipcpu.pcStrobe c s.cpu = s.cpu.memPcValid := by
  rw [Zipcpu.pcStrobe, Zipcpu.aluPcValid, haluPc, Bool.false_and, Bool.false_and, Bool.false_and,
    Bool.false_or]

theorem aluPc_eq (hp : c.Plain) : Zipcpu.aluPc c s.cpu = s.cpu.dcd.oPc := by
  simp [Zipcpu.aluPc, Zipcpu.opPc, hp.pipe, hp.early]

/-- Where the decoder is free and nothing jumps, the next instruction is waited for or decoded. -/
theorem arrive (hp : c.Plain) (hs : Zipcpu.Sane c s.cpu)
    (hstraight : Zipcpu.Straight c s.cpu (s.cpuIn c i))
    (hst : Zipcpu.dcdStalled c s.cpu (s.cpuIn c i) = false)
    (hfed : Zipcpu.Fed c prog s.cpu (s.cpuIn c i) due) (hempty : s.cpu.opValid = false)
    (hdcd : Zipcpu.dcdValid s.cpu = false) (hbusy : Zipcpu.aluBusy s.cpu = false) {b : Arch AW}
    (hbefore : Zipcpu.Before c prog s.cpu due b.pc) (hcalm : (s.next c i).cpu.Calm b)
    (hclear : Zipcpu.clearPipeline (s.next c i).cpu = false)
    (hmem : Memops.Resting (s.next c i).mem) (hipc : (s.next c i).cpu.ipc = wordStart b.pc) :
    Fetching c prog (s.next c i) (Zipcpu.nextDue c s.cpu (s.cpuIn c i) due) b ∨
      Decoded c prog (s.next c i) (Zipcpu.nextDue c s.cpu (s.cpuIn c i) due) b := by
  have hn := noIssue (i := i) hempty
  have hunits := units_next hp hs hn hbusy
  have haluPc := aluPc_next hn hp hbusy
  have hmemPc := memPc_next hn
  have hempty' := empty_next (i := i) hp hdcd hempty
  rcases Zipcpu.intake hstraight hst hbefore hfed with ⟨hdcd', hbefore', -⟩ | ⟨hdcd', hdecodes⟩
  · left
    exact
      { before := hbefore', clear := hclear, dcd := hdcd', empty := hempty', units := hunits
        mem := hmem, aluPc := haluPc
        ipc := by rw [hmemPc, Bool.and_false, if_neg Bool.false_ne_true, hipc] }
  · right
    obtain ⟨hva, hvb⟩ := Zipcpu.operands_read hp.toSequential hst
    exact
      { decodes := hdecodes, clear := hclear, dcd := hdcd', empty := hempty', units := hunits
        mem := hmem, aluPc := haluPc, memPc := hmemPc, ipc := hipc
        valueA := by
          refine hva.trans ?_
          rw [hdecodes.holds.a]
          exact congrFun hcalm.regs _
        valueB := by
          refine hvb.trans ?_
          rw [hdecodes.holds.b]
          exact congrFun hcalm.regs _ }

/-- Nothing holds the decoder back. -/
theorem Fetching.free (hp : c.Plain) (hm : s.cpu.Calm a) (hi : Free i)
    (h : Fetching c prog s due a) : Zipcpu.dcdStalled c s.cpu (s.cpuIn c i) = false := by
  have hw := writesNothing (i := i) hp hm.dbgv h.units.aluValid h.mem.valid
  have hbusy : (s.cpuIn c i).memBusy = false := h.mem.busy
  rw [hm.dcdStalled hp (hi.undisturbed h.mem.err) h.clear hw.cc, h.dcd, h.empty, h.units.aluBusy,
    hbusy]
  rfl

/-- **Waiting for the instruction.** -/
theorem Fetching.next (hp : c.Plain) (hs : Zipcpu.Sane c s.cpu) (hm : s.cpu.Calm a) (hi : Free i)
    (hfed : Zipcpu.Fed c prog s.cpu (s.cpuIn c i) due) (h : Fetching c prog s due a) :
    (s.next c i).cpu.Calm a ∧
      (Fetching c prog (s.next c i) (Zipcpu.nextDue c s.cpu (s.cpuIn c i) due) a ∨
        Decoded c prog (s.next c i) (Zipcpu.nextDue c s.cpu (s.cpuIn c i) due) a) := by
  have hw := writesNothing (i := i) hp hm.dbgv h.units.aluValid h.mem.valid
  have hn := noIssue (i := i) h.empty
  have hcalm := calm_still hp hm hi hw h.mem.err fun _ hd => by
    rw [h.dcd] at hd
    cases hd
  refine ⟨hcalm, arrive hp hs (straight hp hm hi h.clear) (h.free hp hm hi) hfed h.empty h.dcd
    h.units.aluBusy h.before hcalm (calm_clear hm hi hw h.mem.err)
    (h.mem.next (lock_eq hp) (noStb hn)) ?_⟩
  rw [ipc_still hm hi hw h.mem.err, pcStrobe_of_mem h.aluPc, aluPc_eq hp, h.ipc]

/-- Between two instructions no program counter is set. -/
theorem strobe_still (haluPc : s.cpu.rAluPcValid = false) (hmemPc : s.cpu.memPcValid = false) :
    Zipcpu.pcStrobe c s.cpu = false := (pcStrobe_of_mem haluPc).trans hmemPc

theorem phase_of_before {pc : BitVec (AW + 2)} (h : Zipcpu.Before c prog s.cpu due pc) :
    Zipcpu.dcdPhase c s.cpu = pc.getLsbD 1 := by
  cases h with
  | word w hph hdue =>
    rw [hph, Zipcpu.byteAddr_bit1]
    rfl
  | lower w hcis hph hkept hpc hlegal hdue =>
    rw [hph, Zipcpu.byteAddr_bit1]
    rfl

theorem nextPc_bit1 (j : Insn) (pc : BitVec (AW + 2)) :
    (j.nextPc pc).getLsbD 1 = (j.half && !pc.getLsbD 1) := by
  rw [Insn.nextPc]
  cases j.half && !pc.getLsbD 1
  · rw [if_neg Bool.false_ne_true, Zipcpu.byteAddr_bit1]
    rfl
  · rw [if_pos rfl, Zipcpu.byteAddr_bit1]
    rfl

/-! ## Operands -/

/-- The flags that the operand stage sees. -/
theorem flags_seen (hm : s.cpu.Calm a) (hf : Zipcpu.wrFlagsCe c s.cpu = false) :
    Zipcpu.opFl c s.cpu = a.flags := by
  have hg := hm.mode
  rw [Zipcpu.opFl, hg, if_neg Bool.false_ne_true, Zipcpu.wIflags, hf, Bool.false_and,
    if_neg Bool.false_ne_true, hm.flags]
  exact BitVec.extractLsb'_append_eq_right

theorem ccValue_eq (hp : c.Plain) (hs : Zipcpu.Sane c s.cpu) (hm : s.cpu.Calm a)
    (hf : Zipcpu.wrFlagsCe c s.cpu = false) (user : Bool) (v : BitVec 32) :
    Zipcpu.ccValue c s.cpu user v = a.ccOperand c user v := by
  have hu : Zipcpu.uhaltPhase c s.cpu = (c.optCis && a.uphase) := by
    rw [Zipcpu.uhaltPhase, hm.uphase]
  have hih : Zipcpu.ihaltPhase c s.cpu = false := by
    rw [Zipcpu.ihaltPhase, hs.ihalt, Bool.and_false]
  rw [Zipcpu.ccValue, Arch.ccOperand]
  congr 1
  cases user
  · rw [if_neg Bool.false_ne_true, if_neg Bool.false_ne_true, Zipcpu.wIflags, hf, hih, hm.flags,
      Zipcpu.ifpuErrFlag, Zipcpu.idivErrFlag, hp.fpu, hp.divide, hm.ibusErrFlag, Zipcpu.trap,
      hm.rTrap, hm.illErrI, hm.breakEn, hm.sleep]
    simp only [Bool.false_and, Bool.false_eq_true, if_false]
    generalize a.flags = fl
    revert fl
    decide
  · rw [if_pos rfl, if_pos rfl, Zipcpu.wUflags, hf, hu, hm.userFlags,
      Zipcpu.ufpuErrFlag, Zipcpu.udivErrFlag, hp.fpu, hp.divide, Zipcpu.ubusErrFlag,
      hm.rUbusErrFlag, Zipcpu.trap, hm.rTrap, Zipcpu.illErrU, hm.rIllErrU, Zipcpu.ubreak,
      hm.rUbreak, hm.step, hm.sleep]
    simp only [Bool.false_and, Bool.false_eq_true, if_false]
    generalize a.userFlags = fl
    generalize (c.optCis && a.uphase) = ph
    revert fl ph
    decide

theorem pcValue_eq (hm : s.cpu.Calm a) {j : Insn} (hpc : s.cpu.dcd.oPc = j.nextPc a.pc)
    (user : Bool) : Zipcpu.wPcV c s.cpu user = a.pcOperand c j user := by
  have hg := hm.mode
  rw [Zipcpu.wPcV, Arch.pcOperand, hg, hpc, Zipcpu.upc, hm.upc, Zipcpu.uhaltPhase, hm.uphase]
  cases user <;> rfl

theorem operandA_next (hp : c.Plain) (hs : Zipcpu.Sane c s.cpu) (hm : s.cpu.Calm a)
    (hf : Zipcpu.wrFlagsCe c s.cpu = false) {j : Insn} (hj : Zipcpu.Holds s.cpu.dcd j)
    (hpc : s.cpu.dcd.oPc = j.nextPc a.pc) (hv : Zipcpu.wOpAv s.cpu = a.regs j.a) :
    (s.next c i).cpu.rOpAv = a.operandA c j := by
  show Zipcpu.nextOpAv c s.cpu (s.cpuIn c i) = _
  have hload : Zipcpu.opLoad c s.cpu (s.cpuIn c i) = true := by simp [Zipcpu.opLoad, hp.pipe]
  rw [Zipcpu.nextOpAv, hload, if_pos rfl, hp.pipe, Bool.false_and, Bool.false_and,
    if_neg Bool.false_ne_true, hj.aPc, hj.aCc, hj.a, hv, pcValue_eq hm hpc,
    ccValue_eq hp hs hm hf]
  rfl

theorem operandB_next (hp : c.Plain) (hs : Zipcpu.Sane c s.cpu) (hm : s.cpu.Calm a)
    (hf : Zipcpu.wrFlagsCe c s.cpu = false) {j : Insn} (hj : Zipcpu.Holds s.cpu.dcd j)
    (hpc : s.cpu.dcd.oPc = j.nextPc a.pc) (hv : Zipcpu.wOpBv s.cpu = a.regs j.b) :
    (s.next c i).cpu.rOpBv = a.operandB c j := by
  show Zipcpu.nextOpBv c s.cpu (s.cpuIn c i) = _
  have hload : Zipcpu.opLoad c s.cpu (s.cpuIn c i) = true := by simp [Zipcpu.opLoad, hp.pipe]
  have himm : Zipcpu.dcdI s.cpu = j.imm := hj.imm
  rw [Zipcpu.nextOpBv, hload, if_pos rfl, hj.bPc, hj.rB, hj.b, himm, pcValue_eq hm hpc,
    Zipcpu.wOpBnI, hj.rB, hp.pipe, Bool.false_and, Bool.false_and, if_neg Bool.false_ne_true,
    hj.bCc, hj.b, hv, ccValue_eq hp hs hm hf]
  rfl

/-- The condition and the flags to write are made again from what the decoder holds. -/
theorem conditioned_next (hp : c.Plain) (hd : Zipcpu.Decodes c prog s.cpu due a.pc) :
    Conditioned c prog (s.next c i) a := by
  have hj : Zipcpu.Holds s.cpu.dcd (a.insn c prog) := hd.holds
  have hload : Zipcpu.opLoad c s.cpu (s.cpuIn c i) = true := by simp [Zipcpu.opLoad, hp.pipe]
  constructor
  · rw [next_cpu, Zipcpu.next_rOpF, if_pos hload, hj.cond]
  · rw [next_cpu, Zipcpu.next_opWF, if_pos hload, hj.wF, hj.rCc, hj.wR,
      Zipcpu.dcdEarlyBranch_eq hp.toSequential, Bool.not_false, Bool.and_true]

/-- **Out of the decoder.** -/
theorem Decoded.next (hp : c.Plain) (hs : Zipcpu.Sane c s.cpu) (hm : s.cpu.Calm a) (hi : Free i)
    (hgo : ¬a.Stops c (a.insn c prog)) (h : Decoded c prog s due a) :
    (s.next c i).cpu.Calm a ∧
      InOperand c prog (s.next c i) (Zipcpu.nextDue c s.cpu (s.cpuIn c i) due) a := by
  have hw := writesNothing (i := i) hp hm.dbgv h.units.aluValid h.mem.valid
  have hn := noIssue (i := i) h.empty
  have hc := hp.toSequential
  have hx := hi.undisturbed (c := c) (s := s) h.mem.err
  have hstr := straight hp hm hi h.clear
  have hj := h.decodes.holds
  have hlegal : (a.insn c prog).illegal = false := by
    cases hill : (a.insn c prog).illegal
    · rfl
    · exact absurd (.inl hill) hgo
  have hbrk : (a.insn c prog).brk = false := by
    cases hbrk : (a.insn c prog).brk
    · rfl
    · exact absurd (.inr (.inl hbrk)) hgo
  have hst : Zipcpu.dcdStalled c s.cpu (s.cpuIn c i) = true :=
    Zipcpu.dcdStalled_of_dcdValid hc h.dcd
  have hce : Zipcpu.opCe c s.cpu (s.cpuIn c i) = true := (Zipcpu.opCe_eq hc).trans h.dcd
  have hload : Zipcpu.opLoad c s.cpu (s.cpuIn c i) = true := by simp [Zipcpu.opLoad, hp.pipe]
  have hrst : ((s.cpuIn c i).iReset || Zipcpu.clearPipeline s.cpu) = false := by
    rw [hx.reset, h.clear, Bool.or_self]
  have hvalid : Zipcpu.wOpValid c s.cpu = true := by
    rw [Zipcpu.wOpValid, h.clear, h.dcd, Zipcpu.dcdLjmp_eq hc, Zipcpu.dcdEarlyBranch_eq hc]
    rfl
  have hill : s.cpu.dcd.oIllegal = false := hj.illegal.trans hlegal
  refine ⟨calm_still hp hm hi hw h.mem.err fun _ _ => ⟨hill, hj.brk.trans hbrk⟩, ?_⟩
  refine
    { go := hgo, decodes := Zipcpu.stalled hstr hst h.decodes
      clear := calm_clear hm hi hw h.mem.err, dcd := Zipcpu.stalled_valid hstr hst, full := ?_
      units := units_next hp hs hn h.units.aluBusy
      mem := h.mem.next (lock_eq hp) (noStb hn), aluPc := aluPc_next hn hp h.units.aluBusy
      memPc := memPc_next hn, ipc := ?_, forAlu := ?_, forMem := ?_, noDiv := ?_, noFpu := ?_
      opA := operandA_next hp hs hm hw.flagsCe hj h.decodes.behind h.valueA
      opB := operandB_next hp hs hm hw.flagsCe hj h.decodes.behind h.valueB
      phase := ?_, toConditioned := conditioned_next hp h.decodes }
  · rw [next_cpu, Zipcpu.opValid_next hc (fun _ => h.empty), hrst, h.dcd]
    rfl
  · rw [ipc_still hm hi hw h.mem.err, strobe_still h.aluPc h.memPc, Bool.and_false,
      if_neg Bool.false_ne_true, h.ipc]
  · rw [next_cpu, Zipcpu.next_opValidAlu, Zipcpu.nextOpValidAlu, Zipcpu.nextOpFlag, hrst,
      if_neg Bool.false_ne_true, hce, if_pos rfl, h.empty, Bool.not_false, Bool.or_true,
      if_pos rfl, hvalid, hill, hj.alu, Bool.true_and, Bool.or_false]
    rfl
  · rw [next_cpu, Zipcpu.next_opValidMem, Zipcpu.nextOpValidMem, Zipcpu.nextOpFlag, hrst,
      if_neg Bool.false_ne_true, hce, if_pos rfl, h.empty, Bool.not_false, Bool.or_true,
      if_pos rfl, hvalid, hill, hj.mem, Bool.not_false, Bool.and_true, Bool.and_true]
    rfl
  · rw [next_cpu, Zipcpu.next_opValidDiv, Zipcpu.nextOpValidDiv, Zipcpu.nextOpFlag, hrst,
      if_neg Bool.false_ne_true, hce, if_pos rfl, h.empty, Bool.not_false, Bool.or_true,
      if_pos rfl, hp.divide, Bool.false_and, Bool.false_and, Bool.false_and]
  · rw [next_cpu, Zipcpu.next_opValidFpu, Zipcpu.nextOpValidFpu, Zipcpu.nextOpFlag, hrst,
      if_neg Bool.false_ne_true, hce, if_pos rfl, h.empty, Bool.not_false, Bool.or_true,
      if_pos rfl, hp.fpu, Bool.false_and, Bool.false_and, Bool.false_and]
  · rw [next_cpu, Zipcpu.opPhase_next hc, hrst, h.dcd, if_pos rfl,
      phase_of_before h.decodes.before, nextPc_bit1, hj.wR, hj.rPc]
    rfl

end Sys

end ZipStormMX.Cpu
