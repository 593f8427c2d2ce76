/-
  One step of the halted CPU.

  `zipbones` steps the CPU by letting `i_halt` fall for a single clock.  What is executed is what is
  ready in the operand stage on that clock, and the second half of a compressed pair after its first
  half, since `alu_phase` overrides `i_halt`.  With the operand stage empty the clock goes into
  decoding an instruction, and none is executed.
-/
import ZipStormMX.Cpu.Stages
import ZipStormMX.Cpu.DebugPort
import ZipStormMX.Cpu.Zipbones
import ZipStormMX.Cpu.Board

namespace ZipStormMX.Cpu

variable {AW : ℕ}

namespace Zipcpu

variable {c : CpuCfg AW} {s : Zipcpu AW} {x : CpuIn AW}

/-- An instruction for the ALU is being executed, or its result is there. -/
def aluActive (s : Zipcpu AW) : Bool := aluBusy s || aluValid s

/-- The ALU works on as long as the pipeline is not cleared. -/
theorem aluActive_next (hs : Sane c s) (hb : aluBusy s = true) (hr : x.iReset = false)
    (hn : clearPipeline s = false) : aluActive (next c s x) = true := by
  have hi := issue_of_unitBusy (c := c) (x := x) (Or.inl hb)
  have hadf := adf_of_not_issue hi
  have hrst : aluReset s x = false := by simp [aluReset, hr, hn]
  have hstb : aluCe c s x = false := by simp [aluCe, hadf]
  have hon : (next c s x).alu.rBusy = true ∨ (next c s x).alu.oValid = true :=
    Cpuops.working_on hs.alu hrst hb hstb
  exact Bool.or_eq_true_iff.mpr hon

/-- An instruction that is started keeps the ALU busy, or its result is there on the next clock. -/
theorem aluActive_of_aluCe (ha : aluCe c s x = true) (hr : x.iReset = false)
    (hn : clearPipeline s = false) : aluActive (next c s x) = true := by
  have hrst : aluReset s x = false := by simp [aluReset, hr, hn]
  simp only [aluActive, aluBusy, aluValid, next_alu, Cpuops.next_rBusy, Cpuops.next_oValid,
    Cpuops.nextBusy, Cpuops.nextValid, ha, hrst]
  rcases Nat.lt_or_ge 1 c.implementMpy with hm | hm
  · simp [hm, Nat.not_le.mpr hm]
    cases Cpuops.thisIsAMultiplyOp true (opOpn c s) <;> simp
  · simp [hm, Nat.not_lt.mpr hm]

/-- Only a multiplication keeps the ALU busy. -/
theorem mpy_of_aluBusy (hs : Sane c s) (hb : aluBusy s = false)
    (h : aluBusy (next c s x) = true) : Cpuops.isMultiplyOp (opOpn c s) = true := by
  have hw : Mpyop.working c.implementMpy s.alu.mpy = false := by
    rw [hs.alu.busy]
    exact hb
  simp only [aluBusy, next_alu, Cpuops.next_rBusy, Cpuops.nextBusy,
    Cpuops.mpybusy_of_not_working hw, Bool.or_false, Bool.and_eq_true,
    Cpuops.thisIsAMultiplyOp] at h
  exact h.2.2.2

end Zipcpu

namespace Sys

variable {c : CpuCfg AW} {F : FetchUnit AW} {s : Sys F (memops AW c.memops)}

/-! ## Retiring -/

/-- The instructions that retire on this clock, each with whether it is the first half of a
    compressed pair that is to be followed by the second: a memory instruction when the memory unit
    takes it, any other when its result is written back. -/
def retires (c : CpuCfg AW) (s : Sys F (memops AW c.memops)) (i : SysIn) : List Bool :=
  (if Zipcpu.memCe c s.cpu (s.cpuIn c i) then [Zipcpu.opPhase c s.cpu] else [])
    ++ (if Zipcpu.aluValid s.cpu && !Zipcpu.wrDiscard c s.cpu then [Zipcpu.aluPhase c s.cpu] else [])

/-- One instruction, or both halves of a pair. -/
def OneRetired (l : List Bool) : Prop := l.length = 1 ∨ l = [true, false]

section

variable {h g : Bool} {i : SysIn}

/-! ## Clocks on which nothing retires -/

theorem retires_of_not_issue (hi : Zipcpu.issue c s.cpu (s.cpuIn c i) = false) :
    retires c s i = if Zipcpu.aluValid s.cpu && !Zipcpu.wrDiscard c s.cpu then
      [Zipcpu.aluPhase c s.cpu] else [] := by
  simp [retires, Zipcpu.memCe_of_not_issue hi]

theorem retires_of_clear (hn : Zipcpu.clearPipeline s.cpu = true) : retires c s i = [] := by
  simp [retires, Zipcpu.memCe_of_idle (Or.inr hn), Zipcpu.wrDiscard, hn]

theorem retires_of_busy (hs : Zipcpu.Sane c s.cpu) (hb : Zipcpu.aluBusy s.cpu = true) :
    retires c s i = [] := by
  have hv : Zipcpu.aluValid s.cpu = false := hs.alu.valid hb
  rw [retires_of_not_issue (Zipcpu.issue_of_unitBusy (Or.inl hb)), hv]
  rfl

/-- What executes lets nothing be issued. -/
theorem Seq.not_issue (hq : Seq c s) (he : Zipcpu.aluActive s.cpu = true) :
    Zipcpu.issue c s.cpu (s.cpuIn c i) = false := by
  have hex : executing c s = true := by
    simp only [Zipcpu.aluActive, Bool.or_eq_true] at he
    rcases he with he | he <;> simp [executing, he]
  cases hi : Zipcpu.issue c s.cpu (s.cpuIn c i)
  · rfl
  · have hv := (Zipcpu.ready_of_issue hi).opValid
    rw [(hq.exec hex).2] at hv
    cases hv

theorem aluActive_of_rest (hs : Zipcpu.Sane c s.cpu) (hb : Zipcpu.aluBusy s.cpu = false)
    (hi : Zipcpu.aluCe c s.cpu (s.cpuIn c i) = false) :
    Zipcpu.aluActive (s.next c i).cpu = false :=
  Bool.or_eq_false_iff.mpr (Cpuops.rest_next hs.alu hb hi)

theorem aluActive_of_clear (hn : Zipcpu.clearPipeline s.cpu = true) :
    Zipcpu.aluActive (s.next c i).cpu = false :=
  Bool.or_eq_false_iff.mpr (Cpuops.rest_reset (by simp [Zipcpu.aluReset, hn]))

/-- Nothing more will retire while the CPU is held: no half is owed, and the ALU is idle or at work
    on an illegal instruction. -/
def Spent (c : CpuCfg AW) (s : Sys F (memops AW c.memops)) : Prop :=
  Zipcpu.aluPhase c s.cpu = false ∧ (Zipcpu.aluActive s.cpu = false ∨
    (s.cpu.opIllegal = true ∧ Zipcpu.dcdValid s.cpu = false))

/-- A pipeline that is cleared is spent. -/
theorem spent_of_clear (hn : Zipcpu.clearPipeline s.cpu = true) : Spent c (s.next c i) :=
  ⟨by simp [Zipcpu.aluPhase, Zipcpu.nextAluPhase, hn], Or.inl (aluActive_of_clear hn)⟩

theorem Spent.next (hc : c.Sequential) (hs : Zipcpu.Sane c s.cpu) (h : Spent c s)
    (hx : Zipcpu.issue c s.cpu (s.cpuIn c i) = false) (hr : i.iReset = false)
    (hst : i.iHalt = true) :
    Spent c (s.next c i) ∧ retires c s i = [] := by
  cases hn : Zipcpu.clearPipeline s.cpu
  · have hadf := Zipcpu.adf_of_not_issue hx
    have hphase : Zipcpu.aluPhase c (s.next c i).cpu = false := by
      have hp := h.1
      simp only [Zipcpu.aluPhase, Bool.and_eq_false_iff] at hp
      simp only [Zipcpu.aluPhase, next_cpu, Zipcpu.next_rAluPhase,
        Zipcpu.nextAluPhase_of_not_issue hx]
      rcases hp with hp | hp <;> simp [hp]
    rcases h.2 with ha | ⟨hill, hd⟩
    · -- the ALU is idle
      obtain ⟨hb, hv⟩ := Bool.or_eq_false_iff.mp ha
      refine ⟨⟨hphase, Or.inl (aluActive_of_rest hs hb (by simp [Zipcpu.aluCe, hadf]))⟩, ?_⟩
      rw [retires_of_not_issue hx, hv]
      rfl
    · -- an illegal instruction stays illegal, and is discarded
      have hd' : Zipcpu.dcdValid (s.next c i).cpu = false := by
        have hce : Zipcpu.masterCe c s.cpu (s.cpuIn c i) = false := by
          simp [Zipcpu.masterCe, hst, h.1]
        rw [next_cpu, Zipcpu.dcdValid_next hc, Zipcpu.dcdStalled, hce, hc.pipe]
        simp
      have hill' : (s.next c i).cpu.opIllegal = true := by
        have hr' : (s.cpuIn c i).iReset = false := hr
        simp [Zipcpu.nextOpIllegal, hr, hn, hc.pipe, hd, hill]
      refine ⟨⟨hphase, Or.inr ⟨hill', hd'⟩⟩, ?_⟩
      have hdis : Zipcpu.wrDiscard c s.cpu = true := by
        simp [Zipcpu.wrDiscard, Zipcpu.aluIllegal, hc.pipe, hill]
      rw [retires_of_not_issue hx, hdis]
      simp
  · exact ⟨spent_of_clear hn, retires_of_clear hn⟩

/-! ## The instruction that is issued -/

/-- The instruction that was ready is being executed by the ALU, as one of mode `g` and with
    `alu_phase` being `h`. -/
structure First (c : CpuCfg AW) (h g : Bool) (s : Sys F (memops AW c.memops)) : Prop where
  active : Zipcpu.aluActive s.cpu = true
  phase : Zipcpu.aluPhase c s.cpu = h
  gie : Zipcpu.gie s.cpu = g
  clear : Zipcpu.clearPipeline s.cpu = false
  legal : s.cpu.opIllegal = false
  opBreak : s.cpu.rOpBreak = false
  dbgv : s.cpu.dbgv = false
  mem : (memOut s).oBusy = false ∧ (memOut s).oValid = false ∧ (memOut s).oErr = false

/-- Nothing is about to clear the pipeline. -/
def Safe (h g : Bool) (s : Sys F (memops AW c.memops)) : Prop :=
  s.cpu.dbgClearPipe = false ∧ Zipcpu.wClearIcache s.cpu = false ∧
    (g = true → h = false → Zipcpu.pendingInterrupt s.cpu = false)

theorem First.wrRegCe (hc : c.Plain) (hq : Seq c s) (hf : First c h g s)
    (hb : Zipcpu.aluBusy s.cpu = true) : Zipcpu.wrRegCe c s.cpu (s.cpuIn c i) = false := by
  have hav : Zipcpu.aluValid s.cpu = false := hq.sane.alu.valid hb
  have hmv : (s.cpuIn c i).memValid = false := hf.mem.2.1
  simp only [Zipcpu.wrRegCe, hf.dbgv, hav, hmv, Zipcpu.divValid, hc.divide, Zipcpu.fpuValid]
  split <;> simp

/-- Working, the multiplier is interrupted between two instructions only. -/
theorem First.switch (hc : c.Plain) (hq : Seq c s) (hf : First c h g s)
    (hb : Zipcpu.aluBusy s.cpu = true) : Zipcpu.wSwitchToInterrupt c s.cpu (s.cpuIn c i) =
      (g && !h && Zipcpu.pendingInterrupt s.cpu) := by
  have hbl : Zipcpu.busLock c s.cpu = false := by simp [Zipcpu.busLock, Zipcpu.hasLockLogic, hc.pipe]
  have hmb : (s.cpuIn c i).memBusy = false := hf.mem.1
  have hbe : (s.cpuIn c i).busErr = false := hf.mem.2.2
  simp only [Zipcpu.wSwitchToInterrupt, hf.wrRegCe hc hq hb, hf.gie, hf.phase, hbl, hmb, hbe,
    Zipcpu.divError, hc.divide, Zipcpu.fpuError]
  cases g <;> cases h <;> cases Zipcpu.pendingInterrupt s.cpu <;> rfl

theorem First.release (hc : c.Plain) (hq : Seq c s) (hf : First c h g s)
    (hb : Zipcpu.aluBusy s.cpu = true) :
    Zipcpu.wReleaseFromInterrupt c s.cpu (s.cpuIn c i) = false := by
  simp [Zipcpu.wReleaseFromInterrupt, hf.wrRegCe hc hq hb]

/-- What takes the product back. -/
theorem First.newPc_next (hc : c.Plain) (hq : Seq c s) (hf : First c h g s)
    (hb : Zipcpu.aluBusy s.cpu = true) (hr : i.iReset = false) :
    Zipcpu.clearPipeline (s.next c i).cpu = (Zipcpu.wClearIcache s.cpu || s.cpu.dbgClearPipe ||
      (g && !h && Zipcpu.pendingInterrupt s.cpu)) := by
  have hr' : (s.cpuIn c i).iReset = false := hr
  simp only [Zipcpu.clearPipeline, next_cpu, Zipcpu.next_newPc, Zipcpu.nextNewPc, hr',
    hf.switch hc hq hb, hf.release hc hq hb, hf.wrRegCe hc hq hb, Bool.false_or, Bool.false_and]
  cases Zipcpu.wClearIcache s.cpu || s.cpu.dbgClearPipe <;>
    cases g && !h && Zipcpu.pendingInterrupt s.cpu <;> rfl

/-- The multiplier works on, if the product is not taken back. -/
theorem First.next (hc : c.Plain) (hq : Seq c s) (hf : First c h g s)
    (hb : Zipcpu.aluBusy s.cpu = true) (hr : i.iReset = false) (hw : i.iDbgWe = false)
    (hn : Zipcpu.clearPipeline (s.next c i).cpu = false) : First c h g (s.next c i) := by
  have hr' : (s.cpuIn c i).iReset = false := hr
  have hw' : (s.cpuIn c i).iDbgWe = false := hw
  have hni := hq.not_issue (i := i) hf.active
  have hdcd := (hq.dcd_of_busy (Or.inl hb)).1
  have hsw : Zipcpu.wSwitchToInterrupt c s.cpu (s.cpuIn c i) = false := by
    rw [hf.newPc_next hc hq hb hr, Bool.or_eq_false_iff] at hn
    rw [hf.switch hc hq hb]
    exact hn.2
  have hl : c.memops.implementLock = false := by simp [CpuCfg.memops, CpuCfg.optLock, hc.pipe]
  refine ⟨?_, ?_, ?_, hn, ?_, ?_, ?_, ?_⟩
  · exact Zipcpu.aluActive_next hq.sane hb hr hf.clear
  · have hp := hf.phase
    simp only [Zipcpu.aluPhase, next_cpu, Zipcpu.next_rAluPhase,
      Zipcpu.nextAluPhase_of_not_issue hni, hr', hf.clear] at hp ⊢
    simpa using hp
  · have hg := hf.gie
    simp only [Zipcpu.gie] at hg
    simp [Zipcpu.gie, Zipcpu.nextGie, hr, hsw, hf.release hc hq hb, hg]
  · simp [Zipcpu.nextOpIllegal, hr, hf.clear, hc.pipe, hdcd, hf.legal]
  · simp [Zipcpu.nextOpBreak, hf.clear, hc.pipe, hdcd, hf.opBreak]
  · simp [hw]
  · have hstb : (s.memIn c i).iStb = false := by
      simp [memIn, Zipcpu.memIn, Zipcpu.memStb, Zipcpu.memCe_of_not_issue hni]
    exact Memops.rest_next hl hf.mem.1 hstb

/-- Nothing will, as long as neither interrupt nor cache clear comes in. -/
theorem First.safe_next (hc : c.Plain) (hq : Seq c s) (hf : First c h g s)
    (hb : Zipcpu.aluBusy s.cpu = true) (hs : Safe h g s) (hw : i.iDbgWe = false)
    (hcl : i.iClearPfCache = false) (hint : g = true → h = false → i.iInterrupt = false) :
    Safe h g (s.next c i) := by
  have hni := hq.not_issue (i := i) hf.active
  have hadf := Zipcpu.adf_of_not_issue hni
  have hmem := Zipcpu.memCe_of_not_issue hni
  refine ⟨?_, ?_, fun hg hh => ?_⟩
  · simp [Zipcpu.nextDbgClearPipe, Zipcpu.dbgWrite, hw, hcl]
  · simp [Zipcpu.wClearIcache, Zipcpu.nextClearIcache, hcl, hf.wrRegCe hc hq hb]
  · have hint' : (s.cpuIn c i).iInterrupt = false := hint hg hh
    have hpend : s.cpu.rPendingInterrupt = false := hs.2.2 hg hh
    simp [Zipcpu.pendingInterrupt, Zipcpu.nextPendingInterrupt, hint hg hh, hadf, hmem,
      Zipcpu.breakPending, hc.pipe, Zipcpu.opBreak, hf.opBreak, hpend]

/-- A user's multiplication that is interrupted. -/
theorem First.pending_next (hc : c.Plain) (hq : Seq c s) (hf : First c h g s)
    (hb : Zipcpu.aluBusy s.cpu = true) (hr : i.iReset = false)
    (hn : Zipcpu.clearPipeline (s.next c i).cpu = false) (hg : g = true)
    (hint : i.iInterrupt = true) : Zipcpu.pendingInterrupt (s.next c i).cpu = true := by
  have hsw : Zipcpu.wSwitchToInterrupt c s.cpu (s.cpuIn c i) = false := by
    rw [hf.newPc_next hc hq hb hr, Bool.or_eq_false_iff] at hn
    rw [hf.switch hc hq hb]
    exact hn.2
  have hgie : Zipcpu.gie s.cpu = true := hf.gie.trans hg
  simp [Zipcpu.pendingInterrupt, Zipcpu.nextPendingInterrupt, hr, hf.clear, hsw, hgie, hint]

/-- The result retires. -/
theorem First.retire (hc : c.Plain) (hq : Seq c s) (hf : First c h g s)
    (hb : Zipcpu.aluBusy s.cpu = false) (hr : i.iReset = false) :
    retires c s i = [h] ∧ Zipcpu.aluActive (s.next c i).cpu = false ∧
      Zipcpu.aluPhase c (s.next c i).cpu = h := by
  have hni := hq.not_issue (i := i) hf.active
  have hav : Zipcpu.aluValid s.cpu = true := by
    have ha := hf.active
    simp only [Zipcpu.aluActive, hb, Bool.false_or] at ha
    exact ha
  refine ⟨?_, ?_, ?_⟩
  · have hdis : Zipcpu.wrDiscard c s.cpu = false := by
      simp [Zipcpu.wrDiscard, Zipcpu.aluIllegal, hc.pipe, hf.clear, hf.legal]
    rw [retires_of_not_issue hni, hav, hf.phase, hdis]
    rfl
  · exact aluActive_of_rest hq.sane hb (by simp [Zipcpu.aluCe, Zipcpu.adf_of_not_issue hni])
  · have hr' : (s.cpuIn c i).iReset = false := hr
    have hp := hf.phase
    simp only [Zipcpu.aluPhase, next_cpu, Zipcpu.next_rAluPhase,
      Zipcpu.nextAluPhase_of_not_issue hni, hr', hf.clear] at hp ⊢
    simpa using hp

/-! ## The second half -/

/-- The second half of a pair is still to come. -/
def Owed (c : CpuCfg AW) (s : Sys F (memops AW c.memops)) : Prop :=
  Zipcpu.aluPhase c s.cpu = true ∧ Zipcpu.aluActive s.cpu = false

/-- It comes, or it does not, and then that is all. -/
theorem Owed.next (hq : Seq c s) (h : Owed c s) :
    (Owed c (s.next c i) ∧ retires c s i = []) ∨
      (Zipcpu.aluPhase c (s.next c i).cpu = false ∧ retires c s i = []) ∨
      (Spent c (s.next c i) ∧ retires c s i = [false]) := by
  obtain ⟨hp, ha⟩ := h
  obtain ⟨hb, hv⟩ := Bool.or_eq_false_iff.mp ha
  cases hn : Zipcpu.clearPipeline s.cpu
  · cases hi : Zipcpu.issue c s.cpu (s.cpuIn c i)
    · -- still to come
      have hret : retires c s i = [] := by
        rw [retires_of_not_issue hi, hv]
        rfl
      cases hp' : Zipcpu.aluPhase c (s.next c i).cpu
      · exact Or.inr (Or.inl ⟨rfl, hret⟩)
      · have hna := aluActive_of_rest (i := i) hq.sane hb
          (by simp [Zipcpu.aluCe, Zipcpu.adf_of_not_issue hi])
        exact Or.inl ⟨⟨hp', hna⟩, hret⟩
    · -- it is issued
      have hov := (Zipcpu.ready_of_issue hi).opValid
      have hop : Zipcpu.opPhase c s.cpu = false := by
        rcases hq.owed hn hp with ⟨-, -, h0⟩ | ⟨-, hd⟩ | ⟨-, -, hop⟩
        · rw [h0] at hov
          cases hov
        · rw [hq.dcd hd] at hov
          cases hov
        · exact hop
      have hp' : Zipcpu.aluPhase c (s.next c i).cpu = false := by
        simp [Zipcpu.aluPhase, Zipcpu.nextAluPhase, hn, hi, hov, hop]
      right
      cases hm : Zipcpu.memCe c s.cpu (s.cpuIn c i)
      · left
        refine ⟨hp', ?_⟩
        simp [retires, hm, hv]
      · right
        have hadf : Zipcpu.aluCe c s.cpu (s.cpuIn c i) = false := by
          have hvm : s.cpu.opValidMem = true := by
            simp only [Zipcpu.memCe, Bool.and_eq_true] at hm
            exact hm.1.1.2
          simp [Zipcpu.aluCe, Zipcpu.adfCeUnconditional, hvm]
        refine ⟨⟨hp', Or.inl (aluActive_of_rest hq.sane hb hadf)⟩, ?_⟩
        simp [retires, hm, hop, hv]
  · right
    left
    exact ⟨(spent_of_clear hn).1, retires_of_clear hn⟩

/-- With no half owed, a CPU that is held retires at most what the ALU has. -/
theorem last_next (hq : Seq c s) (hp : Zipcpu.aluPhase c s.cpu = false) (hst : i.iHalt = true) :
    Zipcpu.aluPhase c (s.next c i).cpu = false ∧
      (retires c s i = [] ∨ (retires c s i = [false] ∧
        Zipcpu.aluActive (s.next c i).cpu = false)) := by
  have hi : Zipcpu.issue c s.cpu (s.cpuIn c i) = false := Zipcpu.issue_of_held hp (Or.inl hst)
  have hphase : Zipcpu.aluPhase c (s.next c i).cpu = false := by
    simp only [Zipcpu.aluPhase, Bool.and_eq_false_iff] at hp
    simp only [Zipcpu.aluPhase, next_cpu, Zipcpu.next_rAluPhase,
      Zipcpu.nextAluPhase_of_not_issue hi]
    rcases hp with hp | hp <;> simp [hp]
  refine ⟨hphase, ?_⟩
  rw [retires_of_not_issue hi, hp]
  cases hv : Zipcpu.aluValid s.cpu && !Zipcpu.wrDiscard c s.cpu
  · exact Or.inl rfl
  · right
    have hav : Zipcpu.aluValid s.cpu = true := (Bool.and_eq_true_iff.mp hv).1
    have hb : Zipcpu.aluBusy s.cpu = false := by
      cases hb : Zipcpu.aluBusy s.cpu
      · rfl
      · have hav' : Zipcpu.aluValid s.cpu = false := hq.sane.alu.valid hb
        rw [hav'] at hav
        cases hav
    exact ⟨rfl, aluActive_of_rest hq.sane hb
      (by simp [Zipcpu.aluCe, Zipcpu.adf_of_not_issue hi])⟩

end

/-! ## From the released clock to the next halt -/

/-- The CPU is released on clock 0, held from the next one on until clock `n`, and otherwise left
    alone.  The caches may be cleared on clock 0. -/
structure Released (x : ℕ → SysIn) (n : ℕ) : Prop where
  released : (x 0).iHalt = false
  held : ∀ m, 0 < m → m < n → (x m).iHalt = true ∧ (x m).iClearPfCache = false
  alone : ∀ m, m < n → (x m).iReset = false ∧ (x m).iDbgWe = false

/-- An instruction stands in the operand stage, and nothing keeps it there. -/
structure Loaded (s : Zipcpu AW) : Prop where
  opValid : s.opValid = true
  newPc : s.newPc = false
  opBreak : s.rOpBreak = false
  sleep : s.sleep = false
  ccWrite : s.lastWriteToCc = false
  illErrI : s.illErrI = false
  ibusErr : s.ibusErrFlag = false
  pending : s.rPendingInterrupt = false

/-- An instruction is ready on the clock the CPU is released, and it is not taken back: not because
    it is illegal, not by a debug write or a cleared cache just before, and, as a product takes its
    time, not by a cache cleared or (in user mode) by an interrupt or the user's `step` while the
    multiplier works. -/
structure StepReady (c : CpuCfg AW) (s : Sys F (memops AW c.memops)) (x : ℕ → SysIn) : Prop
    extends Loaded s.cpu where
  legal : s.cpu.opIllegal = false
  flush : s.cpu.opValidMem = false → s.cpu.dbgClearPipe = false ∧ s.cpu.rClearIcache = false
  clear : s.cpu.opValidMem = false → Cpuops.isMultiplyOp (Zipcpu.opOpn c s.cpu) = true →
    (x 0).iClearPfCache = false
  interrupt : s.cpu.opValidMem = false → Cpuops.isMultiplyOp (Zipcpu.opOpn c s.cpu) = true →
    Zipcpu.gie s.cpu = true → Zipcpu.opPhase c s.cpu = false → s.cpu.step = false ∧
      ∀ m, (∀ j, 0 < j → j ≤ m + 1 → Zipcpu.aluBusy (Clocked.run (next c) s x j).cpu = true) →
        (x m).iInterrupt = false

section

variable {x : ℕ → SysIn} {n : ℕ}

/-- The CPU on the clock it is released: quiet, with no debug write on its way. -/
structure AtRelease (c : CpuCfg AW) (s : Sys F (memops AW c.memops)) : Prop where
  quiet : Quiet c s
  seq : Seq c s
  kinds : Zipcpu.Kinds c s.cpu
  dbgv : s.cpu.dbgv = false

variable (hc : c.Plain) (hs : AtRelease c s) (hx : Released x n)

theorem AtRelease.still (hc : c.Plain) (hs : AtRelease c s) (hr : (x 0).iReset = false) :
    Zipcpu.Still c s.cpu (s.cpuIn c (x 0)) where
  pipe := hc.pipe
  sane := hs.quiet.sane
  rest := hs.quiet.rest
  memBusy := hs.quiet.memBusy
  memValid := hs.quiet.memValid
  busErr := hs.quiet.busErr
  reset := hr

include hc hs in
theorem seq_at (m : ℕ) : Seq c (Clocked.run (next c) s x m) := by
  induction m with
  | zero => exact hs.seq
  | succ m ih => exact seq_next hc.toSequential ih

include hs in
omit hc in
theorem AtRelease.loaded (hi : Zipcpu.issue c s.cpu (s.cpuIn c (x 0)) = true)
    (hn : Zipcpu.clearPipeline s.cpu = false) : Loaded s.cpu := by
  have hready := Zipcpu.ready_of_issue hi
  obtain ⟨-, hhold, -, hsleep⟩ := Zipcpu.masterCe_iff.mp hready.masterCe
  have hcc : s.cpu.lastWriteToCc = false := by
    simp only [Zipcpu.ccWriteHold, Bool.or_eq_false_iff] at hhold
    exact hhold.2
  have hpend : s.cpu.rPendingInterrupt = false := by
    cases hp : s.cpu.rPendingInterrupt
    · rfl
    · have := hready.pending hp
      rw [hs.quiet.rest.aluPhase] at this
      cases this
  exact ⟨hready.opValid, hn, hready.opBreak, hsleep, hcc, hready.illErrI, hready.ibusErrFlag, hpend⟩

include hc hs hx in
theorem AtRelease.issue (hl : Loaded s.cpu) (hill : s.cpu.opIllegal = false) (hn : 0 < n) :
    Zipcpu.issue c s.cpu (s.cpuIn c (x 0)) = true := by
  have hst := hs.still hc (x := x) (hx.alone 0 hn).1
  have hw : Zipcpu.wrRegCe c s.cpu (s.cpuIn c (x 0)) = false := hst.wrRegCe_eq.trans hs.dbgv
  have hrel : (s.cpuIn c (x 0)).iHalt = false := hx.released
  have hbe : (s.cpuIn c (x 0)).busErr = false := hs.quiet.busErr
  have hde : Zipcpu.divError c s.cpu = false := by simp [Zipcpu.divError, hc.divide]
  have hbrk : Zipcpu.oBreak c s.cpu (s.cpuIn c (x 0)) = false := by
    simp [Zipcpu.oBreak, Zipcpu.breakPending, hc.pipe, Zipcpu.opBreak, hl.opBreak, hl.illErrI, hde,
      Zipcpu.fpuError, Zipcpu.aluIllegal, hill, hs.quiet.busErr]
  have hce : Zipcpu.masterCe c s.cpu (s.cpuIn c (x 0)) = true := by
    simp [Zipcpu.masterCe, hx.released, Zipcpu.ccWriteHold, hw, hl.ccWrite, hbrk, hl.sleep]
  have hdb : Zipcpu.divBusy c s.cpu = false := by simp [Zipcpu.divBusy, hc.divide]
  have hms : Zipcpu.masterStall c s.cpu (s.cpuIn c (x 0)) = false := by
    simp [Zipcpu.masterStall, hce, hl.opValid, hl.illErrI, hl.ibusErr, Zipcpu.idivErrFlag, hc.divide,
      Zipcpu.pendingInterrupt, hl.pending, hs.quiet.rest.aluBusy, hdb, Zipcpu.fpuBusy,
      Zipcpu.opBreak, hl.opBreak, hc.pipe]
  exact Zipcpu.adf_or_mem hc.toSequential hl.opValid hms hl.newPc

/-! ### Nothing retires -/

include hc in
omit hs hx in
/-- What is spent stays so as long as the CPU is held. -/
theorem spent_run {a : ℕ} (hq : ∀ m, Seq c (Clocked.run (next c) s x m))
    (hheld : ∀ m, a ≤ m → m < n → (x m).iHalt = true ∧ (x m).iReset = false)
    (hsp : Spent c (Clocked.run (next c) s x a)) :
    ∀ m, a ≤ m → m ≤ n → Spent c (Clocked.run (next c) s x m) ∧
      Clocked.events (next c) (retires c) s x m = Clocked.events (next c) (retires c) s x a := by
  intro m hm
  induction m, hm using Nat.le_induction with
  | base => exact fun _ => ⟨hsp, rfl⟩
  | succ m hm ih =>
    intro hmn
    obtain ⟨hspm, hl⟩ := ih (by omega)
    obtain ⟨hst, hr⟩ := hheld m hm (by omega)
    have hi := Zipcpu.issue_of_held (x := (Clocked.run (next c) s x m).cpuIn c (x m)) hspm.1
      (Or.inl hst)
    obtain ⟨hnext, hret⟩ := hspm.next hc.toSequential (hq m).sane hi hr hst
    refine ⟨hnext, ?_⟩
    show Clocked.events (next c) (retires c) s x m ++ retires c (Clocked.run (next c) s x m) (x m) = _
    rw [hret, List.append_nil, hl]

include hx in
omit hc hs in
theorem Released.held_from {a : ℕ} (ha : 0 < a) (m : ℕ) (hm : a ≤ m) (hmn : m < n) :
    (x m).iHalt = true ∧ (x m).iReset = false :=
  ⟨(hx.held m (by omega) hmn).1, (hx.alone m hmn).1⟩

include hc hs hx in
/-- An instruction that the ALU works on is gone when the pipeline is cleared. -/
theorem none_of_takenBack {j : ℕ} (h0 : retires c s (x 0) = [])
    (hbusy : ∀ k, 0 < k → k ≤ j → Zipcpu.aluBusy (Clocked.run (next c) s x k).cpu = true)
    (hclr : Zipcpu.clearPipeline (Clocked.run (next c) s x (j + 1)).cpu = true) :
    ∀ m, m ≤ n → Clocked.events (next c) (retires c) s x m = [] := by
  have hbefore : ∀ m, m ≤ j + 1 → Clocked.events (next c) (retires c) s x m = [] := by
    intro m
    induction m with
    | zero => exact fun _ => rfl
    | succ m ih =>
      intro hm
      show Clocked.events (next c) (retires c) s x m ++ _ = []
      rw [ih (by omega), List.nil_append]
      rcases Nat.eq_zero_or_pos m with rfl | hpos
      · exact h0
      · exact retires_of_busy (seq_at hc hs m).sane (hbusy m hpos (by omega))
  intro m hmn
  rcases Nat.lt_or_ge (j + 1) m with hm | hm
  · have hev : Clocked.events (next c) (retires c) s x (j + 1 + 1) = [] := by
      show Clocked.events (next c) (retires c) s x (j + 1) ++ _ = []
      rw [hbefore (j + 1) (le_refl _), retires_of_clear hclr, List.append_nil]
    have hsp : Spent c (Clocked.run (next c) s x (j + 1 + 1)) := spent_of_clear hclr
    rw [(spent_run hc (seq_at hc hs) (hx.held_from (by omega)) hsp m hm hmn).2, hev]
  · exact hbefore m hm

include hc hs in
/-- Without an issue on the clock the CPU is released, nothing retires. -/
theorem none_of_not_issue (hx : Released x n)
    (hi : Zipcpu.Idle c s.cpu (s.cpuIn c (x 0))) :
    ∀ m, m ≤ n → Clocked.events (next c) (retires c) s x m = [] := by
  have hq := quiet_next hc.pipe hs.quiet hi
  have hret : retires c s (x 0) = [] := by
    have hav : Zipcpu.aluValid s.cpu = false := hs.quiet.rest.aluValid
    simp [retires, Zipcpu.memCe_of_idle hi, hav]
  have hsp : Spent c (Clocked.run (next c) s x 1) :=
    ⟨hq.rest.aluPhase, Or.inl (Bool.or_eq_false_iff.mpr ⟨hq.rest.aluBusy, hq.rest.aluValid⟩)⟩
  have hev : Clocked.events (next c) (retires c) s x 1 = [] := by
    show [] ++ retires c s (x 0) = []
    rw [hret]
    rfl
  intro m hmn
  rcases Nat.eq_zero_or_pos m with rfl | hpos
  · rfl
  · rw [(spent_run hc (seq_at hc hs) (hx.held_from (by omega)) hsp m hpos hmn).2, hev]

/-! ### The clock of the issue -/

/-- The instruction that is ready is issued on the clock the CPU is released. -/
structure Issued (c : CpuCfg AW) (s : Sys F (memops AW c.memops)) (x : ℕ → SysIn) : Prop where
  loaded : Loaded s.cpu
  issue : Zipcpu.issue c s.cpu (s.cpuIn c (x 0)) = true
  reset : (x 0).iReset = false
  we : (x 0).iDbgWe = false

variable (hi : Issued c s x)

include hc hs hi

omit hc hs in
theorem Issued.phase_next : Zipcpu.aluPhase c (s.next c (x 0)).cpu = Zipcpu.opPhase c s.cpu := by
  have hn : Zipcpu.clearPipeline s.cpu = false := hi.loaded.newPc
  simp only [Zipcpu.aluPhase, next_cpu, Zipcpu.next_rAluPhase, Zipcpu.nextAluPhase, hi.issue,
    hi.loaded.opValid, hn, cpuIn_iReset, hi.reset]
  cases hcis : c.optCis <;> simp [Zipcpu.opPhase, hcis]

theorem Issued.illegal_next : (s.next c (x 0)).cpu.opIllegal = s.cpu.opIllegal := by
  have hn : Zipcpu.clearPipeline s.cpu = false := hi.loaded.newPc
  have hd := (hs.seq.empty_of_issue hc.toSequential hi.issue).1
  simp [Zipcpu.nextOpIllegal, hi.reset, hn, hc.pipe, hd]

/-- An illegal instruction retires nothing. -/
theorem Issued.none_of_illegal (hx : Released x n) (hill : s.cpu.opIllegal = true) :
    ∀ m, m ≤ n → Clocked.events (next c) (retires c) s x m = [] := by
  obtain ⟨hvm, hop⟩ := hs.kinds.illegal hill
  have hret : retires c s (x 0) = [] := by
    have hav : Zipcpu.aluValid s.cpu = false := hs.quiet.rest.aluValid
    simp [retires, Zipcpu.memCe, hvm, hav]
  have hsp : Spent c (Clocked.run (next c) s x 1) := by
    refine ⟨?_, Or.inr ⟨?_, (hs.seq.empty_of_issue hc.toSequential hi.issue).2.1⟩⟩
    · exact (hi.phase_next).trans hop
    · exact (hi.illegal_next hc hs).trans hill
  have hev : Clocked.events (next c) (retires c) s x 1 = [] := by
    show [] ++ retires c s (x 0) = []
    rw [hret]
    rfl
  intro m hmn
  rcases Nat.eq_zero_or_pos m with rfl | hpos
  · rfl
  · rw [(spent_run hc (seq_at hc hs) (hx.held_from (by omega)) hsp m hpos hmn).2, hev]

/-- An instruction for the memory retires at once. -/
theorem Issued.mem_next (hvm : s.cpu.opValidMem = true) :
    retires c s (x 0) = [Zipcpu.opPhase c s.cpu] ∧
      Zipcpu.aluActive (s.next c (x 0)).cpu = false := by
  have hadf : Zipcpu.adfCeUnconditional c s.cpu (s.cpuIn c (x 0)) = false := by
    simp [Zipcpu.adfCeUnconditional, hc.pipe, hvm]
  have hmem : Zipcpu.memCe c s.cpu (s.cpuIn c (x 0)) = true := by
    have := hi.issue
    simpa [Zipcpu.issue, hadf] using this
  have hav : Zipcpu.aluValid s.cpu = false := hs.quiet.rest.aluValid
  exact ⟨by simp [retires, hmem, hav],
    aluActive_of_rest hs.quiet.sane hs.quiet.rest.aluBusy (by simp [Zipcpu.aluCe, hadf])⟩

omit hc hi in
theorem AtRelease.retires_alu (hvm : s.cpu.opValidMem = false) : retires c s (x 0) = [] := by
  have hav : Zipcpu.aluValid s.cpu = false := hs.quiet.rest.aluValid
  simp [retires, Zipcpu.memCe, hvm, hav]

theorem Issued.newPc_next : Zipcpu.clearPipeline (s.next c (x 0)).cpu =
    (s.cpu.rClearIcache || s.cpu.dbgClearPipe) := by
  have hst := hs.still hc (x := x) hi.reset
  have hw : Zipcpu.wrRegCe c s.cpu (s.cpuIn c (x 0)) = false := hst.wrRegCe_eq.trans hs.dbgv
  have hcc : Zipcpu.NoCc c s.cpu (s.cpuIn c (x 0)) := by simp [Zipcpu.NoCc, hw]
  have hpend : Zipcpu.pendingInterrupt s.cpu = false := hi.loaded.pending
  have hsw := hst.switch hcc
  rw [hpend, Bool.and_false] at hsw
  simp [Zipcpu.clearPipeline, Zipcpu.nextNewPc, hi.reset, hsw, hcc.release, hw,
    Zipcpu.wClearIcache]

omit hc in
theorem Issued.aluCe (hvm : s.cpu.opValidMem = false) :
    Zipcpu.adfCeUnconditional c s.cpu (s.cpuIn c (x 0)) = true ∧
      Zipcpu.aluCe c s.cpu (s.cpuIn c (x 0)) = true := by
  have hadf : Zipcpu.adfCeUnconditional c s.cpu (s.cpuIn c (x 0)) = true := by
    have := hi.issue
    simpa [Zipcpu.issue, Zipcpu.memCe, hvm] using this
  have halu : s.cpu.opValidAlu = true := by
    have hbrk : Zipcpu.opBreak s.cpu = false := hi.loaded.opBreak
    have := hs.kinds.op hi.loaded.opValid
    simpa [hvm, hbrk] using this
  exact ⟨hadf, by simp [Zipcpu.aluCe, hadf, halu]⟩

/-- Any other is executed by the ALU. -/
theorem Issued.first (hvm : s.cpu.opValidMem = false) (hill : s.cpu.opIllegal = false)
    (hf : s.cpu.dbgClearPipe = false ∧ s.cpu.rClearIcache = false) :
    First c (Zipcpu.opPhase c s.cpu) (Zipcpu.gie s.cpu) (s.next c (x 0)) := by
  have hn : Zipcpu.clearPipeline s.cpu = false := hi.loaded.newPc
  have hst := hs.still hc (x := x) hi.reset
  have hw : Zipcpu.wrRegCe c s.cpu (s.cpuIn c (x 0)) = false := hst.wrRegCe_eq.trans hs.dbgv
  have hcc : Zipcpu.NoCc c s.cpu (s.cpuIn c (x 0)) := by simp [Zipcpu.NoCc, hw]
  have hpend : Zipcpu.pendingInterrupt s.cpu = false := hi.loaded.pending
  have hmem : Zipcpu.memCe c s.cpu (s.cpuIn c (x 0)) = false := by simp [Zipcpu.memCe, hvm]
  have hd := (hs.seq.empty_of_issue hc.toSequential hi.issue).1
  have hl : c.memops.implementLock = false := by simp [CpuCfg.memops, CpuCfg.optLock, hc.pipe]
  refine ⟨?_, hi.phase_next, ?_, ?_, ?_, ?_, ?_, ?_⟩
  · exact Zipcpu.aluActive_of_aluCe (hi.aluCe hs hvm).2 hi.reset hn
  · show Zipcpu.gie (Zipcpu.next c s.cpu (s.cpuIn c (x 0))) = _
    rw [hst.gie_next hcc, hpend]
    simp
  · rw [hi.newPc_next hc hs, hf.1, hf.2]
    rfl
  · exact (hi.illegal_next hc hs).trans hill
  · simp [Zipcpu.nextOpBreak, hn, hc.pipe, hd, hi.loaded.opBreak]
  · simp [hi.we]
  · have hstb : (s.memIn c (x 0)).iStb = false := by
      simp [memIn, Zipcpu.memIn, Zipcpu.memStb, hmem]
    exact Memops.rest_next hl hs.quiet.memBusy hstb

omit hs in
theorem Issued.dbgClearPipe_next :
    (s.next c (x 0)).cpu.dbgClearPipe = (x 0).iClearPfCache := by
  have hn : Zipcpu.clearPipeline s.cpu = false := hi.loaded.newPc
  simp [Zipcpu.nextDbgClearPipe, Zipcpu.dbgWrite, hi.reset, hn, hi.we, hc.pipe]

theorem Issued.pending_next (hvm : s.cpu.opValidMem = false) (hill : s.cpu.opIllegal = false) :
    Zipcpu.pendingInterrupt (s.next c (x 0)).cpu =
      (Zipcpu.gie s.cpu && ((x 0).iInterrupt || s.cpu.step)) := by
  have hn : Zipcpu.clearPipeline s.cpu = false := hi.loaded.newPc
  have hst := hs.still hc (x := x) hi.reset
  have hw : Zipcpu.wrRegCe c s.cpu (s.cpuIn c (x 0)) = false := hst.wrRegCe_eq.trans hs.dbgv
  have hcc : Zipcpu.NoCc c s.cpu (s.cpuIn c (x 0)) := by simp [Zipcpu.NoCc, hw]
  have hpend : Zipcpu.pendingInterrupt s.cpu = false := hi.loaded.pending
  have hpend' : s.cpu.rPendingInterrupt = false := hi.loaded.pending
  have hsw := hst.switch hcc
  rw [hpend, Bool.and_false] at hsw
  have hadf := (hi.aluCe hs hvm).1
  simp only [Zipcpu.pendingInterrupt, next_cpu, Zipcpu.next_rPendingInterrupt,
    Zipcpu.nextPendingInterrupt, cpuIn_iReset, hi.reset, hn, hsw, cpuIn_iInterrupt, hadf, hill,
    Zipcpu.breakPending, hc.pipe, Zipcpu.opBreak, hi.loaded.opBreak, hpend']
  cases Zipcpu.gie s.cpu <;> cases (x 0).iInterrupt <;> cases s.cpu.step <;> rfl

/-! ### Products that are taken back -/

omit hc in
/-- A multiplication keeps the ALU busy. -/
theorem Issued.busy_next (hm : 1 < c.implementMpy) (hvm : s.cpu.opValidMem = false)
    (hmul : Cpuops.isMultiplyOp (Zipcpu.opOpn c s.cpu) = true) :
    Zipcpu.aluBusy (s.next c (x 0)).cpu = true := by
  have hn : Zipcpu.clearPipeline s.cpu = false := hi.loaded.newPc
  have hce := (hi.aluCe hs hvm).2
  simp [Zipcpu.aluBusy, Cpuops.nextBusy, Zipcpu.aluReset, hi.reset, hn, hm, hce,
    Cpuops.thisIsAMultiplyOp, hmul]

omit hi in
/-- The multiplier works on until it is done or the pipeline is cleared. -/
theorem first_until {h g : Bool} (hx : Released x n)
    (h1 : First c h g (Clocked.run (next c) s x 1)) {j : ℕ} (hjn : j ≤ n)
    (hbusy : ∀ k, 0 < k → k < j → Zipcpu.aluBusy (Clocked.run (next c) s x k).cpu = true) :
    (∀ k, 0 < k → k ≤ j → First c h g (Clocked.run (next c) s x k)) ∨ ∃ k, 0 < k ∧ k < j ∧
      Zipcpu.clearPipeline (Clocked.run (next c) s x (k + 1)).cpu = true := by
  induction j with
  | zero => exact Or.inl fun k hk hk0 => absurd hk0 (by omega)
  | succ j ih =>
    rcases ih (by omega) (fun k hk hkj => hbusy k hk (by omega)) with hf | ⟨k, hk, hkj, hclr⟩
    · rcases Nat.eq_zero_or_pos j with rfl | hj
      · left
        intro k hk hk1
        obtain rfl : k = 1 := by omega
        exact h1
      · cases hn : Zipcpu.clearPipeline (Clocked.run (next c) s x (j + 1)).cpu
        · obtain ⟨hr, hw⟩ := hx.alone j (by omega)
          have hnext := (hf j hj (le_refl j)).next hc (seq_at hc hs j) (hbusy j hj (by omega)) hr hw hn
          left
          intro k hk hkj
          rcases Nat.lt_or_ge j k with hlt | hge
          · obtain rfl : k = j + 1 := by omega
            exact hnext
          · exact hf k hk hge
        · exact Or.inr ⟨j, hj, by omega, hn⟩
    · exact Or.inr ⟨k, hk, by omega, hclr⟩

/-- A user's product is lost to an interrupt that comes while the multiplier works. -/
theorem Issued.none_of_interrupt (hx : Released x n) (hvm : s.cpu.opValidMem = false)
    (hill : s.cpu.opIllegal = false)
    (hf : s.cpu.dbgClearPipe = false ∧ s.cpu.rClearIcache = false)
    (hg : Zipcpu.gie s.cpu = true) (hp : Zipcpu.opPhase c s.cpu = false) {j : ℕ} (hjn : j + 1 < n)
    (hbusy : ∀ k, 0 < k → k ≤ j + 1 → Zipcpu.aluBusy (Clocked.run (next c) s x k).cpu = true)
    (hint : (x j).iInterrupt = true ∨ (j = 0 ∧ s.cpu.step = true)) :
    ∀ m, m ≤ n → Clocked.events (next c) (retires c) s x m = [] := by
  have h0 : retires c s (x 0) = [] := hs.retires_alu hvm
  have h1 : First c (Zipcpu.opPhase c s.cpu) (Zipcpu.gie s.cpu) (Clocked.run (next c) s x 1) :=
    hi.first hc hs hvm hill hf
  rcases first_until hc hs hx h1 (j := j + 1) (by omega)
    (fun k hk hkj => hbusy k hk (by omega)) with hfirst | ⟨k, hk, hkj, hclr⟩
  · have hfj := hfirst (j + 1) (by omega) (le_refl _)
    have hbj := hbusy (j + 1) (by omega) (le_refl _)
    -- the interrupt is pending on clock `j + 1`, and taken
    have hpend : Zipcpu.pendingInterrupt (Clocked.run (next c) s x (j + 1)).cpu = true := by
      rcases Nat.eq_zero_or_pos j with rfl | hpos
      · have h := hi.pending_next hc hs hvm hill
        rw [hg, Bool.true_and] at h
        refine h.trans ?_
        rcases hint with hint | ⟨-, hint⟩ <;> simp [hint]
      · have hint' : (x j).iInterrupt = true := by
          rcases hint with hint | ⟨rfl, -⟩
          · exact hint
          · omega
        exact (hfirst j hpos (by omega)).pending_next hc (seq_at hc hs j) (hbusy j hpos (by omega))
          (hx.alone j (by omega)).1 hfj.clear hg hint'
    have hclr := hfj.newPc_next hc (seq_at hc hs (j + 1)) hbj (hx.alone (j + 1) hjn).1
    rw [hpend, hg, hp] at hclr
    exact none_of_takenBack hc hs hx h0 hbusy (hclr.trans (by simp))
  · exact none_of_takenBack hc hs hx h0 (fun i hi hik => hbusy i hi (by omega)) hclr

/-- So is a product when the caches are cleared on the clock it is started. -/
theorem Issued.none_of_clear (hx : Released x n) (hm : 1 < c.implementMpy) (hn : 1 < n)
    (hvm : s.cpu.opValidMem = false) (hill : s.cpu.opIllegal = false)
    (hf : s.cpu.dbgClearPipe = false ∧ s.cpu.rClearIcache = false)
    (hmul : Cpuops.isMultiplyOp (Zipcpu.opOpn c s.cpu) = true) (hcl : (x 0).iClearPfCache = true) :
    ∀ m, m ≤ n → Clocked.events (next c) (retires c) s x m = [] := by
  have h0 : retires c s (x 0) = [] := hs.retires_alu hvm
  have h1 : First c (Zipcpu.opPhase c s.cpu) (Zipcpu.gie s.cpu) (Clocked.run (next c) s x 1) :=
    hi.first hc hs hvm hill hf
  have hb1 : Zipcpu.aluBusy (Clocked.run (next c) s x 1).cpu = true := hi.busy_next hs hm hvm hmul
  have hdcp : (Clocked.run (next c) s x 1).cpu.dbgClearPipe = true :=
    (hi.dbgClearPipe_next hc).trans hcl
  have hclr := h1.newPc_next hc (seq_at hc hs 1) hb1 (hx.alone 1 hn).1
  rw [hdcp, Bool.or_true, Bool.true_or] at hclr
  refine none_of_takenBack (j := 1) hc hs hx h0 (fun k hk hk1 => ?_) hclr
  obtain rfl : k = 1 := by omega
  exact hb1

omit hi in
/-- **What is not ready does not retire.** -/
theorem none_of_not_ready (hx : Released x n) (hm : 1 < c.implementMpy) (hn : 1 < n)
    (hrest : Zipcpu.aluBusy (Clocked.run (next c) s x n).cpu = false) (hno : ¬ StepReady c s x) :
    Clocked.events (next c) (retires c) s x n = [] := by
  have hidle : Zipcpu.Idle c s.cpu (s.cpuIn c (x 0)) → _ := fun hidle =>
    none_of_not_issue hc hs hx hidle n (le_refl n)
  cases hissue : Zipcpu.issue c s.cpu (s.cpuIn c (x 0))
  · exact hidle (Or.inl hissue)
  cases hnew : Zipcpu.clearPipeline s.cpu
  swap
  · exact hidle (Or.inr hnew)
  obtain ⟨hr, hw⟩ := hx.alone 0 (by omega)
  have hi : Issued c s x := ⟨hs.loaded hissue hnew, hissue, hr, hw⟩
  cases hill : s.cpu.opIllegal
  swap
  · exact hi.none_of_illegal hc hs hx hill n (le_refl n)
  cases hvm : s.cpu.opValidMem
  swap
  · -- an instruction for the memory is ready
    refine absurd ⟨hi.loaded, hill, ?_, ?_, ?_⟩ hno <;> · intro h; rw [hvm] at h; cases h
  by_cases hf : s.cpu.dbgClearPipe = false ∧ s.cpu.rClearIcache = false
  swap
  · have hclr : Zipcpu.clearPipeline (Clocked.run (next c) s x (0 + 1)).cpu = true := by
      refine (hi.newPc_next hc hs).trans ?_
      cases hd : s.cpu.dbgClearPipe <;> cases hcl : s.cpu.rClearIcache <;> simp_all
    exact none_of_takenBack hc hs hx (hs.retires_alu hvm) (fun k hk hk0 => absurd hk0 (by omega))
      hclr n (le_refl n)
  by_cases hmul : Cpuops.isMultiplyOp (Zipcpu.opOpn c s.cpu) = true
  swap
  · exact absurd ⟨hi.loaded, hill, fun _ => hf, fun _ h => absurd h hmul,
      fun _ h => absurd h hmul⟩ hno
  cases hcl : (x 0).iClearPfCache
  swap
  · exact hi.none_of_clear hc hs hx hm hn hvm hill hf hmul hcl n (le_refl n)
  -- what is left is a user's product that is interrupted
  by_cases hint : Zipcpu.gie s.cpu = true → Zipcpu.opPhase c s.cpu = false →
    s.cpu.step = false ∧ ∀ m,
      (∀ j, 0 < j → j ≤ m + 1 → Zipcpu.aluBusy (Clocked.run (next c) s x j).cpu = true) →
        (x m).iInterrupt = false
  · exact absurd ⟨hi.loaded, hill, fun _ => hf, fun _ _ => hcl, fun _ _ => hint⟩ hno
  push Not at hint
  obtain ⟨hg, hp, hint⟩ := hint
  have hb1 : Zipcpu.aluBusy (Clocked.run (next c) s x 1).cpu = true := hi.busy_next hs hm hvm hmul
  cases hstep : s.cpu.step
  · obtain ⟨m, hbusy, him⟩ := hint hstep
    have hmn : m + 1 < n := by
      by_contra hge
      have hb := hbusy n (by omega) (by omega)
      rw [hrest] at hb
      cases hb
    exact hi.none_of_interrupt hc hs hx hvm hill hf hg hp hmn hbusy (Or.inl (by simpa using him)) n
      (le_refl n)
  · refine hi.none_of_interrupt (j := 0) hc hs hx hvm hill hf hg hp hn (fun k hk hk1 => ?_)
      (Or.inr ⟨rfl, hstep⟩) n (le_refl n)
    obtain rfl : k = 1 := by omega
    exact hb1

/-! ### What is ready retires -/

/-- Where the instruction that was ready is on clock `m`: the ALU works on it, or it has retired; and
    if it was a first half, the second is owed, or it is the last that can come. -/
inductive Stepped (c : CpuCfg AW) (s : Sys F (memops AW c.memops)) (x : ℕ → SysIn) (h g : Bool)
    (m : ℕ) : Prop
  | first (nil : Clocked.events (next c) (retires c) s x m = [])
      (first : First c h g (Clocked.run (next c) s x m))
      (busy : ∀ k, 0 < k → k < m → Zipcpu.aluBusy (Clocked.run (next c) s x k).cpu = true)
      (alu : s.cpu.opValidMem = false)
      (product : Zipcpu.aluBusy (Clocked.run (next c) s x m).cpu = true →
        Cpuops.isMultiplyOp (Zipcpu.opOpn c s.cpu) = true)
      (safe : Zipcpu.aluBusy (Clocked.run (next c) s x m).cpu = true →
        Safe h g (Clocked.run (next c) s x m))
  | owed (one : Clocked.events (next c) (retires c) s x m = [true])
      (owed : Owed c (Clocked.run (next c) s x m))
  | last (one : Clocked.events (next c) (retires c) s x m = [true])
      (phase : Zipcpu.aluPhase c (Clocked.run (next c) s x m).cpu = false)
  | done (one : OneRetired (Clocked.events (next c) (retires c) s x m))
      (spent : Spent c (Clocked.run (next c) s x m))

omit hc hs hi in
/-- Once the first has retired, the second half is owed if it was a half. -/
theorem stepped_of_retired {h g : Bool} {m : ℕ}
    (hev : Clocked.events (next c) (retires c) s x m = [h])
    (ha : Zipcpu.aluActive (Clocked.run (next c) s x m).cpu = false)
    (hp : Zipcpu.aluPhase c (Clocked.run (next c) s x m).cpu = h) : Stepped c s x h g m := by
  cases h
  · exact Stepped.done (Or.inl (by rw [hev]; rfl)) ⟨hp, Or.inl ha⟩
  · exact Stepped.owed hev ⟨hp, ha⟩

/-- On the clock after the issue. -/
theorem Issued.stepped (hr : StepReady c s x) :
    Stepped c s x (Zipcpu.opPhase c s.cpu) (Zipcpu.gie s.cpu) 1 := by
  cases hvm : s.cpu.opValidMem
  · -- for the ALU
    obtain ⟨hdcp, hclr⟩ := hr.flush hvm
    have h0 : retires c s (x 0) = [] := hs.retires_alu hvm
    have hproduct := Zipcpu.mpy_of_aluBusy (x := s.cpuIn c (x 0)) hs.quiet.sane hs.quiet.rest.aluBusy
    refine Stepped.first ?_ (hi.first hc hs hvm hr.legal ⟨hdcp, hclr⟩) (fun k hk hk1 => ?_) hvm
      hproduct fun hb => ?_
    · show [] ++ retires c s (x 0) = []
      rw [h0]
      rfl
    · omega
    · have hmul := hproduct hb
      have hcl := hr.clear hvm hmul
      refine ⟨(hi.dbgClearPipe_next hc).trans hcl, ?_, fun hg hp => ?_⟩
      · have hst := hs.still hc (x := x) hi.reset
        have hw : Zipcpu.wrRegCe c s.cpu (s.cpuIn c (x 0)) = false := hst.wrRegCe_eq.trans hs.dbgv
        show Zipcpu.nextClearIcache c s.cpu (s.cpuIn c (x 0)) = false
        simp [Zipcpu.nextClearIcache, hw, hcl]
      · obtain ⟨hstep, hint⟩ := hr.interrupt hvm hmul hg hp
        have hi0 : (x 0).iInterrupt = false := by
          refine hint 0 fun j hj hj1 => ?_
          obtain rfl : j = 1 := by omega
          exact hb
        exact (hi.pending_next hc hs hvm hr.legal).trans (by simp [hi0, hstep])
  · -- for the memory
    obtain ⟨hret, ha⟩ := hi.mem_next hc hs hvm
    exact stepped_of_retired hret ha hi.phase_next

omit hi in
/-- One held clock. -/
theorem Stepped.next (hx : Released x n) (hr : StepReady c s x) {m : ℕ} (hm : 0 < m) (hmn : m < n)
    (h : Stepped c s x (Zipcpu.opPhase c s.cpu) (Zipcpu.gie s.cpu) m) :
    Stepped c s x (Zipcpu.opPhase c s.cpu) (Zipcpu.gie s.cpu) (m + 1) := by
  have hq := seq_at hc hs (x := x) m
  obtain ⟨hheld, hcl⟩ := hx.held m hm hmn
  obtain ⟨hrst, hwe⟩ := hx.alone m hmn
  have hev : Clocked.events (Sys.next c) (retires c) s x (m + 1) =
      Clocked.events (Sys.next c) (retires c) s x m ++
        retires c (Clocked.run (Sys.next c) s x m) (x m) := rfl
  cases h with
  | first nil first busy alu product safe =>
    cases hb : Zipcpu.aluBusy (Clocked.run (Sys.next c) s x m).cpu
    · -- the result retires
      obtain ⟨hret, ha, hp⟩ := first.retire hc hq hb hrst
      rw [nil, hret] at hev
      exact stepped_of_retired hev ha hp
    · -- the multiplier works on
      obtain ⟨hdcp, hclr, hpend⟩ := safe hb
      have hn := first.newPc_next hc hq hb hrst
      have hnot : (Zipcpu.gie s.cpu && !Zipcpu.opPhase c s.cpu &&
          Zipcpu.pendingInterrupt (Clocked.run (Sys.next c) s x m).cpu) = false := by
        cases hg : Zipcpu.gie s.cpu
        · rfl
        cases hp : Zipcpu.opPhase c s.cpu
        · rw [hpend hg hp]
          rfl
        · rfl
      rw [hclr, hdcp, hnot] at hn
      have hbusy' : ∀ k, 0 < k → k < m + 1 →
          Zipcpu.aluBusy (Clocked.run (Sys.next c) s x k).cpu = true := by
        intro k hk hkm
        rcases Nat.lt_or_ge k m with hlt | hge
        · exact busy k hk hlt
        · obtain rfl : k = m := by omega
          exact hb
      refine Stepped.first ?_ (first.next hc hq hb hrst hwe hn) hbusy' alu (fun _ => product hb)
        fun hb' => ?_
      · rw [hev, nil, retires_of_busy hq.sane hb]
        rfl
      · refine first.safe_next hc hq hb (safe hb) hwe hcl fun hg hp => ?_
        refine (hr.interrupt alu (product hb) hg hp).2 m fun j hj hjm => ?_
        rcases Nat.lt_or_ge j (m + 1) with hlt | hge
        · exact hbusy' j hj hlt
        · obtain rfl : j = m + 1 := by omega
          exact hb'
  | owed one owed =>
    rcases owed.next (i := x m) hq with ⟨ho, hret⟩ | ⟨hp, hret⟩ | ⟨hsp, hret⟩
    · exact Stepped.owed (by rw [hev, one, hret]; rfl) ho
    · exact Stepped.last (by rw [hev, one, hret]; rfl) hp
    · exact Stepped.done (Or.inr (by rw [hev, one, hret]; rfl)) hsp
  | last one phase =>
    obtain ⟨hp, hret⟩ := last_next hq phase hheld
    rcases hret with hret | ⟨hret, ha⟩
    · exact Stepped.last (by rw [hev, one, hret]; rfl) hp
    · exact Stepped.done (Or.inr (by rw [hev, one, hret]; rfl)) ⟨hp, Or.inl ha⟩
  | done one spent =>
    have hi := Zipcpu.issue_of_held
      (x := (Clocked.run (Sys.next c) s x m).cpuIn c (x m)) spent.1 (Or.inl hheld)
    obtain ⟨hsp, hret⟩ := spent.next hc.toSequential hq.sane hi hrst hheld
    exact Stepped.done (by rw [hev, hret, List.append_nil]; exact one) hsp

omit hi in
/-- **What is ready retires**, and nothing else than its other half. -/
theorem one_of_ready (hx : Released x n) (hn : 0 < n)
    (hrest : Zipcpu.aluActive (Clocked.run (next c) s x n).cpu = false) (hr : StepReady c s x) :
    OneRetired (Clocked.events (next c) (retires c) s x n) := by
  obtain ⟨hrst, hwe⟩ := hx.alone 0 hn
  have hi : Issued c s x := ⟨hr.toLoaded, hs.issue hc hx hr.toLoaded hr.legal hn, hrst, hwe⟩
  have hall : ∀ m, 0 < m → m ≤ n →
      Stepped c s x (Zipcpu.opPhase c s.cpu) (Zipcpu.gie s.cpu) m := by
    intro m hm
    induction m, hm using Nat.le_induction with
    | base => exact fun _ => hi.stepped hc hs hr
    | succ m hm ih => exact fun hmn => (ih (by omega)).next hc hs hx hr hm (by omega)
  cases hall n hn (le_refl n) with
  | first _ first =>
    have := first.active
    rw [hrest] at this
    cases this
  | owed one _ => exact Or.inl (by rw [one]; rfl)
  | last one _ => exact Or.inl (by rw [one]; rfl)
  | done one _ => exact one

omit hi in
/-- **One step** executes what is ready, and nothing if nothing is. -/
theorem one_retired_iff (hx : Released x n) (hm : 1 < c.implementMpy) (hn : 1 < n)
    (hrest : Zipcpu.UnitsRest c (Clocked.run (next c) s x n).cpu) :
    OneRetired (Clocked.events (next c) (retires c) s x n) ↔ StepReady c s x := by
  constructor
  · intro hone
    by_contra hno
    rw [none_of_not_ready hc hs hx hm hn hrest.aluBusy hno] at hone
    rcases hone with h | h <;> cases h
  · exact one_of_ready hc hs hx (by omega)
      (Bool.or_eq_false_iff.mpr ⟨hrest.aluBusy, hrest.aluValid⟩)

end

end Sys

end ZipStormMX.Cpu
