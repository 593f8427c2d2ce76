/-
  One instruction at a time: the stages of the CPU that is not pipelined.

  Without a pipeline, the decoder waits for the instruction before it to be through: at any time at
  most one of decode, operand stage and execution holds an instruction.  `Seq` says so, and where the
  second half of a compressed pair is while the first one is on its way.  Early branching, which
  lets the decoder jump by itself, is off, as it is in this repository.
-/
import ZipStormMX.Clocked
import ZipStormMX.Cpu.Halted
import ZipStormMX.Cpu.Decoded

namespace ZipStormMX.Cpu

variable {AW : ℕ}

/-- Neither a pipeline nor early branching. -/
structure CpuCfg.Sequential (c : CpuCfg AW) : Prop where
  pipe : c.optPipelined = false
  early : c.earlyBranching = false

/-- Neither divide unit nor FPU, nor instructions for the simulator: what is not for the ALU is for
    the memory. -/
structure CpuCfg.Plain (c : CpuCfg AW) : Prop extends c.Sequential where
  divide : c.implementDivide = false
  fpu : c.implementFpu = false
  sim : c.optSim = false

namespace Zipcpu

variable {c : CpuCfg AW} {s : Zipcpu AW} {x : CpuIn AW}

/-! ## The handshakes without a pipeline -/

section

variable (hc : c.Sequential)
include hc

theorem dcdEarlyBranch_eq : dcdEarlyBranch c s = false := by
  simp [dcdEarlyBranch, Idecode.oEarlyBranch, CpuCfg.decode, hc.early]

theorem dcdLjmp_eq : dcdLjmp c s = false := by
  simp [dcdLjmp, Idecode.oLjmp, CpuCfg.decode, hc.early]

theorem dcdEarlyBranchStb_eq : dcdEarlyBranchStb c s = false := by
  simp [dcdEarlyBranchStb, Idecode.oEarlyBranchStb, CpuCfg.decode, hc.early]

theorem opCe_eq : opCe c s x = dcdValid s := by
  simp [opCe, opStall, hc.pipe, dcdEarlyBranch_eq hc]

theorem dcdCe_eq : dcdCe c s x = !dcdStalled c s x := by
  simp [dcdCe, hc.pipe]

theorem dcdStalled_of_dcdValid (h : dcdValid s = true) : dcdStalled c s x = true := by
  simp [dcdStalled, hc.pipe, h]

theorem dcdStalled_of_opValid (h : s.opValid = true) : dcdStalled c s x = true := by
  simp [dcdStalled, hc.pipe, h]

theorem dcdStalled_of_busy (h : aluBusy s = true ∨ divBusy c s = true ∨ x.memBusy = true) :
    dcdStalled c s x = true := by
  rcases h with h | h | h <;> simp [dcdStalled, hc.pipe, h]

/-- The decoder takes in the next word, or the second half of the last one. -/
theorem dcdValid_next : dcdValid (next c s x) =
    (!(x.iReset || clearPipeline s || wClearIcache s) && !dcdStalled c s x
      && (x.pfValid || dcdPhase c s)) := by
  have hpipe : c.decode.optPipelined = false := hc.pipe
  have hst : s.dcd.oEarlyBranchStb c.decode = false := dcdEarlyBranchStb_eq hc
  have hlj : s.dcd.oLjmp c.decode = false := dcdLjmp_eq hc
  simp only [dcdValid, next_dcd, Idecode.next_rValid, Idecode.nextValid, hpipe, hlj, decodeIn,
    Idecode.pfValid, hst, dcdPhase, Bool.not_false, Bool.and_true, Bool.false_eq_true, if_false]
  cases x.iReset || clearPipeline s || wClearIcache s <;> cases dcdStalled c s x <;> rfl

/-- `o_phase` is raised by the first half of a pair and falls with the second. -/
theorem dcdPhase_next : dcdPhase c (next c s x) =
    (!(x.iReset || clearPipeline s || wClearIcache s) &&
      if dcdStalled c s x then dcdPhase c s
      else c.optCis && x.pfValid && !dcdPhase c s
        && (x.pfInstruction.getLsbD 31 && !x.pfIllegal)) := by
  have hst : s.dcd.oEarlyBranchStb c.decode = false := dcdEarlyBranchStb_eq hc
  have hlj : s.dcd.oLjmp c.decode = false := dcdLjmp_eq hc
  have hcis : c.decode.optCis = c.optCis := rfl
  simp only [dcdPhase, next_dcd, Idecode.oPhase, Idecode.next_rPhase, Idecode.nextPhase, hlj,
    decodeIn, Idecode.pfValid, hst, hcis, dcdCe_eq hc, Bool.not_false, Bool.and_true, Bool.or_false]
  cases x.iReset || clearPipeline s || wClearIcache s <;> cases dcdStalled c s x <;>
    cases x.pfValid <;> cases c.optCis <;> cases s.dcd.rPhase <;> simp

/-- What is in the decoder goes to the operand stage, and stays there until it is issued. -/
theorem opValid_next (h : dcdValid s = true → s.opValid = false) : (next c s x).opValid =
    (!(x.iReset || clearPipeline s) && (dcdValid s || (s.opValid && !issue c s x))) := by
  simp only [next_opValid, nextOpValid, nextOpFlag, opCe_eq hc, hc.pipe, wOpValid, dcdLjmp_eq hc,
    dcdEarlyBranch_eq hc]
  cases hcl : clearPipeline s
  · cases hd : dcdValid s
    · cases x.iReset <;> cases issue c s x <;> simp
    · cases x.iReset <;> simp [h hd]
  · simp

/-- `op_phase`: the instruction in the operand stage is the first half of a pair, and does not
    jump. -/
theorem opPhase_next : opPhase c (next c s x) =
    (!(x.iReset || clearPipeline s) &&
      if dcdValid s then dcdPhase c s && (!s.dcd.oWR || !s.dcd.oDcdRpc) else opPhase c s) := by
  simp only [opPhase, next_rOpPhase, nextOpPhase, opCe_eq hc]
  cases hr : x.iReset || clearPipeline s
  · cases hd : dcdValid s
    · simp
    · cases hph : dcdPhase c s
      · simp
      · have hcis : c.optCis = true := by
          cases hcis : c.optCis
          · simp [dcdPhase, Idecode.oPhase, CpuCfg.decode, hcis] at hph
          · rfl
        simp [hcis]
  · simp

theorem adf_or_mem (h : s.opValid = true) (hst : masterStall c s x = false)
    (hn : clearPipeline s = false) : issue c s x = true := by
  have hce := (ready_of_not_masterStall hst).masterCe
  cases hm : s.opValidMem
  · simp [issue, adfCeUnconditional, hc.pipe, hst, h, hm]
  · simp [issue, memCe, memStalled, CpuCfg.optMempipe, hc.pipe, hst, hm, hn, hce]

end

/-! ## The kinds of instructions -/

/-- What the decoder or the operand stage holds is for the ALU or for the memory, or flagged.  An
    illegal instruction is not for the memory, and it is no first half of a pair. -/
structure Kinds (c : CpuCfg AW) (s : Zipcpu AW) : Prop where
  dcd : dcdValid s = true → (s.dcd.oALU || s.dcd.oM || s.dcd.oIllegal || s.dcd.oBreak) = true
  op : s.opValid = true → (s.opValidAlu || s.opValidMem || opBreak s) = true
  half : dcdPhase c s = true → s.dcd.oIllegal = false
  illegal : s.opIllegal = true → s.opValidMem = false ∧ opPhase c s = false

theorem kinds_reset (hr : x.iReset = true) : Kinds c (next c s x) where
  dcd h := by simp [dcdValid, Idecode.nextValid, decodeIn, hr] at h
  op h := by simp [nextOpValid, nextOpFlag, hr] at h
  half _ := by simp [Idecode.nextIllegal, decodeIn, hr]
  illegal h := by simp [nextOpIllegal, hr] at h

/-- A pair is legal. -/
theorem half_next (hc : c.Sequential) (h : dcdPhase c s = true → s.dcd.oIllegal = false)
    (hp : dcdPhase c (next c s x) = true) : (next c s x).dcd.oIllegal = false := by
  rw [dcdPhase_next hc] at hp
  obtain ⟨hr, hp⟩ := Bool.and_eq_true_iff.mp hp
  have hrst : (decodeIn c s x).iReset = false := by simpa [decodeIn] using hr
  have hce : (decodeIn c s x).iCe = !dcdStalled c s x := dcdCe_eq hc
  simp only [next_dcd, Idecode.next_oIllegal, Idecode.nextIllegal, hrst, hce]
  cases hst : dcdStalled c s x
  · rw [hst] at hp
    simp only [Bool.false_eq_true, if_false, Bool.and_eq_true, Bool.not_eq_true'] at hp
    obtain ⟨⟨⟨hcis, hpf⟩, hph⟩, hbit, hill⟩ := hp
    have hcis' : c.decode.optCis = true := hcis
    have hph' : s.dcd.oPhase c.decode = false := hph
    have hpf' : (decodeIn c s x).iPfValid = true := hpf
    have hill' : (decodeIn c s x).iIllegal = false := hill
    have hhalf : Decode.cis (Idecode.iword c.decode s.dcd (decodeIn c s x)) = true := by
      rw [Decode.cis, Idecode.iword, hcis', hph', if_pos rfl, if_neg (by simp)]
      exact hbit
    simp [hph', hpf', hill', hcis', Decode.legal_of_half hcis' hhalf]
  · rw [hst] at hp
    simp [h hp]

/-- What is decoded has a kind. -/
theorem dcdKind_next (hc : c.Plain) (hd : dcdValid (next c s x) = true) :
    ((next c s x).dcd.oALU || (next c s x).dcd.oM || (next c s x).dcd.oIllegal
      || (next c s x).dcd.oBreak) = true := by
  rw [dcdValid_next hc.toSequential] at hd
  simp only [Bool.and_eq_true, Bool.not_eq_true', Bool.or_eq_true] at hd
  obtain ⟨⟨hr, hst⟩, hv⟩ := hd
  have hce : (decodeIn c s x).iCe = true := by simp [decodeIn, dcdCe_eq hc.toSequential, hst]
  have hrst : (decodeIn c s x).iReset = false := hr
  simp only [next_dcd, Idecode.next_oALU, Idecode.next_oM, Idecode.next_oIllegal,
    Idecode.next_oBreak, hce, if_true, Idecode.nextIllegal, hrst, Bool.true_and, Bool.false_eq_true,
    if_false]
  generalize hw : Idecode.iword c.decode s.dcd (decodeIn c s x) = w
  generalize (decodeIn c s x).iGie = gie
  cases hph : s.dcd.oPhase c.decode
  · -- a new word
    have hpf : (decodeIn c s x).iPfValid = true := by
      rcases hv with hv | hv
      · exact hv
      · have : dcdPhase c s = false := hph
        rw [this] at hv
        cases hv
    have hlock : c.decode.optLock = false := by simp [CpuCfg.decode, CpuCfg.optLock, hc.pipe]
    have hkind : (Decode.isALU c.decode w gie || Decode.wMem c.decode w
        || Decode.wIllegal c.decode w gie || Decode.wBreak c.decode w gie) = true :=
      Decode.kind hc.divide hc.fpu hc.sim hlock
    simp only [Bool.or_eq_true] at hkind
    rcases hkind with ((hk | hk) | hk) | hk <;> simp [hk, hpf]
  · -- the second half of a pair
    have hcis : c.decode.optCis = true := by
      simp only [Idecode.oPhase, Bool.and_eq_true] at hph
      exact hph.1
    have hhalf : Decode.cis w = true := by
      rw [← hw, Decode.cis, Idecode.iword, hcis, hph, if_pos rfl, if_pos rfl, BitVec.getLsbD_append,
        BitVec.getLsbD_append]
      rfl
    have hkind : (Decode.isALU c.decode w gie || Decode.wMem c.decode w) = true :=
      Decode.kind_of_half hcis hhalf
    rw [hkind]
    simp

theorem kinds_next (hc : c.Plain) (h : Kinds c s) (he : dcdValid s = true → s.opValid = false) :
    Kinds c (next c s x) where
  dcd := dcdKind_next hc
  op hv := by
    have hs := hc.toSequential
    rw [opValid_next hs he] at hv
    simp only [Bool.and_eq_true, Bool.not_eq_true', Bool.or_eq_true, Bool.or_eq_false_iff] at hv
    obtain ⟨⟨hr, hn⟩, hv⟩ := hv
    simp only [next_opValidAlu, nextOpValidAlu, next_opValidMem, nextOpValidMem, nextOpFlag, hr, hn,
      opBreak, next_rOpBreak, nextOpBreak, opCe_eq hs, hc.pipe, wOpValid, dcdLjmp_eq hs,
      dcdEarlyBranch_eq hs]
    cases hd : dcdValid s
    · rw [hd] at hv
      simp only [Bool.false_eq_true, false_or] at hv
      have hop := h.op hv.1
      simp only [opBreak] at hop
      simpa [hv.2] using hop
    · have hk := h.dcd hd
      rw [he hd]
      cases hi : s.dcd.oIllegal
      · rw [hi] at hk
        simpa using hk
      · simp
  half := half_next hc.toSequential h.half
  illegal hi := by
    have hs := hc.toSequential
    simp only [next_opIllegal, nextOpIllegal, hc.pipe, Bool.false_eq_true, if_false] at hi
    split at hi
    · cases hi
    rename_i hn
    have hn' : x.iReset = false ∧ clearPipeline s = false := by simpa using hn
    rw [opPhase_next hs]
    simp only [next_opValidMem, nextOpValidMem, nextOpFlag, hn', opCe_eq hs, hc.pipe]
    cases hd : dcdValid s
    · rw [hd] at hi
      have hop := h.illegal (by simpa using hi)
      simp [hop]
    · rw [hd] at hi
      have hill : s.dcd.oIllegal = true := by
        simp only [if_true, Bool.and_eq_true] at hi
        exact hi.2
      have hph : dcdPhase c s = false := by
        cases hph : dcdPhase c s
        · rfl
        · rw [h.half hph] at hill
          cases hill
      simp [hill, hph, he hd]

end Zipcpu

/-! ## One stage at a time -/

namespace Sys

variable {c : CpuCfg AW} {F : FetchUnit AW} {s : Sys F (memops AW c.memops)} {i : SysIn}

/-- A unit, or the bus, works or has just finished. -/
def executing (c : CpuCfg AW) (s : Sys F (memops AW c.memops)) : Bool :=
  Zipcpu.aluBusy s.cpu || Zipcpu.aluValid s.cpu || Zipcpu.divBusy c s.cpu
    || Zipcpu.divValid c s.cpu || Zipcpu.divError c s.cpu
    || (memOut s).oBusy || (memOut s).oValid || (memOut s).oErr

theorem executing_eq_false : executing c s = false ↔ Zipcpu.UnitsRest c s.cpu ∧
    (memOut s).oBusy = false ∧ (memOut s).oValid = false ∧ (memOut s).oErr = false := by
  simp only [executing, Bool.or_eq_false_iff]
  constructor
  · rintro ⟨⟨⟨⟨⟨⟨⟨h1, h2⟩, h3⟩, h4⟩, h5⟩, h6⟩, h7⟩, h8⟩
    exact ⟨⟨h1, h2, h3, h4, h5⟩, h6, h7, h8⟩
  · rintro ⟨⟨h1, h2, h3, h4, h5⟩, h6, h7, h8⟩
    exact ⟨⟨⟨⟨⟨⟨⟨h1, h2⟩, h3⟩, h4⟩, h5⟩, h6⟩, h7⟩, h8⟩

/-- The units work on, or they have just been given something to do. -/
theorem executing_next (hc : c.Sequential) (hs : Zipcpu.Sane c s.cpu)
    (h : executing c (s.next c i) = true) :
    (Zipcpu.aluBusy s.cpu = true ∨ Zipcpu.divBusy c s.cpu = true ∨ (memOut s).oBusy = true) ∨
      (Zipcpu.issue c s.cpu (s.cpuIn c i) = true ∧ Zipcpu.clearPipeline s.cpu = false) := by
  by_contra hno
  simp only [not_or, not_and, Bool.not_eq_true] at hno
  obtain ⟨⟨ha, hd, hm⟩, hi⟩ := hno
  have hidle : Zipcpu.Idle c s.cpu (s.cpuIn c i) := by
    cases hi' : Zipcpu.issue c s.cpu (s.cpuIn c i)
    · exact Or.inl hi'
    · exact Or.inr (by simpa using hi hi')
  have hstb : (s.memIn c i).iStb = false := by
    simp [memIn, Zipcpu.memIn, Zipcpu.memStb, Zipcpu.memCe_of_idle hidle]
  have hl : c.memops.implementLock = false := by simp [CpuCfg.memops, CpuCfg.optLock, hc.pipe]
  have hrest : executing c (s.next c i) = false :=
    executing_eq_false.mpr ⟨Zipcpu.unitsRest_next hs ha hd hidle, Memops.rest_next hl hm hstb⟩
  rw [hrest] at h
  cases h

/-- At most one stage is at work, and the second half of a pair follows the first: while the first
    half waits in the operand stage, the second waits in the decoder, and while the second half is
    owed, it is on its way from the decoder to the operand stage. -/
structure Seq (c : CpuCfg AW) (s : Sys F (memops AW c.memops)) : Prop where
  sane : Zipcpu.Sane c s.cpu
  dcd : Zipcpu.dcdValid s.cpu = true → s.cpu.opValid = false
  exec : executing c s = true → Zipcpu.dcdValid s.cpu = false ∧ s.cpu.opValid = false
  half : Zipcpu.clearPipeline s.cpu = false → s.cpu.opValid = true →
    Zipcpu.opPhase c s.cpu = true → Zipcpu.dcdPhase c s.cpu = true
  owed : Zipcpu.clearPipeline s.cpu = false → Zipcpu.aluPhase c s.cpu = true →
    (Zipcpu.dcdPhase c s.cpu = true ∧ Zipcpu.dcdValid s.cpu = false ∧ s.cpu.opValid = false) ∨
    (Zipcpu.dcdPhase c s.cpu = false ∧ Zipcpu.dcdValid s.cpu = true) ∨
    (Zipcpu.dcdPhase c s.cpu = false ∧ s.cpu.opValid = true ∧ Zipcpu.opPhase c s.cpu = false)

theorem seq_reset (hc : c.Sequential) (hr : i.iReset = true) : Seq c (s.next c i) := by
  have hn : Zipcpu.clearPipeline (s.next c i).cpu = true := by
    simp [Zipcpu.clearPipeline, Zipcpu.nextNewPc, hr]
  have hd : Zipcpu.dcdValid (s.next c i).cpu = false := by
    rw [next_cpu, Zipcpu.dcdValid_next hc]
    simp [hr]
  have hov : (s.next c i).cpu.opValid = false := by
    simp [Zipcpu.nextOpValid, Zipcpu.nextOpFlag, hr]
  refine ⟨Zipcpu.sane_of_reset hr, fun _ => hov, fun _ => ⟨hd, hov⟩, fun h => ?_, fun h => ?_⟩
  · rw [hn] at h
    cases h
  · rw [hn] at h
    cases h

/-- While something is executed, nothing else is under way. -/
theorem Seq.dcd_of_busy (h : Seq c s) (hb : Zipcpu.aluBusy s.cpu = true ∨
    Zipcpu.divBusy c s.cpu = true ∨ (memOut s).oBusy = true) :
    Zipcpu.dcdValid s.cpu = false ∧ s.cpu.opValid = false := by
  apply h.exec
  rcases hb with hb | hb | hb <;> simp [executing, hb]

/-- What the decoder holds on the next clock, it takes in while no instruction is ahead of it. -/
theorem Seq.empty_of_dcdValid (hc : c.Sequential)
    (hd : Zipcpu.dcdValid (s.next c i).cpu = true) :
    Zipcpu.dcdValid s.cpu = false ∧ s.cpu.opValid = false := by
  have hst : Zipcpu.dcdStalled c s.cpu (s.cpuIn c i) = false := by
    rw [next_cpu, Zipcpu.dcdValid_next hc] at hd
    simp only [Bool.and_eq_true, Bool.not_eq_true'] at hd
    exact hd.1.2
  constructor
  · cases hb : Zipcpu.dcdValid s.cpu
    · rfl
    · rw [Zipcpu.dcdStalled_of_dcdValid hc hb] at hst
      cases hst
  · cases hb : s.cpu.opValid
    · rfl
    · rw [Zipcpu.dcdStalled_of_opValid hc hb] at hst
      cases hst

/-- What is issued leaves nothing behind it. -/
theorem Seq.empty_of_issue (hc : c.Sequential) (h : Seq c s)
    (hi : Zipcpu.issue c s.cpu (s.cpuIn c i) = true) :
    Zipcpu.dcdValid s.cpu = false ∧ Zipcpu.dcdValid (s.next c i).cpu = false ∧
      (s.next c i).cpu.opValid = false := by
  have hv := (Zipcpu.ready_of_issue hi).opValid
  have hd : Zipcpu.dcdValid s.cpu = false := by
    cases hd : Zipcpu.dcdValid s.cpu
    · rfl
    · rw [h.dcd hd] at hv
      cases hv
  refine ⟨hd, ?_, ?_⟩
  · rw [next_cpu, Zipcpu.dcdValid_next hc, Zipcpu.dcdStalled_of_opValid hc hv]
    simp
  · rw [next_cpu, Zipcpu.opValid_next hc h.dcd, hd, hi]
    simp

/-- A cleared cache clears the pipeline next. -/
theorem clear_of_clearIcache (hw : Zipcpu.wClearIcache s.cpu = true) :
    Zipcpu.clearPipeline (s.next c i).cpu = true := by
  simp [Zipcpu.clearPipeline, Zipcpu.nextNewPc, hw]

theorem Seq.half_next (hc : c.Sequential) (h : Seq c s)
    (hn : Zipcpu.clearPipeline (s.next c i).cpu = false) (hv : (s.next c i).cpu.opValid = true)
    (hp : Zipcpu.opPhase c (s.next c i).cpu = true) :
    Zipcpu.dcdPhase c (s.next c i).cpu = true := by
  have hw : Zipcpu.wClearIcache s.cpu = false := by
    cases hw : Zipcpu.wClearIcache s.cpu
    · rfl
    · rw [clear_of_clearIcache hw] at hn
      cases hn
  rw [next_cpu, Zipcpu.opValid_next hc h.dcd] at hv
  rw [next_cpu, Zipcpu.opPhase_next hc] at hp
  simp only [Bool.and_eq_true, Bool.not_eq_true', Bool.or_eq_true, Bool.or_eq_false_iff] at hv hp
  obtain ⟨⟨hr, hcl⟩, hv⟩ := hv
  -- the decoder is stalled, whether the first half is leaving it or has left it already
  have hst : Zipcpu.dcdStalled c s.cpu (s.cpuIn c i) = true := by
    rcases hv with hv | hv
    · exact Zipcpu.dcdStalled_of_dcdValid hc hv
    · exact Zipcpu.dcdStalled_of_opValid hc hv.1
  have hph : Zipcpu.dcdPhase c s.cpu = true := by
    cases hd : Zipcpu.dcdValid s.cpu
    · rw [hd] at hv hp
      simp only [Bool.false_eq_true, false_or, if_false] at hv hp
      exact h.half hcl hv.1 hp.2
    · rw [hd] at hp
      simp only [if_true, Bool.and_eq_true] at hp
      exact hp.2.1
  rw [next_cpu, Zipcpu.dcdPhase_next hc, hst, hr, hcl, hw]
  simpa using hph

theorem Seq.owed_next (hc : c.Sequential) (h : Seq c s)
    (hn : Zipcpu.clearPipeline (s.next c i).cpu = false)
    (hp : Zipcpu.aluPhase c (s.next c i).cpu = true) :
    (Zipcpu.dcdPhase c (s.next c i).cpu = true ∧ Zipcpu.dcdValid (s.next c i).cpu = false ∧
        (s.next c i).cpu.opValid = false) ∨
      (Zipcpu.dcdPhase c (s.next c i).cpu = false ∧ Zipcpu.dcdValid (s.next c i).cpu = true) ∨
      (Zipcpu.dcdPhase c (s.next c i).cpu = false ∧ (s.next c i).cpu.opValid = true ∧
        Zipcpu.opPhase c (s.next c i).cpu = false) := by
  have hw : Zipcpu.wClearIcache s.cpu = false := by
    cases hw : Zipcpu.wClearIcache s.cpu
    · rfl
    · rw [clear_of_clearIcache hw] at hn
      cases hn
  have hrn : (s.cpuIn c i).iReset = false ∧ Zipcpu.clearPipeline s.cpu = false := by
    simp only [Zipcpu.aluPhase, next_cpu, Zipcpu.next_rAluPhase, Zipcpu.nextAluPhase] at hp
    split at hp
    · simp at hp
    · rename_i hrn
      simpa using hrn
  obtain ⟨hr, hcl⟩ := hrn
  cases hi : Zipcpu.issue c s.cpu (s.cpuIn c i)
  · -- no issue: the second half is where it was, or one stage on
    have hp0 : Zipcpu.aluPhase c s.cpu = true := by
      simp only [Zipcpu.aluPhase, next_cpu, Zipcpu.next_rAluPhase,
        Zipcpu.nextAluPhase_of_not_issue hi, hr, hcl, Bool.or_self, Bool.not_false,
        Bool.true_and] at hp
      exact hp
    rw [next_cpu, Zipcpu.dcdPhase_next hc, Zipcpu.dcdValid_next hc, Zipcpu.opValid_next hc h.dcd,
      Zipcpu.opPhase_next hc, hr, hcl, hw, hi]
    rcases h.owed hcl hp0 with ⟨hph, hd, hv⟩ | ⟨hph, hd⟩ | ⟨hph, hv, hop⟩
    · cases hst : Zipcpu.dcdStalled c s.cpu (s.cpuIn c i)
      · right
        left
        simp [hph]
      · left
        simp [hph, hd, hv]
    · right
      right
      simp [hph, hd, Zipcpu.dcdStalled_of_dcdValid hc hd]
    · right
      right
      have hd : Zipcpu.dcdValid s.cpu = false := by
        cases hd : Zipcpu.dcdValid s.cpu
        · rfl
        · rw [h.dcd hd] at hv
          cases hv
      simp [hph, hd, hv, hop, Zipcpu.dcdStalled_of_opValid hc hv]
  · -- the first half is issued: the second waits in the decoder
    left
    have hv := (Zipcpu.ready_of_issue hi).opValid
    have hop : Zipcpu.opPhase c s.cpu = true := by
      simp only [Zipcpu.aluPhase, next_cpu, Zipcpu.next_rAluPhase, Zipcpu.nextAluPhase, hr, hcl, hi,
        hv, Bool.or_self, Bool.false_eq_true, if_false, Bool.and_self, if_true,
        Bool.and_eq_true] at hp
      exact hp.2
    obtain ⟨-, hd', hv'⟩ := h.empty_of_issue hc hi
    refine ⟨?_, hd', hv'⟩
    rw [next_cpu, Zipcpu.dcdPhase_next hc, Zipcpu.dcdStalled_of_opValid hc hv, hr, hcl, hw]
    simpa using h.half hcl hv hop

/-- **One clock** moves the instruction on by at most one stage. -/
theorem seq_next (hc : c.Sequential) (h : Seq c s) : Seq c (s.next c i) := by
  refine ⟨Zipcpu.sane_next h.sane, fun hd => ?_, fun he => ?_,
    fun hn hv hp => h.half_next hc hn hv hp, fun hn hp => h.owed_next hc hn hp⟩
  · obtain ⟨hd0, hv0⟩ := Seq.empty_of_dcdValid hc hd
    rw [next_cpu, Zipcpu.opValid_next hc h.dcd, hd0, hv0]
    simp
  · rcases executing_next hc h.sane he with hb | ⟨hi, -⟩
    · obtain ⟨hd0, hv0⟩ := h.dcd_of_busy hb
      constructor
      · rw [next_cpu, Zipcpu.dcdValid_next hc, Zipcpu.dcdStalled_of_busy hc hb]
        simp
      · rw [next_cpu, Zipcpu.opValid_next hc h.dcd, hd0, hv0]
        simp
    · exact (h.empty_of_issue hc hi).2

theorem seq_run (hc : c.Sequential) {x : ℕ → SysIn} (hr : (x 0).iReset = true) :
    ∀ n, 0 < n → Seq c (Clocked.run (next c) s x n) := by
  intro n hn
  induction n, hn using Nat.le_induction with
  | base => exact seq_reset hc hr
  | succ n hn ih => exact seq_next hc ih

end Sys

end ZipStormMX.Cpu
