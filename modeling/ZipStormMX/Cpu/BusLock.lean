/-
  LOCK in the pipelined CPU.

  The registers behind `bus_lock` stand in a `generate` branch whose condition is a pipelined CPU
  *without* the lock: with `IMPLEMENT_LOCK` the line is tied low.  The memory unit then gives the
  bus away as soon as it has nothing to do, and before a store that follows an ALU instruction it
  has nothing to do: an overlap with the load is ruled out by the instruction in between.
-/
import ZipStormMX.Cpu.Stall
import ZipStormMX.Cpu.Board
import ZipStormMX.Cpu.Zipbones

namespace ZipStormMX.Cpu

variable {AW : ℕ}

namespace Zipcpu

variable {c : CpuCfg AW} {s : Zipcpu AW} {x : CpuIn AW}

theorem busLock_of_optLock (h : c.optLock = true) : busLock c s = false := by
  simp [busLock, hasLockLogic, h]

/-! ## No overlap across an ALU instruction -/

/-- The instruction in the operand stage, if there is one, does not overlap with an earlier one. -/
structure Unpiped (s : Zipcpu AW) : Prop where
  pipe : s.opValid = true → s.rOpPipe = false
  mem : s.opValid = false → s.opValidMem = false

/-- Whatever is loaded as a memory instruction is loaded as an instruction. -/
theorem loaded_mem (h : (wOpValid c s || dcdEarlyBranch c s) = false) :
    (s.dcd.oM && !s.dcd.oIllegal && wOpValid c s) = false := by
  have hw := (Bool.or_eq_false_iff.mp h).1
  rw [hw, Bool.and_false]

/-- After anything but a memory instruction. -/
theorem unpiped_of_adf (hc : c.optPipelined = true) (h : adfCeUnconditional c s x = true) :
    Unpiped (next c s x) := by
  have hmem : s.opValidMem = false := by
    simp only [adfCeUnconditional, hc, if_true, Bool.and_eq_true, Bool.not_eq_true'] at h
    exact h.1.1.2
  have hi : issue c s x = true := by simp [issue, h]
  constructor
  · simp only [next_opValid, nextOpValid, nextOpFlag, next_rOpPipe, nextOpPipe, hc, hi, hmem]
    intro hv
    cases hr : x.iReset || clearPipeline s
    · cases hce : opCe c s x
      · simp [hr, hce] at hv
      · simp
    · simp [hr] at hv
  · simp only [next_opValid, nextOpValid, next_opValidMem, nextOpValidMem, nextOpFlag, hc, hi]
    intro hv
    cases hr : x.iReset || clearPipeline s
    · cases hce : opCe c s x
      · simp
      · simp only [hr, hce, Bool.true_or, if_true, Bool.false_eq_true, if_false] at hv ⊢
        exact loaded_mem hv
    · simp

/-- It stays so until the next issue. -/
theorem unpiped_next (hc : c.optPipelined = true) (h : Unpiped s) (hi : issue c s x = false) :
    Unpiped (next c s x) := by
  obtain ⟨hadf, hmce⟩ := Bool.or_eq_false_iff.mp hi
  cases hv : s.opValid
  · have hmem := h.mem hv
    constructor
    · simp only [next_opValid, nextOpValid, nextOpFlag, next_rOpPipe, nextOpPipe, hc, hi, hmem, hv]
      intro hv'
      cases hr : x.iReset || clearPipeline s
      · cases hce : opCe c s x
        · simp [hr, hce] at hv'
        · simp
      · simp [hr] at hv'
    · simp only [next_opValid, nextOpValid, next_opValidMem, nextOpValidMem, nextOpFlag, hc, hi,
        hmem]
      intro hv'
      cases hr : x.iReset || clearPipeline s
      · cases hce : opCe c s x
        · simp
        · simp only [hr, hce, Bool.true_or, if_true, Bool.false_eq_true, if_false] at hv' ⊢
          exact loaded_mem hv'
      · simp
  · -- the instruction that waits keeps the stage closed
    have hp := h.pipe hv
    have hce : opCe c s x = false := by
      simp [opCe, opStall, hc, hv, hadf, hmce]
    constructor
    · simp [nextOpPipe, hce, hp]
    · simp only [next_opValid, nextOpValid, next_opValidMem, nextOpValidMem, nextOpFlag, hce, hi, hv]
      intro hv'
      cases hr : x.iReset || clearPipeline s
      · simp [hr] at hv'
      · simp

/-- A memory instruction that does not overlap finds the memory unit free. -/
theorem memBusy_of_unpiped (hc : c.optPipelined = true) (h : Unpiped s)
    (hm : memCe c s x = true) : x.memBusy = false := by
  have hv := (ready_of_memCe hm).opValid
  have hpipe : opPipe c s = false := by simp [opPipe, h.pipe hv]
  simp only [memCe, Bool.and_eq_true, Bool.not_eq_true'] at hm
  obtain ⟨⟨⟨-, hmem⟩, hst⟩, -⟩ := hm
  cases hmp : c.optMempipe
  · simp only [memStalled, hmp, hc, hmem, Bool.false_eq_true, if_false, if_true, Bool.true_and,
      Bool.or_eq_false_iff] at hst
    exact hst.2.1.2
  · simp only [memStalled, hmp, hmem, hpipe, if_true, Bool.true_and, Bool.not_false,
      Bool.or_eq_false_iff] at hst
    exact hst.2.1.2

end Zipcpu

/-! ## A memory unit without a lock releases the bus -/

/-- As long as the lock line is low, a unit that is not busy drops both cycles.  `I` is what its
    registers keep to. -/
structure MemUnit.Releases (M : MemUnit AW) (I : M.State → Prop) : Prop where
  reset : ∀ s i, i.iReset = true → I (M.step s i)
  step : ∀ s i, I s → i.iLock = false → I (M.step s i)
  low : ∀ s, I s → (M.out s).oBusy = false →
    (M.out s).oWbCycGbl = false ∧ (M.out s).oWbCycLcl = false

namespace Memops

/-- No lock is held. -/
def NoLock (s : Memops AW) : Prop := s.lockGbl = false ∧ s.lockLcl = false

theorem releases (c : MemCfg) : (memops AW c).Releases NoLock where
  reset s i h := by
    show (nextLockGbl c s i = false) ∧ (nextLockLcl c s i = false)
    simp [nextLockGbl, nextLockLcl, h]
  step s i _ h := by
    show (nextLockGbl c s i = false) ∧ (nextLockLcl c s i = false)
    simp [nextLockGbl, nextLockLcl, h]
  low s h hb := by
    obtain ⟨hg, hl⟩ : s.rWbCycGbl = false ∧ s.rWbCycLcl = false := Bool.or_eq_false_iff.mp hb
    show (s.rWbCycGbl || (c.implementLock && s.lockGbl)) = false ∧
      (s.rWbCycLcl || (c.implementLock && s.lockLcl)) = false
    rw [hg, hl, h.1, h.2, Bool.and_false]
    exact ⟨rfl, rfl⟩

end Memops

namespace Pipemem

/-- No lock is held, and the cycle of either bus is that of the unit. -/
structure NoLock (s : Pipemem AW) : Prop where
  gbl : s.lockGbl = false
  lcl : s.lockLcl = false
  cyc : s.cyc = false → s.rWbCycGbl = false ∧ s.rWbCycLcl = false

variable {c : MemCfg} {s : Pipemem AW} {i : MemIn}

theorem noLock_reset (h : i.iReset = true) : NoLock (next c s i) := by
  constructor
  · simp [h]
  · simp [h]
  · simp [nextCycGbl, nextCycLcl, h]

theorem noLock_next (hs : NoLock s) (h : i.iLock = false) : NoLock (next c s i) := by
  refine ⟨by simp [h], by simp [h], ?_⟩
  simp only [next_cyc, nextCyc, next_rWbCycGbl, nextCycGbl, next_rWbCycLcl, nextCycLcl, gblStb,
    lclStb]
  intro hcyc
  cases hr : i.iReset
  · cases hc : s.cyc
    · cases hst : i.iStb
      · simpa [hr, hc, hst] using hs.cyc hc
      · simp only [hr, hc, hst] at hcyc ⊢
        simp_all
    · simp_all
  · simp

theorem releases (c : MemCfg) : (pipemem AW c).Releases NoLock where
  reset _ _ := noLock_reset
  step _ _ := noLock_next
  low s h hb := by
    obtain ⟨hg, hl⟩ := h.cyc hb
    show (s.rWbCycGbl || (c.implementLock && s.lockGbl)) = false ∧
      (s.rWbCycLcl || (c.implementLock && s.lockLcl)) = false
    rw [hg, hl, h.gbl, h.lcl, Bool.and_false]
    exact ⟨rfl, rfl⟩

end Pipemem

theorem CpuCfg.memUnit_releases (c : CpuCfg AW) : ∃ I, c.memUnit.Releases I := by
  cases h : c.optMempipe
  · rw [CpuCfg.memUnit, h]
    exact ⟨_, Memops.releases _⟩
  · rw [CpuCfg.memUnit, h]
    exact ⟨_, Pipemem.releases _⟩

/-! ## The sequence -/

namespace Sys

variable (c : CpuCfg AW) {F : FetchUnit AW} {M : MemUnit AW}

/-- The data side holds a cycle on one of the buses. -/
def dataCyc (s : Sys F M) : Bool := (memOut s).oWbCycGbl || (memOut s).oWbCycLcl

/-- LOCK, a load, an ALU instruction and a store leave the operand stage at `t0`, `t1`, `t2` and
    `t3`, and nothing else does in between. -/
structure LockedSequence (s : ℕ → Sys F M) (i : ℕ → SysIn) (t0 t1 t2 t3 : ℕ) : Prop where
  lt01 : t0 < t1
  lt12 : t1 < t2
  lt23 : t2 < t3
  lock : Zipcpu.adfCeUnconditional c (s t0).cpu ((s t0).cpuIn c (i t0)) = true ∧
    Zipcpu.opLock c (s t0).cpu = true
  load : Zipcpu.memStb c (s t1).cpu ((s t1).cpuIn c (i t1)) = true ∧
    (Zipcpu.opOpn c (s t1).cpu).getLsbD 0 = false
  alu : Zipcpu.aluCe c (s t2).cpu ((s t2).cpuIn c (i t2)) = true
  store : Zipcpu.memStb c (s t3).cpu ((s t3).cpuIn c (i t3)) = true ∧
    (Zipcpu.opOpn c (s t3).cpu).getLsbD 0 = true
  only : ∀ k, t0 < k → k < t3 → k ≠ t1 → k ≠ t2 →
    Zipcpu.issue c (s k).cpu ((s k).cpuIn c (i k)) = false

/-- From the first request of the load to the acknowledgement of the store the data side keeps its
    cycle, and no interrupt is taken. -/
def Atomic (s : ℕ → Sys F M) (i : ℕ → SysIn) (t1 t3 : ℕ) : Prop :=
  ∀ k, t1 < k → (∀ j, t3 < j → j < k → ((s j).memReply c (i j)).ack = false) →
    dataCyc (s k) = true ∧
      Zipcpu.wSwitchToInterrupt c (s k).cpu ((s k).cpuIn c (i k)) = false

/-- **The bus is free when the store is issued**, in every run. -/
theorem dataCyc_at_store (hc : c.optPipelined = true) (hl : c.implementLock = true)
    {I : M.State → Prop} (hM : M.Releases I) (s : Sys F M) (i : ℕ → SysIn)
    (hreset : (i 0).iReset = true) {t0 t1 t2 t3 : ℕ}
    (h : LockedSequence c (Clocked.run (next c) s i) i t0 t1 t2 t3) :
    dataCyc (Clocked.run (next c) s i t3) = false := by
  have hlock : c.optLock = true := by simp [CpuCfg.optLock, hc, hl]
  -- the memory unit never holds a lock
  have hI : ∀ n, 1 ≤ n → I (Clocked.run (next c) s i n).mem := by
    refine Clocked.run_invariant_from (P := fun q : Sys F M => I q.mem) ?_ ?_
    · exact hM.reset _ _ hreset
    · intro n _ hn
      exact hM.step _ _ hn (Zipcpu.busLock_of_optLock hlock)
  -- from the ALU instruction on, nothing overlaps
  have hU : ∀ n, t2 < n → n ≤ t3 → Zipcpu.Unpiped (Clocked.run (next c) s i n).cpu := by
    intro n hn
    induction n, hn using Nat.le_induction with
    | base =>
      intro _
      have halu := h.alu
      simp only [Zipcpu.aluCe, Bool.and_eq_true] at halu
      exact Zipcpu.unpiped_of_adf hc halu.1
    | succ n hn ih =>
      intro hn3
      have hi := h.only n (by have := h.lt01; have := h.lt12; omega) (by omega)
        (by have := h.lt12; omega) (by omega)
      exact Zipcpu.unpiped_next hc (ih (by omega)) hi
  have hst := h.store.1
  simp only [Zipcpu.memStb, Bool.and_eq_true] at hst
  have hbusy := Zipcpu.memBusy_of_unpiped hc (hU t3 h.lt23 (le_refl t3)) hst.1
  obtain ⟨hg, hlc⟩ := hM.low _ (hI t3 (by have := h.lt23; omega)) hbusy
  rw [dataCyc, memOut, hg, hlc]
  rfl

/-- **LOCK never makes the sequence atomic.** -/
theorem locked_sequence_not_atomic (hc : c.optPipelined = true) (hl : c.implementLock = true)
    (s : Sys F c.memUnit) (i : ℕ → SysIn) (hreset : (i 0).iReset = true) {t0 t1 t2 t3 : ℕ}
    (h : LockedSequence c (Clocked.run (next c) s i) i t0 t1 t2 t3) :
    ¬Atomic c (Clocked.run (next c) s i) i t1 t3 := by
  intro hatomic
  obtain ⟨I, hM⟩ := c.memUnit_releases
  have hlow := dataCyc_at_store c hc hl hM s i hreset h
  have hhigh := (hatomic t3 (by have := h.lt12; have := h.lt23; omega)
    (fun j h1 h2 => by omega)).1
  rw [hlow] at hhigh
  cases hhigh

/-! ## One run -/

/-- The pipelined CPU with pipelined bus access and the lock. -/
def lockCfg : CpuCfg 21 :=
  { zipConfig 0#21 with optPipelined := true, optPipelinedBusAccess := true }

/-- A word of R1's memory is incremented behind a LOCK. -/
def lockProg : List (BitVec 32) :=
  [0x0e000100#32,  -- LDI 256,R1
   0x77400000#32,  -- LOCK
   0x14844000#32,  -- LW (R1),R2
   0x10800001#32,  -- ADD 1,R2
   0x14c44000#32]  -- SW R2,(R1)

/-- The board that runs it, with an instruction cache of sixteen words. -/
def lockBoard : Board (pfcache 21 4 2) lockCfg.memUnit where
  sys := { cpu := Zipcpu.init lockCfg, pf := Pfcache.init 21 4 2, mem := Pipemem.init 21,
           rAOwner := true }
  memory := Memdev.init (image lockProg)

/-- A reset and then nothing from outside. -/
def lockPins : ℕ → SysIn :=
  Board.pins lockCfg true lockBoard fun n => if n = 0 then Controls.reset else Controls.quiet

theorem lockRun_sequence :
    LockedSequence lockCfg (Clocked.run (next lockCfg) lockBoard.sys lockPins) lockPins
      18 19 23 34 where
  lt01 := by decide
  lt12 := by decide
  lt23 := by decide
  lock := by decide +kernel
  load := by decide +kernel
  alu := by decide +kernel
  store := by decide +kernel
  only := by
    have hall : ∀ k < 34, 18 < k → k ≠ 19 → k ≠ 23 →
        Zipcpu.issue lockCfg (Clocked.run (next lockCfg) lockBoard.sys lockPins k).cpu
          ((Clocked.run (next lockCfg) lockBoard.sys lockPins k).cpuIn lockCfg (lockPins k))
          = false := by
      decide +kernel
    exact fun k h1 h2 => hall k h2 h1

theorem locked_sequence_not_atomic_run :
    ¬Atomic lockCfg (Clocked.run (next lockCfg) lockBoard.sys lockPins) lockPins 19 34 :=
  locked_sequence_not_atomic lockCfg rfl rfl lockBoard.sys lockPins rfl lockRun_sequence

/-- The fetch unit takes the bus between the load and the store. -/
theorem locked_sequence_broken :
    ¬ ∀ (s : Sys (pfcache 21 4 2) lockCfg.memUnit) (i : ℕ → SysIn), (i 0).iReset = true →
        ∀ t0 t1 t2 t3, LockedSequence lockCfg (Clocked.run (next lockCfg) s i) i t0 t1 t2 t3 →
          Atomic lockCfg (Clocked.run (next lockCfg) s i) i t1 t3 := by
  intro h
  have hatomic := h lockBoard.sys lockPins rfl 18 19 23 34 lockRun_sequence
  have hhigh := (hatomic 28 (by decide) (fun j h1 h2 => by omega)).1
  exact absurd hhigh (by decide +kernel)

end Sys

end ZipStormMX.Cpu
