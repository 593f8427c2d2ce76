/-
  A debugger's write names the register it changes.

  `DbgWrite` is a debug write to the halted CPU and the time it stays halted after it, and
  `OnlyWrote` what may have happened by then: the named register holds the value and nothing else has
  changed.  When the CPU is let go, it takes up its program at the program counter of its mode, if
  the write keeps the course (`KeepsCourse`).
-/
import ZipStormMX.Cpu.DebugJump
import ZipStormMX.Cpu.Board
import ZipStormMX.Cpu.Zipbones

namespace ZipStormMX.Cpu

variable {AW : ℕ}

namespace Zipcpu

variable {c : CpuCfg AW} {s : Zipcpu AW} {x : CpuIn AW}

/-! ## The clocks around a debug write -/

/-- The decoder of a CPU that is held takes nothing in. -/
theorem dcdValid_of_held (hc : c.optPipelined = false) (hp : aluPhase c s = false)
    (hx : x.iHalt = true) : dcdValid (next c s x) = false := by
  have hce : masterCe c s x = false := by simp [masterCe, hx, hp]
  have hst : (decodeIn c s x).iStalled = true := by simp [decodeIn, dcdStalled, hc, hce]
  have hpipe : c.decode.optPipelined = false := hc
  simp [dcdValid, Idecode.nextValid, hpipe, hst]

theorem dcdValid_of_halted (hc : c.optPipelined = false) (h : (next c s x).rHalted = true) :
    dcdValid (next c s x) = false := by
  have hh : nextHalted c s x = true := h
  simp only [nextHalted, hc, Bool.false_eq_true, if_false, Bool.and_eq_true, Bool.not_eq_true'] at hh
  exact dcdValid_of_held hc hh.1.1.1.1.1.2 hh.1.1.1.1.1.1

/-- A debug write clears the pipeline, unless it is being cleared already. -/
theorem clear_of_dbgWrite (hc : c.optPipelined = false) (hr : x.iReset = false)
    (hw : dbgWrite s x = true) (hd : (next c s x).dbgClearPipe = false) : clearPipeline s = true := by
  cases hn : clearPipeline s
  · simp [nextDbgClearPipe, hr, hn, hw, hc] at hd
  · rfl

/-- An instruction in the operand stage does not outlive a debug write. -/
theorem opIllegal_of_dbgv (hc : c.optPipelined = false) (hv : (next c s x).dbgv = true) :
    (next c s x).dbgClearPipe = true ∨ (next c s x).opIllegal = false := by
  simp only [next_dbgv, Bool.and_eq_true, Bool.not_eq_true'] at hv
  cases hd : (next c s x).dbgClearPipe
  · right
    have hn := clear_of_dbgWrite hc hv.1 (by simp [dbgWrite, hv.2.1, hv.2.2]) hd
    simp [nextOpIllegal, hn]
  · exact Or.inl rfl

theorem Still.reported_next (h : Still c s x) (hd : dcdValid s = false)
    (hp : s.dbgv = true → s.dbgClearPipe = true ∨ s.opIllegal = false) : Reported (next c s x) := by
  intro hill hclr
  have hill' : clearPipeline s = false ∧ s.opIllegal = true := by
    simp only [next_opIllegal, nextOpIllegal, h.pipe, hd, h.reset, Bool.false_or, Bool.false_eq_true,
      if_false] at hill
    cases hn : clearPipeline s
    · exact ⟨rfl, by simpa [hn] using hill⟩
    · simp [hn] at hill
  simp only [clearPipeline, next_newPc, nextNewPc, h.reset, Bool.false_or] at hclr
  have hdcp : s.dbgClearPipe = false := by grind
  have hsw : wSwitchToInterrupt c s x = false := by grind
  have hrel : wReleaseFromInterrupt c s x = false := by grind
  have hv : s.dbgv = false := by
    cases hv : s.dbgv
    · rfl
    · rcases hp hv with hp | hp
      · rw [hdcp] at hp
        cases hp
      · rw [hill'.2] at hp
        cases hp
  have hg : gie (next c s x) = gie s := by
    simp [gie, nextGie, h.reset, hsw, hrel]
  rw [hg]
  split
  · rename_i hgie
    simp [nextIllErrU, nextUErr, h.reset, hrel, outerUccWrite, h.wrRegCe_eq, hv, h.aluIllegal_eq,
      hill', hgie]
  · rename_i hgie
    have hgie : gie s = false := by simpa using hgie
    simp [nextIllErrI, nextIErr, h.reset, hv, h.aluIllegal_eq, hill', hgie]

end Zipcpu

namespace Sys

variable {c : CpuCfg AW} {F : FetchUnit AW} {s : Sys F (memops AW c.memops)} {i : ℕ → SysIn}

/-! ## The halted CPU along a run -/

/-- The CPU at each clock of a run. -/
def cpuAt (c : CpuCfg AW) (s : Sys F (memops AW c.memops)) (i : ℕ → SysIn) (n : ℕ) : Zipcpu AW :=
  (Clocked.run (next c) s i n).cpu

/-- Its pins. -/
def pinsAt (c : CpuCfg AW) (s : Sys F (memops AW c.memops)) (i : ℕ → SysIn) (n : ℕ) : CpuIn AW :=
  (Clocked.run (next c) s i n).cpuIn c (i n)

theorem cpuAt_succ (n : ℕ) :
    cpuAt c s i (n + 1) = Zipcpu.next c (cpuAt c s i n) (pinsAt c s i n) := rfl

theorem sane_run (hr : (i 0).iReset = true) : ∀ n, 0 < n → Zipcpu.Sane c (cpuAt c s i n) := by
  intro n hn
  induction n, hn using Nat.le_induction with
  | base => exact Zipcpu.sane_of_reset hr
  | succ n hn ih => exact Zipcpu.sane_next ih

theorem quiet_at_halt (hc : c.optPipelined = false) (hr : (i 0).iReset = true) {t : ℕ} (ht : 0 < t)
    (hh : (cpuAt c s i t).rHalted = true) : Quiet c (Clocked.run (next c) s i t) := by
  match t with
  | 1 => exact quiet_of_reset hr
  | t + 2 => exact quiet_of_halted hc (sane_run hr (t + 1) (by omega)) hh

theorem still_of_quiet (hc : c.optPipelined = false) {n : ℕ}
    (h : Quiet c (Clocked.run (next c) s i n)) (hr : (i n).iReset = false) :
    Zipcpu.Still c (cpuAt c s i n) (pinsAt c s i n) where
  pipe := hc
  sane := h.sane
  rest := h.rest
  memBusy := h.memBusy
  memValid := h.memValid
  busErr := h.busErr
  reset := hr

/-- Held from clock `t` on, the CPU stays quiet and decodes nothing. -/
theorem quiet_while_held (hc : c.optPipelined = false) {t n : ℕ}
    (h0 : Quiet c (Clocked.run (next c) s i t))
    (hheld : ∀ m, t ≤ m → m < n → (i m).iHalt = true) :
    ∀ m, t ≤ m → m ≤ n → Quiet c (Clocked.run (next c) s i m) := by
  intro m hm
  induction m, hm using Nat.le_induction with
  | base => exact fun _ => h0
  | succ m hm ih =>
    intro hmn
    have hq := ih (by omega)
    refine quiet_next hc hq (Or.inl (Zipcpu.issue_of_held hq.rest.aluPhase (Or.inl ?_)))
    exact hheld m hm (by omega)

/-! ## The debug write -/

/-- At clock `t` the debugger writes `v` to register `k` of the halted CPU, and until clock `n` the
    CPU stays halted and is left alone.  A program counter is given a word address it can hold. -/
structure DbgWrite (c : CpuCfg AW) (s : Sys F (memops AW c.memops)) (i : ℕ → SysIn) (t n : ℕ)
    (k : BitVec 5) (v : BitVec 32) : Prop where
  halted : Zipcpu.oDbgStall (cpuAt c s i t) = false
  we : (i t).iDbgWe = true
  reg : (i t).iDbgReg = k
  data : (i t).iDbgData = v
  held : ∀ m, t ≤ m → m < n → (i m).iHalt = true ∧ (i m).iReset = false
  alone : ∀ m, t < m → m < n → (i m).iDbgWe = false
  landed : t + 2 ≤ n
  aligned : isPc k = true → v.toNat % 4 = 0 ∧ v.toNat < 2 ^ (AW + 2)

/-- From clock `n` to clock `m` the CPU is neither reset nor written to, and it decodes its next
    instruction on clock `m`. -/
structure Resumes (c : CpuCfg AW) (s : Sys F (memops AW c.memops)) (i : ℕ → SysIn) (n m : ℕ) :
    Prop where
  le : n ≤ m
  alone : ∀ j, n ≤ j → j < m → (i j).iReset = false ∧ (i j).iDbgWe = false
  still : ∀ j, n ≤ j → j ≤ m → Zipcpu.dcdValid (cpuAt c s i j) = false
  decodes : Zipcpu.dcdValid (cpuAt c s i (m + 1)) = true

/-- What the write of `v` to `k` has done by clock `n`.  What was before it is what was on clock
    `t + 1`, when a write of the clock before has landed.  An interrupt that is taken in between ends
    user mode and sleep; that is not the write's doing. -/
structure OnlyWrote (c : CpuCfg AW) (s : Sys F (memops AW c.memops)) (i : ℕ → SysIn) (t n : ℕ)
    (k : BitVec 5) (v : BitVec 32) : Prop where
  value : isCc k = false → Zipcpu.dbgRead c (cpuAt c s i n) k = v
  readBack : isCc k = false → ∀ m, t + 2 ≤ m → m < n → (i m).iDbgReg = k → (i (m + 1)).iDbgReg = k →
    (cpuAt c s i (m + 2)).oDbgReg = v
  others : isCc k = false → ∀ q, q ≠ k → isCc q = false →
    Zipcpu.dbgRead c (cpuAt c s i n) q = Zipcpu.dbgRead c (cpuAt c s i (t + 1)) q
  flags : isCc k = false → (cpuAt c s i n).flags = (cpuAt c s i (t + 1)).flags ∧
    (cpuAt c s i n).iflags = (cpuAt c s i (t + 1)).iflags
  mode : isCc k = false →
    (∀ m, t < m → m < n → (Zipcpu.gie (cpuAt c s i m) &&
      Zipcpu.pendingInterrupt (cpuAt c s i m)) = false) →
    Zipcpu.gie (cpuAt c s i n) = Zipcpu.gie (cpuAt c s i (t + 1)) ∧
      ∀ q, isCc q = true →
        Zipcpu.dbgRead c (cpuAt c s i n) q = Zipcpu.dbgRead c (cpuAt c s i (t + 1)) q
  resumes : ∀ m, Resumes c s i n m → ∃ pc,
    pc = Zipcpu.pcWord (cpuAt c s i m) (Zipcpu.gie (cpuAt c s i m)) ∧
    pc = (if isPc k && k.getLsbD 4 == Zipcpu.gie (cpuAt c s i m) then v.extractLsb' 2 AW
      else Zipcpu.pcWord (cpuAt c s i (t + 1)) (Zipcpu.gie (cpuAt c s i m))) ∧
    Zipcpu.HeadsFor c (cpuAt c s i) m pc ∧ (cpuAt c s i m).opValid = false

/-- The condition on a debug write: the jump it makes goes to the right place, and the phase of the
    user's PC, which is a bit of the user's CC register as well, is not set when that PC is
    written. -/
structure Harmless (c : CpuCfg AW) (s : Sys F (memops AW c.memops)) (i : ℕ → SysIn) (t : ℕ)
    (k : BitVec 5) (v : BitVec 32) : Prop where
  course : Zipcpu.KeepsCourse c (cpuAt c s i) (t + 1) (pinsAt c s i (t + 1)) k v
  phase : k = 1#1 ++ pcReg → Zipcpu.uhaltPhase c (cpuAt c s i (t + 1)) = false

section

variable {t n : ℕ} {k : BitVec 5} {v : BitVec 32}

theorem DbgWrite.dbgWrite (h : DbgWrite c s i t n k v) :
    Zipcpu.dbgWrite (cpuAt c s i t) (pinsAt c s i t) = true := by
  have hh : (cpuAt c s i t).rHalted = true := by
    simpa [Zipcpu.oDbgStall] using h.halted
  have hwe : (pinsAt c s i t).iDbgWe = true := h.we
  rw [Zipcpu.dbgWrite, hh, hwe]
  rfl

theorem DbgWrite.lands (hc : c.optPipelined = false) (h : DbgWrite c s i t n k v) :
    Zipcpu.Lands (cpuAt c s i (t + 1)) k v := by
  have hw := h.dbgWrite
  have hr : (i t).iReset = false := (h.held t (le_refl t) (by have := h.landed; omega)).2
  refine ⟨?_, ?_, h.data⟩
  · obtain ⟨hh, hwe⟩ := Bool.and_eq_true_iff.mp hw
    have hr' : (pinsAt c s i t).iReset = false := hr
    simp [cpuAt_succ, hr', hh, hwe]
  · have hreg : (pinsAt c s i t).iDbgReg = k := h.reg
    simp [cpuAt_succ, Zipcpu.nextAluReg, hc, hw, hreg]

/-- The debugger is idle again. -/
theorem dbgv_of_alone {m : ℕ} (h : (i m).iDbgWe = false) : (cpuAt c s i (m + 1)).dbgv = false := by
  have h' : (pinsAt c s i m).iDbgWe = false := h
  simp [cpuAt_succ, h']

/-- The CPU is quiet and has decoded nothing from the write on. -/
theorem DbgWrite.quiet (hc : c.optPipelined = false) (hr : (i 0).iReset = true) (ht : 0 < t)
    (h : DbgWrite c s i t n k v) (m : ℕ) (hm : t ≤ m) (hmn : m ≤ n) :
    Quiet c (Clocked.run (next c) s i m) ∧ Zipcpu.dcdValid (cpuAt c s i m) = false := by
  have hh : (cpuAt c s i t).rHalted = true := by
    simpa [Zipcpu.oDbgStall] using h.halted
  have hq := quiet_while_held hc (quiet_at_halt hc hr ht hh) (fun m hm hmn => (h.held m hm hmn).1)
  refine ⟨hq m hm hmn, ?_⟩
  rcases Nat.lt_or_ge t m with hlt | hge
  · obtain ⟨j, rfl⟩ : ∃ j, m = j + 1 := ⟨m - 1, by omega⟩
    have hj := (hq j (by omega) (by omega)).rest.aluPhase
    exact Zipcpu.dcdValid_of_held hc hj (h.held j (by omega) (by omega)).1
  · have hmt : m = t := by omega
    obtain ⟨j, rfl⟩ : ∃ j, t = j + 1 := ⟨t - 1, by omega⟩
    rw [hmt]
    exact Zipcpu.dcdValid_of_halted hc hh

theorem DbgWrite.still (hc : c.optPipelined = false) (hr : (i 0).iReset = true) (ht : 0 < t)
    (h : DbgWrite c s i t n k v) (m : ℕ) (hm : t ≤ m) (hmn : m < n) :
    Zipcpu.Still c (cpuAt c s i m) (pinsAt c s i m) :=
  still_of_quiet hc (h.quiet hc hr ht m hm (by omega)).1 (h.held m hm hmn).2

/-- If the write does not clear the pipeline, a jump is under way already. -/
theorem DbgWrite.cleared (hc : c.optPipelined = false) (h : DbgWrite c s i t n k v)
    (hd : (cpuAt c s i (t + 1)).dbgClearPipe = false) :
    Zipcpu.pendingInterrupt (cpuAt c s i (t + 1)) = false ∧ Zipcpu.Empty c (cpuAt c s i (t + 1)) := by
  have hr : (pinsAt c s i t).iReset = false :=
    (h.held t (le_refl t) (by have := h.landed; omega)).2
  have hn := Zipcpu.clear_of_dbgWrite hc hr h.dbgWrite hd
  refine ⟨?_, Zipcpu.empty_of_clear hn⟩
  simp [Zipcpu.pendingInterrupt, cpuAt_succ, Zipcpu.nextPendingInterrupt, hn]

/-- From the landing on, the CPU stands at the program counter of its mode. -/
theorem DbgWrite.stands (hc : c.optPipelined = false) (hr : (i 0).iReset = true) (ht : 0 < t)
    (h : DbgWrite c s i t n k v) (hk : Harmless c s i t k v) :
    Zipcpu.Stands c (cpuAt c s i) (t + 2) := by
  have hn := h.landed
  have hst := h.still hc hr ht (t + 1) (by omega) (by omega)
  exact hst.stands_lands (h.lands hc) hk.course rfl (h.cleared hc)
    (h.quiet hc hr ht (t + 2) (by omega) hn).2

/-! ### The registers -/

/-- The only write there is. -/
theorem DbgWrite.written (hc : c.optPipelined = false) (hr : (i 0).iReset = true) (ht : 0 < t)
    (h : DbgWrite c s i t n k v) {m : ℕ} (hm : t < m) (hmn : m < n)
    (hw : Zipcpu.wrRegCe c (cpuAt c s i m) (pinsAt c s i m) = true) :
    Zipcpu.Lands (cpuAt c s i m) k v ∧
      Zipcpu.wrRegId (cpuAt c s i m) (pinsAt c s i m) = k := by
  have hst := h.still hc hr ht m (by omega) hmn
  have hmt : m = t + 1 := by
    by_contra hne
    obtain ⟨j, rfl⟩ : ∃ j, m = j + 1 := ⟨m - 1, by omega⟩
    rw [hst.wrRegCe_eq, dbgv_of_alone (h.alone j (by omega) (by omega))] at hw
    cases hw
  subst hmt
  exact ⟨h.lands hc, hst.wrRegId_lands (h.lands hc)⟩

theorem DbgWrite.noCc (hc : c.optPipelined = false) (hr : (i 0).iReset = true) (ht : 0 < t)
    (h : DbgWrite c s i t n k v) (hk : isCc k = false) {m : ℕ} (hm : t < m) (hmn : m < n) :
    Zipcpu.NoCc c (cpuAt c s i m) (pinsAt c s i m) := by
  cases hw : Zipcpu.wrRegCe c (cpuAt c s i m) (pinsAt c s i m)
  · simp [Zipcpu.NoCc, hw]
  · exact (h.still hc hr ht m (by omega) hmn).noCc_lands (h.written hc hr ht hm hmn hw).1 hk

theorem DbgWrite.keepsPhase (hc : c.optPipelined = false) (hr : (i 0).iReset = true) (ht : 0 < t)
    (h : DbgWrite c s i t n k v) (hk : Harmless c s i t k v) {m : ℕ} (hm : t < m) (hmn : m < n)
    (hw : Zipcpu.writesPc c (cpuAt c s i m) (pinsAt c s i m) true = true) :
    Zipcpu.uhaltPhase c (cpuAt c s i m) = false ∧
      (Zipcpu.wrSpregVl (cpuAt c s i m) (pinsAt c s i m)).getLsbD 1 = false := by
  simp only [Zipcpu.writesPc, Bool.and_eq_true, beq_iff_eq] at hw
  obtain ⟨⟨hwr, hpc⟩, h4⟩ := hw
  obtain ⟨hl, hid⟩ := h.written hc hr ht hm hmn hwr
  have hst := h.still hc hr ht m (by omega) hmn
  rw [Zipcpu.wrWritePc, hid] at hpc
  rw [hid] at h4
  have hku : k = 1#1 ++ pcReg := by
    have := Zipcpu.eq_of_isPc k hpc
    rwa [h4] at this
  have hmt : m = t + 1 := by
    by_contra hne
    obtain ⟨j, rfl⟩ : ∃ j, m = j + 1 := ⟨m - 1, by omega⟩
    have := hl.dbgv
    rw [dbgv_of_alone (h.alone j (by omega) (by omega))] at this
    cases this
  refine ⟨by rw [hmt]; exact hk.phase hku, ?_⟩
  rw [hst.wrSpregVl_lands hl]
  exact Zipcpu.aligned_bit (h.aligned hpc).1

/-- A register other than the one named reads as before, flags and register file included. -/
theorem DbgWrite.frame (hc : c.optPipelined = false) (hr : (i 0).iReset = true) (ht : 0 < t)
    (h : DbgWrite c s i t n k v) (hk : Harmless c s i t k v) (hkc : isCc k = false) :
    ∀ m, t + 1 ≤ m → m ≤ n →
      (∀ q, q ≠ k → isCc q = false →
        Zipcpu.dbgRead c (cpuAt c s i m) q = Zipcpu.dbgRead c (cpuAt c s i (t + 1)) q) ∧
      (∀ q, q ≠ k → (cpuAt c s i m).regset q = (cpuAt c s i (t + 1)).regset q) ∧
      (cpuAt c s i m).flags = (cpuAt c s i (t + 1)).flags ∧
      (cpuAt c s i m).iflags = (cpuAt c s i (t + 1)).iflags := by
  intro m hm
  induction m, hm using Nat.le_induction with
  | base => exact fun _ => ⟨fun _ _ _ => rfl, fun _ _ => rfl, rfl, rfl⟩
  | succ m hm ih =>
    intro hmn
    obtain ⟨hread, hreg, hfl, hifl⟩ := ih (by omega)
    have hst := h.still hc hr ht m (by omega) (by omega)
    have hcc := h.noCc hc hr ht hkc (m := m) (by omega) (by omega)
    have hne : ∀ q, q ≠ k → Zipcpu.wrRegCe c (cpuAt c s i m) (pinsAt c s i m) = true →
        q ≠ Zipcpu.wrRegId (cpuAt c s i m) (pinsAt c s i m) := by
      intro q hq hw
      rw [(h.written hc hr ht (by omega) (by omega) hw).2]
      exact hq
    obtain ⟨hfl', hifl'⟩ := hst.flags_next hcc
    refine ⟨fun q hq hqc => ?_, fun q hq => ?_, hfl'.trans hfl, hifl'.trans hifl⟩
    · rw [← hread q hq hqc]
      exact hst.dbgRead_next hcc hqc (hne q hq) (h.keepsPhase hc hr ht hk (by omega) (by omega))
    · rw [← hreg q hq, cpuAt_succ, Zipcpu.next_regset, Zipcpu.nextRegset, if_neg]
      intro hw
      obtain ⟨hw, he⟩ := Bool.and_eq_true_iff.mp hw
      exact hne q hq hw (beq_iff_eq.mp he)

/-- The named register reads as the value from the landing on. -/
theorem DbgWrite.value (hc : c.optPipelined = false) (hAW : AW ≤ 30) (hr : (i 0).iReset = true)
    (ht : 0 < t) (h : DbgWrite c s i t n k v) (hk : Harmless c s i t k v) (hkc : isCc k = false) :
    ∀ m, t + 2 ≤ m → m ≤ n → Zipcpu.dbgRead c (cpuAt c s i m) k = v ∧
      (isPc k = false → (cpuAt c s i m).regset k = v) := by
  have hn := h.landed
  intro m hm
  induction m, hm using Nat.le_induction with
  | base =>
    intro _
    have hst := h.still hc hr ht (t + 1) (by omega) (by omega)
    refine ⟨hst.dbgRead_lands (h.lands hc) hkc hAW h.aligned, fun _ => ?_⟩
    rw [cpuAt_succ, Zipcpu.next_regset, Zipcpu.nextRegset, hst.wrRegCe_lands (h.lands hc),
      hst.wrRegId_lands (h.lands hc), hst.wrGpregVl_lands (h.lands hc)]
    simp
  | succ m hm ih =>
    intro hmn
    obtain ⟨hread, hreg⟩ := ih (by omega)
    have hst := h.still hc hr ht m (by omega) (by omega)
    have hno : Zipcpu.wrRegCe c (cpuAt c s i m) (pinsAt c s i m) = false := by
      obtain ⟨j, rfl⟩ : ∃ j, m = j + 1 := ⟨m - 1, by omega⟩
      rw [hst.wrRegCe_eq, dbgv_of_alone (h.alone j (by omega) (by omega))]
    have hcc := h.noCc hc hr ht hkc (m := m) (by omega) (by omega)
    refine ⟨?_, fun hpc => ?_⟩
    · rw [← hread]
      exact hst.dbgRead_next hcc hkc (by simp [hno])
        (h.keepsPhase hc hr ht hk (by omega) (by omega))
    · rw [← hreg hpc, cpuAt_succ, Zipcpu.next_regset, Zipcpu.nextRegset, hno]
      simp

/-! ### The mode and the CC registers -/

/-- What the operand stage holds has been reported. -/
theorem DbgWrite.reported (hc : c.optPipelined = false) (hr : (i 0).iReset = true) (ht : 0 < t)
    (h : DbgWrite c s i t n k v) {m : ℕ} (hm : t < m) (hmn : m ≤ n) :
    Zipcpu.Reported (cpuAt c s i m) := by
  obtain ⟨j, rfl⟩ : ∃ j, m = j + 2 := ⟨m - 2, by omega⟩
  have hst := h.still hc hr ht (j + 1) (by omega) (by omega)
  exact hst.reported_next (h.quiet hc hr ht (j + 1) (by omega) (by omega)).2
    (Zipcpu.opIllegal_of_dbgv hc)

/-- Without an interrupt, the CC registers stay. -/
theorem DbgWrite.sameCc (hc : c.optPipelined = false) (hr : (i 0).iReset = true) (ht : 0 < t)
    (h : DbgWrite c s i t n k v) (hk : Harmless c s i t k v) (hkc : isCc k = false)
    (hint : ∀ m, t < m → m < n → (Zipcpu.gie (cpuAt c s i m) &&
      Zipcpu.pendingInterrupt (cpuAt c s i m)) = false) :
    ∀ m, t + 1 ≤ m → m ≤ n → Zipcpu.SameCc c (cpuAt c s i (t + 1)) (cpuAt c s i m) := by
  intro m hm
  induction m, hm using Nat.le_induction with
  | base => exact fun _ => ⟨rfl, rfl, rfl⟩
  | succ m hm ih =>
    intro hmn
    have hst := h.still hc hr ht m (by omega) (by omega)
    have hbreak : (cpuAt c s i m).breakEn = false := by
      obtain ⟨j, rfl⟩ : ∃ j, m = j + 1 := ⟨m - 1, by omega⟩
      have hx : (pinsAt c s i j).iHalt = true := (h.held j (by omega) (by omega)).1
      simp [cpuAt_succ, Zipcpu.nextBreakEn, hx]
    refine (ih (by omega)).trans (hst.sameCc_next ?_ ?_ ?_ ?_ hbreak ?_ ?_)
    · exact (h.quiet hc hr ht (m + 1) (by omega) hmn).1.rest
    · exact h.noCc hc hr ht hkc (by omega) (by omega)
    · exact hint m (by omega) (by omega)
    · exact (h.held m (by omega) (by omega)).1
    · exact h.reported hc hr ht (by omega) (by omega)
    · exact h.keepsPhase hc hr ht hk (by omega) (by omega)

/-! ### The next instruction -/

/-- Until the next instruction is decoded, the CPU is quiet and stands where the write left it. -/
theorem DbgWrite.stands_until (hc : c.optPipelined = false) (hr : (i 0).iReset = true) (ht : 0 < t)
    (h : DbgWrite c s i t n k v) (hk : Harmless c s i t k v) {m : ℕ} (hres : Resumes c s i n m) :
    ∀ j, t + 2 ≤ j → j ≤ m → Quiet c (Clocked.run (next c) s i j) ∧
      Zipcpu.Stands c (cpuAt c s i) j ∧
      ∀ user, Zipcpu.pcWord (cpuAt c s i j) user = Zipcpu.pcWord (cpuAt c s i (t + 2)) user := by
  have hn := h.landed
  intro j hj
  induction j, hj using Nat.le_induction with
  | base =>
    exact fun _ => ⟨(h.quiet hc hr ht (t + 2) (by omega) hn).1, h.stands hc hr ht hk, fun _ => rfl⟩
  | succ j hj ih =>
    intro hjm
    obtain ⟨hq, hstands, hpc⟩ := ih (by omega)
    -- neither in the time it is held nor after it is the CPU reset or written to
    have hfree : (i j).iReset = false ∧ (i (j - 1)).iDbgWe = false := by
      rcases Nat.lt_or_ge j n with hlt | hge
      · exact ⟨(h.held j (by omega) hlt).2, h.alone (j - 1) (by omega) (by omega)⟩
      · refine ⟨(hres.alone j hge (by omega)).1, ?_⟩
        rcases Nat.lt_or_ge (j - 1) n with hlt | hge'
        · exact h.alone (j - 1) (by omega) hlt
        · exact (hres.alone (j - 1) hge' (by omega)).2
    have hst := still_of_quiet hc hq hfree.1
    have hw : (cpuAt c s i j).dbgv = false := by
      have := dbgv_of_alone (c := c) (s := s) hfree.2
      rwa [Nat.sub_add_cancel (by omega)] at this
    have hd : Zipcpu.dcdValid (cpuAt c s i (j + 1)) = false := by
      rcases Nat.lt_or_ge n (j + 1) with hlt | hge
      · exact hres.still (j + 1) (by omega) hjm
      · exact (h.quiet hc hr ht (j + 1) (by omega) hge).2
    refine ⟨quiet_next hc hq ?_, hstands.succ hst rfl hw hd, fun user => ?_⟩
    · rcases hstands.empty with he | he
      · exact Or.inr he
      · exact Or.inl (Zipcpu.issue_of_held hq.rest.aluPhase (Or.inr he.opValid))
    · rw [← hpc user]
      exact hst.pcWord_of_noWrite hw user

theorem DbgWrite.resumes (hc : c.optPipelined = false) (hr : (i 0).iReset = true) (ht : 0 < t)
    (h : DbgWrite c s i t n k v) (hk : Harmless c s i t k v) {m : ℕ} (hres : Resumes c s i n m) :
    Zipcpu.HeadsFor c (cpuAt c s i) m
        (Zipcpu.pcWord (cpuAt c s i m) (Zipcpu.gie (cpuAt c s i m))) ∧
      (cpuAt c s i m).opValid = false ∧
      ∀ user, Zipcpu.pcWord (cpuAt c s i m) user =
        if isPc k && k.getLsbD 4 == user then v.extractLsb' 2 AW
        else Zipcpu.pcWord (cpuAt c s i (t + 1)) user := by
  have hn := h.landed
  have hnm := hres.le
  obtain ⟨-, hstands, hpc⟩ := h.stands_until hc hr ht hk hres m (by omega) (le_refl m)
  -- the decoder takes a word in, so nothing is being cleared
  have hin : (Zipcpu.decodeIn c (cpuAt c s i m) (pinsAt c s i m)).iReset = false := by
    have hd := hres.decodes
    cases hrst : (Zipcpu.decodeIn c (cpuAt c s i m) (pinsAt c s i m)).iReset
    · rfl
    · simp [cpuAt_succ, Zipcpu.dcdValid, Idecode.nextValid, hrst] at hd
  have hclr : Zipcpu.clearPipeline (cpuAt c s i m) = false ∧
      Zipcpu.wClearIcache (cpuAt c s i m) = false := by
    simp only [Zipcpu.decodeIn, Bool.or_eq_false_iff] at hin
    exact ⟨hin.1.2, hin.2⟩
  refine ⟨?_, ?_, fun user => ?_⟩
  · rcases hstands.heads with hh | hh
    · rw [hclr.2] at hh
      cases hh
    · exact hh
  · rcases hstands.empty with he | he
    · have hclr1 : (cpuAt c s i m).newPc = false := hclr.1
      rw [hclr1] at he
      cases he
    · exact he.opValid
  · rw [hpc user]
    exact (h.still hc hr ht (t + 1) (by omega) (by omega)).pcWord_lands (h.lands hc) user

/-- **A debug write to the halted CPU writes the register it names and nothing else.** -/
theorem dbg_write_only (hc : c.optPipelined = false) (hAW : AW ≤ 30) (hr : (i 0).iReset = true)
    (ht : 0 < t) (h : DbgWrite c s i t n k v) (hk : Harmless c s i t k v) :
    OnlyWrote c s i t n k v := by
  have hn := h.landed
  refine ⟨fun hkc => ?_, fun hkc m hm hmn hreg hreg' => ?_, fun hkc q hq hqc => ?_,
    fun hkc => ?_, fun hkc hint => ?_, fun m hres => ?_⟩
  · exact (h.value hc hAW hr ht hk hkc n hn (le_refl n)).1
  · -- the register file is read on one clock, the program counters on the next
    have hreg₁ : (pinsAt c s i m).iDbgReg = k := hreg
    have hreg₂ : (pinsAt c s i (m + 1)).iDbgReg = k := hreg'
    have hkc' : (k.extractLsb' 0 4 == ccReg) = false := hkc
    rw [cpuAt_succ, Zipcpu.next_oDbgReg, Zipcpu.nextDbgReg, hreg₂, hkc']
    cases hpc : isPc k
    · have hpc' : (k.extractLsb' 0 4 == pcReg) = false := hpc
      have hpre : (cpuAt c s i (m + 1)).preDbgReg = v := by
        rw [cpuAt_succ, Zipcpu.next_preDbgReg, hreg₁]
        exact (h.value hc hAW hr ht hk hkc m hm (by omega)).2 hpc
      simp [hpc', hpre]
    · have hpc' : (k.extractLsb' 0 4 == pcReg) = true := hpc
      have hread := (h.value hc hAW hr ht hk hkc (m + 1) (by omega) (by omega)).1
      rw [Zipcpu.dbgRead, hpc, if_pos rfl] at hread
      rw [hpc', if_pos rfl]
      exact hread
  · exact (h.frame hc hr ht hk hkc n (by omega) (le_refl n)).1 q hq hqc
  · exact (h.frame hc hr ht hk hkc n (by omega) (le_refl n)).2.2
  · have hcc := h.sameCc hc hr ht hk hkc hint n (by omega) (le_refl n)
    refine ⟨hcc.gie, fun q hqc => Zipcpu.dbgRead_cc hqc hcc ?_⟩
    refine (h.frame hc hr ht hk hkc n (by omega) (le_refl n)).2.1 q ?_
    rintro rfl
    rw [hkc] at hqc
    cases hqc
  · obtain ⟨hheads, hov, hpc⟩ := h.resumes hc hr ht hk hres
    exact ⟨_, rfl, hpc _, hheads, hov⟩

end

/-! ## Two writes -/

/-- A debugger that halts the CPU from clock 12 to clock 31 and writes `v` to register `k` on
    clock 22. -/
def dbgControls (k : BitVec 5) (v : BitVec 32) (n : ℕ) : Controls :=
  { Controls.quiet with
    iReset := n == 0, iHalt := 12 ≤ n && n < 32, iDbgWe := n == 22, iDbgReg := k, iDbgData := v }

/-- `LDI n,R1` again and again. -/
def countProg : List (BitVec 32) := [0x0e000001#32, 0x0e000002#32, 0x0e000003#32, 0x0e000004#32]

/-- What this repository's CPU sees under that debugger. -/
def dbgPins (k : BitVec 5) (v : BitVec 32) : ℕ → SysIn :=
  Board.pins (zipConfig 0#21) true (Board.init (zipConfig 0#21) countProg) (dbgControls k v)

/-- The debugger keeps the CPU halted and leaves it alone, whatever it writes. -/
theorem dbgPins_held (k : BitVec 5) (v : BitVec 32) (m : ℕ) (hm : 22 ≤ m) (hmn : m < 32) :
    ((dbgPins k v m).iHalt = true ∧ (dbgPins k v m).iReset = false) ∧
      (22 < m → (dbgPins k v m).iDbgWe = false) := by
  refine ⟨⟨?_, ?_⟩, fun hlt => ?_⟩
  · show (decide (12 ≤ m) && decide (m < 32)) = true
    simp only [Bool.and_eq_true, decide_eq_true_eq]
    omega
  · show (m == 0) = false
    rw [beq_eq_false_iff_ne]
    omega
  · show (m == 22) = false
    rw [beq_eq_false_iff_ne]
    omega

theorem dbg_write_only_r5 :
    OnlyWrote (zipConfig 0#21) (Sys.init (zipConfig 0#21)) (dbgPins 5#5 7#32) 22 32 5#5 7#32 := by
  refine dbg_write_only rfl (by decide) rfl (by decide)
    ⟨by decide +kernel, rfl, rfl, rfl, fun m hm hmn => (dbgPins_held _ _ m hm hmn).1,
      fun m hm hmn => (dbgPins_held _ _ m (by omega) hmn).2 hm, by decide, by decide⟩
    ⟨⟨by decide, by decide, ?_, ?_⟩, by decide⟩
  · intro h
    exact absurd h (by decide +kernel)
  · intro h
    exact absurd h (by decide +kernel)

/-- Writing the user's program counter while the supervisor is halted sends the supervisor there. -/
theorem dbg_write_upc_jumps :
    ¬ ∀ (s : BonesCpu 0#21) (i : ℕ → SysIn) (t n : ℕ) (k : BitVec 5) (v : BitVec 32),
        (i 0).iReset = true → 0 < t → DbgWrite (zipConfig 0#21) s i t n k v →
        OnlyWrote (zipConfig 0#21) s i t n k v := by
  intro h
  have hw := h (Sys.init (zipConfig 0#21)) (dbgPins 31#5 64#32) 22 32 31#5 64#32 rfl (by decide)
    ⟨by decide +kernel, rfl, rfl, rfl, fun m hm hmn => (dbgPins_held _ _ m hm hmn).1,
      fun m hm hmn => (dbgPins_held _ _ m (by omega) hmn).2 hm, by decide, by decide⟩
  obtain ⟨pc, hpc, -, ⟨j, hj, hnew, hto, hlast⟩, -⟩ := hw.resumes 32
    ⟨le_refl 32, fun j _ _ => by omega, fun j _ _ => by
      have hj : j = 32 := by omega
      subst hj
      decide +kernel, by decide +kernel⟩
  -- the last jump is that of clock 24, to the word 16, and the supervisor stands at the word 2
  have hno : ∀ j < 33, Zipcpu.pfNewPc (zipConfig 0#21)
        (cpuAt (zipConfig 0#21) (Sys.init (zipConfig 0#21)) (dbgPins 31#5 64#32) j) = true →
      wordOf (Zipcpu.pfRequestAddress (zipConfig 0#21)
        (cpuAt (zipConfig 0#21) (Sys.init (zipConfig 0#21)) (dbgPins 31#5 64#32) j)) =
        Zipcpu.pcWord (cpuAt (zipConfig 0#21) (Sys.init (zipConfig 0#21)) (dbgPins 31#5 64#32) 32)
          (Zipcpu.gie (cpuAt (zipConfig 0#21) (Sys.init (zipConfig 0#21)) (dbgPins 31#5 64#32) 32)) →
      j < 24 := by
    decide +kernel
  have hlt := hno j (by omega) hnew (hto.trans hpc)
  exact absurd (hlast 24 hlt (by omega)) (by decide +kernel)

end Sys

end ZipStormMX.Cpu
