/-
  The debug port: what a debug write does to the registers.

  A debug write takes two clocks: on the first the halted CPU takes register number and value into
  `alu_reg` and `dbg_val`, on the second `wr_index` points the write-back at them.  `Still` is a clock
  on which only such a write can change a register, and `Lands` the clock on which one does.
-/
import ZipStormMX.Cpu.Halted

namespace ZipStormMX.Cpu

variable {AW : ℕ}

/-- The register is one of the CC registers. -/
def isCc (r : BitVec 5) : Bool := r.extractLsb' 0 4 == ccReg

/-- The register is one of the program counters. -/
def isPc (r : BitVec 5) : Bool := r.extractLsb' 0 4 == pcReg

namespace Zipcpu

variable {c : CpuCfg AW} {s : Zipcpu AW} {x : CpuIn AW}

/-- The program counter of a mode, as a word address. -/
def pcWord (s : Zipcpu AW) (user : Bool) : BitVec AW := wordOf (if user then upc s else s.ipc)

/-- What the debugger reads from register `r`. -/
def dbgRead (c : CpuCfg AW) (s : Zipcpu AW) (r : BitVec 5) : BitVec 32 :=
  if isPc r then debugPc c s (r.getLsbD 4)
  else if isCc r then debugCc c s (s.regset r) (r.getLsbD 4)
  else s.regset r

@[simp] theorem wordOf_byteAddr (w : BitVec AW) (lo : BitVec 2) : wordOf (byteAddr w lo) = w := by
  apply BitVec.eq_of_getLsbD_eq
  intro i hi
  rw [wordOf, byteAddr, BitVec.getLsbD_extractLsb', BitVec.getLsbD_append, decide_eq_true hi,
    Bool.true_and, if_neg (by omega)]
  exact congrArg w.getLsbD (by omega)

/-! ## One clock at rest -/

/-- A clock without reset on which nothing but the debugger can write. -/
structure Still (c : CpuCfg AW) (s : Zipcpu AW) (x : CpuIn AW) : Prop where
  pipe : c.optPipelined = false
  sane : Sane c s
  rest : Resting c s
  memBusy : x.memBusy = false
  memValid : x.memValid = false
  busErr : x.busErr = false
  reset : x.iReset = false

/-- The register file is written if the debugger writes. -/
theorem Still.wrRegCe_eq (h : Still c s x) : wrRegCe c s x = s.dbgv := by
  have hd := h.rest.divValid
  have ha := h.rest.aluValid
  have hidx : s.wrIndex.toNat ≠ 0 → s.dbgv = false := by
    intro hne
    cases hv : s.dbgv
    · rfl
    · rw [h.sane.port hv] at hne
      exact absurd rfl hne
  simp only [wrRegCe]
  split
  · rfl
  · rename_i h1
    rw [h.memValid, hidx (by omega)]
  · rename_i h3
    rw [hd, hidx (by omega)]
    simp
  · rename_i h4
    rw [hidx (by omega)]
    simp [fpuValid]
  · rename_i h0 _ _ _
    rw [ha, hidx h0]
    simp

theorem Still.wrRegId_eq (h : Still c s x) : wrRegId s x = s.aluReg := by
  simp [wrRegId, h.memValid]

theorem wrWriteCc_of_ucc (h : wrWriteUcc s x = true) : wrWriteCc s x = true := by
  simp only [wrWriteUcc, beq_iff_eq] at h
  rw [wrWriteCc, h]
  decide

theorem wrWriteCc_of_scc (h : wrWriteScc s x = true) : wrWriteCc s x = true := by
  simp only [wrWriteScc, beq_iff_eq] at h
  rw [wrWriteCc, h]
  decide

/-- No CC register is written on this clock. -/
def NoCc (c : CpuCfg AW) (s : Zipcpu AW) (x : CpuIn AW) : Prop :=
  (wrRegCe c s x && wrWriteCc s x) = false

theorem NoCc.ucc (h : NoCc c s x) : (wrRegCe c s x && wrWriteUcc s x) = false := by
  cases hu : wrWriteUcc s x
  · simp
  · have := wrWriteCc_of_ucc hu
    simpa [NoCc, this] using h

theorem NoCc.scc (h : NoCc c s x) : (wrRegCe c s x && wrWriteScc s x) = false := by
  cases hu : wrWriteScc s x
  · simp
  · have := wrWriteCc_of_scc hu
    simpa [NoCc, this] using h

theorem NoCc.release (h : NoCc c s x) : wReleaseFromInterrupt c s x = false := by
  have hs := h.scc
  simp only [wReleaseFromInterrupt]
  cases hr : wrRegCe c s x
  · simp
  · rw [hr, Bool.true_and] at hs
    simp [hs]

/-- A pending interrupt is all that can end user mode. -/
theorem Still.switch (h : Still c s x) (hcc : NoCc c s x) :
    wSwitchToInterrupt c s x = (gie s && pendingInterrupt s) := by
  have hl : busLock c s = false := by simp [busLock, hasLockLogic, h.pipe]
  have hw : (wrRegCe c s x && !ccBit s x gieBit && (wrRegId s x).getLsbD 4
      && wrWriteCc s x) = false := by
    have hcc' : (wrRegCe c s x && wrWriteCc s x) = false := hcc
    cases hr : wrRegCe c s x
    · simp
    · rw [hr, Bool.true_and] at hcc'
      simp [hcc']
  simp only [wSwitchToInterrupt, h.rest.aluPhase, hl, h.memBusy, h.rest.divError, fpuError,
    h.busErr, hw, Bool.not_false, Bool.and_true, Bool.or_false]

theorem Still.gie_next (h : Still c s x) (hcc : NoCc c s x) :
    gie (next c s x) = (gie s && !pendingInterrupt s) := by
  simp only [gie, next_rGie, nextGie, h.reset, Bool.false_eq_true, if_false, h.switch hcc,
    hcc.release]
  cases hg : s.rGie <;> cases hp : pendingInterrupt s <;> rfl

theorem Still.flags_next (h : Still c s x) (hcc : NoCc c s x) :
    (next c s x).flags = s.flags ∧ (next c s x).iflags = s.iflags := by
  simp [nextFlags, nextIflags, h.rest.wrFlagsCe, hcc.ucc, hcc.scc]

/-! ### The program counters -/

/-- A program counter is written, and it is the one of this mode. -/
def writesPc (c : CpuCfg AW) (s : Zipcpu AW) (x : CpuIn AW) (user : Bool) : Bool :=
  wrRegCe c s x && wrWritePc s x && (wrRegId s x).getLsbD 4 == user

theorem Still.pcWord_next (h : Still c s x) (user : Bool) : pcWord (next c s x) user =
    if writesPc c s x user then wordOf (spregPc s x) else pcWord s user := by
  have hs := h.rest.pcStrobe
  cases user
  · simp only [pcWord, next_ipc, nextIpc, h.reset, hs, writesPc, Bool.false_eq_true, if_false,
      Bool.and_false]
    cases wrRegCe c s x <;> cases wrWritePc s x <;>
      cases (wrRegId s x).getLsbD 4 <;> simp
  · simp only [pcWord, upc, next_rUpc, nextUpc, hs, writesPc, if_true, Bool.and_false]
    cases wrRegCe c s x <;> cases wrWritePc s x <;>
      cases (wrRegId s x).getLsbD 4 <;> simp

/-! ### The CC registers -/

/-- The parts of the CC registers are the same in both states, and no flags are being written. -/
structure SameCc (c : CpuCfg AW) (s s' : Zipcpu AW) : Prop where
  user : wUflags c s' = wUflags c s
  supervisor : wIflags c s' = wIflags c s
  gie : gie s' = gie s

theorem SameCc.trans {s₁ s₂ s₃ : Zipcpu AW} (h : SameCc c s₁ s₂) (h' : SameCc c s₂ s₃) :
    SameCc c s₁ s₃ where
  user := h'.user.trans h.user
  supervisor := h'.supervisor.trans h.supervisor
  gie := h'.gie.trans h.gie

/-- An illegal instruction in the operand stage has been reported. -/
def Reported (s : Zipcpu AW) : Prop :=
  s.opIllegal = true → clearPipeline s = false →
    if gie s then s.rIllErrU = true else s.illErrI = true

theorem Still.aluIllegal_eq (h : Still c s x) : aluIllegal c s = s.opIllegal := by
  simp [aluIllegal, h.pipe]

/-- The phase of the user's PC is part of the user's CC register as well.  It is not changed by a
    write to that PC that leaves it clear, if it was clear before. -/
theorem Still.uhaltPhase_next (h : Still c s x) (hcc : NoCc c s x)
    (hp : writesPc c s x true = true → uhaltPhase c s = false ∧ (wrSpregVl s x).getLsbD 1 = false) :
    uhaltPhase c (next c s x) = uhaltPhase c s := by
  have hv : aluPcValid c s = true → aluPhase c s = false := aluPhase_of_aluPcValid h.sane
  simp only [uhaltPhase, next_rUhaltPhase, nextUhaltPhase, h.reset, hcc.release, Bool.or_self,
    Bool.false_eq_true, if_false]
  split
  · rename_i hg
    obtain ⟨hg, hav⟩ := Bool.and_eq_true_iff.mp hg
    rw [hv hav, h.sane.uhalt hg]
  · split
    · rename_i hw
      simp only [Bool.and_eq_true, Bool.not_eq_true'] at hw
      obtain ⟨⟨⟨-, hre⟩, hpc⟩, h4⟩ := hw
      obtain ⟨h0, h1⟩ := hp (by simp only [writesPc, hre, hpc, h4]; rfl)
      rw [h1, ← h0, uhaltPhase]
      simp
    · rfl

/-- Without a write to a CC register and without an interrupt, the CC registers stay. -/
theorem Still.sameCc_next (h : Still c s x) (hr : Resting c (next c s x)) (hcc : NoCc c s x)
    (hint : (gie s && pendingInterrupt s) = false) (hx : x.iHalt = true) (hb : s.breakEn = false)
    (hrep : Reported s)
    (hp : writesPc c s x true = true → uhaltPhase c s = false ∧ (wrSpregVl s x).getLsbD 1 = false) :
    SameCc c s (next c s x) := by
  have hsw := h.switch hcc
  rw [hint] at hsw
  have hgie : gie (next c s x) = gie s := by
    rw [h.gie_next hcc]
    cases hg : gie s
    · rfl
    · rw [hg, Bool.true_and] at hint
      rw [hint]
      rfl
  obtain ⟨hfl, hifl⟩ := h.flags_next hcc
  have houter : outerUccWrite c s x = false := by
    have := hcc.ucc
    simp only [outerUccWrite, Bool.and_assoc, this, Bool.and_false]
  have huhalt := h.uhaltPhase_next hcc hp
  have hihalt : ihaltPhase c (next c s x) = ihaltPhase c s := by
    rw [ihaltPhase, ihaltPhase, (sane_next h.sane).ihalt, h.sane.ihalt]
  have hdbg : (s.dbgv && wrWriteScc s x) = false := by
    rw [← h.wrRegCe_eq]
    exact hcc.scc
  have hrel := hcc.release
  have hucc := hcc.ucc
  have hscc := hcc.scc
  have hstep : (next c s x).step = s.step := by
    simp only [next_step, nextStep, h.reset, Bool.false_eq_true, if_false]
    rw [if_neg]
    grind
  have hsleep : (next c s x).sleep = s.sleep := by
    have hcc' : (wrRegCe c s x && wrWriteCc s x) = false := hcc
    simp [nextSleep, h.reset, hsw, hcc']
  have htrap : trap (next c s x) = trap s := by
    simp only [trap, next_rTrap, nextTrap, h.reset, hrel, Bool.or_self, Bool.false_eq_true, if_false]
    grind
  have hubreak : ubreak (next c s x) = ubreak s := by
    simp [ubreak, nextUbreak, h.reset, hrel, hsw, houter]
  have hbus : ubusErrFlag (next c s x) = ubusErrFlag s := by
    simp [ubusErrFlag, nextUbusErrFlag, nextUErr, h.reset, hrel, houter, h.busErr]
  have hibus : (next c s x).ibusErrFlag = s.ibusErrFlag := by
    simp [nextIbusErrFlag, nextIErr, h.reset, hdbg, h.busErr]
  have hdiv : udivErrFlag c (next c s x) = udivErrFlag c s := by
    simp [udivErrFlag, nextUdivErrFlag, nextUErr, h.reset, hrel, houter, h.rest.divError]
  have hidiv : idivErrFlag c (next c s x) = idivErrFlag c s := by
    simp [idivErrFlag, nextIdivErrFlag, nextIErr, h.reset, hdbg, h.rest.divError]
  have hfpu : ufpuErrFlag c (next c s x) = ufpuErrFlag c s := by
    simp [ufpuErrFlag, nextUfpuErrFlag, h.reset, houter, fpuError]
  have hifpu : ifpuErrFlag c (next c s x) = ifpuErrFlag c s := by
    simp [ifpuErrFlag, nextIfpuErrFlag, nextIErr, h.reset, hdbg, fpuError]
  have hill : illErrU (next c s x) = illErrU s := by
    simp only [illErrU, next_rIllErrU, nextIllErrU, nextUErr, h.reset, hrel, houter, Bool.or_self,
      Bool.false_eq_true, if_false, h.aluIllegal_eq]
    split
    · rename_i he
      simp only [Bool.and_eq_true, Bool.not_eq_true'] at he
      have := hrep he.1.1 he.1.2
      rw [if_pos he.2] at this
      exact this.symm
    · rfl
  have hilli : (next c s x).illErrI = s.illErrI := by
    simp only [next_illErrI, nextIllErrI, nextIErr, h.reset, hdbg, Bool.false_eq_true, if_false,
      h.aluIllegal_eq]
    split
    · rename_i he
      simp only [Bool.and_eq_true, Bool.not_eq_true'] at he
      have := hrep he.1.1 he.1.2
      rw [if_neg (by simp [he.2])] at this
      exact this.symm
    · rfl
  have hbreak : (next c s x).breakEn = s.breakEn := by
    simp [nextBreakEn, hx, hb]
  refine ⟨?_, ?_, hgie⟩
  · simp only [wUflags, hr.wrFlagsCe, h.rest.wrFlagsCe, huhalt, hfpu, hdiv, hbus, htrap, hill,
      hubreak, hstep, hsleep, hfl, Bool.false_and]
    rfl
  · simp only [wIflags, hr.wrFlagsCe, h.rest.wrFlagsCe, hihalt, hifpu, hidiv, hibus, htrap, hilli,
      hbreak, hsleep, hifl, Bool.false_and]
    rfl

/-! ## The clock on which a write lands -/

theorem isUcc_eq : ∀ k : BitVec 5,
    (k.getLsbD 4 && (k.extractLsb' 0 4 == ccReg)) = (k == 1#1 ++ ccReg) := by
  decide

/-- The debugger's `v` is written to register `k` on this clock. -/
structure Lands (s : Zipcpu AW) (k : BitVec 5) (v : BitVec 32) : Prop where
  dbgv : s.dbgv = true
  reg : s.aluReg = k
  val : s.dbgVal = v

/-- The write of a supervisor's CC register that enters user mode. -/
def entersUser (s : Zipcpu AW) (x : CpuIn AW) (k : BitVec 5) (v : BitVec 32) : Bool :=
  !gie s && !x.iInterrupt && (v.getLsbD gieBit && k == 0#1 ++ ccReg)

/-- The write of a user's CC register that leaves user mode. -/
def leavesUser (s : Zipcpu AW) (k : BitVec 5) (v : BitVec 32) : Bool :=
  gie s && (!v.getLsbD gieBit && k == 1#1 ++ ccReg)

variable {k : BitVec 5} {v : BitVec 32}

theorem Still.wrRegCe_lands (h : Still c s x) (hl : Lands s k v) : wrRegCe c s x = true := by
  rw [h.wrRegCe_eq, hl.dbgv]

theorem Still.wrRegId_lands (h : Still c s x) (hl : Lands s k v) : wrRegId s x = k := by
  rw [h.wrRegId_eq, hl.reg]

theorem Still.wrSpregVl_lands (h : Still c s x) (hl : Lands s k v) : wrSpregVl s x = v := by
  simp [wrSpregVl, h.sane.port hl.dbgv, hl.val]

theorem Still.wrGpregVl_lands (h : Still c s x) (hl : Lands s k v) : wrGpregVl c s x = v := by
  simp [wrGpregVl, h.sane.port hl.dbgv, hl.val]

theorem Still.noCc_lands (h : Still c s x) (hl : Lands s k v) (hk : isCc k = false) :
    NoCc c s x := by
  have hcc : wrWriteCc s x = false := by
    rw [wrWriteCc, h.wrRegId_lands hl]
    exact hk
  simp [NoCc, hcc]

theorem Still.switch_lands (h : Still c s x) (hl : Lands s k v) :
    wSwitchToInterrupt c s x = ((gie s && pendingInterrupt s) || leavesUser s k v) := by
  have hb : busLock c s = false := by simp [busLock, hasLockLogic, h.pipe]
  simp only [wSwitchToInterrupt, h.rest.aluPhase, hb, h.memBusy, h.rest.divError, fpuError,
    h.busErr, h.wrRegCe_lands hl, ccBit, h.wrSpregVl_lands hl, wrWriteCc, h.wrRegId_lands hl,
    leavesUser, Bool.not_false, Bool.and_true, Bool.or_false, Bool.true_and]
  rw [← isUcc_eq, ← Bool.and_or_distrib_left, Bool.and_assoc]

theorem Still.release_lands (h : Still c s x) (hl : Lands s k v) :
    wReleaseFromInterrupt c s x = entersUser s x k v := by
  simp only [wReleaseFromInterrupt, h.wrRegCe_lands hl, ccBit, h.wrSpregVl_lands hl, wrWriteScc,
    h.wrRegId_lands hl, entersUser, Bool.true_and]

theorem Still.gie_lands (h : Still c s x) (hl : Lands s k v) : gie (next c s x) =
    ((gie s && !pendingInterrupt s && !leavesUser s k v) || entersUser s x k v) := by
  simp only [gie, next_rGie, nextGie, h.reset, h.switch_lands hl, h.release_lands hl,
    Bool.false_eq_true, if_false]
  cases hg : s.rGie
  · have hv : leavesUser s k v = false := by simp [leavesUser, gie, hg]
    cases entersUser s x k v <;> simp [hv]
  · have he : entersUser s x k v = false := by simp [entersUser, gie, hg]
    cases pendingInterrupt s <;> cases leavesUser s k v <;> simp [he]

theorem Still.pcWord_lands (h : Still c s x) (hl : Lands s k v) (user : Bool) :
    pcWord (next c s x) user =
      if isPc k && k.getLsbD 4 == user then v.extractLsb' 2 AW else pcWord s user := by
  simp only [h.pcWord_next, writesPc, h.wrRegCe_lands hl, wrWritePc, h.wrRegId_lands hl, spregPc,
    h.wrSpregVl_lands hl, wordOf_byteAddr, Bool.true_and]
  rfl

/-! ## What is read back -/

theorem isPc_of_isCc : ∀ r : BitVec 5, isCc r = true → isPc r = false := by
  decide

theorem eq_of_isPc : ∀ r : BitVec 5, isPc r = true → r = BitVec.ofBool (r.getLsbD 4) ++ pcReg := by
  decide

theorem dbgRead_cc {s' : Zipcpu AW} {r : BitVec 5} (hr : isCc r = true) (h : SameCc c s s')
    (hreg : s'.regset r = s.regset r) : dbgRead c s' r = dbgRead c s r := by
  simp only [dbgRead, isPc_of_isCc r hr, hr, if_true, debugCc, hreg, h.user, h.supervisor, h.gie,
    Bool.false_eq_true, if_false]

/-- What the debugger reads of a program counter. -/
theorem debugPc_eq (h : Sane c s) (user : Bool) : debugPc c s user =
    (byteAddr (pcWord s user) (BitVec.ofBool (user && uhaltPhase c s) ++ 0#1)).setWidth 32 := by
  cases user
  · simp [debugPc, pcWord, ihaltPhase, h.ihalt]
  · simp [debugPc, pcWord]

/-- A register other than the CC registers, and not the one that is written, reads as before. -/
theorem Still.dbgRead_next (h : Still c s x) (hcc : NoCc c s x) {q : BitVec 5}
    (hq : isCc q = false) (hne : wrRegCe c s x = true → q ≠ wrRegId s x)
    (hp : writesPc c s x true = true → uhaltPhase c s = false ∧ (wrSpregVl s x).getLsbD 1 = false) :
    dbgRead c (next c s x) q = dbgRead c s q := by
  cases hpc : isPc q
  · simp only [dbgRead, hpc, hq, next_regset, nextRegset, Bool.false_eq_true, if_false]
    rw [if_neg]
    intro hw
    obtain ⟨hw, he⟩ := Bool.and_eq_true_iff.mp hw
    exact hne hw (beq_iff_eq.mp he)
  · have hnw : writesPc c s x (q.getLsbD 4) = false := by
      cases hw : writesPc c s x (q.getLsbD 4)
      · rfl
      · simp only [writesPc, Bool.and_eq_true, beq_iff_eq] at hw
        have hid := eq_of_isPc (wrRegId s x) hw.1.2
        rw [hw.2, ← eq_of_isPc q hpc] at hid
        exact absurd hid.symm (hne hw.1.1)
    simp only [dbgRead, hpc, if_true, debugPc_eq h.sane, debugPc_eq (sane_next h.sane),
      h.pcWord_next, hnw,
      h.uhaltPhase_next hcc hp, Bool.false_eq_true, if_false]

/-- The word of an aligned address, and back. -/
theorem setWidth_byteAddr {v : BitVec 32} (hAW : AW ≤ 30) (h4 : v.toNat % 4 = 0)
    (hlt : v.toNat < 2 ^ (AW + 2)) :
    (byteAddr (v.extractLsb' 2 AW) 0#2).setWidth 32 = v := by
  apply BitVec.eq_of_toNat_eq
  have hw : v.toNat / 4 < 2 ^ AW := by
    rw [Nat.pow_add] at hlt
    omega
  have hle : (2 : ℕ) ^ (AW + 2) ≤ 2 ^ 32 := Nat.pow_le_pow_right (by decide) (by omega)
  have hin : (byteAddr (v.extractLsb' 2 AW) 0#2).toNat = v.toNat := by
    simp only [byteAddr, BitVec.toNat_append, BitVec.extractLsb'_toNat, BitVec.toNat_ofNat]
    rw [Nat.shiftRight_eq_div_pow, Nat.mod_eq_of_lt hw, Nat.shiftLeft_eq]
    simp
    omega
  rw [BitVec.toNat_setWidth, hin, Nat.mod_eq_of_lt (by omega)]

theorem aligned_bit {v : BitVec 32} (h4 : v.toNat % 4 = 0) : v.getLsbD 1 = false := by
  rw [BitVec.getLsbD, Nat.testBit_eq_decide_div_mod_eq]
  simp
  omega

/-- The phase of the user's PC after a write of an aligned address to it. -/
theorem Still.uhaltPhase_lands (h : Still c s x) (hl : Lands s k v) (hpc : isPc k = true)
    (h4 : k.getLsbD 4 = true) (hv : v.getLsbD 1 = false) :
    (next c s x).rUhaltPhase = false := by
  cases hg : s.rGie
  · have hpc' : wrWritePc s x = true := by
      rw [wrWritePc, h.wrRegId_lands hl]
      exact hpc
    have hv' : v[1] = false := hv
    simp [nextUhaltPhase, gie, hg, h.wrRegCe_lands hl, hpc', h.wrRegId_lands hl,
      h.wrSpregVl_lands hl, h4, hv']
  · have hp : aluPcValid c s = true → aluPhase c s = false := aluPhase_of_aluPcValid h.sane
    have hold := h.sane.uhalt hg
    simp only [next_rUhaltPhase, nextUhaltPhase, gie, hg]
    grind

/-- The register that is written reads as the value. -/
theorem Still.dbgRead_lands (h : Still c s x) (hl : Lands s k v) (hk : isCc k = false)
    (hAW : AW ≤ 30) (hv : isPc k = true → v.toNat % 4 = 0 ∧ v.toNat < 2 ^ (AW + 2)) :
    dbgRead c (next c s x) k = v := by
  cases hpc : isPc k
  · simp [dbgRead, hpc, hk, nextRegset, h.wrRegCe_lands hl, h.wrRegId_lands hl, h.wrGpregVl_lands hl]
  · obtain ⟨h4, hlt⟩ := hv hpc
    have hv0 := aligned_bit h4
    have hph : (k.getLsbD 4 && uhaltPhase c (next c s x)) = false := by
      cases hk4 : k.getLsbD 4
      · rfl
      · rw [uhaltPhase, h.uhaltPhase_lands hl hpc hk4 hv0, Bool.and_false, Bool.and_false]
    simp only [dbgRead, hpc, if_true, debugPc_eq (sane_next h.sane), h.pcWord_lands hl, hph, BEq.rfl,
      Bool.and_self]
    exact setWidth_byteAddr hAW h4 hlt

end Zipcpu

end ZipStormMX.Cpu
