/-
  The jump that follows a debug write.

  `dbg_clear_pipe` makes the CPU jump to where its program stands.  `pfpcsrc` does not always jump
  there: it takes the written value for the next fetch address whichever of the two program counters
  it was meant for, and it tests `dbg_clear_pipe` before it tests whether this very write enters user
  mode.  `KeepsCourse` is what a write must meet for the CPU to stand, afterwards, at the program
  counter of its mode.
-/
import ZipStormMX.Cpu.DebugPort

namespace ZipStormMX.Cpu.Zipcpu

variable {AW : ℕ} {c : CpuCfg AW} {s : Zipcpu AW} {x : CpuIn AW}

/-! ### The jumps -/

/-- Decode and operand stage are empty, and no branch is being taken. -/
structure Empty (c : CpuCfg AW) (s : Zipcpu AW) : Prop where
  dcdValid : dcdValid s = false
  opValid : s.opValid = false
  phase : dcdPhase c s = false
  branch : dcdEarlyBranch c s = false
  branchStb : dcdEarlyBranchStb c s = false
  ljmp : dcdLjmp c s = false

/-- A cleared pipeline is empty. -/
theorem empty_of_clear (h : clearPipeline s = true) : Empty c (next c s x) := by
  have hr : (decodeIn c s x).iReset = true := by simp [decodeIn, h]
  constructor
  · simp [Zipcpu.dcdValid, Idecode.nextValid, hr]
  · simp [nextOpValid, nextOpFlag, h]
  · simp [dcdPhase, Idecode.oPhase, Idecode.nextPhase, hr]
  · simp [dcdEarlyBranch, Idecode.oEarlyBranch, Idecode.nextEarlyBranch, hr]
  · simp [dcdEarlyBranchStb, Idecode.oEarlyBranchStb, Idecode.nextEarlyBranchStb, hr]
  · simp [dcdLjmp, Idecode.oLjmp, Idecode.nextLjmp, hr]

/-- It stays so until the decoder takes in a word. -/
theorem empty_next (hc : c.optPipelined = false) (h : Empty c s)
    (hd : dcdValid (next c s x) = false) : Empty c (next c s x) := by
  have hpipe : c.decode.optPipelined = false := hc
  have hph : s.dcd.oPhase c.decode = false := h.phase
  have hbr : s.dcd.oEarlyBranch c.decode = false := h.branch
  have hst : s.dcd.oEarlyBranchStb c.decode = false := h.branchStb
  have hlj : s.dcd.oLjmp c.decode = false := h.ljmp
  have hov : (next c s x).opValid = false := by
    have hce : opCe c s x = false := by
      simp [opCe, hc, h.dcdValid, dcdEarlyBranch, hbr]
    simp [nextOpValid, nextOpFlag, hce, h.opValid]
  cases hr : (decodeIn c s x).iReset
  · -- no word was there to take, or the decoder was stalled
    have hin : (decodeIn c s x).iCe = true → s.dcd.pfValid c.decode (decodeIn c s x) = false := by
      intro hce
      have hns : (decodeIn c s x).iStalled = false := by
        simpa [decodeIn, dcdCe, hc] using hce
      have hv : s.dcd.nextValid c.decode (decodeIn c s x) = false := hd
      simpa [Idecode.nextValid, hr, hpipe, hns, hph, hlj] using hv
    cases hce : (decodeIn c s x).iCe
    · refine ⟨hd, hov, ?_, ?_, ?_, ?_⟩
      · simpa [dcdPhase, Idecode.oPhase, Idecode.nextPhase, hr, hce, hlj] using hph
      · simpa [dcdEarlyBranch, Idecode.oEarlyBranch, Idecode.nextEarlyBranch, hr, hce] using hbr
      · simp [dcdEarlyBranchStb, Idecode.oEarlyBranchStb, Idecode.nextEarlyBranchStb, hr, hce]
      · simpa [dcdLjmp, Idecode.oLjmp, Idecode.nextLjmp, hr, hce] using hlj
    · have hpv := hin hce
      refine ⟨hd, hov, ?_, ?_, ?_, ?_⟩
      · simp [dcdPhase, Idecode.oPhase, Idecode.nextPhase, hr, hce, hpv]
      · simp [dcdEarlyBranch, Idecode.oEarlyBranch, Idecode.nextEarlyBranch, hr, hce, hpv]
      · simp [dcdEarlyBranchStb, Idecode.oEarlyBranchStb, Idecode.nextEarlyBranchStb, hr, hce, hpv]
      · simpa [dcdLjmp, Idecode.oLjmp, Idecode.nextLjmp, hr, hce, hpv, hst, hph] using hlj
  · refine ⟨hd, hov, ?_, ?_, ?_, ?_⟩
    · simp [dcdPhase, Idecode.oPhase, Idecode.nextPhase, hr]
    · simp [dcdEarlyBranch, Idecode.oEarlyBranch, Idecode.nextEarlyBranch, hr]
    · simp [dcdEarlyBranchStb, Idecode.oEarlyBranchStb, Idecode.nextEarlyBranchStb, hr]
    · simp [dcdLjmp, Idecode.oLjmp, Idecode.nextLjmp, hr]

/-- The last jump the fetch unit was told of, up to clock `n`, was to the word `a`. -/
def HeadsFor (c : CpuCfg AW) (r : ℕ → Zipcpu AW) (n : ℕ) (a : BitVec AW) : Prop :=
  ∃ j, j ≤ n ∧ pfNewPc c (r j) = true ∧ wordOf (pfRequestAddress c (r j)) = a ∧
    ∀ m, j < m → m ≤ n → pfNewPc c (r m) = false

theorem headsFor_of_newPc {r : ℕ → Zipcpu AW} {n : ℕ} (h : (r n).newPc = true) :
    HeadsFor c r n (wordOf (r n).pfPc) := by
  refine ⟨n, le_refl n, by simp [pfNewPc, h], ?_, fun m hj hm => by omega⟩
  simp [pfRequestAddress, clearPipeline, h]

/-- A clock without a jump changes nothing. -/
theorem HeadsFor.succ {r : ℕ → Zipcpu AW} {n : ℕ} {a : BitVec AW} (h : HeadsFor c r n a)
    (hn : pfNewPc c (r (n + 1)) = false) : HeadsFor c r (n + 1) a := by
  obtain ⟨j, hj, hp, ha, hno⟩ := h
  refine ⟨j, by omega, hp, ha, fun m hm hmn => ?_⟩
  rcases Nat.lt_or_ge n m with hlt | hge
  · have : m = n + 1 := by omega
    rw [this]
    exact hn
  · exact hno m hm hge

/-- The CPU stands at the program counter of its mode: it has jumped there and decoded nothing
    since, or it is about to, because the caches are being cleared. -/
structure Stands (c : CpuCfg AW) (r : ℕ → Zipcpu AW) (n : ℕ) : Prop where
  empty : (r n).newPc = true ∨ Empty c (r n)
  heads : wClearIcache (r n) = true ∨ HeadsFor c r n (pcWord (r n) (gie (r n)))

theorem Still.noCc_of_noWrite (h : Still c s x) (hw : s.dbgv = false) : NoCc c s x := by
  simp [NoCc, h.wrRegCe_eq, hw]

theorem Still.pcWord_of_noWrite (h : Still c s x) (hw : s.dbgv = false) (user : Bool) :
    pcWord (next c s x) user = pcWord s user := by
  simp [h.pcWord_next, writesPc, h.wrRegCe_eq, hw]

/-- **Without a write,** the CPU jumps only to the program counter of its mode. -/
theorem Still.jump_next (h : Still c s x) (hw : s.dbgv = false) (hj : nextNewPc c s x = true) :
    wordOf (nextPfPc c s x) = pcWord (next c s x) (gie (next c s x)) := by
  have hcc := h.noCc_of_noWrite hw
  rw [h.pcWord_of_noWrite hw, h.gie_next hcc]
  simp only [nextNewPc, h.reset, h.switch hcc, hcc.release, h.wrRegCe_eq, hw, Bool.false_and,
    Bool.false_or, Bool.false_eq_true, if_false] at hj
  simp only [nextPfPc, h.reset, h.switch hcc, hcc.release, h.wrRegCe_eq, hw, Bool.and_false,
    Bool.false_and, Bool.false_or, Bool.false_eq_true, if_false, pcWord]
  cases hg : gie s <;> cases hp : pendingInterrupt s <;> cases hi : wClearIcache s <;>
    cases hd : s.dbgClearPipe <;> simp_all [wordOf_byteAddr]

theorem Still.noJump_next (h : Still c s x) (hw : s.dbgv = false) (hj : nextNewPc c s x = false) :
    wClearIcache s = false ∧
      pcWord (next c s x) (gie (next c s x)) = pcWord s (gie s) := by
  have hcc := h.noCc_of_noWrite hw
  rw [h.pcWord_of_noWrite hw, h.gie_next hcc]
  simp only [nextNewPc, h.reset, h.switch hcc, hcc.release, h.wrRegCe_eq, hw, Bool.false_and,
    Bool.false_or, Bool.false_eq_true, if_false] at hj
  cases hg : gie s <;> cases hp : pendingInterrupt s <;> cases hi : wClearIcache s <;> simp_all

/-- **One clock on,** it still stands there. -/
theorem Stands.succ {r : ℕ → Zipcpu AW} {n : ℕ} (hst : Stands c r n) (h : Still c (r n) x)
    (hnext : r (n + 1) = next c (r n) x) (hw : (r n).dbgv = false)
    (hd : dcdValid (r (n + 1)) = false) : Stands c r (n + 1) := by
  have hempty : (r (n + 1)).newPc = true ∨ Empty c (r (n + 1)) := by
    right
    rw [hnext] at hd ⊢
    rcases hst.empty with he | he
    · exact empty_of_clear he
    · exact empty_next h.pipe he hd
  refine ⟨hempty, ?_⟩
  cases hj : nextNewPc c (r n) x
  · obtain ⟨hclr, hpc⟩ := h.noJump_next hw hj
    have hheads : HeadsFor c r n (pcWord (r n) (gie (r n))) := by
      rcases hst.heads with hh | hh
      · rw [hclr] at hh
        cases hh
      · exact hh
    right
    rw [← hpc, ← hnext] at hheads
    refine hheads.succ ?_
    have hnj : (r (n + 1)).newPc = false := by
      rw [hnext]
      exact hj
    rcases hempty with he | he
    · rw [hnj] at he
      cases he
    · simp [pfNewPc, hnj, he.branchStb]
  · right
    have hnj : (r (n + 1)).newPc = true := by
      rw [hnext]
      exact hj
    have hpf : (r (n + 1)).pfPc = nextPfPc c (r n) x := by
      rw [hnext]
      rfl
    have := headsFor_of_newPc (c := c) hnj
    rwa [hpf, h.jump_next hw hj, ← hnext] at this

/-! ### The clock on which a write lands -/

variable {k : BitVec 5} {v : BitVec 32}

/-- What the jump needs of a write of `v` to register `k` that lands in state `s`. -/
structure KeepsCourse (c : CpuCfg AW) (r : ℕ → Zipcpu AW) (t : ℕ) (x : CpuIn AW) (k : BitVec 5)
    (v : BitVec 32) : Prop where
  pc : isPc k = true → (r t).dbgClearPipe = true →
    k.getLsbD 4 = (gie (r t) && !pendingInterrupt (r t)) ∨
      v.extractLsb' 2 AW = pcWord (r t) (gie (r t) && !pendingInterrupt (r t))
  cleared : isPc k = true → k.getLsbD 4 = gie (r t) → (r t).dbgClearPipe = false →
    wClearIcache (r t) = true → v.extractLsb' 2 AW = pcWord (r t) (gie (r t))
  release : entersUser (r t) x k v = true →
    ((r t).dbgClearPipe = true ∨ wClearIcache (r t) = true) →
    v.getLsbD clrcacheBit = true ∨ pcWord (r t) false = pcWord (r t) true
  heading : (r t).dbgClearPipe = false → wClearIcache (r t) = false →
    (isPc k && k.getLsbD 4 == gie (r t)) = false → entersUser (r t) x k v = false →
    leavesUser (r t) k v = false → (k == 0#1 ++ ccReg && v.getLsbD clrcacheBit) = false →
    HeadsFor c r t (pcWord (r t) (gie (r t)))

theorem cc_of_entersUser (h : entersUser s x k v = true) : isPc k = false ∧ gie s = false := by
  simp only [entersUser, Bool.and_eq_true, Bool.not_eq_true', beq_iff_eq] at h
  exact ⟨by rw [h.2.2]; decide, h.1.1⟩

theorem not_leavesUser_of_pc (h : isPc k = true) : leavesUser s k v = false := by
  cases hl : leavesUser s k v
  · rfl
  · simp only [leavesUser, Bool.and_eq_true, beq_iff_eq] at hl
    rw [hl.2.2] at h
    exact absurd h (by decide)

/-- The next fetch address, entry by entry. -/
theorem Still.pfPc_lands (h : Still c s x) (hl : Lands s k v) (hj : nextNewPc c s x = true) :
    wordOf (nextPfPc c s x) =
      if s.dbgClearPipe && isPc k then v.extractLsb' 2 AW
      else if ((gie s && pendingInterrupt s) || leavesUser s k v)
          || (!gie s && (wClearIcache s || s.dbgClearPipe)) then pcWord s false
      else if entersUser s x k v || (gie s && (wClearIcache s || s.dbgClearPipe)) then pcWord s true
      else v.extractLsb' 2 AW := by
  have hpc : wrWritePc s x = isPc k := by
    rw [wrWritePc, h.wrRegId_lands hl]
    rfl
  have hsp : wordOf (spregPc s x) = v.extractLsb' 2 AW := by
    rw [spregPc, h.wrSpregVl_lands hl, wordOf_byteAddr]
  simp only [nextNewPc, h.reset, h.switch_lands hl, h.release_lands hl, h.wrRegCe_lands hl,
    h.wrRegId_lands hl, hpc, Bool.false_or, Bool.true_and] at hj
  simp only [nextPfPc, h.reset, h.wrRegCe_lands hl, h.switch_lands hl, h.release_lands hl,
    h.wrRegId_lands hl, hpc, Bool.and_true, Bool.true_and, Bool.false_eq_true, if_false]
  split
  · exact hsp
  split
  · exact wordOf_byteAddr _ _
  split
  · exact wordOf_byteAddr _ _
  · rename_i hsw hrel
    simp only [Bool.or_eq_true, not_or, Bool.not_eq_true] at hsw hrel
    have hclr : (wClearIcache s || s.dbgClearPipe) = false := by
      cases hg : gie s
      · simpa [hg] using hsw.2
      · simpa [hg] using hrel.2
    have hown : (gie s == k.getLsbD 4 && isPc k) = true := by
      simpa [hsw.1.1, hsw.1.2, hrel.1, hclr] using hj
    rw [if_pos]
    · exact hsp
    · simp only [Bool.and_eq_true, beq_iff_eq] at hown ⊢
      exact ⟨hown.1.symm, hown.2⟩

/-- **The jump of the clock on which a write lands** goes to the program counter of the mode, or
    the caches are cleared next and another jump follows. -/
theorem Still.jump_lands {r : ℕ → Zipcpu AW} {t : ℕ} (h : Still c (r t) x) (hl : Lands (r t) k v)
    (hk : KeepsCourse c r t x k v)
    (hp : (r t).dbgClearPipe = false → pendingInterrupt (r t) = false)
    (hj : nextNewPc c (r t) x = true) :
    nextClearIcache c (r t) x = true ∨ wordOf (nextPfPc c (r t) x) =
      pcWord (next c (r t) x) (gie (next c (r t) x)) := by
  rw [h.pfPc_lands hl hj, h.gie_lands hl, h.pcWord_lands hl]
  cases hpc : isPc k
  · simp only [Bool.and_false, Bool.false_and, Bool.false_eq_true, if_false]
    cases hen : entersUser (r t) x k v
    · -- the mode stays, or it falls back to the supervisor's
      right
      cases hsw : (gie (r t) && pendingInterrupt (r t)) || leavesUser (r t) k v
      · have hclr : (wClearIcache (r t) || (r t).dbgClearPipe) = true := by
          simpa [nextNewPc, h.reset, h.switch_lands hl, h.release_lands hl, hsw, hen,
            wrWritePc, h.wrRegId_lands hl, show (k.extractLsb' 0 4 == pcReg) = false from hpc]
            using hj
        rw [hclr]
        cases hg : gie (r t)
        · simp
        · have hsw' := hsw
          simp only [hg, Bool.true_and, Bool.or_eq_false_iff] at hsw'
          simp [hsw'.1, hsw'.2]
      · have hg : gie (r t) = true := by
          cases hg : gie (r t)
          · simp [hg, leavesUser] at hsw
          · rfl
        simp only [hg, Bool.true_and, Bool.or_eq_true] at hsw
        rcases hsw with hsw | hsw <;> simp [hsw]
    · -- user mode is entered: what clears the pipeline takes the supervisor's program counter
      have hg := (cc_of_entersUser hen).2
      have hlv : leavesUser (r t) k v = false := by simp [leavesUser, hg]
      cases hclr : wClearIcache (r t) || (r t).dbgClearPipe
      · right
        simp [hg, hlv]
      · have hclr' : (r t).dbgClearPipe = true ∨ wClearIcache (r t) = true := by
          simpa [or_comm] using hclr
        rcases hk.release hen hclr' with hb | heq
        · left
          have hscc : wrWriteScc (r t) x = true := by
            simp only [entersUser, Bool.and_eq_true] at hen
            rw [wrWriteScc, h.wrRegId_lands hl]
            exact hen.2.2
          simp [nextClearIcache, h.reset, h.wrRegCe_lands hl, hscc, ccBit, h.wrSpregVl_lands hl, hb]
        · right
          simp [hg, hlv, heq]
  · right
    have hen : entersUser (r t) x k v = false := by
      cases hen : entersUser (r t) x k v
      · rfl
      · rw [(cc_of_entersUser hen).1] at hpc
        cases hpc
    have hlv : leavesUser (r t) k v = false := not_leavesUser_of_pc hpc
    simp only [hen, hlv, Bool.and_true, Bool.true_and, Bool.or_false, Bool.not_false, Bool.false_or,
      beq_iff_eq]
    cases hd : (r t).dbgClearPipe
    · have hpi := hp hd
      simp only [hpi, Bool.and_false, Bool.not_false, Bool.and_true, Bool.false_or, Bool.or_false,
        Bool.false_eq_true, if_false]
      cases hic : wClearIcache (r t)
      · have hown : k.getLsbD 4 = gie (r t) := by
          have : (gie (r t) == k.getLsbD 4) = true := by
            simpa [nextNewPc, h.reset, h.switch_lands hl, h.release_lands hl, hpi, hlv, hen, hic,
              hd, wrWritePc, h.wrRegId_lands hl,
              show (k.extractLsb' 0 4 == pcReg) = true from hpc, h.wrRegCe_lands hl] using hj
          exact (beq_iff_eq.mp this).symm
        rw [if_neg (by simp), if_neg (by simp), if_pos hown]
      · have hold : k.getLsbD 4 = gie (r t) → v.extractLsb' 2 AW = pcWord (r t) (gie (r t)) :=
          fun h4 => hk.cleared hpc h4 hd hic
        have hgo : (if (!gie (r t) && true) = true then pcWord (r t) false
            else if (gie (r t) && true) = true then pcWord (r t) true else v.extractLsb' 2 AW)
            = pcWord (r t) (gie (r t)) := by
          cases gie (r t) <;> rfl
        rw [hgo]
        split
        · rename_i h4
          exact (hold h4).symm
        · rfl
    · rw [if_pos rfl]
      split
      · rfl
      · rename_i hne
        rcases hk.pc hpc hd with h4 | hv
        · exact absurd h4 hne
        · exact hv

/-- A landing write without a jump moves neither the mode nor its program counter. -/
theorem Still.noJump_lands (h : Still c s x) (hl : Lands s k v) (hj : nextNewPc c s x = false) :
    s.dbgClearPipe = false ∧ wClearIcache s = false ∧ (isPc k && k.getLsbD 4 == gie s) = false ∧
      entersUser s x k v = false ∧ leavesUser s k v = false ∧
      pcWord (next c s x) (gie (next c s x)) = pcWord s (gie s) := by
  have hpc : wrWritePc s x = isPc k := by
    rw [wrWritePc, h.wrRegId_lands hl]
    rfl
  simp only [nextNewPc, h.reset, h.switch_lands hl, h.release_lands hl, h.wrRegCe_lands hl,
    h.wrRegId_lands hl, hpc, Bool.false_or, Bool.true_and] at hj
  have hclr : wClearIcache s = false ∧ s.dbgClearPipe = false := by grind
  have hsw : (gie s && pendingInterrupt s) = false ∧ leavesUser s k v = false := by grind
  have hen : entersUser s x k v = false := by grind
  have hown : (isPc k && k.getLsbD 4 == gie s) = false := by grind
  have hg : gie (next c s x) = gie s := by
    rw [h.gie_lands hl, hen, hsw.2]
    cases hg : gie s
    · rfl
    · have hp := hsw.1
      rw [hg, Bool.true_and] at hp
      rw [hp]
      rfl
  refine ⟨hclr.2, hclr.1, hown, hen, hsw.2, ?_⟩
  rw [hg, h.pcWord_lands hl, hown, if_neg (by simp)]

/-- **After the write** the CPU stands at the program counter of its mode. -/
theorem Still.stands_lands {r : ℕ → Zipcpu AW} {t : ℕ} (h : Still c (r t) x) (hl : Lands (r t) k v)
    (hk : KeepsCourse c r t x k v) (hnext : r (t + 1) = next c (r t) x)
    (hp : (r t).dbgClearPipe = false → pendingInterrupt (r t) = false ∧ Empty c (r t))
    (hd : dcdValid (r (t + 1)) = false) : Stands c r (t + 1) := by
  cases hj : nextNewPc c (r t) x
  · obtain ⟨hdcp, hclr, hown, hen, hlv, hpc⟩ := h.noJump_lands hl hj
    have hnj : (r (t + 1)).newPc = false := by
      rw [hnext]
      exact hj
    have hempty : Empty c (r (t + 1)) := by
      rw [hnext] at hd ⊢
      exact empty_next h.pipe (hp hdcp).2 hd
    refine ⟨Or.inr hempty, ?_⟩
    cases hcc : k == 0#1 ++ ccReg && v.getLsbD clrcacheBit
    · right
      have hheads := hk.heading hdcp hclr hown hen hlv hcc
      rw [← hpc, ← hnext] at hheads
      exact hheads.succ (by simp [pfNewPc, hnj, hempty.branchStb])
    · left
      obtain ⟨hscc, hb⟩ := Bool.and_eq_true_iff.mp hcc
      have hscc' : wrWriteScc (r t) x = true := by
        rw [wrWriteScc, h.wrRegId_lands hl]
        exact hscc
      simp [hnext, wClearIcache, nextClearIcache, h.reset, h.wrRegCe_lands hl, hscc', ccBit,
        h.wrSpregVl_lands hl, hb]
  · have hnj : (r (t + 1)).newPc = true := by
      rw [hnext]
      exact hj
    refine ⟨Or.inl hnj, ?_⟩
    rcases h.jump_lands hl hk (fun hd => (hp hd).1) hj with hic | hpf
    · left
      rw [hnext]
      exact hic
    · right
      have hheads := headsFor_of_newPc (c := c) hnj
      rw [hnext, next_pfPc, hpf, ← hnext] at hheads
      exact hheads

end ZipStormMX.Cpu.Zipcpu
