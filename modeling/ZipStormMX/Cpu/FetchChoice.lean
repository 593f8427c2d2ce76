/-
  The two smaller fetch units as `zipcpu.v` connects them.

  `prefetch` is given byte addresses and gives them back.  `pipefetch` counts words, and `zipcpu.v`
  connects its word addresses to byte addresses: from one instruction to the next the program
  counter goes on by one, where the CPU expects four.
-/
import ZipStormMX.Cpu.Delivery
import ZipStormMX.Cpu.Pipefetch
import ZipStormMX.Cpu.Zipbones

namespace ZipStormMX.Cpu

variable {AW : ℕ}

/-- Two instructions are taken with neither jump nor reset nor clearing from the first to the
    second. -/
def TakesTwo (i : ℕ → FetchIn AW) (o : ℕ → FetchOut AW) : Prop :=
  ∃ n m, n < m ∧ (i n).taken (o n) = true ∧ (i m).taken (o m) = true ∧
    ∀ k, n ≤ k → k ≤ m → ((i k).iReset || (i k).iNewPc || (i k).iClearCache) = false

/-! ## pipefetch -/

namespace Pipefetch

variable {L : ℕ}

/-- The read address is that of the word shown, or the one behind it. -/
def Close (s : Pipefetch AW L) : Prop := s.rAddr = s.oPc ∨ s.rAddr = s.oPc + 1

/-- What comes after the word at `p` has been taken: that word again, or the one behind it. -/
structure Near (p : BitVec AW) (s : Pipefetch AW L) : Prop where
  hidden : s.rCv = false → s.rAddr = p ∨ s.rAddr = p + 1
  shown : s.rCv = true → s.oPc = p ∨ s.oPc = p + 1
  close : s.rCv = true → Close s

section Step

variable {s : Pipefetch AW L} {i : FetchIn AW}

/-- What the output registers and the read address do without a jump. -/
theorem step_cases (hnew : i.iNewPc = false) :
    ((next s i).rCv = (wCv s || (!i.iStallN && s.rCv))) ∧
    ((next s i).oPc = if !s.rCv || i.iStallN then s.rAddr else s.oPc) ∧
    ((next s i).rAddr = s.rAddr ∨
      (next s i).rAddr = s.rAddr + 1 ∧ wCv s = true ∧ (i.iStallN = true ∨ s.rAddr = s.oPc)) := by
  refine ⟨by simp [hnew], ?_, ?_⟩
  · cases hcv : s.rCv <;> cases hn : i.iStallN <;> simp [outCe, oV, hnew, hcv, hn]
  · rw [next_rAddr, nextRAddr, hnew]
    cases hn : i.iStallN <;> cases hw : wCv s <;> by_cases ha : s.rAddr = s.oPc <;> simp [ha]

theorem close_next (h : s.rCv = true → Close s) (hnew : i.iNewPc = false) :
    Close (next s i) := by
  obtain ⟨-, hpc, haddr⟩ := step_cases (s := s) hnew
  have hmoved : (next s i).rAddr = s.rAddr ∨ (next s i).rAddr = s.rAddr + 1 :=
    haddr.imp_right And.left
  unfold Close
  rw [hpc]
  cases hrcv : s.rCv
  · exact hmoved
  · cases hn : i.iStallN
    · -- the word shown stays, and the read address moves on from it once
      rcases haddr with haddr | ⟨haddr, -, hn' | ha⟩
      · rw [haddr]
        exact h hrcv
      · simp [hn] at hn'
      · rw [haddr, ha]
        exact .inr rfl
    · exact hmoved

/-- The first clock after the word at `p` has been taken. -/
theorem near_taken (h : Close s) (hn : i.iStallN = true)
    (hnew : i.iNewPc = false) : Near s.oPc (next s i) := by
  obtain ⟨hcv', hpc, haddr⟩ := step_cases (s := s) hnew
  have hpc' : (next s i).oPc = s.rAddr := by
    rw [hpc, hn]
    simp
  refine ⟨fun hoff => ?_, fun _ => ?_, fun _ => close_next (fun _ => h) hnew⟩
  · have hw : wCv s = false := by
      rw [hcv'] at hoff
      simpa [hn] using hoff
    rcases haddr with haddr | ⟨-, hw', -⟩
    · rw [haddr]
      exact h
    · simp [hw] at hw'
  · rw [hpc']
    exact h

/-- As long as nothing is taken. -/
theorem Near.next {p : BitVec AW} (h : Near p s) (hnew : i.iNewPc = false)
    (hno : s.rCv = true → i.iStallN = false) : Near p (next s i) := by
  obtain ⟨hcv', hpc, haddr⟩ := step_cases (s := s) hnew
  refine ⟨fun hoff => ?_, fun hon => ?_, fun _ => close_next h.close hnew⟩
  · have hw : wCv s = false ∧ s.rCv = false := by
      rw [hcv'] at hoff
      cases hrcv : s.rCv
      · simpa [hrcv] using hoff
      · simp [hrcv, hno hrcv] at hoff
    rcases haddr with haddr | ⟨-, hw', -⟩
    · rw [haddr]
      exact h.hidden hw.2
    · simp [hw.1] at hw'
  · rw [hpc]
    cases hrcv : s.rCv
    · simpa using h.hidden hrcv
    · simpa [hno hrcv] using h.shown hrcv

end Step

/-- Two byte addresses four apart are not two of these addresses. -/
theorem setWidth_add_four (hAW : 0 < AW) (p q : BitVec AW) (hq : q = p ∨ q = p + 1) :
    q.setWidth (AW + 2) ≠ p.setWidth (AW + 2) + 4 := by
  intro h
  have hpow : 2 ^ (AW + 2) = 4 * 2 ^ AW := by
    rw [Nat.pow_add, Nat.mul_comm]
  have htwo : 2 ^ 1 ≤ 2 ^ AW := Nat.pow_le_pow_right (by decide : 0 < 2) hAW
  have hp := p.isLt
  have hsum : q.toNat = (p.toNat + 4) % (4 * 2 ^ AW) := by
    have h' : q.toNat % (4 * 2 ^ AW) = (p.toNat + 4) % (4 * 2 ^ AW) := by
      simpa [BitVec.toNat_add, BitVec.toNat_setWidth, hpow] using congrArg BitVec.toNat h
    rwa [Nat.mod_eq_of_lt (by have := q.isLt; omega)] at h'
  have hq' : q.toNat = p.toNat ∨ q.toNat = (p.toNat + 1) % 2 ^ AW := by
    rcases hq with rfl | rfl
    · exact .inl rfl
    · right
      rw [BitVec.toNat_add]
      simp
  have hle : (p.toNat + 1) % 2 ^ AW ≤ p.toNat + 1 := Nat.mod_le _ _
  rw [Nat.mod_eq_of_lt (by omega)] at hsum
  omega

/-- The ports of a run of `pipefetch`. -/
def ports (s : ℕ → Pipefetch AW L) (i : ℕ → FetchIn AW) (n : ℕ) : FetchOut AW :=
  out (s n) (i n).iReset (i n).iNewPc (i n).iClearCache

section Run

variable {s : ℕ → Pipefetch AW L} {i : ℕ → FetchIn AW}

theorem taken_iff {n : ℕ}
    (hq : ((i n).iReset || (i n).iNewPc || (i n).iClearCache) = false) :
    (i n).taken (ports s i n) = true ↔ (s n).rCv = true ∧ (i n).iStallN = true := by
  simp only [Bool.or_eq_false_iff] at hq
  simp [FetchIn.taken, ports, out, oV, hq]

/-- From the second clock on, the read address keeps close to the word shown. -/
theorem close_run (hstep : ∀ n, s (n + 1) = next (s n) (i n)) (hjump : (i 1).iNewPc = true) :
    ∀ n, 2 ≤ n → (s n).rCv = true → Close (s n) := by
  intro n hn
  induction n, hn using Nat.le_induction with
  | base =>
    intro hcv
    rw [hstep] at hcv
    simp [hjump] at hcv
  | succ n _ ih =>
    intro hcv
    rw [hstep] at hcv ⊢
    cases hnew : (i n).iNewPc
    · exact close_next ih hnew
    · simp [hnew] at hcv

/-- **`pipefetch` does not deliver the program**: what it shows second is not four bytes after what
    it shows first. -/
theorem not_delivers {mem : BitVec AW → BitVec 32} (hAW : 0 < AW)
    (hstep : ∀ n, s (n + 1) = next (s n) (i n)) (hi : Driven i)
    (htwo : TakesTwo i (ports s i)) : ¬Delivers mem i (ports s i) := by
  intro hdel
  obtain ⟨n, m, hnm, hn, hm, hquiet⟩ := htwo
  have hjump : (i 1).iNewPc = true := hi.jumps 0 (.inl hi.reset)
  have hqn := hquiet n (Nat.le_refl n) (by omega)
  have htn := (taken_iff hqn).mp hn
  have hn2 : 2 ≤ n := by
    have h0 : n ≠ 0 := by
      rintro rfl
      simp [hi.reset] at hqn
    have h1 : n ≠ 1 := by
      rintro rfl
      simp [hjump] at hqn
    omega
  obtain ⟨pc, hdue, hpc, -⟩ := hdel n (by omega) hn
  -- the clocks up to the second instruction
  have hrun : ∀ k, n < k → k ≤ m → Near (s n).oPc (s k) ∧
      (Watch.seen i (ports s i) k).due = some (pc + 4) ∧ (i k).taken (ports s i k) = false := by
    have hno : ∀ k, n < k → k ≤ m → Near (s n).oPc (s k) →
        (Watch.seen i (ports s i) k).due = some (pc + 4) →
        (i k).taken (ports s i k) = false := by
      intro k hk hkm hnear hduek
      cases ht : (i k).taken (ports s i k)
      · rfl
      · obtain ⟨pc', hdue', hpc', -⟩ := hdel k (by omega) ht
        have htk := (taken_iff (hquiet k (by omega) hkm)).mp ht
        rw [hduek, Option.some.injEq] at hdue'
        have hfour : (s k).oPc.setWidth (AW + 2) = (s n).oPc.setWidth (AW + 2) + 4 := by
          calc (s k).oPc.setWidth (AW + 2) = pc' := hpc'
            _ = pc + 4 := hdue'.symm
            _ = (s n).oPc.setWidth (AW + 2) + 4 := by rw [← hpc]; rfl
        exact absurd hfour (setWidth_add_four hAW _ _ (hnear.shown htk.1))
    intro k hk
    induction k, hk using Nat.le_induction with
    | base =>
      intro hkm
      have hnear : Near (s n).oPc (s (n + 1)) := by
        rw [hstep]
        simp only [Bool.or_eq_false_iff] at hqn
        exact near_taken (close_run hstep hjump n hn2 htn.1) htn.2 hqn.1.2
      have hduek : (Watch.seen i (ports s i) (n + 1)).due = some (pc + 4) := by
        simp only [Bool.or_eq_false_iff] at hqn
        simp [Watch.seen, Watch.step, Watch.nextDue, hqn, hn, hdue]
      exact ⟨hnear, hduek, hno _ (by omega) hkm hnear hduek⟩
    | succ k hk ih =>
      intro hkm
      obtain ⟨hnear, hduek, htk⟩ := ih (by omega)
      have hqk := hquiet k (by omega) (by omega)
      have hstay : (s k).rCv = true → (i k).iStallN = false := fun hcv => by
        cases hsn : (i k).iStallN
        · rfl
        · rw [(taken_iff hqk).mpr ⟨hcv, hsn⟩] at htk
          simp at htk
      simp only [Bool.or_eq_false_iff] at hqk
      have hnear' : Near (s n).oPc (s (k + 1)) := by
        rw [hstep]
        exact hnear.next hqk.1.2 hstay
      have hduek' : (Watch.seen i (ports s i) (k + 1)).due = some (pc + 4) := by
        simp [Watch.seen, Watch.step, Watch.nextDue, hqk, htk, hduek]
      exact ⟨hnear', hduek', hno _ (by omega) hkm hnear' hduek'⟩
  rw [(hrun m hnm (Nat.le_refl m)).2.2] at hm
  simp at hm

end Run

end Pipefetch

/-! ## In the CPU -/

namespace Sys

variable (c : CpuCfg AW) {F : FetchUnit AW} {M : MemUnit AW} (s : Sys F M) (i : ℕ → SysIn)

/-- The inputs of the fetch unit at clock `n`. -/
def pfIns (n : ℕ) : FetchIn AW := fetchIn c (Clocked.run (next c) s i n) (i n)

/-- The outputs of the fetch unit at clock `n`. -/
def pfOuts (n : ℕ) : FetchOut AW := pfOut c (Clocked.run (next c) s i n) (i n)

variable {c s i}

/-- The target of a jump is the address of a whole word. -/
structure WholeWords (s : Zipcpu AW) : Prop where
  pfPc : byteAddr (wordOf s.pfPc) 0#2 = s.pfPc
  branchPc : s.dcd.rEarlyBranchStb = true →
    byteAddr (wordOf s.dcd.rBranchPc) 0#2 = s.dcd.rBranchPc

theorem byteAddr_wordOf (w : BitVec AW) :
    byteAddr (wordOf (byteAddr w 0#2)) 0#2 = byteAddr w 0#2 := by
  rw [wordOf_byteAddr]

theorem wholeWords_next {s : Zipcpu AW} {x : CpuIn AW}
    (h : x.iReset = true ∨ byteAddr (wordOf s.pfPc) 0#2 = s.pfPc) :
    WholeWords (Zipcpu.next c s x) where
  pfPc := by
    rw [Zipcpu.next_pfPc]
    unfold Zipcpu.nextPfPc Zipcpu.resetPc Zipcpu.spregPc
    split_ifs with hr
    case neg =>
      exact h.resolve_left hr
    all_goals exact byteAddr_wordOf _
  branchPc hstb := by
    rw [Zipcpu.next_dcd, Idecode.next_rEarlyBranchStb] at hstb
    rw [Zipcpu.next_dcd, Idecode.next_rBranchPc]
    have hce : (Zipcpu.decodeIn c s x).iCe = true := by
      unfold Idecode.nextEarlyBranchStb at hstb
      split_ifs at hstb with hr hce
      · simp only [Bool.and_eq_true] at hce
        exact hce.1
    unfold Idecode.nextBranchPc
    rw [if_pos hce]
    split
    · exact byteAddr_wordOf _
    · exact byteAddr_wordOf _

theorem wholeWords_run (hreset : (i 0).iReset = true) (n : ℕ) :
    WholeWords (Clocked.run (next c) s i (n + 1)).cpu := by
  induction n with
  | zero => exact wholeWords_next (.inl hreset)
  | succ n ih => exact wholeWords_next (.inr ih.pfPc)

/-- The CPU drives its fetch unit as it should. -/
theorem driven (hreset : (i 0).iReset = true) : Driven (pfIns c s i) where
  reset := hreset
  jumps n h := by
    have hnew : (Clocked.run (next c) s i (n + 1)).cpu.newPc = true := by
      rw [Clocked.run_succ, next_cpu, Zipcpu.next_newPc, Zipcpu.nextNewPc, if_pos]
      rcases h with h | h
      · have hr : (i n).iReset = true := h
        simp [hr]
      · have hc : Zipcpu.wClearIcache (Clocked.run (next c) s i n).cpu = true := h
        simp [hc]
    show Zipcpu.pfNewPc c _ = true
    simp [Zipcpu.pfNewPc, hnew]
  aligned n hn hnew := by
    obtain ⟨m, rfl⟩ := Nat.exists_eq_add_of_lt hn
    rw [Nat.zero_add]
    have hw := wholeWords_run (c := c) (s := s) hreset m
    show byteAddr (wordOf (Zipcpu.pfRequestAddress c _)) 0#2 = Zipcpu.pfRequestAddress c _
    unfold Zipcpu.pfRequestAddress
    split
    · rename_i hstb
      simp only [Zipcpu.dcdEarlyBranchStb, Idecode.oEarlyBranchStb, Bool.and_eq_true] at hstb
      rw [Zipcpu.dcdBranchPc, Idecode.oBranchPc, if_pos hstb.1.1]
      exact hw.branchPc hstb.1.2
    · exact hw.pfPc

end Sys

/-! ## The choice -/

/-- The fetch units of `OPT_SINGLE_FETCH`, and of no macro at all. -/
inductive FetchChoice where
  | singleFetch
  | pipelinedFetch
deriving DecidableEq

/-- The unit, `pipefetch` with `2 ^ L` words. -/
def FetchChoice.unit (AW L : ℕ) : FetchChoice → FetchUnit AW
  | singleFetch => prefetch AW
  | pipelinedFetch => pipefetch AW L

namespace Sys

variable {c : CpuCfg AW} {L : ℕ} {M : MemUnit AW} {choice : FetchChoice}
variable {s : Sys (choice.unit AW L) M} {i : ℕ → SysIn} {mem : BitVec AW → BitVec 32}

/-- **The two units.**  In every run of the CPU `prefetch` delivers the program, and `pipefetch`
    does not as soon as it has two instructions to deliver. -/
theorem delivers_iff (hAW : 0 < AW) (hreset : (i 0).iReset = true)
    (hserved : choice = .singleFetch → ∀ n, 0 < n →
      Watch.Served (Watch.seen (pfIns c s i) (pfOuts c s i) n) (pfIns c s i n) (pfOuts c s i n) mem)
    (htwo : choice = .pipelinedFetch → TakesTwo (pfIns c s i) (pfOuts c s i)) :
    Delivers mem (pfIns c s i) (pfOuts c s i) ↔ choice = .singleFetch := by
  cases choice with
  | singleFetch =>
    refine iff_of_true ?_ rfl
    exact Prefetch.delivers_program (s := fun n => (Clocked.run (next c) s i n).pf) (fun _ => rfl)
      (driven hreset) (hserved rfl)
  | pipelinedFetch =>
    refine iff_of_false ?_ (by simp)
    exact Pipefetch.not_delivers (s := fun n => (Clocked.run (next c) s i n).pf) hAW
      (fun _ => rfl) (driven hreset) (htwo rfl)

/-! ### A memory of NOOPs -/

/-- `NOOP` in every word. -/
def noops : BitVec 21 → BitVec 32 := fun _ => 0x77c00000#32

/-- Reset on clock 0, and an acknowledgement on each of the clocks that `acks` names. -/
def noopPins (acks : List ℕ) (n : ℕ) : SysIn where
  iReset := n == 0
  iInterrupt := false
  iHalt := false
  iClearPfCache := false
  iDbgReg := 0
  iDbgWe := false
  iDbgData := 0
  iWbAck := acks.contains n
  iWbStall := false
  iWbErr := false
  iWbData := 0x77c00000#32

/-- The CPU with either unit at power on, with the reset address 16. -/
def singleInit : Sys (FetchChoice.singleFetch.unit 21 4) (memops 21 (zipConfig 4#21).memops) where
  cpu := Zipcpu.init (zipConfig 4#21)
  pf := Prefetch.init 21
  mem := Memops.init 21
  rAOwner := true

def pipelinedConfig : CpuCfg 21 := { zipConfig 4#21 with optPipelined := true }

def pipelinedInit :
    Sys (FetchChoice.pipelinedFetch.unit 21 4) (memops 21 pipelinedConfig.memops) where
  cpu := Zipcpu.init pipelinedConfig
  pf := Pipefetch.init 4 4#21
  mem := Memops.init 21
  rAOwner := true

/-- Acknowledgements that each find a request are those of a memory of NOOPs. -/
theorem served_noops {c : CpuCfg 21} {F : FetchUnit 21} {M : MemUnit 21} {s : Sys F M}
    {acks : List ℕ}
    (h : ∀ n ∈ acks, (pfOuts c s (noopPins acks) n).oWbCyc = true ∧
      Watch.flying (Watch.seen (pfIns c s (noopPins acks)) (pfOuts c s (noopPins acks)) n)
        (pfIns c s (noopPins acks) n) (pfOuts c s (noopPins acks) n) ≠ []) (n : ℕ) :
    Watch.Served (Watch.seen (pfIns c s (noopPins acks)) (pfOuts c s (noopPins acks)) n)
      (pfIns c s (noopPins acks) n) (pfOuts c s (noopPins acks) n) noops := by
  have herr : (pfIns c s (noopPins acks) n).iWbErr = false := by
    show (pfReply c _ (noopPins acks n)).err = false
    unfold pfReply Wbdblpriarb.replyA Wbdblpriarb.replyB
    split <;> split <;> rfl
  have hack : (pfIns c s (noopPins acks) n).iWbAck = true → n ∈ acks := by
    show (pfReply c _ (noopPins acks n)).ack = true → n ∈ acks
    unfold pfReply Wbdblpriarb.replyA Wbdblpriarb.replyB
    split <;> split <;> simp [slave, noopPins]
  refine ⟨fun ha => ?_, by simp [herr], by simp [herr]⟩
  obtain ⟨hcyc, hne⟩ := h n (hack ha)
  obtain ⟨a, l, hal⟩ := List.exists_cons_of_ne_nil hne
  exact ⟨hcyc, a, l, hal, rfl⟩

/-- `prefetch` and a memory that answers two clocks after the strobe. -/
theorem singleInit_delivers : Delivers noops (pfIns (zipConfig 4#21) singleInit (noopPins [3, 6]))
    (pfOuts (zipConfig 4#21) singleInit (noopPins [3, 6])) :=
  (delivers_iff (by decide) rfl (fun _ n _ => served_noops (by decide +kernel) n) (by simp)).mpr rfl

/-- `pipefetch`, at 16, asks the bus for word 16 and goes on with address 17. -/
theorem pipelinedInit_not_delivers :
    (∀ n, Watch.Served
      (Watch.seen (pfIns pipelinedConfig pipelinedInit (noopPins [4, 5]))
        (pfOuts pipelinedConfig pipelinedInit (noopPins [4, 5])) n)
      (pfIns pipelinedConfig pipelinedInit (noopPins [4, 5]) n)
      (pfOuts pipelinedConfig pipelinedInit (noopPins [4, 5]) n) noops) ∧
    ¬Delivers noops (pfIns pipelinedConfig pipelinedInit (noopPins [4, 5]))
      (pfOuts pipelinedConfig pipelinedInit (noopPins [4, 5])) := by
  refine ⟨served_noops (by decide +kernel), ?_⟩
  refine Pipefetch.not_delivers (i := pfIns pipelinedConfig pipelinedInit (noopPins [4, 5]))
    (s := fun n => (Clocked.run (next pipelinedConfig) pipelinedInit (noopPins [4, 5]) n).pf)
    (by decide) (fun _ => rfl) (driven rfl) ⟨6, 7, by decide, by decide +kernel, by decide +kernel, ?_⟩
  have hquiet : ∀ k < 8, 6 ≤ k → ((pfIns pipelinedConfig pipelinedInit (noopPins [4, 5]) k).iReset ||
      (pfIns pipelinedConfig pipelinedInit (noopPins [4, 5]) k).iNewPc ||
      (pfIns pipelinedConfig pipelinedInit (noopPins [4, 5]) k).iClearCache) = false := by
    decide +kernel
  exact fun k hk hk' => hquiet k (by omega) hk

end Sys

end ZipStormMX.Cpu
