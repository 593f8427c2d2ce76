/-
  Sleep and the interrupt that ends it.

  An interrupt takes the CPU out of user mode only between instructions, never between the halves of
  a compressed pair: `w_switch_to_interrupt` waits for `alu_phase` to fall.  While the CPU sleeps
  nothing is issued, so `alu_phase` stays as it is.  The two meet when the first half of a pair puts
  the CPU to sleep: then each waits for the other.  `sleepsMidPair` is that write, and in a run
  without one no sleeping user is out of reach.
-/
import ZipStormMX.Cpu.Stall
import ZipStormMX.Cpu.Board
import ZipStormMX.Cpu.Zipbones

namespace ZipStormMX.Cpu

variable {AW : ℕ}

namespace Zipcpu

variable {c : CpuCfg AW} {s : Zipcpu AW} {x : CpuIn AW}

/-- A user sleeps only between instructions. -/
def SleepsWhole (c : CpuCfg AW) (s : Zipcpu AW) : Prop :=
  gie s = true → s.sleep = true → aluPhase c s = false

/-- A CC register is written with SLEEP and GIE set, by a user that stays one or a supervisor that
    becomes one, while the second half of a compressed pair is still to come. -/
def sleepsMidPair (c : CpuCfg AW) (s : Zipcpu AW) (x : CpuIn AW) : Bool :=
  !x.iReset && !clearPipeline s && aluPhase c s
    && (wrRegCe c s x && wrWriteCc s x && ccBit s x sleepBit && ccBit s x gieBit)
    && ((gie s && !wSwitchToInterrupt c s x) || wReleaseFromInterrupt c s x)

/-- Without an issue, `alu_phase` can only fall. -/
theorem aluPhase_of_next (hi : issue c s x = false) (h : aluPhase c (next c s x) = true) :
    x.iReset = false ∧ clearPipeline s = false ∧ aluPhase c s = true := by
  simp only [aluPhase, next_rAluPhase, nextAluPhase_of_not_issue hi, Bool.and_eq_true,
    Bool.not_eq_true', Bool.or_eq_false_iff] at h
  obtain ⟨hc, ⟨hr, hn⟩, hp⟩ := h
  exact ⟨hr, hn, by simp [aluPhase, hc, hp]⟩

/-- Without a write to a CC register, a sleeping user was one before. -/
theorem asleep_of_next (hw : (wrRegCe c s x && wrWriteCc s x) = false)
    (hg : gie (next c s x) = true) (hs : (next c s x).sleep = true) :
    gie s = true ∧ s.sleep = true := by
  have hrel : wReleaseFromInterrupt c s x = false := by
    cases hre : wrRegCe c s x
    · simp [wReleaseFromInterrupt, hre]
    · have hcc : wrWriteCc s x = false := by simpa [hre] using hw
      have hscc : wrWriteScc s x = false := by
        simp only [wrWriteCc, beq_eq_false_iff_ne, ne_eq] at hcc
        simp only [wrWriteScc, beq_eq_false_iff_ne, ne_eq]
        intro he
        rw [he] at hcc
        exact hcc (by decide)
      simp [wReleaseFromInterrupt, hscc]
  simp only [gie, next_rGie, nextGie, hrel, next_sleep, nextSleep, hw, Bool.false_and] at hg hs
  exact ⟨by grind [gie], by grind⟩

/-- **One clock.**  Only a `sleepsMidPair` write puts a user to sleep between two halves. -/
theorem sleepsWhole_next (h : SleepsWhole c s) (hx : sleepsMidPair c s x = false) :
    SleepsWhole c (next c s x) := by
  intro hg hs
  by_contra hph
  have hph : aluPhase c (next c s x) = true := by simpa using hph
  cases hw : wrRegCe c s x && wrWriteCc s x
  · -- the user was asleep already, so nothing was issued and `alu_phase` is what it was
    obtain ⟨hg0, hs0⟩ := asleep_of_next hw hg hs
    have hi := issue_of_not_masterCe (masterCe_of_sleep (c := c) (x := x) hs0)
    have hp := (aluPhase_of_next hi hph).2.2
    rw [h hg0 hs0] at hp
    cases hp
  · obtain ⟨hre, hcc⟩ := Bool.and_eq_true_iff.mp hw
    have hi := issue_of_not_masterCe (masterCe_of_ccWrite hre hcc)
    obtain ⟨hr, hn, hp⟩ := aluPhase_of_next hi hph
    simp only [gie, next_rGie, nextGie, hr, next_sleep, nextSleep, hre, hcc] at hg hs
    cases hg0 : s.rGie
    · -- a supervisor that becomes a user
      simp only [sleepsMidPair, hr, hn, hp, hre, hcc, gie, hg0] at hx
      have hrel : wReleaseFromInterrupt c s x = true := by grind
      have hb : ccBit s x gieBit = true := by
        simp only [wReleaseFromInterrupt, Bool.and_eq_true] at hrel
        exact hrel.2.1.2
      have hsl : ccBit s x sleepBit = true := by grind [gie]
      simp [hsl, hb, hrel] at hx
    · -- a user: the write sets GIE as well, or it leaves SLEEP alone
      simp only [sleepsMidPair, hr, hn, hp, hre, hcc, gie, hg0] at hx
      cases hb : ccBit s x gieBit
      · have hs0 : s.sleep = true := by grind [gie]
        have := h hg0 hs0
        rw [hp] at this
        cases this
      · have hsl : ccBit s x sleepBit = true := by grind [gie]
        have hsw : wSwitchToInterrupt c s x = false := by grind
        simp [hsl, hb, hsw] at hx

/-- Such a write does put a user to sleep between two halves. -/
theorem sleeps_of_sleepsMidPair (h : sleepsMidPair c s x = true) :
    gie (next c s x) = true ∧ (next c s x).sleep = true ∧ aluPhase c (next c s x) = true := by
  simp only [sleepsMidPair, Bool.and_eq_true, Bool.not_eq_true', Bool.or_eq_true] at h
  obtain ⟨⟨⟨⟨hr, hn⟩, hp⟩, ⟨⟨hre, hcc⟩, hsl⟩, hb⟩, hmode⟩ := h
  have hi := issue_of_not_masterCe (masterCe_of_ccWrite hre hcc)
  have hp' : aluPhase c (next c s x) = true := by
    simp only [aluPhase, Bool.and_eq_true] at hp
    simp [aluPhase, nextAluPhase_of_not_issue hi, hr, hn, hp.1, hp.2]
  rcases hmode with ⟨hg, hsw⟩ | hrel
  · refine ⟨?_, ?_, hp'⟩
    · have hg0 : s.rGie = true := hg
      simp [gie, nextGie, hr, hsw, hg0]
    · simp [nextSleep, hr, hsw, hre, hcc, hg, hb, hsl]
  · have hre' := hrel
    simp only [wReleaseFromInterrupt, Bool.and_eq_true, Bool.not_eq_true'] at hre'
    have hsw : wSwitchToInterrupt c s x = false := by simp [wSwitchToInterrupt, hre'.1.1]
    refine ⟨?_, ?_, hp'⟩
    · simp [gie, nextGie, hr, hsw, hrel]
    · simp [nextSleep, hr, hsw, hre, hcc, hre'.1.1, hre'.1.2, hsl]

/-- The interrupt takes a sleeping user out of user mode and out of sleep on this clock. -/
theorem interrupt_wakes (hg : gie s = true) (hp : aluPhase c s = false)
    (hm : x.memBusy = false) (hint : pendingInterrupt s = true) (hl : busLock c s = false) :
    wSwitchToInterrupt c s x = true ∧ gie (next c s x) = false ∧ (next c s x).sleep = false := by
  have hsw : wSwitchToInterrupt c s x = true := by
    simp [wSwitchToInterrupt, hg, hint, hp, hl, hm]
  refine ⟨hsw, ?_, ?_⟩
  · simp [gie, nextGie, hsw]
  · simp [nextSleep, hsw]

end Zipcpu

namespace Sys

variable (c : CpuCfg AW) {F : FetchUnit AW} {M : MemUnit AW}

/-- An interrupt reaches a sleeping user: with no memory operation outstanding it is not between
    two halves, and if an interrupt is pending and the bus not locked, user mode and sleep end on
    this clock. -/
structure Reachable (s : Sys F M) (i : SysIn) : Prop where
  whole : Zipcpu.gie s.cpu = true → s.cpu.sleep = true → (memOut s).oBusy = false →
    Zipcpu.aluPhase c s.cpu = false
  wakes : Zipcpu.gie s.cpu = true → s.cpu.sleep = true → (memOut s).oBusy = false →
    Zipcpu.pendingInterrupt s.cpu = true → Zipcpu.busLock c s.cpu = false →
    Zipcpu.wSwitchToInterrupt c s.cpu (s.cpuIn c i) = true ∧
      Zipcpu.gie (s.next c i).cpu = false ∧ (s.next c i).cpu.sleep = false

theorem reachable_of_sleepsWhole {s : Sys F M} (h : Zipcpu.SleepsWhole c s.cpu) (i : SysIn) :
    Reachable c s i where
  whole hg hs _ := h hg hs
  wakes hg hs hm hp hl := Zipcpu.interrupt_wakes hg (h hg hs) hm hp hl

/-- **No sleeping user is out of reach** in a run in which no CC write puts the CPU to sleep, as a
    user, between the halves of a compressed pair. -/
theorem sleeping_user_reachable (s : Sys F M) (i : ℕ → SysIn) (hreset : (i 0).iReset = true)
    (hpair : ∀ n, Zipcpu.sleepsMidPair c (Clocked.run (next c) s i n).cpu
      ((Clocked.run (next c) s i n).cpuIn c (i n)) = false) :
    ∀ n, 0 < n → Reachable c (Clocked.run (next c) s i n) (i n) := by
  intro n hn
  apply reachable_of_sleepsWhole
  have h1 : Zipcpu.SleepsWhole c (Clocked.run (next c) s i 1).cpu := by
    intro hg
    simp [Clocked.run_succ, Zipcpu.gie, Zipcpu.nextGie, hreset] at hg
  exact Clocked.run_invariant_from (P := fun s : Sys F M => Zipcpu.SleepsWhole c s.cpu) h1
    (fun m _ hm => Zipcpu.sleepsWhole_next hm (hpair m)) n hn

/-- The program that sleeps between two halves.  The supervisor points the user's PC at 16 and
    sets GIE; the user's first instruction is the pair `LDI 48,CC | LDI 0,R0`. -/
def pairSleepsProg : List (BitVec 32) :=
  [0x7b440010#32,  -- MOV 16+R0,uPC
   0x76000020#32,  -- LDI 32,CC
   0, 0,
   0xf6300600#32]

/-- The same with a whole word: `LDI 48,CC`. -/
def wordSleepsProg : List (BitVec 32) :=
  [0x7b440010#32, 0x76000020#32, 0, 0, 0x76000030#32]

/-- Reset, then an interrupt from clock 25 on, and reset again from clock 40. -/
def lateInterrupt (n : ℕ) : Controls :=
  { Controls.quiet with iReset := n == 0 || 40 ≤ n, iInterrupt := 25 ≤ n }

/-- What this repository's CPU sees while it runs `prog` under these controls. -/
def sleeperPins (prog : List (BitVec 32)) : ℕ → SysIn :=
  Board.pins (zipConfig 0#21) true (Board.init (zipConfig 0#21) prog) lateInterrupt

theorem sleeping_user_reachable_word :
    Reachable (zipConfig 0#21)
      (Clocked.run (next (zipConfig 0#21)) (Sys.init (zipConfig 0#21))
        (sleeperPins wordSleepsProg) 30) (sleeperPins wordSleepsProg 30) := by
  refine sleeping_user_reachable (zipConfig 0#21) _ _ rfl ?_ 30 (by decide)
  intro n
  rcases Nat.lt_or_ge n 40 with hn | hn
  · revert n
    decide +kernel
  · have hr : (sleeperPins wordSleepsProg n).iReset = true := by
      simp [sleeperPins, Board.pins, Board.sysIn, lateInterrupt, hn]
    simp [Zipcpu.sleepsMidPair, hr]

/-- The interrupt does not reach a user that sleeps between two halves. -/
theorem sleeping_user_unreachable :
    ¬ ∀ (s : BonesCpu 0#21) (i : ℕ → SysIn), (i 0).iReset = true →
        (∀ n, (i n).iHalt = false ∧ (i n).iDbgWe = false ∧ (i n).iClearPfCache = false) →
        ∀ n, 0 < n → Reachable (zipConfig 0#21) (Clocked.run (next (zipConfig 0#21)) s i n) (i n) := by
  intro h
  have h30 := h (Sys.init (zipConfig 0#21)) (sleeperPins pairSleepsProg) rfl
    (fun n => ⟨rfl, rfl, rfl⟩) 30 (by decide)
  exact absurd (h30.whole (by decide +kernel) (by decide +kernel) (by decide +kernel))
    (by decide +kernel)

end Sys

end ZipStormMX.Cpu
