/-
  The CPU gets on.

  Whatever it is at, the CPU comes to the next instruction by itself: a multiplication has an end
  (`Multiplying.bounded`), and for everything else it takes one clock, a word from the fetch unit or
  an answer of the bus.  So it stops issuing instructions only where the interpreter stops or the
  bus does (`issues_or_waits`).

  The crux is that each place lasts until what it waits for is there, and is then left for good.
-/
import ZipStormMX.Cpu.Execution

namespace ZipStormMX.Cpu

variable {AW : ℕ}

/-! ## The multiplier -/

/-- It takes at most thirty five clocks. -/
theorem Cpuops.Multiplying.bounded {m k : ℕ} {op : BitVec 4} {a b : BitVec 32} {z : Cpuops}
    (h : Multiplying m op a b k z) : k ≤ 35 := by
  obtain ⟨s₀, x, hx, hidle, -, hreset, hfirst⟩ := h.history
  have hm1 := h.several
  -- the history goes on without a reset
  let y : ℕ → Mpyop.Pins := fun j => if j < k then x j else ⟨false, false, 0, 0, 0⟩
  have hy : ∀ j < k, y j = x j := fun j hj => if_pos hj
  have hsame : ∀ j ≤ k, Clocked.run Mpyop.step s₀ y j = Clocked.run Mpyop.step s₀ x j :=
    fun j hj => Clocked.run_congr fun n hn => hy n (by omega)
  have hmult : Mpyop.Multiplication m s₀ y 0 := by
    refine ⟨by rw [hy 0 h.begun, hx], hidle, fun n _ _ => ?_⟩
    rcases Nat.lt_or_ge n k with hn | hn
    · rw [hy n hn]
      exact hreset n hn
    · show (if n < k then x n else _).iReset = false
      rw [if_neg (by omega)]
  have hdecl : ∃ n ≤ 35, Mpyop.Declared m s₀ y 0 n := by
    obtain rfl | rfl | rfl | hm5 : m = 2 ∨ m = 3 ∨ m = 4 ∨ 4 < m := by omega
    · exact ⟨0 + 1, by decide, (Mpyop.two_declared hmult).1⟩
    · exact ⟨0 + 2, by decide, (Mpyop.three_declared hmult).1⟩
    · exact ⟨0 + 3, by decide, (Mpyop.four_declared hmult).1⟩
    · exact ⟨0 + 35, by decide, (Mpyop.slow_declared hm5 hmult).1⟩
  obtain ⟨n, hn35, hdecl⟩ := hdecl
  rw [Mpyop.Declared, if_neg (by omega)] at hdecl
  obtain ⟨hn0, -, hvalid⟩ := hdecl
  by_contra hk
  rw [hsame n (by omega), hy n (by omega), hfirst n hn0 (by omega)] at hvalid
  cases hvalid

namespace Sys

/-! ## Out of every place -/

section Places

variable {F : FetchUnit AW} {c : CpuCfg AW} {prog : BitVec AW → BitVec 32}
  {s : Sys F (memops AW c.memops)} {i : SysIn} {due : Option (BitVec (AW + 2))} {a : Arch AW}

/-- A word that the fetch unit shows is taken. -/
theorem Fetching.next_valid (hp : c.Plain) (hs : Zipcpu.Sane c s.cpu) (hm : s.cpu.Calm a)
    (hi : Free i) (hfed : Zipcpu.Fed c prog s.cpu (s.cpuIn c i) due)
    (h : Fetching c prog s due a) (hv : (s.cpuIn c i).pfValid = true) :
    Decoded c prog (s.next c i) (Zipcpu.nextDue c s.cpu (s.cpuIn c i) due) a := by
  rcases (h.next hp hs hm hi hfed).2 with hwait | hplace
  · have hstr := straight hp hm hi h.clear
    have hdcd := hwait.dcd
    rw [next_cpu, Zipcpu.dcdValid_next hp.toSequential, hstr.held, h.free hp hm hi, hv] at hdcd
    cases hdcd
  · exact hplace

theorem executing_of_place
    (h : Jumping c s a ∨ Fetching c prog s due a ∨ Decoded c prog s due a) :
    executing c s = false := by
  rcases h with h | h | h <;> exact executing_of_rest h.units h.mem

end Places

variable {c : CpuCfg AW} {prog : BitVec AW → BitVec 32}
  {s : ℕ → Sys (dblfetch AW) (memops AW c.memops)} {x : ℕ → SysIn}

theorem Boots.sane (h : Boots c prog s x) : ∀ n, 0 < n → Zipcpu.Sane c (s n).cpu := by
  intro n hn
  induction n, hn using Nat.le_induction with
  | base =>
    rw [h.step 0]
    exact Zipcpu.sane_of_reset h.reset
  | succ n hn ih =>
    rw [h.step n]
    exact Zipcpu.sane_next ih

theorem Boots.due (h : Boots c prog s x) {n : ℕ} (hn : 0 < n) :
    (reads c s x (n + 1)).due =
      Zipcpu.nextDue c (s n).cpu ((s n).cpuIn c (x n)) (reads c s x n).due :=
  due_next (h.free n hn).reset

section Ends

variable (hp : c.Plain) (h : Boots c prog s x) {n : ℕ} (hn : 0 < n) {a : Arch AW}
include hp h hn

theorem Holding.ends {d : BitVec 32} (hm : (s n).cpu.Calm a)
    (hplace : Holding c prog (s n) (reads c s x n).due a d) : executing c (s (n + 1)) = false := by
  rw [h.step n]
  exact executing_of_place (hplace.next hp (h.sane n hn) hm (h.free n hn) (h.fed n)).2

theorem Computing.answered_ends (hm : (s n).cpu.Calm a)
    (hplace : Computing c prog (s n) (reads c s x n).due a)
    (hans : Cpuops.Answered (a.insn c prog).op (a.operandA c (a.insn c prog))
      (a.operandB c (a.insn c prog)) (s n).cpu.alu) : executing c (s (n + 1)) = false := by
  rw [h.step n]
  exact executing_of_place
    (hplace.next_answered hp (h.sane n hn) hm (h.free n hn) (h.fed n) hans 0).2

omit hn in
/-- The induction is on the clocks that the multiplier may still take. -/
theorem Computing.multiplies_ends {b k : ℕ} (hn : 0 < n) (hb : 36 - k ≤ b)
    (hm : (s n).cpu.Calm a) (hplace : Computing c prog (s n) (reads c s x n).due a)
    (hmul : Cpuops.Multiplying c.implementMpy (a.insn c prog).op (a.operandA c (a.insn c prog))
      (a.operandB c (a.insn c prog)) k (s n).cpu.alu) :
    ∃ m, n < m ∧ executing c (s m) = false := by
  induction b generalizing n k with
  | zero =>
    have := hmul.bounded
    omega
  | succ b ih =>
    obtain ⟨hm', hplace'⟩ := hplace.next_busy hp (h.sane n hn) hm (h.free n hn) hmul
    have halu := hplace.alu_next (h.sane n hn) (h.free n hn) hmul
    rw [← h.step n] at hm' hplace' halu
    rw [← h.due hn] at hplace'
    rcases halu with hans | hmul'
    · exact ⟨n + 2, by omega, hplace'.answered_ends hp h (by omega) hm' hans⟩
    · obtain ⟨m, hnm, hdone⟩ := ih (by omega) (by omega) hm' hplace' hmul'
      exact ⟨m, by omega, hdone⟩

/-- The ALU has its answer after some clocks. -/
theorem Computing.ends (hm : (s n).cpu.Calm a)
    (hplace : Computing c prog (s n) (reads c s x n).due a) :
    ∃ m, n < m ∧ executing c (s m) = false := by
  rcases hplace.works with hans | ⟨k, hmul⟩
  · exact ⟨n + 1, by omega, hplace.answered_ends hp h hn hm hans⟩
  · exact hplace.multiplies_ends hp h hn le_rfl hm hmul

/-- The memory unit has its answer when the bus has answered. -/
theorem Accessing.ends (hm : (s n).cpu.Calm a)
    (hplace : Accessing c prog (s n) (reads c s x n).due a)
    (hack : ∃ m, n ≤ m ∧ (memReply c (s m) (x m)).ack = true) :
    ∃ m, n < m ∧ executing c (s m) = false := by
  let P : ℕ → Prop := fun j =>
    (s j).cpu.Calm a ∧ Accessing c prog (s j) (reads c s x j).due a
  let Q : ℕ → Prop := fun j => executing c (s j) = false ∨
    ∃ d, (s j).cpu.Calm a ∧ Holding c prog (s j) (reads c s x j).due a d
  have hstep : ∀ j, n ≤ j → P j →
      Q (j + 1) ∨ P (j + 1) ∧ ¬(memReply c (s j) (x j)).ack = true := by
    rintro j hj ⟨hmj, hplacej⟩
    have hj0 : 0 < j := by omega
    cases ha : (memReply c (s j) (x j)).ack
    · right
      have hwait := hplacej.next_wait hp (h.sane j hj0) hmj (h.free j hj0) ha
      rw [← h.step j, ← h.due hj0] at hwait
      exact ⟨hwait, Bool.false_ne_true⟩
    · left
      cases hkind : (a.insn c prog).isStore
      · have hload := hplacej.next_load hp (h.sane j hj0) hmj (h.free j hj0) hkind ha
        rw [← h.step j, ← h.due hj0] at hload
        exact .inr ⟨_, hload⟩
      · have hstore := hplacej.next_store hp (h.sane j hj0) hmj (h.free j hj0) hkind ha 0
        rw [← h.step j] at hstore
        exact .inl (executing_of_place (.inr (.inl hstore.2)))
  obtain ⟨j, hj, hdone | ⟨d, hmj, hholding⟩⟩ :=
    Clocked.leads_to (P := P) (Q := Q) ⟨hm, hplace⟩ hack hstep
  · exact ⟨j, hj, hdone⟩
  · exact ⟨j + 1, by omega, hholding.ends hp h (by omega) hmj⟩

/-- The decoder gets a word when the fetch unit shows one. -/
theorem Fetching.ends (hm : (s n).cpu.Calm a)
    (hplace : Fetching c prog (s n) (reads c s x n).due a)
    (hword : ∃ m, n ≤ m ∧ ((s m).cpuIn c (x m)).pfValid = true) :
    ∃ m, n < m ∧ Zipcpu.dcdValid (s m).cpu = true ∧
      Zipcpu.clearPipeline (s m).cpu = false := by
  let P : ℕ → Prop := fun j => (s j).cpu.Calm a ∧ Fetching c prog (s j) (reads c s x j).due a
  let Q : ℕ → Prop := fun j =>
    Zipcpu.dcdValid (s j).cpu = true ∧ Zipcpu.clearPipeline (s j).cpu = false
  have hstep : ∀ j, n ≤ j → P j → Q (j + 1) ∨
      P (j + 1) ∧ ¬((s j).cpuIn c (x j)).pfValid = true := by
    rintro j hj ⟨hmj, hplacej⟩
    have hj0 : 0 < j := by omega
    cases hv : ((s j).cpuIn c (x j)).pfValid
    · have hnext := hplacej.next hp (h.sane j hj0) hmj (h.free j hj0) (h.fed j)
      rw [← h.step j, ← h.due hj0] at hnext
      obtain ⟨hm', hwait | hdec⟩ := hnext
      · exact .inr ⟨⟨hm', hwait⟩, Bool.false_ne_true⟩
      · exact .inl ⟨hdec.dcd, hdec.clear⟩
    · left
      have hdec := hplacej.next_valid hp (h.sane j hj0) hmj (h.free j hj0) (h.fed j) hv
      rw [← h.step j] at hdec
      exact ⟨hdec.dcd, hdec.clear⟩
  exact Clocked.leads_to (P := P) (Q := Q) ⟨hm, hplace⟩ hword hstep

end Ends

/-- An instruction that has been issued stays so. -/
theorem Boots.issues_mono (h : Boots c prog s x) {n m : ℕ} (hn : 0 < n) (hnm : n ≤ m) :
    issues c s x n ≤ issues c s x m := by
  induction m, hnm using Nat.le_induction with
  | base => exact le_rfl
  | succ m hnm ih =>
    have hnext := issues_next c s (h.free m (by omega)).reset
    omega

/-! ## On and on -/

section Alive

variable (hp : c.Plain) (h : Boots c prog s x)
  (hgo : ∀ m, 0 < m →
    ¬StopsAfter c prog (Zipcpu.started c (s 1).cpu) (issues c s x m) (log c s x m))
include hp h hgo

/-- The instruction on the way, at any clock. -/
theorem Boots.follows {n : ℕ} (hn : 0 < n) : ∃ a k l, (s n).cpu.Calm a ∧
    Follows c prog (s n) (reads c s x n).due a k l ∧ ¬a.Stops c (a.insn c prog) := by
  have hstop := hgo n hn
  rcases h.tracks hp n hn with ⟨m, hm, -, hm'⟩ | ⟨a, k₀, l₀, k, l, hruns, hcalm, hplace, hk, hl⟩
  · exact absurd hm' (hgo m hm)
  · refine ⟨a, k, l, hcalm, hplace, fun hs => hstop ?_⟩
    obtain ⟨rfl, rfl⟩ := hplace.unseen hs
    rw [hk, hl, List.append_nil]
    exact ⟨a, hruns, hs⟩

/-- What is in the operand stage is issued. -/
theorem Boots.issue_of_opValid {n : ℕ} (hn : 0 < n) (hv : (s n).cpu.opValid = true) :
    issues c s x (n + 1) = issues c s x n + 1 := by
  obtain ⟨a, k, l, hm, hplace, -⟩ := h.follows hp hgo hn
  rw [issues_next c s (h.free n hn).reset]
  cases hplace with
  | operand hplace =>
    rw [issued, (hplace.issues hp hm (h.free n hn)).issue]
    rfl
  | jumping hplace | fetching hplace | decoded hplace | computing hplace | accessing hplace
  | holding d hplace => exact absurd (hplace.empty.symm.trans hv) Bool.false_ne_true

/-- What is in the decoder goes to the operand stage. -/
theorem Boots.opValid_of_dcdValid {n : ℕ} (hn : 0 < n)
    (hd : Zipcpu.dcdValid (s n).cpu = true) (hcl : Zipcpu.clearPipeline (s n).cpu = false) :
    (s (n + 1)).cpu.opValid = true := by
  obtain ⟨a, k, l, -, hplace, -⟩ := h.follows hp hgo hn
  have hempty : (s n).cpu.opValid = false := by
    cases hplace with
    | operand hplace => exact absurd (hplace.dcd.symm.trans hd) Bool.false_ne_true
    | jumping hplace | fetching hplace | decoded hplace | computing hplace | accessing hplace
    | holding d hplace => exact hplace.empty
  have hr : ((s n).cpuIn c (x n)).iReset = false := (h.free n hn).reset
  rw [h.step n, next_cpu, Zipcpu.opValid_next hp.toSequential (fun _ => hempty), hr, hcl, hd]
  rfl

/-- An instruction comes when nothing is executed. -/
theorem Boots.comes {n : ℕ} (hn : 0 < n)
    (hword : ∀ m, n ≤ m → ∃ j, m ≤ j ∧ ((s j).cpuIn c (x j)).pfValid = true)
    (hidle : executing c (s n) = false) : ∃ m, n ≤ m ∧ (s m).cpu.opValid = true := by
  have hfetch : ∀ m, n ≤ m → ∀ a, (s m).cpu.Calm a →
      Fetching c prog (s m) (reads c s x m).due a → ∃ j, n ≤ j ∧ (s j).cpu.opValid = true := by
    intro m hnm a hm hplace
    obtain ⟨j, hmj, hd, hcl⟩ := hplace.ends hp h (by omega) hm (hword m hnm)
    exact ⟨j + 1, by omega, h.opValid_of_dcdValid hp hgo (by omega) hd hcl⟩
  obtain ⟨a, k, l, hm, hplace, -⟩ := h.follows hp hgo hn
  cases hplace with
  | jumping hplace =>
    have hnext : (s (n + 1)).cpu.Calm a ∧
        Fetching c prog (s (n + 1)) (reads c s x (n + 1)).due a := by
      rw [h.step n, h.due hn]
      exact hplace.next hp (h.sane n hn) hm (h.free n hn)
    exact hfetch (n + 1) (by omega) a hnext.1 hnext.2
  | fetching hplace => exact hfetch n le_rfl a hm hplace
  | decoded hplace =>
    exact ⟨n + 1, by omega, h.opValid_of_dcdValid hp hgo hn hplace.dcd hplace.clear⟩
  | operand hplace => exact ⟨n, le_rfl, hplace.full⟩
  | computing hplace =>
    exact absurd ((executing_of_works hplace.works).symm.trans hidle) (by simp)
  | accessing hplace =>
    have hb : (memOut (s n)).oBusy = true := hplace.serving.busy
    simp [executing, hb] at hidle
  | holding d hplace =>
    have hv : (memOut (s n)).oValid = true := hplace.loaded.valid
    simp [executing, hv] at hidle

/-- What is executed comes to its end. -/
theorem Boots.ends {n : ℕ} (hn : 0 < n)
    (hack : (memOut (s n)).oBusy = true → ∃ m, n ≤ m ∧ (memReply c (s m) (x m)).ack = true) :
    ∃ m, n ≤ m ∧ executing c (s m) = false := by
  obtain ⟨a, k, l, hm, hplace, -⟩ := h.follows hp hgo hn
  have hlater : (∃ m, n < m ∧ executing c (s m) = false) →
      ∃ m, n ≤ m ∧ executing c (s m) = false := fun ⟨m, hnm, hdone⟩ => ⟨m, hnm.le, hdone⟩
  cases hplace with
  | jumping hplace | fetching hplace | decoded hplace | operand hplace =>
    exact ⟨n, le_rfl, executing_of_rest hplace.units hplace.mem⟩
  | computing hplace => exact hlater (hplace.ends hp h hn hm)
  | accessing hplace => exact hlater (hplace.ends hp h hn hm (hack hplace.serving.busy))
  | holding d hplace => exact ⟨n + 1, by omega, hplace.ends hp h hn hm⟩

end Alive

/-- **The CPU waits for nothing but the bus.**  At any time it will issue another instruction,
    unless the interpreter stops, the fetch unit has no word to show any more, or an access is never
    answered. -/
theorem issues_or_waits (hp : c.Plain) (h : Boots c prog s x) {n : ℕ} (hn : 0 < n) :
    (∃ m, n ≤ m ∧ issues c s x n < issues c s x m) ∨
    (∃ m, 0 < m ∧
      StopsAfter c prog (Zipcpu.started c (s 1).cpu) (issues c s x m) (log c s x m)) ∨
    (∃ m, n ≤ m ∧ ∀ j, m ≤ j → ((s j).cpuIn c (x j)).pfValid = false) ∨
    ∃ m, n ≤ m ∧ (memOut (s m)).oBusy = true ∧
      ∀ j, m ≤ j → (memReply c (s j) (x j)).ack = false := by
  by_cases hstop : ∃ m, 0 < m ∧
      StopsAfter c prog (Zipcpu.started c (s 1).cpu) (issues c s x m) (log c s x m)
  · exact .inr (.inl hstop)
  by_cases hnone : ∃ m, n ≤ m ∧ ∀ j, m ≤ j → ((s j).cpuIn c (x j)).pfValid = false
  · exact .inr (.inr (.inl hnone))
  by_cases hlost : ∃ m, n ≤ m ∧ (memOut (s m)).oBusy = true ∧
      ∀ j, m ≤ j → (memReply c (s j) (x j)).ack = false
  · exact .inr (.inr (.inr hlost))
  left
  simp only [not_exists, not_and, not_forall, Bool.not_eq_false, exists_prop] at hstop hnone hlost
  obtain ⟨m₁, hm₁, hidle⟩ := h.ends hp hstop hn (hlost n le_rfl)
  obtain ⟨m₂, hm₂, hv⟩ :=
    h.comes hp hstop (by omega) (fun m hm => hnone m (by omega)) hidle
  have hone := h.issue_of_opValid hp hstop (by omega) hv
  have hmono := h.issues_mono hn (by omega : n ≤ m₂)
  exact ⟨m₂ + 1, by omega, by omega⟩

/-- With the store on its way and no answer yet. -/
theorem issues_or_waits_store :
    (∃ m, 16 ≤ m ∧ issues (zipConfig 0#21) (listRun storeList) (listPins storeList) 16 <
      issues (zipConfig 0#21) (listRun storeList) (listPins storeList) m) ∨
    (∃ m, 0 < m ∧ StopsAfter (zipConfig 0#21) storeProg
      (Zipcpu.started (zipConfig 0#21) (listRun storeList 1).cpu)
      (issues (zipConfig 0#21) (listRun storeList) (listPins storeList) m)
      (log (zipConfig 0#21) (listRun storeList) (listPins storeList) m)) ∨
    (∃ m, 16 ≤ m ∧ ∀ j, m ≤ j →
      ((listRun storeList j).cpuIn (zipConfig 0#21) (listPins storeList j)).pfValid = false) ∨
    ∃ m, 16 ≤ m ∧ (memOut (listRun storeList m)).oBusy = true ∧
      ∀ j, m ≤ j →
        (memReply (zipConfig 0#21) (listRun storeList j) (listPins storeList j)).ack = false :=
  issues_or_waits (zipConfig_plain 0#21) boots_storeList (by decide)

end Sys

end ZipStormMX.Cpu
