/-
  What the CPU does is what its program says.

  Seen from outside, a run is a list of accesses that the bus has answered (`log`) and a number of
  instructions that have left the operand stage (`issues`).  The interpreter, given the same
  answers, makes the same accesses in the same order with the same data, and whenever nothing is
  being executed the registers are its registers (`executes_program`).  The program is what the bus
  answers to the fetch unit, here `dblfetch`; interrupts may come, and each answer may take as long
  as it likes.

  The crux is `Follows`: where the instruction is, and what of it has been seen already.
-/
import ZipStormMX.Clocked
import ZipStormMX.Cpu.Completion
import ZipStormMX.Cpu.DblDelivery
import ZipStormMX.Cpu.DebugStep

namespace ZipStormMX.Cpu

variable {AW : ℕ}

namespace Sys

variable {F : FetchUnit AW}

/-! ## What is seen of a clock -/

section

variable (c : CpuCfg AW) (s : Sys F (memops AW c.memops)) (i : SysIn)

/-- The number of instructions that leave the operand stage: one or none. -/
def issued : ℕ := (Zipcpu.issue c s.cpu (s.cpuIn c i)).toNat

/-- The access that the bus answers, as it stands on the lines of the memory unit. -/
def answered : List (BusAccess AW) :=
  if (memOut s).oBusy && (memReply c s i).ack then
    [if (memOut s).oWbWe then
      .store (memOut s).oWbCycLcl (memOut s).oWbAddr (memOut s).oWbSel (memOut s).oWbData
    else .load (memOut s).oWbCycLcl (memOut s).oWbAddr (memOut s).oWbSel i.iWbData]
  else []

end

/-- The instruction at `a.pc` is in one of the seven places.  Of it, `k` instructions have been
    issued and the accesses `l` have been answered. -/
inductive Follows (c : CpuCfg AW) (prog : BitVec AW → BitVec 32)
    (s : Sys F (memops AW c.memops)) (due : Option (BitVec (AW + 2))) (a : Arch AW) :
    ℕ → List (BusAccess AW) → Prop
  | jumping (h : Jumping c s a) : Follows c prog s due a 0 []
  | fetching (h : Fetching c prog s due a) : Follows c prog s due a 0 []
  | decoded (h : Decoded c prog s due a) : Follows c prog s due a 0 []
  | operand (h : InOperand c prog s due a) : Follows c prog s due a 0 []
  | computing (h : Computing c prog s due a) : Follows c prog s due a 1 []
  | accessing (h : Accessing c prog s due a) : Follows c prog s due a 1 []
  | holding (d : BitVec 32) (h : Holding c prog s due a d) :
      Follows c prog s due a 1 (a.accesses c (a.insn c prog) d)

variable {c : CpuCfg AW} {prog : BitVec AW → BitVec 32} {s : Sys F (memops AW c.memops)}
  {i : SysIn} {due : Option (BitVec (AW + 2))} {a : Arch AW} {k : ℕ} {l : List (BusAccess AW)}

theorem issued_eq_zero (h : s.cpu.opValid = false) : issued c s i = 0 := by
  rw [issued, noIssue h]
  rfl

theorem answered_eq_nil (h : (memOut s).oBusy = false) : answered c s i = [] := by
  rw [answered, h, Bool.false_and, if_neg Bool.false_ne_true]

/-- The access on the bus is that of the instruction. -/
theorem Accessing.answered_eq (hp : c.Plain) (h : Accessing c prog s due a)
    (hack : (memReply c s i).ack = true) :
    answered c s i = a.accesses c (a.insn c prog) i.iWbData := by
  have hbusy : (memOut s).oBusy = true := h.serving.busy
  have hlcl : (memOut s).oWbCycLcl =
      (c.withLocalBus && lclAddr (a.operandB c (a.insn c prog))) := by
    show (Memops.rWbCycLcl s.mem || (c.memops.implementLock && Memops.lockLcl s.mem)) = _
    rw [lock_eq hp, Bool.false_and, Bool.or_false]
    exact h.serving.lcl
  have hwe : (memOut s).oWbWe = (a.insn c prog).isStore := by
    refine h.serving.we.trans ?_
    rw [BitVec.getLsbD_extractLsb']
    rfl
  have hadr : (memOut s).oWbAddr = (a.operandB c (a.insn c prog)).extractLsb' 2 AW := h.serving.adr
  have hdat : (memOut s).oWbData =
      laneCopies (a.key c (a.insn c prog)) (a.operandA c (a.insn c prog)) := h.serving.dat
  have hsel : (memOut s).oWbSel = laneSel (a.key c (a.insn c prog)) := h.serving.sel
  rw [answered, Arch.accesses, h.isMem, h.goes, hbusy, hack, hlcl, hwe, hadr, hdat, hsel]
  cases (a.insn c prog).isStore <;> rfl

/-- Where the interpreter stops, nothing of the instruction has been seen. -/
theorem Follows.unseen (h : Follows c prog s due a k l) (hstop : a.Stops c (a.insn c prog)) :
    k = 0 ∧ l = [] := by
  cases h with
  | jumping | fetching | decoded | operand => exact ⟨rfl, rfl⟩
  | computing h => exact absurd hstop h.go
  | accessing h => exact absurd hstop h.go
  | holding d h => exact absurd hstop h.go

theorem Follows.of_finish (h : Jumping c s a ∨ Fetching c prog s due a ∨ Decoded c prog s due a) :
    Follows c prog s due a 0 [] := by
  rcases h with h | h | h
  · exact .jumping h
  · exact .fetching h
  · exact .decoded h

/-- **One clock**: the instruction is still under way, or the interpreter makes its step. -/
theorem Follows.next (hp : c.Plain) (hs : Zipcpu.Sane c s.cpu) (hm : s.cpu.Calm a) (hi : Free i)
    (hfed : Zipcpu.Fed c prog s.cpu (s.cpuIn c i) due) (hgo : ¬a.Stops c (a.insn c prog))
    (h : Follows c prog s due a k l) :
    ((s.next c i).cpu.Calm a ∧
        Follows c prog (s.next c i) (Zipcpu.nextDue c s.cpu (s.cpuIn c i) due) a
          (k + issued c s i) (l ++ answered c s i)) ∨
      ∃ d, k + issued c s i = 1 ∧ l ++ answered c s i = a.accesses c (a.insn c prog) d ∧
        (s.next c i).cpu.Calm (a.step c (a.insn c prog) d) ∧
        Follows c prog (s.next c i) (Zipcpu.nextDue c s.cpu (s.cpuIn c i) due)
          (a.step c (a.insn c prog) d) 0 [] := by
  cases h with
  | jumping h =>
    have hnext : (s.next c i).cpu.Calm a ∧
        Fetching c prog (s.next c i) (Zipcpu.nextDue c s.cpu (s.cpuIn c i) due) a :=
      h.next hp hs hm hi
    rw [issued_eq_zero h.empty, answered_eq_nil h.mem.busy]
    exact .inl ⟨hnext.1, .fetching hnext.2⟩
  | fetching h =>
    obtain ⟨hcalm, hplace⟩ := h.next hp hs hm hi hfed
    rw [issued_eq_zero h.empty, answered_eq_nil h.mem.busy]
    exact .inl ⟨hcalm, .of_finish (.inr hplace)⟩
  | decoded h =>
    obtain ⟨hcalm, hplace⟩ := h.next hp hs hm hi hgo
    rw [issued_eq_zero h.empty, answered_eq_nil h.mem.busy]
    exact .inl ⟨hcalm, .operand hplace⟩
  | operand h =>
    have hone : issued c s i = 1 := by
      rw [issued, (h.issues hp hm hi).issue]
      rfl
    have hw := writesNothing (i := i) hp hm.dbgv h.units.aluValid h.mem.valid
    have hcalm : (s.next c i).cpu.Calm a :=
      calm_still hp hm hi hw h.mem.err fun _ hd => absurd hd (by simp [h.dcd])
    rw [hone, answered_eq_nil h.mem.busy]
    cases hmem : (a.insn c prog).mem
    · exact .inl ⟨hcalm, .computing (h.next_alu hp hs hm hi hmem)⟩
    · cases hexec : a.executes (a.insn c prog)
      · obtain ⟨hcalm', hplace⟩ := h.next_skip hp hs hm hi hmem hexec 0
        refine .inr ⟨0, rfl, ?_, hcalm', .fetching hplace⟩
        rw [Arch.accesses, hexec, Bool.and_false, if_neg Bool.false_ne_true]
        rfl
      · exact .inl ⟨hcalm, .accessing (h.next_mem hp hs hm hi hmem hexec)⟩
  | computing h =>
    rw [issued_eq_zero h.empty, answered_eq_nil h.mem.busy]
    rcases h.works with hans | ⟨j, hmul⟩
    · obtain ⟨hcalm, hplace⟩ := h.next_answered hp hs hm hi hfed hans 0
      exact .inr ⟨0, rfl, (Arch.accesses_of_not_mem h.noMem 0).symm, hcalm, .of_finish hplace⟩
    · obtain ⟨hcalm, hplace⟩ := h.next_busy hp hs hm hi hmul
      exact .inl ⟨hcalm, .computing hplace⟩
  | accessing h =>
    rw [issued_eq_zero h.empty]
    cases hack : (memReply c s i).ack
    · obtain ⟨hcalm, hplace⟩ := h.next_wait hp hs hm hi hack
      have hnone : answered c s i = [] := by
        rw [answered, hack, Bool.and_false, if_neg Bool.false_ne_true]
      rw [hnone]
      exact .inl ⟨hcalm, .accessing hplace⟩
    · rw [h.answered_eq hp hack]
      cases hkind : (a.insn c prog).isStore
      · obtain ⟨hcalm, hplace⟩ := h.next_load hp hs hm hi hkind hack
        exact .inl ⟨hcalm, .holding _ hplace⟩
      · obtain ⟨hcalm, hplace⟩ := h.next_store hp hs hm hi hkind hack i.iWbData
        exact .inr ⟨i.iWbData, rfl, rfl, hcalm, .fetching hplace⟩
  | holding d h =>
    obtain ⟨hcalm, hplace⟩ := h.next hp hs hm hi hfed
    rw [issued_eq_zero h.empty, answered_eq_nil h.loaded.busy, List.append_nil]
    exact .inr ⟨d, rfl, rfl, hcalm, .of_finish hplace⟩

/-! ## Runs -/

/-- The interpreter has stopped behind `k` instructions with the accesses `l`. -/
def StopsAfter (c : CpuCfg AW) (prog : BitVec AW → BitVec 32) (a : Arch AW) (k : ℕ)
    (l : List (BusAccess AW)) : Prop :=
  ∃ t, Runs c prog a k l t ∧ t.Stops c (t.insn c prog)

/-- The CPU follows the interpreter, which has started at `a₀`: `k` instructions have been issued
    and the accesses `l` answered, those of the present instruction included. -/
def Tracks (c : CpuCfg AW) (prog : BitVec AW → BitVec 32) (a₀ : Arch AW)
    (s : Sys F (memops AW c.memops)) (due : Option (BitVec (AW + 2))) (k : ℕ)
    (l : List (BusAccess AW)) : Prop :=
  ∃ a k₀ l₀ k₁ l₁, Runs c prog a₀ k₀ l₀ a ∧ s.cpu.Calm a ∧ Follows c prog s due a k₁ l₁ ∧
    k = k₀ + k₁ ∧ l = l₀ ++ l₁

theorem Tracks.next (hp : c.Plain) (hs : Zipcpu.Sane c s.cpu) (hi : Free i)
    (hfed : Zipcpu.Fed c prog s.cpu (s.cpuIn c i) due) {a₀ : Arch AW}
    (h : Tracks c prog a₀ s due k l) :
    StopsAfter c prog a₀ k l ∨
      Tracks c prog a₀ (s.next c i) (Zipcpu.nextDue c s.cpu (s.cpuIn c i) due)
        (k + issued c s i) (l ++ answered c s i) := by
  obtain ⟨a, k₀, l₀, k₁, l₁, hruns, hm, hplace, rfl, rfl⟩ := h
  by_cases hstop : a.Stops c (a.insn c prog)
  · left
    obtain ⟨rfl, rfl⟩ := hplace.unseen hstop
    rw [List.append_nil]
    exact ⟨a, hruns, hstop⟩
  · right
    rcases hplace.next hp hs hm hi hfed hstop with ⟨hm', hplace'⟩ | ⟨d, hk, hl, hm', hplace'⟩
    · exact ⟨a, k₀, l₀, _, _, hruns, hm', hplace', Nat.add_assoc _ _ _, List.append_assoc _ _ _⟩
    · refine ⟨_, k₀ + 1, l₀ ++ a.accesses c (a.insn c prog) d, 0, [], .step d hruns hstop, hm',
        hplace', ?_, ?_⟩
      · rw [Nat.add_assoc, hk]
      · rw [List.append_assoc, hl, List.append_nil]

/-! ## From the reset on -/

end Sys

/-- Where a program starts: at the reset address, with the registers as they are. -/
def Zipcpu.started (c : CpuCfg AW) (s : Zipcpu AW) : Arch AW where
  regs := s.regset
  flags := s.iflags
  userFlags := s.flags
  pc := Zipcpu.resetPc c
  upc := s.rUpc
  uphase := s.rUhaltPhase

namespace Sys

variable {F : FetchUnit AW} {c : CpuCfg AW} {prog : BitVec AW → BitVec 32}
  {s : Sys F (memops AW c.memops)} {i : SysIn}

theorem calm_reset (hr : i.iReset = true) :
    (s.next c i).cpu.Calm (Zipcpu.started c (s.next c i).cpu) := by
  constructor
  · simp [Zipcpu.nextGie, hr]
  · simp [Zipcpu.nextSleep, hr]
  · simp [Zipcpu.nextTrap, hr]
  · simp [Zipcpu.nextUbreak, hr]
  · simp [Zipcpu.nextIllErrI, Zipcpu.nextIErr, hr]
  · simp [Zipcpu.nextIllErrU, Zipcpu.nextUErr, hr]
  · simp [Zipcpu.nextIbusErrFlag, Zipcpu.nextIErr, hr]
  · simp [Zipcpu.nextUbusErrFlag, Zipcpu.nextUErr, hr]
  · simp [Zipcpu.nextBreakEn, hr]
  · simp [Zipcpu.nextStep, hr]
  · simp [Zipcpu.nextClearIcache, hr]
  · simp [hr]
  · simp [Zipcpu.nextDbgClearPipe, hr]
  · simp [hr]
  · simp [Zipcpu.nextPendingInterrupt, hr]
  · simp [Zipcpu.nextOpIllegal, hr]
  · intro hcl
    simp [Zipcpu.clearPipeline, Zipcpu.nextNewPc, hr] at hcl
  all_goals rfl

theorem jumping_reset (hp : c.Plain) (hr : i.iReset = true) :
    Jumping c (s.next c i) (Zipcpu.started c (s.next c i).cpu) := by
  have hrst : Zipcpu.aluReset s.cpu (s.cpuIn c i) = true := by simp [Zipcpu.aluReset, hr]
  have halu : (s.next c i).cpu.alu.rBusy = false ∧ (s.next c i).cpu.alu.oValid = false := by
    rw [next_cpu, Zipcpu.next_alu]
    exact Cpuops.rest_reset hrst
  constructor
  · simp [Zipcpu.clearPipeline, Zipcpu.nextNewPc, hr]
  · simp [Zipcpu.nextPfPc, hr, Zipcpu.started]
  · simp [Zipcpu.started, Zipcpu.resetPc, wordStart]
  · simp [Zipcpu.nextIpc, hr, Zipcpu.started]
  · simp [Zipcpu.nextOpValid, Zipcpu.nextOpFlag, hr]
  · simp [hr]
  · exact unitsRest_of_alu hp halu.1 halu.2
  · exact Memops.resting_reset hr

section

variable (c : CpuCfg AW) (s : ℕ → Sys F (memops AW c.memops)) (x : ℕ → SysIn)

/-- The instructions issued since the last reset. -/
def issues : ℕ → ℕ
  | 0 => 0
  | n + 1 => if (x n).iReset then 0 else issues n + issued c (s n) (x n)

/-- The accesses answered since the last reset. -/
def log : ℕ → List (BusAccess AW)
  | 0 => []
  | n + 1 => if (x n).iReset then [] else log n ++ answered c (s n) (x n)

variable {x} {n : ℕ}

theorem issues_next (hr : (x n).iReset = false) :
    issues c s x (n + 1) = issues c s x n + issued c (s n) (x n) :=
  if_neg (by simp [hr])

theorem log_next (hr : (x n).iReset = false) :
    log c s x (n + 1) = log c s x n ++ answered c (s n) (x n) :=
  if_neg (by simp [hr])

end

/-- **A run follows the interpreter**, until the interpreter stops. -/
theorem tracks_run (hp : c.Plain) {s : ℕ → Sys F (memops AW c.memops)} {x : ℕ → SysIn}
    {due : ℕ → Option (BitVec (AW + 2))} (hstep : ∀ n, s (n + 1) = (s n).next c (x n))
    (hr : (x 0).iReset = true) (hfree : ∀ n, 0 < n → Free (x n))
    (hdue : ∀ n, 0 < n →
      due (n + 1) = Zipcpu.nextDue c (s n).cpu ((s n).cpuIn c (x n)) (due n))
    (hfed : ∀ n, 0 < n → Zipcpu.Fed c prog (s n).cpu ((s n).cpuIn c (x n)) (due n)) :
    ∀ n, 0 < n → Zipcpu.Sane c (s n).cpu ∧
      ((∃ m, 0 < m ∧ m < n ∧
          StopsAfter c prog (Zipcpu.started c (s 1).cpu) (issues c s x m) (log c s x m)) ∨
        Tracks c prog (Zipcpu.started c (s 1).cpu) (s n) (due n) (issues c s x n)
          (log c s x n)) := by
  intro n hn
  induction n, hn using Nat.le_induction with
  | base =>
    have hissues : issues c s x 1 = 0 := if_pos hr
    have hlog : log c s x 1 = [] := if_pos hr
    have h1 := hstep 0
    refine ⟨?_, .inr ?_⟩
    · rw [h1]
      exact Zipcpu.sane_of_reset hr
    · rw [hissues, hlog, h1]
      exact ⟨_, 0, [], 0, [], .start, calm_reset hr, .jumping (jumping_reset hp hr), rfl, rfl⟩
  | succ n hn ih =>
    obtain ⟨hs, hih⟩ := ih
    have hi := hfree n hn
    refine ⟨?_, ?_⟩
    · rw [hstep]
      exact Zipcpu.sane_next hs
    · rcases hih with ⟨m, hm0, hmn, hstop⟩ | htracks
      · exact .inl ⟨m, hm0, by omega, hstop⟩
      · rcases htracks.next hp hs hi (hfed n hn) with hstop | hnext
        · exact .inl ⟨n, hn, n.lt_succ_self, hstop⟩
        · right
          rw [issues_next c s hi.reset, log_next c s hi.reset, hdue n hn, hstep n]
          exact hnext

/-! ## What the program sees -/

/-- The registers are those of `a`. -/
structure Shows (s : Zipcpu AW) (a : Arch AW) : Prop where
  regs : s.regset = a.regs
  flags : s.iflags = a.flags
  userFlags : s.flags = a.userFlags
  upc : s.rUpc = a.upc
  uphase : s.rUhaltPhase = a.uphase

/-- After `k` instructions and the accesses `l` the CPU, in the state `s` and then `s'`, agrees with
    the interpreter: between two instructions with all of them behind it, or within the last one. -/
inductive Agrees (c : CpuCfg AW) (prog : BitVec AW → BitVec 32) (a₀ : Arch AW)
    (s s' : Sys F (memops AW c.memops)) (k : ℕ) (l : List (BusAccess AW)) : Prop
  | between (t : Arch AW) (idle : executing c s = false) (runs : Runs c prog a₀ k l t)
      (regs : Shows s.cpu t) (pc : s'.cpu.ipc = wordStart t.pc)
  | within (t : Arch AW) (k₀ : ℕ) (l₀ : List (BusAccess AW)) (busy : executing c s = true)
      (runs : Runs c prog a₀ k₀ l₀ t) (regs : Shows s.cpu t) (go : ¬t.Stops c (t.insn c prog))
      (count : k = k₀ + 1) (seen : l = l₀ ∨ ∃ d, l = l₀ ++ t.accesses c (t.insn c prog) d)

section

variable {due : Option (BitVec (AW + 2))} {a : Arch AW} {k : ℕ} {l : List (BusAccess AW)}

theorem shows_of_calm {z : Zipcpu AW} (h : z.Calm a) : Shows z a :=
  ⟨h.regs, h.flags, h.userFlags, h.upc, h.uphase⟩

theorem executing_of_rest (hu : Zipcpu.UnitsRest c s.cpu) (hm : Memops.Resting s.mem) :
    executing c s = false :=
  executing_eq_false.mpr ⟨hu, hm.busy, hm.valid, hm.err⟩

theorem executing_of_works {op : BitVec 4} {p q : BitVec 32}
    (h : Cpuops.Works c.implementMpy op p q s.cpu.alu) : executing c s = true := by
  rcases h with h | ⟨j, h⟩
  · have hv : Zipcpu.aluValid s.cpu = true := h.valid
    simp [executing, hv]
  · have hb : Zipcpu.aluBusy s.cpu = true := h.busy
    simp [executing, hb]

/-- The program counter does not move where nothing is written and nothing has left a unit. -/
theorem pc_still (hp : c.Plain) (hm : s.cpu.Calm a) (hi : Free i)
    (hu : Zipcpu.UnitsRest c s.cpu) (hmem : Memops.Resting s.mem)
    (hstrobe : Zipcpu.pcStrobe c s.cpu = false) (hipc : s.cpu.ipc = wordStart a.pc) :
    (s.next c i).cpu.ipc = wordStart a.pc := by
  rw [ipc_still hm hi (writesNothing hp hm.dbgv hu.aluValid hmem.valid) hmem.err, hstrobe,
    Bool.and_false, if_neg Bool.false_ne_true, hipc]

/-- **What is seen of the CPU** is what the interpreter does. -/
theorem Tracks.agrees (hp : c.Plain) (hi : Free i) {a₀ : Arch AW}
    (h : Tracks c prog a₀ s due k l) : Agrees c prog a₀ s (s.next c i) k l := by
  obtain ⟨a, k₀, l₀, k₁, l₁, hruns, hm, hplace, rfl, rfl⟩ := h
  have hshows := shows_of_calm hm
  cases hplace with
  | jumping h =>
    rw [List.append_nil]
    refine .between a (executing_of_rest h.units h.mem) hruns hshows
      (pc_still hp hm hi h.units h.mem ?_ (h.ipc.trans h.aligned))
    rw [Zipcpu.pcStrobe, h.clear, h.memPc, Bool.not_true, Bool.and_false, Bool.false_and,
      Bool.or_false]
  | fetching h =>
    rw [List.append_nil]
    refine .between a (executing_of_rest h.units h.mem) hruns hshows ?_
    rw [ipc_still hm hi (writesNothing hp hm.dbgv h.units.aluValid h.mem.valid) h.mem.err,
      pcStrobe_of_mem h.aluPc, aluPc_eq hp, h.ipc]
  | decoded h =>
    rw [List.append_nil]
    exact .between a (executing_of_rest h.units h.mem) hruns hshows
      (pc_still hp hm hi h.units h.mem (strobe_still h.aluPc h.memPc) h.ipc)
  | operand h =>
    rw [List.append_nil]
    exact .between a (executing_of_rest h.units h.mem) hruns hshows
      (pc_still hp hm hi h.units h.mem (strobe_still h.aluPc h.memPc) h.ipc)
  | computing h =>
    exact .within a k₀ l₀ (executing_of_works h.works) hruns hshows h.go rfl
      (.inl (List.append_nil _))
  | accessing h =>
    have hb : (memOut s).oBusy = true := h.serving.busy
    exact .within a k₀ l₀ (by simp [executing, hb]) hruns hshows h.go rfl
      (.inl (List.append_nil _))
  | holding d h =>
    have hv : (memOut s).oValid = true := h.loaded.valid
    exact .within a k₀ l₀ (by simp [executing, hv]) hruns hshows h.go rfl (.inr ⟨d, rfl⟩)

end

end Sys

/-! ## The program on the bus -/

/-- Without bus errors, every answer is a word. -/
theorem Reader.words {i : ℕ → FetchIn AW} {o : ℕ → FetchOut AW}
    (herr : ∀ n, (i n).iWbErr = false) :
    ∀ n, (∀ e ∈ (seen i o n).fetched, e.2 ≠ none) ∧ (seen i o n).past = false := by
  intro n
  induction n with
  | zero => exact ⟨fun e he => absurd he List.not_mem_nil, rfl⟩
  | succ n ih =>
    obtain ⟨hwords, hpast⟩ := ih
    have herror : error (seen i o n) = false := by
      cases hl : (seen i o n).fetched with
      | nil => simp [error, hl]
      | cons e es =>
        have he := hwords e (by simp [hl])
        simpa [error, hl, Option.ne_none_iff_isSome] using he
    constructor
    · intro e he
      change e ∈ nextFetched (seen i o n) (i n) (o n) at he
      rw [nextFetched] at he
      split at he
      · cases he
      · rcases List.mem_append.mp he with he | he
        · split at he
          · exact hwords e (List.mem_of_mem_tail he)
          · exact hwords e he
        · simp only [answer, herr n, Bool.false_eq_true, if_false] at he
          split at he
          · obtain ⟨b, -, rfl⟩ := List.mem_map.mp he
            exact Option.some_ne_none _
          · cases he
    · show nextPast (seen i o n) (i n) (o n) = false
      rw [nextPast, hpast, herror, Bool.and_false, Bool.or_false, ite_self]

namespace Sys

variable {c : CpuCfg AW} {prog : BitVec AW → BitVec 32}

/-- What the observer of the fetch unit has seen. -/
def reads (c : CpuCfg AW) (s : ℕ → Sys (dblfetch AW) (memops AW c.memops)) (x : ℕ → SysIn) :
    ℕ → Reader AW :=
  Dblfetch.reader (fun n => (s n).pf) fun n => (s n).fetchIn c (x n)

variable {s : ℕ → Sys (dblfetch AW) (memops AW c.memops)} {x : ℕ → SysIn}

theorem due_next {n : ℕ} (hr : (x n).iReset = false) :
    (reads c s x (n + 1)).due =
      Zipcpu.nextDue c (s n).cpu ((s n).cpuIn c (x n)) (reads c s x n).due := by
  show Reader.nextDue (reads c s x n) ((s n).fetchIn c (x n)) (Dblfetch.out (s n).pf) = _
  have hr' : ((s n).fetchIn c (x n)).iReset = false := hr
  rw [Reader.nextDue, hr', if_neg Bool.false_ne_true]
  rfl

/-- A run from a reset on, with nothing from outside but interrupts: the bus answers the fetch unit
    with the words of `prog`. -/
structure Boots (c : CpuCfg AW) (prog : BitVec AW → BitVec 32)
    (s : ℕ → Sys (dblfetch AW) (memops AW c.memops)) (x : ℕ → SysIn) : Prop where
  step : ∀ n, s (n + 1) = (s n).next c (x n)
  power : Dblfetch.AtPowerUp (s 0).pf
  reset : (x 0).iReset = true
  free : ∀ n, 0 < n → Free (x n)
  served : ∀ n, Reader.Served (reads c s x n) ((s n).fetchIn c (x n)) (Dblfetch.out (s n).pf) prog

/-- The fetch unit sees no bus error. -/
theorem Boots.noErr (h : Boots c prog s x) (n : ℕ) :
    ((s n).fetchIn c (x n)).iWbErr = false := by
  rcases Nat.eq_zero_or_pos n with rfl | hn
  · -- at first nothing has been asked
    cases he : ((s 0).fetchIn c (x 0)).iWbErr
    · rfl
    · exact absurd rfl ((h.served 0).err he).2
  · show (pfReply c (s n) (x n)).err = false
    unfold pfReply Wbdblpriarb.replyA Wbdblpriarb.replyB slave
    rw [(h.free n hn).err]
    cases c.optPipelined <;> cases (s n).rAOwner <;> rfl

/-- When the cache is cleared, the CPU goes to an address at the next clock. -/
theorem Boots.newPc_of_clear (h : Boots c prog s x) {n : ℕ}
    (hclr : ((s n).fetchIn c (x n)).iClearCache = true) :
    ((s (n + 1)).fetchIn c (x (n + 1))).iNewPc = true := by
  have hnew : (s (n + 1)).cpu.newPc = true := by
    rw [h.step n]
    exact clear_of_clearIcache hclr
  show Zipcpu.pfNewPc c (s (n + 1)).cpu = true
  rw [Zipcpu.pfNewPc, hnew, Bool.true_or]

/-- The decoder gets the program. -/
theorem Boots.fed (h : Boots c prog s x) :
    ∀ n, Zipcpu.Fed c prog (s n).cpu ((s n).cpuIn c (x n)) (reads c s x n).due := by
  have hclear : ∀ n, ((s n).fetchIn c (x n)).iClearCache = true →
      ((s n).fetchIn c (x n)).iNewPc = true ∨
        ((s (n + 1)).fetchIn c (x (n + 1))).iNewPc = true :=
    fun n hclr => .inr (h.newPc_of_clear hclr)
  have hwords : ∀ n, (∀ e ∈ (reads c s x n).fetched, e.2 ≠ none) ∧
      (reads c s x n).past = false := Reader.words h.noErr
  intro n hv hst
  have hgiven : ((s n).fetchIn c (x n)).given (Dblfetch.out (s n).pf) = true := by
    show ((Dblfetch.out (s n).pf).oValid && !Zipcpu.pfStalled c (s n).cpu _) = true
    rw [hst]
    exact (Bool.and_true _).trans hv
  have hnext : ∀ n, (s (n + 1)).pf = Dblfetch.next (s n).pf ((s n).fetchIn c (x n)) := by
    intro n
    rw [h.step n]
    rfl
  have hright := (Dblfetch.hands_over_iff h.power hnext hclear h.served).mpr fun m _ hpast =>
    absurd ((hwords m).2.symm.trans hpast) Bool.false_ne_true
  obtain ⟨hdue, v, l, hl, hill, hinsn⟩ := (hright n).1 hgiven
  have hv' : v ≠ none := by
    have hl' : (reads c s x n).fetched = (wordOf (Dblfetch.out (s n).pf).oPc, v) :: l := hl
    refine (hwords n).1 (wordOf (Dblfetch.out (s n).pf).oPc, v) ?_
    rw [hl']
    exact List.mem_cons_self
  have hgood : (Dblfetch.out (s n).pf).oIllegal = false := by
    cases hbad : (Dblfetch.out (s n).pf).oIllegal
    · rfl
    · exact absurd (hill.mp hbad) hv'
  exact ⟨hgood, hdue, hinsn hgood⟩

theorem Boots.tracks (hp : c.Plain) (h : Boots c prog s x) : ∀ n, 0 < n →
    (∃ m, 0 < m ∧ m < n ∧
      StopsAfter c prog (Zipcpu.started c (s 1).cpu) (issues c s x m) (log c s x m)) ∨
    Tracks c prog (Zipcpu.started c (s 1).cpu) (s n) (reads c s x n).due (issues c s x n)
      (log c s x n) := by
  intro n hn
  exact (tracks_run hp h.step h.reset h.free (fun m hm => due_next (h.free m hm).reset)
    (fun m _ => h.fed m) n hn).2

/-- **The CPU executes its program.**  From a reset on, as long as the interpreter has not stopped,
    the CPU agrees with it on every clock. -/
theorem executes_program (hp : c.Plain) (h : Boots c prog s x) : ∀ n, 0 < n →
    (∃ m, 0 < m ∧ m < n ∧
      StopsAfter c prog (Zipcpu.started c (s 1).cpu) (issues c s x m) (log c s x m)) ∨
    Agrees c prog (Zipcpu.started c (s 1).cpu) (s n) (s (n + 1)) (issues c s x n)
      (log c s x n) := by
  intro n hn
  rcases h.tracks hp n hn with hstop | htracks
  · exact .inl hstop
  · right
    rw [h.step n]
    exact htracks.agrees hp (h.free n hn)

/-! ## A run -/

/-- A value is loaded into R1, and R2 is stored at that address. -/
def storeProg : BitVec 21 → BitVec 32 :=
  image [0x0e000100#32,  -- LDI 256,R1
    0x14c44000#32]       -- SW R2,(R1)

/-- Nothing is asked for from outside, and the bus takes nothing. -/
def stalledPins : SysIn :=
  { iReset := false, iInterrupt := false, iHalt := false, iClearPfCache := false, iDbgReg := 0,
    iDbgWe := false, iDbgData := 0, iWbAck := false, iWbStall := true, iWbErr := false,
    iWbData := 0 }

/-- The bus takes a request. -/
def grantPins : SysIn := { stalledPins with iWbStall := false }

/-- It answers one, and takes the next. -/
def answerPins (d : BitVec 32) : SysIn := { grantPins with iWbAck := true, iWbData := d }

/-- The pins of a list, and then nothing. -/
def listPins (l : List SysIn) (n : ℕ) : SysIn := l.getD n stalledPins

/-- The CPU of this repository from power on. -/
def listRun (l : List SysIn) : ℕ → Sys (dblfetch 21) (memops 21 (zipConfig 0#21).memops) :=
  Clocked.run (Sys.next (zipConfig 0#21)) (Sys.init (zipConfig 0#21)) (listPins l)

theorem listPins_eq {l : List SysIn} {n : ℕ} (hn : l.length ≤ n) : listPins l n = stalledPins := by
  rw [listPins, List.getD, List.getElem?_eq_none hn]
  rfl

/-- A list is a run like any other, if the memory keeps its rules on the list. -/
theorem boots_list {l : List SysIn} (hreset : (listPins l 0).iReset = true)
    (hquiet : ∀ n < l.length, (listPins l n).iHalt = false ∧ (listPins l n).iDbgWe = false ∧
      (listPins l n).iClearPfCache = false ∧ (listPins l n).iWbErr = false)
    (honce : ∀ n < l.length, 0 < n → (listPins l n).iReset = false)
    (hack : ∀ n < l.length, ((listRun l n).fetchIn (zipConfig 0#21) (listPins l n)).iWbAck = true →
      (Dblfetch.out (listRun l n).pf).oWbCyc = true ∧
        (reads (zipConfig 0#21) (listRun l) (listPins l) n).asked.head?.map storeProg =
          some ((listRun l n).fetchIn (zipConfig 0#21) (listPins l n)).iWbData) :
    Boots (zipConfig 0#21) storeProg (listRun l) (listPins l) where
  step _ := rfl
  power := Dblfetch.atPowerUp_init 21
  reset := hreset
  free n hn := by
    rcases Nat.lt_or_ge n l.length with hlt | hge
    · obtain ⟨h1, h2, h3, h4⟩ := hquiet n hlt
      exact ⟨honce n hlt hn, h1, h2, h3, h4⟩
    · rw [listPins_eq hge]
      exact ⟨rfl, rfl, rfl, rfl, rfl⟩
  served n := by
    have herr : (listPins l n).iWbErr = false := by
      rcases Nat.lt_or_ge n l.length with hlt | hge
      · exact (hquiet n hlt).2.2.2
      · rw [listPins_eq hge]
        rfl
    have hnone : (pfReply (zipConfig 0#21) (listRun l n) (listPins l n)).err = false := by
      unfold pfReply Wbdblpriarb.replyA
      cases (listRun l n).rAOwner
      · rfl
      · exact herr
    refine ⟨fun h => ?_, fun h => absurd (hnone.symm.trans h) Bool.false_ne_true,
      fun h => absurd (hnone.symm.trans h.2) Bool.false_ne_true⟩
    rcases Nat.lt_or_ge n l.length with hlt | hge
    · obtain ⟨hcyc, hhead⟩ := hack n hlt h
      refine ⟨hcyc, ?_⟩
      cases hl : (reads (zipConfig 0#21) (listRun l) (listPins l) n).asked with
      | nil => simp [hl] at hhead
      | cons b bs => exact ⟨b, bs, rfl, by simpa [hl, eq_comm] using hhead⟩
    · -- nothing comes any more
      have hack' : (pfReply (zipConfig 0#21) (listRun l n) (listPins l n)).ack = false := by
        rw [listPins_eq hge]
        unfold pfReply Wbdblpriarb.replyA
        cases (listRun l n).rAOwner <;> rfl
      exact absurd (hack'.symm.trans h) Bool.false_ne_true

/-- The two instructions are fetched, and two more; then the bus takes the store. -/
def storeList : List SysIn :=
  [{ stalledPins with iReset := true }, stalledPins, grantPins, answerPins (storeProg 0),
    answerPins (storeProg 1), stalledPins, stalledPins, stalledPins, stalledPins, stalledPins,
    grantPins, answerPins 0, answerPins 0, stalledPins, grantPins, answerPins 0]

theorem boots_storeList :
    Boots (zipConfig 0#21) storeProg (listRun storeList) (listPins storeList) :=
  boots_list rfl (by decide +kernel) (by decide +kernel) (by decide +kernel)

theorem executes_store :
    log (zipConfig 0#21) (listRun storeList) (listPins storeList) 17 =
      [.store false 64#21 0xf#4 0#32] ∧
    ((∃ m, 0 < m ∧ m < 17 ∧ StopsAfter (zipConfig 0#21) storeProg
        (Zipcpu.started (zipConfig 0#21) (listRun storeList 1).cpu)
        (issues (zipConfig 0#21) (listRun storeList) (listPins storeList) m)
        (log (zipConfig 0#21) (listRun storeList) (listPins storeList) m)) ∨
      Agrees (zipConfig 0#21) storeProg
        (Zipcpu.started (zipConfig 0#21) (listRun storeList 1).cpu)
        (listRun storeList 17) (listRun storeList 18)
        (issues (zipConfig 0#21) (listRun storeList) (listPins storeList) 17)
        (log (zipConfig 0#21) (listRun storeList) (listPins storeList) 17)) := by
  refine ⟨by decide +kernel, ?_⟩
  exact executes_program (zipConfig_plain 0#21) boots_storeList 17 (by decide)

/-! ## Time does not matter -/

/-- Two CPUs show the program the same. -/
structure Alike (z z' : Zipcpu AW) : Prop where
  regs : z.regset = z'.regset
  flags : z.iflags = z'.iflags
  userFlags : z.flags = z'.flags
  upc : z.rUpc = z'.rUpc
  uphase : z.rUhaltPhase = z'.rUhaltPhase

theorem Shows.alike {z z' : Zipcpu AW} {t : Arch AW} (h : Shows z t) (h' : Shows z' t) :
    Alike z z' :=
  ⟨h.regs.trans h'.regs.symm, h.flags.trans h'.flags.symm, h.userFlags.trans h'.userFlags.symm,
    h.upc.trans h'.upc.symm, h.uphase.trans h'.uphase.symm⟩

/-- Between two instructions, what the CPU shows is the state the interpreter has reached. -/
theorem Boots.between (hp : c.Plain) (h : Boots c prog s x) {n : ℕ} (hn : 0 < n)
    (hidle : executing c (s n) = false)
    (hgo : ∀ m, 0 < m → m < n →
      ¬StopsAfter c prog (Zipcpu.started c (s 1).cpu) (issues c s x m) (log c s x m)) :
    ∃ t, Runs c prog (Zipcpu.started c (s 1).cpu) (issues c s x n) (log c s x n) t ∧
      Shows (s n).cpu t ∧ (s (n + 1)).cpu.ipc = wordStart t.pc := by
  rcases h.tracks hp n hn with ⟨m, hm, hmn, hstop⟩ | htracks
  · exact absurd hstop (hgo m hm hmn)
  · have hagrees := htracks.agrees hp (h.free n hn)
    rw [← h.step n] at hagrees
    cases hagrees with
    | between t _ hruns hshows hpc => exact ⟨t, hruns, hshows, hpc⟩
    | within t k₀ l₀ hbusy =>
      rw [hidle] at hbusy
      cases hbusy

/-- **Stalls change nothing.**  Two runs of one program, however long the bus takes in each and
    whenever interrupts come, that start with the same registers and get the same answers have made
    the same accesses and show the same registers after as many instructions. -/
theorem same_answers_same_registers (hp : c.Plain)
    {s' : ℕ → Sys (dblfetch AW) (memops AW c.memops)} {x' : ℕ → SysIn} (h : Boots c prog s x)
    (h' : Boots c prog s' x')
    (hstart : Zipcpu.started c (s' 1).cpu = Zipcpu.started c (s 1).cpu) {n n' : ℕ} (hn : 0 < n)
    (hn' : 0 < n') (hidle : executing c (s n) = false) (hidle' : executing c (s' n') = false)
    (hgo : ∀ m, 0 < m → m < n →
      ¬StopsAfter c prog (Zipcpu.started c (s 1).cpu) (issues c s x m) (log c s x m))
    (hgo' : ∀ m, 0 < m → m < n' →
      ¬StopsAfter c prog (Zipcpu.started c (s 1).cpu) (issues c s' x' m) (log c s' x' m))
    (hcount : issues c s x n = issues c s' x' n') {e : List (BusAccess AW)}
    (hlog : log c s x n <+: e) (hlog' : log c s' x' n' <+: e) :
    log c s x n = log c s' x' n' ∧ Alike (s n).cpu (s' n').cpu ∧
      (s (n + 1)).cpu.ipc = (s' (n' + 1)).cpu.ipc := by
  obtain ⟨t, hruns, hshows, hpc⟩ := h.between hp hn hidle hgo
  rw [← hstart] at hgo'
  obtain ⟨t', hruns', hshows', hpc'⟩ := h'.between hp hn' hidle' hgo'
  rw [hstart, ← hcount] at hruns'
  obtain ⟨hsame, rfl⟩ := hruns.unique hruns' hlog hlog'
  exact ⟨hsame, hshows.alike hshows', hpc.trans hpc'.symm⟩

/-- The first instruction is fetched, and slower. -/
def slowList : List SysIn :=
  [{ stalledPins with iReset := true }, stalledPins, stalledPins, stalledPins, grantPins,
    stalledPins, { stalledPins with iWbAck := true, iWbData := storeProg 0 }]

theorem boots_slowList :
    Boots (zipConfig 0#21) storeProg (listRun slowList) (listPins slowList) :=
  boots_list rfl (by decide +kernel) (by decide +kernel) (by decide +kernel)

/-- The load of the value does not stop the interpreter, nor does the store behind it. -/
theorem storeProg_goes {k : ℕ} (hk : k ≤ 1) :
    ¬StopsAfter (zipConfig 0#21) storeProg
      (Zipcpu.started (zipConfig 0#21) (listRun storeList 1).cpu) k [] := by
  rintro ⟨t, hruns, hstop⟩
  obtain rfl | rfl : k = 0 ∨ k = 1 := by omega
  · cases hruns
    exact absurd hstop (by decide +kernel)
  · generalize ([] : List (BusAccess 21)) = e at hruns
    cases hruns with
    | step d h _ =>
      cases h
      -- it is no load, so that the answer does not matter
      have hmem : (Arch.insn (zipConfig 0#21) storeProg
          (Zipcpu.started (zipConfig 0#21) (listRun storeList 1).cpu)).mem = false := by
        decide +kernel
      rw [Arch.step_of_accesses _ _ ((Arch.accesses_of_not_mem hmem d).trans
        (Arch.accesses_of_not_mem hmem 0).symm)] at hstop
      exact absurd hstop (by decide +kernel)

theorem same_registers_slow :
    log (zipConfig 0#21) (listRun storeList) (listPins storeList) 8 =
      log (zipConfig 0#21) (listRun slowList) (listPins slowList) 11 ∧
    Alike (listRun storeList 8).cpu (listRun slowList 11).cpu ∧
      (listRun storeList 9).cpu.ipc = (listRun slowList 12).cpu.ipc := by
  have hgo : ∀ m, 0 < m → m < 8 → ¬StopsAfter (zipConfig 0#21) storeProg
      (Zipcpu.started (zipConfig 0#21) (listRun storeList 1).cpu)
      (issues (zipConfig 0#21) (listRun storeList) (listPins storeList) m)
      (log (zipConfig 0#21) (listRun storeList) (listPins storeList) m) := by
    have hall : ∀ m < 8, issues (zipConfig 0#21) (listRun storeList) (listPins storeList) m ≤ 1 ∧
        log (zipConfig 0#21) (listRun storeList) (listPins storeList) m = [] := by
      decide +kernel
    intro m _ hm
    rw [(hall m hm).2]
    exact storeProg_goes (hall m hm).1
  have hgo' : ∀ m, 0 < m → m < 11 → ¬StopsAfter (zipConfig 0#21) storeProg
      (Zipcpu.started (zipConfig 0#21) (listRun storeList 1).cpu)
      (issues (zipConfig 0#21) (listRun slowList) (listPins slowList) m)
      (log (zipConfig 0#21) (listRun slowList) (listPins slowList) m) := by
    have hall : ∀ m < 11, issues (zipConfig 0#21) (listRun slowList) (listPins slowList) m ≤ 1 ∧
        log (zipConfig 0#21) (listRun slowList) (listPins slowList) m = [] := by
      decide +kernel
    intro m _ hm
    rw [(hall m hm).2]
    exact storeProg_goes (hall m hm).1
  exact same_answers_same_registers (e := []) (zipConfig_plain 0#21) boots_storeList
    boots_slowList rfl (by decide) (by decide) (by decide +kernel) (by decide +kernel) hgo hgo'
    (by decide +kernel) (by decide +kernel) (by decide +kernel)

end Sys

end ZipStormMX.Cpu
