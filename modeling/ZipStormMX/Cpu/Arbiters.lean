/-
  The arbiters `wbpriarbiter.v`, `wbdblpriarb.v` and `wbarbiter.v`.

  They differ in who owns the bus next, and hardly in their wires: the owner's lines go to the bus,
  the bus's answers to the owner, and with OPT_ZERO_ON_IDLE whatever nobody uses is zero.  Each
  separates its masters in every run, by what `Arbitration` says of such wires: an owner keeps the
  bus until it drops its cycle.  Only the reset of `wbdblpriarb` takes the bus away from an owner
  that is on it.
-/
import ZipStormMX.Arbitration
import ZipStormMX.Clocked
import ZipStormMX.Cpu.Wbdblpriarb

namespace ZipStormMX.Cpu

open Arbitration

/-- The lines a master drives on a single bus. -/
structure WbMaster (AW DW : ℕ) where
  cyc : Bool
  stb : Bool
  we : Bool
  adr : BitVec AW
  dat : BitVec DW
  sel : BitVec (DW / 8)
  deriving DecidableEq, Repr

namespace WbMaster

variable {AW DW : ℕ} (m : WbMaster AW DW)

/-- What it strobes. -/
def request : Option (Bool × BitVec AW × BitVec DW × BitVec (DW / 8)) :=
  if m.stb then some (m.we, m.adr, m.dat, m.sel) else none

/-- Address, data and selects are zero without a strobe. -/
def zeroIdle (optZeroOnIdle : Bool) : WbMaster AW DW :=
  if optZeroOnIdle && !m.stb then { m with adr := 0, dat := 0, sel := 0 } else m

end WbMaster

namespace DblMaster

variable {AW : ℕ} (m : DblMaster AW)

/-- What it strobes, and where. -/
def request : Option (Bool × Bool × Bool × BitVec AW × BitVec 32 × BitVec 4) :=
  if m.stbA || m.stbB then some (m.stbA, m.stbB, m.we, m.adr, m.dat, m.sel) else none

/-- Address, data and selects are zero without a strobe. -/
def zeroIdle (optZeroOnIdle : Bool) : DblMaster AW :=
  if optZeroOnIdle && !(m.stbA || m.stbB) then { m with adr := 0, dat := 0, sel := 0 } else m

end DblMaster

/-- The answers of the bus to one of the masters: those of the slave, if it owns the bus and, with
    OPT_ZERO_ON_IDLE, is in a cycle. -/
def arbReply (optZeroOnIdle owns oCyc : Bool) (slave : DblReply) : DblReply :=
  if owns && (oCyc || !optZeroOnIdle) then slave else { ack := false, stall := true, err := false }

/-- What is on the wires during one clock, from the lines of the masters, of the bus and of the
    slave. -/
def arbLines {R : Type} (optZeroOnIdle iReset rAOwner : Bool) (cyc : Bool → Bool)
    (req : Bool → Option R) (oCyc : Bool) (oReq : Option R) (slave : DblReply) : Lines R where
  reset := iReset
  owner := rAOwner
  cyc := cyc
  req := req
  oCyc := oCyc
  oReq := oReq
  iStall := slave.stall
  iAck := slave.ack
  iErr := slave.err
  stall := fun m => (arbReply optZeroOnIdle (m == rAOwner) oCyc slave).stall
  ack := fun m => (arbReply optZeroOnIdle (m == rAOwner) oCyc slave).ack
  err := fun m => (arbReply optZeroOnIdle (m == rAOwner) oCyc slave).err

/-- An arbiter that connects its owner to the bus answers nobody else. -/
theorem wired_arbLines {R : Type} {opt iReset rAOwner : Bool} {cyc : Bool → Bool}
    {req : Bool → Option R} {oCyc : Bool} {oReq : Option R} {slave : DblReply}
    (hcyc : oCyc = cyc rAOwner) (hreq : oReq = req rAOwner) :
    Wired (arbLines opt iReset rAOwner cyc req oCyc oReq slave) := by
  have howner : oCyc = true → arbReply opt (rAOwner == rAOwner) oCyc slave = slave := by
    intro h
    unfold arbReply
    rw [h]
    simp
  refine ⟨hcyc, hreq, ?_, ?_, ?_, ?_⟩
  · intro h
    exact congrArg DblReply.stall (howner h)
  · intro h
    exact congrArg DblReply.ack (howner h)
  · intro h
    exact congrArg DblReply.err (howner h)
  · intro m hm
    change m ≠ rAOwner at hm
    have hreply : arbReply opt (m == rAOwner) oCyc slave =
        { ack := false, stall := true, err := false } := by
      unfold arbReply
      rw [beq_false_of_ne hm]
      rfl
    exact ⟨congrArg DblReply.stall hreply, congrArg DblReply.ack hreply,
      congrArg DblReply.err hreply⟩

/-! ## wbpriarbiter -/

namespace Wbpriarbiter

variable {AW DW : ℕ} (optZeroOnIdle rAOwner : Bool) (a b : WbMaster AW DW)

/-- The next owner. -/
def nextOwner : Bool :=
  if !b.cyc then true else if b.cyc && b.stb && !a.cyc then false else rAOwner

/-- The shared bus. -/
def bus : WbMaster AW DW := (if rAOwner then a else b).zeroIdle optZeroOnIdle

/-- What is on the wires during one clock. -/
def lines (slave : DblReply) : Lines (Bool × BitVec AW × BitVec DW × BitVec (DW / 8)) :=
  arbLines optZeroOnIdle false rAOwner (fun m => if m then a.cyc else b.cyc)
    (fun m => if m then a.request else b.request) (bus optZeroOnIdle rAOwner a b).cyc
    (bus optZeroOnIdle rAOwner a b).request slave

end Wbpriarbiter

/-! ## wbdblpriarb -/

namespace Wbdblpriarb

variable {AW : ℕ} (optZeroOnIdle rAOwner : Bool) (a b : DblMaster AW)

/-- The shared bus, with OPT_ZERO_ON_IDLE. -/
def zeroBus : DblMaster AW := (bus rAOwner a b).zeroIdle optZeroOnIdle

/-- There is a cycle on one of the buses. -/
def oCyc : Bool := (zeroBus optZeroOnIdle rAOwner a b).cycA || (zeroBus optZeroOnIdle rAOwner a b).cycB

/-- What is on the wires during one clock. -/
def lines (iReset : Bool) (slave : DblReply) :
    Lines (Bool × Bool × Bool × BitVec AW × BitVec 32 × BitVec 4) :=
  arbLines optZeroOnIdle iReset rAOwner (fun m => if m then a.cycA || a.cycB else b.cycA || b.cycB)
    (fun m => if m then a.request else b.request) (oCyc optZeroOnIdle rAOwner a b)
    (zeroBus optZeroOnIdle rAOwner a b).request slave

/-- Without OPT_ZERO_ON_IDLE, as in `zipcpu`. -/
theorem replyA_eq (slave : DblReply) :
    replyA rAOwner slave = arbReply false (true == rAOwner) (oCyc false rAOwner a b) slave := by
  unfold replyA arbReply
  cases rAOwner <;> simp

theorem replyB_eq (slave : DblReply) :
    replyB rAOwner slave = arbReply false (false == rAOwner) (oCyc false rAOwner a b) slave := by
  unfold replyB arbReply
  cases rAOwner <;> simp

end Wbdblpriarb

/-! ## wbarbiter -/

/-- The parameter SCHEME; whatever is not one of the first two is the third. -/
inductive Scheme where
  | priority
  | alternating
  | last
  deriving DecidableEq, Repr

/-- The registers of `wbarbiter`. -/
structure Wbarbiter where
  rAOwner : Bool
  lastOwner : Bool
  deriving DecidableEq, Repr

namespace Wbarbiter

variable {AW DW : ℕ} (scheme : Scheme) (optZeroOnIdle : Bool) (s : Wbarbiter) (a b : WbMaster AW DW)

def init : Wbarbiter := { rAOwner := true, lastOwner := false }

/-- The next owner. -/
def nextOwner : Bool :=
  match scheme with
  | .priority => if !b.cyc then true else if b.stb && !a.cyc then false else s.rAOwner
  | .alternating =>
    if !a.cyc && !b.cyc then !s.lastOwner
    else if s.rAOwner && !a.cyc then if b.stb then false else s.rAOwner
    else if !s.rAOwner && !b.cyc then if a.stb then true else s.rAOwner
    else s.rAOwner
  | .last =>
    if !a.cyc && b.stb then false else if !b.cyc && a.stb then true else s.rAOwner

@[simps]
def next : Wbarbiter where
  rAOwner := nextOwner scheme s a b
  lastOwner :=
    if a.cyc && s.rAOwner then true else if b.cyc && !s.rAOwner then false else s.lastOwner

-- unlike the others, it gates the strobe with the cycle
/-- The shared bus. -/
def bus : WbMaster AW DW :=
  let m := if s.rAOwner then a else b
  { m with stb := if optZeroOnIdle then m.cyc && m.stb else m.stb }.zeroIdle optZeroOnIdle

/-- What is on the wires during one clock.  The reset is not looked at. -/
def lines (slave : DblReply) : Lines (Bool × BitVec AW × BitVec DW × BitVec (DW / 8)) :=
  arbLines optZeroOnIdle false s.rAOwner (fun m => if m then a.cyc else b.cyc)
    (fun m => if m then a.request else b.request) (bus optZeroOnIdle s a b).cyc
    (bus optZeroOnIdle s a b).request slave

end Wbarbiter

/-! ## Runs -/

/-- What comes in during one clock: the masters, the slave's answers and the reset. -/
structure ArbIn (M : Type) where
  a : M
  b : M
  slave : DblReply
  iReset : Bool
  deriving DecidableEq, Repr

namespace WbMaster

variable {AW DW : ℕ} (m : WbMaster AW DW) (opt : Bool)

@[simp] theorem zeroIdle_cyc : (m.zeroIdle opt).cyc = m.cyc := by
  unfold zeroIdle
  split <;> rfl

@[simp] theorem zeroIdle_request : (m.zeroIdle opt).request = m.request := by
  unfold zeroIdle request
  split
  · rename_i h
    obtain ⟨-, hstb⟩ := (Bool.and_eq_true _ _).mp h
    rw [Bool.not_eq_true'] at hstb
    simp [hstb]
  · rfl

end WbMaster

namespace DblMaster

variable {AW : ℕ} (m : DblMaster AW) (opt : Bool)

@[simp] theorem zeroIdle_cyc :
    ((m.zeroIdle opt).cycA || (m.zeroIdle opt).cycB) = (m.cycA || m.cycB) := by
  unfold zeroIdle
  split <;> rfl

@[simp] theorem zeroIdle_request : (m.zeroIdle opt).request = m.request := by
  unfold zeroIdle request
  split
  · rename_i h
    obtain ⟨-, hstb⟩ := (Bool.and_eq_true _ _).mp h
    rw [Bool.not_eq_true'] at hstb
    simp [hstb]
  · rfl

end DblMaster

namespace Wbpriarbiter

variable {AW DW : ℕ} (opt : Bool)

/-- The owner at each clock. -/
def owner (x : ℕ → ArbIn (WbMaster AW DW)) : ℕ → Bool :=
  Clocked.run (fun o i => nextOwner o i.a i.b) true x

def runLines (x : ℕ → ArbIn (WbMaster AW DW)) (n : ℕ) :
    Lines (Bool × BitVec AW × BitVec DW × BitVec (DW / 8)) :=
  lines opt (owner x n) (x n).a (x n).b (x n).slave

theorem wired (rAOwner : Bool) (a b : WbMaster AW DW) (slave : DblReply) :
    Wired (lines opt rAOwner a b slave) := by
  apply wired_arbLines
  · unfold bus
    cases rAOwner <;> simp
  · unfold bus
    cases rAOwner <;> simp

theorem turn {rAOwner : Bool} {a b : WbMaster AW DW} (h : nextOwner rAOwner a b ≠ rAOwner) :
    (if rAOwner then a.cyc else b.cyc) = false := by
  unfold nextOwner at h
  grind

/-- `wbpriarbiter` separates its masters. -/
theorem runs_separated {x : ℕ → ArbIn (WbMaster AW DW)} (h : Obeys (runLines opt x)) :
    Separated (runLines opt x) := by
  refine Arbitration.separated (fun n => wired opt _ _ _ _) ?_ h
  intro n hne
  left
  exact turn hne

end Wbpriarbiter

namespace Wbdblpriarb

variable {AW : ℕ} (opt : Bool)

/-- The owner at each clock. -/
def owner (x : ℕ → ArbIn (DblMaster AW)) : ℕ → Bool :=
  Clocked.run (fun o i => nextOwner o i.a i.b i.iReset) true x

def runLines (x : ℕ → ArbIn (DblMaster AW)) (n : ℕ) :
    Lines (Bool × Bool × Bool × BitVec AW × BitVec 32 × BitVec 4) :=
  lines opt (owner x n) (x n).a (x n).b (x n).iReset (x n).slave

theorem wired (rAOwner : Bool) (a b : DblMaster AW) (iReset : Bool) (slave : DblReply) :
    Wired (lines opt rAOwner a b iReset slave) := by
  apply wired_arbLines
  · unfold oCyc zeroBus bus
    cases rAOwner <;> simp
  · unfold zeroBus bus
    cases rAOwner <;> simp

theorem turn {rAOwner : Bool} {a b : DblMaster AW} {iReset : Bool}
    (h : nextOwner rAOwner a b iReset ≠ rAOwner) :
    (if rAOwner then a.cycA || a.cycB else b.cycA || b.cycB) = false ∨ iReset = true := by
  unfold nextOwner at h
  grind

/-- `wbdblpriarb` separates its masters. -/
theorem runs_separated {x : ℕ → ArbIn (DblMaster AW)} (h : Obeys (runLines opt x)) :
    Separated (runLines opt x) := by
  refine Arbitration.separated (fun n => wired opt _ _ _ _ _) ?_ h
  intro n hne
  exact turn hne

end Wbdblpriarb

namespace Wbarbiter

variable {AW DW : ℕ} (scheme : Scheme) (opt : Bool)

/-- The registers at each clock. -/
def regs (x : ℕ → ArbIn (WbMaster AW DW)) : ℕ → Wbarbiter :=
  Clocked.run (fun s i => next scheme s i.a i.b) init x

def runLines (x : ℕ → ArbIn (WbMaster AW DW)) (n : ℕ) :
    Lines (Bool × BitVec AW × BitVec DW × BitVec (DW / 8)) :=
  lines opt (regs scheme x n) (x n).a (x n).b (x n).slave

/-- A master that strobes within its cycles does not notice that the strobe is gated. -/
theorem gated_request {m : WbMaster AW DW} (h : m.request ≠ none → m.cyc = true) :
    { m with stb := if opt then m.cyc && m.stb else m.stb }.request = m.request := by
  unfold WbMaster.request at h ⊢
  cases opt
  · rfl
  · cases hstb : m.stb with
    | false => simp
    | true => simp [h (by simp [hstb])]

theorem wired (s : Wbarbiter) (a b : WbMaster AW DW) (slave : DblReply)
    (ha : a.request ≠ none → a.cyc = true) (hb : b.request ≠ none → b.cyc = true) :
    Wired (lines opt s a b slave) := by
  apply wired_arbLines
  · unfold bus
    cases s.rAOwner <;> simp
  · unfold bus
    cases s.rAOwner
    · exact (WbMaster.zeroIdle_request _ _).trans (gated_request opt hb)
    · exact (WbMaster.zeroIdle_request _ _).trans (gated_request opt ha)

theorem turn {s : Wbarbiter} {a b : WbMaster AW DW} (h : nextOwner scheme s a b ≠ s.rAOwner) :
    (if s.rAOwner then a.cyc else b.cyc) = false := by
  unfold nextOwner at h
  cases scheme <;> grind

/-- `wbarbiter` separates its masters, with any scheme. -/
theorem runs_separated {x : ℕ → ArbIn (WbMaster AW DW)} (h : Obeys (runLines scheme opt x)) :
    Separated (runLines scheme opt x) := by
  refine Arbitration.separated ?_ ?_ h
  · intro n
    exact wired opt _ _ _ _ (h.strobe n true) (h.strobe n false)
  · intro n hne
    left
    exact turn scheme hne

end Wbarbiter

/-- The arbiters separate their masters, with and without OPT_ZERO_ON_IDLE. -/
theorem arbiters_separate (AW DW : ℕ) (opt : Bool) :
    (∀ x : ℕ → ArbIn (WbMaster AW DW), Obeys (Wbpriarbiter.runLines opt x) →
      Separated (Wbpriarbiter.runLines opt x)) ∧
    (∀ x : ℕ → ArbIn (DblMaster AW), Obeys (Wbdblpriarb.runLines opt x) →
      Separated (Wbdblpriarb.runLines opt x)) ∧
    (∀ (scheme : Scheme) (x : ℕ → ArbIn (WbMaster AW DW)),
      Obeys (Wbarbiter.runLines scheme opt x) → Separated (Wbarbiter.runLines scheme opt x)) :=
  ⟨fun _ h => Wbpriarbiter.runs_separated opt h, fun _ h => Wbdblpriarb.runs_separated opt h,
    fun scheme _ h => Wbarbiter.runs_separated scheme opt h⟩

/-- Master A reads on clock 0 and leaves the bus after the answer; master B is waiting for it. -/
def oneAfterTheOther (n : ℕ) : ArbIn (WbMaster 8 8) where
  a := { cyc := decide (n < 2), stb := n == 0, we := false, adr := 0x11, dat := 0, sel := 1 }
  b := { cyc := true, stb := true, we := true, adr := 0x22, dat := 0x5a, sel := 1 }
  slave := { ack := n == 1, stall := false, err := false }
  iReset := false

/-- The same on the first of two buses. -/
def oneAfterTheOtherDbl (n : ℕ) : ArbIn (DblMaster 8) where
  a := { cycA := decide (n < 2), cycB := false, stbA := n == 0, stbB := false, we := false,
         adr := 0x11, dat := 0, sel := 0xf }
  b := { cycA := true, cycB := false, stbA := true, stbB := false, we := true, adr := 0x22,
         dat := 0x5a, sel := 0xf }
  slave := { ack := n == 1, stall := false, err := false }
  iReset := false

theorem obeys_oneAfterTheOther {r : ℕ → Lines (Bool × BitVec 8 × BitVec 8 × BitVec (8 / 8))}
    (hreset : ∀ n, (r n).reset = false)
    (hcyc : ∀ n, (r n).cyc = fun m =>
      if m then (oneAfterTheOther n).a.cyc else (oneAfterTheOther n).b.cyc)
    (hreq : ∀ n, (r n).req = fun m =>
      if m then (oneAfterTheOther n).a.request else (oneAfterTheOther n).b.request) :
    Obeys r := by
  refine ⟨?_, ?_⟩
  · intro n m h
    rw [hreq] at h
    rw [hcyc]
    cases m
    · rfl
    · cases n with
      | zero => rfl
      | succ n => exact absurd rfl h
  · intro n h
    rw [hreset] at h
    cases h

theorem obeys_oneAfterTheOtherDbl :
    Obeys (Wbdblpriarb.runLines true oneAfterTheOtherDbl) := by
  refine ⟨?_, ?_⟩
  · intro n m h
    cases m
    · rfl
    · cases n with
      | zero => rfl
      | succ n => exact absurd rfl h
  · intro n h
    cases h

theorem arbiters_separate_oneAfterTheOther :
    (Wbpriarbiter.owner oneAfterTheOther 2 = true ∧ Wbpriarbiter.owner oneAfterTheOther 3 = false ∧
      Separated (Wbpriarbiter.runLines true oneAfterTheOther)) ∧
    (Wbdblpriarb.owner oneAfterTheOtherDbl 2 = true ∧
      Wbdblpriarb.owner oneAfterTheOtherDbl 3 = false ∧
      Separated (Wbdblpriarb.runLines true oneAfterTheOtherDbl)) ∧
    ∀ scheme, (Wbarbiter.regs scheme oneAfterTheOther 2).rAOwner = true ∧
      (Wbarbiter.regs scheme oneAfterTheOther 3).rAOwner = false ∧
      Separated (Wbarbiter.runLines scheme true oneAfterTheOther) := by
  refine ⟨⟨rfl, rfl, ?_⟩, ⟨rfl, rfl, ?_⟩, ?_⟩
  · exact (arbiters_separate 8 8 true).1 oneAfterTheOther
      (obeys_oneAfterTheOther (fun _ => rfl) (fun _ => rfl) fun _ => rfl)
  · exact (arbiters_separate 8 8 true).2.1 oneAfterTheOtherDbl obeys_oneAfterTheOtherDbl
  · intro scheme
    refine ⟨by cases scheme <;> rfl, by cases scheme <;> rfl, ?_⟩
    exact (arbiters_separate 8 8 true).2.2 scheme oneAfterTheOther
      (obeys_oneAfterTheOther (fun _ => rfl) (fun _ => rfl) fun _ => rfl)

/-- Master B is on the bus when the reset comes. -/
def resetInCycle (n : ℕ) : ArbIn (DblMaster 8) where
  a := { cycA := false, cycB := false, stbA := false, stbB := false, we := false, adr := 0,
         dat := 0, sel := 0 }
  b := { cycA := decide (n < 2), cycB := false, stbA := decide (n < 2), stbB := false, we := true,
         adr := 0x22, dat := 0x5a, sel := 0xf }
  slave := { ack := false, stall := true, err := false }
  iReset := n == 1

/-- The reset takes the bus away from an owner that is in a cycle. -/
theorem reset_takes_the_bus :
    ∃ x : ℕ → ArbIn (DblMaster 8), Obeys (Wbdblpriarb.runLines false x) ∧
      (Wbdblpriarb.runLines false x 2).owner ≠ (Wbdblpriarb.runLines false x 1).owner ∧
      (Wbdblpriarb.runLines false x 1).cyc (Wbdblpriarb.runLines false x 1).owner = true := by
  refine ⟨resetInCycle, ⟨?_, ?_⟩, by decide, by decide⟩
  · intro n m h
    cases m
    · by_cases hn : n < 2
      · show (decide (n < 2) || false) = true
        simp [hn]
      · exfalso
        apply h
        show DblMaster.request (resetInCycle n).b = none
        simp [DblMaster.request, resetInCycle, hn]
    · exact absurd rfl h
  · intro n h m
    have hn : n = 1 := by
      change (n == 1) = true at h
      exact eq_of_beq h
    subst hn
    cases m <;> rfl

end ZipStormMX.Cpu
