/-
  What a program means: one instruction after the other, in supervisor mode.

  The interpreter takes the word at the program counter, the upper half of a compressed word before
  its lower half, splits it into the fields that `idecode` gives, and does in one step what these
  fields ask for.  It has no stages, no stalls and no bus: what a load reads is an input of the
  step, and `Runs` keeps a list of all accesses with what they carry.

  It stops (`Stops`) where the program leaves what is said here: at an illegal instruction, a break,
  a write to a CC register, or an access that is not aligned.
-/
import ZipStormMX.Cpu.Decoded
import ZipStormMX.Cpu.Fetch
import ZipStormMX.Cpu.Products
import ZipStormMX.Cpu.Zipcpu

namespace ZipStormMX.Cpu

variable {AW : ℕ}

/-! ## Instructions -/

/-- The fields of a decoded instruction. -/
structure Insn where
  r : BitVec 5
  a : BitVec 5
  b : BitVec 5
  rCc : Bool
  rPc : Bool
  bCc : Bool
  bPc : Bool
  imm : BitVec 32
  cond : BitVec 4
  op : BitVec 4
  wR : Bool
  wF : Bool
  rB : Bool
  alu : Bool
  mem : Bool
  brk : Bool
  illegal : Bool
  half : Bool
  deriving DecidableEq, Repr

/-- The fields of `w`, for the supervisor. -/
def DecodeCfg.insn (c : DecodeCfg) (w : BitVec 32) : Insn where
  r := Decode.wDcdR c w false
  a := Decode.wDcdA c w false
  b := Decode.wDcdB c w false
  rCc := Decode.wDcdRCc c w false
  rPc := Decode.wDcdRPc c w false
  bCc := Decode.wDcdBCc c w false
  bPc := Decode.wDcdBPc c w false
  imm := (Decode.wI c w).signExtend 32
  cond := Decode.wCond c w false
  op := Decode.op c w false
  wR := Decode.wWR c w false
  wF := Decode.wWF c w false
  rB := Decode.wRB c w false
  alu := Decode.isALU c w false
  mem := Decode.wMem c w
  brk := Decode.wBreak c w false
  illegal := Decode.wIllegal c w false
  half := c.optCis && Decode.cis w

/-- The word that is decoded at `pc`, of the program's word there: bit one of `pc` stands for the
    lower half. -/
def DecodeCfg.wordAt (c : DecodeCfg) (pc : BitVec (AW + 2)) (w : BitVec 32) : BitVec 32 :=
  if c.optCis then if pc.getLsbD 1 then 1#1 ++ w.extractLsb' 0 15 ++ 0#16 else w
  else 0#1 ++ w.extractLsb' 0 31

/-- The instruction at `pc`.  Without compressed instructions, a word of two is illegal. -/
def DecodeCfg.insnAt (c : DecodeCfg) (prog : BitVec AW → BitVec 32) (pc : BitVec (AW + 2)) : Insn :=
  let w := prog (wordOf pc)
  let i := c.insn (c.wordAt pc w)
  { i with illegal := i.illegal || (!c.optCis && w.getLsbD 31) }

namespace Insn

variable (i : Insn)

/-- A store, where the instruction is one for the memory. -/
def isStore : Bool := i.op.getLsbD 0

/-- What it leaves in a register, if its condition holds. -/
def writes : Bool := if i.mem then !i.isStore else i.wR

/-- The address behind the instruction: that of the lower half, or of the next word. -/
def nextPc (pc : BitVec (AW + 2)) : BitVec (AW + 2) :=
  if i.half && !pc.getLsbD 1 then byteAddr (wordOf pc) 0b10#2 else byteAddr (wordOf pc + 1) 0#2

end Insn

/-! ## States -/

/-- What a program sees of the machine: the registers of both sets, the flags, and the program
    counters.  Bit one of `pc` tells that the lower half of a word comes next; `uphase` is that
    bit of the user's. -/
structure Arch (AW : ℕ) where
  regs : BitVec 5 → BitVec 32
  flags : BitVec 4
  userFlags : BitVec 4
  pc : BitVec (AW + 2)
  upc : BitVec (AW + 2)
  uphase : Bool

/-- An access to the bus: `lcl` tells the local one.  A load has its answer, a store its data. -/
inductive BusAccess (AW : ℕ) where
  | load (lcl : Bool) (addr : BitVec AW) (sel : BitVec 4) (answer : BitVec 32)
  | store (lcl : Bool) (addr : BitVec AW) (sel : BitVec 4) (data : BitVec 32)
  deriving DecidableEq, Repr

/-- Where a jump to `v` goes: to a whole word. -/
def jumpTarget (v : BitVec 32) : BitVec (AW + 2) := byteAddr (v.extractLsb' 2 AW) 0#2

/-- The condition `k` on the flags. -/
def condHolds (k fl : BitVec 4) : Bool :=
  let f : BitVec 8 := BitVec.ofBool ((Zipcpu.condOf k).getLsbD 3) ++ Zipcpu.condOf k
  f.extractLsb' 4 4 &&& fl == f.extractLsb' 0 4

/-- What the ALU makes of its operands: the result and the flags. -/
def aluAnswer (op : BitVec 4) (a b : BitVec 32) : Cpuops :=
  let r := Cpuops.aluCase op a b (Mpyop.product (op.extractLsb' 0 2) a b)
  { Cpuops.init with
    oC := r.2
    c := r.1
    preSign := a.getLsbD 31
    setOvfl := Cpuops.mayOverflow op a b || op == 0x6#4 || op == 0x5#4
    keepSgnOnOvfl := Cpuops.mayOverflow op a b }

namespace Arch

variable (c : CpuCfg AW) (s : Arch AW) (i : Insn)

/-- A program counter as an operand. -/
def pcOperand (user : Bool) : BitVec 32 :=
  if user then (byteAddr (wordOf s.upc) (BitVec.ofBool (c.optCis && s.uphase) ++ 0#1)).setWidth 32
  else (byteAddr (wordOf (i.nextPc s.pc)) 0#2).setWidth 32

/-- A CC register as an operand: no error is pending, and the user does not sleep, step or trap. -/
def ccOperand (user : Bool) (v : BitVec 32) : BitVec 32 :=
  Zipcpu.wCpuInfo c ++ v.extractLsb' 16 7 ++ 0#1 ++
    (if user then
      0#1 ++ BitVec.ofBool (c.optCis && s.uphase) ++ 0#7 ++ 1#1 ++ 0#1 ++ s.userFlags
    else 0#11 ++ s.flags)

def operandA : BitVec 32 :=
  if i.rPc then pcOperand c s i (i.a.getLsbD 4)
  else if i.rCc then ccOperand c s (i.a.getLsbD 4) (s.regs i.a)
  else s.regs i.a

def operandB : BitVec 32 :=
  if i.bPc && i.rB then pcOperand c s i (i.b.getLsbD 4) + (i.imm.extractLsb' 0 30 ++ 0#2)
  else
    (if !i.rB then 0
      else if i.bCc then ccOperand c s (i.b.getLsbD 4) (s.regs i.b)
      else s.regs i.b) + i.imm

def executes : Bool := condHolds i.cond s.flags

/-- The key of an access: its size and where it is in a word. -/
def key : BitVec 4 := laneKey (i.op.extractLsb' 0 3) (operandB c s i)

/-- The access of a memory instruction.  `d` is what the bus answers to a load. -/
def accesses (d : BitVec 32) : List (BusAccess AW) :=
  if i.mem && executes s i then
    let lcl := c.withLocalBus && lclAddr (operandB c s i)
    let addr : BitVec AW := (operandB c s i).extractLsb' 2 AW
    let sel := laneSel (key c s i)
    if i.isStore then [.store lcl addr sel (laneCopies (key c s i) (operandA c s i))]
    else [.load lcl addr sel d]
  else []

/-- The value an instruction leaves in its register. -/
def result (d : BitVec 32) : BitVec 32 :=
  if i.mem then laneResult (key c s i) d
  else (aluAnswer i.op (operandA c s i) (operandB c s i)).oC

/-- A register is written: a program counter takes the value, too. -/
def write (r : BitVec 5) (v : BitVec 32) : Arch AW :=
  { s with
    regs := fun q => if q == r then v else s.regs q
    pc := if r == 0#1 ++ pcReg then jumpTarget v else s.pc
    upc := if r == 1#1 ++ pcReg then jumpTarget v else s.upc
    uphase := if r == 1#1 ++ pcReg then v.getLsbD 1 else s.uphase }

/-- One instruction.  `d` is what the bus answers to a load. -/
def step (d : BitVec 32) : Arch AW :=
  let behind : Arch AW :=
    { s with
      pc := i.nextPc s.pc
      flags :=
        if !i.mem && executes s i && i.wF && (!i.rCc || !i.wR) then
          (aluAnswer i.op (operandA c s i) (operandB c s i)).oF
        else s.flags }
  if executes s i && i.writes then behind.write i.r (result c s i d) else behind

/-- Where the interpreter stops. -/
def Stops : Prop :=
  i.illegal = true ∨ i.brk = true ∨
    (executes s i = true ∧
      ((i.writes = true ∧ i.r.extractLsb' 0 4 = ccReg) ∨
        (i.mem = true ∧ badAlignment (key c s i) = true)))

/-- Where the interpreter stops can be computed. -/
instance : Decidable (s.Stops c i) := inferInstanceAs (Decidable (_ ∨ _ ∨ _))

end Arch

variable {c : CpuCfg AW} {prog : BitVec AW → BitVec 32}

/-- The instruction that comes next. -/
def Arch.insn (c : CpuCfg AW) (prog : BitVec AW → BitVec 32) (s : Arch AW) : Insn :=
  c.decode.insnAt prog s.pc

/-- `k` instructions, with their accesses. -/
inductive Runs (c : CpuCfg AW) (prog : BitVec AW → BitVec 32) (s : Arch AW) :
    ℕ → List (BusAccess AW) → Arch AW → Prop
  | start : Runs c prog s 0 [] s
  | step {k : ℕ} {l : List (BusAccess AW)} {t : Arch AW} (d : BitVec 32) (h : Runs c prog s k l t)
      (go : ¬t.Stops c (t.insn c prog)) :
      Runs c prog s (k + 1) (l ++ t.accesses c (t.insn c prog) d) (t.step c (t.insn c prog) d)

/-! ## One outcome -/

theorem Arch.accesses_of_not_mem {s : Arch AW} {i : Insn} (h : i.mem = false) (d : BitVec 32) :
    s.accesses c i d = [] := by
  rw [accesses, h, Bool.false_and, if_neg Bool.false_ne_true]

/-- How many accesses an instruction makes does not depend on the answer. -/
theorem Arch.accesses_length (s : Arch AW) (i : Insn) (d d' : BitVec 32) :
    (s.accesses c i d).length = (s.accesses c i d').length := by
  rw [accesses, accesses]
  cases i.mem && s.executes i
  · rfl
  · cases i.isStore <;> rfl

/-- What an instruction does depends on the answer to its own load alone. -/
theorem Arch.step_of_accesses (s : Arch AW) (i : Insn) {d d' : BitVec 32}
    (h : s.accesses c i d = s.accesses c i d') : s.step c i d = s.step c i d' := by
  rw [step, step]
  cases hw : s.executes i && i.writes
  · rfl
  · rw [if_pos rfl, if_pos rfl]
    have hresult : s.result c i d = s.result c i d' := by
      rw [result, result]
      cases hm : i.mem
      · rfl
      · obtain ⟨hexec, hwr⟩ := Bool.and_eq_true_iff.mp hw
        have hload : i.isStore = false := by
          rw [Insn.writes, hm, if_pos rfl, Bool.not_eq_true'] at hwr
          exact hwr
        rw [accesses, accesses, hm, hexec, hload] at h
        obtain rfl : d = d' := by
          injection h with hhead
          injection hhead
        rfl
    rw [hresult]

/-- **The answers fix the run**: of two runs with as many instructions, whose accesses begin the
    same list, both the accesses and the outcome are the same. -/
theorem Runs.unique {a t t' : Arch AW} {k : ℕ} {l l' : List (BusAccess AW)}
    (h : Runs c prog a k l t) (h' : Runs c prog a k l' t') {e : List (BusAccess AW)}
    (hl : l <+: e) (hl' : l' <+: e) : l = l' ∧ t = t' := by
  induction h generalizing l' t' with
  | start =>
    cases h'
    exact ⟨rfl, rfl⟩
  | @step k l t d h _ ih =>
    cases h' with
    | step d' h' _ =>
      obtain ⟨rfl, rfl⟩ := ih h' ((List.prefix_append _ _).trans hl)
        ((List.prefix_append _ _).trans hl')
      -- both lists have the same length
      have hlength := congrArg (l.length + ·) (Arch.accesses_length (c := c) t (t.insn c prog) d d')
      simp only [← List.length_append] at hlength
      have hsame := (List.prefix_of_prefix_length_le hl hl' hlength.le).eq_of_length hlength
      exact ⟨hsame, Arch.step_of_accesses _ _ (List.append_cancel_left hsame)⟩

/-! ## The lower half -/

section Halves

variable {d : DecodeCfg}

/-- What is decoded of a compressed instruction does not depend on the sixteen bits below it. -/
theorem insn_half (hc : d.optCis = true) (h : BitVec 15) (j : BitVec 16) :
    d.insn (1#1 ++ h ++ j) = d.insn (1#1 ++ h ++ 0#16) := by
  have hbits : ∀ (j : BitVec 16) (k l : ℕ), 16 ≤ k →
      (1#1 ++ h ++ j).extractLsb' k l = (1#1 ++ h).extractLsb' (k - 16) l := fun j k l hk =>
    BitVec.extractLsb'_append_eq_of_le hk
  have hbit : ∀ (j : BitVec 16) (k : ℕ), 16 ≤ k →
      (1#1 ++ h ++ j).getLsbD k = (1#1 ++ h).getLsbD (k - 16) := fun j k hk => by
    rw [BitVec.getLsbD_append, if_neg (by omega)]
  have hcis : ∀ j : BitVec 16, Decode.cis (1#1 ++ h ++ j) = true := fun j => by
    rw [Decode.cis, hbit j 31 (by omega), BitVec.getLsbD_append]
    rfl
  have hop : ∀ j : BitVec 16, Decode.wCisOp d (1#1 ++ h ++ j) =
      Decode.wCisOp d (1#1 ++ h ++ 0#16) := fun j => by
    simp only [Decode.wCisOp, hcis, hc, hbits _ 24 3 (by omega)]
    rfl
  have hr : Decode.wDcdR d (1#1 ++ h ++ j) false = Decode.wDcdR d (1#1 ++ h ++ 0#16) false := by
    simp only [Decode.wDcdR, hcis, Bool.not_true, Bool.false_and, Bool.false_eq_true, if_false,
      hbits _ 27 4 (by omega)]
  simp only [DecodeCfg.insn, Decode.wDcdA, Decode.wDcdRCc, Decode.wDcdRPc, Decode.wDcdBCc,
    Decode.wDcdBPc, Decode.wDcdB, Decode.wCond, Decode.op, Decode.wWR, Decode.wWF, Decode.wRB,
    Decode.isALU, Decode.wMem, Decode.wBreak, Decode.wIllegal, Decode.wI, Decode.wHalfI,
    Decode.wMov, Decode.wLdi, Decode.wBrev, Decode.wMpy, Decode.wCmptst, Decode.wLdilo,
    Decode.wALU, Decode.wSto, Decode.wDiv, Decode.wFpu, Decode.wSpecial, Decode.wLock,
    Decode.wSim, Decode.wNoop, Decode.cisImmSel, Decode.immSel, hop j, hr, hcis,
    hc, hbits _ 24 3 (by omega),
    hbits _ 25 2 (by omega), hbits _ 19 4 (by omega), hbits _ 19 3 (by omega),
    hbits _ 16 8 (by omega),
    hbits _ 16 7 (by omega), hbits _ 16 3 (by omega), hbit _ 23 (by omega), hbit _ 18 (by omega),
    Bool.not_true, Bool.false_and, Bool.true_and, Bool.or_true, Bool.false_eq_true,
    if_false, if_true]

end Halves

/-! ## What a decoded instruction can be -/

section Kinds

variable {d : DecodeCfg} {w : BitVec 32}

/-- The memory instructions among the operations. -/
theorem not_special_of_mem (h : Decode.wMem d w = true) : Decode.wSpecial d w false = false := by
  cases hcis : Decode.cis w
  · rw [Decode.wMem, Decode.wCisOp_of_word hcis] at h
    rw [Decode.wSpecial, hcis]
    generalize Decode.wOp w = k at h ⊢
    generalize (!d.optFpu || Decode.isSpecial (Decode.wDcdR d w false)) = q
    revert k q
    decide
  · rw [Decode.wSpecial, hcis]
    rfl

/-- It is not for the ALU, too. -/
theorem not_alu_of_mem (h : Decode.wMem d w = true) : Decode.isALU d w false = false := by
  have hs := not_special_of_mem h
  simp only [Decode.isALU, Decode.wNoop, Decode.wLock, hs, Bool.false_and, Bool.and_false,
    Bool.or_false, Decode.wALU, Decode.wLdi, Decode.wCmptst]
  rw [Decode.wMem] at h
  generalize Decode.wCisOp d w = k at h ⊢
  revert k
  decide

/-- A store writes no register, and a load does. -/
theorem wWR_of_mem (h : Decode.wMem d w = true) :
    Decode.wWR d w false = !(Decode.op d w false).getLsbD 0 := by
  have hs := not_special_of_mem h
  simp only [Decode.wWR, Decode.op, Decode.wSto, Decode.wNoop, Decode.wLock, Decode.wLdi,
    Decode.wCmptst, h, hs, Bool.false_and, Bool.or_false, Bool.true_and]
  rw [Decode.wMem] at h
  generalize Decode.wCisOp d w = k at h ⊢
  revert k
  decide

/-- A multiplication is one by its operation, too. -/
theorem wMpy_of_isMultiplyOp (ha : Decode.isALU d w false = true)
    (h : Cpuops.isMultiplyOp (Decode.op d w false) = true) : Decode.wMpy d w = true := by
  have hop : Decode.op d w false = (Decode.wCisOp d w).extractLsb' 0 4 ∧
      Decode.wNoop d w false = false ∧ Decode.wLock d w false = false := by
    rw [Decode.op] at h ⊢
    split at h
    · cases h
    · rename_i hno
      simp only [Bool.or_eq_true, not_or, Bool.not_eq_true] at hno
      exact ⟨if_neg (by simp [hno]), hno.1.2, hno.2⟩
  obtain ⟨hop, hnoop, hlock⟩ := hop
  rw [hop] at h
  simp only [Decode.isALU, hnoop, hlock, Bool.and_false, Bool.or_false, Decode.wALU, Decode.wLdi,
    Decode.wCmptst] at ha
  rw [Decode.wMpy]
  generalize Decode.wCisOp d w = k at h ha ⊢
  revert k
  decide

end Kinds

namespace Insn

/-- Compressed instructions have no conditions. -/
theorem cond_of_half {d : DecodeCfg} {w : BitVec 32} (h : (d.insn w).half = true) :
    (d.insn w).cond = 8#4 := by
  have hcis : Decode.cis w = true := (Bool.and_eq_true_iff.mp h).2
  show Decode.wCond d w false = 8#4
  simp [Decode.wCond, hcis]

theorem writes_eq (d : DecodeCfg) (w : BitVec 32) : (d.insn w).writes = (d.insn w).wR := by
  unfold writes
  split
  · rename_i hm
    exact (wWR_of_mem hm).symm
  · rfl

end Insn

theorem condHolds_always (fl : BitVec 4) : condHolds 8#4 fl = true := by
  revert fl
  decide

end ZipStormMX.Cpu
