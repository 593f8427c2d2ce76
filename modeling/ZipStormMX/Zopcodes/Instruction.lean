/-
  What the CPU executes, and when a line shows it.

  `Insn` is an instruction as `idecode` hands it on, with the operands that it uses.  A name may
  stand for several operations, and for operands that are not printed behind it: "RTN" for a move of
  R0 to the PC, "BNZ" for the condition, "CLR" for a zero.  A line shows an instruction if the name
  stands for the operation, and each operand that is printed, or that the name stands for, is the
  one that is used.
-/
import ZipStormMX.Cpu.Idecode
import ZipStormMX.Zopcodes.Line

namespace ZipStormMX.Zopcodes

open Cpu
open Cpu.Decode (ownReg)

/-! ## Instructions -/

inductive Operation where
  | sub | and | add | or | xor | lsr | lsl | asr | brev | ldilo | mpyuhi | mpyshi | mpy | mov
  | divu | divs | cmp | tst | lw | sw | lh | sh | lb | sb | ldi | brk | lock | sim | noop
deriving DecidableEq

/-- An instruction: `o_cond`, the register `o_dcdR` that it writes or, as `o_dcdA`, reads, the
    register `o_dcdB`, and the immediate that is added to it. -/
structure Insn where
  operation : Operation
  cond : BitVec 4
  reg : Option (BitVec 5)
  regB : Option (BitVec 5)
  imm : Option (BitVec 32)
deriving DecidableEq

/-- The operation of an operation code, short of the special ones. -/
def operationOf (op : BitVec 5) : Operation :=
  match op.toNat with
  | 0x00 => .sub
  | 0x01 => .and
  | 0x02 => .add
  | 0x03 => .or
  | 0x04 => .xor
  | 0x05 => .lsr
  | 0x06 => .lsl
  | 0x07 => .asr
  | 0x08 => .brev
  | 0x09 => .ldilo
  | 0x0a => .mpyuhi
  | 0x0b => .mpyshi
  | 0x0c => .mpy
  | 0x0d => .mov
  | 0x0e => .divu
  | 0x0f => .divs
  | 0x10 => .cmp
  | 0x11 => .tst
  | 0x12 => .lw
  | 0x13 => .sw
  | 0x14 => .lh
  | 0x15 => .sh
  | 0x16 => .lb
  | 0x17 => .sb
  | _ => .ldi

/-- The immediate as an operand: in words, where it is added to a PC. -/
def scaled (toPc : Bool) (i : BitVec 32) : BitVec 32 :=
  if toPc then i.extractLsb' 0 30 ++ 0#2 else i

/-- The instruction that is decoded from a word. -/
def decoded (c : DecodeCfg) (w : BitVec 32) (gie : Bool) : Insn where
  operation :=
    if Decode.wBreak c w gie then .brk
    else if Decode.wLock c w gie then .lock
    else if Decode.wSim c w gie then .sim
    else if Decode.wNoop c w gie then .noop
    else operationOf (Decode.wCisOp c w)
  cond := Decode.wCond c w gie
  reg := if Decode.wWR c w gie || Decode.wRA c w gie then some (Decode.wDcdR c w gie) else none
  regB := if Decode.wRB c w gie then some (Decode.wDcdB c w gie) else none
  imm :=
    if Decode.wSpecial c w gie then none
    else some (scaled (Decode.wDcdBPc c w gie) ((Decode.wI c w).signExtend 32))

/-! ## What names stand for -/

namespace Mnemonic

/-- The operations that a name stands for. -/
def operations : Mnemonic → List Operation
  | .busy | .bz | .blt | .bc | .bv | .bnz | .bge | .bnc | .bra | .add => [.add]
  | .trap => [.ldi, .brev, .ldilo]
  | .clr => [.ldi, .brev]
  | .halt | .wait | .rtu | .or => [.or]
  | .rtn | .jmp | .mov => [.mov]
  | .jmpi | .ldi => [.ldi]
  | .ljmp | .lw => [.lw]
  | .sub => [.sub]
  | .and => [.and]
  | .xor => [.xor]
  | .lsr => [.lsr]
  | .lsl => [.lsl]
  | .asr => [.asr]
  | .brev => [.brev]
  | .ldilo => [.ldilo]
  | .mpyuhi => [.mpyuhi]
  | .mpyshi => [.mpyshi]
  | .mpy => [.mpy]
  | .divu => [.divu]
  | .divs => [.divs]
  | .cmp => [.cmp]
  | .tst => [.tst]
  | .sw => [.sw]
  | .lh => [.lh]
  | .sh => [.sh]
  | .lb => [.lb]
  | .sb => [.sb]
  | .brk => [.brk]
  | .lock => [.lock]
  | .sim => [.sim]
  | .noop => [.noop]
  | _ => []

/-- The condition that a name stands for: always, if nothing else. -/
def cond : Mnemonic → BitVec 4
  | .bz => 1#4
  | .blt => 2#4
  | .bc => 3#4
  | .bv => 4#4
  | .bnz => 5#4
  | .bge => 6#4
  | .bnc => 7#4
  | _ => 8#4

/-- The register that a name stands for. -/
def reg : Mnemonic → Option (BitVec 4)
  | .busy | .bz | .blt | .bc | .bv | .bnz | .bge | .bnc | .bra | .rtn | .jmp | .ljmp => some pcReg
  | .trap | .halt | .wait | .rtu => some ccReg
  | _ => none

/-- The register that a name stands for as operand B. -/
def regB : Mnemonic → Option (BitVec 4)
  | .rtn => some 0#4
  | .ljmp => some pcReg
  | _ => none

/-- The immediate that a name stands for: sleep and GIE are bits 4 and 5 of the CC register. -/
def imm : Mnemonic → Option (BitVec 32)
  | .busy => some (BitVec.allOnes 32)
  | .trap | .clr | .rtn | .ljmp => some 0
  | .halt => some 0x10
  | .rtu => some 0x20
  | .wait => some 0x30
  | _ => none

end Mnemonic

/-! ## What lines say -/

/-- The condition code for an index in `zip_ccstr`. -/
def condIndex (v : BitVec 32) : BitVec 4 := BitVec.ofBool (v.setWidth 3 == 0) ++ v.setWidth 3

/-- The register for an index in `zip_regstr`: from 16 on, of the user set. -/
def regIndex (gie : Bool) (v : BitVec 32) : BitVec 5 :=
  if v.getLsbD 4 then v.setWidth 5 else ownReg gie (v.setWidth 4)

namespace Line

variable (l : Line) (gie : Bool)

def condition : BitVec 4 := (l.cond.map condIndex).getD l.opstr.cond

def register : Option (BitVec 5) := l.ra.map (regIndex gie) <|> l.opstr.reg.map (ownReg gie)

/-- Operand B.  A move for which an address is printed is one from the PC. -/
def operandB : Option (BitVec 5) :=
  l.rb.map (regIndex gie) <|>
    (if l.opstr = .mov then l.address.map fun _ => ownReg gie pcReg else none) <|>
    l.opstr.regB.map (ownReg gie)

/-- The immediate.  An address that is printed is behind the word at `addr` by so much. -/
def immediate (addr : BitVec 32) : Option (BitVec 32) :=
  l.imm <|> l.address.map (fun a => a - (addr + 4)) <|> l.opstr.imm

end Line

variable {AW : ℕ}

/-- The word address `w` as an operand. -/
def pcOperand (w : BitVec AW) : BitVec 32 := (byteAddr w 0#2).setWidth 32

/-- What the immediate of an instruction comes to, added to the PC, which is at word `at`: where the
    CPU goes to, if the sum is for the PC. -/
def Insn.sum (n : Insn) (gie : Bool) (pc : BitVec AW) : BitVec 32 :=
  let v := pcOperand pc + n.imm.getD 0
  if n.reg = some (ownReg gie pcReg) then pcOperand (v.extractLsb' 2 AW) else v

/-- **The line shows the instruction.**  `addr` is the address of the word, and `pc` the word address
    that the instruction finds in the PC. -/
structure Shows (gie : Bool) (addr : BitVec 32) (pc : BitVec AW) (l : Line) (n : Insn) : Prop where
  operation : n.operation ∈ l.opstr.operations
  cond : l.condition = n.cond
  reg : l.register gie = n.reg
  regB : l.operandB gie = n.regB
  imm : l.immediate addr = n.imm
  address : ∀ a, l.address = some a → a = n.sum gie pc

/-- The line shows a call, in both halves of the word: "JSR" for a move of the address behind the
    word to R0 and a move to the PC, "LJSR" for a move of the address one word further on, and a
    load of the PC. -/
def ShowsCall (gie : Bool) (l : Line) (n n' : Insn) : Prop :=
  (l.opstr = .jsr ∧
      n = ⟨.mov, 8#4, some (ownReg gie 0#4), some (ownReg gie pcReg), some 4⟩ ∧
      n' = ⟨.mov, 8#4, some (ownReg gie pcReg), l.register gie, some 0⟩) ∨
    (l.opstr = .ljsr ∧
      n = ⟨.mov, 8#4, some (ownReg gie 0#4), some (ownReg gie pcReg), some 8⟩ ∧
      n' = ⟨.lw, 8#4, some (ownReg gie pcReg), some (ownReg gie pcReg), some 0⟩)

/-! ## Words -/

/-- The word from which the lower half of a pair is decoded; of `x`, the word behind it, nothing is
    used. -/
def lowerHalf (w : BitVec 32) (x : BitVec 16) : BitVec 32 := 1#1 ++ w.extractLsb' 0 15 ++ x

/-- **What is printed for the word at `pc` is what is executed.** -/
def Disassembled (c : DecodeCfg) (gie : Bool) (pc : BitVec AW) (w : BitVec 32) : Prop :=
  let addr := pcOperand pc
  if Decode.cis w then
    match zipiToDoubleString addr w with
    | (la, some lb) => Shows gie addr pc la (decoded c w gie) ∧
        ∀ x, Shows gie addr (pc + 1) lb (decoded c (lowerHalf w x) gie)
    | (la, none) => ∀ x, ShowsCall gie la (decoded c w gie) (decoded c (lowerHalf w x) gie)
  else Shows gie addr (pc + 1) (zipiToDoubleString addr w).1 (decoded c w gie)

end ZipStormMX.Zopcodes
