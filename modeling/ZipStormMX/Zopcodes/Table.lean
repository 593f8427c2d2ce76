/-
  The pattern tables of `zopcodes.cpp`.

  A row matches a word when the bits of the mask are those of the value; of the rows that match, the
  first one counts.  A row says where the operands stand in the word, as far as they are there.
-/
import Mathlib.Data.BitVec

namespace ZipStormMX.Zopcodes

/-- The names of instructions.  The last two are printed without a row of a table. -/
inductive Mnemonic where
  | busy | bz | blt | bc | bv | bnz | bge | bnc | bra | trap | clr | halt | wait | rtu | rtn
  | jmp | jmpi | ljmp | sub | and | add | or | xor | lsr | lsl | asr | brev | ldilo | mpyuhi
  | mpyshi | mpy | mov | divu | divs | cmp | tst | lw | sw | lh | sh | lb | sb | ldi | brk | lock
  | sim | sexit | sdump | sout | noop | nexit | ndump | nout | nsim | fpadd | fpsub | fpmpy
  | fpdiv | fpi2f | fpf2i | illv | ill | jsr | ljsr
deriving DecidableEq

/-- Where an operand stands in a word: `ln` bits from bit `mn` on, or a register from bit `mn` on, of
    the user set if it is `urg`.  `sp` stands nowhere. -/
inductive Field where
  | bits (ln mn : ℕ)
  | reg (mn : ℕ)
  | urg (mn : ℕ)
  | imm (ln mn : ℕ)
  | sp
deriving DecidableEq

/-- `ZOPCODE`.  An operand that is not there is `ZIP_OPUNUSED`. -/
structure Zopcode where
  sOpstr : Mnemonic
  sMask : BitVec 32
  sVal : BitVec 32
  sResult : Option Field
  sRa : Option Field
  sRb : Option Field
  sI : Option Field
  sCf : Option Field
deriving DecidableEq

namespace Macro

/-- `ZIP_OPUNUSED` -/
abbrev unused : Option Field := none

/-- `ZIP_BITFIELD` -/
abbrev bits (ln mn : ℕ) : Option Field := some (.bits ln mn)

/-- `ZIP_REGFIELD` -/
abbrev reg (mn : ℕ) : Option Field := some (.reg mn)

/-- `ZIP_URGFIELD` -/
abbrev urg (mn : ℕ) : Option Field := some (.urg mn)

/-- `ZIP_IMMFIELD` -/
abbrev imm (ln mn : ℕ) : Option Field := some (.imm ln mn)

/-- `ZIP_SP` -/
abbrev sp : Option Field := some .sp

end Macro

open Macro

/-- `zip_oplist_raw`: words, and the upper halves of pairs. -/
def zipOplist : List Zopcode := [
    ⟨.busy, 0xffc7ffff#32, 0x7883ffff#32, unused, unused, unused, unused, bits 3 19⟩,
    ⟨.bz, 0xfffc0000#32, 0x78880000#32, unused, unused, unused, imm 18 0, unused⟩,
    ⟨.blt, 0xfffc0000#32, 0x78900000#32, unused, unused, unused, imm 18 0, unused⟩,
    ⟨.bc, 0xfffc0000#32, 0x78980000#32, unused, unused, unused, imm 18 0, unused⟩,
    ⟨.bv, 0xfffc0000#32, 0x78a00000#32, unused, unused, unused, imm 18 0, unused⟩,
    ⟨.bnz, 0xfffc0000#32, 0x78a80000#32, unused, unused, unused, imm 18 0, unused⟩,
    ⟨.bge, 0xfffc0000#32, 0x78b00000#32, unused, unused, unused, imm 18 0, unused⟩,
    ⟨.bnc, 0xfffc0000#32, 0x78b80000#32, unused, unused, unused, imm 18 0, unused⟩,
    ⟨.bra, 0xffc40000#32, 0x78800000#32, unused, unused, unused, imm 18 0, bits 3 19⟩,
    ⟨.trap, 0xfffffff0#32, 0x76000000#32, unused, unused, unused, unused, unused⟩,
    ⟨.trap, 0xff800000#32, 0x76000000#32, unused, unused, unused, unused, unused⟩,
    ⟨.trap, 0xffc7ffff#32, 0x72000000#32, unused, unused, unused, imm 18 0, bits 3 19⟩,
    ⟨.trap, 0xffc4ffff#32, 0x72400000#32, unused, unused, unused, unused, bits 3 19⟩,
    ⟨.trap, 0xffc40000#32, 0x72400000#32, unused, unused, unused, imm 18 0, bits 3 19⟩,
    ⟨.clr, 0x87ffffff#32, 0x06000000#32, reg 27, unused, unused, unused, unused⟩,
    ⟨.clr, 0x87c7ffff#32, 0x02000000#32, reg 27, reg 27, unused, imm 18 0, bits 3 19⟩,
    ⟨.halt, 0xffc7ffff#32, 0x70c00010#32, unused, unused, unused, unused, bits 3 19⟩,
    ⟨.wait, 0xffc7ffff#32, 0x70c00030#32, unused, unused, unused, unused, bits 3 19⟩,
    ⟨.rtu, 0xffc7ffff#32, 0x70c00020#32, unused, unused, unused, unused, bits 3 19⟩,
    ⟨.rtn, 0xffc7ffff#32, 0x7b400000#32, unused, unused, unused, unused, bits 3 19⟩,
    ⟨.jmp, 0xffc40000#32, 0x7b400000#32, unused, unused, reg 14, imm 13 0, bits 3 19⟩,
    ⟨.jmpi, 0xff800000#32, 0x7e000000#32, reg 27, unused, unused, imm 23 0, unused⟩,
    ⟨.ljmp, 0xffffffff#32, 0x7c87c000#32, unused, unused, unused, unused, unused⟩,
    ⟨.sub, 0x87c40000#32, 0x00000000#32, reg 27, reg 27, unused, imm 18 0, bits 3 19⟩,
    ⟨.sub, 0x87c40000#32, 0x00040000#32, reg 27, reg 27, reg 14, imm 14 0, bits 3 19⟩,
    ⟨.and, 0x87c40000#32, 0x00400000#32, reg 27, reg 27, unused, imm 18 0, bits 3 19⟩,
    ⟨.and, 0x87c40000#32, 0x00440000#32, reg 27, reg 27, reg 14, imm 14 0, bits 3 19⟩,
    ⟨.add, 0x87c40000#32, 0x00800000#32, reg 27, reg 27, unused, imm 18 0, bits 3 19⟩,
    ⟨.add, 0x87c40000#32, 0x00840000#32, reg 27, reg 27, reg 14, imm 14 0, bits 3 19⟩,
    ⟨.or, 0x87c40000#32, 0x00c00000#32, reg 27, reg 27, unused, imm 18 0, bits 3 19⟩,
    ⟨.or, 0x87c40000#32, 0x00c40000#32, reg 27, reg 27, reg 14, imm 14 0, bits 3 19⟩,
    ⟨.xor, 0x87c40000#32, 0x01000000#32, reg 27, reg 27, unused, imm 18 0, bits 3 19⟩,
    ⟨.xor, 0x87c40000#32, 0x01040000#32, reg 27, reg 27, reg 14, imm 14 0, bits 3 19⟩,
    ⟨.lsr, 0x87c40000#32, 0x01400000#32, reg 27, reg 27, unused, imm 18 0, bits 3 19⟩,
    ⟨.lsr, 0x87c40000#32, 0x01440000#32, reg 27, reg 27, reg 14, imm 14 0, bits 3 19⟩,
    ⟨.lsl, 0x87c40000#32, 0x01800000#32, reg 27, reg 27, unused, imm 18 0, bits 3 19⟩,
    ⟨.lsl, 0x87c40000#32, 0x01840000#32, reg 27, reg 27, reg 14, imm 14 0, bits 3 19⟩,
    ⟨.asr, 0x87c40000#32, 0x01c00000#32, reg 27, reg 27, unused, imm 18 0, bits 3 19⟩,
    ⟨.asr, 0x87c40000#32, 0x01c40000#32, reg 27, reg 27, reg 14, imm 14 0, bits 3 19⟩,
    ⟨.brev, 0x87c40000#32, 0x02000000#32, reg 27, reg 27, unused, imm 18 0, bits 3 19⟩,
    ⟨.brev, 0x87c40000#32, 0x02040000#32, reg 27, reg 27, reg 14, imm 14 0, bits 3 19⟩,
    ⟨.ldilo, 0x87c40000#32, 0x02400000#32, reg 27, reg 27, unused, imm 18 0, bits 3 19⟩,
    ⟨.ldilo, 0x87c40000#32, 0x02440000#32, reg 27, reg 27, reg 14, imm 14 0, bits 3 19⟩,
    ⟨.mpyuhi, 0x87c40000#32, 0x02800000#32, reg 27, reg 27, unused, imm 18 0, bits 3 19⟩,
    ⟨.mpyuhi, 0x87c40000#32, 0x02840000#32, reg 27, reg 27, reg 14, imm 14 0, bits 3 19⟩,
    ⟨.mpyshi, 0x87c40000#32, 0x02c00000#32, reg 27, reg 27, unused, imm 18 0, bits 3 19⟩,
    ⟨.mpyshi, 0x87c40000#32, 0x02c40000#32, reg 27, reg 27, reg 14, imm 14 0, bits 3 19⟩,
    ⟨.mpy, 0x87c40000#32, 0x03000000#32, reg 27, reg 27, unused, imm 18 0, bits 3 19⟩,
    ⟨.mpy, 0x87c40000#32, 0x03040000#32, reg 27, reg 27, reg 14, imm 14 0, bits 3 19⟩,
    ⟨.mov, 0x87c42000#32, 0x03400000#32, reg 27, unused, reg 14, imm 13 0, bits 3 19⟩,
    ⟨.mov, 0x87c42000#32, 0x03440000#32, urg 27, unused, reg 14, imm 13 0, bits 3 19⟩,
    ⟨.mov, 0x87c42000#32, 0x03402000#32, reg 27, unused, urg 14, imm 13 0, bits 3 19⟩,
    ⟨.mov, 0x87c42000#32, 0x03442000#32, urg 27, unused, urg 14, imm 13 0, bits 3 19⟩,
    ⟨.divu, 0x87c40000#32, 0x03800000#32, reg 27, reg 27, unused, imm 18 0, bits 3 19⟩,
    ⟨.divu, 0x87c40000#32, 0x03840000#32, reg 27, reg 27, reg 14, imm 14 0, bits 3 19⟩,
    ⟨.divs, 0x87c40000#32, 0x03c00000#32, reg 27, reg 27, unused, imm 18 0, bits 3 19⟩,
    ⟨.divs, 0x87c40000#32, 0x03c40000#32, reg 27, reg 27, reg 14, imm 14 0, bits 3 19⟩,
    ⟨.cmp, 0x87c40000#32, 0x04000000#32, unused, reg 27, unused, imm 18 0, bits 3 19⟩,
    ⟨.cmp, 0x87c40000#32, 0x04040000#32, unused, reg 27, reg 14, imm 14 0, bits 3 19⟩,
    ⟨.tst, 0x87c40000#32, 0x04400000#32, unused, reg 27, unused, imm 18 0, bits 3 19⟩,
    ⟨.tst, 0x87c40000#32, 0x04440000#32, unused, reg 27, reg 14, imm 14 0, bits 3 19⟩,
    ⟨.lw, 0x87c40000#32, 0x04800000#32, reg 27, unused, unused, imm 18 0, bits 3 19⟩,
    ⟨.lw, 0x87c40000#32, 0x04840000#32, reg 27, unused, reg 14, imm 14 0, bits 3 19⟩,
    ⟨.sw, 0x87c40000#32, 0x04c00000#32, unused, reg 27, unused, imm 18 0, bits 3 19⟩,
    ⟨.sw, 0x87c40000#32, 0x04c40000#32, unused, reg 27, reg 14, imm 14 0, bits 3 19⟩,
    ⟨.lh, 0x87c40000#32, 0x05000000#32, reg 27, unused, unused, imm 18 0, bits 3 19⟩,
    ⟨.lh, 0x87c40000#32, 0x05040000#32, reg 27, unused, reg 14, imm 14 0, bits 3 19⟩,
    ⟨.sh, 0x87c40000#32, 0x05400000#32, unused, reg 27, unused, imm 18 0, bits 3 19⟩,
    ⟨.sh, 0x87c40000#32, 0x05440000#32, unused, reg 27, reg 14, imm 14 0, bits 3 19⟩,
    ⟨.lb, 0x87c40000#32, 0x05800000#32, reg 27, unused, unused, imm 18 0, bits 3 19⟩,
    ⟨.lb, 0x87c40000#32, 0x05840000#32, reg 27, unused, reg 14, imm 14 0, bits 3 19⟩,
    ⟨.sb, 0x87c40000#32, 0x05c00000#32, unused, reg 27, unused, imm 18 0, bits 3 19⟩,
    ⟨.sb, 0x87c40000#32, 0x05c40000#32, unused, reg 27, reg 14, imm 14 0, bits 3 19⟩,
    ⟨.ldi, 0x87800000#32, 0x06000000#32, reg 27, unused, unused, imm 23 0, unused⟩,
    ⟨.brk, 0xf7ffffff#32, 0x77000000#32, unused, unused, unused, unused, unused⟩,
    ⟨.brk, 0xf7c00000#32, 0x77000000#32, unused, unused, unused, imm 22 0, unused⟩,
    ⟨.lock, 0xf7ffffff#32, 0x77400000#32, unused, unused, unused, unused, unused⟩,
    ⟨.lock, 0xf7c00000#32, 0x77400000#32, unused, unused, unused, imm 22 0, unused⟩,
    ⟨.sim, 0xf7ffffff#32, 0x77800000#32, unused, unused, unused, unused, unused⟩,
    ⟨.sexit, 0xf7ffffff#32, 0x77800100#32, unused, unused, unused, unused, unused⟩,
    ⟨.sexit, 0xf7fffff0#32, 0x77800310#32, unused, urg 0, unused, unused, unused⟩,
    ⟨.sexit, 0xf7ffffe0#32, 0x77800300#32, unused, reg 0, unused, unused, unused⟩,
    ⟨.sexit, 0xf7ffff00#32, 0x77800100#32, unused, unused, unused, imm 8 0, unused⟩,
    ⟨.sdump, 0xf7ffffff#32, 0x778002ff#32, unused, unused, unused, unused, unused⟩,
    ⟨.sdump, 0xf7fffff0#32, 0x77800200#32, unused, reg 0, unused, unused, unused⟩,
    ⟨.sdump, 0xf7fffff0#32, 0x77800210#32, unused, urg 0, unused, unused, unused⟩,
    ⟨.sout, 0xf7fffff0#32, 0x77800230#32, unused, urg 0, unused, unused, unused⟩,
    ⟨.sout, 0xf7ffffe0#32, 0x77800220#32, unused, reg 0, unused, unused, unused⟩,
    ⟨.sout, 0xf7ffff00#32, 0x77800400#32, unused, unused, unused, imm 8 0, unused⟩,
    ⟨.sdump, 0xf7ffff00#32, 0x77800200#32, unused, unused, unused, imm 8 0, unused⟩,
    ⟨.sim, 0xf7c00000#32, 0x77800000#32, unused, unused, unused, imm 22 0, unused⟩,
    ⟨.noop, 0xf7ffffff#32, 0x77c00000#32, unused, unused, unused, unused, unused⟩,
    ⟨.nexit, 0xf7ffffff#32, 0x77c00100#32, unused, unused, unused, unused, unused⟩,
    ⟨.nexit, 0xf7ffff00#32, 0x77c00100#32, unused, unused, unused, imm 8 0, unused⟩,
    ⟨.nexit, 0xf7fffff0#32, 0x77c00310#32, unused, urg 0, unused, unused, unused⟩,
    ⟨.nexit, 0xf7ffffe0#32, 0x77c00300#32, unused, reg 0, unused, unused, unused⟩,
    ⟨.ndump, 0xf7ffffff#32, 0x77c002ff#32, unused, unused, unused, unused, unused⟩,
    ⟨.ndump, 0xf7fffff0#32, 0x77c00200#32, unused, reg 0, unused, unused, unused⟩,
    ⟨.ndump, 0xf7fffff0#32, 0x77c00210#32, unused, urg 0, unused, unused, unused⟩,
    ⟨.nout, 0xf7fffff0#32, 0x77c00230#32, unused, urg 0, unused, unused, unused⟩,
    ⟨.nout, 0xf7ffffe0#32, 0x77c00220#32, unused, reg 0, unused, unused, unused⟩,
    ⟨.nout, 0xf7ffff00#32, 0x77c00400#32, unused, unused, unused, imm 8 0, unused⟩,
    ⟨.ndump, 0xf7ffff00#32, 0x77c00200#32, unused, unused, unused, unused, unused⟩,
    ⟨.nsim, 0xf7c00000#32, 0x77c00000#32, unused, unused, unused, imm 22 0, unused⟩,
    ⟨.fpadd, 0x87c43fff#32, 0x06840000#32, reg 27, reg 27, reg 14, unused, bits 3 19⟩,
    ⟨.fpsub, 0x87c43fff#32, 0x06c40000#32, reg 27, reg 27, reg 14, unused, bits 3 19⟩,
    ⟨.fpmpy, 0x87c43fff#32, 0x07040000#32, reg 27, reg 27, reg 14, unused, bits 3 19⟩,
    ⟨.fpdiv, 0x87c43fff#32, 0x07440000#32, reg 27, reg 27, reg 14, unused, bits 3 19⟩,
    ⟨.fpi2f, 0x87c40000#32, 0x07800000#32, reg 27, unused, unused, imm 18 0, bits 3 19⟩,
    ⟨.fpi2f, 0x87c40000#32, 0x07840000#32, reg 27, unused, reg 14, imm 14 0, bits 3 19⟩,
    ⟨.fpf2i, 0x87c40000#32, 0x07c40000#32, reg 27, unused, reg 14, imm 14 0, bits 3 19⟩,
    ⟨.bra, 0xff800000#32, 0xf9000000#32, unused, unused, unused, imm 7 16, unused⟩,
    ⟨.clr, 0x87ff0000#32, 0x86000000#32, reg 27, unused, unused, unused, unused⟩,
    ⟨.rtn, 0xffff0000#32, 0xff800000#32, unused, unused, unused, unused, unused⟩,
    ⟨.jmp, 0xff800000#32, 0xff000000#32, reg 27, unused, reg 19, imm 3 16, unused⟩,
    ⟨.sub, 0x87800000#32, 0x80000000#32, reg 27, reg 27, unused, imm 7 16, unused⟩,
    ⟨.sub, 0x87800000#32, 0x80800000#32, reg 27, reg 27, reg 19, imm 3 16, unused⟩,
    ⟨.and, 0x87800000#32, 0x81000000#32, reg 27, reg 27, unused, imm 7 16, unused⟩,
    ⟨.and, 0x87800000#32, 0x81800000#32, reg 27, reg 27, reg 19, imm 3 16, unused⟩,
    ⟨.add, 0x87800000#32, 0x82000000#32, reg 27, reg 27, unused, imm 7 16, unused⟩,
    ⟨.add, 0x87800000#32, 0x82800000#32, reg 27, reg 27, reg 19, imm 3 16, unused⟩,
    ⟨.cmp, 0x87800000#32, 0x83000000#32, reg 27, unused, reg 19, imm 7 16, unused⟩,
    ⟨.cmp, 0x87800000#32, 0x83800000#32, reg 27, unused, reg 19, imm 3 16, unused⟩,
    ⟨.lw, 0x87800000#32, 0x84000000#32, reg 27, unused, sp, imm 7 16, unused⟩,
    ⟨.lw, 0x87800000#32, 0x84800000#32, reg 27, unused, reg 19, imm 3 16, unused⟩,
    ⟨.sw, 0x87000000#32, 0x85000000#32, unused, reg 27, sp, imm 7 16, unused⟩,
    ⟨.sw, 0x87800000#32, 0x85800000#32, unused, reg 27, reg 19, imm 3 16, unused⟩,
    ⟨.ldi, 0x87000000#32, 0x86000000#32, reg 27, unused, unused, imm 8 16, unused⟩,
    ⟨.mov, 0x87800000#32, 0x87800000#32, unused, reg 27, reg 19, imm 3 16, unused⟩,
    ⟨.illv, 0x80000000#32, 0x80000000#32, unused, unused, unused, imm 32 16, unused⟩,
    ⟨.ill, 0x00000000#32, 0x00000000#32, unused, unused, unused, imm 32 0, unused⟩ ]

/-- `zip_opbottomlist_raw`: the lower halves of pairs. -/
def zipOpbottomlist : List Zopcode := [
    ⟨.bra, 0x80007f80#32, 0x80007900#32, unused, unused, unused, imm 7 0, unused⟩,
    ⟨.clr, 0x800007ff#32, 0x80000600#32, reg 11, unused, unused, unused, unused⟩,
    ⟨.rtn, 0x80007fff#32, 0x80007f80#32, unused, unused, unused, unused, unused⟩,
    ⟨.jmp, 0x80007f80#32, 0x80007f00#32, reg 11, unused, reg 3, imm 3 0, unused⟩,
    ⟨.ljmp, 0x80007fff#32, 0x80007cf8#32, reg 11, unused, reg 3, imm 3 0, unused⟩,
    ⟨.sub, 0x80000780#32, 0x80000000#32, reg 11, reg 11, unused, imm 7 0, unused⟩,
    ⟨.sub, 0x80000780#32, 0x80000080#32, reg 11, reg 11, reg 3, imm 3 0, unused⟩,
    ⟨.and, 0x80000780#32, 0x80000100#32, reg 11, reg 11, unused, imm 7 0, unused⟩,
    ⟨.and, 0x80000780#32, 0x80000180#32, reg 11, reg 11, reg 3, imm 3 0, unused⟩,
    ⟨.add, 0x80000780#32, 0x80000200#32, reg 11, reg 11, unused, imm 7 0, unused⟩,
    ⟨.add, 0x80000780#32, 0x80000280#32, reg 11, reg 11, reg 3, imm 3 0, unused⟩,
    ⟨.cmp, 0x80000780#32, 0x80000300#32, reg 11, unused, unused, imm 7 0, unused⟩,
    ⟨.cmp, 0x80000780#32, 0x80000380#32, reg 11, unused, reg 3, imm 3 0, unused⟩,
    ⟨.lw, 0x80000780#32, 0x80000400#32, reg 11, unused, sp, imm 7 0, unused⟩,
    ⟨.lw, 0x80000780#32, 0x80000480#32, reg 11, unused, reg 3, imm 3 0, unused⟩,
    ⟨.sw, 0x80000780#32, 0x80000500#32, unused, reg 11, sp, imm 7 0, unused⟩,
    ⟨.sw, 0x80000780#32, 0x80000580#32, unused, reg 11, reg 3, imm 3 0, unused⟩,
    ⟨.ldi, 0x80000700#32, 0x80000600#32, reg 11, unused, unused, imm 8 0, unused⟩,
    ⟨.mov, 0x80000780#32, 0x80000780#32, reg 11, unused, reg 3, imm 3 0, unused⟩,
    ⟨.illv, 0x80000000#32, 0x80000000#32, unused, unused, unused, imm 15 0, unused⟩,
    ⟨.ill, 0x00000000#32, 0x00000000#32, unused, unused, unused, imm 15 0, unused⟩ ]

end ZipStormMX.Zopcodes
