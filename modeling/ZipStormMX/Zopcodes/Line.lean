/-
  `zipi_to_double_string` of `zopcodes.cpp`: what is printed for a word at an address.

  A `Line` holds the name that is printed and the operands behind it, as numbers.  How they are laid
  out (blanks, commas, brackets and signs) is left out; where a zero is not printed for an
  immediate, the line has the zero.
-/
import ZipStormMX.Zopcodes.Table

namespace ZipStormMX.Zopcodes

/-! ## Fields -/

/-- `zip_ubits` -/
def zipUbits (val : BitVec 64) (bits : ℕ) : BitVec 64 := val &&& (1#64 <<< bits - 1#64)

/-- `zip_sbits` -/
def zipSbits (val : BitVec 64) (bits : ℕ) : BitVec 64 :=
  let r := val &&& (1#64 <<< bits - 1#64)
  if r &&& 1#64 <<< (bits - 1) = 0 then r else r ||| BitVec.allOnes 64 <<< bits

/-- `zip_getbits` -/
def zipGetbits (ins : BitVec 32) : Field → BitVec 32
  | .bits ln mn => (zipUbits ((ins >>> mn).setWidth 64) ln).setWidth 32
  | .reg mn => (zipUbits ((ins >>> mn).setWidth 64) 4).setWidth 32
  | .urg mn => (zipUbits ((ins >>> mn).setWidth 64) 4).setWidth 32 + 16
  | .imm ln mn => (zipSbits ((ins >>> mn).setWidth 64) ln).setWidth 32
  | .sp => (zipUbits (ins.setWidth 64) 0).setWidth 32 + 13

/-! ## Lines -/

/-- A line: the name, the index of the condition in `zip_ccstr`, the immediate, the address that a
    name may have instead of one, and the indices in `zip_regstr` of operand B and of the register
    that is printed last, or by a store first. -/
structure Line where
  opstr : Mnemonic
  cond : Option (BitVec 32) := none
  imm : Option (BitVec 32) := none
  address : Option (BitVec 32) := none
  rb : Option (BitVec 32) := none
  ra : Option (BitVec 32) := none
deriving DecidableEq

namespace Mnemonic

/-- The name begins with "SW", "SH" or "SB". -/
def isStore : Mnemonic → Bool
  | .sw | .sh | .sb => true
  | _ => false

/-- The name begins with "B", and is not "BUSY", "BREV" or "BRK". -/
def isBranch : Mnemonic → Bool
  | .bz | .blt | .bc | .bv | .bnz | .bge | .bnc | .bra => true
  | _ => false

end Mnemonic

namespace Zopcode

def isMatch (e : Zopcode) (ins : BitVec 32) : Bool := ins &&& e.sMask == e.sVal

variable (e : Zopcode) (addr ins : BitVec 32)

/-- `imv` -/
def imv : Option (BitVec 32) :=
  e.sI.map fun f =>
    if e.sRb.map (zipGetbits ins) = some 15 then zipGetbits ins f <<< 2 else zipGetbits ins f

/-- What is printed for a row that matches. -/
def line : Line :=
  let cond := e.sCf.map (zipGetbits ins)
  if e.sOpstr.isStore then
    { opstr := e.sOpstr, cond := cond, imm := e.imv ins, rb := e.sRb.map (zipGetbits ins),
      ra := e.sRa.map (zipGetbits ins) }
  else if e.sOpstr = .ljmp then { opstr := e.sOpstr, cond := cond }
  else if e.sOpstr.isBranch && addr != 0 then
    { opstr := e.sOpstr, cond := cond,
      address := e.sI.map fun f => addr + (zipGetbits ins f + 4) }
  else
    { opstr := e.sOpstr, cond := cond, imm := e.imv ins, rb := e.sRb.map (zipGetbits ins),
      ra := (e.sRa <|> e.sResult).map (zipGetbits ins) }

end Zopcode

/-- `OFFSET_PC_MOV` -/
def offsetPcMov (ins : BitVec 32) : Bool := ins &&& 0x87c7e000#32 == 0x0343c000#32

/-- `TWOWORD_CIS_JSR` -/
def twowordCisJsr (iword : BitVec 32) : Bool := iword == 0x87fafcf8#32

/-- `CIS_JSR` -/
def cisJsr (iword : BitVec 32) : Bool :=
  twowordCisJsr iword || iword &&& 0xffffff87#32 == 0x87f9ff80#32

/-- The first row that matches.  A row without a mask ends the table. -/
def selected (listp : List Zopcode) (ins : BitVec 32) : Option Zopcode :=
  (listp.takeWhile fun e => e.sMask != 0).find? fun e => e.isMatch ins

/-- `zipi_to_halfstring` -/
def zipiToHalfstring (addr ins : BitVec 32) (listp : List Zopcode) : Line :=
  if offsetPcMov ins then
    { opstr := .mov, cond := some (zipGetbits ins (.bits 3 19)),
      address := some ((zipSbits (ins.setWidth 64) 13).setWidth 32 <<< 2 + addr + 4),
      ra := some (zipGetbits ins (.reg 27)) }
  else if twowordCisJsr ins then { opstr := .ljsr }
  else if cisJsr ins then { opstr := .jsr, ra := some (zipGetbits ins (.reg 3)) }
  else
    match selected listp ins with
    | some e => e.line addr ins
    | none => { opstr := .ill, imm := some ins }

/-- `zipi_to_double_string` -/
def zipiToDoubleString (addr ins : BitVec 32) : Line × Option Line :=
  (zipiToHalfstring addr ins zipOplist,
    if ins.getLsbD 31 && !cisJsr ins then some (zipiToHalfstring addr ins zipOpbottomlist)
    else none)

/-! ## What the fields are -/

theorem getLsbD_ones {bits : ℕ} (hb : bits < 64) (i : ℕ) :
    (1#64 <<< bits - 1#64).getLsbD i = decide (i < bits) := by
  have hpow : 2 ^ bits < 2 ^ 64 := Nat.pow_lt_pow_right (by decide) hb
  have hpos : 0 < 2 ^ bits := Nat.two_pow_pos bits
  have hshift : (1#64 <<< bits).toNat = 2 ^ bits := by
    rw [BitVec.toNat_shiftLeft, Nat.shiftLeft_eq]
    simpa using hpow
  have hone : (1#64 <<< bits - 1#64).toNat = 2 ^ bits - 1 := by
    rw [BitVec.toNat_sub, hshift]
    have h1 : (1#64).toNat = 1 := rfl
    rw [h1]
    omega
  rw [← BitVec.testBit_toNat, hone, Nat.testBit_two_pow_sub_one]

theorem getLsbD_zipUbits {val : BitVec 64} {bits i : ℕ} (hb : bits < 64) :
    (zipUbits val bits).getLsbD i = (decide (i < bits) && val.getLsbD i) := by
  rw [zipUbits, BitVec.getLsbD_and, getLsbD_ones hb, Bool.and_comm]

theorem getLsbD_zipSbits {val : BitVec 64} {bits i : ℕ} (h0 : 0 < bits) (hb : bits < 64)
    (hi : i < 64) :
    (zipSbits val bits).getLsbD i =
      if i < bits then val.getLsbD i else val.getLsbD (bits - 1) := by
  have hr : ∀ j, (val &&& (1#64 <<< bits - 1#64)).getLsbD j = (decide (j < bits) && val.getLsbD j) :=
    fun j => getLsbD_zipUbits hb
  have hsign : (val &&& (1#64 <<< bits - 1#64)).getLsbD (bits - 1) = val.getLsbD (bits - 1) := by
    rw [hr, decide_eq_true (by omega), Bool.true_and]
  have htest : (val &&& (1#64 <<< bits - 1#64)) &&& 1#64 <<< (bits - 1) =
      if val.getLsbD (bits - 1) then BitVec.twoPow 64 (bits - 1) else 0 := by
    rw [← hsign]
    exact BitVec.and_twoPow _ _
  have hne : BitVec.twoPow 64 (bits - 1) ≠ 0 := by
    intro h
    have hbit := congrArg (fun x : BitVec 64 => x.getLsbD (bits - 1)) h
    simp only [BitVec.getLsbD_twoPow, BitVec.ofNat_eq_ofNat, BitVec.getLsbD_zero,
      decide_eq_true (by omega : bits - 1 < 64), Bool.true_and, decide_true] at hbit
    cases hbit
  rw [zipSbits]
  simp only [htest]
  cases hs : val.getLsbD (bits - 1) with
  | false =>
    rw [if_pos (by simp), hr]
    by_cases hj : i < bits <;> simp [hj]
  | true =>
    rw [if_neg (by simpa using hne), BitVec.getLsbD_or, hr, BitVec.getLsbD_shiftLeft,
      BitVec.getLsbD_allOnes]
    by_cases hj : i < bits
    · simp [hj]
    · simp [hj, hi]
      omega

/-- Bits that are taken without a sign, -/
theorem zipGetbits_bits (ins : BitVec 32) {ln mn : ℕ} (hb : ln < 64) :
    zipGetbits ins (.bits ln mn) = (ins.extractLsb' mn ln).setWidth 32 := by
  apply BitVec.eq_of_getLsbD_eq
  intro i hi
  rw [zipGetbits, BitVec.getLsbD_setWidth, getLsbD_zipUbits hb, BitVec.getLsbD_setWidth,
    BitVec.getLsbD_ushiftRight, BitVec.getLsbD_setWidth, BitVec.getLsbD_extractLsb',
    decide_eq_true hi, decide_eq_true (Nat.lt_trans hi (by decide) : i < 64)]
  rfl

/-- and with one. -/
theorem zipGetbits_imm (ins : BitVec 32) {ln mn : ℕ} (h0 : 0 < ln) (hb : ln < 64) :
    zipGetbits ins (.imm ln mn) = (ins.extractLsb' mn ln).signExtend 32 := by
  have hlast : (ins.extractLsb' mn ln).msb = ins.getLsbD (mn + (ln - 1)) := by
    rw [BitVec.msb_eq_getLsbD_last, BitVec.getLsbD_extractLsb', decide_eq_true (by omega),
      Bool.true_and]
  have hbit : ∀ j, (ins >>> mn).getLsbD j = ins.getLsbD (mn + j) :=
    fun j => BitVec.getLsbD_ushiftRight _ _ _
  have hwide : ∀ j, ((ins >>> mn).setWidth 64).getLsbD j = ins.getLsbD (mn + j) := by
    intro j
    rw [BitVec.getLsbD_setWidth, hbit]
    by_cases hj : j < 64
    · rw [decide_eq_true hj, Bool.true_and]
    · rw [BitVec.getLsbD_of_ge ins _ (by omega), Bool.and_false]
  apply BitVec.eq_of_getLsbD_eq
  intro i hi
  rw [zipGetbits, BitVec.getLsbD_setWidth, getLsbD_zipSbits h0 hb (by omega), hwide, hwide,
    BitVec.getLsbD_signExtend, hlast, BitVec.getLsbD_extractLsb', decide_eq_true hi, Bool.true_and,
    Bool.true_and]
  by_cases hj : i < ln
  · rw [if_pos hj, if_pos hj, decide_eq_true hj, Bool.true_and]
  · rw [if_neg hj, if_neg hj]

end ZipStormMX.Zopcodes
