/-
  Words: which row is selected, and what it shows.
-/
import ZipStormMX.Cpu.Decoded
import ZipStormMX.Zopcodes.Instruction

namespace ZipStormMX.Zopcodes

open Cpu
open Cpu.Decode (ownReg)

/-! ## Rows by field -/

/-- Two words are the same if they are in each of some fields that cover them. -/
theorem eq_iff_fields (fs : List (ℕ × ℕ))
    (hcover : ∀ i < 32, ∃ f ∈ fs, f.1 ≤ i ∧ i < f.1 + f.2) (x y : BitVec 32) :
    x = y ↔ ∀ f ∈ fs, x.extractLsb' f.1 f.2 = y.extractLsb' f.1 f.2 := by
  constructor
  · rintro rfl f _
    rfl
  · intro h
    apply BitVec.eq_of_getLsbD_eq
    intro i hi
    obtain ⟨f, hf, hlo, hhi⟩ := hcover i hi
    have hbit := congrArg (fun v : BitVec f.2 => v.getLsbD (i - f.1)) (h f hf)
    simp only [BitVec.getLsbD_extractLsb', decide_eq_true (by omega : i - f.1 < f.2),
      Bool.true_and, (by omega : f.1 + (i - f.1) = i)] at hbit
    exact hbit

namespace Zopcode

variable (e : Zopcode) (w : BitVec 32)

/-- The row matches as far as a field goes. -/
def fits (mn ln : ℕ) (v : BitVec ln) : Bool :=
  v &&& e.sMask.extractLsb' mn ln == e.sVal.extractLsb' mn ln

/-- A row matches a word if it matches each field of it. -/
theorem isMatch_iff (fs : List (ℕ × ℕ)) (hcover : ∀ i < 32, ∃ f ∈ fs, f.1 ≤ i ∧ i < f.1 + f.2) :
    e.isMatch w = true ↔ ∀ f ∈ fs, e.fits f.1 f.2 (w.extractLsb' f.1 f.2) = true := by
  rw [isMatch, beq_iff_eq, eq_iff_fields fs hcover]
  simp only [fits, beq_iff_eq, BitVec.extractLsb'_and]

theorem fits_of_isMatch {e : Zopcode} {w : BitVec 32} (h : e.isMatch w = true) (mn ln : ℕ) :
    e.fits mn ln (w.extractLsb' mn ln) = true := by
  rw [isMatch, beq_iff_eq] at h
  rw [fits, beq_iff_eq, ← h, BitVec.extractLsb'_and]

end Zopcode

/-- The register field of a word. -/
def regField (w : BitVec 32) : BitVec 4 := w.extractLsb' 27 4

/-- The register field for operand B. -/
def regBField (w : BitVec 32) : BitVec 4 := w.extractLsb' 14 4

def condField (w : BitVec 32) : BitVec 3 := w.extractLsb' 19 3

/-- The rows for words with one operation code, -/
def rowsOf (op : BitVec 5) : List Zopcode :=
  (zipOplist.takeWhile fun e => e.sMask != 0).filter fun e => e.fits 31 1 0#1 && e.fits 22 5 op

/-- and those of them that match a word in its other fields, all but the last. -/
def shortlist (op : BitVec 5) (r : BitVec 4) (cc : BitVec 3) (b : BitVec 1) : List Zopcode :=
  (rowsOf op).filter fun e => e.fits 27 4 r && e.fits 19 3 cc && e.fits 18 1 b

def wordFields : List (ℕ × ℕ) := [(31, 1), (27, 4), (22, 5), (19, 3), (18, 1), (0, 18)]

/-- The row that is selected for a word. -/
theorem selected_word {w : BitVec 32} (hw : Decode.cis w = false) :
    selected zipOplist w =
      (shortlist (Decode.wOp w) (regField w) (condField w) (w.extractLsb' 18 1)).find?
        fun e => e.fits 0 18 (w.extractLsb' 0 18) := by
  have htop : w.extractLsb' 31 1 = 0#1 := by
    apply BitVec.eq_of_getLsbD_eq
    intro i hi
    obtain rfl : i = 0 := by omega
    simpa [Decode.cis] using hw
  rw [selected, shortlist, rowsOf, List.filter_filter, List.find?_filter]
  congr 1
  funext e
  rw [Bool.eq_iff_iff, e.isMatch_iff w wordFields (by decide)]
  simp only [wordFields, List.forall_mem_cons, htop, Bool.and_eq_true, Decode.wOp, regField,
    condField]
  simp only [List.not_mem_nil, false_implies, implies_true, and_true, decide_eq_true_eq]
  tauto

/-! ## Fields of a word -/

theorem regIndex_reg (gie : Bool) (w : BitVec 32) (mn : ℕ) :
    regIndex gie (zipGetbits w (.reg mn)) = ownReg gie (w.extractLsb' mn 4) := by
  have hreg : zipGetbits w (.reg mn) = (w.extractLsb' mn 4).setWidth 32 :=
    zipGetbits_bits w (by decide : 4 < 64)
  rw [regIndex, hreg]
  generalize w.extractLsb' mn 4 = r
  revert r gie
  decide

theorem regIndex_urg (gie : Bool) (w : BitVec 32) (mn : ℕ) :
    regIndex gie (zipGetbits w (.urg mn)) = 1#1 ++ w.extractLsb' mn 4 := by
  have hreg : zipGetbits w (.urg mn) = (w.extractLsb' mn 4).setWidth 32 + 16 :=
    congrArg (· + 16) (zipGetbits_bits w (by decide : 4 < 64))
  rw [regIndex, hreg]
  generalize w.extractLsb' mn 4 = r
  revert r gie
  decide

theorem condIndex_bits (w : BitVec 32) (mn : ℕ) :
    condIndex (zipGetbits w (.bits 3 mn)) =
      BitVec.ofBool (w.extractLsb' mn 3 == 0#3) ++ w.extractLsb' mn 3 := by
  rw [zipGetbits_bits w (by decide), condIndex]
  generalize w.extractLsb' mn 3 = cc
  revert cc
  decide

theorem reg_eq_pc (w : BitVec 32) (mn : ℕ) :
    zipGetbits w (.reg mn) = 15 ↔ w.extractLsb' mn 4 = pcReg := by
  have hreg : zipGetbits w (.reg mn) = (w.extractLsb' mn 4).setWidth 32 :=
    zipGetbits_bits w (by decide : 4 < 64)
  rw [hreg]
  generalize w.extractLsb' mn 4 = r
  revert r
  decide

theorem urg_ne_pc (w : BitVec 32) (mn : ℕ) : zipGetbits w (.urg mn) ≠ 15 := by
  have hreg : zipGetbits w (.urg mn) = (w.extractLsb' mn 4).setWidth 32 + 16 :=
    congrArg (· + 16) (zipGetbits_bits w (by decide : 4 < 64))
  rw [hreg]
  generalize w.extractLsb' mn 4 = r
  revert r
  decide

theorem shiftLeft_two (v : BitVec 32) : v <<< 2 = scaled true v := by
  apply BitVec.eq_of_getLsbD_eq
  intro i hi
  rw [scaled, if_pos rfl, BitVec.getLsbD_shiftLeft, BitVec.getLsbD_append]
  by_cases h : i < 2
  · simp [h]
  · simp [h, hi]
    omega

/-! ## Immediates -/

section

variable {e : Zopcode} {k mn ln : ℕ} (w : BitVec 32)

/-- An immediate on its own, -/
theorem imv_unused (hb : e.sRb = none) (hi : e.sI = some (.imm ln mn)) (h0 : 0 < ln)
    (hln : ln < 64) : e.imv w = some ((w.extractLsb' mn ln).signExtend 32) := by
  rw [Zopcode.imv, hb, hi, ← zipGetbits_imm w h0 hln]
  rfl

/-- one that is added to a register, -/
theorem imv_reg (hb : e.sRb = some (.reg k)) (hi : e.sI = some (.imm ln mn)) (h0 : 0 < ln)
    (hln : ln < 64) : e.imv w =
      some (scaled (w.extractLsb' k 4 == pcReg) ((w.extractLsb' mn ln).signExtend 32)) := by
  rw [Zopcode.imv, hb, hi, ← zipGetbits_imm w h0 hln, Option.map_some, Option.map_some]
  by_cases h : w.extractLsb' k 4 = pcReg
  · rw [if_pos (congrArg some ((reg_eq_pc w k).2 h)), shiftLeft_two, beq_iff_eq.2 h]
  · rw [if_neg fun hc => h ((reg_eq_pc w k).1 (Option.some.inj hc)), beq_eq_false_iff_ne.2 h, scaled,
      if_neg Bool.false_ne_true]

/-- and one that is added to a user register: it is not scaled. -/
theorem imv_urg (hb : e.sRb = some (.urg k)) (hi : e.sI = some (.imm ln mn)) (h0 : 0 < ln)
    (hln : ln < 64) : e.imv w = some ((w.extractLsb' mn ln).signExtend 32) := by
  rw [Zopcode.imv, hb, hi, ← zipGetbits_imm w h0 hln, Option.map_some, Option.map_some,
    if_neg fun hc => urg_ne_pc w k (Option.some.inj hc)]

end

/-! ## What is decoded from a word -/

section

variable {c : DecodeCfg} {w : BitVec 32} {gie : Bool}

theorem signExtend_twice {n : ℕ} (hn : n ≤ 23) (v : BitVec n) :
    (v.signExtend 23).signExtend 32 = v.signExtend 32 := by
  apply BitVec.eq_of_toInt_eq
  rw [BitVec.toInt_signExtend_of_le (by decide), BitVec.toInt_signExtend_of_le hn,
    BitVec.toInt_signExtend_of_le (Nat.le_trans hn (by decide))]

/-- The condition of a word that may have one. -/
def condOfField (w : BitVec 32) : BitVec 4 := BitVec.ofBool (condField w == 0#3) ++ condField w

/-- The immediate of a word that is neither a move nor a load of one. -/
def immOf (w : BitVec 32) : BitVec 32 :=
  if Decode.immSel w then
    scaled (regBField w == pcReg) ((w.extractLsb' 0 14).signExtend 32)
  else (w.extractLsb' 0 18).signExtend 32

def isPlain (op : BitVec 5) : Bool := decide (op < 0x18#5) && op != 0x0d#5

theorem fields_of_plain : ∀ op : BitVec 5, isPlain op = true → (op == 0x0d#5) = false ∧
    (op.extractLsb' 1 4 == 0xc#4) = false ∧ (op.extractLsb' 2 3 == 0b111#3) = false := by
  decide

/-- A word of one of the plain operations: it may have a condition, and operand B is an immediate
    or a register. -/
theorem decoded_plain (hw : Decode.cis w = false) (hop : isPlain (Decode.wOp w) = true) :
    decoded c w gie =
      { operation := operationOf (Decode.wOp w)
        cond := condOfField w
        reg := some (ownReg gie (regField w))
        regB := if Decode.immSel w then some (ownReg gie (regBField w)) else none
        imm := some (immOf w) } := by
  obtain ⟨hmov, hldi, hspec⟩ := fields_of_plain _ hop
  have hwmov : Decode.wMov c w = false := by
    rw [Decode.wMov, Decode.wCisOp_of_word hw, hmov]
  have hwldi : Decode.wLdi c w = false := by
    rw [Decode.wLdi, Decode.wCisOp_of_word hw, hldi]
  have hwspec : Decode.wSpecial c w gie = false := by
    rw [Decode.wSpecial, hspec, Bool.and_false]
  have hrb : Decode.wRB c w gie = Decode.immSel w := by
    simp [Decode.wRB, hwmov, hwldi, hwspec, hw]
  have hdcdb : Decode.wDcdB c w gie = ownReg gie (regBField w) := by
    simp [Decode.wDcdB, hwmov, hw, ownReg, regBField]
  have hbpc : Decode.wDcdBPc c w gie = (Decode.immSel w && regBField w == pcReg) := by
    rw [Decode.wDcdBPc, hrb, hdcdb, ownReg, BitVec.extractLsb'_append_eq_right]
  have hreg : (Decode.wWR c w gie || Decode.wRA c w gie) = true := by
    rw [Decode.wWR, Decode.wRA, hwspec]
    cases Decode.wSto c w <;> cases Decode.wCmptst c w <;> simp
  have hi : (Decode.wI c w).signExtend 32 = if Decode.immSel w then
      (w.extractLsb' 0 14).signExtend 32 else (w.extractLsb' 0 18).signExtend 32 := by
    rw [Decode.wI, hw, Bool.and_false, if_neg Bool.false_ne_true, Decode.wFullI, hwldi, hwmov]
    cases Decode.immSel w
    · simp only [Bool.not_false, if_true, Bool.false_eq_true, if_false]
      exact signExtend_twice (by decide) _
    · simp only [Bool.not_true, Bool.false_eq_true, if_true, if_false]
      exact signExtend_twice (by decide) _
  have hdcdr : Decode.wDcdR c w gie = ownReg gie (regField w) := by
    simp [Decode.wDcdR, hwmov, ownReg, regField]
  rw [decoded, hreg, hrb, hdcdb, hdcdr, hbpc, hi, hwspec, Decode.wCond, hwldi, hwspec, hw,
    Decode.wCisOp_of_word hw, Decode.wBreak, Decode.wLock, Decode.wSim, Decode.wNoop, hwspec]
  simp only [Bool.false_and, Bool.false_eq_true, if_false, if_true, Bool.or_self]
  congr 2
  rw [immOf]
  cases Decode.immSel w
  · simp only [Bool.false_and, scaled, Bool.false_eq_true, if_false]
  · simp only [Bool.true_and, if_true]

end

/-! ## Plain rows -/

/-- The name of a plain operation. -/
def plainName (op : BitVec 5) : Mnemonic :=
  match op.toNat with
  | 0x00 => .sub
  | 0x01 => .and
  | 0x02 => .add
  | 0x03 => .or
  | 0x04 => .xor
  | 0x05 => .lsr
  | 0x06 => .lsl
  | 0x07 => .asr
  | 0x08 => .brev
  | 0x09 => .ldilo
  | 0x0a => .mpyuhi
  | 0x0b => .mpyshi
  | 0x0c => .mpy
  | 0x0e => .divu
  | 0x0f => .divs
  | 0x10 => .cmp
  | 0x11 => .tst
  | 0x12 => .lw
  | 0x13 => .sw
  | 0x14 => .lh
  | 0x15 => .sh
  | 0x16 => .lb
  | _ => .sb

open Macro

/-- The row of a plain operation, with an immediate or with a register. -/
def plainRow (op : BitVec 5) (b : Bool) : Zopcode where
  sOpstr := plainName op
  sMask := 0x87c40000#32
  sVal := 0#5 ++ op ++ 0#3 ++ BitVec.ofBool b ++ 0#18
  sResult := if op ∈ [0x10#5, 0x11#5, 0x13#5, 0x15#5, 0x17#5] then unused else reg 27
  sRa := if op ∈ [0x12#5, 0x14#5, 0x16#5] then unused else reg 27
  sRb := if b then reg 14 else unused
  sI := if b then imm 14 0 else imm 18 0
  sCf := bits 3 19

/-- Nothing is special about the way in which a plain row is printed. -/
theorem plainRow_line {op : BitVec 5} (hop : isPlain op = true) (b : Bool) (addr w : BitVec 32) :
    (plainRow op b).line addr w =
      { opstr := plainName op
        cond := some (zipGetbits w (.bits 3 19))
        imm := (plainRow op b).imv w
        rb := (plainRow op b).sRb.map (zipGetbits w)
        ra := some (zipGetbits w (.reg 27)) } := by
  have hname : ∀ op : BitVec 5, isPlain op = true → plainName op ≠ .ljmp ∧
      (plainName op).isBranch = false ∧
      ((plainName op).isStore = true → (plainRow op b).sRa = reg 27) ∧
      ((plainRow op b).sRa <|> (plainRow op b).sResult) = reg 27 := by
    cases b <;> decide
  obtain ⟨hljmp, hbranch, hstore, hlast⟩ := hname op hop
  have hopstr : (plainRow op b).sOpstr = plainName op := rfl
  have hcf : (plainRow op b).sCf = bits 3 19 := rfl
  rw [Zopcode.line, hopstr, hcf, hbranch, hlast]
  by_cases h : (plainName op).isStore = true
  · rw [if_pos h, hstore h]
    rfl
  · rw [if_neg h, if_neg hljmp]
    rfl

/-- The name of a plain operation stands for it, and for nothing else. -/
theorem plainName_operations : ∀ op : BitVec 5, isPlain op = true →
    operationOf op ∈ (plainName op).operations ∧ (plainName op).cond = 8#4 ∧
      (plainName op).reg = none ∧ (plainName op).regB = none ∧ (plainName op).imm = none ∧
      plainName op ≠ .mov := by
  decide

section

variable {AW : ℕ} {c : DecodeCfg} {w addr : BitVec 32} {gie : Bool} {pc : BitVec AW}

theorem plainRow_imv (op : BitVec 5) (w : BitVec 32) :
    (plainRow op (Decode.immSel w)).imv w = some (immOf w) := by
  rw [immOf]
  cases Decode.immSel w with
  | false =>
    rw [if_neg Bool.false_ne_true]
    exact imv_unused w rfl rfl (by decide) (by decide)
  | true =>
    rw [if_pos rfl]
    exact imv_reg w rfl rfl (by decide) (by decide)

/-- **A plain row shows a plain word.** -/
theorem shows_plainRow (hw : Decode.cis w = false) (hop : isPlain (Decode.wOp w) = true) :
    Shows gie addr pc ((plainRow (Decode.wOp w) (Decode.immSel w)).line addr w)
      (decoded c w gie) := by
  obtain ⟨hops, -, -, hregB, -, hmov⟩ := plainName_operations _ hop
  rw [plainRow_line hop, decoded_plain hw hop]
  refine ⟨hops, condIndex_bits w 19, ?_, ?_, ?_, fun a ha => ?_⟩
  · exact congrArg some (regIndex_reg gie w 27)
  · rw [Line.operandB, hregB]
    cases Decode.immSel w with
    | false => simp [plainRow]
    | true => exact congrArg some (regIndex_reg gie w 14)
  · rw [Line.immediate, plainRow_imv]
    rfl
  · cases ha

end

/-! ## Selection -/

/-- A list that a row of another is found in decides. -/
theorem find?_of_take {l l' : List Zopcode} {p : Zopcode → Bool} {k : ℕ} {e : Zopcode}
    (h : l.take k = l') (he : l'.find? p = some e) : l.find? p = some e := by
  rw [← List.take_append_drop k l, List.find?_append, h, he]
  rfl

/-- A row that does not look at the last field matches it. -/
theorem fits_of_mask {e : Zopcode} {mn ln : ℕ} (hm : e.sMask.extractLsb' mn ln = BitVec.ofNat ln 0)
    (hv : e.sVal.extractLsb' mn ln = BitVec.ofNat ln 0) (v : BitVec ln) : e.fits mn ln v = true := by
  rw [Zopcode.fits, hm, hv, BitVec.and_zero, beq_self_eq_true]

theorem plainRow_fits (op : BitVec 5) (b : Bool) (lo : BitVec 18) :
    (plainRow op b).fits 0 18 lo = true := by
  have hmask : (0x87c40000#32).extractLsb' 0 18 = 0#18 := by decide
  have hval : ∀ op : BitVec 5, ∀ b, (plainRow op b).sVal.extractLsb' 0 18 = 0#18 := by decide
  exact fits_of_mask hmask (hval op b) lo

theorem bit_eq (w : BitVec 32) (i : ℕ) : w.extractLsb' i 1 = BitVec.ofBool (w.getLsbD i) := by
  apply BitVec.eq_of_getLsbD_eq
  intro j hj
  obtain rfl : j = 0 := by omega
  simp

theorem selected_of_take {w : BitVec 32} (hw : Decode.cis w = false) {op : BitVec 5}
    (hop : Decode.wOp w = op) {l : List Zopcode} {e : Zopcode} (k : ℕ)
    (h : (shortlist op (regField w) (condField w) (BitVec.ofBool (Decode.immSel w))).take k = l)
    (he : l.find? (fun e => e.fits 0 18 (w.extractLsb' 0 18)) = some e) :
    selected zipOplist w = some e := by
  rw [selected_word hw, hop, bit_eq]
  exact find?_of_take h he

/-- A plain row that is the first one is selected. -/
theorem selected_plainRow {w : BitVec 32} (hw : Decode.cis w = false) {op : BitVec 5}
    (hop : Decode.wOp w = op)
    (h : (shortlist op (regField w) (condField w) (BitVec.ofBool (Decode.immSel w))).take 1 =
      [plainRow op (Decode.immSel w)]) :
    selected zipOplist w = some (plainRow op (Decode.immSel w)) :=
  selected_of_take hw hop 1 h (List.find?_cons_of_pos (plainRow_fits _ _ _))

/-- A word that is no pair is no call, -/
theorem cisJsr_word {w : BitVec 32} (hw : Decode.cis w = false) :
    twowordCisJsr w = false ∧ cisJsr w = false := by
  have hbit : w.getLsbD 31 = false := hw
  have htwo : twowordCisJsr w = false := by
    rw [twowordCisJsr, beq_eq_false_iff_ne]
    rintro rfl
    cases hbit
  refine ⟨htwo, ?_⟩
  rw [cisJsr, htwo, Bool.false_or, beq_eq_false_iff_ne]
  intro h
  have h31 := congrArg (fun v : BitVec 32 => v.getLsbD 31) h
  simp only [BitVec.getLsbD_and, hbit, Bool.false_and] at h31
  cases h31

/-- and only a move is printed with an address instead of operand B. -/
theorem halfstring_word {w : BitVec 32} (hw : Decode.cis w = false) (hmov : offsetPcMov w = false)
    {e : Zopcode} (he : selected zipOplist w = some e) (addr : BitVec 32) :
    zipiToHalfstring addr w zipOplist = e.line addr w := by
  obtain ⟨htwo, hjsr⟩ := cisJsr_word hw
  rw [zipiToHalfstring, hmov, htwo, hjsr, he]
  rfl

def offsetFields : List (ℕ × ℕ) :=
  [(31, 1), (27, 4), (22, 5), (19, 3), (18, 1), (14, 4), (13, 1), (0, 13)]

theorem offsetPcMov_iff {w : BitVec 32} (hw : Decode.cis w = false) : offsetPcMov w = true ↔
    Decode.wOp w = 0x0d#5 ∧ Decode.immSel w = false ∧ w.getLsbD 13 = false ∧
      regBField w = pcReg := by
  have hbit : w.getLsbD 31 = false := hw
  have hone : ∀ b : Bool, BitVec.ofBool b &&& 1#1 = 0#1 ↔ b = false := by decide
  have hop : ∀ v : BitVec 5, v &&& 31#5 = 13#5 ↔ v = 0x0d#5 := by decide
  have hreg : ∀ v : BitVec 4, v &&& 15#4 = 15#4 ↔ v = pcReg := by decide
  rw [offsetPcMov, beq_iff_eq, eq_iff_fields offsetFields (by decide)]
  simp only [offsetFields, List.forall_mem_cons, BitVec.extractLsb'_and, bit_eq, hbit]
  simp [hone, hop, hreg, Decode.wOp, Decode.immSel, regBField]
  tauto

/-! ## Where lines go wrong -/

/-- A word address: the low bits are zero, and it is one that the CPU has. -/
def isWordAddr (AW : ℕ) (a : BitVec 32) : Bool :=
  a.extractLsb' 0 2 == 0#2 && decide (a.toNat < 2 ^ (AW + 2))

namespace Flaw

/-- "TRAP" without a number, for a load of CC with a number other than zero. -/
def trap (w : BitVec 32) : Bool :=
  regField w == ccReg &&
    (((Decode.wOp w).extractLsb' 1 4 == 0xc#4 && w.extractLsb' 0 23 != 0#23) ||
      (Decode.wOp w == 0x09#5 && !Decode.immSel w && w.extractLsb' 0 16 == 0#16 &&
        w.extractLsb' 16 2 != 0#2))

/-- "JMP" with a register of the supervisor, for one to where a user register is. -/
def jump (gie : Bool) (w : BitVec 32) : Bool :=
  !gie && Decode.wOp w == 0x0d#5 && regField w == pcReg && !Decode.immSel w && w.getLsbD 13

/-- "MOV" from the user PC, with an immediate in words. -/
def userPc (w : BitVec 32) : Bool :=
  Decode.wOp w == 0x0d#5 && !(regField w == pcReg && !Decode.immSel w) && w.getLsbD 13 &&
    regBField w == pcReg && w.extractLsb' 0 13 != 0#13

/-- "BRK" and "LOCK" with a number, which they do not use. -/
def argument (w : BitVec 32) : Bool :=
  (Decode.wOp w == 0x1c#5 || Decode.wOp w == 0x1d#5) && w.extractLsb' 0 22 != 0#22

/-- A branch to an address that is not one of a word. -/
def branch {AW : ℕ} (pc : BitVec AW) (w : BitVec 32) : Bool :=
  Decode.wOp w == 0x02#5 && regField w == pcReg && !Decode.immSel w &&
    w.extractLsb' 0 18 != BitVec.allOnes 18 && pcOperand pc != 0 &&
    !isWordAddr AW (pcOperand pc + 4 + (w.extractLsb' 0 18).signExtend 32)

/-- "MOV" with an address, where the PC is past the last word, or the address of the move to the PC
    is. -/
def offset {AW : ℕ} (pc : BitVec AW) (w : BitVec 32) : Bool :=
  Decode.wOp w == 0x0d#5 && !Decode.immSel w && !w.getLsbD 13 && regBField w == pcReg &&
    !(if regField w == pcReg then
        isWordAddr AW (pcOperand pc + 4 + scaled true ((w.extractLsb' 0 13).signExtend 32))
      else pcOperand pc + 4 == pcOperand (pc + 1))

/-- A word. -/
def word {AW : ℕ} (gie : Bool) (pc : BitVec AW) (w : BitVec 32) : Bool :=
  trap w || jump gie w || userPc w || argument w || branch pc w || offset pc w

end Flaw

/-! ## Plain words -/

/-- Operations of which no row is special. -/
def plainOnly : List (BitVec 5) :=
  [0x00#5, 0x01#5, 0x04#5, 0x05#5, 0x06#5, 0x07#5, 0x0a#5, 0x0b#5, 0x0c#5, 0x0e#5, 0x0f#5, 0x10#5,
    0x11#5, 0x13#5, 0x14#5, 0x15#5, 0x16#5, 0x17#5]

theorem rowsOf_plainOnly : ∀ op ∈ plainOnly,
    rowsOf op = [plainRow op false, plainRow op true] ∧ isPlain op = true := by
  decide +kernel

/-- A plain row matches a word of its operation if it is the one for it. -/
theorem plainRow_fits_word (op : BitVec 5) (b b' : Bool) (r : BitVec 4) (cc : BitVec 3) :
    ((plainRow op b).fits 27 4 r && (plainRow op b).fits 19 3 cc &&
      (plainRow op b).fits 18 1 (BitVec.ofBool b')) = (b == b') := by
  have hreg : ∀ op : BitVec 5, ∀ b, (plainRow op b).sVal.extractLsb' 27 4 = 0#4 := by decide
  have hcond : ∀ op : BitVec 5, ∀ b, (plainRow op b).sVal.extractLsb' 19 3 = 0#3 := by decide
  have hsel : ∀ op : BitVec 5, ∀ b b',
      (plainRow op b).fits 18 1 (BitVec.ofBool b') = (b == b') := by decide
  rw [fits_of_mask (by decide : (0x87c40000#32).extractLsb' 27 4 = 0#4) (hreg op b),
    fits_of_mask (by decide : (0x87c40000#32).extractLsb' 19 3 = 0#3) (hcond op b), hsel]
  rfl

theorem shortlist_plainOnly {op : BitVec 5} (hop : op ∈ plainOnly) (r : BitVec 4) (cc : BitVec 3)
    (b : Bool) : (shortlist op r cc (BitVec.ofBool b)).take 1 = [plainRow op b] := by
  rw [shortlist, (rowsOf_plainOnly op hop).1, List.filter_cons, List.filter_cons,
    plainRow_fits_word, plainRow_fits_word, List.filter_nil]
  cases b <;> rfl

section

variable {AW : ℕ} {c : DecodeCfg} {w : BitVec 32} {gie : Bool} {pc : BitVec AW}

/-- What is to be shown of a word. -/
def ShowsWord (c : DecodeCfg) (gie : Bool) (pc : BitVec AW) (w : BitVec 32) : Prop :=
  Shows gie (pcOperand pc) (pc + 1) (zipiToHalfstring (pcOperand pc) w zipOplist) (decoded c w gie)

theorem offsetPcMov_of_op (hw : Decode.cis w = false) {op : BitVec 5} (hop : Decode.wOp w = op)
    (hne : op ≠ 0x0d#5) : offsetPcMov w = false := by
  by_contra h
  exact hne (hop.symm.trans ((offsetPcMov_iff hw).1 (by simpa using h)).1)

theorem showsWord_iff (hw : Decode.cis w = false) {op : BitVec 5} (hop : Decode.wOp w = op)
    (hne : op ≠ 0x0d#5) {e : Zopcode} (he : selected zipOplist w = some e) :
    ShowsWord c gie pc w ↔
      Shows gie (pcOperand pc) (pc + 1) (e.line (pcOperand pc) w) (decoded c w gie) := by
  rw [ShowsWord, halfstring_word hw (offsetPcMov_of_op hw hop hne) he]

/-- A word for which a plain row is selected is shown. -/
theorem shows_of_plainRow (hw : Decode.cis w = false) (hop : isPlain (Decode.wOp w) = true)
    (he : selected zipOplist w = some (plainRow (Decode.wOp w) (Decode.immSel w))) :
    ShowsWord c gie pc w := by
  have hne : Decode.wOp w ≠ 0x0d#5 := by
    intro hd
    rw [hd] at hop
    cases hop
  rw [showsWord_iff hw rfl hne he]
  exact shows_plainRow hw hop

theorem shows_plainOnly (hw : Decode.cis w = false) (hop : Decode.wOp w ∈ plainOnly) :
    ShowsWord c gie pc w :=
  shows_of_plainRow hw (rowsOf_plainOnly _ hop).2
    (selected_plainRow hw rfl (shortlist_plainOnly hop _ _ _))

/-! ## Additions and branches -/

/-- The row of a branch, by its condition. -/
def branchRow (cc : BitVec 3) : Zopcode where
  sOpstr := ([.bra, .bz, .blt, .bc, .bv, .bnz, .bge, .bnc] : List Mnemonic).getD cc.toNat .bra
  sMask := if cc = 0#3 then 0xffc40000#32 else 0xfffc0000#32
  sVal := 0xf#5 ++ 0x02#5 ++ cc ++ 0#19
  sResult := unused
  sRa := unused
  sRb := unused
  sI := imm 18 0
  sCf := if cc = 0#3 then bits 3 19 else unused

def busyRow : Zopcode :=
  ⟨.busy, 0xffc7ffff#32, 0x7883ffff#32, unused, unused, unused, unused, bits 3 19⟩

theorem shortlist_add : ∀ (r : BitVec 4) (cc : BitVec 3) (b : Bool),
    if r = pcReg ∧ b = false then
      (shortlist 0x02#5 r cc (BitVec.ofBool b)).take 2 = [busyRow, branchRow cc]
    else (shortlist 0x02#5 r cc (BitVec.ofBool b)).take 1 = [plainRow 0x02#5 b] := by
  decide +kernel

/-- Addresses of words. -/
theorem toNat_pcOperand (hAW : AW ≤ 30) (p : BitVec AW) : (pcOperand p).toNat = 4 * p.toNat := by
  have hp := p.isLt
  have hpow : 2 ^ AW ≤ 2 ^ 30 := Nat.pow_le_pow_right (by decide) hAW
  rw [pcOperand, BitVec.toNat_setWidth, byteAddr, BitVec.toNat_append, BitVec.toNat_ofNat,
    Nat.shiftLeft_eq, Nat.zero_mod, Nat.or_zero, Nat.mod_eq_of_lt (by omega)]
  omega

/-- The PC holds an address behind the word, as far as it goes; what is added to it is cut off at
    both ends. -/
theorem landing (hAW : AW ≤ 30) (p : BitVec AW) (i : BitVec 32) :
    pcOperand p + 4 + i = pcOperand ((pcOperand (p + 1) + i).extractLsb' 2 AW) ↔
      isWordAddr AW (pcOperand p + 4 + i) = true := by
  obtain ⟨k, hk⟩ : 2 ^ AW ∣ 2 ^ 30 := Nat.pow_dvd_pow 2 hAW
  have h32 : 2 ^ 32 = 4 * 2 ^ AW * k := by
    rw [Nat.mul_assoc, ← hk]
    rfl
  have hA : (pcOperand p + 4 + i).toNat = (4 * p.toNat + 4 + i.toNat) % 2 ^ 32 := by
    rw [BitVec.toNat_add, BitVec.toNat_add, toNat_pcOperand hAW, Nat.mod_add_mod]
    rfl
  have hone : (p + 1).toNat = (p.toNat + 1) % 2 ^ AW := by
    have h1 : (1 : BitVec AW).toNat = 1 % 2 ^ AW := BitVec.toNat_ofNat 1 AW
    rw [BitVec.toNat_add, h1, Nat.add_mod_mod]
  have hB : (pcOperand (p + 1) + i).toNat = (4 * ((p.toNat + 1) % 2 ^ AW) + i.toNat) % 2 ^ 32 := by
    rw [BitVec.toNat_add, toNat_pcOperand hAW, hone]
  -- the two sums are the same as far as addresses of the CPU go
  have hsame : (pcOperand p + 4 + i).toNat % (4 * 2 ^ AW) =
      (pcOperand (p + 1) + i).toNat % (4 * 2 ^ AW) := by
    rw [hA, hB, h32, Nat.mod_mul_right_mod, Nat.mod_mul_right_mod, ← Nat.mul_mod_mul_left,
      Nat.mod_add_mod, Nat.mul_add]
  have hcut : (pcOperand ((pcOperand (p + 1) + i).extractLsb' 2 AW)).toNat =
      4 * ((pcOperand (p + 1) + i).toNat / 4 % 2 ^ AW) := by
    rw [toNat_pcOperand hAW, BitVec.extractLsb'_toNat, Nat.shiftRight_eq_div_pow]
  have hlow : ((pcOperand p + 4 + i).extractLsb' 0 2 == 0#2) = true ↔
      (pcOperand p + 4 + i).toNat % 4 = 0 := by
    rw [beq_iff_eq, ← BitVec.toNat_inj, BitVec.extractLsb'_toNat]
    rfl
  have hsplit := @Nat.mod_mul 4 (2 ^ AW) (pcOperand (p + 1) + i).toNat
  have hwidth : 2 ^ (AW + 2) = 4 * 2 ^ AW := by
    rw [Nat.pow_add, Nat.mul_comm]
  rw [isWordAddr, Bool.and_eq_true, hlow, decide_eq_true_iff, hwidth, ← BitVec.toNat_inj, hcut]
  generalize (pcOperand p + 4 + i).toNat = a at hsame ⊢
  generalize (pcOperand (p + 1) + i).toNat = b at hsame hsplit ⊢
  constructor
  · intro h
    have hlt : b / 4 % 2 ^ AW < 2 ^ AW := Nat.mod_lt _ (Nat.two_pow_pos AW)
    omega
  · rintro ⟨h0, hlt⟩
    rw [Nat.mod_eq_of_lt hlt, hsplit] at hsame
    omega

theorem add_sub_self (a i : BitVec 32) : a + i - a = i := by
  rw [BitVec.add_comm, BitVec.add_sub_cancel]

/-- What is printed for a branch: where it goes to, or how far if that is at address zero. -/
theorem branchRow_line (cc : BitVec 3) (addr w : BitVec 32) :
    (branchRow cc).line addr w =
      if addr = 0 then
        { opstr := (branchRow cc).sOpstr
          cond := (branchRow cc).sCf.map (zipGetbits w)
          imm := some ((w.extractLsb' 0 18).signExtend 32) }
      else
        { opstr := (branchRow cc).sOpstr
          cond := (branchRow cc).sCf.map (zipGetbits w)
          address := some (addr + 4 + (w.extractLsb' 0 18).signExtend 32) } := by
  have hname : ∀ cc : BitVec 3, (branchRow cc).sOpstr.isStore = false ∧
      (branchRow cc).sOpstr ≠ .ljmp ∧ (branchRow cc).sOpstr.isBranch = true := by
    decide
  obtain ⟨hstore, hljmp, hbranch⟩ := hname cc
  have hi : (branchRow cc).sI.map (fun f => addr + (zipGetbits w f + 4)) =
      some (addr + 4 + (w.extractLsb' 0 18).signExtend 32) := by
    have hbits : zipGetbits w (.imm 18 0) = (w.extractLsb' 0 18).signExtend 32 :=
      zipGetbits_imm w (by decide) (by decide)
    rw [← hbits, BitVec.add_assoc, BitVec.add_comm 4]
    rfl
  rw [Zopcode.line, hstore, hbranch, hi, imv_unused w rfl rfl (by decide) (by decide),
    if_neg Bool.false_ne_true, if_neg hljmp, Bool.true_and]
  by_cases h : addr = 0
  · rw [if_pos h, h, if_neg (by decide)]
    rfl
  · rw [if_neg h, if_pos (bne_iff_ne.2 h)]

theorem branchRow_fits (cc : BitVec 3) (lo : BitVec 18) :
    (branchRow cc).fits 0 18 lo = true := by
  have hrow : ∀ cc : BitVec 3, (branchRow cc).sMask.extractLsb' 0 18 = 0#18 ∧
      (branchRow cc).sVal.extractLsb' 0 18 = 0#18 := by
    decide
  exact fits_of_mask (hrow cc).1 (hrow cc).2 lo

theorem branchRow_names : ∀ cc : BitVec 3, Operation.add ∈ (branchRow cc).sOpstr.operations ∧
    (branchRow cc).sOpstr.reg = some pcReg ∧ (branchRow cc).sOpstr.regB = none ∧
    (branchRow cc).sOpstr.imm = none ∧ (branchRow cc).sOpstr ≠ .mov := by
  decide

/-- The condition is printed, or in the name. -/
theorem branchRow_condition (w : BitVec 32) :
    (((branchRow (condField w)).sCf.map (zipGetbits w)).map condIndex).getD
      (branchRow (condField w)).sOpstr.cond = condOfField w := by
  have hname : ∀ cc : BitVec 3, cc ≠ 0#3 → (branchRow cc).sCf = none ∧
      (branchRow cc).sOpstr.cond = BitVec.ofBool (cc == 0#3) ++ cc := by
    decide
  by_cases h : condField w = 0#3
  · have hcf : (branchRow (condField w)).sCf = bits 3 19 := if_pos h
    rw [hcf]
    exact condIndex_bits w 19
  · obtain ⟨hcf, hcond⟩ := hname _ h
    rw [hcf, hcond]
    rfl

theorem busyRow_fits (lo : BitVec 18) : busyRow.fits 0 18 lo = (lo == BitVec.allOnes 18) := by
  have hmask : (0xffc7ffff#32).extractLsb' 0 18 = BitVec.allOnes 18 := by decide
  have hval : (0x7883ffff#32).extractLsb' 0 18 = BitVec.allOnes 18 := by decide
  rw [Zopcode.fits, busyRow, hmask, hval, BitVec.and_allOnes]

theorem shows_branch (hAW : AW ≤ 30) (hw : Decode.cis w = false) (hop : Decode.wOp w = 0x02#5)
    (hreg : regField w = pcReg) (himm : Decode.immSel w = false) :
    ShowsWord c gie pc w ↔ Flaw.branch pc w = false := by
  have hlist := shortlist_add (regField w) (condField w) (Decode.immSel w)
  rw [if_pos ⟨hreg, himm⟩] at hlist
  have hdec : decoded c w gie = _ := decoded_plain hw (by rw [hop]; rfl)
  rw [hop, himm, hreg, immOf, himm, if_neg Bool.false_ne_true, if_neg Bool.false_ne_true] at hdec
  by_cases hbusy : w.extractLsb' 0 18 = BitVec.allOnes 18
  · -- "BUSY" stands for all of it
    have he : selected zipOplist w = some busyRow :=
      selected_of_take hw hop 2 hlist (List.find?_cons_of_pos (by
        rw [busyRow_fits, hbusy, beq_self_eq_true]))
    rw [showsWord_iff hw hop (by decide) he, hdec, hbusy]
    refine iff_of_true ⟨List.mem_singleton.2 rfl, condIndex_bits w 19, rfl, rfl, ?_, ?_⟩ ?_
    · exact congrArg some (by decide : BitVec.allOnes 32 = (BitVec.allOnes 18).signExtend 32)
    · intro a ha
      cases ha
    · simp [Flaw.branch, hbusy]
  · have he : selected zipOplist w = some (branchRow (condField w)) := by
      apply selected_of_take hw hop 2 hlist
      rw [List.find?_cons_of_neg (by rw [busyRow_fits, beq_eq_false_iff_ne.2 hbusy]; decide)]
      exact List.find?_cons_of_pos (branchRow_fits _ _)
    obtain ⟨hops, hpc, hregB, hi, hmov⟩ := branchRow_names (condField w)
    have hcond := branchRow_condition w
    rw [showsWord_iff hw hop (by decide) he, hdec, branchRow_line]
    by_cases hzero : pcOperand pc = 0
    · rw [if_pos hzero]
      refine iff_of_true ⟨hops, hcond, ?_, ?_, rfl, ?_⟩ ?_
      · rw [Line.register, hpc]
        rfl
      · rw [Line.operandB, hregB, if_neg hmov]
        rfl
      · intro a ha
        cases ha
      · simp [Flaw.branch, hzero]
    · rw [if_neg hzero]
      have hflaw : Flaw.branch pc w = false ↔
          isWordAddr AW (pcOperand pc + 4 + (w.extractLsb' 0 18).signExtend 32) = true := by
        rw [Flaw.branch, hop, hreg, himm, bne_iff_ne.2 hbusy, bne_iff_ne.2 hzero]
        simp only [beq_self_eq_true, Bool.not_false, Bool.true_and, Bool.not_eq_false']
      have hgoal : ∀ i, (Insn.mk (operationOf 0x02#5) (condOfField w) (some (ownReg gie pcReg)) none
          (some i)).sum gie (pc + 1) =
            pcOperand ((pcOperand (pc + 1) + i).extractLsb' 2 AW) := fun i => if_pos rfl
      rw [hflaw, ← landing hAW]
      constructor
      · intro h
        rw [h.address _ rfl, hgoal]
      · intro h
        refine ⟨hops, hcond, ?_, ?_, ?_, ?_⟩
        · rw [Line.register, hpc]
          rfl
        · rw [Line.operandB, hregB, if_neg hmov]
          rfl
        · exact congrArg some (add_sub_self _ _)
        · rintro a ha
          rw [← Option.some.inj ha, hgoal, h]

end

end ZipStormMX.Zopcodes
