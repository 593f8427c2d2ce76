/-
  `zop_early_branch`: where the debugger expects the instruction behind a branch.

  It takes the offset for a count of words, and a negative one for its distance from zero, and its
  mask leaves the condition out.  So it finds the address the decoder finds for an offset of zero
  only, and on the narrowest address buses for two offsets whose errors wrap around.
-/
import ZipStormMX.Cpu.Delivery
import ZipStormMX.Zopcodes.Word

namespace ZipStormMX.Zopcodes

open Cpu

/-- `zop_early_branch`. -/
def zopEarlyBranch (pc insn : BitVec 32) : BitVec 32 :=
  if insn &&& 0xf8000000#32 != 0x78000000#32 then pc + 4
  else if insn &&& 0xffc60000#32 == 0x78800000#32 then pc + 4 + ((insn &&& 0x3ffff#32) <<< 2)
  else if insn &&& 0xffc60000#32 == 0x78820000#32 then
    pc + 4 + ((0x40000#32 - (insn &&& 0x3ffff#32)) <<< 2)
  else pc + 4

/-! ## The word -/

/-- `ADD #offset,PC`, whatever its condition is. -/
def addsToPc (insn : BitVec 32) : Bool :=
  !Decode.cis insn && regField insn == pcReg && Decode.wOp insn == 0x02#5 && !Decode.immSel insn

/-- The offset, as it stands in the word. -/
def offsetField (insn : BitVec 32) : BitVec 18 := insn.extractLsb' 0 18

/-- What the debugger adds for an offset. -/
def hostOffset (f : BitVec 18) : BitVec 32 :=
  if f.getLsbD 17 then (0x40000#32 - f.setWidth 32) <<< 2 else f.setWidth 32 <<< 2

/-- The decoder's own test. -/
theorem addToPc_eq {AW : ℕ} {c : DecodeCfg} {s : Idecode AW} {i : DecodeIn AW} {insn : BitVec 32}
    (hw : Idecode.iword c s i = insn) :
    Idecode.addToPc c s i = (addsToPc insn && condField insn == 0#3) := by
  unfold Idecode.addToPc addsToPc
  rw [hw]
  dsimp only
  cases hcis : Decode.cis insn
  case true => rfl
  have hop : Decode.wCisOp c insn = Decode.wOp insn := by
    simp [Decode.wCisOp, hcis, Decode.wOp]
  by_cases hadd : Decode.wOp insn = 0x02#5
  · have hcond : (Decode.wCond c insn i.iGie).getLsbD 3 = (condField insn == 0#3) := by
      have hldi : Decode.wLdi c insn = false := by
        rw [Decode.wLdi, hop, hadd]
        rfl
      have hspecial : Decode.wSpecial c insn i.iGie = false := by
        rw [Decode.wSpecial, hadd]
        simp
      rw [Decode.wCond, hldi, hspecial, hcis, if_neg (by decide)]
      show (BitVec.ofBool (condField insn == 0#3) ++ condField insn).getLsbD 3 = _
      generalize condField insn = cc
      revert cc
      decide
    have hbit : Decode.wAdd c insn = true := by
      rw [Decode.wAdd, hop, hadd]
      rfl
    rw [hcond, hbit, hadd]
    show (!false && regField insn == pcReg && condField insn == 0#3 && (true && !Decode.immSel insn)) =
      _
    cases regField insn == pcReg <;> cases condField insn == 0#3 <;> cases Decode.immSel insn <;> rfl
  · have hbit : Decode.wAdd c insn = false := by
      rw [Decode.wAdd, hop]
      exact beq_eq_false_iff_ne.2 hadd
    rw [hbit, beq_eq_false_iff_ne.2 hadd]
    simp

theorem extract_bit (w : BitVec 32) (k : ℕ) : w.extractLsb' k 1 = BitVec.ofBool (w.getLsbD k) := by
  apply BitVec.eq_of_getLsbD_eq
  intro j hj
  obtain rfl : j = 0 := by omega
  simp

/-- A masked word, field by field. -/
theorem masked_iff (insn mask val : BitVec 32) :
    insn &&& mask = val ↔
      ∀ f ∈ [(31, 1), (27, 4), (22, 5), (19, 3), (18, 1), (17, 1), (0, 17)],
        insn.extractLsb' f.1 f.2 &&& mask.extractLsb' f.1 f.2 = val.extractLsb' f.1 f.2 := by
  rw [eq_iff_fields [(31, 1), (27, 4), (22, 5), (19, 3), (18, 1), (17, 1), (0, 17)] (by decide)]
  simp only [BitVec.extractLsb'_and]

/-- The three tests of `zop_early_branch`. -/
theorem branchMask_iff (insn : BitVec 32) (b : Bool) :
    insn &&& 0xffc60000#32 = (if b then 0x78820000#32 else 0x78800000#32) ↔
      addsToPc insn = true ∧ insn.getLsbD 17 = b := by
  rw [masked_iff]
  simp only [List.forall_mem_cons, List.not_mem_nil, false_implies, implies_true, and_true]
  unfold addsToPc regField Decode.wOp Decode.cis Decode.immSel
  rw [extract_bit insn 31, extract_bit insn 18, extract_bit insn 17]
  generalize insn.extractLsb' 27 4 = r
  generalize insn.extractLsb' 22 5 = op
  generalize insn.extractLsb' 19 3 = cc
  generalize insn.extractLsb' 0 17 = off
  generalize insn.getLsbD 31 = top
  generalize insn.getLsbD 18 = imm
  generalize insn.getLsbD 17 = sign
  have h31 : ∀ b top : Bool, BitVec.ofBool top &&& (0xffc60000#32).extractLsb' 31 1 =
      (if b then 0x78820000#32 else 0x78800000#32).extractLsb' 31 1 ↔ top = false := by
    decide
  have h27 : ∀ (b : Bool) (r : BitVec 4), r &&& (0xffc60000#32).extractLsb' 27 4 =
      (if b then 0x78820000#32 else 0x78800000#32).extractLsb' 27 4 ↔ r = pcReg := by
    decide
  have h22 : ∀ (b : Bool) (op : BitVec 5), op &&& (0xffc60000#32).extractLsb' 22 5 =
      (if b then 0x78820000#32 else 0x78800000#32).extractLsb' 22 5 ↔ op = 0x02#5 := by
    decide
  -- the condition is left out
  have h19 : ∀ (b : Bool) (cc : BitVec 3), cc &&& (0xffc60000#32).extractLsb' 19 3 =
      (if b then 0x78820000#32 else 0x78800000#32).extractLsb' 19 3 := by
    decide
  have h18 : ∀ b imm : Bool, BitVec.ofBool imm &&& (0xffc60000#32).extractLsb' 18 1 =
      (if b then 0x78820000#32 else 0x78800000#32).extractLsb' 18 1 ↔ imm = false := by
    decide
  have h17 : ∀ b sign : Bool, BitVec.ofBool sign &&& (0xffc60000#32).extractLsb' 17 1 =
      (if b then 0x78820000#32 else 0x78800000#32).extractLsb' 17 1 ↔ sign = b := by
    decide
  have h0 : ∀ b : Bool, off &&& (0xffc60000#32).extractLsb' 0 17 =
      (if b then 0x78820000#32 else 0x78800000#32).extractLsb' 0 17 := by
    intro b
    cases b <;> exact BitVec.and_zero
  rw [h31, h27, h22, h18, h17]
  simp only [Bool.and_eq_true, beq_iff_eq, Bool.not_eq_true']
  have hcc := h19 b cc
  have hoff := h0 b
  tauto

theorem zopEarlyBranch_eq (pc insn : BitVec 32) :
    zopEarlyBranch pc insn =
      if addsToPc insn then pc + 4 + hostOffset (offsetField insn) else pc + 4 := by
  have hplus := branchMask_iff insn false
  have hminus := branchMask_iff insn true
  rw [if_neg (by decide)] at hplus
  rw [if_pos rfl] at hminus
  have hfield : insn &&& 0x3ffff#32 = (offsetField insn).setWidth 32 := by
    apply BitVec.eq_of_toNat_eq
    have hmask : (0x3ffff#32).toNat = 2 ^ 18 - 1 := rfl
    rw [BitVec.toNat_and, hmask, Nat.and_two_pow_sub_one_eq_mod]
    simp [offsetField]
    omega
  have hsign : (offsetField insn).getLsbD 17 = insn.getLsbD 17 := by
    simp [offsetField]
  have htop : addsToPc insn = true → insn &&& 0xf8000000#32 = 0x78000000#32 := by
    intro hadd
    have hval := (branchMask_iff insn (insn.getLsbD 17)).2 ⟨hadd, rfl⟩
    have hnest : (0xf8000000#32) = 0xffc60000#32 &&& 0xf8000000#32 := rfl
    rw [hnest, ← BitVec.and_assoc, hval]
    cases insn.getLsbD 17 <;> rfl
  unfold zopEarlyBranch hostOffset
  rw [hfield, hsign]
  cases hadd : addsToPc insn
  · rw [hadd] at hplus hminus
    have hno : (insn &&& 0xffc60000#32 == 0x78800000#32) = false ∧
        (insn &&& 0xffc60000#32 == 0x78820000#32) = false := by
      simpa using And.intro hplus hminus
    rw [hno.1, hno.2]
    simp
  · rw [hadd] at hplus hminus
    rw [htop hadd]
    cases hs : insn.getLsbD 17
    · rw [hs] at hplus
      rw [hplus.2 ⟨rfl, rfl⟩]
      simp
    · rw [hs] at hminus
      rw [hminus.2 ⟨rfl, rfl⟩]
      simp

/-! ## The target -/

section Target

variable {AW : ℕ}

theorem byteAddr_toNat (w : BitVec AW) : (byteAddr w 0#2).toNat = 4 * w.toNat := by
  simp [byteAddr, BitVec.toNat_append, Nat.shiftLeft_eq, Nat.mul_comm]

theorem byteAddr_add (v w : BitVec AW) : byteAddr (v + w) 0#2 = byteAddr v 0#2 + byteAddr w 0#2 := by
  have hpow : 2 ^ (AW + 2) = 4 * 2 ^ AW := by
    rw [Nat.pow_add, Nat.mul_comm]
  apply BitVec.eq_of_toNat_eq
  rw [BitVec.toNat_add, byteAddr_toNat, byteAddr_toNat, byteAddr_toNat, BitVec.toNat_add, hpow,
    ← Nat.mul_mod_mul_left, Nat.mul_add]

/-- A whole word's address. -/
theorem byteAddr_of_aligned (p : BitVec (AW + 2)) (h : p.extractLsb' 0 2 = 0#2) :
    byteAddr (wordOf p) 0#2 = p := by
  rw [← h]
  apply BitVec.eq_of_getLsbD_eq
  intro k hk
  unfold byteAddr wordOf
  rw [BitVec.getLsbD_append, BitVec.getLsbD_extractLsb', BitVec.getLsbD_extractLsb']
  by_cases hlow : k < 2
  · simp [hlow]
  · rw [if_neg (by simpa using hlow), decide_eq_true (by omega), Bool.true_and,
      show 2 + (k - 2) = k by omega]

/-- The offset, as the decoder extends it. -/
theorem decodedOffset (hAW : 16 ≤ AW) (f : BitVec 18) :
    (byteAddr ((f.extractLsb' 2 16).signExtend AW) 0#2).toNat =
      if f.toNat < 2 ^ 17 then 4 * (f.toNat / 4) else 4 * (f.toNat / 4 + 2 ^ AW - 2 ^ 16) := by
  have hf := f.isLt
  have hx : (f.extractLsb' 2 16).toNat = f.toNat / 4 := by
    rw [BitVec.extractLsb'_toNat, Nat.shiftRight_eq_div_pow]
    omega
  have hmsb : (f.extractLsb' 2 16).msb = decide (2 ^ 17 ≤ f.toNat) := by
    rw [BitVec.msb_eq_decide, hx]
    apply decide_eq_decide.2
    omega
  have hpow : 2 ^ 16 ≤ 2 ^ AW := Nat.pow_le_pow_right (by decide) hAW
  rw [byteAddr_toNat, BitVec.toNat_signExtend, hmsb, BitVec.toNat_setWidth, hx,
    Nat.mod_eq_of_lt (by omega)]
  by_cases hlow : f.toNat < 2 ^ 17
  · rw [if_pos hlow, decide_eq_false (by omega)]
    rfl
  · rw [if_neg hlow, decide_eq_true (by omega), if_pos rfl]
    omega

theorem hostOffset_toNat (f : BitVec 18) :
    (hostOffset f).toNat = if f.toNat < 2 ^ 17 then 4 * f.toNat else 4 * (2 ^ 18 - f.toNat) := by
  have hf := f.isLt
  have hbit : f.getLsbD 17 = decide (2 ^ 17 ≤ f.toNat) := by
    rw [← BitVec.msb_eq_getLsbD_last, BitVec.msb_eq_decide]
  unfold hostOffset
  rw [hbit]
  by_cases hlow : f.toNat < 2 ^ 17
  · rw [if_pos hlow, decide_eq_false (by omega), if_neg (by decide), BitVec.toNat_shiftLeft,
      BitVec.toNat_setWidth, Nat.shiftLeft_eq]
    omega
  · rw [if_neg hlow, decide_eq_true (by omega), if_pos rfl, BitVec.toNat_shiftLeft, BitVec.toNat_sub,
      BitVec.toNat_setWidth, Nat.shiftLeft_eq]
    simp only [BitVec.toNat_ofNat]
    omega

/-- The offsets that lead to the same address: none, and where the address bus is narrow, one whose
    error is a multiple of the address space. -/
def Lands (AW : ℕ) (f : BitVec 18) : Prop :=
  f = 0 ∨ (AW = 16 ∧ f = 87381#18) ∨ (AW ≤ 17 ∧ f = 157287#18)

theorem lands_iff (h16 : 16 ≤ AW) (f : BitVec 18) :
    (hostOffset f).setWidth (AW + 2) = byteAddr ((f.extractLsb' 2 16).signExtend AW) 0#2 ↔
      Lands AW f := by
  have hf := f.isLt
  have hzero : (0 : BitVec 18).toNat = 0 := rfl
  unfold Lands
  rw [← BitVec.toNat_inj, BitVec.toNat_setWidth, hostOffset_toNat, decodedOffset h16,
    ← BitVec.toNat_inj, ← BitVec.toNat_inj, ← BitVec.toNat_inj]
  simp only [BitVec.toNat_ofNat, hzero]
  generalize f.toNat = n at hf ⊢
  obtain rfl | rfl | hwide : AW = 16 ∨ AW = 17 ∨ 18 ≤ AW := by omega
  · split
    · obtain hq | hq : 4 * n / 2 ^ 18 = 0 ∨ 4 * n / 2 ^ 18 = 1 := by omega
      all_goals omega
    · obtain hq | hq | hq : 4 * (2 ^ 18 - n) / 2 ^ 18 = 0 ∨ 4 * (2 ^ 18 - n) / 2 ^ 18 = 1 ∨
          4 * (2 ^ 18 - n) / 2 ^ 18 = 2 := by omega
      all_goals omega
  · split
    · have hq : 4 * n / 2 ^ 19 = 0 := by omega
      omega
    · obtain hq | hq : 4 * (2 ^ 18 - n) / 2 ^ 19 = 0 ∨ 4 * (2 ^ 18 - n) / 2 ^ 19 = 1 := by omega
      all_goals omega
  · -- the error is smaller than the address space
    have hpow : 2 ^ (AW + 2) = 4 * 2 ^ AW := by
      rw [Nat.pow_add, Nat.mul_comm]
    have hbig : 2 ^ 18 ≤ 2 ^ AW := Nat.pow_le_pow_right (by decide) hwide
    rw [hpow]
    split
    · rw [Nat.mod_eq_of_lt (by omega)]
      omega
    · rw [Nat.mod_eq_of_lt (by omega)]
      omega

end Target

/-! ## What the debugger finds -/

/-- The decoder is given the word `insn` from address `pc`, and is not behind the first word of a
    long jump. -/
structure Given {AW : ℕ} (c : DecodeCfg) (s : Idecode AW) (i : DecodeIn AW) (pc insn : BitVec 32) :
    Prop where
  early : c.optEarlyBranching = true
  ce : i.iCe = true
  ljmp : s.rLjmp = false
  phase : Idecode.oPhase c s = false
  word : i.iInstruction = insn
  pc : i.iPc = pc.setWidth (AW + 2)

/-- `zop_early_branch` finds the target of a branch, and the next word behind anything else. -/
def Predicts {AW : ℕ} (c : DecodeCfg) (s : Idecode AW) (i : DecodeIn AW) (pc insn : BitVec 32) : Prop :=
  if !Decode.cis insn && Idecode.addToPc c s i then
    (zopEarlyBranch pc insn).setWidth (AW + 2) = Idecode.oBranchPc c (Idecode.next c s i)
  else zopEarlyBranch pc insn = pc + 4

/-- The debugger is right about what is no addition to the PC, and about offsets that land. -/
theorem predicts_iff {AW : ℕ} (h16 : 16 ≤ AW) (h30 : AW ≤ 30) {c : DecodeCfg} {s : Idecode AW}
    {i : DecodeIn AW} {pc insn : BitVec 32} (hg : Given c s i pc insn)
    (hpc : pc.extractLsb' 0 2 = 0#2) :
    Predicts c s i pc insn ↔ (addsToPc insn = true →
      if condField insn = 0#3 then Lands AW (offsetField insn) else offsetField insn = 0) := by
  unfold Predicts
  rw [zopEarlyBranch_eq]
  cases hcis : Decode.cis insn
  case true =>
    have hno : addsToPc insn = false := by
      simp [addsToPc, hcis]
    simp [hno]
  have hword : Idecode.iword c s i = insn := by
    have htop : insn.getLsbD 31 = false := hcis
    unfold Idecode.iword
    rw [hg.phase, hg.word]
    cases c.optCis
    case true => rfl
    · rw [if_neg (by decide)]
      apply BitVec.eq_of_getLsbD_eq
      intro k hk
      rw [BitVec.getLsbD_append, BitVec.getLsbD_extractLsb']
      by_cases hlow : k < 31
      · simp [hlow]
      · obtain rfl : k = 31 := by omega
        rw [htop]
        simp
  rw [addToPc_eq hword]
  cases hadd : addsToPc insn
  · simp
  by_cases hcond : condField insn = 0#3
  · -- both add to the address of the next word
    have htarget : Idecode.oBranchPc c (Idecode.next c s i) = pc.setWidth (AW + 2) + 4 +
        byteAddr (((offsetField insn).extractLsb' 2 16).signExtend AW) 0#2 := by
      have halign : (pc.setWidth (AW + 2)).extractLsb' 0 2 = 0#2 := by
        rw [← hpc]
        apply BitVec.eq_of_getLsbD_eq
        intro k hk
        simp [hk, show k < AW + 2 by omega]
      have hfield : (offsetField insn).extractLsb' 2 16 = insn.extractLsb' 2 16 := by
        apply BitVec.eq_of_getLsbD_eq
        intro k hk
        simp [offsetField, hk]
      rw [Idecode.oBranchPc, hg.early, if_pos rfl, Idecode.next_rBranchPc, Idecode.nextBranchPc,
        hg.ce, hg.ljmp, hword, hg.pc, hfield, if_pos rfl, if_neg (by decide), ← byteAddr_succ,
        byteAddr_add, byteAddr_of_aligned _ halign]
      ac_rfl
    rw [htarget, hcond]
    simp only [Bool.not_false, Bool.true_and, beq_self_eq_true, if_true, true_implies]
    rw [← lands_iff h16, BitVec.setWidth_add _ _ (by omega), BitVec.setWidth_add _ _ (by omega)]
    have hfour : (4 : BitVec 32).setWidth (AW + 2) = 4 := by
      apply BitVec.eq_of_toNat_eq
      rw [BitVec.toNat_setWidth]
      rfl
    rw [hfour]
    exact add_right_inj _
  · -- a branch that need not be taken
    have hno : (condField insn == 0#3) = false := beq_eq_false_iff_ne.2 hcond
    rw [hno, if_neg hcond]
    simp only [Bool.not_false, Bool.and_false, Bool.false_eq_true, if_false, if_true, true_implies]
    rw [add_eq_left, ← BitVec.toNat_inj, ← BitVec.toNat_inj, hostOffset_toNat]
    have hf := (offsetField insn).isLt
    have hzero : (0 : BitVec 32).toNat = 0 ∧ (0 : BitVec 18).toNat = 0 := ⟨rfl, rfl⟩
    rw [hzero.1, hzero.2]
    split <;> omega

/-- A decoder with everything in it. -/
def wholeDecoder : DecodeCfg :=
  { optMpy := true, optEarlyBranching := true, optPipelined := true, optDivide := true,
    optFpu := false, optCis := true, optLock := true, optOpipe := true, optSim := true }

/-- The word at address `pc`. -/
def fetched (pc insn : BitVec 32) : DecodeIn 30 :=
  { iReset := false, iCe := true, iStalled := false, iInstruction := insn, iGie := false, iPc := pc,
    iPfValid := true, iIllegal := false }

/-- A branch to the next word. -/
theorem predicts_next : Predicts wholeDecoder (Idecode.init 30) (fetched 0x1000#32 0x78800000#32)
    0x1000#32 0x78800000#32 :=
  (predicts_iff (by decide) (by decide) ⟨rfl, rfl, rfl, rfl, rfl, rfl⟩ (by decide)).2
    fun _ => .inl rfl

/-- A branch over one word: the debugger looks three words further. -/
theorem misses_next_but_one : ¬Predicts wholeDecoder (Idecode.init 30)
    (fetched 0x1000#32 0x78800004#32) 0x1000#32 0x78800004#32 := by
  unfold Predicts
  decide +kernel

end ZipStormMX.Zopcodes
