/-
  How the program gets into the decoder.

  The fetch unit shows words and the decoder takes them, a compressed word as two instructions.
  `Before` is where the two stand when the instruction at `pc` comes next: at a whole word, or
  behind the upper half of one, whose lower half the decoder has kept.  When the decoder is not
  stalled, it waits on or decodes the instruction at `pc` and stands before the one behind it
  (`intake`); while it is stalled, nothing of this changes (`stalled`).
-/
import ZipStormMX.Cpu.DblDelivery
import ZipStormMX.Cpu.Interpreter
import ZipStormMX.Cpu.Stages

namespace ZipStormMX.Cpu.Zipcpu

variable {AW : ℕ}

/-! ## Fields -/

/-- The decoder holds the instruction `i`. -/
structure Holds (d : Idecode AW) (i : Insn) : Prop where
  r : d.oDcdR = i.r
  rCc : d.oDcdRcc = i.rCc
  rPc : d.oDcdRpc = i.rPc
  a : d.oDcdA = i.a
  aCc : d.oDcdAcc = i.rCc
  aPc : d.oDcdApc = i.rPc
  b : d.oDcdB = i.b
  bCc : d.oDcdBcc = i.bCc
  bPc : d.oDcdBpc = i.bPc
  imm : d.oI = i.imm
  cond : d.oCond = i.cond
  wF : d.oWF = i.wF
  op : d.oOp = i.op
  alu : d.oALU = i.alu
  mem : d.oM = i.mem
  brk : d.oBreak = i.brk
  wR : d.oWR = i.wR
  rB : d.oRB = i.rB
  illegal : d.oIllegal = i.illegal

/-- The next instruction is that at `pc`.  `due` is the word the fetch unit shows next. -/
inductive Before (c : CpuCfg AW) (prog : BitVec AW → BitVec 32) (s : Zipcpu AW)
    (due : Option (BitVec (AW + 2))) : BitVec (AW + 2) → Prop
  | word (w : BitVec AW) (phase : dcdPhase c s = false) (shown : due = some (byteAddr w 0#2)) :
      Before c prog s due (byteAddr w 0#2)
  | lower (w : BitVec AW) (cis : c.optCis = true) (phase : dcdPhase c s = true)
      (kept : s.dcd.rNxtHalf = (prog w).extractLsb' 0 15) (pc : s.dcd.oPc = byteAddr w 0b10#2)
      (legal : s.dcd.oIllegal = false) (shown : due = some (byteAddr (w + 1) 0#2)) :
      Before c prog s due (byteAddr w 0b10#2)

/-- The decoder holds the instruction at `pc`, and the one behind it comes next. -/
structure Decodes (c : CpuCfg AW) (prog : BitVec AW → BitVec 32) (s : Zipcpu AW)
    (due : Option (BitVec (AW + 2))) (pc : BitVec (AW + 2)) : Prop where
  holds : Holds s.dcd (c.decode.insnAt prog pc)
  behind : s.dcd.oPc = (c.decode.insnAt prog pc).nextPc pc
  before : Before c prog s due ((c.decode.insnAt prog pc).nextPc pc)

/-! ## Addresses -/

theorem byteAddr_bit1 (w : BitVec AW) (lo : BitVec 2) :
    (byteAddr w lo).getLsbD 1 = lo.getLsbD 1 := by
  rw [byteAddr, BitVec.getLsbD_append, if_pos (by omega)]

theorem toNat_append_low {n k : ℕ} (v : BitVec n) (lo : BitVec k) :
    (v ++ lo).toNat = v.toNat * 2 ^ k + lo.toNat := by
  rw [BitVec.toNat_append, ← Nat.shiftLeft_add_eq_or_of_lt lo.isLt, Nat.shiftLeft_eq]

/-- Behind the lower half is the next word. -/
theorem lower_succ (w : BitVec AW) :
    ((byteAddr w 0b10#2).extractLsb' 1 (AW + 1) + 1) ++ 0#1 = byteAddr (w + 1) 0#2 := by
  have hpow : 2 ^ (AW + 1) = 2 * 2 ^ AW := by rw [Nat.pow_succ, Nat.mul_comm]
  have hw := w.isLt
  have hhalf : ((byteAddr w 0b10#2).extractLsb' 1 (AW + 1)).toNat = 2 * w.toNat + 1 := by
    rw [BitVec.extractLsb'_toNat, byteAddr, toNat_append_low, Nat.shiftRight_eq_div_pow]
    show (w.toNat * 4 + 2) / 2 % 2 ^ (AW + 1) = _
    rw [hpow, Nat.mod_eq_of_lt (by omega)]
    omega
  have hsum : ((byteAddr w 0b10#2).extractLsb' 1 (AW + 1) + 1).toNat = 2 * (w + 1).toNat := by
    have h1 : (1 : BitVec (AW + 1)).toNat = 1 := BitVec.toNat_one (by omega)
    rw [BitVec.toNat_add, hhalf, h1, hpow, BitVec.toNat_add, ← Nat.mul_mod_mul_left]
    rcases Nat.eq_zero_or_pos AW with rfl | hpos
    · simp only [Nat.pow_zero, Nat.mul_one, Nat.mod_one, Nat.mul_zero]
      omega
    · rw [show (1 : BitVec AW).toNat = 1 from BitVec.toNat_one hpos, Nat.mul_add, Nat.mul_one]
  apply BitVec.eq_of_toNat_eq
  rw [toNat_append_low, hsum, byteAddr, toNat_append_low]
  show 2 * (w + 1).toNat * 2 + 0 = (w + 1).toNat * 4 + 0
  omega

/-! ## What the fetch unit shows -/

section

variable (c : CpuCfg AW) (prog : BitVec AW → BitVec 32) (s : Zipcpu AW) (x : CpuIn AW)

/-- The word the decoder takes is the one that is due, and there was no bus error. -/
def Fed (due : Option (BitVec (AW + 2))) : Prop :=
  x.pfValid = true → pfStalled c s x = false →
    x.pfIllegal = false ∧ due = some x.pfInstructionPc ∧
      x.pfInstruction = prog (wordOf x.pfInstructionPc)

/-- The word that is due next. -/
def nextDue (due : Option (BitVec (AW + 2))) : Option (BitVec (AW + 2)) :=
  if pfNewPc c s then some (pfRequestAddress c s)
  else if x.pfValid && !pfStalled c s x then due.map (· + 4) else due

end

variable {c : CpuCfg AW} {prog : BitVec AW → BitVec 32} {s : Zipcpu AW} {x : CpuIn AW}
  {due : Option (BitVec (AW + 2))} {pc : BitVec (AW + 2)}

/-- The clock is one of a supervisor that is neither reset nor about to jump. -/
structure Straight (c : CpuCfg AW) (s : Zipcpu AW) (x : CpuIn AW) : Prop where
  seq : c.Sequential
  reset : x.iReset = false
  clear : clearPipeline s = false
  cache : wClearIcache s = false
  mode : gie s = false

theorem Straight.held (h : Straight c s x) :
    (x.iReset || clearPipeline s || wClearIcache s) = false := by
  rw [h.reset, h.clear, h.cache]
  rfl

theorem Straight.jump (h : Straight c s x) : pfNewPc c s = false := by
  have hn : s.newPc = false := h.clear
  rw [pfNewPc, hn, dcdEarlyBranchStb_eq h.seq, Bool.false_and, Bool.false_or]

/-! ## The decoder takes something in -/

/-- The word being decoded. -/
def inWord (c : CpuCfg AW) (s : Zipcpu AW) (x : CpuIn AW) : BitVec 32 :=
  Idecode.iword c.decode s.dcd (decodeIn c s x)

theorem holds_next (h : Straight c s x) (hst : dcdStalled c s x = false) :
    Holds (next c s x).dcd
      { c.decode.insn (inWord c s x) with illegal := (next c s x).dcd.oIllegal } := by
  have hce : (decodeIn c s x).iCe = true := by
    show dcdCe c s x = true
    rw [dcdCe_eq h.seq, hst]
    rfl
  have hg : (decodeIn c s x).iGie = false := h.mode
  constructor <;>
    simp only [next_dcd, Idecode.next_oDcdR, Idecode.next_oDcdRcc, Idecode.next_oDcdRpc,
      Idecode.next_oDcdA, Idecode.next_oDcdAcc, Idecode.next_oDcdApc, Idecode.next_oDcdB,
      Idecode.next_oDcdBcc, Idecode.next_oDcdBpc, Idecode.oI, Idecode.next_rI, Idecode.next_oCond,
      Idecode.next_oWF, Idecode.next_oOp, Idecode.next_oALU, Idecode.next_oM, Idecode.next_oBreak,
      Idecode.next_oWR, Idecode.next_oRB, hce, hg, if_true] <;> rfl

/-- What the registers around the decoded word become. -/
theorem registers_next (h : Straight c s x) (hst : dcdStalled c s x = false) :
    (next c s x).dcd.rNxtHalf = (if c.optCis then (inWord c s x).extractLsb' 0 15 else 0) ∧
    (next c s x).dcd.oIllegal =
      (if dcdPhase c s then s.dcd.oIllegal
        else if x.pfValid then
          (!c.optCis && x.pfInstruction.getLsbD 31)
            || Decode.wIllegal c.decode (inWord c s x) false || x.pfIllegal
        else s.dcd.oIllegal) ∧
    (next c s x).dcd.oPc =
      if dcdPhase c s || x.pfValid then
        if c.optCis && Decode.cis (inWord c s x) then
          if dcdPhase c s then (s.dcd.oPc.extractLsb' 1 (AW + 1) + 1) ++ 0#1
          else byteAddr (wordOf x.pfInstructionPc) 0b10#2
        else byteAddr (wordOf x.pfInstructionPc + 1) 0#2
      else s.dcd.oPc := by
  have hce : (decodeIn c s x).iCe = true := by
    show dcdCe c s x = true
    rw [dcdCe_eq h.seq, hst]
    rfl
  have hrst : (decodeIn c s x).iReset = false := h.held
  have hg : (decodeIn c s x).iGie = false := h.mode
  refine ⟨?_, ?_, ?_⟩
  · rw [next_dcd, Idecode.next_rNxtHalf, hce, if_pos rfl]
    rfl
  · rw [next_dcd, Idecode.next_oIllegal, Idecode.nextIllegal, hrst, if_neg Bool.false_ne_true, hce,
      hg, Bool.true_and, Bool.true_and]
    rfl
  · rw [next_dcd, Idecode.next_oPc, Idecode.nextPc, hce, Bool.true_and]
    rfl

/-- The lower half is decoded, whatever the fetch unit shows. -/
theorem lower_intake (h : Straight c s x) (hst : dcdStalled c s x = false) {w : BitVec AW}
    (hcis : c.optCis = true) (hph : dcdPhase c s = true)
    (hkept : s.dcd.rNxtHalf = (prog w).extractLsb' 0 15) (hpc : s.dcd.oPc = byteAddr w 0b10#2)
    (hlegal : s.dcd.oIllegal = false) (hdue : due = some (byteAddr (w + 1) 0#2)) :
    dcdValid (next c s x) = true ∧
      Decodes c prog (next c s x) (nextDue c s x due) (byteAddr w 0b10#2) := by
  have hcis' : c.decode.optCis = true := hcis
  have hin : inWord c s x =
      1#1 ++ (prog w).extractLsb' 0 15 ++ x.pfInstruction.extractLsb' 0 16 := by
    have hph' : s.dcd.oPhase c.decode = true := hph
    rw [inWord, Idecode.iword, hcis', if_pos rfl, hph', if_pos rfl, hkept]
    rfl
  have hbit : Decode.cis (inWord c s x) = true := by
    rw [hin, Decode.cis, BitVec.getLsbD_append, BitVec.getLsbD_append]
    rfl
  obtain ⟨-, hill, hnpc⟩ := registers_next h hst
  rw [if_pos hph] at hill
  rw [hph, Bool.true_or, if_pos rfl, hcis, hbit, Bool.and_self, if_pos rfl, if_pos rfl, hpc,
    lower_succ] at hnpc
  have hword : c.decode.insn (inWord c s x) =
      c.decode.insn (c.decode.wordAt (byteAddr w 0b10#2) (prog w)) := by
    rw [hin, insn_half hcis', DecodeCfg.wordAt, hcis', if_pos rfl, byteAddr_bit1]
    rfl
  have hinsn : { c.decode.insn (inWord c s x) with illegal := (next c s x).dcd.oIllegal } =
      c.decode.insnAt prog (byteAddr w 0b10#2) := by
    rw [DecodeCfg.insnAt, wordOf_byteAddr, ← hword, hill, hlegal, hcis', Bool.not_true,
      Bool.false_and, Bool.or_false,
      show (c.decode.insn (inWord c s x)).illegal = false from Decode.legal_of_half hcis' hbit]
  have hhalf : (c.decode.insnAt prog (byteAddr w 0b10#2)).nextPc (byteAddr w 0b10#2) =
      byteAddr (w + 1) 0#2 := by
    rw [Insn.nextPc, byteAddr_bit1, wordOf_byteAddr, if_neg (by simp)]
  have hvalid : dcdValid (next c s x) = true := by
    rw [dcdValid_next h.seq, h.held, hst, hph, Bool.or_true]
    rfl
  have hphase : dcdPhase c (next c s x) = false := by
    rw [dcdPhase_next h.seq, h.held, hst, hph]
    simp
  have hsame : nextDue c s x due = due := by
    rw [nextDue, h.jump, if_neg Bool.false_ne_true, pfStalled, hph, Bool.or_true, Bool.not_true,
      Bool.and_false, if_neg Bool.false_ne_true]
  refine ⟨hvalid, hinsn ▸ holds_next h hst, ?_, ?_⟩
  · rw [hhalf, hnpc]
  · rw [hhalf, hsame]
    exact .word (w + 1) hphase hdue

/-- A whole word, or the upper half of one, is decoded when the fetch unit shows it. -/
theorem word_intake (h : Straight c s x) (hst : dcdStalled c s x = false) {w : BitVec AW}
    (hph : dcdPhase c s = false) (hdue : due = some (byteAddr w 0#2)) (hv : x.pfValid = true)
    (hfed : Fed c prog s x due) :
    dcdValid (next c s x) = true ∧
      Decodes c prog (next c s x) (nextDue c s x due) (byteAddr w 0#2) := by
  have hpf : pfStalled c s x = false := by rw [pfStalled, hst, hph, Bool.or_self]
  obtain ⟨hgood, hshown, hdata⟩ := hfed hv hpf
  have hpc : x.pfInstructionPc = byteAddr w 0#2 := Option.some.inj (hshown.symm.trans hdue)
  rw [hpc, wordOf_byteAddr] at hdata
  have hin : inWord c s x = c.decode.wordAt (byteAddr w 0#2) (prog w) := by
    have hph' : s.dcd.oPhase c.decode = false := hph
    have hbit : (0#2).getLsbD 1 = false := rfl
    have hshow : (decodeIn c s x).iInstruction = prog w := hdata
    rw [inWord, Idecode.iword, DecodeCfg.wordAt, byteAddr_bit1, hph', hshow, hbit,
      if_neg Bool.false_ne_true, if_neg Bool.false_ne_true]
  obtain ⟨hkept, hill, hnpc⟩ := registers_next h hst
  rw [hph, if_neg Bool.false_ne_true, hv, if_pos rfl, hgood, Bool.or_false] at hill
  rw [hph, hv, Bool.or_true, if_pos rfl, if_neg Bool.false_ne_true, hpc, wordOf_byteAddr] at hnpc
  have hinsn : { c.decode.insn (inWord c s x) with illegal := (next c s x).dcd.oIllegal } =
      c.decode.insnAt prog (byteAddr w 0#2) := by
    rw [DecodeCfg.insnAt, wordOf_byteAddr, ← hin, hill, hdata, Bool.or_comm]
    rfl
  have hvalid : dcdValid (next c s x) = true := by
    rw [dcdValid_next h.seq, h.held, hst, hv]
    rfl
  have hnext : nextDue c s x due = some (byteAddr (w + 1) 0#2) := by
    rw [nextDue, h.jump, if_neg Bool.false_ne_true, hpf, hv, hdue, Bool.not_false, Bool.and_self,
      if_pos rfl, Option.map_some, byteAddr_succ]
  have hphase : dcdPhase c (next c s x) = (c.optCis && (prog w).getLsbD 31) := by
    rw [dcdPhase_next h.seq, h.held, hst, hph, hv, hgood, hdata]
    simp
  have hhalf : (c.decode.insnAt prog (byteAddr w 0#2)).half =
      (c.optCis && Decode.cis (inWord c s x)) := by
    rw [DecodeCfg.insnAt, wordOf_byteAddr, ← hin]
    rfl
  have hcis : (c.optCis && Decode.cis (inWord c s x)) = (c.optCis && (prog w).getLsbD 31) := by
    cases hc : c.optCis
    · rfl
    · have hc' : c.decode.optCis = true := hc
      rw [hin, DecodeCfg.wordAt, hc', if_pos rfl, byteAddr_bit1]
      rfl
  have hnot : (byteAddr w 0#2 : BitVec (AW + 2)).getLsbD 1 = false := byteAddr_bit1 w 0#2
  refine ⟨hvalid, hinsn ▸ holds_next h hst, ?_, ?_⟩
  · rw [hnpc, Insn.nextPc, hhalf, hnot, Bool.not_false, Bool.and_true, wordOf_byteAddr]
  · rw [Insn.nextPc, hhalf, hnot, Bool.not_false, Bool.and_true, wordOf_byteAddr, hnext]
    cases hc : c.optCis && Decode.cis (inWord c s x)
    · rw [if_neg Bool.false_ne_true]
      exact .word (w + 1) (hphase.trans (hcis.symm.trans hc)) rfl
    · -- the upper half: the decoder keeps the lower one
      rw [if_pos rfl]
      obtain ⟨hc1, hc2⟩ := Bool.and_eq_true_iff.mp hc
      have hc' : c.decode.optCis = true := hc1
      have hsame : inWord c s x = prog w := by
        rw [hin, DecodeCfg.wordAt, hc', if_pos rfl, byteAddr_bit1]
        rfl
      refine .lower w hc1 (hphase.trans (hcis.symm.trans hc)) ?_ ?_ ?_ rfl
      · rw [hkept, hc1, if_pos rfl, hsame]
      · rw [hnpc, hc, if_pos rfl]
      · rw [hill, hc1, Bool.not_true, Bool.false_and, Bool.false_or]
        exact Decode.legal_of_half hc' hc2

/-- **The decoder takes in the instruction at `pc`**, or waits for it. -/
theorem intake (h : Straight c s x) (hst : dcdStalled c s x = false)
    (hb : Before c prog s due pc) (hfed : Fed c prog s x due) :
    (dcdValid (next c s x) = false ∧ Before c prog (next c s x) (nextDue c s x due) pc ∧
        dcdPhase c s = false ∧ x.pfValid = false) ∨
      (dcdValid (next c s x) = true ∧ Decodes c prog (next c s x) (nextDue c s x due) pc) := by
  cases hb with
  | word w hph hdue =>
    cases hv : x.pfValid
    · left
      refine ⟨?_, ?_, hph, rfl⟩
      · rw [dcdValid_next h.seq, h.held, hst, hv, hph]
        rfl
      · have hsame : nextDue c s x due = due := by
          rw [nextDue, h.jump, if_neg Bool.false_ne_true, hv, Bool.false_and,
            if_neg Bool.false_ne_true]
        refine .word w ?_ (hsame.trans hdue)
        rw [dcdPhase_next h.seq, h.held, hst, hv]
        simp
    · exact .inr (word_intake h hst hph hdue hv hfed)
  | lower w hcis hph hkept hpc hlegal hdue =>
    exact .inr (lower_intake h hst hcis hph hkept hpc hlegal hdue)

/-! ## The decoder is stalled -/

theorem stalled_due (h : Straight c s x) (hst : dcdStalled c s x = true) :
    nextDue c s x due = due := by
  rw [nextDue, h.jump, if_neg Bool.false_ne_true, pfStalled, hst, Bool.true_or, Bool.not_true,
    Bool.and_false, if_neg Bool.false_ne_true]

theorem stalled_fields (h : Straight c s x) (hst : dcdStalled c s x = true) {i : Insn}
    (hi : Holds s.dcd i) : Holds (next c s x).dcd i := by
  have hce : (decodeIn c s x).iCe = false := by
    show dcdCe c s x = false
    rw [dcdCe_eq h.seq, hst]
    rfl
  have hrst : (decodeIn c s x).iReset = false := h.held
  have hill : (next c s x).dcd.oIllegal = s.dcd.oIllegal := by
    rw [next_dcd, Idecode.next_oIllegal, Idecode.nextIllegal, hrst, hce]
    rfl
  obtain ⟨h1, h2, h3, h4, h5, h6, h7, h8, h9, h10, h11, h12, h13, h14, h15, h16, h17, h18,
    h19⟩ := hi
  constructor <;>
    simp only [next_dcd, Idecode.next_oDcdR, Idecode.next_oDcdRcc, Idecode.next_oDcdRpc,
      Idecode.next_oDcdA, Idecode.next_oDcdAcc, Idecode.next_oDcdApc, Idecode.next_oDcdB,
      Idecode.next_oDcdBcc, Idecode.next_oDcdBpc, Idecode.oI, Idecode.next_rI, Idecode.next_oCond,
      Idecode.next_oWF, Idecode.next_oOp, Idecode.next_oALU, Idecode.next_oM, Idecode.next_oBreak,
      Idecode.next_oWR, Idecode.next_oRB, hce, if_neg Bool.false_ne_true] <;>
    first | assumption | exact hill.trans h19

theorem stalled_before (h : Straight c s x) (hst : dcdStalled c s x = true)
    (hb : Before c prog s due pc) : Before c prog (next c s x) (nextDue c s x due) pc := by
  have hce : (decodeIn c s x).iCe = false := by
    show dcdCe c s x = false
    rw [dcdCe_eq h.seq, hst]
    rfl
  have hrst : (decodeIn c s x).iReset = false := h.held
  have hphase : dcdPhase c (next c s x) = dcdPhase c s := by
    rw [dcdPhase_next h.seq, h.held, hst]
    rfl
  rw [stalled_due h hst]
  cases hb with
  | word w hph hdue => exact .word w (hphase.trans hph) hdue
  | lower w hcis hph hkept hpc hlegal hdue =>
    refine .lower w hcis (hphase.trans hph) ?_ ?_ ?_ hdue
    · rw [next_dcd, Idecode.next_rNxtHalf, hce, if_neg Bool.false_ne_true, hkept]
    · rw [next_dcd, Idecode.next_oPc, Idecode.nextPc, hce, Bool.false_and,
        if_neg Bool.false_ne_true, hpc]
    · rw [next_dcd, Idecode.next_oIllegal, Idecode.nextIllegal, hrst, hce]
      exact hlegal

/-- **While the decoder is stalled**, it keeps its instruction. -/
theorem stalled (h : Straight c s x) (hst : dcdStalled c s x = true)
    (hd : Decodes c prog s due pc) : Decodes c prog (next c s x) (nextDue c s x due) pc := by
  refine ⟨stalled_fields h hst hd.holds, ?_, stalled_before h hst hd.before⟩
  have hce : (decodeIn c s x).iCe = false := by
    show dcdCe c s x = false
    rw [dcdCe_eq h.seq, hst]
    rfl
  rw [next_dcd, Idecode.next_oPc, Idecode.nextPc, hce, Bool.false_and, if_neg Bool.false_ne_true,
    hd.behind]

theorem stalled_valid (h : Straight c s x) (hst : dcdStalled c s x = true) :
    dcdValid (next c s x) = false := by
  rw [dcdValid_next h.seq, h.held, hst]
  rfl

end ZipStormMX.Cpu.Zipcpu
