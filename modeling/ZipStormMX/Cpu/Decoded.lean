/-
  What kinds of instructions there are.

  Each word goes to one of the units, or the decoder flags it: as illegal, or as a break.  A
  compressed instruction has one of eight operations, and is never flagged.
-/
import ZipStormMX.Cpu.Idecode

namespace ZipStormMX.Cpu.Decode

variable {c : DecodeCfg} {w : BitVec 32} {gie : Bool}

theorem wCisOp_of_word (h : cis w = false) : wCisOp c w = wOp w := by
  simp [wCisOp, wOp, h]

/-- The eight operations of a compressed instruction. -/
theorem wCisOp_of_half (hc : c.optCis = true) (h : cis w = true) :
    wCisOp c w ∈ [0x00#5, 0x01#5, 0x02#5, 0x10#5, 0x12#5, 0x13#5, 0x18#5, 0x0d#5] := by
  simp only [wCisOp, hc, h, Bool.not_true, Bool.or_self, Bool.false_eq_true, if_false]
  generalize (w.extractLsb' 24 3) = k
  revert k
  decide

/-- A compressed instruction is for the ALU or for the memory. -/
theorem kind_of_half (hc : c.optCis = true) (h : cis w = true) :
    (isALU c w gie || wMem c w) = true := by
  have hop := wCisOp_of_half hc h
  have hall : ∀ k : BitVec 5, k ∈ [0x00#5, 0x01#5, 0x02#5, 0x10#5, 0x12#5, 0x13#5, 0x18#5, 0x0d#5] →
      ((!k.getLsbD 4 && k.extractLsb' 1 3 != 7#3) || k.extractLsb' 1 4 == 0xc#4
        || k.extractLsb' 1 4 == 0x8#4) = true ∨
      (k.extractLsb' 3 2 == 0b10#2 && k.extractLsb' 1 2 != 0#2) = true := by
    decide
  rcases hall _ hop with hk | hk
  · simp only [isALU, wALU, wLdi, wCmptst, hk, Bool.true_or]
  · simp only [wMem, hk, Bool.or_true]

/-- None of them is illegal. -/
theorem legal_of_half (hc : c.optCis = true) (h : cis w = true) : wIllegal c w gie = false := by
  have hop := wCisOp_of_half hc h
  have hall : ∀ k : BitVec 5, k ∈ [0x00#5, 0x01#5, 0x02#5, 0x10#5, 0x12#5, 0x13#5, 0x18#5, 0x0d#5] →
      (k.extractLsb' 1 4 == 0x5#4 || k == 0x0c#5) = false ∧
        (k.extractLsb' 1 4 == 0b1101#4) = false := by
    decide
  obtain ⟨hmpy, hword⟩ := hall _ hop
  simp only [wIllegal, wMpy, wDiv, wFpu, wSim, wLock, wSpecial, hc, h, hmpy, hword]
  simp

/-- Without divide unit and FPU, what is neither for the ALU nor for the memory is a break, or
    illegal. -/
theorem kind (hd : c.optDivide = false) (hf : c.optFpu = false) (hs : c.optSim = false)
    (hl : c.optLock = false) :
    (isALU c w gie || wMem c w || wIllegal c w gie || wBreak c w gie) = true := by
  cases h : cis w
  · have hspecial : wSpecial c w gie = ((wOp w).extractLsb' 2 3 == 0b111#3) := by
      simp [wSpecial, h, hf]
    simp only [isALU, wALU, wLdi, wCmptst, wMem, wIllegal, wBreak, wNoop, wLock, wSim, wDiv, wFpu,
      hspecial, wCisOp_of_word h, h, hd, hf, hs, hl]
    generalize wOp w = k
    generalize isSpecial (wDcdR c w gie) = r
    generalize (!c.optMpy && wMpy c w) = m
    generalize c.optCis = q
    revert k r m q
    decide
  · cases hc : c.optCis
    · simp [wIllegal, hc, h]
    · simp [kind_of_half hc h]

end ZipStormMX.Cpu.Decode
