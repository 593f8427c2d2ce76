/-
  The ALU and the memory unit at work on one operation.

  What the CPU asks of the ALU is answered on the next clock, a product some clocks later.  Until
  then the ALU is `Multiplying`: its multiplier is in the middle of a run that began with the
  operands of this operation.  The answer is the same for all five multipliers.

  `memops` is `Serving` an access until the bus answers it, and then holds the value of a load for
  one clock (`Loaded`).
-/
import ZipStormMX.Cpu.Interpreter
import ZipStormMX.Cpu.Halted

namespace ZipStormMX.Cpu

/-! ## The ALU -/

namespace Cpuops

open Clocked

/-- Only a multiplication looks at the product. -/
theorem aluCase_product {op : BitVec 4} (h : isMultiplyOp op = false) (a b : BitVec 32)
    (p q : BitVec 64) : aluCase op a b p = aluCase op a b q := by
  revert h
  unfold aluCase
  have hop := op.isLt
  generalize hn : op.toNat = n at hop ⊢
  intro h
  have hne : n ≠ 0xa ∧ n ≠ 0xb ∧ n ≠ 0xc := by
    have hall : ∀ k : BitVec 4, isMultiplyOp k = false →
        k.toNat ≠ 0xa ∧ k.toNat ≠ 0xb ∧ k.toNat ≠ 0xc := by decide
    rw [← hn]
    exact hall op h
  match n, hne with
  | 0, _ | 1, _ | 2, _ | 3, _ | 4, _ | 5, _ | 6, _ | 7, _ | 8, _ | 9, _ | _ + 13, _ => rfl
  | 10, hne => exact absurd rfl hne.1
  | 11, hne => exact absurd rfl hne.2.1
  | 12, hne => exact absurd rfl hne.2.2

/-- What a multiplication answers: half of the product, and no carry. -/
theorem aluCase_multiply {op : BitVec 4} (h : isMultiplyOp op = true) (a b : BitVec 32)
    (p : BitVec 64) :
    aluCase op a b p =
      (false, if op.getLsbD 1 then p.extractLsb' 32 32 else p.extractLsb' 0 32) := by
  have hall : ∀ k : BitVec 4, isMultiplyOp k = true → k = 0xa#4 ∨ k = 0xb#4 ∨ k = 0xc#4 := by
    decide
  rcases hall op h with rfl | rfl | rfl <;> rfl

/-- The answer is there. -/
structure Answered (op : BitVec 4) (a b : BitVec 32) (s : Cpuops) : Prop where
  valid : s.oValid = true
  idle : s.rBusy = false
  result : s.oC = (aluAnswer op a b).oC
  flags : s.oF = (aluAnswer op a b).oF

/-- What is set as the operation is issued and stays to the answer. -/
structure Latched (op : BitVec 4) (a b : BitVec 32) (s : Cpuops) : Prop where
  c : s.c = (aluAnswer op a b).c
  preSign : s.preSign = (aluAnswer op a b).preSign
  setOvfl : s.setOvfl = (aluAnswer op a b).setOvfl
  keepSgn : s.keepSgnOnOvfl = (aluAnswer op a b).keepSgnOnOvfl

theorem Latched.flags {op : BitVec 4} {a b : BitVec 32} {s : Cpuops} (h : Latched op a b s)
    (hc : s.oC = (aluAnswer op a b).oC) : s.oF = (aluAnswer op a b).oF := by
  unfold oF
  rw [h.c, h.preSign, h.setOvfl, h.keepSgn, hc]

/-- `k` clocks ago the multiplier was given the operands, and it is not done yet. -/
structure Multiplying (m : ℕ) (op : BitVec 4) (a b : BitVec 32) (k : ℕ) (s : Cpuops) : Prop where
  busy : s.rBusy = true
  invalid : s.oValid = false
  several : 1 < m
  multiply : isMultiplyOp op = true
  latched : Latched op a b s
  high : s.mpy.oHi = op.getLsbD 1
  begun : 0 < k
  history : ∃ (s₀ : Mpyop) (x : ℕ → Mpyop.Pins),
    x 0 = ⟨false, true, op.extractLsb' 0 2, a, b⟩ ∧ Mpyop.oBusy m s₀ = false ∧
    run Mpyop.step s₀ x k = s.mpy ∧ (∀ j < k, (x j).iReset = false) ∧
    ∀ j, 0 < j → j < k → Mpyop.oValid m (run Mpyop.step s₀ x j) (x j).iStb = false

/-- The ALU has the answer, or is on its way to it. -/
def Works (m : ℕ) (op : BitVec 4) (a b : BitVec 32) (s : Cpuops) : Prop :=
  Answered op a b s ∨ ∃ k, Multiplying m op a b k s

variable {m : ℕ} {op : BitVec 4} {a b : BitVec 32} {s : Cpuops}

theorem latched_issued : Latched op a b (next m s false true op a b) := by
  constructor
  · show (aluCase op a b (mpyResult m s op a b)).1 = (aluCase op a b _).1
    cases h : isMultiplyOp op
    · rw [aluCase_product h]
    · rw [aluCase_multiply h, aluCase_multiply h]
  · rfl
  · rfl
  · rfl

/-- **The request.** -/
theorem works_issued (hs : Sound m s) (hb : s.rBusy = false)
    (hm : isMultiplyOp op = true → m ≠ 0) : Works m op a b (next m s false true op a b) := by
  by_cases hmul : isMultiplyOp op = true ∧ 1 < m
  · -- the multiplier takes several clocks
    right
    obtain ⟨hmul, hm1⟩ := hmul
    have hw : Mpyop.working m s.mpy = false := by rw [hs.busy, hb]
    have hthis : thisIsAMultiplyOp true op = true := hmul
    refine ⟨1, ?_, ?_, hm1, hmul, latched_issued, ?_, Nat.one_pos, ?_⟩
    · show nextBusy m s false true op = true
      simp [nextBusy, hthis, hm1]
    · show nextValid m s false true op = false
      rw [nextValid, if_neg Bool.false_ne_true, if_neg (by omega), hthis,
        mpydone_of_not_working hm1 hw]
      rfl
    · show (if thisIsAMultiplyOp true op then (op.extractLsb' 0 2).getLsbD 1 else s.mpy.oHi) = _
      rw [if_pos hthis, BitVec.getLsbD_extractLsb']
      rfl
    · refine ⟨s.mpy, fun _ => ⟨false, true, op.extractLsb' 0 2, a, b⟩, rfl,
        mpybusy_of_not_working hw, ?_, fun _ _ => rfl, fun j h0 h1 => by omega⟩
      show Mpyop.next s.mpy false true (op.extractLsb' 0 2) a b = _
      rw [next_mpy, hthis]
      rfl
  · -- the answer is there on the next clock
    left
    have hresult : (next m s false true op a b).oC = (aluAnswer op a b).oC := by
      show (aluCase op a b (mpyResult m s op a b)).2 = (aluCase op a b _).2
      cases hop : isMultiplyOp op
      · rw [aluCase_product hop]
      · obtain rfl : m = 1 := by
          have h0 := hm hop
          have h1 : ¬1 < m := fun h => hmul ⟨hop, h⟩
          omega
        rw [show mpyResult 1 s op a b = Mpyop.product (op.extractLsb' 0 2) a b from
          Mpyop.extend64_mul _ _ _]
    have hnot : 1 < m → thisIsAMultiplyOp true op = false := fun h1 => by
      cases hop : thisIsAMultiplyOp true op
      · rfl
      · exact absurd ⟨hop, h1⟩ hmul
    refine ⟨?_, ?_, hresult, latched_issued.flags hresult⟩
    · show nextValid m s false true op = true
      rw [nextValid, if_neg Bool.false_ne_true]
      split
      · rfl
      · rw [hnot (by omega)]
        rfl
    · show nextBusy m s false true op = false
      by_cases h1 : 1 < m
      · have hw : Mpyop.working m s.mpy = false := by rw [hs.busy, hb]
        simp [nextBusy, hnot h1, mpybusy_of_not_working hw]
      · simp [nextBusy, h1]

theorem oResult_pins (hm : 1 < m) (s : Mpyop) (iOp iOp' : BitVec 2) (iA iA' iB iB' : BitVec 32) :
    Mpyop.oResult m s iOp iA iB = Mpyop.oResult m s iOp' iA' iB' := by
  match m with
  | 0 | 1 => omega
  | 2 | 3 | 4 | n + 5 => rfl

/-- The product, when the multiplier says that it is there. -/
theorem Multiplying.product {k : ℕ} (h : Multiplying m op a b k s)
    (hd : Mpyop.oValid m s.mpy false = true) (iOp : BitVec 2) (iA iB : BitVec 32) :
    Mpyop.oResult m s.mpy iOp iA iB = Mpyop.product (op.extractLsb' 0 2) a b := by
  obtain ⟨s₀, x, hx, hidle, hrun, hreset, hfirst⟩ := h.history
  have hm1 := h.several
  have hvalid : ∀ iStb, Mpyop.oValid m (run Mpyop.step s₀ x k) iStb = true := by
    intro iStb
    rw [hrun, ← hd]
    match m with
    | 0 | 1 => omega
    | 2 | 3 | 4 | n + 5 => rfl
  have hmult : Mpyop.Multiplication m s₀ x 0 := by
    refine ⟨by rw [hx], hidle, fun n _ hno => ?_⟩
    rcases Nat.lt_or_ge n k with hn | hn
    · exact hreset n hn
    · have hk := hno k h.begun hn
      rw [hvalid] at hk
      cases hk
  obtain ⟨n, hdecl, hres⟩ := Mpyop.declared_product (by omega) hmult
  rw [Mpyop.Declared, if_neg (by omega)] at hdecl
  obtain ⟨hn0, hnfirst, hnvalid⟩ := hdecl
  -- both are the first clock at which the product is there
  obtain rfl : n = k := by
    rcases Nat.lt_trichotomy n k with hlt | heq | hlt
    · rw [hfirst n hn0 hlt] at hnvalid
      cases hnvalid
    · exact heq
    · have hk := hnfirst k h.begun hlt
      rw [hvalid] at hk
      cases hk
  rw [hx] at hres
  rw [← hres, Mpyop.resultAt, hrun]
  exact oResult_pins hm1 _ _ _ _ _ _ _

theorem Multiplying.valid_next {k : ℕ} (h : Multiplying m op a b k s) (iOp : BitVec 4)
    (iA iB : BitVec 32) :
    (Cpuops.next m s false false iOp iA iB).oValid = Mpyop.oValid m s.mpy false := by
  have hm1 := h.several
  show nextValid m s false false iOp = _
  rw [nextValid, if_neg Bool.false_ne_true, if_neg (by omega)]
  rfl

theorem Multiplying.latched_next {k : ℕ} (h : Multiplying m op a b k s) (iOp : BitVec 4)
    (iA iB : BitVec 32) : Latched op a b (Cpuops.next m s false false iOp iA iB) :=
  ⟨h.latched.c, h.latched.preSign, h.latched.setOvfl, h.latched.keepSgn⟩

/-- The multiplier has not finished. -/
theorem Multiplying.next_busy {k : ℕ} (h : Multiplying m op a b k s) (hs : Sound m s)
    (hd : Mpyop.oValid m s.mpy false = false) (iOp : BitVec 4) (iA iB : BitVec 32) :
    Multiplying m op a b (k + 1) (next m s false false iOp iA iB) := by
  have hvalid : (Cpuops.next m s false false iOp iA iB).oValid = false :=
    (h.valid_next iOp iA iB).trans hd
  have hbusy : (Cpuops.next m s false false iOp iA iB).rBusy = true := by
    have hwork : (Cpuops.next m s false false iOp iA iB).rBusy = true ∨
        (Cpuops.next m s false false iOp iA iB).oValid = true :=
      working_on hs rfl h.busy rfl
    rcases hwork with hb | hv
    · exact hb
    · rw [hvalid] at hv
      cases hv
  refine ⟨hbusy, hvalid, h.several, h.multiply, h.latched_next iOp iA iB, h.high,
    Nat.succ_pos k, ?_⟩
  obtain ⟨s₀, x, hx, hidle, hrun, hreset, hfirst⟩ := h.history
  -- the history goes on with the pins of this clock
  let y : ℕ → Mpyop.Pins := fun j =>
    if j < k then x j else ⟨false, false, iOp.extractLsb' 0 2, iA, iB⟩
  have hy : ∀ j < k, y j = x j := fun j hj => if_pos hj
  have hyk : y k = ⟨false, false, iOp.extractLsb' 0 2, iA, iB⟩ := if_neg (Nat.lt_irrefl k)
  have hsame : ∀ j ≤ k, run Mpyop.step s₀ y j = run Mpyop.step s₀ x j :=
    fun j hj => run_congr fun n hn => hy n (by omega)
  refine ⟨s₀, y, (hy 0 h.begun).trans hx, hidle, ?_, fun j hj => ?_, fun j h0 hj => ?_⟩
  · rw [run_succ, hsame k le_rfl, hrun, hyk]
    rfl
  · rcases Nat.lt_or_ge j k with hlt | hge
    · rw [hy j hlt]
      exact hreset j hlt
    · obtain rfl : j = k := by omega
      rw [hyk]
  · rw [hsame j (by omega)]
    rcases Nat.lt_or_ge j k with hlt | hge
    · rw [hy j hlt]
      exact hfirst j h0 hlt
    · obtain rfl : j = k := by omega
      rw [hyk, hrun]
      exact hd

/-- The multiplier shows the product. -/
theorem Multiplying.next_answered {k : ℕ} (h : Multiplying m op a b k s) (hs : Sound m s)
    (hd : Mpyop.oValid m s.mpy false = true) (iOp : BitVec 4) (iA iB : BitVec 32) :
    Answered op a b (next m s false false iOp iA iB) := by
  have hm1 := h.several
  have hvalid : (Cpuops.next m s false false iOp iA iB).oValid = true :=
    (h.valid_next iOp iA iB).trans hd
  have hresult : (Cpuops.next m s false false iOp iA iB).oC = (aluAnswer op a b).oC := by
    show (if mpyhi m s iOp then (mpyResult m s iOp iA iB).extractLsb' 32 32
      else (mpyResult m s iOp iA iB).extractLsb' 0 32) = (aluCase op a b _).2
    rw [aluCase_multiply h.multiply, show mpyResult m s iOp iA iB = _ from h.product hd _ _ _]
    have hhi : mpyhi m s iOp = s.mpy.oHi := by
      obtain ⟨n, rfl⟩ : ∃ n, m = n + 2 := ⟨m - 2, by omega⟩
      rfl
    rw [hhi, h.high]
  refine ⟨hvalid, ?_, hresult, (h.latched_next iOp iA iB).flags hresult⟩
  have hsound : Sound m (Cpuops.next m s false false iOp iA iB) :=
    sound_next hs fun hno => absurd hno Bool.false_ne_true
  cases hb : (Cpuops.next m s false false iOp iA iB).rBusy
  · rfl
  · rw [hsound.valid hb] at hvalid
    cases hvalid

/-- **On the way.**  One clock later the ALU still multiplies, or it has the answer. -/
theorem Multiplying.next {k : ℕ} (h : Multiplying m op a b k s) (hs : Sound m s) (iOp : BitVec 4)
    (iA iB : BitVec 32) :
    Answered op a b (next m s false false iOp iA iB) ∨
      Multiplying m op a b (k + 1) (next m s false false iOp iA iB) := by
  cases hd : Mpyop.oValid m s.mpy false
  · exact .inr (h.next_busy hs hd iOp iA iB)
  · exact .inl (h.next_answered hs hd iOp iA iB)

end Cpuops

/-! ## The memory unit -/

namespace Memops

variable {AW : ℕ} {c : MemCfg} {op : BitVec 3} {addr data : BitVec 32} {reg : BitVec 5}
  {s : Memops AW} {i : MemIn}

/-- An access is under way. -/
structure Serving (c : MemCfg) (op : BitVec 3) (addr data : BitVec 32) (reg : BitVec 5)
    (s : Memops AW) : Prop where
  gbl : s.rWbCycGbl = !(c.withLocalBus && lclAddr addr)
  lcl : s.rWbCycLcl = (c.withLocalBus && lclAddr addr)
  valid : s.oValid = false
  err : s.oErr = false
  we : s.oWbWe = op.getLsbD 0
  adr : s.oWbAddr = addr.extractLsb' 2 AW
  dat : s.oWbData = laneCopies (laneKey op addr) data
  sel : s.oWbSel = laneSel (laneKey op addr)
  key : s.rOp = laneKey op addr
  wreg : s.oWreg = reg

/-- No access is under way. -/
structure Resting (s : Memops AW) : Prop where
  busy : s.oBusy = false
  valid : s.oValid = false
  err : s.oErr = false

/-- The value of a load is there. -/
structure Loaded (op : BitVec 3) (addr : BitVec 32) (reg : BitVec 5) (d : BitVec 32)
    (s : Memops AW) : Prop where
  busy : s.oBusy = false
  valid : s.oValid = true
  err : s.oErr = false
  wreg : s.oWreg = reg
  result : s.oResult = laneResult (laneKey op addr) d

theorem Serving.busy (h : Serving c op addr data reg s) : s.oBusy = true := by
  rw [oBusy, h.gbl, h.lcl]
  cases c.withLocalBus && lclAddr addr <;> rfl

theorem oWbCyc_eq (hl : c.implementLock = false) (s : Memops AW) :
    (oWbCycGbl c s || oWbCycLcl c s) = s.oBusy := by
  simp [oWbCycGbl, oWbCycLcl, oBusy, hl]

/-- The request. -/
theorem serving_issued (hlock : c.implementLock = false) (hz : c.optZeroOnIdle = false)
    (h : Resting s) (hr : i.iReset = false) (hs : i.iStb = true)
    (ha : badAlignment (laneKey i.iOp i.iAddr) = false) :
    Serving c i.iOp i.iAddr i.iData i.iOreg (next c s i) := by
  have hcyc : (s.rWbCycGbl || s.rWbCycLcl) = false := h.busy
  have hmis : misaligned c i = false := by rw [misaligned, ha, Bool.and_false]
  constructor
  · show nextCycGbl c s i = _
    rw [nextCycGbl, hr, if_neg Bool.false_ne_true, hcyc, if_neg Bool.false_ne_true, gblStb, hs,
      hmis]
    cases c.withLocalBus <;> cases lclAddr i.iAddr <;> rfl
  · show nextCycLcl c s i = _
    rw [nextCycLcl, hr, if_neg Bool.false_ne_true, hcyc, if_neg Bool.false_ne_true, lclStb, hs,
      hmis]
    cases c.withLocalBus <;> cases lclAddr i.iAddr <;> rfl
  · rw [next_oValid, oWbCyc_eq hlock, h.busy, Bool.false_and, Bool.false_and, Bool.and_false]
  · show nextErr c s i = false
    rw [nextErr, hr, if_neg Bool.false_ne_true, hcyc, if_neg Bool.false_ne_true, hmis, ite_self]
  · rw [next_oWbWe, if_pos hs]
  · rw [next_oWbAddr, if_pos hs]
  · rw [next_oWbData, if_pos hs, hz, if_neg Bool.false_ne_true]
  · rw [next_oWbSel, if_pos hs]
  · rw [next_rOp, if_pos hs]
  · rw [next_oWreg, if_pos hs]

theorem resting_reset (hr : i.iReset = true) : Resting (next c s i) := by
  constructor
  · simp [oBusy, nextCycGbl, nextCycLcl, hr]
  · simp [hr]
  · simp [nextErr, hr]

/-- Nothing is asked. -/
theorem Resting.next (hlock : c.implementLock = false) (h : Resting s) (hs : i.iStb = false) :
    Resting (Memops.next c s i) := by
  obtain ⟨hb, hv, he⟩ := rest_next hlock h.busy hs
  exact ⟨hb, hv, he⟩

/-- The bus has not answered. -/
theorem Serving.wait (hz : c.optZeroOnIdle = false) (h : Serving c op addr data reg s)
    (hr : i.iReset = false) (hs : i.iStb = false)
    (he : i.iWbErr = false) (ha : i.iWbAck = false) :
    Serving c op addr data reg (Memops.next c s i) := by
  have hcyc : (s.rWbCycGbl || s.rWbCycLcl) = true := h.busy
  have hzero : zeroOut c s = false := by rw [zeroOut, hz, Bool.false_and, Bool.false_and]
  constructor
  · show nextCycGbl c s i = _
    rw [nextCycGbl, hr, if_neg Bool.false_ne_true, hcyc, if_pos rfl, ha, he, Bool.or_self,
      if_neg Bool.false_ne_true, h.gbl]
  · show nextCycLcl c s i = _
    rw [nextCycLcl, hr, if_neg Bool.false_ne_true, hcyc, if_pos rfl, ha, he, Bool.or_self,
      if_neg Bool.false_ne_true, h.lcl]
  · rw [next_oValid, ha, Bool.and_false, Bool.false_and, Bool.and_false]
  · show nextErr c s i = false
    rw [nextErr, hr, if_neg Bool.false_ne_true, hcyc, if_pos rfl, he]
  · rw [next_oWbWe, hs, if_neg Bool.false_ne_true, hzero, if_neg Bool.false_ne_true, h.we]
  · rw [next_oWbAddr, hs, if_neg Bool.false_ne_true, hzero, if_neg Bool.false_ne_true, h.adr]
  · rw [next_oWbData, hs, if_neg Bool.false_ne_true, hzero, if_neg Bool.false_ne_true, h.dat]
  · rw [next_oWbSel, hs, if_neg Bool.false_ne_true, hzero, if_neg Bool.false_ne_true, h.sel]
  · rw [next_rOp, hs, if_neg Bool.false_ne_true, h.key]
  · rw [next_oWreg, hs, if_neg Bool.false_ne_true, h.wreg]

/-- The bus answers. -/
theorem Serving.answered (hlock : c.implementLock = false) (hz : c.optZeroOnIdle = false)
    (h : Serving c op addr data reg s) (hr : i.iReset = false) (hs : i.iStb = false)
    (he : i.iWbErr = false) (ha : i.iWbAck = true) :
    if op.getLsbD 0 then Resting (Memops.next c s i)
    else Loaded op addr reg i.iWbData (Memops.next c s i) := by
  have hcyc : (s.rWbCycGbl || s.rWbCycLcl) = true := h.busy
  have hbusy : (Memops.next c s i).oBusy = false := by
    show (nextCycGbl c s i || nextCycLcl c s i) = false
    rw [nextCycGbl, nextCycLcl, hr, if_neg Bool.false_ne_true, if_neg Bool.false_ne_true, hcyc,
      if_pos rfl, if_pos rfl, ha, Bool.true_or, if_pos rfl, if_pos rfl, Bool.or_self]
  have herr : (Memops.next c s i).oErr = false := by
    show nextErr c s i = false
    rw [nextErr, hr, if_neg Bool.false_ne_true, hcyc, if_pos rfl, he]
  have hvalid : (Memops.next c s i).oValid = !op.getLsbD 0 := by
    rw [next_oValid, oWbCyc_eq hlock, h.busy, ha, hr, h.we]
    rfl
  cases hwe : op.getLsbD 0
  · rw [if_neg Bool.false_ne_true]
    rw [hwe] at hvalid
    refine ⟨hbusy, hvalid, herr, ?_, ?_⟩
    · rw [next_oWreg, hs, if_neg Bool.false_ne_true, h.wreg]
    · rw [next_oResult, hz, Bool.false_and, if_neg Bool.false_ne_true, h.key]
  · rw [if_pos rfl]
    rw [hwe] at hvalid
    exact ⟨hbusy, hvalid, herr⟩

/-- The value of a load stands for one clock. -/
theorem Loaded.next (hlock : c.implementLock = false) {d : BitVec 32} (h : Loaded op addr reg d s)
    (hs : i.iStb = false) : Resting (next c s i) := by
  obtain ⟨hb, hv, he⟩ := rest_next hlock h.busy hs
  exact ⟨hb, hv, he⟩

end Memops

end ZipStormMX.Cpu
