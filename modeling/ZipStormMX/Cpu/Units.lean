/-
  The execution units at rest.

  The multiplier and the divide unit keep results on their way for many clocks.  What the CPU relies
  on is that a unit that is not busy has nothing left: without a new operation it will be neither
  busy nor valid on the next clock.  Behind that stands, for each unit, an invariant (`Sound`): its
  `busy` covers every register in which a result can be waiting.
-/
import ZipStormMX.Cpu.Stall

namespace ZipStormMX.Cpu

/-! ## The multiplier -/

namespace Mpyop

/-- A product is on its way, or it is ready. -/
def working (m : ℕ) (s : Mpyop) : Bool :=
  match m with
  | 0 | 1 => false
  | 2 => s.mpypipe2
  | 3 => s.mpypipe3.getLsbD 0 || s.mpypipe3.getLsbD 1
  | 4 => s.mpypipe4.getLsbD 0 || s.mpypipe4.getLsbD 1 || s.mpypipe4.getLsbD 2
  | _ => s.slow.oBusy || s.slow.oDone

theorem shift2 : ∀ (p : BitVec 2) (b : Bool),
    (p.extractLsb' 0 1 ++ BitVec.ofBool b).getLsbD 0 = b ∧
      (p.extractLsb' 0 1 ++ BitVec.ofBool b).getLsbD 1 = p.getLsbD 0 := by
  decide

theorem shift3 : ∀ (p : BitVec 3) (b : Bool),
    (p.extractLsb' 0 2 ++ BitVec.ofBool b).getLsbD 0 = b ∧
      (p.extractLsb' 0 2 ++ BitVec.ofBool b).getLsbD 1 = p.getLsbD 0 ∧
      (p.extractLsb' 0 2 ++ BitVec.ofBool b).getLsbD 2 = p.getLsbD 1 := by
  decide

variable {m : ℕ} {s : Mpyop} {iReset iStb : Bool} {iOp : BitVec 2} {iA iB : BitVec 32}

/-- What works on the next clock has just been started, or was busy. -/
theorem working_next : working m (next s iReset iStb iOp iA iB) =
    (!iReset && decide (1 < m) && (iStb || oBusy m s)) := by
  match m with
  | 0 | 1 => simp [working]
  | 2 => simp [working, oBusy]
  | 3 =>
    obtain ⟨h0, h1⟩ := shift2 s.mpypipe3 iStb
    cases iReset
    · simp only [working, next_mpypipe3, Bool.false_eq_true, if_false, h0, h1]
      rfl
    · simp [working]
  | 4 =>
    obtain ⟨h0, h1, h2⟩ := shift3 s.mpypipe4 iStb
    cases iReset
    · simp only [working, next_mpypipe4, Bool.false_eq_true, if_false, h0, h1, h2, Bool.or_assoc]
      rfl
    · simp [working]
  | n + 5 =>
    have hm : 1 < n + 5 := by omega
    simp only [working, next_slow, Slowmpy.next, oBusy, hm]
    cases iReset <;> cases iStb <;> cases s.slow.oBusy <;> cases s.slow.almostDone <;> rfl

theorem working_of_oBusy (h : oBusy m s = true) : working m s = true := by
  match m with
  | 0 | 1 | 2 => cases h
  | 3 =>
    have h' : s.mpypipe3.getLsbD 0 = true := h
    rw [working, h', Bool.true_or]
  | 4 =>
    have h' : (s.mpypipe4.getLsbD 0 || s.mpypipe4.getLsbD 1) = true := h
    rw [working, h', Bool.true_or]
  | n + 5 =>
    have h' : s.slow.oBusy = true := h
    simp [working, h']

theorem working_of_oValid (hm : 1 < m) (h : oValid m s iStb = true) : working m s = true := by
  match m with
  | 0 | 1 => omega
  | 2 => exact h
  | 3 =>
    have h' : s.mpypipe3.getLsbD 1 = true := h
    rw [working, h', Bool.or_true]
  | 4 =>
    have h' : s.mpypipe4.getLsbD 2 = true := h
    rw [working, h', Bool.or_true]
  | n + 5 =>
    have h' : s.slow.oDone = true := h
    simp [working, h']

theorem busy_or_done (hm : 1 < m) (h : working m s = true) :
    oBusy m s = true ∨ oValid m s iStb = true := by
  match m with
  | 0 | 1 => omega
  | 2 => exact Or.inr h
  | 3 | n + 5 => exact Bool.or_eq_true_iff.mp h
  | 4 =>
    have h' : (s.mpypipe4.getLsbD 0 || s.mpypipe4.getLsbD 1 || s.mpypipe4.getLsbD 2) = true := h
    exact Bool.or_eq_true_iff.mp h'

/-- At most one product is on its way. -/
def single (m : ℕ) (s : Mpyop) : Bool :=
  match m with
  | 0 | 1 | 2 => true
  | 3 => !(s.mpypipe3.getLsbD 0 && s.mpypipe3.getLsbD 1)
  | 4 =>
    !(s.mpypipe4.getLsbD 0 && s.mpypipe4.getLsbD 1)
      && !((s.mpypipe4.getLsbD 0 || s.mpypipe4.getLsbD 1) && s.mpypipe4.getLsbD 2)
  | _ => !(s.slow.oBusy && s.slow.oDone)

/-- So it is as long as one is started only when none is on its way. -/
theorem single_next (h : single m s = true) (hs : iStb = true → working m s = false) :
    single m (next s iReset iStb iOp iA iB) = true := by
  match m with
  | 0 | 1 | 2 => rfl
  | 3 =>
    obtain ⟨h0, h1⟩ := shift2 s.mpypipe3 iStb
    cases hr : iReset
    · simp only [single, next_mpypipe3, Bool.false_eq_true, if_false, h0, h1]
      cases hb : iStb
      · rfl
      · have hw := hs hb
        simp only [working, Bool.or_eq_false_iff] at hw
        rw [hw.1]
        rfl
    · simp [single]
  | 4 =>
    obtain ⟨h0, h1, h2⟩ := shift3 s.mpypipe4 iStb
    cases hr : iReset
    · simp only [single, next_mpypipe4, Bool.false_eq_true, if_false, h0, h1, h2]
      simp only [single, Bool.and_eq_true] at h
      cases hb : iStb
      · rw [Bool.false_and, Bool.false_or]
        simpa using h.1
      · have hw := hs hb
        simp only [working, Bool.or_eq_false_iff] at hw
        rw [hw.1.1, hw.1.2]
        rfl
    · simp [single]
  | n + 5 =>
    simp only [single, next_slow, Slowmpy.next]
    cases iReset <;> cases iStb <;> cases s.slow.oBusy <;> cases s.slow.almostDone <;> rfl

theorem not_done_of_busy (hm : 1 < m) (h : single m s = true) (hb : oBusy m s = true) :
    oValid m s iStb = false := by
  match m with
  | 0 | 1 => omega
  | 2 => cases hb
  | 3 =>
    have hb' : s.mpypipe3.getLsbD 0 = true := hb
    simp only [single, hb', Bool.true_and, Bool.not_eq_true'] at h
    exact h
  | 4 =>
    have hb' : (s.mpypipe4.getLsbD 0 || s.mpypipe4.getLsbD 1) = true := hb
    simp only [single, hb', Bool.and_eq_true] at h
    simpa [oValid] using h.2
  | n + 5 =>
    have hb' : s.slow.oBusy = true := hb
    simpa [single, hb', oValid] using h

theorem single_reset (hr : iReset = true) : single m (next s iReset iStb iOp iA iB) = true := by
  match m with
  | 0 | 1 | 2 => rfl
  | 3 | 4 => simp [single, hr]
  | n + 5 => simp [single, Slowmpy.next, hr]

end Mpyop

/-! ## The ALU -/

namespace Cpuops

/-- The ALU is busy while the multiplier works, and it is not busy while it has a result. -/
structure Sound (m : ℕ) (s : Cpuops) : Prop where
  busy : Mpyop.working m s.mpy = s.rBusy
  single : Mpyop.single m s.mpy = true
  valid : s.rBusy = true → s.oValid = false

variable {m : ℕ} {s : Cpuops} {iReset iStb : Bool} {iOp : BitVec 4} {iA iB : BitVec 32}

theorem busy_next : Mpyop.working m (next m s iReset iStb iOp iA iB).mpy =
    (next m s iReset iStb iOp iA iB).rBusy := by
  simp only [next_mpy, Mpyop.working_next, next_rBusy, nextBusy, thisIsAMultiplyOp, mpybusy]
  cases iStb <;> rfl

theorem sound_reset (hr : iReset = true) : Sound m (next m s iReset iStb iOp iA iB) where
  busy := busy_next
  single := Mpyop.single_reset hr
  valid _ := by simp [nextValid, hr]

theorem mpybusy_of_not_working (hw : Mpyop.working m s.mpy = false) : mpybusy m s = false := by
  cases hmb : mpybusy m s
  · rfl
  · have := Mpyop.working_of_oBusy hmb
    rw [hw] at this
    cases this

theorem mpydone_of_not_working (hm : 1 < m) (hw : Mpyop.working m s.mpy = false) :
    mpydone m s iStb iOp = false := by
  cases hd : mpydone m s iStb iOp
  · rfl
  · have := Mpyop.working_of_oValid hm hd
    rw [hw] at this
    cases this

/-- The invariant holds as long as nothing is started while the ALU is busy. -/
theorem sound_next (h : Sound m s) (hs : iStb = true → s.rBusy = false) :
    Sound m (next m s iReset iStb iOp iA iB) where
  busy := busy_next
  single := by
    refine Mpyop.single_next h.single fun hm => ?_
    simp only [thisIsAMultiplyOp, Bool.and_eq_true] at hm
    rw [h.busy, hs hm.1]
  valid hb := by
    simp only [next_rBusy, nextBusy, Bool.and_eq_true, Bool.not_eq_true', decide_eq_true_eq] at hb
    obtain ⟨⟨hr, hm⟩, hb⟩ := hb
    simp only [next_oValid, nextValid, hr, Bool.false_eq_true, if_false, if_neg (Nat.not_le.mpr hm)]
    cases hstb : iStb
    · have hmb : mpybusy m s = true := by simpa [hstb] using hb
      simpa [mpydone] using Mpyop.not_done_of_busy hm h.single hmb
    · have hw : Mpyop.working m s.mpy = false := by rw [h.busy, hs hstb]
      rw [hstb, mpybusy_of_not_working hw] at hb
      have hmul : thisIsAMultiplyOp true iOp = true := by simpa using hb
      simp [hmul, mpydone_of_not_working hm hw]

/-- Not busy and not asked: nothing comes. -/
theorem rest_next (h : Sound m s) (hb : s.rBusy = false) (hs : iStb = false) :
    (next m s iReset iStb iOp iA iB).rBusy = false ∧
      (next m s iReset iStb iOp iA iB).oValid = false := by
  have hw : Mpyop.working m s.mpy = false := by rw [h.busy, hb]
  have hbusy := mpybusy_of_not_working hw
  refine ⟨by simp [nextBusy, hs, hbusy], ?_⟩
  simp only [next_oValid, nextValid, hs, Bool.false_and, Bool.false_or]
  rcases Nat.lt_or_ge 1 m with hm | hm
  · simp [mpydone_of_not_working hm hw]
  · simp [hm]

/-- Without anything new, an ALU that is busy stays busy or has its result. -/
theorem working_on (h : Sound m s) (hr : iReset = false) (hb : s.rBusy = true) (hs : iStb = false) :
    (next m s iReset iStb iOp iA iB).rBusy = true ∨
      (next m s iReset iStb iOp iA iB).oValid = true := by
  have hw : Mpyop.working m s.mpy = true := by rw [h.busy, hb]
  have hm : 1 < m := by
    match m with
    | 0 | 1 => cases hw
    | n + 2 => omega
  simp only [next_rBusy, nextBusy, next_oValid, nextValid, hr, hm, hs, mpybusy, mpydone,
    Bool.false_and, Bool.false_or, Bool.not_false, decide_true, Bool.true_and, Bool.false_eq_true,
    if_false, if_neg (Nat.not_le.mpr hm)]
  exact Mpyop.busy_or_done hm hw

/-- A reset takes everything back. -/
theorem rest_reset (hr : iReset = true) :
    (next m s iReset iStb iOp iA iB).rBusy = false ∧
      (next m s iReset iStb iOp iA iB).oValid = false := by
  simp [nextBusy, nextValid, hr]

end Cpuops

/-! ## The divide unit -/

namespace Div

/-- `busy` covers the division and the change of sign after it. -/
structure Sound (s : Div) : Prop where
  busy : s.rBusy = true → s.oBusy = true
  sign : s.rSign = true → s.oBusy = true ∨ s.oValid = true
  pre : s.preSign = true → s.rBusy = true ∧ s.lastBit = false ∧ s.oValid = false

variable {s : Div} {iReset iWr iSigned : Bool} {iN iD : BitVec 32}

theorem sound_reset (h : iReset = true) : Sound (next s iReset iWr iSigned iN iD) := by
  constructor <;> simp [h]

/-- The invariant holds as long as a division is started only while the unit is not busy. -/
theorem sound_next (h : Sound s) (hw : iWr = true → s.oBusy = false) :
    Sound (next s iReset iWr iSigned iN iD) := by
  obtain ⟨hb, hsg, hp⟩ := h
  cases hr : iReset
  · cases hwr : iWr
    · constructor
      · simp only [next_rBusy, next_oBusy, nextBusy]
        cases hrb : s.rBusy <;> simp_all
      · simp only [next_rSign, next_oBusy, nextBusy, next_oValid, nextValid]
        cases hrb : s.rBusy <;> cases hps : s.preSign <;> cases hz : s.zeroDivisor <;> simp_all
      · simp
    · have hob := hw hwr
      have hrb : s.rBusy = false := by
        cases hrb : s.rBusy
        · rfl
        · have := hb hrb
          rw [hob] at this
          cases this
      have hv : nextValid s false = false := by
        cases hs : s.rSign
        · simp [nextValid, hrb, hs]
        · have hov : s.oValid = true := by simpa [hob] using hsg hs
          simp [nextValid, hov]
      constructor <;> simp [nextBusy, hrb, hv]
  · exact sound_reset rfl

/-- Not busy and not asked: nothing comes. -/
theorem rest_next (h : Sound s) (hb : s.oBusy = false) (hw : iWr = false) :
    (next s iReset iWr iSigned iN iD).oBusy = false ∧
      (next s iReset iWr iSigned iN iD).oValid = false ∧
      (next s iReset iWr iSigned iN iD).oErr = false := by
  have hrb : s.rBusy = false := by
    cases hrb : s.rBusy
    · rfl
    · have := h.busy hrb
      rw [hb] at this
      cases this
  refine ⟨by simp [nextBusy, hw, hrb], ?_, by simp [hrb]⟩
  simp only [next_oValid, nextValid, hrb]
  cases hv : s.oValid
  · cases hs : s.rSign
    · simp
    · have := h.sign hs
      rw [hb, hv] at this
      rcases this with this | this <;> cases this
  · simp

theorem rest_reset (hr : iReset = true) :
    (next s iReset iWr iSigned iN iD).oBusy = false ∧
      (next s iReset iWr iSigned iN iD).oValid = false ∧
      (next s iReset iWr iSigned iN iD).oErr = false := by
  simp [nextBusy, nextValid, hr]

end Div

end ZipStormMX.Cpu
