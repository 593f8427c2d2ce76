/-
  A command to write a block to the card, and the card's answer to it.

  Until the response comes, nothing of the FIFO goes out (`Unanswered`).  Behind it the state machine
  waits for the block to be taken from the FIFO (`Answered`), whatever comes in, as long as it is not
  the token with which the card acknowledges the block.  The crux: a response is heard on a clock on
  which the shifter has just taken a byte, so it cannot take another one on the clock behind it, and the
  state machine has all of its registers in place when the next one is taken.
-/
import ZipStormMX.Sdcard.CommandCrc

namespace ZipStormMX.Sdcard

namespace Sdspi

variable {c : SdspiCfg}

/-! ## Before the response -/

/-- A response of one byte is expected, and has not come yet. -/
structure Unanswered (s : Sdspi c.lgfifoln) : Prop where
  expects : s.rCmdResp = expectR1
  response : s.rRspState ≠ rspBsywait
  second : s.preRspState = true → s.secondRspState ≠ rspBsywait
  unheard : s.rHaveResp = false
  state : s.rCmdState ≤ 5
  reads : s.llFifoRd = false
  ready : s.readyForResponseToken = false
  token : s.rHaveDataResponseToken = false

section Step

variable {s : Sdspi c.lgfifoln} {i : SdspiIn}

theorem unanswered_first (hfree : Free (c := c) s) (hunsent : s.rCmdSent = false)
    (hstarts : starts c s = true) (hexpects : s.rWbData.extractLsb' 8 2 = expectR1) :
    Unanswered (next c s i) := by
  obtain ⟨hbusy, hpre, -⟩ := free_of_starts hstarts
  have hoff := hfree.llCmdStb hbusy
  have hnot : ∀ r, responds c s r = false := by
    intro r
    rw [responds, hpre, Bool.false_and, Bool.false_and]
  have hfirst : firstResponse c s = false := by
    rw [firstResponse, hpre, Bool.false_and, Bool.false_and, Bool.false_and]
  refine ⟨?_, ?_, fun hyes => ?_, ?_, ?_, ?_, ?_, ?_⟩
  · rw [next_rCmdResp, nextCmdResp, if_pos hstarts]
    exact hexpects
  · rw [next_rRspState, nextRspState, hunsent, Bool.not_false, if_pos rfl]
    decide
  · rw [next_preRspState, hunsent, Bool.and_false] at hyes
    exact absurd hyes (by decide)
  · rw [next_rHaveResp, nextHaveResp, hfirst, hnot, hoff]
    rfl
  · have hzero : (next c s i).rCmdState = 0 := by
      rw [next_rCmdState, nextCmdState, hpre, hoff]
      rfl
    rw [hzero]
    decide
  · rw [next_llFifoRd, nextLlFifoRd, hpre, hoff]
    rfl
  · rw [next_readyForResponseToken, hbusy, Bool.false_and]
  · rw [next_rHaveDataResponseToken, hbusy, Bool.false_and]

/-- No response is heard but the first one. -/
theorem Unanswered.deaf (h : Unanswered s) : responds c s rspBsywait = false := by
  rw [responds, beq_eq_false_iff_ne.mpr h.response, Bool.and_false]

theorem Unanswered.next (h : Unanswered s) (hbusy : s.rCmdBusy = true)
    (hno : firstResponse c s = false) : Unanswered (Sdspi.next c s i) := by
  have hstarts := not_starts hbusy
  refine ⟨?_, ?_, fun _ => ?_, ?_, ?_, ?_, ?_, ?_⟩
  · rw [next_rCmdResp, nextCmdResp, hstarts, if_neg Bool.false_ne_true, h.expects, ite_self]
  · rw [next_rRspState, nextRspState]
    by_cases hsent : (!s.rCmdSent) = true
    · rw [if_pos hsent]
      decide
    rw [if_neg hsent]
    by_cases hpre : s.preRspState = true
    · rw [if_pos hpre, beq_eq_false_iff_ne.mpr h.response, if_neg Bool.false_ne_true]
      split_ifs
      · exact h.second hpre
      · decide
      · decide
      · decide
      · decide
      · decide
      · decide
      · exact h.response
    · rw [if_neg hpre]
      exact h.response
  · rw [next_secondRspState, h.expects, beq_self_eq_true, if_pos rfl]
    split_ifs <;> decide
  · rw [next_rHaveResp, nextHaveResp, hno, h.deaf, h.unheard]
    simp
  · have hstate := h.state
    rw [next_rCmdState, nextCmdState, h.unheard, Bool.and_false, if_neg Bool.false_ne_true]
    by_cases hearly : (s.preCmdState && decide (s.rCmdState < 5)) = true
    · rw [if_pos hearly]
      rw [Bool.and_eq_true, decide_eq_true_eq] at hearly
      bv_omega
    · have hsix : (s.rCmdState == 6) = false := by
        rw [beq_eq_false_iff_ne]
        intro hsix
        rw [hsix] at hstate
        exact absurd hstate (by decide)
      rw [if_neg hearly, hsix, Bool.and_false, Bool.false_and, if_neg Bool.false_ne_true]
      split_ifs
      · decide
      · exact hstate
  · rw [next_llFifoRd, nextLlFifoRd, h.unheard, h.reads]
    simp
  · rw [next_readyForResponseToken, h.reads, h.ready]
    simp
  · rw [next_rHaveDataResponseToken, h.ready, h.token]
    simp

end Step

/-! ## Behind the response -/

/-- The response has come, and the block is taken from the FIFO, or will be. -/
structure Answered (s : Sdspi c.lgfifoln) : Prop where
  busy : s.rCmdBusy = true
  offers : s.llCmdStb = true
  uses : s.rUseFifo = true
  outwards : s.rFifoWr = true
  heard : s.rHaveResp = true
  response : s.rRspState = rspGettoken
  sent : s.rCmdSent = true
  token : s.rHaveDataResponseToken = false
  reads : (s.rCmdState = 5 ∧ s.llFifoRd = false) ∨ (s.rCmdState = 6 ∧ s.llFifoRd = true)

section Step

variable {s : Sdspi c.lgfifoln} {i : SdspiIn}

theorem Answered.deaf (h : Answered s) : firstResponse c s = false ∧
    ∀ r, r ≠ rspGettoken → responds c s r = false := by
  refine ⟨?_, fun r hr => ?_⟩
  · rw [firstResponse, h.response]
    simp [rspGettoken, rspNone]
  · rw [responds, h.response, beq_eq_false_iff_ne.mpr hr.symm, Bool.and_false]

/-- **The packet is not broken off.** -/
theorem Answered.next (h : Answered s) (hwatch : s.rWatchdogErr = false)
    (hquiet : llOutStb c s = true → (llOutDat c s).getLsbD 4 = true)
    (hgoes : s.llFifoRdComplete = false) : Answered (Sdspi.next c s i) := by
  have hstarts := not_starts h.busy
  obtain ⟨hno, hdeaf⟩ := h.deaf
  have hbsy := hdeaf rspBsywait (by decide)
  have hword := hdeaf rspGetword (by decide)
  have hdone := hdeaf rspRdcomplete (by decide)
  have hwriting : writingDone c s = false := by
    rw [writingDone, hdeaf rspWriting (by decide), Bool.false_and]
  have hfive : 5 ≤ s.rCmdState := by
    rcases h.reads with ⟨hst, -⟩ | ⟨hst, -⟩
    · rw [hst]
      decide
    · rw [hst]
      decide
  refine ⟨?_, ?_, ?_, ?_, ?_, ?_, ?_, ?_, ?_⟩
  · rw [next_rCmdBusy, nextCmdBusy, h.offers, h.busy, Bool.true_or, ite_self, ite_self]
  · rw [next_llCmdStb, nextLlCmdStb, hwatch, hno, hbsy, hword, hdone, hwriting, hstarts, h.offers]
    simp
  · rw [next_rUseFifo, nextUseFifo, hstarts, h.offers]
    exact h.uses
  · rw [rFifoWr_busy h.busy]
    exact h.outwards
  · rw [next_rHaveResp, nextHaveResp, hno, hbsy, h.offers]
    exact h.heard
  · rw [next_rRspState, nextRspState, h.sent, h.response, h.token]
    simp [rspGettoken, rspNone, rspBsywait, rspGetword]
  · rw [next_rCmdSent, h.offers, decide_eq_true hfive, Bool.and_true]
  · rw [next_rHaveDataResponseToken, h.token]
    cases hstb : llOutStb c s
    · simp
    · rw [hquiet hstb]
      simp
  · rcases h.reads with ⟨hst, hrd⟩ | ⟨hst, hrd⟩
    · rw [next_rCmdState, nextCmdState, next_llFifoRd, nextLlFifoRd, hst, hrd, h.heard, h.uses,
        h.outwards, h.offers]
      cases s.preCmdState
      · exact .inl ⟨rfl, rfl⟩
      · exact .inr ⟨rfl, rfl⟩
    · right
      rw [next_rCmdState, nextCmdState, next_llFifoRd, nextLlFifoRd, hst, hrd, hgoes, h.offers]
      cases s.preCmdState <;> exact ⟨rfl, rfl⟩

end Step

/-! ## Whole runs -/

/-- A block is to be written from FIFO `f` to the card: the command starts on clock `a`, and its
    response of one byte is heard on clock `r`. -/
structure BlockWrite (c : SdspiCfg) (s : ℕ → Sdspi c.lgfifoln) (f : Bool) (a r : ℕ) : Prop extends
    Moves c s f true a (r + 1) where
  expects : (s a).rWbData.extractLsb' 8 2 = expectR1
  uses : (s r).rUseFifo = true
  response : firstResponse c (s r) = true
  first : ∀ t, a < t → t < r → firstResponse c (s t) = false

section Runs

variable {s : ℕ → Sdspi c.lgfifoln} {x : ℕ → SdspiIn} {f : Bool} {a r : ℕ}

theorem BlockWrite.unanswered (h : BlockWrite c s f a r) (h0 : AtPowerUp c (s 0))
    (hstep : ∀ n, s (n + 1) = next c (s n) (x n)) : ∀ t, a < t → t ≤ r → Unanswered (s t) := by
  obtain ⟨hpos, har⟩ := h.order
  obtain ⟨m, rfl⟩ : ∃ m, a = m + 1 := ⟨a - 1, by omega⟩
  have hbusy := (free_of_starts h.starts).1
  intro t ht
  induction t, ht using Nat.le_induction with
  | base =>
    intro _
    rw [hstep]
    exact unanswered_first (free_run h0 hstep m) (unsent_of_free h0 hstep hbusy) h.starts h.expects
  | succ t ht ih =>
    intro htr
    rw [hstep]
    exact (ih (by omega)).next (h.busy t ht (by omega)) (h.first t ht (by omega))

/-- **The response.** -/
theorem BlockWrite.answered (h : BlockWrite c s f a r) (h0 : AtPowerUp c (s 0))
    (hstep : ∀ n, s (n + 1) = next c (s n) (x n)) (hwatch : (s r).rWatchdogErr = false) :
    Answered (s (r + 1)) := by
  obtain ⟨hpos, har⟩ := h.order
  have hun := h.unanswered h0 hstep r (by omega) (Nat.le_refl r)
  have hbusy := h.busy r (by omega) (Nat.lt_succ_self r)
  have hstarts := not_starts hbusy
  obtain ⟨q, rfl⟩ : ∃ q, r = q + 2 := ⟨r - 2, by omega⟩
  have hresp := h.response
  rw [firstResponse, Bool.and_eq_true, Bool.and_eq_true, Bool.and_eq_true] at hresp
  obtain ⟨⟨⟨hpre, hrsp⟩, hnone⟩, hlow⟩ := hresp
  -- a byte has just been taken, and another one strobed behind the command
  have htaken : taken c (s (q + 1)) (x (q + 1)) = true := by
    rw [hstep, next_preCmdState] at hpre
    exact hpre
  have hon₁ : (s (q + 1)).llCmdStb = true := by
    rw [taken, Bool.and_eq_true] at htaken
    exact htaken.1
  have hpast : (s q).llCmdStb = true ∧ 5 ≤ (s q).rCmdState := by
    rw [hstep, next_preRspState, Bool.and_eq_true, hstep, next_rCmdSent, Bool.and_eq_true,
      decide_eq_true_eq] at hrsp
    exact hrsp.2
  have haq : a < q := by
    by_contra hle
    obtain rfl : q = a := by omega
    rw [off_of_free h0 hstep (free_of_starts h.starts).1] at hpast
    exact absurd hpast.1 (by decide)
  have hbusy₁ := h.busy (q + 1) (by omega) (by omega)
  have hun₁ := h.unanswered h0 hstep (q + 1) (by omega) (by omega)
  have hwr := fun t ht htr => (h.command hstep t ht htr).2
  have hpre₁ : (s (q + 1)).preCmdState = false := by
    rw [Bool.eq_false_iff]
    intro hpre₁
    rw [hstep, next_preCmdState] at hpre₁
    have hleft := left_taken h0 hstep hpre₁
    rw [taken, Bool.and_eq_true] at htaken
    rw [Llsdspi.left_of_idle (rests_run h0 hstep (q + 1)) htaken.2] at hleft
    omega
  have hon₂ : (s (q + 2)).llCmdStb = true := by
    rw [hstep, next_llCmdStb, nextLlCmdStb, hpre₁, not_starts hbusy₁]
    exact hon₁
  have hfive₁ : 5 ≤ (s (q + 1)).rCmdState := by
    rw [hstep]
    exact later_next hpast.2 hpast.1
  have hfive₂ : (s (q + 2)).rCmdState = 5 := by
    have hge : 5 ≤ (s (q + 2)).rCmdState := by
      rw [hstep (q + 1)]
      exact later_next hfive₁ hon₁
    have hle := hun.state
    bv_omega
  have huses₁ : (s (q + 1)).rUseFifo = true := by
    have huses := h.uses
    rw [hstep, next_rUseFifo, nextUseFifo, not_starts hbusy₁, hon₁] at huses
    exact huses
  have hsecond : (s (q + 2)).secondRspState = rspGettoken := by
    rw [hstep, next_secondRspState, hun₁.expects, huses₁, hwr (q + 1) (by omega) (by omega)]
    rfl
  have hsent : (s (q + 2)).rCmdSent = true := by
    rw [hstep, next_rCmdSent, hon₁, decide_eq_true hfive₁, Bool.and_true]
  have hheard : (firstResponse c (s (q + 2)) && (s (q + 2)).rCmdResp == expectR1) = true := by
    rw [h.response, hun.expects]
    rfl
  rw [hstep]
  refine ⟨?_, ?_, ?_, ?_, ?_, ?_, ?_, ?_, .inl ⟨?_, ?_⟩⟩
  · rw [next_rCmdBusy, nextCmdBusy, hpre, hstarts, hbusy]
    rfl
  · rw [next_llCmdStb, nextLlCmdStb, if_pos hpre, hwatch, if_neg Bool.false_ne_true, if_pos hheard]
    exact h.uses
  · rw [next_rUseFifo, nextUseFifo, hstarts, hon₂]
    exact h.uses
  · rw [rFifoWr_busy hbusy]
    exact hwr (q + 2) (by omega) (by omega)
  · rw [next_rHaveResp, nextHaveResp, if_pos hheard]
  · rw [next_rRspState, nextRspState, hsent, hrsp, hnone, hlow, hsecond]
    rfl
  · rw [next_rCmdSent, hon₂, hfive₂]
    rfl
  · rw [next_rHaveDataResponseToken, hun.ready, hun.token]
    simp
  · rw [next_rCmdState, nextCmdState, hfive₂, hun.unheard, hon₂]
    simp
  · rw [next_llFifoRd, nextLlFifoRd, hun.unheard, hun.reads]
    simp

end Runs

end Sdspi

end ZipStormMX.Sdcard
