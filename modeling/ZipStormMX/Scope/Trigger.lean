/-
  Where the trigger is in a compressed capture.

  The trigger forces its sample to be sent as data.  Counting the samples after it says all there is to
  say of the stop (`Counts`): the flag, its pipe and the counter are functions of that number.  The
  crux (`Marked`): the word that the trigger forces is never taken back, and the words that make it to
  the memory end with the sample `holdoff + 1` later, because the scope sends only data while it stops.
-/
import ZipStormMX.Scope.Readout

namespace ZipStormMX.Scope

open RunLength (Word expand extend)

namespace Wbscopc

variable {c : WbscopcCfg}

section Step

variable {s : Wbscopc c.lgmem} {i : WbscopcIn} {h n : ℕ}

/-! ## The samples after the trigger -/

/-- The scope has taken `n` samples since that of the trigger; its holdoff is `h`. -/
structure Counts (s : Wbscopc c.lgmem) (h n : ℕ) : Prop where
  holdoff : s.brHoldoff.toNat = h
  triggered : s.drTriggered = true
  stopped : s.drStopped = true ↔ h + 1 ≤ n
  counter : n ≤ h → s.holdoffCounter.toNat = n
  pipe : ∀ k < 5, s.drStopPipe.getLsbD k = true ↔ h + 2 + k ≤ n

theorem Counts.next (hc : Counts s h n) (hrun : dwReset c s = false)
    (hquiet : i.writeToControl = false) :
    Counts (Wbscopc.next c s i) h (n + i.iCe.toNat) := by
  obtain ⟨hhold, htrig, hstop, hcount, hpipe⟩ := hc
  have hlt : h < 2 ^ 20 := hhold ▸ s.brHoldoff.isLt
  have hhold' : (Wbscopc.next c s i).brHoldoff = s.brHoldoff := by
    show (if i.writeToControl then _ else s.brHoldoff) = _
    rw [hquiet, if_neg Bool.false_ne_true]
  have htrig' : (Wbscopc.next c s i).drTriggered = true := by
    show (if dwReset c s then false else if i.iCe && dwTrigger c s i then true else s.drTriggered) = _
    rw [hrun, if_neg Bool.false_ne_true, htrig, ite_self]
  have hstop' : (Wbscopc.next c s i).drStopped =
      if i.iCe && !s.drStopped then decide (s.brHoldoff ≤ s.holdoffCounter) else s.drStopped := by
    show (if !s.drTriggered || dwReset c s then false else _) = _
    rw [htrig, hrun, Bool.not_true, Bool.or_false, if_neg Bool.false_ne_true]
  have hcount' : (Wbscopc.next c s i).holdoffCounter =
      if i.iCe && !s.drStopped then s.holdoffCounter + 1 else s.holdoffCounter := by
    show (if dwReset c s then 0 else if i.iCe && s.drTriggered && !s.drStopped then _ else _) = _
    rw [hrun, htrig, if_neg Bool.false_ne_true, Bool.and_true]
  cases hce : i.iCe
  · obtain ⟨-, -, -, -, -, -, -, -, -, -, hpipe'⟩ := encoder_idle hce hrun
    rw [hce, Bool.false_and, if_neg Bool.false_ne_true] at hstop' hcount'
    refine ⟨by rw [hhold', hhold], htrig', ?_, ?_, ?_⟩
    · rw [hstop']
      exact hstop
    · rw [hcount']
      exact hcount
    · rw [hpipe']
      exact hpipe
  · rw [hce, Bool.true_and] at hstop' hcount'
    refine ⟨by rw [hhold', hhold], htrig', ?_, fun hle => ?_, fun k hk => ?_⟩
    · rw [hstop', Bool.toNat_true]
      cases hs : s.drStopped
      · have hle : n ≤ h := by
          by_contra hgt
          rw [hstop.mpr (by omega)] at hs
          exact absurd hs (by decide)
        rw [Bool.not_false, if_pos rfl, decide_eq_true_eq, BitVec.le_def, hhold, hcount hle]
        omega
      · have := hstop.mp hs
        rw [Bool.not_true, if_neg Bool.false_ne_true]
        exact iff_of_true rfl (by omega)
    · rw [Bool.toNat_true] at hle ⊢
      have hs : s.drStopped = false := Bool.eq_false_iff.mpr fun hs => by
        have := hstop.mp hs
        omega
      have hn := hcount (by omega)
      rw [hcount', hs, Bool.not_false, if_pos rfl]
      bv_omega
    · rw [stopPipe_next hce hrun, Bool.toNat_true]
      rcases k with _ | k
      · rw [shift_zero, hstop]
        omega
      · rw [shift_succ _ _ (by omega), hpipe k (by omega)]
        omega

/-- Before the trigger nothing is in the pipe. -/
theorem Stopping.none (hstop : Stopping s) (hno : s.drTriggered = false) :
    ∀ k < 5, s.drStopPipe.getLsbD k = false := by
  intro k
  induction k with
  | zero =>
    refine fun _ => Bool.eq_false_iff.mpr fun hp => ?_
    exact absurd (hno.symm.trans (hstop.triggered (hstop.enters hp))) (by decide)
  | succ k ih =>
    refine fun hk => Bool.eq_false_iff.mpr fun hp => ?_
    exact absurd ((ih (by omega)).symm.trans (hstop.moves k (by omega) hp)) (by decide)

/-! ## The word of the trigger -/

/-- The words `v` have been recorded of the samples `l`, among them, at `m`, that of the trigger. -/
structure Marked (s : Wbscopc c.lgmem) (l : List (BitVec 31)) (v : List (BitVec 32)) (m h : ℕ)
    (d : BitVec 31) : Prop where
  sample : l[m]? = some d
  force : l.length = m + 1 → s.drForceWrite = true
  underway : m + 1 < l.length → s.drStopPipe.getLsbD 2 = false →
    ∃ q q', v.map toWord ++ underway s = q ++ .data d :: q' ∧ expand q = l.take m
  done : s.drStopPipe.getLsbD 2 = true →
    (∃ q q', v.map toWord = q ++ .data d :: q' ∧ expand q = l.take m) ∧
      expand (v.map toWord) = l.take (m + h + 2)

variable {l : List (BitVec 31)} {v : List (BitVec 32)} {q : List (Word (BitVec 31))} {m : ℕ}
  {d d₀ : BitVec 31}

/-- A count that is last comes after the data. -/
theorem concat_count {a q q' : List (Word (BitVec 31))} {n : ℕ}
    (h : a ++ [.again n] = q ++ .data d :: q') :
    ∃ r, q' = r ++ [.again n] ∧ a = q ++ .data d :: r := by
  rcases List.eq_nil_or_concat q' with rfl | ⟨r, w, rfl⟩
  · have hlast := (List.append_inj' h rfl).2
    cases hlast
  · rw [List.concat_eq_append] at h ⊢
    have hr : a ++ [.again n] = (q ++ .data d :: r) ++ [w] := by
      rw [h, List.append_assoc]
      rfl
    obtain ⟨ha, hw⟩ := List.append_inj' hr rfl
    exact ⟨r, by rw [hw], ha⟩

theorem Marked.idle (hm : Marked s l v m h d) (hce : i.iCe = false) (hrun : dwReset c s = false) :
    Marked (Wbscopc.next c s i) l v m h d := by
  obtain ⟨-, -, himm, hval, hlst, hlval, -, hforce, -, -, hpipe⟩ := encoder_idle hce hrun
  have hunder : Wbscopc.underway (Wbscopc.next c s i) = Wbscopc.underway s := by
    rw [Wbscopc.underway, Wbscopc.underway, immWord, immWord, lstWord, lstWord, himm, hval, hlst,
      hlval]
  refine ⟨hm.sample, ?_, ?_, ?_⟩
  · rw [hforce]
    exact hm.force
  · rw [hpipe, hunder]
    exact hm.underway
  · rw [hpipe]
    exact hm.done

/-- A sample more. -/
theorem Marked.next (hm : Marked s l v m h d) (hc : Counts s h (l.length - m - 1))
    (henc : Encodes s l v q d₀) (hpaced : Paced s l) (hend : Ending s) (hce : i.iCe = true)
    (hrun : dwReset c s = false) :
    Marked (Wbscopc.next c s i) (l ++ [i.iData]) (v ++ emits s i) m h d := by
  have hlen : m < l.length := (List.getElem?_eq_some_iff.mp hm.sample).1
  have hlen' : (l ++ [i.iData]).length = l.length + 1 := List.length_append
  have htake : ∀ k ≤ l.length, (l ++ [i.iData]).take k = l.take k :=
    fun k hk => List.take_append_of_le_length hk
  have hpipe' : (Wbscopc.next c s i).drStopPipe.getLsbD 2 = s.drStopPipe.getLsbD 1 := by
    rw [stopPipe_next hce hrun, shift_succ _ _ (by decide)]
  refine ⟨?_, fun heq => ?_, fun _ hgo' => ?_, fun hdone => ?_⟩
  · rw [List.getElem?_append_left hlen]
    exact hm.sample
  · omega
  · -- the word stays
    have hgo : s.drStopPipe.getLsbD 2 = false := Bool.eq_false_iff.mpr fun hp => by
      rw [hpipe'] at hgo'
      have := (hc.pipe 2 (by decide)).mp hp
      rw [(hc.pipe 1 (by decide)).mpr (by omega)] at hgo'
      exact absurd hgo' (by decide)
    have hwords := recorded_append hce hgo v
    have hunder := underway_next hpaced hce hrun ((v ++ emits s i).map toWord)
    rw [htake m (by omega)]
    by_cases hfirst : l.length = m + 1
    · -- it comes on this clock
      have hdata : toData c s = true := by
        rw [toData, hm.force hfirst, Bool.or_true, Bool.true_or]
      rcases hunder with ⟨-, hnew⟩ | ⟨hno, -⟩
      · refine ⟨v.map toWord ++ Wbscopc.underway s, [], ?_, ?_⟩
        · have hqd : d = s.qdData := by
            have hlast := hpaced.last
            rw [List.getLast?_eq_getElem?, hfirst, Nat.add_sub_cancel, hm.sample] at hlast
            exact Option.some_inj.mp hlast
          rw [hnew, hwords, hqd]
        · rw [← henc.words hgo, henc.expands hgo, List.dropLast_eq_take, hfirst,
            Nat.add_sub_cancel]
      · exact absurd (hdata.symm.trans hno) (by decide)
    · obtain ⟨q, q', hq, hexp⟩ := hm.underway (by omega) hgo
      rw [hwords] at hq
      rcases hunder with ⟨-, hnew⟩ | ⟨-, hzero | ⟨n, himm, hgrow⟩⟩
      · exact ⟨q, q' ++ [.data s.qdData], by rw [hnew, hq, List.append_assoc]; rfl, hexp⟩
      · exact ⟨q, q' ++ [.again 0], by rw [hzero, hq, List.append_assoc]; rfl, hexp⟩
      · rw [himm] at hq
        obtain ⟨r, rfl, hr⟩ := concat_count hq
        exact ⟨q, r ++ [.again (n + 1)], by rw [hgrow, hr, List.append_assoc]; rfl, hexp⟩
  · cases hgo : s.drStopPipe.getLsbD 2
    · -- the last word goes to the memory
      rw [hpipe'] at hdone
      have hn : l.length = m + h + 4 := by
        have h1 := (hc.pipe 1 (by decide)).mp hdone
        have h2 : ¬h + 4 ≤ l.length - m - 1 := fun hle => by
          rw [(hc.pipe 2 (by decide)).mpr hle] at hgo
          exact absurd hgo (by decide)
        omega
      have hwords := recorded_append hce hgo v
      have himm : immWord s = .data s.immVal := by
        rw [immWord, hend ((hc.pipe 0 (by decide)).mpr (by omega))]
        rfl
      have hexp := henc.expands hgo
      rw [henc.words hgo, hwords, himm, RunLength.expand_append_one] at hexp
      have hexp' : expand ((v ++ emits s i).map toWord) = l.take (m + h + 2) := by
        have hdrop := congrArg List.dropLast hexp
        rw [extend, List.dropLast_concat] at hdrop
        rw [hdrop, List.dropLast_eq_take, List.dropLast_eq_take, List.take_take, List.length_take]
        congr 1
        omega
      rw [htake m (by omega), htake (m + h + 2) (by omega)]
      refine ⟨?_, hexp'⟩
      obtain ⟨q, q', hq, hexpq⟩ := hm.underway (by omega) hgo
      rw [hwords, himm] at hq
      rcases List.eq_nil_or_concat q' with rfl | ⟨r, w, rfl⟩
      · -- the word is not the last one
        rw [(List.append_inj' hq rfl).1, hexpq] at hexp'
        have := congrArg List.length hexp'
        rw [List.length_take, List.length_take] at this
        omega
      · rw [List.concat_eq_append] at hq
        have hr : (v ++ emits s i).map toWord ++ [.data s.immVal] = (q ++ .data d :: r) ++ [w] := by
          rw [hq, List.append_assoc]
          rfl
        exact ⟨q, r, (List.append_inj' hr rfl).1, hexpq⟩
    · -- nothing more is recorded
      have hn := (hc.pipe 2 (by decide)).mp hgo
      have hemits : emits s i = [] := by
        rw [emits, toRecord, hgo, Bool.not_true, Bool.and_false, Bool.and_false]
        rfl
      rw [hemits, List.append_nil, htake m (by omega), htake (m + h + 2) (by omega)]
      exact hm.done hgo

end Step

/-! ## A capture with its trigger -/

/-- The trigger is seen. -/
def fires (c : WbscopcCfg) (s : ℕ → Wbscopc c.lgmem) (x : ℕ → WbscopcIn) (t : ℕ) : Bool :=
  (x t).iCe && dwTrigger c (s t) (x t)

/-- The trigger is first seen on clock `t₀`, and the control register is not written to. -/
structure Triggers (c : WbscopcCfg) (s : ℕ → Wbscopc c.lgmem) (x : ℕ → WbscopcIn) (t₀ : ℕ) :
    Prop where
  fires : fires c s x t₀ = true
  first : ∀ t < t₀, Wbscopc.fires c s x t = false
  quiet : ∀ t, (x t).writeToControl = false

namespace Captures

variable {s : ℕ → Wbscopc c.lgmem} {x : ℕ → WbscopcIn} {t₀ t : ℕ}

theorem length_taken_succ (x : ℕ → WbscopcIn) (t : ℕ) :
    (taken x (t + 1)).length = (taken x t).length + (x t).iCe.toNat := by
  rw [taken, List.length_append]
  cases (x t).iCe <;> rfl

/-- Up to the trigger. -/
theorem before (hrun : Captures c s x) (htrig : Triggers c s x t₀) (ht : t ≤ t₀) :
    (s t).drTriggered = false ∧ (s t).holdoffCounter = 0 ∧ (s t).brHoldoff = (s 0).brHoldoff := by
  induction t with
  | zero => exact ⟨hrun.start.triggered, hrun.start.counter, rfl⟩
  | succ t ih =>
    obtain ⟨hno, hzero, hhold⟩ := ih (by omega)
    have hfire : ((x t).iCe && dwTrigger c (s t) (x t)) = false := htrig.first t (by omega)
    rw [hrun.step]
    refine ⟨?_, ?_, ?_⟩
    · show (if dwReset c (s t) then false else if (x t).iCe && dwTrigger c (s t) (x t) then true
        else (s t).drTriggered) = _
      rw [hfire, if_neg Bool.false_ne_true, hno, ite_self]
    · show (if dwReset c (s t) then 0 else if (x t).iCe && (s t).drTriggered && !(s t).drStopped
        then _ else (s t).holdoffCounter) = _
      rw [hno, Bool.and_false, Bool.false_and, if_neg Bool.false_ne_true, hzero, ite_self]
    · show (if (x t).writeToControl then _ else (s t).brHoldoff) = _
      rw [htrig.quiet, if_neg Bool.false_ne_true, hhold]

/-- The number of samples after that of the trigger. -/
def after (x : ℕ → WbscopcIn) (t₀ t : ℕ) : ℕ := (taken x t).length - (taken x (t₀ + 1)).length

theorem counts (hrun : Captures c s x) (htrig : Triggers c s x t₀) (ht : t₀ < t) :
    Counts (s t) (s 0).brHoldoff.toNat (after x t₀ t) ∧
      (taken x (t₀ + 1)).length ≤ (taken x t).length := by
  induction t, ht using Nat.le_induction with
  | base =>
    refine ⟨?_, Nat.le_refl _⟩
    obtain ⟨hno, hzero, hhold⟩ := hrun.before htrig (Nat.le_refl t₀)
    have hfire : ((x t₀).iCe && dwTrigger c (s t₀) (x t₀)) = true := htrig.fires
    obtain ⟨hce, hdw⟩ := (Bool.and_eq_true _ _).mp hfire
    obtain ⟨htrig', hstop', -⟩ := flags_next hce (hrun.not_reset t₀)
    have hpipe := (hrun.stopping t₀).none hno
    have hquiet := htrig.quiet t₀
    rw [after, Nat.sub_self, hrun.step]
    refine ⟨?_, ?_, ?_, fun _ => ?_, fun k hk => ?_⟩
    · show (if (x t₀).writeToControl then _ else (s t₀).brHoldoff).toNat = _
      rw [hquiet, if_neg Bool.false_ne_true, hhold]
    · rw [htrig', hdw, Bool.true_or]
    · rw [hstop' hno]
      exact iff_of_false Bool.false_ne_true (by omega)
    · show (if dwReset c (s t₀) then 0 else if (x t₀).iCe && (s t₀).drTriggered && _ then _
        else (s t₀).holdoffCounter).toNat = _
      rw [hno, Bool.and_false, Bool.false_and, if_neg Bool.false_ne_true, hzero, ite_self]
      rfl
    · rw [stopPipe_next hce (hrun.not_reset t₀)]
      refine iff_of_false ?_ (by omega)
      rcases k with _ | k
      · rw [shift_zero, Bool.eq_false_iff.mpr fun hs =>
          absurd (hno.symm.trans ((hrun.stopping t₀).triggered hs)) (by decide)]
        exact Bool.false_ne_true
      · rw [shift_succ _ _ (by omega), hpipe k (by omega)]
        exact Bool.false_ne_true
  | succ t ht ih =>
    obtain ⟨hc, hle⟩ := ih
    have hlen := length_taken_succ x t
    refine ⟨?_, by omega⟩
    have hafter : after x t₀ (t + 1) = after x t₀ t + (x t).iCe.toNat := by
      rw [after, after]
      omega
    rw [hrun.step, hafter]
    exact hc.next (hrun.not_reset t) (htrig.quiet t)

/-- The samples, with the one that was there before the first. -/
def held (s : ℕ → Wbscopc c.lgmem) (x : ℕ → WbscopcIn) (t : ℕ) : List (BitVec 31) :=
  (s 0).qdData :: taken x t

theorem marked (hrun : Captures c s x) (hmax : 0 < c.maxStep) (htrig : Triggers c s x t₀)
    (ht : t₀ < t) : Marked (s t) (held s x t) (recorded s x t) ((taken x t₀).length + 1)
      (s 0).brHoldoff.toNat (x t₀).iData := by
  have hfire : ((x t₀).iCe && dwTrigger c (s t₀) (x t₀)) = true := htrig.fires
  obtain ⟨hce, hdw⟩ := (Bool.and_eq_true _ _).mp hfire
  have hlen₀ := length_taken_succ x t₀
  rw [hce, Bool.toNat_true] at hlen₀
  induction t, ht using Nat.le_induction with
  | base =>
    obtain ⟨hno, -, -⟩ := hrun.before htrig (Nat.le_refl t₀)
    obtain ⟨-, -, hforce⟩ := flags_next hce (hrun.not_reset t₀)
    have hheld : (held s x (t₀ + 1)).length = (taken x t₀).length + 2 := by
      rw [held, List.length_cons, hlen₀]
    refine ⟨?_, fun _ => ?_, fun hlt => absurd hlt ?_, fun hp => ?_⟩
    · rw [held, taken, hce, if_pos rfl, List.getElem?_cons_succ, List.getElem?_concat_length]
    · rw [hrun.step]
      exact hforce hdw hno
    · rw [Nat.succ_eq_add_one, hheld]
      exact Nat.lt_irrefl _
    · -- the scope has not stopped
      obtain ⟨hc, -⟩ := hrun.counts htrig (Nat.lt_succ_self t₀)
      have := (hc.pipe 2 (by decide)).mp hp
      rw [after, Nat.sub_self] at this
      omega
  | succ t ht ih =>
    obtain ⟨q, henc⟩ := hrun.encodes hmax t
    obtain ⟨hc, hle⟩ := hrun.counts htrig ht
    have hheld : held s x (t + 1) = held s x t ++ if (x t).iCe then [(x t).iData] else [] := rfl
    rw [hheld, recorded, hrun.step]
    cases hce' : (x t).iCe
    · have hemits : emits (s t) (x t) = [] := by
        rw [emits, hce']
        rfl
      rw [if_neg Bool.false_ne_true, hemits, List.append_nil, List.append_nil]
      exact ih.idle hce' (hrun.not_reset t)
    · rw [if_pos rfl]
      refine ih.next ?_ henc (hrun.paced hmax t) (hrun.ending t) hce' (hrun.not_reset t)
      have hafter : (held s x t).length - ((taken x t₀).length + 1) - 1 = after x t₀ t := by
        rw [held, List.length_cons, after]
        omega
      rw [hafter]
      exact hc

end Captures

end Wbscopc

end ZipStormMX.Scope
