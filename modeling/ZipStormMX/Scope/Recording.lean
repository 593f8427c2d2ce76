/-
  What `wbscopc` records, and that it expands to what was sampled.

  Two words are always under way behind the memory, and the second one may still grow: a count that
  is followed by a count gives way to it.  The crux (`Encodes`): the words recorded, with those under
  way, expand to the samples so far but for the last; and since a word is forced before the count
  overflows (`pace`), one more in the count is one sample more.

  In front of the first sample stand up to three words that do not belong to the capture: a word of
  the old one, a count of nothing, and the sample that was held when the reset ended.  They do no
  harm: at least three words are recorded after the trigger, and the trigger waits for a full memory.
-/
import ZipStormMX.RunLength
import ZipStormMX.Scope.Capture
import ZipStormMX.Scope.Wbscopc

namespace ZipStormMX.Scope

open RunLength (Word expand extend)

/-- A word of the memory: a count if the top bit is set. -/
def toWord (w : BitVec 32) : Word (BitVec 31) :=
  if w.msb then .again (w.extractLsb' 0 31).toNat else .data (w.extractLsb' 0 31)

/-- A word as the encoder holds it. -/
def encoded (adr : Bool) (val : BitVec 31) : Word (BitVec 31) :=
  if adr then .again val.toNat else .data val

theorem toWord_append (adr : Bool) (val : BitVec 31) :
    toWord (BitVec.ofBool adr ++ val) = encoded adr val := by
  have hval : (BitVec.ofBool adr ++ val).extractLsb' 0 31 = val := by
    apply BitVec.eq_of_getLsbD_eq
    intro k hk
    rw [BitVec.getLsbD_extractLsb', BitVec.getLsbD_append]
    simp [hk]
  have hmsb : (BitVec.ofBool adr ++ val).msb = adr := by
    rw [BitVec.msb_append]
    cases adr <;> rfl
  rw [toWord, hval, hmsb, encoded]

namespace Wbscopc

variable {c : WbscopcCfg}

/-! ## The encoder -/

section Encoder

variable (s : Wbscopc c.lgmem) (i : WbscopcIn)

def immWord : Word (BitVec 31) := encoded s.immAdr s.immVal

def lstWord : Word (BitVec 31) := encoded s.lstAdr s.lstVal

/-- The words that are still to be recorded. -/
def underway : List (Word (BitVec 31)) :=
  if s.lstAdr && s.immAdr then [immWord s] else [lstWord s, immWord s]

/-- The word that goes to `r_data` on this clock. -/
def emits : List (BitVec 32) :=
  if i.iCe && toRecord c s then [BitVec.ofBool s.lstAdr ++ s.lstVal] else []

/-- The registers in front of the encoder, after the samples `l`. -/
structure Paced (l : List (BitVec 31)) : Prop where
  last : l.getLast? = some s.qdData
  fresh : s.newData = false → l.dropLast.getLast? = some s.qdData
  pace : s.drForceWrite = false → s.ckAddr ≤ c.maxStep ∧
    (s.ckAddr = c.maxStep → s.drRunTimeout = true ∧ s.drForceInhibit = false)
  count : s.drForceWrite = false →
    s.ckAddr.toNat = if s.immAdr then s.immVal.toNat + 1 else 0

/-- The words `v` have been recorded of the samples `l`, and with those under way there are the words
`q`, until the recorder stops.  The sample `d` was held when the reset ended. -/
structure Encodes (l : List (BitVec 31)) (v : List (BitVec 32)) (q : List (Word (BitVec 31)))
    (d : BitVec 31) : Prop where
  words : s.drStopPipe.getLsbD 2 = false → q = v.map toWord ++ underway s
  recorded : v.map toWord <+: q
  expands : s.drStopPipe.getLsbD 2 = false → expand q = l.dropLast
  prefix_samples : expand q <+: l
  first : q = [.again 0] ∧ (s.drStopPipe.getLsbD 2 = false → s.drForceWrite = true ∧ l = [d]) ∨
    ∃ q', q = .again 0 :: .data d :: q'

/-- The stop goes down its pipe, and stays there. -/
structure Stopping : Prop where
  triggered : s.drStopped = true → s.drTriggered = true
  enters : s.drStopPipe.getLsbD 0 = true → s.drStopped = true
  moves : ∀ k < 4, s.drStopPipe.getLsbD (k + 1) = true → s.drStopPipe.getLsbD k = true

end Encoder

/-- The stop flag enters its pipe from the right. -/
theorem shift_zero (p : BitVec 5) (b : Bool) :
    (p.extractLsb' 0 4 ++ BitVec.ofBool b).getLsbD 0 = b := by
  rw [BitVec.getLsbD_append, if_pos Nat.zero_lt_one, BitVec.getLsbD_ofBool]
  simp

theorem shift_succ (p : BitVec 5) (b : Bool) {k : ℕ} (hk : k < 4) :
    (p.extractLsb' 0 4 ++ BitVec.ofBool b).getLsbD (k + 1) = p.getLsbD k := by
  rw [BitVec.getLsbD_append, if_neg (by omega), Nat.add_sub_cancel, BitVec.getLsbD_extractLsb',
    Nat.zero_add, decide_eq_true hk, Bool.true_and]

section EncoderStep

variable {s : Wbscopc c.lgmem} {i : WbscopcIn}

/-- No data is forced only if the count has not come to `MAX_STEP`. -/
theorem not_forced (hce : i.iCe = true) (hrun : dwReset c s = false)
    (hforce : (next c s i).drForceWrite = false) :
    (s.drRunTimeout && !s.drForceWrite && !s.drForceInhibit) = false := by
  change (if dwReset c s then true else if i.iCe then
    if s.drRunTimeout && !s.drForceWrite && !s.drForceInhibit then true else _ else _) = false at hforce
  rw [hrun, if_neg Bool.false_ne_true, hce, if_pos rfl] at hforce
  by_contra htimeout
  rw [if_pos (Bool.eq_true_of_not_eq_false htimeout)] at hforce
  exact absurd hforce (by decide)

/-- A count grows up to `MAX_STEP`, and no further. -/
theorem ckAddr_next (hmax : 0 < c.maxStep) (hce : i.iCe = true) (hrun : dwReset c s = false)
    (hpace : s.drForceWrite = false → s.ckAddr ≤ c.maxStep ∧
      (s.ckAddr = c.maxStep → s.drRunTimeout = true ∧ s.drForceInhibit = false))
    (hforce : (next c s i).drForceWrite = false) :
    ((next c s i).ckAddr ≤ c.maxStep ∧ ((next c s i).ckAddr = c.maxStep →
      (next c s i).drRunTimeout = true ∧ (next c s i).drForceInhibit = false)) ∧
    (toData c s = false → (next c s i).ckAddr.toNat = s.ckAddr.toNat + 1) := by
  have htimeout := not_forced hce hrun hforce
  have hck : (next c s i).ckAddr = if toData c s then 0 else s.ckAddr + 1 := by
    show (if dwReset c s then 0 else if i.iCe then _ else _) = _
    rw [hrun, if_neg Bool.false_ne_true, hce, if_pos rfl]
  have hrun' : (next c s i).drRunTimeout = decide (c.maxStep - 1 ≤ s.ckAddr) := by
    show (if dwReset c s then true else if i.iCe then _ else _) = _
    rw [hrun, if_neg Bool.false_ne_true, hce, if_pos rfl]
  have hinhibit : (next c s i).drForceInhibit = s.drForceWrite := by
    show (if dwReset c s then false else if i.iCe then _ else _) = _
    rw [hrun, if_neg Bool.false_ne_true, hce, if_pos rfl]
  rw [hck, hrun', hinhibit]
  cases hdata : toData c s
  · -- the count goes on
    rw [if_neg Bool.false_ne_true, decide_eq_true_eq]
    rw [toData, Bool.or_eq_false_iff, Bool.or_eq_false_iff] at hdata
    obtain ⟨⟨-, hnoforce⟩, -⟩ := hdata
    obtain ⟨hle, hfull⟩ := hpace hnoforce
    have hlt : s.ckAddr ≠ c.maxStep := by
      intro heq
      obtain ⟨hto, hin⟩ := hfull heq
      rw [hto, hnoforce, hin] at htimeout
      exact absurd htimeout (by decide)
    refine ⟨⟨by bv_omega, fun heq => ⟨by bv_omega, hnoforce⟩⟩, fun _ => by bv_omega⟩
  · -- data starts it again
    rw [if_pos rfl]
    exact ⟨⟨by bv_omega, fun hzero => absurd hzero (by bv_omega)⟩,
      fun hno => absurd hno (by decide)⟩

/-- The registers of the encoder on a clock with a sample. -/
theorem encoder_next (hce : i.iCe = true) (hrun : dwReset c s = false) :
    (next c s i).qdData = i.iData ∧ (next c s i).newData = (i.iData != s.qdData) ∧
    (next c s i).immAdr = (!toData c s) ∧
    (next c s i).immVal = (if toData c s then s.qdData else s.ckAddr) ∧
    (next c s i).lstAdr = s.immAdr ∧ (next c s i).lstVal = s.immVal := by
  refine ⟨?_, ?_, ?_, ?_, ?_, ?_⟩
  · show (if i.iCe then _ else _) = _
    rw [hce, if_pos rfl]
  all_goals
    show (if dwReset c s then _ else if i.iCe then _ else _) = _
    rw [hrun, if_neg Bool.false_ne_true, hce, if_pos rfl]

/-- A clock without a sample leaves the encoder as it is. -/
theorem encoder_idle (hce : i.iCe = false) (hrun : dwReset c s = false) :
    (next c s i).qdData = s.qdData ∧ (next c s i).newData = s.newData ∧
    (next c s i).immAdr = s.immAdr ∧ (next c s i).immVal = s.immVal ∧
    (next c s i).lstAdr = s.lstAdr ∧ (next c s i).lstVal = s.lstVal ∧
    (next c s i).ckAddr = s.ckAddr ∧ (next c s i).drForceWrite = s.drForceWrite ∧
    (next c s i).drForceInhibit = s.drForceInhibit ∧
    (next c s i).drRunTimeout = s.drRunTimeout ∧ (next c s i).drStopPipe = s.drStopPipe := by
  refine ⟨?_, ?_, ?_, ?_, ?_, ?_, ?_, ?_, ?_, ?_, ?_⟩
  · show (if i.iCe then _ else _) = _
    rw [hce, if_neg Bool.false_ne_true]
  all_goals
    show (if dwReset c s then _ else if i.iCe then _ else _) = _
    rw [hrun, if_neg Bool.false_ne_true, hce, if_neg Bool.false_ne_true]

theorem Paced.next {l : List (BitVec 31)} (h : Paced s l) (hmax : 0 < c.maxStep)
    (hrun : dwReset c s = false) :
    Paced (Wbscopc.next c s i) (l ++ if i.iCe then [i.iData] else []) := by
  cases hce : i.iCe
  · obtain ⟨hqd, hnew, himm, hval, -, -, hck, hforce, hin, hto, -⟩ := encoder_idle hce hrun
    rw [if_neg Bool.false_ne_true, List.append_nil]
    refine ⟨by rw [hqd]; exact h.last, ?_, ?_, ?_⟩
    · rw [hqd, hnew]
      exact h.fresh
    · rw [hforce, hck, hto, hin]
      exact h.pace
    · rw [hforce, hck, himm, hval]
      exact h.count
  · obtain ⟨hqd, hnew, himm, hval, -, -⟩ := encoder_next hce hrun
    rw [if_pos rfl]
    have hck := fun hforce => ckAddr_next (i := i) hmax hce hrun h.pace hforce
    refine ⟨by rw [hqd, List.getLast?_concat], fun hsame => ?_, fun hforce => (hck hforce).1,
      fun hforce => ?_⟩
    · rw [hnew, bne_eq_false_iff_eq] at hsame
      rw [List.dropLast_concat, hqd, hsame]
      exact h.last
    · rw [himm, hval]
      cases hdata : toData c s
      · rw [(hck hforce).2 hdata]
        rfl
      · have hzero : (Wbscopc.next c s i).ckAddr = 0 := by
          show (if dwReset c s then 0 else if i.iCe then if toData c s then 0 else _ else _) = _
          rw [hrun, if_neg Bool.false_ne_true, hce, if_pos rfl, hdata, if_pos rfl]
        rw [hzero]
        rfl

theorem Stopping.next (h : Stopping s) (hrun : dwReset c s = false) :
    Stopping (Wbscopc.next c s i) := by
  have htrig : (Wbscopc.next c s i).drTriggered =
      (i.iCe && dwTrigger c s i || s.drTriggered) := by
    show (if dwReset c s then false else if i.iCe && dwTrigger c s i then true else _) = _
    rw [hrun, if_neg Bool.false_ne_true]
    cases i.iCe && dwTrigger c s i <;> rfl
  have hstop : (Wbscopc.next c s i).drStopped = (s.drTriggered &&
      if i.iCe && !s.drStopped then decide (s.brHoldoff ≤ s.holdoffCounter) else s.drStopped) := by
    show (if !s.drTriggered || dwReset c s then false else _) = _
    rw [hrun, Bool.or_false]
    cases s.drTriggered <;> rfl
  have hpipe : (Wbscopc.next c s i).drStopPipe = if i.iCe then
      s.drStopPipe.extractLsb' 0 4 ++ BitVec.ofBool s.drStopped else s.drStopPipe := by
    show (if dwReset c s then 0 else _) = _
    rw [hrun, if_neg Bool.false_ne_true]
  have hkeeps : s.drStopped = true → (Wbscopc.next c s i).drStopped = true := by
    intro hs
    rw [hstop, hs, h.triggered hs, Bool.not_true, Bool.and_false, if_neg Bool.false_ne_true]
    rfl
  refine ⟨fun hs => ?_, fun hp => ?_, fun k hk hp => ?_⟩
  · rw [hstop, Bool.and_eq_true] at hs
    rw [htrig, hs.1, Bool.or_true]
  · apply hkeeps
    rw [hpipe] at hp
    cases hce : i.iCe
    · rw [hce, if_neg Bool.false_ne_true] at hp
      exact h.enters hp
    · rw [hce, if_pos rfl] at hp
      rwa [shift_zero] at hp
  · rw [hpipe] at hp ⊢
    cases hce : i.iCe
    · rw [hce, if_neg Bool.false_ne_true] at hp
      rw [if_neg Bool.false_ne_true]
      exact h.moves k hk hp
    · rw [hce, if_pos rfl, shift_succ _ _ hk] at hp
      rw [if_pos rfl]
      rcases k with _ | k
      · rw [shift_zero]
        exact h.enters hp
      · rw [shift_succ _ _ (by omega)]
        exact h.moves k (by omega) hp

theorem stopPipe_next (hce : i.iCe = true) (hrun : dwReset c s = false) :
    (next c s i).drStopPipe = s.drStopPipe.extractLsb' 0 4 ++ BitVec.ofBool s.drStopped := by
  show (if dwReset c s then 0 else if i.iCe then _ else _) = _
  rw [hrun, if_neg Bool.false_ne_true, hce, if_pos rfl]

/-- While the recorder runs, the words under way are the last one and what goes to the memory. -/
theorem recorded_append (hce : i.iCe = true) (hgo : s.drStopPipe.getLsbD 2 = false)
    (v : List (BitVec 32)) :
    v.map toWord ++ underway s = (v ++ emits s i).map toWord ++ [immWord s] := by
  have hemits : (emits s i).map toWord = if s.lstAdr && s.immAdr then [] else [lstWord s] := by
    rw [emits, hce, Bool.true_and, toRecord, hgo, Bool.not_false, Bool.and_true]
    cases hl : s.lstAdr
    · rw [Bool.not_false, Bool.true_or, if_pos rfl, Bool.false_and, if_neg Bool.false_ne_true,
        List.map_singleton, toWord_append, lstWord, hl]
    · cases hi : s.immAdr
      · rw [Bool.not_false, Bool.or_true, if_pos rfl, Bool.and_false, if_neg Bool.false_ne_true,
          List.map_singleton, toWord_append, lstWord, hl]
      · rfl
  rw [List.map_append, hemits, underway]
  split
  · rw [List.append_nil]
  · rw [List.append_assoc]
    rfl

/-- Behind the next sample one word more is under way, or the last one has grown. -/
theorem underway_next {l : List (BitVec 31)} (hpaced : Paced s l) (hce : i.iCe = true)
    (hrun : dwReset c s = false) (a : List (Word (BitVec 31))) :
    toData c s = true ∧
      a ++ underway (next c s i) = a ++ [immWord s] ++ [.data s.qdData] ∨
    toData c s = false ∧
      (a ++ underway (next c s i) = a ++ [immWord s] ++ [.again 0] ∨
        ∃ n, immWord s = .again n ∧ a ++ underway (next c s i) = a ++ [.again (n + 1)]) := by
  obtain ⟨-, -, himm, hval, hlst, hlval⟩ := encoder_next hce hrun
  rw [underway, immWord, lstWord, himm, hval, hlst, hlval]
  cases hdata : toData c s
  · refine .inr ⟨rfl, ?_⟩
    rw [toData, Bool.or_eq_false_iff, Bool.or_eq_false_iff] at hdata
    have hcount := hpaced.count hdata.1.2
    cases hi : s.immAdr
    · rw [hi, if_neg Bool.false_ne_true] at hcount
      refine .inl ?_
      rw [Bool.false_and, if_neg Bool.false_ne_true, immWord, hi, List.append_assoc]
      simp [encoded, hcount]
    · rw [hi, if_pos rfl] at hcount
      refine .inr ⟨s.immVal.toNat, by rw [immWord, hi]; rfl, ?_⟩
      simp [encoded, hcount]
  · refine .inl ⟨rfl, ?_⟩
    rw [Bool.not_true, Bool.and_false, if_neg Bool.false_ne_true, immWord, List.append_assoc]
    rfl

theorem Encodes.next {l : List (BitVec 31)} {v : List (BitVec 32)} {q : List (Word (BitVec 31))}
    {d : BitVec 31} (h : Encodes s l v q d) (hpaced : Paced s l) (hstop : Stopping s)
    (hrun : dwReset c s = false) :
    ∃ q', Encodes (Wbscopc.next c s i) (l ++ if i.iCe then [i.iData] else []) (v ++ emits s i)
      q' d := by
  cases hce : i.iCe
  · obtain ⟨-, -, himm, hval, hlst, hlval, -, hforce, -, -, hpipe⟩ := encoder_idle hce hrun
    have hemits : emits s i = [] := by
      rw [emits, hce]
      rfl
    have hunder : underway (Wbscopc.next c s i) = underway s := by
      rw [underway, underway, immWord, immWord, lstWord, lstWord, himm, hval, hlst, hlval]
    rw [if_neg Bool.false_ne_true, List.append_nil, hemits, List.append_nil]
    refine ⟨q, ?_, h.recorded, ?_, h.prefix_samples, ?_⟩
    · rw [hpipe, hunder]
      exact h.words
    · rw [hpipe]
      exact h.expands
    · rw [hpipe, hforce]
      exact h.first
  · rw [if_pos rfl]
    cases hgo : s.drStopPipe.getLsbD 2
    · -- the recorder runs
      have hq := h.words hgo
      rw [recorded_append hce hgo] at hq
      have hexp := h.expands hgo
      have hl : l.dropLast ++ [s.qdData] = l := by
        obtain ⟨l', hl'⟩ := List.getLast?_eq_some_iff.mp hpaced.last
        rw [hl', List.dropLast_concat]
      have hfresh : toData c s = false → l.dropLast.getLast? = some s.qdData := by
        intro hdata
        rw [toData, Bool.or_eq_false_iff, Bool.or_eq_false_iff] at hdata
        exact hpaced.fresh hdata.1.1
      have hforce : toData c s = false → s.drForceWrite = false := by
        intro hdata
        rw [toData, Bool.or_eq_false_iff, Bool.or_eq_false_iff] at hdata
        exact hdata.1.2
      suffices hnew : expand ((v ++ emits s i).map toWord ++ underway (Wbscopc.next c s i)) = l ∧
          ∃ q', (v ++ emits s i).map toWord ++ underway (Wbscopc.next c s i) =
            .again 0 :: .data d :: q' by
        refine ⟨_, fun _ => rfl, List.prefix_append _ _, fun _ => ?_, ?_, .inr hnew.2⟩
        · rw [hnew.1, List.dropLast_concat]
        · rw [hnew.1]
          exact List.prefix_append _ _
      have hunder := underway_next hpaced hce hrun ((v ++ emits s i).map toWord)
      rw [← hq] at hunder
      rcases hunder with ⟨-, hdata⟩ | ⟨hno, hzero | ⟨n, himm, hgrow⟩⟩
      · -- data
        rw [hdata, RunLength.expand_append_one, hexp]
        refine ⟨hl, ?_⟩
        rcases h.first with ⟨hone, hd⟩ | ⟨q', hq'⟩
        · have hlast := hpaced.last
          rw [(hd hgo).2, List.getLast?_singleton, Option.some_inj] at hlast
          exact ⟨[], by rw [hone, hlast]; rfl⟩
        · exact ⟨q' ++ [.data s.qdData], by rw [hq']; rfl⟩
      · -- a count behind data
        rw [hzero, RunLength.expand_append_one, hexp, RunLength.extend_again_zero (hfresh hno)]
        refine ⟨hl, ?_⟩
        rcases h.first with ⟨-, hd⟩ | ⟨q', hq'⟩
        · exact absurd ((hd hgo).1.symm.trans (hforce hno)) (by decide)
        · exact ⟨q' ++ [.again 0], by rw [hq']; rfl⟩
      · -- a count that grows
        rw [himm] at hq
        rw [hq, RunLength.expand_append_one] at hexp
        rw [hgrow, RunLength.expand_append_one,
          RunLength.extend_again_succ n (by rw [hexp]; exact hfresh hno), hexp]
        refine ⟨hl, ?_⟩
        rcases h.first with ⟨-, hd⟩ | ⟨q', hq'⟩
        · exact absurd ((hd hgo).1.symm.trans (hforce hno)) (by decide)
        · rw [hq'] at hq
          rcases List.eq_nil_or_concat q' with rfl | ⟨r, w, rfl⟩
          · have := congrArg List.getLast? hq
            rw [List.getLast?_concat] at this
            cases this
          · rw [List.concat_eq_append] at hq
            have hr : (.again 0 :: .data d :: r) ++ [w] = _ := hq
            have hinit := (List.append_inj' hr rfl).1
            exact ⟨r ++ [.again (n + 1)], by rw [← hinit]; rfl⟩
    · -- it has stopped
      have hpipe' : (Wbscopc.next c s i).drStopPipe.getLsbD 2 = true := by
        rw [stopPipe_next hce hrun, shift_succ _ _ (by decide)]
        exact hstop.moves 1 (by decide) hgo
      have hemits : emits s i = [] := by
        rw [emits, toRecord, hgo, Bool.not_true, Bool.and_false, Bool.and_false]
        rfl
      rw [hemits, List.append_nil]
      refine ⟨q, fun hno => ?_, h.recorded, fun hno => ?_,
        h.prefix_samples.trans (List.prefix_append _ _), ?_⟩
      · rw [hpipe'] at hno
        exact absurd hno (by decide)
      · rw [hpipe'] at hno
        exact absurd hno (by decide)
      · rcases h.first with ⟨hone, -⟩ | htwo
        · refine .inl ⟨hone, fun hno => ?_⟩
          rw [hpipe'] at hno
          exact absurd hno (by decide)
        · exact .inr htwo

end EncoderStep

/-! ## The memory -/

section Memory

/-- How many of the words `w` are in the memory; the last may still be on its way. -/
def written (s : Wbscopc c.lgmem) (w : List (BitVec 32)) : ℕ := w.length - s.recordCe.toNat

/-- The memory holds the last of the words `w`. -/
structure Holds (s : Wbscopc c.lgmem) (w : List (BitVec 32)) : Prop where
  pending : s.recordCe = true → w.getLast? = some s.rData
  waddr : s.waddr = BitVec.ofNat c.lgmem (written s w)
  primed : s.drPrimed = true ↔ 2 ^ c.lgmem ≤ written s w
  mem : ∀ k < written s w, written s w ≤ k + 2 ^ c.lgmem →
    w[k]? = some (s.mem (BitVec.ofNat c.lgmem k))

variable {s : Wbscopc c.lgmem} {i : WbscopcIn} {w : List (BitVec 32)}

theorem written_next (s : Wbscopc c.lgmem) (i : WbscopcIn) (w : List (BitVec 32)) :
    written (next c s i) (w ++ emits s i) = w.length := by
  have hce : (next c s i).recordCe = (i.iCe && toRecord c s) := rfl
  rw [written, hce, emits, List.length_append]
  cases i.iCe && toRecord c s
  · rfl
  · exact Nat.add_sub_cancel _ 1

/-- After a reset there is at most a word of the old capture on its way. -/
theorem AfterReset.holds (h : AfterReset c s) :
    Holds s (if s.recordCe then [s.rData] else []) := by
  have hzero : written s (if s.recordCe then [s.rData] else []) = 0 := by
    rw [written]
    cases s.recordCe <;> rfl
  refine ⟨fun hce => ?_, ?_, ?_, fun k hk => ?_⟩
  · rw [hce]
    rfl
  · rw [hzero]
    exact h.waddr
  · rw [hzero, h.primed]
    have := Nat.two_pow_pos c.lgmem
    constructor
    · exact fun hno => absurd hno Bool.false_ne_true
    · intro hle
      omega
  · rw [hzero] at hk
    exact absurd hk (Nat.not_lt_zero k)

theorem Holds.next (h : Holds s w) (hrun : dwReset c s = false) :
    Holds (Wbscopc.next c s i) (w ++ emits s i) := by
  have hpos := Nat.two_pow_pos c.lgmem
  have hwaddr : (Wbscopc.next c s i).waddr = if s.recordCe then s.waddr + 1 else s.waddr := by
    show (if dwReset c s then 0 else _) = _
    rw [hrun, if_neg Bool.false_ne_true]
  have hprimed : (Wbscopc.next c s i).drPrimed =
      if s.recordCe then s.drPrimed || s.waddr == BitVec.allOnes c.lgmem else s.drPrimed := by
    show (if dwReset c s then false else _) = _
    rw [hrun, if_neg Bool.false_ne_true]
  have hmem : (Wbscopc.next c s i).mem =
      if s.recordCe then fun a => if a = s.waddr then s.rData else s.mem a else s.mem := rfl
  have hpending : (Wbscopc.next c s i).recordCe = true →
      (w ++ emits s i).getLast? = some (Wbscopc.next c s i).rData := by
    intro hce
    have hce' : (i.iCe && toRecord c s) = true := hce
    have hword : (!s.lstAdr || !s.immAdr) = true := by
      rw [toRecord, Bool.and_eq_true, Bool.and_eq_true] at hce'
      exact hce'.2.1
    rw [emits, if_pos hce', List.getLast?_concat]
    exact congrArg some (if_pos hword).symm
  have hold : ∀ k < w.length, (w ++ emits s i)[k]? = w[k]? :=
    fun k hk => List.getElem?_append_left hk
  obtain ⟨hlast, haddr, hfull, hheld⟩ := h
  cases hce : s.recordCe
  · -- nothing is written
    have hlen : written s w = w.length := by
      rw [written, hce]
      rfl
    rw [hce, if_neg Bool.false_ne_true] at hwaddr hprimed hmem
    rw [hlen] at haddr hfull hheld
    refine ⟨hpending, ?_, ?_, fun k hk hle => ?_⟩
    · rw [written_next, hwaddr, haddr]
    · rw [written_next, hprimed, hfull]
    · rw [written_next] at hk hle
      rw [hold k hk, hmem, hheld k hk hle]
  · -- the last word is
    obtain ⟨w₀, rfl⟩ := List.getLast?_eq_some_iff.mp (hlast hce)
    have hlen : written s (w₀ ++ [s.rData]) = w₀.length := by
      rw [written, hce, List.length_append]
      exact Nat.add_sub_cancel _ 1
    have hlen' : (w₀ ++ [s.rData]).length = w₀.length + 1 := List.length_append
    rw [hce, if_pos rfl] at hwaddr hprimed hmem
    rw [hlen] at haddr hfull hheld
    refine ⟨hpending, ?_, ?_, fun k hk hle => ?_⟩
    · rw [written_next, hwaddr, haddr, hlen', ofNat_succ]
    · rw [written_next, hprimed, hlen']
      cases hp : s.drPrimed
      · have hlt : w₀.length < 2 ^ c.lgmem := by
          by_contra hge
          rw [hfull.mpr (by omega)] at hp
          exact absurd hp (by decide)
        rw [Bool.false_or, beq_iff_eq, haddr]
        exact ofNat_eq_allOnes hlt
      · have := hfull.mp hp
        rw [Bool.true_or]
        exact iff_of_true rfl (by omega)
    · rw [written_next, hlen'] at hk hle
      rw [hold k (by omega), hmem]
      by_cases hk' : k = w₀.length
      · rw [hk', List.getElem?_concat_length, haddr]
        exact congrArg some (if_pos rfl).symm
      · rw [hheld k (by omega) (by omega), haddr]
        exact congrArg some (if_neg (ofNat_ne_of_lt (by omega) (by omega))).symm

end Memory

/-! ## The last words of a capture -/

section Closing

/-- How far the recorder has come since the trigger: the word that the trigger forces, that word under
way, that word on its way to the memory, and from then on three words more than fill the memory. -/
inductive Closing (s : Wbscopc c.lgmem) (w : ℕ) : Prop where
  | waits (h : s.drTriggered = false)
  | forced (hforce : s.drForceWrite = true) (hgo : s.drStopped = false) (hw : 2 ^ c.lgmem ≤ w)
  | imm (hdata : s.immAdr = false) (hgo : s.drStopPipe.getLsbD 0 = false) (hw : 2 ^ c.lgmem ≤ w)
  | lst (hdata : s.lstAdr = false) (hgo : s.drStopPipe.getLsbD 1 = false)
      (hw : 2 ^ c.lgmem + 1 ≤ w)
  | done (hw : 2 ^ c.lgmem + 2 ≤ w)
      (hlast : s.drStopPipe.getLsbD 2 = true → 2 ^ c.lgmem + 3 ≤ w)

/-- Once the scope stops it sends data. -/
def Ending (s : Wbscopc c.lgmem) : Prop := s.drStopPipe.getLsbD 0 = true → s.immAdr = false

variable {s : Wbscopc c.lgmem} {i : WbscopcIn} {w : List (BitVec 32)}

theorem Ending.next (h : Ending s) (hrun : dwReset c s = false) : Ending (Wbscopc.next c s i) := by
  intro hp
  cases hce : i.iCe
  · obtain ⟨-, -, himm, -, -, -, -, -, -, -, hpipe⟩ := encoder_idle hce hrun
    rw [hpipe] at hp
    rw [himm]
    exact h hp
  · rw [stopPipe_next hce hrun, shift_zero] at hp
    rw [(encoder_next hce hrun).2.2.1, toData, hp, Bool.or_true]
    rfl

/-- A word is recorded if one of the two under way is data. -/
theorem length_emits (hce : i.iCe = true) (hgo : s.drStopPipe.getLsbD 2 = false)
    (hdata : s.lstAdr = false ∨ s.immAdr = false) : (emits s i).length = 1 := by
  have hrec : toRecord c s = true := by
    rw [toRecord, hgo]
    rcases hdata with hl | hi
    · rw [hl]
      rfl
    · rw [hi, Bool.not_false, Bool.or_true]
      rfl
  rw [emits, hce, hrec]
  rfl

/-- With a sample: whether the trigger has been seen, and whether the scope stops. -/
theorem flags_next (hce : i.iCe = true) (hrun : dwReset c s = false) :
    (next c s i).drTriggered = (dwTrigger c s i || s.drTriggered) ∧
    (s.drTriggered = false → (next c s i).drStopped = false) ∧
    (dwTrigger c s i = true → s.drTriggered = false → (next c s i).drForceWrite = true) := by
  refine ⟨?_, fun hno => ?_, fun htrig hno => ?_⟩
  · show (if dwReset c s then false else if i.iCe && dwTrigger c s i then true else _) = _
    rw [hrun, hce, if_neg Bool.false_ne_true, Bool.true_and]
    cases dwTrigger c s i <;> rfl
  · show (if !s.drTriggered || dwReset c s then false else _) = _
    rw [hno]
    rfl
  · show (if dwReset c s then true else if i.iCe then
      if s.drRunTimeout && !s.drForceWrite && !s.drForceInhibit then true
      else dwTrigger c s i && !s.drTriggered || !s.drPrimed else _) = _
    rw [hrun, hce, if_neg Bool.false_ne_true, if_pos rfl, htrig, hno]
    split <;> rfl

theorem Closing.next (h : Closing s w.length) (hholds : Holds s w) (hstop : Stopping s)
    (hend : Ending s) (hrun : dwReset c s = false) :
    Closing (Wbscopc.next c s i) (w ++ emits s i).length := by
  have hmore : w.length ≤ (w ++ emits s i).length := by
    rw [List.length_append]
    exact Nat.le_add_right _ _
  cases hce : i.iCe
  · obtain ⟨-, -, himm, -, hlst, -, -, hforce, -, -, hpipe⟩ := encoder_idle hce hrun
    have htrig : (Wbscopc.next c s i).drTriggered = s.drTriggered := by
      show (if dwReset c s then false else if i.iCe && dwTrigger c s i then true else _) = _
      rw [hrun, hce]
      rfl
    have hstopped : s.drStopped = false → (Wbscopc.next c s i).drStopped = false := by
      intro hgo
      show (if !s.drTriggered || dwReset c s then false else if i.iCe && !s.drStopped then _
        else s.drStopped) = _
      rw [hce, Bool.false_and, if_neg Bool.false_ne_true, hgo, ite_self]
    cases h with
    | waits h => exact .waits (htrig.trans h)
    | forced hf hgo hw => exact .forced (hforce.trans hf) (hstopped hgo) (hw.trans hmore)
    | imm hd hgo hw => exact .imm (himm.trans hd) (by rw [hpipe]; exact hgo) (hw.trans hmore)
    | lst hd hgo hw => exact .lst (hlst.trans hd) (by rw [hpipe]; exact hgo) (hw.trans hmore)
    | done hw hlast =>
      exact .done (hw.trans hmore) fun hp => (hlast (by rw [← hpipe]; exact hp)).trans hmore
  · obtain ⟨htrig, hstopped, hforced⟩ := flags_next hce hrun
    obtain ⟨-, -, himm, -, hlst, -⟩ := encoder_next hce hrun
    have hpipe := stopPipe_next hce hrun
    -- further down the pipe the stop has not come either
    have hlate : ∀ k < 4, s.drStopPipe.getLsbD k = false → s.drStopPipe.getLsbD (k + 1) = false :=
      fun k hk hno => Bool.eq_false_iff.mpr fun hp =>
        absurd (hno.symm.trans (hstop.moves k hk hp)) (by decide)
    cases h with
    | waits h =>
      cases hfire : dwTrigger c s i
      · exact .waits (by rw [htrig, hfire, h]; rfl)
      · -- the memory is full
        have hfull : 2 ^ c.lgmem ≤ written s w := by
          rw [dwTrigger, Bool.and_eq_true] at hfire
          exact hholds.primed.mp hfire.1
        exact .forced (hforced hfire h) (hstopped h) (by rw [written] at hfull; omega)
    | forced hf hgo hw =>
      refine .imm ?_ (by rw [hpipe, shift_zero, hgo]) (hw.trans hmore)
      rw [himm, toData, hf, Bool.or_true, Bool.true_or]
      rfl
    | imm hd hgo hw =>
      have hlow := hlate 0 (by decide) hgo
      refine .lst (hlst.trans hd) (by rw [hpipe, shift_succ _ _ (by decide), hgo]) ?_
      rw [List.length_append, length_emits hce (hlate 1 (by decide) hlow) (.inr hd)]
      omega
    | lst hd hgo hw =>
      have hlow := hlate 1 (by decide) hgo
      refine .done ?_ fun hp => ?_
      · rw [List.length_append, length_emits hce hlow (.inl hd)]
        omega
      · rw [hpipe, shift_succ _ _ (by decide), hgo] at hp
        exact absurd hp (by decide)
    | done hw hlast =>
      refine .done (hw.trans hmore) fun hp => ?_
      rw [hpipe, shift_succ _ _ (by decide)] at hp
      cases hgo : s.drStopPipe.getLsbD 2
      · have hdata := hend (hstop.moves 0 (by decide) hp)
        rw [List.length_append, length_emits hce hgo (.inr hdata)]
        omega
      · exact (hlast hgo).trans hmore

/-- **Three words more than fill the memory.** -/
theorem Closing.full (h : Closing s w.length) (hstop : Stopping s)
    (hfinal : dwFinalStop c s = true) : 2 ^ c.lgmem + 3 ≤ w.length := by
  have hp3 := hstop.moves 3 (by decide) hfinal
  have hp2 := hstop.moves 2 (by decide) hp3
  have hp1 := hstop.moves 1 (by decide) hp2
  have hp0 := hstop.moves 0 (by decide) hp1
  have hs := hstop.enters hp0
  cases h with
  | waits h => exact absurd ((hstop.triggered hs).symm.trans h) (by decide)
  | forced _ hgo => exact absurd (hs.symm.trans hgo) (by decide)
  | imm _ hgo => exact absurd (hp0.symm.trans hgo) (by decide)
  | lst _ hgo => exact absurd (hp1.symm.trans hgo) (by decide)
  | done _ hlast => exact hlast hp2

end Closing

/-! ## A capture -/

/-- A run after a reset, that is not reset again. -/
structure Captures (c : WbscopcCfg) (s : ℕ → Wbscopc c.lgmem) (x : ℕ → WbscopcIn) : Prop where
  step : ∀ t, s (t + 1) = next c (s t) (x t)
  start : AfterReset c (s 0)
  run : (s 0).brRun = true
  asks : ∀ t, (x t).asksReset = false

/-- The samples taken before clock `t`. -/
def taken (x : ℕ → WbscopcIn) : ℕ → List (BitVec 31)
  | 0 => []
  | t + 1 => taken x t ++ if (x t).iCe then [(x t).iData] else []

/-- The words recorded before clock `t`. -/
def recorded (s : ℕ → Wbscopc c.lgmem) (x : ℕ → WbscopcIn) : ℕ → List (BitVec 32)
  | 0 => []
  | t + 1 => recorded s x t ++ emits (s t) (x t)

/-- What the reset has left on its way to the memory. -/
def leftover (s : Wbscopc c.lgmem) : List (BitVec 32) := if s.recordCe then [s.rData] else []

/-- The words of the memory, oldest first. -/
def rawread (c : WbscopcCfg) (s : Wbscopc c.lgmem) : List (BitVec 32) :=
  (List.range (2 ^ c.lgmem)).map fun k => s.mem (BitVec.ofNat c.lgmem k + s.waddr)

namespace Captures

variable {s : ℕ → Wbscopc c.lgmem} {x : ℕ → WbscopcIn}

theorem running (h : Captures c s x) (t : ℕ) : (s t).brRun = true := by
  induction t with
  | zero => exact h.run
  | succ t ih =>
    have hasks := h.asks t
    rw [h.step]
    show (if (x t).iWbStb && !(x t).iWbAddr then
      if (x t).iWbWe then (x t).iWbData.getLsbD 31 else (s t).brRun else _) = true
    rw [WbscopcIn.asksReset, WbscopcIn.writeToControl] at hasks
    rw [ih]
    cases hsel : (x t).iWbStb && !(x t).iWbAddr
    · rfl
    · cases hwe : (x t).iWbWe
      · rfl
      · rw [hsel, hwe, Bool.true_and, Bool.true_and, Bool.not_eq_false'] at hasks
        exact hasks

theorem not_reset (h : Captures c s x) (t : ℕ) : dwReset c (s t) = false := by
  rw [dwReset, h.running t]
  rfl

/-- Nothing is in the pipe when the reset ends. -/
theorem no_stop (h : Captures c s x) (k : ℕ) : (s 0).drStopPipe.getLsbD k = false := by
  rw [h.start.stopPipe]
  exact BitVec.getLsbD_zero

theorem stopping (h : Captures c s x) (t : ℕ) : Stopping (s t) := by
  induction t with
  | zero =>
    refine ⟨fun hs => ?_, fun hp => ?_, fun k _ hp => ?_⟩
    · exact absurd (hs.symm.trans h.start.stopped) (by decide)
    · exact absurd (hp.symm.trans (h.no_stop 0)) (by decide)
    · exact absurd (hp.symm.trans (h.no_stop (k + 1))) (by decide)
  | succ t ih =>
    rw [h.step]
    exact ih.next (h.not_reset t)

theorem ending (h : Captures c s x) (t : ℕ) : Ending (s t) := by
  induction t with
  | zero =>
    intro hp
    exact absurd (hp.symm.trans (h.no_stop 0)) (by decide)
  | succ t ih =>
    rw [h.step]
    exact ih.next (h.not_reset t)

theorem paced (h : Captures c s x) (hmax : 0 < c.maxStep) (t : ℕ) :
    Paced (s t) ((s 0).qdData :: taken x t) := by
  induction t with
  | zero =>
    refine ⟨rfl, fun hno => ?_, fun hno => ?_, fun hno => ?_⟩
    · exact absurd (h.start.fresh.symm.trans hno) (by decide)
    · exact absurd (h.start.force.symm.trans hno) (by decide)
    · exact absurd (h.start.force.symm.trans hno) (by decide)
  | succ t ih =>
    rw [h.step]
    exact ih.next hmax (h.not_reset t)

theorem encodes (h : Captures c s x) (hmax : 0 < c.maxStep) (t : ℕ) :
    ∃ q, Encodes (s t) ((s 0).qdData :: taken x t) (recorded s x t) q (s 0).qdData := by
  induction t with
  | zero =>
    have hunder : underway (s 0) = [.again 0] := by
      rw [underway, h.start.lstAdr, h.start.immAdr, immWord, h.start.immAdr, h.start.immVal]
      rfl
    refine ⟨[.again 0], fun _ => hunder.symm, List.nil_prefix, fun _ => rfl, List.nil_prefix,
      .inl ⟨rfl, fun _ => ⟨h.start.force, rfl⟩⟩⟩
  | succ t ih =>
    obtain ⟨q, hq⟩ := ih
    rw [h.step]
    exact hq.next (h.paced hmax t) (h.stopping t) (h.not_reset t)

theorem holds (h : Captures c s x) (t : ℕ) : Holds (s t) (leftover (s 0) ++ recorded s x t) := by
  induction t with
  | zero =>
    rw [recorded, List.append_nil]
    exact h.start.holds
  | succ t ih =>
    rw [h.step, recorded, ← List.append_assoc]
    exact ih.next (h.not_reset t)

theorem closing (h : Captures c s x) (t : ℕ) :
    Closing (s t) (leftover (s 0) ++ recorded s x t).length := by
  induction t with
  | zero => exact .waits h.start.triggered
  | succ t ih =>
    rw [h.step, recorded, ← List.append_assoc]
    exact ih.next (h.holds t) (h.stopping t) (h.ending t) (h.not_reset t)

/-- The last word comes to the memory before the scope says that it has stopped. -/
theorem settled (h : Captures c s x) (t : ℕ) (hfinal : dwFinalStop c (s t) = true) :
    (s t).recordCe = false := by
  have hsettled : (s t).recordCe = true → (s t).drStopPipe.getLsbD 3 = false := by
    intro hce
    cases t with
    | zero => exact h.no_stop 3
    | succ t =>
      rw [h.step] at hce ⊢
      have hce' : ((x t).iCe && toRecord c (s t)) = true := hce
      rw [Bool.and_eq_true, toRecord, Bool.and_eq_true, Bool.not_eq_true'] at hce'
      rw [stopPipe_next hce'.1 (h.not_reset t), shift_succ _ _ (by decide)]
      exact hce'.2.2
  refine Bool.eq_false_iff.mpr fun hce => ?_
  exact absurd ((hsettled hce).symm.trans ((h.stopping t).moves 3 (by decide) hfinal)) (by decide)

/-- What is read is what was recorded last. -/
theorem rawread_eq (h : Captures c s x) {t : ℕ} (hfinal : dwFinalStop c (s t) = true) :
    ∃ w, leftover (s 0) ++ recorded s x t = w ++ rawread c (s t) := by
  have hheld := h.holds t
  have hfull := (h.closing t).full (h.stopping t) hfinal
  generalize leftover (s 0) ++ recorded s x t = w at hheld hfull
  have hlen : written (s t) w = w.length := by
    rw [written, h.settled t hfinal]
    rfl
  obtain ⟨-, haddr, -, hmem⟩ := hheld
  rw [hlen] at haddr hmem
  refine ⟨w.take (w.length - 2 ^ c.lgmem), ?_⟩
  suffices hdrop : w.drop (w.length - 2 ^ c.lgmem) = rawread c (s t) by
    rw [← hdrop, List.take_append_drop]
  apply List.ext_getElem?
  intro k
  rw [List.getElem?_drop, rawread, List.getElem?_map]
  by_cases hk : k < 2 ^ c.lgmem
  · rw [List.getElem?_range hk, hmem _ (by omega) (by omega), Option.map_some, haddr,
      ← BitVec.ofNat_add, ← ofNat_add_two_pow]
    congr 3
    omega
  · rw [List.getElem?_eq_none (by omega), List.getElem?_eq_none (by rw [List.length_range]; omega)]
    rfl

/-- Up to three words in front of them are not of the capture. -/
theorem recorded_eq (h : Captures c s x) {t : ℕ} (hfinal : dwFinalStop c (s t) = true) :
    ∃ a b v, recorded s x t = a :: b :: (v ++ rawread c (s t)) := by
  obtain ⟨w, hw⟩ := h.rawread_eq hfinal
  have hfull := (h.closing t).full (h.stopping t) hfinal
  have hraw : (rawread c (s t)).length = 2 ^ c.lgmem := by
    rw [rawread, List.length_map, List.length_range]
  have hleft : (leftover (s 0)).length ≤ 1 := by
    rw [leftover]
    split
    · exact Nat.le_refl 1
    · exact Nat.zero_le 1
  rw [hw, List.length_append, hraw] at hfull
  rcases List.append_eq_append_iff.mp hw with ⟨v, hv, hrec⟩ | ⟨a, hwa, -⟩
  · rw [hv, List.length_append] at hfull
    rcases v with _ | ⟨a, _ | ⟨b, v⟩⟩
    · rw [List.length_nil] at hfull
      omega
    · rw [List.length_singleton] at hfull
      omega
    · exact ⟨a, b, v, hrec⟩
  · rw [hwa, List.length_append] at hleft
    omega

/-- The words in the memory stand for the last part of what was recorded, which starts with the sample
that was there before. -/
theorem rawread_suffix (h : Captures c s x) (hmax : 0 < c.maxStep) {t : ℕ}
    (hfinal : dwFinalStop c (s t) = true) :
    ∃ m, expand ((recorded s x t).map toWord) = (s 0).qdData :: m ∧
      expand ((rawread c (s t)).map toWord) <:+ m := by
  obtain ⟨q, hq⟩ := h.encodes hmax t
  obtain ⟨a, b, v, hv⟩ := h.recorded_eq hfinal
  have hrec := hq.recorded
  rw [hv, List.map_cons, List.map_cons, List.map_append] at hrec ⊢
  -- the first two words stand for it
  obtain ⟨ha, hb⟩ : toWord a = .again 0 ∧ toWord b = .data (s 0).qdData := by
    rcases hq.first with ⟨hone, -⟩ | ⟨q', hq'⟩
    · rw [hone] at hrec
      exact absurd hrec.length_le (by simp)
    · rw [hq', List.cons_prefix_cons, List.cons_prefix_cons] at hrec
      exact ⟨hrec.1, hrec.2.1⟩
  rw [ha, hb]
  obtain ⟨m, hm, hsuffix⟩ := RunLength.expand_append [.again 0, .data (s 0).qdData]
    (v.map toWord ++ (rawread c (s t)).map toWord)
  obtain ⟨m', hm', hsuffix'⟩ :=
    RunLength.expand_append (v.map toWord) ((rawread c (s t)).map toWord)
  rw [hm'] at hsuffix
  exact ⟨m, hm, (hsuffix'.trans (List.suffix_append _ _)).trans hsuffix⟩

/-- **The recording expands to what was sampled.**  The words in the memory of a scope that has
stopped stand for consecutive samples taken since the reset. -/
theorem rawread_expand (h : Captures c s x) (hmax : 0 < c.maxStep) {t : ℕ}
    (hfinal : dwFinalStop c (s t) = true) :
    expand ((rawread c (s t)).map toWord) <:+: taken x t := by
  obtain ⟨q, hq⟩ := h.encodes hmax t
  obtain ⟨m, hm, hsuffix⟩ := h.rawread_suffix hmax hfinal
  obtain ⟨q', rfl⟩ := hq.recorded
  have hprefix := (RunLength.expand_prefix _ q').trans hq.prefix_samples
  rw [hm, List.cons_prefix_cons] at hprefix
  exact hsuffix.isInfix.trans hprefix.2.isInfix

end Captures

end Wbscopc

end ZipStormMX.Scope
