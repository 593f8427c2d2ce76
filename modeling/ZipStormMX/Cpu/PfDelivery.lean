/-
  What `pfcache` shows is the word of the memory, at the address that is due.

  The word is right whatever happens (`Lookup`): data, tag and valid bit are read on three clocks, but
  a tag is only written while its line is not marked, and a line is only marked when its data are in
  place.  The address is that of `lastpc` always, and `lastpc` goes on whenever `r_v` and `i_stall_n`
  meet.  It does so even on the clock behind a bus error, when `r_prior_illegal` takes `o_valid` away:
  an instruction is then passed over.  That takes a fill that ends in an error while the CPU, after a
  jump, is being served from another line.

  `Barred` is why an error that has been taken keeps the cache from showing anything else: the failed
  line is neither in the cache nor fetched again, until another failed fill takes its place.
-/
import ZipStormMX.Cpu.FetchChoice
import ZipStormMX.Cpu.PfLines

namespace ZipStormMX.Cpu

namespace Pfcache

variable {AW CW LGLINES : ℕ}

/-- The registers that have an initial value hold it. -/
structure AtPowerUp (s : Pfcache AW CW LGLINES) : Prop where
  rPc : s.rPc = 0
  rLastpc : s.rLastpc = 0
  tagvalipc : s.tagvalipc = 0
  tagvallst : s.tagvallst = 0
  lastpc : s.lastpc = 0
  delay : s.delay = 3
  rPriorIllegal : s.rPriorIllegal = false
  rNewRequest : s.rNewRequest = false
  rVFromPc : s.rVFromPc = false
  rVFromLast : s.rVFromLast = false
  needload : s.needload = false
  lastAddr : s.lastAddr = false
  lastAck : s.lastAck = false
  busAbort : s.busAbort = false
  oWbCyc : s.oWbCyc = false
  oWbStb : s.oWbStb = false
  wraddr : s.wraddr = 0
  oWbAddr : s.oWbAddr = 0
  validMask : ∀ l, s.validMask l = false
  svmask : s.svmask = false
  illegalCache : s.illegalCache = 0
  illegalValid : s.illegalValid = false
  oIllegal : s.oIllegal = false

/-- The choice between the two lookups. -/
def shown (s : Pfcache AW CW LGLINES) : Bool := if s.rvsrc then s.rVFromPc else s.rVFromLast

/-- The line of the word at `a` is in the cache. -/
def Cached (s : Pfcache AW CW LGLINES) (a : BitVec AW) : Prop :=
  s.validMask (indexAt CW a) = true ∧ s.cacheTags (indexAt CW a) = tagAt CW a

/-- The two lookups of the clock before. -/
structure Lookup (mem : BitVec AW → BitVec 32) (s : Pfcache AW CW LGLINES) : Prop where
  pc : oPc s = s.lastpc
  tagged : s.validMask (lineIndex AW CW s.lastpc) = true →
    tagval s = s.cacheTags (lineIndex AW CW s.lastpc)
  word : shown s = true → oInsn s = mem (wordOf s.lastpc)
  cleared : s.rNewRequest = true → shown s = false

section Step

variable {mem : BitVec AW → BitVec 32} {s : Pfcache AW CW LGLINES} {w : Audit AW} {i : FetchIn AW}

theorem Lookup.rV_eq (h : Lookup mem s) : rV s = shown s := by
  unfold rV
  show (shown s && !s.rNewRequest) = shown s
  cases hn : s.rNewRequest
  · simp
  · simp [h.cleared hn]

/-- What is shown next is in the cache. -/
theorem Lookup.hit (h : Lookup mem s) (hLS : LGLINES < CW) (hCW : CW ≤ AW)
    (hv : shown (next s i) = true) :
    i.iReset = false ∧ i.iClearCache = false ∧ Cached s (wordOf (next s i).lastpc) ∧
      (next s i).rvsrc = wAdvance s i ∧ (wAdvance s i = true → s.oIllegal = false) ∧
      (wAdvance s i = false → wVFromLast s = true) := by
  have hsrc : (next s i).rvsrc = (i.iReset || i.iClearCache || wAdvance s i) := rfl
  have hlast : (next s i).lastpc = if wAdvance s i then i.iPc else s.lastpc := rfl
  unfold shown at hv
  rw [hsrc] at hv
  cases hr : i.iReset
  case true => simp [hr, wInvalidateResult] at hv
  cases hcl : i.iClearCache
  case true => simp [hcl, wInvalidateResult] at hv
  rw [hr, hcl, Bool.false_or, Bool.false_or] at hv
  have hin : wInvalidateResult i = false := by
    simp [wInvalidateResult, hr, hcl]
  refine ⟨rfl, rfl, ?_, by rw [hsrc, hr, hcl]; rfl, ?_, ?_⟩
  · rw [hlast]
    cases hadv : wAdvance s i
    · rw [hadv] at hv
      have hlookup : wVFromLast s = true := by
        simpa [hin] using hv
      simp only [wVFromLast, Bool.and_eq_true, beq_iff_eq] at hlookup
      have htag := h.tagged hlookup.2
      rw [hlookup.1, tagOf_eq hCW, lineIndex_eq hCW hLS] at htag
      rw [lineIndex_eq hCW hLS] at hlookup
      exact ⟨hlookup.2, htag.symm⟩
    · rw [hadv] at hv
      have hlookup : wVFromPc s i = true ∧ s.oIllegal = false := by
        simpa [hin] using hv
      have hpc := hlookup.1
      simp only [wVFromPc, Bool.and_eq_true, beq_iff_eq] at hpc
      obtain ⟨⟨hline, htagval⟩, hvalid⟩ := hpc
      rw [lineOf_eq, lineOf_eq] at hline
      have hsame := ((lineAt_eq_iff hCW hLS _ _).1 hline).1
      rw [lineIndex_eq hCW hLS, hsame, ← lineIndex_eq hCW hLS] at hvalid
      have htag := h.tagged hvalid
      rw [htagval, tagOf_eq hCW, lineIndex_eq hCW hLS, ← hsame] at htag
      rw [lineIndex_eq hCW hLS, ← hsame] at hvalid
      exact ⟨hvalid, htag.symm⟩
  · intro hadv
    rw [hadv] at hv
    have hlookup : wVFromPc s i = true ∧ s.oIllegal = false := by
      simpa [hin] using hv
    exact hlookup.2
  · intro hadv
    rw [hadv] at hv
    simpa [hin] using hv

/-- **The lookup.** -/
theorem Lookup.next {mem' : BitVec AW → BitVec 32} (h : Lookup mem s) (hl : Lines mem s w)
    (hLS : LGLINES < CW) (hCW : CW ≤ AW)
    (himage : i.iReset = false → i.iClearCache = false → mem' = mem) :
    Lookup mem' (Pfcache.next s i) where
  pc := by
    show (if wAdvance s i then i.iPc else s.lastpc) = if wAdvance s i then i.iPc else s.lastpc
    rfl
  tagged hv := by
    have hval : tagval (Pfcache.next s i) =
        s.cacheTags (lineIndex AW CW (Pfcache.next s i).lastpc) := by
      show (if wAdvance s i then s.cacheTags (lineIndex AW CW i.iPc)
        else s.cacheTags (lineIndex AW CW s.lastpc)) = s.cacheTags (lineIndex AW CW
          (if wAdvance s i then i.iPc else s.lastpc))
      cases wAdvance s i <;> rfl
    rw [hval, tags_next]
    -- a line that is marked is not being filled
    rintro hcyc hindex
    obtain ⟨-, -, -, hor⟩ := validMask_next hv
    rcases hor with ⟨hmark, -⟩ | hold
    · simp [(hl.idle hmark).1] at hcyc
    · rw [hindex, (hl.filling hcyc).unmarked] at hold
      simp at hold
  word hv := by
    obtain ⟨hr, hcl, hcached, -, -, -⟩ := h.hit hLS hCW hv
    rw [himage hr hcl]
    have hword := hl.valid _ hcached.1 (wordOf (Pfcache.next s i).lastpc) rfl hcached.2.symm
    rw [← hword]
    show (if wAdvance s i then s.cache (i.iPc.extractLsb' 2 CW)
      else s.cache (s.lastpc.extractLsb' 2 CW)) = s.cache (cellAt CW (wordOf
        (if wAdvance s i then i.iPc else s.lastpc)))
    cases wAdvance s i
    · exact congrArg s.cache (cell_eq hCW _)
    · exact congrArg s.cache (cell_eq hCW _)
  cleared hn := by
    have hin : wInvalidateResult i = true := hn
    simp [shown, hin]

/-! ## Failed lines -/

/-- The line whose fetch failed is not in the cache, and what is said of it is said on time. -/
structure Barred (s : Pfcache AW CW LGLINES) : Prop where
  noHit : s.illegalValid = true → ∀ a, lineAt CW LGLINES a = s.illegalCache → ¬Cached s a
  noMark : s.svmask = true → s.illegalValid = true → ∀ a, lineAt CW LGLINES a = s.illegalCache →
    s.saddr = indexAt CW a → s.cacheTags s.saddr ≠ tagAt CW a
  noFill : s.oWbCyc = true → s.illegalValid = true → lineAt CW LGLINES s.oWbAddr ≠ s.illegalCache
  needs : s.needload = true → s.illegalValid = true → illegalHere s = false
  absent : s.needload = true → ¬Cached s (wordOf s.lastpc)
  unshown : s.needload = true → shown s = false
  waited : s.rPriorIllegal = true ∨ s.svmask = true → s.delay ≠ 0
  busy : s.oWbCyc = true → shown s = true → s.delay ≠ 0
  hidden : shown s = true → s.illegalValid = true → illegalHere s = false
  here : s.oIllegal = true → s.rPriorIllegal = false → s.illegalValid = true ∧ illegalHere s = true

theorem needload_next (h : (next s i).needload = true) :
    i.iClearCache = false ∧ s.oWbCyc = false ∧ (wAdvance s i = true → s.oIllegal = true) ∧
      s.delay = 0 ∧ wVFromLast s = false ∧ (s.illegalValid = true → illegalHere s = false) := by
  have hn : nextNeedload s i = true := h
  unfold nextNeedload at hn
  cases hcl : i.iClearCache <;> cases hcyc : s.oWbCyc <;> rw [hcl, hcyc] at hn
  case false.false =>
    rw [if_neg (by decide)] at hn
    split_ifs at hn with hadv
    simp only [Bool.and_eq_true, beq_iff_eq, Bool.or_eq_true, Bool.not_eq_true'] at hn hadv
    refine ⟨rfl, rfl, fun ha => ?_, hn.1.1, hn.1.2, fun hv => ?_⟩
    · by_contra hno
      exact hadv ⟨ha, by simpa using hno⟩
    · exact hn.2.resolve_left (by simp [hv])
  all_goals simp at hn

/-- The wait begins again on every clock of a fill. -/
theorem Barred.delay_next (h : Barred s) (hl : Lookup mem s) (hcyc : s.oWbCyc = true) :
    (next s i).delay ≠ 0 := by
  show nextDelay s i ≠ 0
  unfold nextDelay
  rw [hl.rV_eq, hcyc, if_pos rfl]
  split_ifs with hclear hwaits hill
  · simp
  · simp
  · simp
  · refine h.busy hcyc ?_
    simpa [hill] using hwaits

/-- While a fetch is being prepared, nothing moves. -/
theorem Barred.still_of_needload (h : Barred s) (hn : (next s i).needload = true) :
    wAdvance s i = false := by
  obtain ⟨-, -, hadv, hdelay, -, hill⟩ := needload_next hn
  cases ha : wAdvance s i
  · rfl
  · have hill' := hadv ha
    cases hp : s.rPriorIllegal
    · obtain ⟨hv, hh⟩ := h.here hill' hp
      simp [hill hv] at hh
    · exact absurd hdelay (h.waited (.inl hp))

/-- The failed line, one clock later. -/
theorem illegal_next (h : (next s i).illegalValid = true) :
    i.iReset = false ∧ i.iClearCache = false ∧
      ((s.oWbCyc = true ∧ i.iWbErr = true ∧
          (next s i).illegalCache = lineAt CW LGLINES s.oWbAddr) ∨
        ((s.oWbCyc && i.iWbErr) = false ∧ s.illegalValid = true ∧
          (next s i).illegalCache = s.illegalCache)) := by
  rw [next_illegalValid] at h
  rw [next_illegalCache]
  cases hr : i.iReset <;> cases hcl : i.iClearCache <;> rw [hr, hcl] at h
  case false.false =>
    refine ⟨rfl, rfl, ?_⟩
    cases herr : s.oWbCyc && i.iWbErr
    · rw [herr] at h
      exact .inr ⟨rfl, by simpa using h, by simp⟩
    · simp only [Bool.and_eq_true] at herr
      exact .inl ⟨herr.1, herr.2, by simp [lineAt]⟩
  all_goals simp at h

/-- What is in the cache on the next clock. -/
theorem Lines.cached_next (hl : Lines mem s w) {a : BitVec AW}
    (h : Cached (Pfcache.next s i) a) :
    (s.oWbCyc = true → (indexAt CW a : BitVec LGLINES) ≠ indexAt CW s.oWbAddr) ∧
      (s.svmask = true ∧ indexAt CW a = s.saddr ∧ s.cacheTags s.saddr = tagAt CW a ∨
        Cached s a) := by
  obtain ⟨hv, ht⟩ := h
  obtain ⟨-, -, -, hor⟩ := validMask_next hv
  have hother : s.oWbCyc = true → (indexAt CW a : BitVec LGLINES) ≠ indexAt CW s.oWbAddr := by
    intro hcyc hindex
    rcases hor with ⟨hmark, -⟩ | hold
    · simp [(hl.idle hmark).1] at hcyc
    · rw [hindex, (hl.filling hcyc).unmarked] at hold
      simp at hold
  rw [tags_next hother] at ht
  refine ⟨hother, ?_⟩
  rcases hor with ⟨hmark, hindex⟩ | hold
  · exact .inl ⟨hmark, hindex, by rw [← hindex, ht]⟩
  · exact .inr ⟨hold, ht⟩

/-- What an error that is shown goes back to. -/
theorem oIllegal_next (h : (next s i).oIllegal = true) :
    i.iReset = false ∧ i.iClearCache = false ∧ i.iNewPc = false ∧ s.oIllegal = false ∧
      s.illegalValid = true ∧ illegalHere s = true := by
  have hn : nextIllegal s i = true := h
  unfold nextIllegal at hn
  split_ifs at hn with hclear htook
  simp only [Bool.or_eq_true, not_or, Bool.not_eq_true] at hclear htook
  simp only [Bool.and_eq_true] at hn
  exact ⟨hclear.1.1, hclear.1.2, hclear.2, htook.1, hn.1, hn.2⟩

/-- At a failed line, nothing moves without a jump. -/
theorem Barred.still (h : Barred s) (hk : Lookup mem s) (hnew : i.iNewPc = false)
    (hv : s.illegalValid = true) (hh : illegalHere s = true) : wAdvance s i = false := by
  cases hs : shown s
  · simp [wAdvance, hnew, hk.rV_eq, hs]
  · have hno := h.hidden hs hv
    rw [hh] at hno
    simp at hno

/-- The failed line stays the failed line, until another fill fails. -/
theorem Barred.stays (h : Barred s) (hk : Lookup mem s) (hr : i.iReset = false)
    (hcl : i.iClearCache = false) (hnew : i.iNewPc = false) (herr : (s.oWbCyc && i.iWbErr) = false)
    (hv : s.illegalValid = true) (hh : illegalHere s = true) :
    (next s i).illegalValid = true ∧ illegalHere (next s i) = true := by
  have hstill : wAdvance s i = false := h.still hk hnew hv hh
  have hlast : (next s i).lastpc = s.lastpc := by
    simp [hstill]
  have hcache : (next s i).illegalCache = s.illegalCache := by
    rw [next_illegalCache, hr, hcl, herr]
    rfl
  constructor
  · rw [next_illegalValid, hr, hcl, herr, hv]
    rfl
  · rw [illegalHere, hlast, hcache]
    exact hh

/-- **The failed line stays away.** -/
theorem Barred.next (h : Barred s) (hl : Lines mem s w) (hk : Lookup mem s) (hLS : LGLINES < CW)
    (hCW : CW ≤ AW) (hs : Watch.Served w.toWatch i (out s i.iNewPc) mem) :
    Barred (Pfcache.next s i) where
  noHit hill a ha hc := by
    obtain ⟨-, -, ⟨hcyc, -, hcache⟩ | ⟨-, hold, hcache⟩⟩ := illegal_next hill
    · rw [hcache] at ha
      exact (hl.cached_next hc).1 hcyc ((lineAt_eq_iff hCW hLS _ _).1 ha).1
    · rw [hcache] at ha
      rcases (hl.cached_next hc).2 with ⟨hmark, hindex, htag⟩ | hc'
      · exact h.noMark hmark hold a ha hindex.symm htag
      · exact h.noHit hold a ha hc'
  noMark hmark hill a ha hindex htag := by
    have hm' : (!(i.iReset || i.iClearCache) &&
        (s.oWbCyc && i.iWbAck && s.lastAck && !s.busAbort)) = true := hmark
    simp only [Bool.and_eq_true] at hm'
    obtain ⟨-, ⟨⟨hcyc, hack⟩, -⟩, -⟩ := hm'
    have hsaddr : (Pfcache.next s i).saddr = indexAt CW s.oWbAddr := by
      simp [hcyc, hack, ← (hl.filling hcyc).index]
    have htags : (Pfcache.next s i).cacheTags (indexAt CW s.oWbAddr) = tagAt CW s.oWbAddr := by
      show (if s.oWbCyc && i.iWbAck && indexAt CW s.oWbAddr == s.oWbAddr.extractLsb' _ _ then
        s.oWbAddr.extractLsb' CW (AW - CW) else _) = _
      rw [hcyc, hack, if_pos (by simp [indexAt])]
      rfl
    rw [hsaddr] at hindex htag
    rw [htags] at htag
    obtain ⟨-, -, ⟨-, herr, -⟩ | ⟨-, hold, hcache⟩⟩ := illegal_next hill
    · exact hs.one ⟨hack, herr⟩
    · rw [hcache] at ha
      exact h.noFill hcyc hold (((lineAt_eq_iff hCW hLS _ _).2 ⟨hindex, htag⟩).trans ha)
  noFill hcyc hill := by
    obtain ⟨-, -, hor⟩ := nextCyc_cases hcyc
    obtain ⟨hr, hcl, ⟨hcyc', herr, -⟩ | ⟨-, hold, hcache⟩⟩ := illegal_next hill
    · rcases hor with ⟨hidle, -, -⟩ | ⟨-, herr', -⟩
      · simp [hidle] at hcyc'
      · simp [herr'] at herr
    · rw [hcache]
      rcases hor with ⟨hidle, hneed, hnew⟩ | ⟨hbusy, -, -⟩
      · have hstb : s.oWbStb = false := by
          cases hstb : s.oWbStb
          · rfl
          · simp [hl.strobe hstb] at hidle
        have hstart : _ ∧ Filling mem _ (Audit.step w i _) :=
          filling_start hLS hCW hidle hstb hneed hnew hr hcl
        rw [hstart.1]
        have haway := h.needs hneed hold
        rw [illegalHere, lineOf_eq, beq_eq_false_iff_ne] at haway
        intro heq
        refine haway (heq.symm.trans ?_)
        exact extract_lineBase _ (Nat.le_refl _)
      · rw [((hl.filling hbusy).addr_next (i := i) hLS hCW hbusy).1]
        exact h.noFill hbusy hold
  needs hn hill := by
    obtain ⟨-, hcyc, -, -, -, haway⟩ := needload_next hn
    have hstill := h.still_of_needload hn
    obtain ⟨-, -, ⟨hcyc', -, -⟩ | ⟨-, hold, hcache⟩⟩ := illegal_next hill
    · simp [hcyc] at hcyc'
    · have hlast : (Pfcache.next s i).lastpc = s.lastpc := by
        simp [hstill]
      rw [illegalHere, hcache, hlast]
      exact haway hold
  absent hn hc := by
    obtain ⟨-, hcyc, -, hdelay, hmiss, -⟩ := needload_next hn
    have hstill := h.still_of_needload hn
    have hlast : (Pfcache.next s i).lastpc = s.lastpc := by
      simp [hstill]
    rw [hlast] at hc
    rcases (hl.cached_next hc).2 with ⟨hmark, -⟩ | hc'
    · exact h.waited (.inr hmark) hdelay
    · have htag := hk.tagged (by rw [lineIndex_eq hCW hLS]; exact hc'.1)
      rw [lineIndex_eq hCW hLS, hc'.2] at htag
      have hhit : wVFromLast s = true := by
        unfold wVFromLast
        rw [lineIndex_eq hCW hLS, tagOf_eq hCW, hc'.1, htag]
        simp
      rw [hmiss] at hhit
      simp at hhit
  unshown hn := by
    obtain ⟨-, -, -, -, hmiss, -⟩ := needload_next hn
    have hstill := h.still_of_needload hn
    cases hv : shown (Pfcache.next s i)
    · rfl
    · obtain ⟨-, -, -, -, -, hhit⟩ := hk.hit hLS hCW hv
      rw [hmiss] at hhit
      simpa using hhit hstill
  waited hor := by
    refine h.delay_next hk ?_
    rcases hor with hp | hm
    · have hp' : (s.oWbCyc && i.iWbErr) = true := hp
      simp only [Bool.and_eq_true] at hp'
      exact hp'.1
    · have hm' : (!(i.iReset || i.iClearCache) &&
          (s.oWbCyc && i.iWbAck && s.lastAck && !s.busAbort)) = true := hm
      simp only [Bool.and_eq_true] at hm'
      exact hm'.2.1.1.1
  busy hcyc hv := by
    obtain ⟨-, -, ⟨-, hneed, hnew⟩ | ⟨hbusy, -, -⟩⟩ := nextCyc_cases hcyc
    · -- a fetch begins for a line that is not there
      have hstill : wAdvance s i = false := by
        simp [wAdvance, hnew, hk.rV_eq, h.unshown hneed]
      obtain ⟨-, -, -, -, -, hhit⟩ := hk.hit hLS hCW hv
      have hhit' := hhit hstill
      simp only [wVFromLast, Bool.and_eq_true, beq_iff_eq] at hhit'
      have htag := hk.tagged hhit'.2
      rw [hhit'.1, tagOf_eq hCW, lineIndex_eq hCW hLS] at htag
      rw [lineIndex_eq hCW hLS] at hhit'
      exact absurd ⟨hhit'.2, htag.symm⟩ (h.absent hneed)
    · exact h.delay_next hk hbusy
  hidden hv hill := by
    obtain ⟨-, -, hcached, -, -, -⟩ := hk.hit hLS hCW hv
    rw [illegalHere, lineOf_eq, beq_eq_false_iff_ne]
    obtain ⟨-, -, ⟨hcyc, -, hcache⟩ | ⟨-, hold, hcache⟩⟩ := illegal_next hill
    · rw [hcache]
      intro heq
      have hindex := ((lineAt_eq_iff hCW hLS _ _).1 heq).1
      have hmarked := hcached.1
      rw [← hindex, (hl.filling hcyc).unmarked] at hmarked
      simp at hmarked
    · rw [hcache]
      exact fun heq => h.noHit hold _ heq.symm hcached
  here hi hp := by
    obtain ⟨hr, hcl, hnew, -, hv, hh⟩ := oIllegal_next hi
    exact h.stays hk hr hcl hnew hp hv hh

/-! ## The address -/

/-- An error is shown for a line whose fetch has failed. -/
structure Blamed (s : Pfcache AW CW LGLINES) (w : Audit AW) : Prop where
  kept : s.illegalValid = true → ∃ a ∈ w.failed, lineAt CW LGLINES a = s.illegalCache
  shown : s.oIllegal = true →
    ∃ a ∈ w.failed, lineAt CW LGLINES a = lineAt CW LGLINES (wordOf s.lastpc)

/-- What has failed stays failed until the cache is cleared. -/
theorem failed_next {a : BitVec AW} (hr : i.iReset = false) (hcl : i.iClearCache = false)
    (ha : a ∈ w.failed) : a ∈ (Audit.step w i (out s i.iNewPc)).failed := by
  show a ∈ Audit.nextFailed w i (out s i.iNewPc)
  unfold Audit.nextFailed
  rw [hr, hcl, if_neg (by decide)]
  split
  · exact List.mem_append_right _ ha
  · exact ha

theorem Blamed.next (h : Blamed s w) (hl : Lines mem s w) (hk : Lookup mem s) (hb : Barred s)
    (hs : Watch.Served w.toWatch i (out s i.iNewPc) mem) :
    Blamed (Pfcache.next s i) (Audit.step w i (out s i.iNewPc)) where
  kept hv := by
    obtain ⟨hr, hcl, ⟨hcyc, herr, hcache⟩ | ⟨-, hold, hcache⟩⟩ := illegal_next hv
    · -- the request that fails is one of the fill
      have hne := (hs.err herr).2
      obtain ⟨x, l, hx⟩ := List.exists_cons_of_ne_nil hne
      refine ⟨x, ?_, ?_⟩
      · show x ∈ Audit.nextFailed w i (out s i.iNewPc)
        unfold Audit.nextFailed
        rw [hr, hcl, if_neg (by decide), hx, if_pos (by simp [out, hcyc, herr])]
        simp
      · rw [hcache]
        exact (hl.filling hcyc).flying_line x (by rw [hx]; exact List.mem_cons_self)
    · obtain ⟨a, ha, hline⟩ := h.kept hold
      exact ⟨a, failed_next hr hcl ha, by rw [hcache, hline]⟩
  shown hi := by
    obtain ⟨hr, hcl, hnew, -, hv, hh⟩ := oIllegal_next hi
    obtain ⟨a, ha, hline⟩ := h.kept hv
    have hstill : wAdvance s i = false := hb.still hk hnew hv hh
    have hlast : (Pfcache.next s i).lastpc = s.lastpc := by
      simp [hstill]
    rw [illegalHere, beq_iff_eq, lineOf_eq] at hh
    exact ⟨a, failed_next hr hcl ha, by rw [hlast, hline, hh]⟩

/-- An instruction in the cache is passed over: a bus error on the clock before hides it, and the
    cache goes on as if it had been taken. -/
def passesOver (s : Pfcache AW CW LGLINES) (i : FetchIn AW) : Bool :=
  s.rPriorIllegal && rV s && i.iStallN && !i.iNewPc

/-- The clock does not disturb what the cache shows: it passes nothing over, and no fill fails
    between an error that the CPU takes and the jump that follows it. -/
structure Undisturbed (s : Pfcache AW CW LGLINES) (w : Audit AW) (i : FetchIn AW) : Prop where
  kept : passesOver s i = false
  reported : Audit.nextReported w i (out s i.iNewPc) = true → (s.oWbCyc && i.iWbErr) = false

/-- Where the cache stands, and where the CPU does. -/
structure Aligned (s : Pfcache AW CW LGLINES) (w : Audit AW) : Prop where
  due : w.reported = false → ∀ a, w.due = some a → s.lastpc = a
  barred : w.reported = true → s.illegalValid = true ∧ illegalHere s = true

/-- Between two jumps. -/
theorem Aligned.next (h : Aligned s w) (hk : Lookup mem s) (hb : Barred s)
    (hgood : Undisturbed s w i) (hnew : i.iNewPc = false) (hcl : i.iClearCache = false)
    (hpc : ∀ a, w.due = some a → i.iPc = a + 4) :
    Aligned (Pfcache.next s i) (Audit.step w i (out s i.iNewPc)) := by
  cases hr : i.iReset
  case true =>
    constructor
    · intro _ a ha
      simp [Audit.step, Audit.nextDue, hnew, hr] at ha
    · intro hrep
      simp [Audit.step, Audit.nextReported, hnew, hr] at hrep
  have hrep : (Audit.step w i (out s i.iNewPc)).reported =
      (w.reported || (Audit.given i (out s i.iNewPc) && s.oIllegal)) := by
    simp [Audit.step, Audit.nextReported, hnew, hr, out]
  have hgiven : Audit.given i (out s i.iNewPc) =
      ((shown s || s.oIllegal) && !s.rPriorIllegal && i.iStallN) := by
    simp [Audit.given, out, oValid, shown, hnew]
  have hadv : wAdvance s i = (shown s && i.iStallN) := by
    simp [wAdvance, hnew, hk.rV_eq]
  have hkept := hgood.kept
  rw [passesOver, hk.rV_eq, hnew] at hkept
  constructor
  · intro hno a ha
    rw [hrep, Bool.or_eq_false_iff] at hno
    have hdue : (if Audit.given i (out s i.iNewPc) then w.due.map (· + 4) else w.due) = some a := by
      simpa [Audit.step, Audit.nextDue, hnew, hr] using ha
    show (if wAdvance s i then i.iPc else s.lastpc) = a
    cases hg : Audit.given i (out s i.iNewPc)
    · rw [hg] at hdue
      have hstill : wAdvance s i = false := by
        rw [hadv]
        rw [hgiven] at hg
        cases hs : shown s <;> cases hn : i.iStallN <;> cases hp : s.rPriorIllegal <;> simp_all
      rw [hstill]
      exact h.due hno.1 a hdue
    · rw [hg] at hdue hno
      have hill : s.oIllegal = false := by
        simpa using hno.2
      rw [hgiven, hill] at hg
      simp only [Bool.or_false, Bool.and_eq_true] at hg
      rw [hadv, hg.1.1, hg.2]
      obtain ⟨b, hb', rfl⟩ := Option.map_eq_some_iff.1 hdue
      exact hpc b hb'
  · intro hyes
    have herr : (s.oWbCyc && i.iWbErr) = false := hgood.reported hyes
    have hhere : s.illegalValid = true ∧ illegalHere s = true := by
      cases hold : w.reported
      · rw [hrep, hold, Bool.false_or, Bool.and_eq_true, hgiven] at hyes
        simp only [Bool.and_eq_true, Bool.not_eq_true'] at hyes
        exact hb.here hyes.2 hyes.1.1.2
      · exact h.barred hold
    exact hb.stays hk hr hcl hnew herr hhere.1 hhere.2

end Step

/-! ## Runs -/

/-- What the CPU keeps to on the ports of the cache: it follows each clearing by a jump, and asks for
    the word behind the one it waits for. -/
structure Led (i : ℕ → FetchIn AW) (w : ℕ → Audit AW) : Prop where
  jumps : ∀ n, (i n).iClearCache = true → (i (n + 1)).iNewPc = true
  ahead : ∀ n a, (i n).iNewPc = false → (w n).due = some a → (i n).iPc = a + 4

/-- The ports of a run. -/
def ports (s : ℕ → Pfcache AW CW LGLINES) (i : ℕ → FetchIn AW) (n : ℕ) : FetchOut AW :=
  out (s n) (i n).iNewPc

section Run

variable {mem : ℕ → BitVec AW → BitVec 32} {s : ℕ → Pfcache AW CW LGLINES} {i : ℕ → FetchIn AW}

/-- Where a run begins. -/
theorem AtPowerUp.holds {mem : BitVec AW → BitVec 32} {s : Pfcache AW CW LGLINES} (h : AtPowerUp s) :
    Lines mem s Audit.empty ∧ Lookup mem s ∧ Barred s ∧ Blamed s Audit.empty ∧
      Aligned s Audit.empty := by
  have hshown : shown s = false := by
    simp [shown, h.rVFromPc, h.rVFromLast]
  refine ⟨⟨?_, ?_, ?_, ?_, ?_⟩, ⟨?_, ?_, ?_, ?_⟩, ⟨?_, ?_, ?_, ?_, ?_, ?_, ?_, ?_, ?_, ?_⟩,
    ⟨?_, ?_⟩, ⟨?_, ?_⟩⟩
  · simp [h.validMask]
  · simp [h.svmask]
  · simp [h.svmask]
  · simp [h.oWbStb]
  · simp [h.oWbCyc]
  · simp [oPc, h.rPc, h.rLastpc, h.lastpc]
  · simp [h.validMask]
  · simp [hshown]
  · simp [h.rNewRequest]
  · simp [h.illegalValid]
  · simp [h.svmask]
  · simp [h.oWbCyc]
  · simp [h.needload]
  · simp [h.needload]
  · simp [h.needload]
  · simp [h.rPriorIllegal, h.svmask]
  · simp [h.oWbCyc]
  · simp [hshown]
  · simp [h.oIllegal]
  · simp [h.illegalValid]
  · simp [h.oIllegal]
  · intro _ a ha
    simp [Audit.empty, Watch.empty] at ha
  · simp [Audit.empty]

/-- No answer, and the CPU waits. -/
def waits (pc : BitVec 7) : FetchIn 5 :=
  { iReset := false, iNewPc := false, iClearCache := false, iStallN := false, iPc := pc, iPipePc := 0,
    iWbRequest := false, iWbAck := false, iWbStall := false, iWbErr := false, iWbData := 0 }

theorem atPowerUp_init (AW CW LGLINES : ℕ) : AtPowerUp (init AW CW LGLINES) :=
  ⟨rfl, rfl, rfl, rfl, rfl, rfl, rfl, rfl, rfl, rfl, rfl, rfl, rfl, rfl, rfl, rfl, rfl, rfl,
    fun _ => rfl, rfl, rfl, rfl, rfl⟩

end Run

end Pfcache

/-! ## In the CPU -/

namespace Sys

variable {AW : ℕ} {c : CpuCfg AW} {F : FetchUnit AW} {M : MemUnit AW} {s : Sys F M} {i : ℕ → SysIn}

/-- Where the next fetch address comes from, if no jump follows. -/
theorem nextPfPc_of_plain {s : Zipcpu AW} {x : CpuIn AW} (h : Zipcpu.nextNewPc c s x = false) :
    Zipcpu.nextPfPc c s x =
      if Zipcpu.dcdEarlyBranchStb c s && !Zipcpu.clearPipeline s then
        byteAddr (wordOf (Zipcpu.dcdBranchPc c s) + 1) 0#2
      else if s.newPc || (!Zipcpu.pfStalled c s x && x.pfValid) then byteAddr (wordOf s.pfPc + 1) 0#2
      else s.pfPc := by
  unfold Zipcpu.nextNewPc at h
  split_ifs at h with h1 h2 h3
  simp only [Bool.or_eq_true, not_or, Bool.not_eq_true] at h1 h2 h3
  unfold Zipcpu.nextPfPc
  have hpc : (Zipcpu.wrRegCe c s x && (Zipcpu.wrRegId s x).getLsbD 4 == Zipcpu.gie s &&
      Zipcpu.wrWritePc s x) = false := by
    rw [← h, BEq.comm]
  rw [h1.1.1, h1.1.2, h1.2, h2, h3, hpc]
  simp

/-- **The CPU leads the cache as it should.** -/
theorem led (hreset : (i 0).iReset = true) :
    Pfcache.Led (pfIns c s i) (Audit.seen (pfIns c s i) (pfOuts c s i)) where
  jumps n h := (driven (c := c) (s := s) hreset).jumps n (.inr h)
  ahead := by
    have hinv : ∀ n, (pfIns c s i n).iNewPc = true ∨
        ∀ a, (Audit.seen (pfIns c s i) (pfOuts c s i) n).due = some a →
          (Clocked.run (next c) s i n).cpu.pfPc = a + 4 := by
      intro n
      induction n with
      | zero =>
        right
        intro a ha
        simp [Audit.seen, Audit.empty, Watch.empty] at ha
      | succ n ih =>
        cases hnext : Zipcpu.nextNewPc c (Clocked.run (next c) s i n).cpu
          (cpuIn c (Clocked.run (next c) s i n) (i n))
        case true =>
          left
          have hnew : (Clocked.run (next c) s i (n + 1)).cpu.newPc = true := by
            rw [Clocked.run_succ, next_cpu, Zipcpu.next_newPc, hnext]
          show Zipcpu.pfNewPc c _ = true
          simp [Zipcpu.pfNewPc, hnew]
        right
        intro a ha
        rw [Clocked.run_succ, next_cpu, Zipcpu.next_pfPc, nextPfPc_of_plain hnext]
        have hr : (i n).iReset = false := by
          cases hr : (i n).iReset
          · rfl
          · simp [Zipcpu.nextNewPc, hr] at hnext
        have hwhole : WholeWords (Clocked.run (next c) s i n).cpu := by
          cases n with
          | zero => simp [hreset] at hr
          | succ n => exact wholeWords_run hreset n
        have ha' : Audit.nextDue (Audit.seen (pfIns c s i) (pfOuts c s i) n) (pfIns c s i n)
            (pfOuts c s i n) = some a := ha
        unfold Audit.nextDue at ha'
        cases hnew : (pfIns c s i n).iNewPc
        · -- on to the next word, when this one is taken
          have hpc := ih.resolve_left (by simp [hnew])
          have hnew' : Zipcpu.pfNewPc c (Clocked.run (next c) s i n).cpu = false := hnew
          have hr' : (pfIns c s i n).iReset = false := hr
          simp only [Zipcpu.pfNewPc, Bool.or_eq_false_iff] at hnew'
          rw [hnew, hr', if_neg (by decide), if_neg (by decide)] at ha'
          rw [hnew'.1, hnew'.2, if_neg (by decide), Bool.false_or]
          have hgiven : Audit.given (pfIns c s i n) (pfOuts c s i n) =
              (!Zipcpu.pfStalled c (Clocked.run (next c) s i n).cpu
                (cpuIn c (Clocked.run (next c) s i n) (i n)) &&
                (cpuIn c (Clocked.run (next c) s i n) (i n)).pfValid) := Bool.and_comm _ _
          rw [← hgiven]
          cases hg : Audit.given (pfIns c s i n) (pfOuts c s i n)
          · rw [hg] at ha'
            exact hpc a ha'
          · rw [hg, if_pos rfl] at ha'
            obtain ⟨b, hb, rfl⟩ := Option.map_eq_some_iff.1 ha'
            rw [if_pos rfl, ← byteAddr_succ, hwhole.pfPc, hpc b hb]
        · -- a jump: the word behind its target is asked for next
          rw [hnew, if_pos rfl] at ha'
          rw [← Option.some.inj ha']
          show _ = Zipcpu.pfRequestAddress c (Clocked.run (next c) s i n).cpu + 4
          unfold Zipcpu.pfRequestAddress
          have hnew' : Zipcpu.pfNewPc c (Clocked.run (next c) s i n).cpu = true := hnew
          cases hearly : Zipcpu.dcdEarlyBranchStb c (Clocked.run (next c) s i n).cpu &&
            !Zipcpu.clearPipeline (Clocked.run (next c) s i n).cpu
          · rw [Zipcpu.pfNewPc, hearly, Bool.or_false] at hnew'
            rw [hnew', Bool.true_or]
            simp only [Bool.false_eq_true, if_false, if_true]
            rw [← byteAddr_succ, hwhole.pfPc]
          · have hstb := hearly
            simp only [Zipcpu.dcdEarlyBranchStb, Idecode.oEarlyBranchStb, Bool.and_eq_true] at hstb
            rw [if_pos rfl, if_pos rfl, ← byteAddr_succ]
            congr 1
            rw [Zipcpu.dcdBranchPc, Idecode.oBranchPc, if_pos hstb.1.1]
            exact hwhole.branchPc hstb.1.2
    intro n a hnew ha
    have hpc := (hinv n).resolve_left (by simp [hnew])
    have hnew' : Zipcpu.pfNewPc c (Clocked.run (next c) s i n).cpu = false := hnew
    simp only [Zipcpu.pfNewPc, Bool.or_eq_false_iff] at hnew'
    show Zipcpu.pfRequestAddress c (Clocked.run (next c) s i n).cpu = a + 4
    unfold Zipcpu.pfRequestAddress
    rw [hnew'.2, if_neg (by decide), hpc a ha]

end Sys

end ZipStormMX.Cpu
