/-
  The sector loop of `FLASHDRVR::write`.

  For each sector of the range the comparison decides: nothing to do, program from the first
  difference, or erase and program all of it.  Whether that leaves the data is a question about the
  contents before, the data, and the lengths of the page loop (`SectorOk`); the loop over the sectors
  adds nothing to it.
-/
import ZipStormMX.Flash.Programming

namespace ZipStormMX.Flash

open Nor

/-! ## The comparison -/

/-- What the comparison of `n` bytes from `i` on comes to. -/
inductive Found (sb dp : ℕ → BitVec 8) (base i n : ℕ) : Bool × ℕ → Prop
  | same : (∀ j, i ≤ j → j < i + n → sb j = dp j) → Found sb dp base i n (false, 0)
  | differs (j : ℕ) : i ≤ j → j < i + n → sb j ≠ dp j → (∀ k, i ≤ k → k < j → sb k = dp k) →
      (∀ k, i ≤ k → k < i + n → sb k &&& dp k = dp k) → Found sb dp base i n (false, j - j % 4 + base)
  | needsErase (j : ℕ) : i ≤ j → j < i + n → sb j &&& dp j ≠ dp j →
      Found sb dp base i n (true, j - j % 4 + base)

/-- After the first difference only a bit to be set counts. -/
theorem compare_after (sb dp : ℕ → BitVec 8) (base newv : ℕ) (hnew : newv ≠ 0) (n : ℕ) :
    ∀ i, (compare sb dp base i n newv = (false, newv) ∧
        ∀ k, i ≤ k → k < i + n → sb k &&& dp k = dp k) ∨
      ∃ j, i ≤ j ∧ j < i + n ∧ sb j &&& dp j ≠ dp j ∧
        compare sb dp base i n newv = (true, j - j % 4 + base) := by
  induction n with
  | zero =>
    intro i
    refine Or.inl ⟨rfl, ?_⟩
    intro k h0 h1
    omega
  | succ n ih =>
    intro i
    by_cases hset : sb i &&& dp i ≠ dp i
    · refine Or.inr ⟨i, Nat.le_refl i, by omega, hset, ?_⟩
      rw [compare, if_pos hset]
    · rw [compare, if_neg hset, if_neg (fun h => hnew h.2)]
      rcases ih (i + 1) with ⟨heq, hall⟩ | ⟨j, h0, h1, hj, heq⟩
      · refine Or.inl ⟨heq, ?_⟩
        intro k h0 h1
        by_cases hk : k = i
        · rw [hk]
          exact not_not.1 hset
        · exact hall k (by omega) (by omega)
      · exact Or.inr ⟨j, by omega, by omega, hj, heq⟩

theorem compare_found (sb dp : ℕ → BitVec 8) {base : ℕ} (hbase : 0 < base) (n : ℕ) :
    ∀ i, Found sb dp base i n (compare sb dp base i n 0) := by
  induction n with
  | zero =>
    intro i
    apply Found.same
    intro j h0 h1
    omega
  | succ n ih =>
    intro i
    by_cases hset : sb i &&& dp i ≠ dp i
    · rw [compare, if_pos hset]
      exact .needsErase i (Nat.le_refl i) (by omega) hset
    · rw [compare, if_neg hset]
      by_cases hne : sb i ≠ dp i
      · rw [if_pos ⟨hne, rfl⟩]
        rcases compare_after sb dp base (i - i % 4 + base) (by omega) n (i + 1) with
          ⟨heq, hall⟩ | ⟨j, h0, h1, hj, heq⟩
        · rw [heq]
          refine .differs i (Nat.le_refl i) (by omega) hne (fun k h0 h1 => by omega) ?_
          intro k h0 h1
          by_cases hk : k = i
          · rw [hk]
            exact not_not.1 hset
          · exact hall k (by omega) (by omega)
        · rw [heq]
          exact .needsErase j (by omega) (by omega) hj
      · rw [if_neg (fun h => hne h.1)]
        have hi : sb i = dp i := not_not.1 hne
        have hrest := ih (i + 1)
        generalize compare sb dp base (i + 1) n 0 = r at hrest ⊢
        cases hrest with
        | same hall =>
          apply Found.same
          intro j h0 h1
          by_cases hj : j = i
          · rw [hj, hi]
          · exact hall j (by omega) (by omega)
        | differs j h0 h1 hj hbefore hall =>
          refine .differs j (by omega) (by omega) hj ?_ ?_
          · intro k hk0 hk1
            by_cases hk : k = i
            · rw [hk, hi]
            · exact hbefore k (by omega) hk1
          · intro k hk0 hk1
            by_cases hk : k = i
            · rw [hk]
              exact not_not.1 hset
            · exact hall k (by omega) (by omega)
        | needsErase j h0 h1 hj => exact .needsErase j (by omega) (by omega) hj

/-! ## The pages of a sector -/

/-- The part of the range in sector `s` begins here, .. -/
def baseOf (addr s : ℕ) : ℕ := if addr > s then addr else s

/-- .. and ends here. -/
def stopOf (addr len s : ℕ) : ℕ := min (s + sectorSzB) (addr + len)

/-- What is known of a run `r` from `st` that changes nothing but addresses `a` to `b`, when `Ok` tells
    whether it leaves the data from `c` to `d`. -/
structure Wrote (addr len : ℕ) (data : ℕ → BitVec 8) (a b c d : ℕ) (Ok : Prop) (st : State)
    (r : State × Outcome) : Prop where
  kept : GoodCalls addr len r.1 → GoodCalls addr len st
  good : Ok → GoodCalls addr len st → GoodCalls addr len r.1
  idle : Idle r.1.chip
  frame : GoodCalls addr len r.1 →
    ∀ o, ¬(a ≤ o + rFlash ∧ o + rFlash < b) → r.1.chip.mem o = st.chip.mem o
  holds : r.2 = .returned true → GoodCalls addr len r.1 → (Ok ↔ Holds r.1.chip.mem addr data c d)

theorem pages_wrote (u : Unset) {addr len : ℕ} (data : ℕ → BitVec 8) (verify : Bool) {s p0 : ℕ}
    (st : State) (h : Idle st.chip) (ha : addr ≤ p0) (h0 : rFlash ≤ p0)
    (h1 : addr + len ≤ rFlash + flashLen) (hs : s % 65536 = 0) :
    Wrote addr len data p0 (stopOf addr len s) p0 (stopOf addr len s)
      (PagesOk u addr len data st.chip.mem p0 (stopOf addr len s)) st
      (pages u addr len data verify s p0 st) := by
  obtain ⟨⟨p, hpaged, hend⟩, -⟩ := pages_run u data verify s st h ha h0 h1
  generalize pages u addr len data verify s p0 st = r at *
  have hgood : GoodCalls addr len r.1 →
      ∀ q, Visited p0 q → q < p → Good addr len (q, pageLen u addr q) :=
    fun hall q hq hlt => hall _ (hpaged.made q hq hlt).2
  constructor
  · intro hall c hc
    exact hall c (hpaged.kept c hc)
  · intro hok hst c hc
    rcases hpaged.only c hc with hold | ⟨q, hq, hlt, rfl⟩
    · exact hst c hold
    · exact hok.good q hq hlt
  · exact hpaged.idle
  · intro hall o ho
    rw [hpaged.mem hall]
    exact programmed_frame hs h1 (fun q hq hlt => (hpaged.made q hq hlt).1) (hgood hall) ho
  · intro hr hall
    rw [hpaged.mem hall]
    exact programmed_holds h0 (hend hr) fun q hq hlt => hgood hall q hq (Nat.lt_of_lt_of_le hlt
      (hend hr))

/-! ## One sector -/

/-- What the comparison finds in sector `s`. -/
def found (u : Unset) (mem : Mem) (addr len : ℕ) (data : ℕ → BitVec 8) (s : ℕ) : Bool × ℕ :=
  compare (sbuf u mem s (baseOf addr s) (stopOf addr len s - baseOf addr s))
    (fun i => data (baseOf addr s - addr + i)) (baseOf addr s) 0 (stopOf addr len s - baseOf addr s) 0

/-- The three ways through the body of the sector loop. -/
theorem sector_eq (u : Unset) (addr len : ℕ) (data : ℕ → BitVec 8) (verify : Bool) (s : ℕ)
    (st : State) : sector u addr len data verify s st =
      if (found u st.chip.mem addr len data s).2 = 0 then (st, .returned true)
      else if (found u st.chip.mem addr len data s).1 then
        if (eraseSector u st.chip s verify).2 then
          pages u addr len data verify s (baseOf addr s)
            { st with chip := (eraseSector u st.chip s verify).1 }
        else ({ st with chip := (eraseSector u st.chip s verify).1 }, .returned false)
      else pages u addr len data verify s (found u st.chip.mem addr len data s).2 st := by
  have hbase : (if s < addr then addr else s) = baseOf addr s := rfl
  have hstop : (if addr + len > s + sectorSzB then s + sectorSzB else addr + len) =
      stopOf addr len s := by
    unfold stopOf
    split_ifs <;> omega
  unfold sector
  simp only [gt_iff_lt] at hstop ⊢
  rw [hstop, hbase]
  rfl

/-- Sector `s` gets the data, whichever way is taken. -/
structure SectorOk (u : Unset) (addr len : ℕ) (data : ℕ → BitVec 8) (mem : Mem) (s : ℕ) :
    Prop where
  same : (found u mem addr len data s).2 = 0 →
    Holds mem addr data (baseOf addr s) (stopOf addr len s)
  erased : (found u mem addr len data s).2 ≠ 0 → (found u mem addr len data s).1 = true →
    PagesOk u addr len data (erase mem (s - rFlash)) (baseOf addr s) (stopOf addr len s)
  differs : (found u mem addr len data s).2 ≠ 0 → (found u mem addr len data s).1 = false →
    Holds mem addr data (baseOf addr s) (found u mem addr len data s).2 ∧
    PagesOk u addr len data mem (found u mem addr len data s).2 (stopOf addr len s)

variable {u : Unset} {addr len s : ℕ} {data : ℕ → BitVec 8} {mem : Mem}

theorem SectorOk.of_same (hf : found u mem addr len data s = (false, 0))
    (h : Holds mem addr data (baseOf addr s) (stopOf addr len s)) :
    SectorOk u addr len data mem s :=
  ⟨fun _ => h, fun hne => absurd (by rw [hf]) hne, fun hne => absurd (by rw [hf]) hne⟩

theorem SectorOk.of_differs {n : ℕ} (hf : found u mem addr len data s = (false, n)) (hn : n ≠ 0)
    (h0 : Holds mem addr data (baseOf addr s) n)
    (h1 : PagesOk u addr len data mem n (stopOf addr len s)) : SectorOk u addr len data mem s := by
  refine ⟨fun hz => ?_, fun _ he => ?_, fun _ _ => ?_⟩ <;> rw [hf] at *
  · exact absurd hz hn
  · exact nomatch he
  · exact ⟨h0, h1⟩

theorem SectorOk.of_erased {n : ℕ} (hf : found u mem addr len data s = (true, n)) (hn : n ≠ 0)
    (h : PagesOk u addr len data (erase mem (s - rFlash)) (baseOf addr s) (stopOf addr len s)) :
    SectorOk u addr len data mem s := by
  refine ⟨fun hz => ?_, fun _ _ => h, fun _ he => ?_⟩ <;> rw [hf] at *
  · exact absurd hz hn
  · exact nomatch he

/-- A sector with a part of the range, all of it in the flash. -/
structure InRange (addr len s : ℕ) : Prop where
  pos : 0 < len
  aligned : s % 65536 = 0
  after : addr < s + 65536
  before : s < addr + len
  low : rFlash ≤ addr
  high : addr + len ≤ rFlash + flashLen

theorem InRange.low' {addr len s : ℕ} (h : InRange addr len s) : rFlash ≤ s := by
  have h0 := h.low
  have h1 := h.after
  have h2 := h.aligned
  unfold rFlash at *
  omega

theorem InRange.base {addr len s : ℕ} (h : InRange addr len s) : addr ≤ baseOf addr s ∧
    rFlash ≤ baseOf addr s ∧ s ≤ baseOf addr s ∧ baseOf addr s < stopOf addr len s ∧
    stopOf addr len s ≤ s + 65536 ∧ stopOf addr len s ≤ addr + len ∧ baseOf addr s < s + 65536 := by
  have h0 := h.low
  have h1 := h.after
  have h2 := h.before
  have h3 := h.low'
  have h4 := h.pos
  unfold baseOf stopOf sectorSzB nPages szPageB
  split_ifs <;> omega

/-- What is found in a sector of the range. -/
theorem InRange.found {addr len s : ℕ} (h : InRange addr len s) (u : Unset) (mem : Mem)
    (data : ℕ → BitVec 8) : Found (sbuf u mem s (baseOf addr s) (stopOf addr len s - baseOf addr s))
      (fun i => data (baseOf addr s - addr + i)) (baseOf addr s) 0
      (stopOf addr len s - baseOf addr s) (found u mem addr len data s) := by
  have hbase := h.base
  have hpos : 0 < baseOf addr s := by
    unfold rFlash at hbase
    omega
  exact compare_found _ _ hpos _ 0

/-- The byte of the buffer for address `x`. -/
def bufferAt (u : Unset) (mem : Mem) (addr len s x : ℕ) : BitVec 8 :=
  sbuf u mem s (baseOf addr s) (stopOf addr len s - baseOf addr s) (x - baseOf addr s)

/-- What is found, by address. -/
theorem InRange.found_at {addr len s : ℕ} (h : InRange addr len s) (u : Unset) (mem : Mem)
    (data : ℕ → BitVec 8) :
    (Flash.found u mem addr len data s = (false, 0) ∧ ∀ x, baseOf addr s ≤ x →
      x < stopOf addr len s → bufferAt u mem addr len s x = data (x - addr)) ∨
    (∃ y, baseOf addr s ≤ y ∧ y < stopOf addr len s ∧
      Flash.found u mem addr len data s = (false, y - (y - baseOf addr s) % 4) ∧
      bufferAt u mem addr len s y ≠ data (y - addr) ∧
      (∀ x, baseOf addr s ≤ x → x < y → bufferAt u mem addr len s x = data (x - addr)) ∧
      ∀ x, baseOf addr s ≤ x → x < stopOf addr len s →
        bufferAt u mem addr len s x &&& data (x - addr) = data (x - addr)) ∨
    (∃ y, baseOf addr s ≤ y ∧ y < stopOf addr len s ∧
      Flash.found u mem addr len data s = (true, y - (y - baseOf addr s) % 4) ∧
      bufferAt u mem addr len s y &&& data (y - addr) ≠ data (y - addr)) := by
  have hf := h.found u mem data
  obtain ⟨ha, -⟩ := h.base
  -- index `x - base` of the buffer and of the data is address `x`
  have hdata : ∀ x, baseOf addr s ≤ x →
      data (baseOf addr s - addr + (x - baseOf addr s)) = data (x - addr) := by
    intro x hx
    rw [show baseOf addr s - addr + (x - baseOf addr s) = x - addr by omega]
  have hplace : ∀ j, j - j % 4 + baseOf addr s =
      baseOf addr s + j - (baseOf addr s + j - baseOf addr s) % 4 := by
    intro j
    omega
  generalize Flash.found u mem addr len data s = r at *
  cases hf with
  | same hall =>
    refine Or.inl ⟨rfl, ?_⟩
    intro x hx0 hx1
    rw [← hdata x hx0]
    exact hall (x - baseOf addr s) (by omega) (by omega)
  | differs j _ hj hdiff hbefore hall =>
    refine Or.inr (Or.inl ⟨baseOf addr s + j, by omega, by omega, by rw [hplace], ?_, ?_, ?_⟩)
    · rw [← hdata _ (by omega)]
      unfold bufferAt
      rw [Nat.add_sub_cancel_left]
      exact hdiff
    · intro x hx0 hx1
      rw [← hdata x hx0]
      exact hbefore (x - baseOf addr s) (by omega) (by omega)
    · intro x hx0 hx1
      rw [← hdata x hx0]
      exact hall (x - baseOf addr s) (by omega) (by omega)
  | needsErase j _ hj hset =>
    refine Or.inr (Or.inr ⟨baseOf addr s + j, by omega, by omega, by rw [hplace], ?_⟩)
    rw [← hdata _ (by omega)]
    unfold bufferAt
    rw [Nat.add_sub_cancel_left]
    exact hset

/-- Programming begins in the sector. -/
theorem InRange.found_in {addr len s : ℕ} (h : InRange addr len s) (u : Unset) (mem : Mem)
    (data : ℕ → BitVec 8) (hne : (Flash.found u mem addr len data s).2 ≠ 0) :
    baseOf addr s ≤ (Flash.found u mem addr len data s).2 ∧
    (Flash.found u mem addr len data s).2 < stopOf addr len s := by
  have hplace : ∀ y, baseOf addr s ≤ y → y < stopOf addr len s →
      baseOf addr s ≤ y - (y - baseOf addr s) % 4 ∧
      y - (y - baseOf addr s) % 4 < stopOf addr len s := by
    intro y h0 h1
    omega
  rcases h.found_at u mem data with ⟨hf, -⟩ | ⟨y, h0, h1, hf, -⟩ | ⟨y, h0, h1, hf, -⟩
  · exact absurd (by rw [hf]) hne
  · rw [hf]
    exact hplace y h0 h1
  · rw [hf]
    exact hplace y h0 h1

theorem erase_frame {mem : Mem} {s o : ℕ} (hs : s % 65536 = 0) (h0 : rFlash ≤ s)
    (ho : ¬(s ≤ o + rFlash ∧ o + rFlash < s + 65536)) : erase mem (s - rFlash) o = mem o := by
  unfold erase rFlash at *
  rw [if_neg (by omega)]

/-- **One sector.** -/
theorem sector_wrote (u : Unset) {addr len : ℕ} (data : ℕ → BitVec 8) (verify : Bool) {s : ℕ}
    {st : State} (h : Idle st.chip) (hs : InRange addr len s) :
    Wrote addr len data s (s + 65536) (baseOf addr s) (stopOf addr len s)
      (SectorOk u addr len data st.chip.mem s) st
      (sector u addr len data verify s st) := by
  obtain ⟨ha, h0, hsb, hlt, hstop, hstop', -⟩ := hs.base
  rw [sector_eq]
  by_cases hsame : (found u st.chip.mem addr len data s).2 = 0
  · rw [if_pos hsame]
    constructor
    · exact fun hall => hall
    · exact fun _ hall => hall
    · exact h
    · exact fun _ o _ => rfl
    · intro _ _
      exact ⟨fun hok => hok.same hsame, fun hh =>
        ⟨fun _ => hh, fun hne => absurd hsame hne, fun hne => absurd hsame hne⟩⟩
  rw [if_neg hsame]
  by_cases herase : (found u st.chip.mem addr len data s).1 = true
  · -- erase, then all of the part of the range
    rw [if_pos herase]
    have hchip := eraseSector_chip u h verify hs.low' (by have := hs.high; have := hs.before; omega)
    have hmem : (eraseSector u st.chip s verify).1.mem = erase st.chip.mem (s - rFlash) := by
      rw [hchip]
    have hidle : Idle (eraseSector u st.chip s verify).1 := by
      rw [hchip]
      exact rfl
    have hiff : SectorOk u addr len data st.chip.mem s ↔ PagesOk u addr len data
        (eraseSector u st.chip s verify).1.mem (baseOf addr s) (stopOf addr len s) := by
      rw [hmem]
      refine ⟨fun hok => hok.erased hsame herase, fun hok => ⟨fun h => absurd h hsame, fun _ _ => hok,
        fun _ h => ?_⟩⟩
      rw [herase] at h
      exact absurd h (by decide)
    split_ifs with hverify
    · have hp := pages_wrote u data verify { st with chip := (eraseSector u st.chip s verify).1 }
        hidle ha h0 hs.high hs.aligned
      rw [← hiff] at hp
      refine ⟨hp.kept, hp.good, hp.idle, ?_, hp.holds⟩
      intro hall o ho
      rw [hp.frame hall o (by omega)]
      show (eraseSector u st.chip s verify).1.mem o = _
      rw [hmem]
      exact erase_frame hs.aligned hs.low' ho
    · refine ⟨fun hall => hall, fun _ hall => hall, hidle, ?_, fun hr => nomatch hr⟩
      intro _ o ho
      show (eraseSector u st.chip s verify).1.mem o = _
      rw [hmem]
      exact erase_frame hs.aligned hs.low' ho
  · -- from the first difference on
    rw [if_neg herase]
    obtain ⟨hn0, hn1⟩ := hs.found_in u st.chip.mem data hsame
    have hp := pages_wrote u data verify st h (Nat.le_trans ha hn0)
      (Nat.le_trans h0 hn0) hs.high hs.aligned
    refine ⟨hp.kept, ?_, hp.idle, ?_, ?_⟩
    · intro hok
      exact hp.good (hok.differs hsame (Bool.eq_false_iff.2 herase)).2
    · exact fun hall o ho => hp.frame hall o (by omega)
    · intro hr hall
      have hframe := hp.frame hall
      have hbefore : ∀ x, x < (found u st.chip.mem addr len data s).2 → baseOf addr s ≤ x →
          (pages u addr len data verify s (found u st.chip.mem addr len data s).2 st).1.chip.mem
            (x - rFlash) = st.chip.mem (x - rFlash) := by
        intro x hx0 hx1
        exact hframe _ (by omega)
      constructor
      · intro hok
        obtain ⟨hpre, hpages⟩ := hok.differs hsame (Bool.eq_false_iff.2 herase)
        intro x hx0 hx1
        by_cases hx : x < (found u st.chip.mem addr len data s).2
        · rw [hbefore x hx hx0]
          exact hpre x hx0 hx
        · exact (hp.holds hr hall).1 hpages x (by omega) hx1
      · intro hh
        refine ⟨fun h => absurd h hsame, fun _ h => absurd h herase, fun _ _ => ⟨?_, ?_⟩⟩
        · intro x hx0 hx1
          rw [← hbefore x hx1 hx0]
          exact hh x hx0 (by omega)
        · exact (hp.holds hr hall).2 fun x hx0 hx1 => hh x (by omega) hx1

/-- When a sector does not return `true`, the erase was not verified or a page did not return it. -/
theorem sector_failed (u : Unset) {addr len : ℕ} (data : ℕ → BitVec 8) (verify : Bool) {s : ℕ}
    (st : State) (h : Idle st.chip) (hs : InRange addr len s)
    (hr : (sector u addr len data verify s st).2 ≠ .returned true) :
    (eraseSector u st.chip s verify).2 = false ∨ ∃ p st', addr ≤ p ∧ p < addr + len ∧
      sector u addr len data verify s st = page u addr data verify p st' := by
  obtain ⟨ha, h0, -, -, -, hstop, -⟩ := hs.base
  have hpage : ∀ p0 st0, Idle st0.chip → addr ≤ p0 →
      (pages u addr len data verify s p0 st0).2 ≠ .returned true → ∃ p st', addr ≤ p ∧
        p < addr + len ∧ pages u addr len data verify s p0 st0 = page u addr data verify p st' := by
    intro p0 st0 hidle hp0 hno
    have hlow := hs.low
    obtain ⟨p, st', hvis, hlt, heq⟩ :=
      (pages_run u data verify s st0 hidle hp0 (by omega) hs.high).2 hno
    refine ⟨p, st', ?_, by omega, heq⟩
    unfold Visited at hvis
    omega
  rw [sector_eq] at hr ⊢
  split_ifs at hr ⊢ with hsame herase hverify
  · exact absurd rfl hr
  · apply Or.inr
    apply hpage _ _ _ ha hr
    exact fEnd_last _ _
  · exact Or.inl (Bool.eq_false_iff.2 hverify)
  · exact Or.inr (hpage _ _ h (Nat.le_trans ha (hs.found_in u _ data hsame).1) hr)

/-! ## Other sectors do not matter -/

theorem buildword_congr {p q : ℕ → BitVec 8} (h : ∀ j < 4, p j = q j) : buildword p = buildword q := by
  unfold buildword
  rw [h 0 (by decide), h 1 (by decide), h 2 (by decide), h 3 (by decide)]

/-- The same contents between `a` and `b`. -/
def Agree (a b : ℕ) (mem mem' : Mem) : Prop :=
  ∀ o, a ≤ o + rFlash → o + rFlash < b → mem o = mem' o

theorem Agree.symm {a b : ℕ} {mem mem' : Mem} (h : Agree a b mem mem') : Agree a b mem' mem :=
  fun o h0 h1 => (h o h0 h1).symm

/-- What is read back of the words from `base` on. -/
theorem sbuf_congr (u : Unset) {mem mem' : Mem} {s base ln : ℕ} (hs : s % 4 = 0) (hb : s ≤ base)
    (h : Agree s (base + ln) mem mem') : sbuf u mem s base ln = sbuf u mem' s base ln := by
  funext i
  unfold sbuf
  by_cases hi : i < ln / 4 * 4
  · rw [if_pos hi, if_pos hi]
    have hword : readi u mem base (i / 4) = readi u mem' base (i / 4) := by
      unfold readi busWord
      by_cases hw : rFlash ≤ 4 * (base / 4 + if base % 2 = 1 then 0 else i / 4) ∧
          4 * (base / 4 + if base % 2 = 1 then 0 else i / 4) < rFlash + flashLen
      · rw [if_pos hw, if_pos hw]
        apply buildword_congr
        intro j hj
        apply h
        · split_ifs at hw ⊢ <;> omega
        · split_ifs at hw ⊢ <;> omega
      · rw [if_neg hw, if_neg hw]
    rw [hword]
  · rw [if_neg hi, if_neg hi]

theorem Holds.congr {mem mem' : Mem} {addr a b : ℕ} {data : ℕ → BitVec 8} (h0 : rFlash ≤ a)
    (h : Agree a b mem mem') (hh : Holds mem addr data a b) : Holds mem' addr data a b := by
  intro x hx0 hx1
  rw [← h (x - rFlash) (by omega) (by omega)]
  exact hh x hx0 hx1

theorem PagesOk.congr {u : Unset} {addr len a b : ℕ} {data : ℕ → BitVec 8} {mem mem' : Mem}
    (h0 : rFlash ≤ a) (h : Agree a b mem mem') (hok : PagesOk u addr len data mem a b) :
    PagesOk u addr len data mem' a b := by
  refine ⟨hok.good, ?_, ?_⟩
  · intro x hx0 hx1
    rw [← h (x - rFlash) (by omega) (by omega)]
    exact hok.clears x hx0 hx1
  · intro x hx0 hx1 hle
    rw [← h (x - rFlash) (by omega) (by omega)]
    exact hok.rest x hx0 hx1 hle

theorem SectorOk.congr {u : Unset} {addr len s : ℕ} {data : ℕ → BitVec 8} {mem mem' : Mem}
    (hs : InRange addr len s) (h : Agree s (s + 65536) mem mem')
    (hok : SectorOk u addr len data mem s) : SectorOk u addr len data mem' s := by
  obtain ⟨-, h0, hsb, hlt, hstop, -, -⟩ := hs.base
  have hal := hs.aligned
  have hpart : Agree (baseOf addr s) (stopOf addr len s) mem mem' :=
    fun o ho0 ho1 => h o (by omega) (by omega)
  have hfound : found u mem' addr len data s = found u mem addr len data s := by
    unfold found
    rw [sbuf_congr u (by omega) hsb]
    exact fun o ho0 ho1 => (h o (by omega) (by omega)).symm
  have hne : (found u mem addr len data s).2 ≠ 0 →
      baseOf addr s ≤ (found u mem addr len data s).2 := fun hne => (hs.found_in u mem data hne).1
  constructor
  · rw [hfound]
    exact fun hz => (hok.same hz).congr h0 hpart
  · rw [hfound]
    intro hz he
    apply (hok.erased hz he).congr h0
    intro o ho0 ho1
    unfold erase
    rw [hpart o ho0 ho1]
  · rw [hfound]
    intro hz he
    obtain ⟨hbefore, hpages⟩ := hok.differs hz he
    have hin := hs.found_in u mem data hz
    exact ⟨hbefore.congr h0 fun o ho0 ho1 => hpart o ho0 (by omega),
      hpages.congr (by omega) fun o ho0 ho1 => hpart o (by omega) ho1⟩

/-! ## The sector loop -/

/-- What the sector loop has done from `st` on, when it comes to `s`. -/
structure Swept (u : Unset) (addr len : ℕ) (data : ℕ → BitVec 8) (st : State) (s : ℕ)
    (st' : State) : Prop where
  aligned : s % 65536 = 0
  start : sectorOf addr ≤ s
  good : (∀ s', InRange addr len s' → SectorOk u addr len data st.chip.mem s') →
    GoodCalls addr len st → GoodCalls addr len st'
  idle : Idle st'.chip
  frame : GoodCalls addr len st' →
    ∀ o, ¬(sectorOf addr ≤ o + rFlash ∧ o + rFlash < s) → st'.chip.mem o = st.chip.mem o
  holds : GoodCalls addr len st' → ∀ s', InRange addr len s' → s' < s →
    (SectorOk u addr len data st.chip.mem s' ↔
      Holds st'.chip.mem addr data (baseOf addr s') (stopOf addr len s'))

theorem Swept.refl {u : Unset} {addr len : ℕ} {data : ℕ → BitVec 8} {st : State}
    (h : Idle st.chip) : Swept u addr len data st (sectorOf addr) st where
  aligned := by
    unfold sectorOf
    omega
  start := Nat.le_refl _
  good := fun _ hall => hall
  idle := h
  frame := fun _ _ _ => rfl
  holds := by
    intro _ s' hs' hlt
    have h0 := hs'.after
    have h1 := hs'.aligned
    unfold sectorOf at hlt
    omega

/-- **The next sector.** -/
theorem Swept.sector {u : Unset} {addr len : ℕ} {data : ℕ → BitVec 8} {st st' : State} {s : ℕ}
    (verify : Bool) (h : Swept u addr len data st s st') (hs : InRange addr len s) :
    (GoodCalls addr len (sector u addr len data verify s st').1 → GoodCalls addr len st') ∧
    ((∀ s', InRange addr len s' → SectorOk u addr len data st.chip.mem s') →
      GoodCalls addr len st → GoodCalls addr len (sector u addr len data verify s st').1) ∧
    (GoodCalls addr len (sector u addr len data verify s st').1 →
      ∀ o, ¬(sectorOf addr ≤ o + rFlash ∧ o + rFlash < s + 65536) →
        (sector u addr len data verify s st').1.chip.mem o = st.chip.mem o) ∧
    ((sector u addr len data verify s st').2 = .returned true →
      Swept u addr len data st (nextSector s) (sector u addr len data verify s st').1) := by
  have hw := sector_wrote u data verify h.idle hs
  generalize Flash.sector u addr len data verify s st' = r at *
  have hal := h.aligned
  have hstart := h.start
  have hnext : nextSector s = s + 65536 := rfl
  have hgood : (∀ s', InRange addr len s' → SectorOk u addr len data st.chip.mem s') →
      GoodCalls addr len st → GoodCalls addr len r.1 := by
    intro hok hst
    have hst' := h.good hok hst
    apply hw.good _ hst'
    exact (hok s hs).congr hs fun o ho0 ho1 => (h.frame hst' o (by omega)).symm
  have hframe : GoodCalls addr len r.1 →
      ∀ o, ¬(sectorOf addr ≤ o + rFlash ∧ o + rFlash < s + 65536) →
        r.1.chip.mem o = st.chip.mem o := by
    intro hall o ho
    rw [hw.frame hall o (by omega)]
    exact h.frame (hw.kept hall) o (by omega)
  refine ⟨hw.kept, hgood, hframe, ?_⟩
  intro hr
  constructor
  · omega
  · omega
  · exact hgood
  · exact hw.idle
  · rw [hnext]
    exact hframe
  · intro hall s' hs' hlt
    have hst' := hw.kept hall
    have hal' := hs'.aligned
    by_cases heq : s' = s
    · -- this sector
      rw [heq, ← hw.holds hr hall]
      have hagree : Agree s (s + 65536) st'.chip.mem st.chip.mem :=
        fun o ho0 ho1 => h.frame hst' o (by omega)
      exact ⟨fun hok => hok.congr hs hagree.symm, fun hok => hok.congr hs hagree⟩
    · -- one before it, which it leaves alone
      obtain ⟨-, h0, -, -, hstop, -, -⟩ := hs'.base
      rw [h.holds hst' s' hs' (by omega)]
      have hagree : Agree (baseOf addr s') (stopOf addr len s') st'.chip.mem r.1.chip.mem :=
        fun o ho0 ho1 => (hw.frame hall o (by omega)).symm
      exact ⟨fun hh => hh.congr h0 hagree, fun hh => hh.congr h0 hagree.symm⟩

/-- The end of the sector loop. -/
def endOf (addr len : ℕ) : ℕ := sectorOf (addr + len + sectorSzB - 1)

theorem inRange_of_lt {addr len s : ℕ} (hpos : 0 < len) (hlow : rFlash ≤ addr)
    (hhigh : addr + len ≤ rFlash + flashLen) (hal : s % 65536 = 0) (h0 : sectorOf addr ≤ s)
    (h1 : s < endOf addr len) : InRange addr len s := by
  unfold endOf sectorOf sectorSzB nPages szPageB at *
  exact ⟨hpos, hal, by omega, by omega, hlow, hhigh⟩

theorem InRange.lt {addr len s : ℕ} (h : InRange addr len s) :
    sectorOf addr ≤ s ∧ s < endOf addr len := by
  have h0 := h.after
  have h1 := h.before
  have h2 := h.aligned
  unfold endOf sectorOf sectorSzB nPages szPageB
  omega

/-- **The sector loop.** -/
theorem sectors_run (u : Unset) {addr len : ℕ} (data : ℕ → BitVec 8) (verify : Bool) (st : State)
    (h : Idle st.chip) (hpos : 0 < len) (hlow : rFlash ≤ addr)
    (hhigh : addr + len ≤ rFlash + flashLen) :
    Idle (sectors u addr len data verify st).1.chip ∧
    ((∀ s, InRange addr len s → SectorOk u addr len data st.chip.mem s) → GoodCalls addr len st →
      GoodCalls addr len (sectors u addr len data verify st).1) ∧
    (GoodCalls addr len (sectors u addr len data verify st).1 →
      ∀ o, ¬(sectorOf addr ≤ o + rFlash ∧ o + rFlash < endOf addr len) →
        (sectors u addr len data verify st).1.chip.mem o = st.chip.mem o) ∧
    ((sectors u addr len data verify st).2 = .returned true →
      GoodCalls addr len (sectors u addr len data verify st).1 → ∀ s, InRange addr len s →
        (SectorOk u addr len data st.chip.mem s ↔
          Holds (sectors u addr len data verify st).1.chip.mem addr data (baseOf addr s)
            (stopOf addr len s))) ∧
    ((sectors u addr len data verify st).2 ≠ .returned true → ∃ s st', InRange addr len s ∧
      Idle st'.chip ∧ sectors u addr len data verify st = sector u addr len data verify s st') := by
  have hend : endOf addr len % 65536 = 0 := by
    unfold endOf sectorOf
    omega
  have hrule := @loop_rule (sector u addr len data verify) nextSector lt_nextSector (endOf addr len)
    (fun s st' => Swept u addr len data st s st' ∧ s ≤ endOf addr len)
    (fun r => Idle r.1.chip ∧ ((∀ s, InRange addr len s → SectorOk u addr len data st.chip.mem s) →
        GoodCalls addr len st → GoodCalls addr len r.1) ∧
      (GoodCalls addr len r.1 →
        ∀ o, ¬(sectorOf addr ≤ o + rFlash ∧ o + rFlash < endOf addr len) →
          r.1.chip.mem o = st.chip.mem o) ∧
      ∃ s st', InRange addr len s ∧ Idle st'.chip ∧ r = sector u addr len data verify s st')
    (by
      rintro s st' hlt ⟨hswept, -⟩
      have hs := inRange_of_lt hpos hlow hhigh hswept.aligned hswept.start hlt
      have hal := hswept.aligned
      obtain ⟨-, hgood, hframe, hnext⟩ := hswept.sector verify hs
      refine ⟨fun hr => ⟨hnext hr, ?_⟩, fun _ => ⟨(sector_wrote u data verify hswept.idle hs).idle, hgood,
        ?_, s, st', hs, hswept.idle, rfl⟩⟩
      · show s + 65536 ≤ _
        omega
      · exact fun hall o ho => hframe hall o (by omega))
    (sectorOf addr) st ⟨Swept.refl h, by
      unfold endOf sectorOf sectorSzB nPages szPageB
      omega⟩
  rw [← show sectors u addr len data verify st = loop (sector u addr len data verify) nextSector
    lt_nextSector (endOf addr len) (sectorOf addr) st from rfl] at hrule
  by_cases hr : (sectors u addr len data verify st).2 = .returned true
  · obtain ⟨s, hle, hswept, hge⟩ := hrule.1 hr
    rw [show s = endOf addr len by omega] at hswept
    exact ⟨hswept.idle, hswept.good, hswept.frame, fun _ hall s' hs' => hswept.holds hall s' hs' hs'.lt.2,
      fun hno => absurd hr hno⟩
  · obtain ⟨hidle, hgood, hframe, hlast⟩ := hrule.2 hr
    exact ⟨hidle, hgood, hframe, fun hyes => absurd hyes hr, fun _ => hlast⟩

end ZipStormMX.Flash
