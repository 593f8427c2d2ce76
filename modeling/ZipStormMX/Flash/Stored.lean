/-
  Writing to flash stores the data: when it does.

  The values that `write` uses and has never set can be anything.  With the right ones it does all it
  should (`Lucky.stores`); for all of them it does only where there is next to nothing to write
  (`stores_iff`).  The other direction is one choice of bad values: an end of the buffer that differs
  from the data, and lengths that are too short, none, or past the end of the range (`worst`).
-/
import ZipStormMX.Flash.Sectors

namespace ZipStormMX.Flash

open Nor

/-! ## The property -/

/-- The bytes are stored, if `write` returns `true`; it programs within pages and within the range; and
    the other sectors are as they were. -/
structure Stores (u : Unset) (chip : Chip) (addr len : ℕ) (data : ℕ → BitVec 8) (verify : Bool) :
    Prop where
  stored : (write u ⟨chip, []⟩ addr len data verify).2 = .returned true → ∀ i < len,
    (write u ⟨chip, []⟩ addr len data verify).1.chip.mem (addr - rFlash + i) = data i
  calls : ∀ c ∈ (write u ⟨chip, []⟩ addr len data verify).1.calls,
    pageOk c.1 c.2 ∧ addr ≤ c.1 ∧ c.1 + c.2 ≤ addr + len
  frame : ∀ o, (∀ x, addr ≤ x → x < addr + len → sectorOf x ≠ sectorOf (o + rFlash)) →
    (write u ⟨chip, []⟩ addr len data verify).1.chip.mem o = chip.mem o

/-- The end of `write` disables writing. -/
theorem write_eq (u : Unset) {st : State} (addr len : ℕ) (data : ℕ → BitVec 8) (verify : Bool)
    (h : Idle (sectors u addr len data verify st).1.chip) :
    (write u st addr len data verify).2 = (sectors u addr len data verify st).2 ∧
    (write u st addr len data verify).1.calls = (sectors u addr len data verify st).1.calls ∧
    (write u st addr len data verify).1.chip.mem = (sectors u addr len data verify st).1.chip.mem := by
  have hmem : ∀ f : Chip, Idle f → (writeio f [fWrdi, fEnd]).mem = f.mem := by
    rintro ⟨mem, en, command⟩ hidle
    change command = [] at hidle
    subst hidle
    rfl
  unfold write
  generalize sectors u addr len data verify st = r at *
  show (if r.2 = .returned true then _ else _ : State × Outcome).2 = _ ∧
    (if r.2 = .returned true then _ else _ : State × Outcome).1.calls = _ ∧
    (if r.2 = .returned true then _ else _ : State × Outcome).1.chip.mem = _
  split_ifs
  · exact ⟨rfl, rfl, hmem _ h⟩
  · exact ⟨rfl, rfl, rfl⟩

/-- If each sector gets the data, then `write` stores it. -/
theorem stores_of_sectors (u : Unset) {chip : Chip} {addr len : ℕ} {data : ℕ → BitVec 8}
    (verify : Bool) (h : Idle chip) (hpos : 0 < len) (hlow : rFlash ≤ addr)
    (hhigh : addr + len ≤ rFlash + flashLen)
    (hok : ∀ s, InRange addr len s → SectorOk u addr len data chip.mem s) :
    Stores u chip addr len data verify := by
  obtain ⟨hidle, hgood, hframe, hholds, -⟩ :=
    sectors_run u data verify ⟨chip, []⟩ h hpos hlow hhigh
  obtain ⟨hret, hcalls, hmem⟩ := write_eq u addr len data verify hidle
  have hall : GoodCalls addr len (sectors u addr len data verify ⟨chip, []⟩).1 :=
    hgood hok fun c hc => nomatch hc
  constructor
  · intro hr i hi
    rw [hret] at hr
    rw [hmem]
    have hs : InRange addr len (sectorOf (addr + i)) := by
      unfold sectorOf
      exact ⟨hpos, by omega, by omega, by omega, hlow, hhigh⟩
    have hx := (hholds hr hall _ hs).1 (hok _ hs) (addr + i)
      (by unfold baseOf sectorOf; split_ifs <;> omega)
      (by unfold stopOf sectorOf sectorSzB nPages szPageB; omega)
    rwa [show addr + i - rFlash = addr - rFlash + i by omega, Nat.add_sub_cancel_left] at hx
  · rw [hcalls]
    exact hall
  · intro o ho
    rw [hmem]
    apply hframe hall o
    rintro ⟨h0, h1⟩
    have hs : InRange addr len (sectorOf (o + rFlash)) := by
      apply inRange_of_lt hpos hlow hhigh
      · unfold sectorOf
        omega
      · unfold sectorOf at *
        omega
      · unfold sectorOf at *
        omega
    obtain ⟨ha, -, hb, hlt, -, hstop, hb'⟩ := hs.base
    apply ho (baseOf addr (sectorOf (o + rFlash))) ha (by omega)
    unfold sectorOf at *
    omega

/-! ## Where all values will do -/

/-- What is read back for byte `base + i`. -/
def readBack (mem : Mem) (base i : ℕ) : BitVec 8 :=
  mem (4 * (base / 4 + if base % 2 = 1 then 0 else i / 4) - rFlash + i % 4)

theorem readBack_aligned {mem : Mem} {base : ℕ} (h : base % 4 = 0) (h0 : rFlash ≤ base) (i : ℕ) :
    readBack mem base i = mem (base + i - rFlash) := by
  unfold readBack
  rw [if_neg (by omega), show 4 * (base / 4 + i / 4) - rFlash + i % 4 = base + i - rFlash by omega]

/-- The bytes of a word, once swapped, are in the order of the bus. -/
theorem hostByte_byteswap (p : ℕ → BitVec 8) {j : ℕ} (hj : j < 4) :
    hostByte (byteswap (buildword p)) j = p j := by
  have hcase : j = 0 ∨ j = 1 ∨ j = 2 ∨ j = 3 := by
    omega
  unfold hostByte byteswap buildword
  rcases hcase with rfl | rfl | rfl | rfl <;>
  · apply BitVec.eq_of_getLsbD_eq
    intro k hk
    simp
    grind

theorem sbuf_eq {addr len s : ℕ} (hs : InRange addr len s) (u : Unset) (mem : Mem) {i : ℕ}
    (hi : i < (stopOf addr len s - baseOf addr s) / 4 * 4) :
    sbuf u mem s (baseOf addr s) (stopOf addr len s - baseOf addr s) i =
      readBack mem (baseOf addr s) i := by
  obtain ⟨-, h0, -, hlt, -, hstop, -⟩ := hs.base
  have hhigh := hs.high
  have hin : rFlash ≤ 4 * (baseOf addr s / 4 + if baseOf addr s % 2 = 1 then 0 else i / 4) ∧
      4 * (baseOf addr s / 4 + if baseOf addr s % 2 = 1 then 0 else i / 4) < rFlash + flashLen := by
    unfold rFlash at *
    split_ifs <;> omega
  unfold sbuf readi busWord
  rw [if_pos hi, if_pos hin, hostByte_byteswap _ (by omega)]
  rfl

/-- In sector `s` there is next to nothing to write: the flash has the data, and reads back as it;
    or only first bytes of pages differ, and no bit has to be set; or, after an erase, only first bytes
    of pages do. -/
def Harmless (mem : Mem) (addr len : ℕ) (data : ℕ → BitVec 8) (s : ℕ) : Prop :=
  ((stopOf addr len s - baseOf addr s) % 4 = 0 ∧
    Holds mem addr data (baseOf addr s) (stopOf addr len s) ∧
    ∀ i < stopOf addr len s - baseOf addr s,
      readBack mem (baseOf addr s) i = data (baseOf addr s - addr + i)) ∨
  (baseOf addr s % 4 = 0 ∧ stopOf addr len s % 256 = 0 ∧
    ∀ x, baseOf addr s ≤ x → x < stopOf addr len s →
      mem (x - rFlash) &&& data (x - addr) = data (x - addr) ∧
      (x % 256 ≠ 0 → mem (x - rFlash) = data (x - addr))) ∨
  (baseOf addr s % 256 = 0 ∧ stopOf addr len s % 256 = 0 ∧
    ∀ x, baseOf addr s ≤ x → x < stopOf addr len s → x % 256 ≠ 0 → data (x - addr) = 0xff#8)

/-- On a page boundary any value gives a length from 1 to 256. -/
theorem pageLen_aligned (u : Unset) (addr : ℕ) {p : ℕ} (hp : p % 256 = 0) (h0 : rFlash ≤ p)
    (h1 : p < rFlash + flashLen) : 0 < pageLen u addr p ∧ pageLen u addr p ≤ 256 := by
  unfold rFlash flashLen at *
  unfold pageLen pageOf szPageB
  dsimp only
  split_ifs <;> omega

theorem PagesOk.of_aligned (u : Unset) {addr len p0 stop : ℕ} {data : ℕ → BitVec 8} {mem : Mem}
    (ha : addr ≤ p0) (h0 : rFlash ≤ p0) (h1 : stop ≤ addr + len)
    (hhigh : addr + len ≤ rFlash + flashLen) (hp0 : p0 % 256 = 0) (hstop : stop % 256 = 0)
    (hdata : ∀ x, p0 ≤ x → x < stop → mem (x - rFlash) &&& data (x - addr) = data (x - addr) ∧
      (x % 256 ≠ 0 → mem (x - rFlash) = data (x - addr))) :
    PagesOk u addr len data mem p0 stop := by
  have hvis : ∀ q, Visited p0 q → q % 256 = 0 ∧ p0 ≤ q := by
    unfold Visited
    omega
  constructor
  · intro q hq hlt
    obtain ⟨hal, hle⟩ := hvis q hq
    obtain ⟨hpos, hmax⟩ := pageLen_aligned u addr hal (by omega) (by omega)
    have hbig : q + 256 < 2 ^ 32 := by
      unfold rFlash flashLen at hhigh
      omega
    have hok : pageOk q (pageLen u addr q) := by
      rw [pageOk_iff hbig, nextPage_eq]
      omega
    exact .of hok (by omega) (by omega)
  · exact fun x hx0 hx1 => (hdata x hx0 hx1).1
  · intro x hx0 hx1 hle
    obtain ⟨hq, hqx, -⟩ := startOf_visited hx0
    obtain ⟨hal, hp0q⟩ := hvis _ hq
    obtain ⟨hpos, -⟩ := pageLen_aligned u addr hal (by omega) (by omega)
    apply (hdata x hx0 hx1).2
    unfold startOf pageOf at *
    omega

/-- The part of the range in a sector, byte by byte. -/
theorem bufferAt_aligned {addr len s : ℕ} (hs : InRange addr len s) (u : Unset) (mem : Mem)
    (hb : baseOf addr s % 4 = 0) (hln : (stopOf addr len s - baseOf addr s) % 4 = 0) {x : ℕ}
    (h0 : baseOf addr s ≤ x) (h1 : x < stopOf addr len s) :
    bufferAt u mem addr len s x = mem (x - rFlash) := by
  unfold bufferAt
  rw [sbuf_eq hs u mem (by omega), readBack_aligned hb hs.base.2.1,
    show baseOf addr s + (x - baseOf addr s) = x by omega]

/-- Only first bytes of pages differ, and no bit has to be set. -/
theorem sectorOk_of_firsts {addr len s : ℕ} (hs : InRange addr len s) (u : Unset) {mem : Mem}
    {data : ℕ → BitVec 8} (hb : baseOf addr s % 4 = 0) (hstop : stopOf addr len s % 256 = 0)
    (hdata : ∀ x, baseOf addr s ≤ x → x < stopOf addr len s →
      mem (x - rFlash) &&& data (x - addr) = data (x - addr) ∧
      (x % 256 ≠ 0 → mem (x - rFlash) = data (x - addr))) :
    SectorOk u addr len data mem s := by
  obtain ⟨ha, h0, -, hlt, -, hle, -⟩ := hs.base
  have hbuf : ∀ x, baseOf addr s ≤ x → x < stopOf addr len s →
      bufferAt u mem addr len s x = mem (x - rFlash) :=
    fun x hx0 hx1 => bufferAt_aligned hs u mem hb (by omega) hx0 hx1
  rcases hs.found_at u mem data with ⟨hf, hall⟩ | ⟨y, hy0, hy1, hf, hdiff, hbefore, -⟩ |
    ⟨y, hy0, hy1, -, hset⟩
  · apply SectorOk.of_same hf
    intro x hx0 hx1
    rw [← hbuf x hx0 hx1]
    exact hall x hx0 hx1
  · -- the first difference is at the first byte of a page
    have hy256 : y % 256 = 0 := by
      by_contra hno
      rw [hbuf y hy0 hy1] at hdiff
      exact hdiff ((hdata y hy0 hy1).2 hno)
    rw [show y - (y - baseOf addr s) % 4 = y by omega] at hf
    apply SectorOk.of_differs hf (by unfold rFlash at h0; omega)
    · intro x hx0 hx1
      rw [← hbuf x hx0 (by omega)]
      exact hbefore x hx0 hx1
    · exact .of_aligned u (by omega) (by omega) hle hs.high hy256 hstop
        fun x hx0 hx1 => hdata x (by omega) hx1
  · rw [hbuf y hy0 hy1] at hset
    exact absurd (hdata y hy0 hy1).1 hset

theorem erase_at {mem : Mem} {s x : ℕ} (hs : s % 65536 = 0) (h0 : rFlash ≤ s) (hx0 : s ≤ x)
    (hx1 : x < s + 65536) : erase mem (s - rFlash) (x - rFlash) = 0xff#8 := by
  unfold erase rFlash at *
  rw [if_pos (by omega)]

/-- **Harmless sectors get the data**, whatever the values. -/
theorem Harmless.sectorOk {addr len s : ℕ} {data : ℕ → BitVec 8} {mem : Mem}
    (h : Harmless mem addr len data s) (hs : InRange addr len s) (u : Unset) :
    SectorOk u addr len data mem s := by
  obtain ⟨ha, h0, hsb, hlt, hstop', hle, -⟩ := hs.base
  rcases h with ⟨hln, hholds, hback⟩ | ⟨hb, hstop, hdata⟩ | ⟨hb, hstop, hones⟩
  · -- nothing differs
    have hbuf : ∀ x, baseOf addr s ≤ x → x < stopOf addr len s →
        bufferAt u mem addr len s x = data (x - addr) := by
      intro x hx0 hx1
      unfold bufferAt
      rw [sbuf_eq hs u mem (by omega), hback _ (by omega),
        show baseOf addr s - addr + (x - baseOf addr s) = x - addr by omega]
    rcases hs.found_at u mem data with ⟨hf, -⟩ | ⟨y, hy0, hy1, -, hdiff, -⟩ | ⟨y, hy0, hy1, -, hset⟩
    · exact .of_same hf hholds
    · exact absurd (hbuf y hy0 hy1) hdiff
    · rw [hbuf y hy0 hy1, BitVec.and_self] at hset
      exact absurd rfl hset
  · exact sectorOk_of_firsts hs u hb hstop hdata
  · -- all ones but for the first bytes
    have hbuf : ∀ x, baseOf addr s ≤ x → x < stopOf addr len s →
        bufferAt u mem addr len s x = mem (x - rFlash) :=
      fun x hx0 hx1 => bufferAt_aligned hs u mem (by omega) (by omega) hx0 hx1
    have hclears : (∀ x, baseOf addr s ≤ x → x < stopOf addr len s →
        mem (x - rFlash) &&& data (x - addr) = data (x - addr)) →
        SectorOk u addr len data mem s := by
      intro hand
      apply sectorOk_of_firsts hs u (by omega) hstop
      intro x hx0 hx1
      refine ⟨hand x hx0 hx1, ?_⟩
      intro hne
      have h := hand x hx0 hx1
      rw [hones x hx0 hx1 hne] at h ⊢
      exact (BitVec.and_allOnes (x := mem (x - rFlash))).symm.trans h
    rcases hs.found_at u mem data with ⟨-, hall⟩ | ⟨y, hy0, hy1, -, -, -, hall⟩ | ⟨y, hy0, hy1, hf, -⟩
    · apply hclears
      intro x hx0 hx1
      rw [← hall x hx0 hx1, hbuf x hx0 hx1, BitVec.and_self]
    · apply hclears
      intro x hx0 hx1
      rw [← hbuf x hx0 hx1]
      exact hall x hx0 hx1
    · apply SectorOk.of_erased hf (by unfold rFlash at h0; omega)
      apply PagesOk.of_aligned u ha h0 hle hs.high hb hstop
      intro x hx0 hx1
      rw [erase_at hs.aligned hs.low' (by omega) (by omega)]
      refine ⟨?_, ?_⟩
      · exact BitVec.allOnes_and
      · exact fun hne => (hones x hx0 hx1 hne).symm

/-! ## The worst values -/

/-- The length at page `p`: nothing off a page boundary, a page when that is too long, a byte otherwise. -/
def worstLen (addr len p : ℕ) : ℕ :=
  if p % 256 ≠ 0 then 0 else if p + 256 ≤ addr + len then 1 else 256

/-- The end of the buffer differs from the data, and the rest of the bus looks erased. -/
def worst (addr len : ℕ) (data : ℕ → BitVec 8) : Unset where
  sbuf := fun s i => ~~~data (baseOf addr s - addr + i)
  len := fun p => BitVec.ofNat 32 (p + worstLen addr len p - addr)
  other := fun _ => 0xffffffff#32
  polls := 0

theorem pageLen_worst {addr len p : ℕ} (data : ℕ → BitVec 8) (ha : addr ≤ p) (h0 : rFlash ≤ p)
    (h1 : p < rFlash + flashLen) : pageLen (worst addr len data) addr p = worstLen addr len p := by
  have hval : ((worst addr len data).len p).toNat = p + worstLen addr len p - addr := by
    show (BitVec.ofNat 32 (p + worstLen addr len p - addr)).toNat = _
    rw [BitVec.toNat_ofNat]
    apply Nat.mod_eq_of_lt
    unfold worstLen rFlash flashLen at *
    split_ifs <;> omega
  unfold pageLen
  rw [hval]
  unfold rFlash flashLen at *
  unfold worstLen pageOf szPageB
  dsimp only
  split_ifs <;> omega

/-- With the worst lengths the page loop leaves the data only if there is a byte a page to write. -/
theorem pagesOk_worst {addr len s p0 : ℕ} {data : ℕ → BitVec 8} {mem : Mem}
    (hs : InRange addr len s) (h0 : baseOf addr s ≤ p0) (h1 : p0 < stopOf addr len s)
    (h : PagesOk (worst addr len data) addr len data mem p0 (stopOf addr len s)) :
    p0 % 256 = 0 ∧ stopOf addr len s % 256 = 0 ∧
    ∀ x, p0 ≤ x → x < stopOf addr len s → x % 256 ≠ 0 → mem (x - rFlash) = data (x - addr) := by
  obtain ⟨ha, hlow, -, -, -, hle, -⟩ := hs.base
  have hhigh := hs.high
  have hal := hs.aligned
  have hlen : ∀ q, Visited p0 q → q < stopOf addr len s → q % 256 = 0 ∧ q + 256 ≤ addr + len ∧
      pageLen (worst addr len data) addr q = 1 := by
    intro q hq hlt
    have hq0 : p0 ≤ q := by
      unfold Visited at hq
      omega
    have hgood := h.good q hq hlt
    have hbig : q + 256 < 2 ^ 32 := by
      unfold rFlash flashLen at hhigh
      omega
    have hpos := ((pageOk_iff hbig).1 hgood.ok).1
    have hin := hgood.inRange.2
    rw [pageLen_worst data (by omega) (by omega) (by omega)] at hpos hin ⊢
    unfold worstLen at *
    split_ifs at * <;> omega
  have hfirst := (hlen p0 (Or.inl rfl) h1).1
  have hat : ∀ x, p0 ≤ x → x < stopOf addr len s → startOf p0 x = x - x % 256 := by
    intro x hx0 hx1
    unfold startOf pageOf
    omega
  refine ⟨hfirst, ?_, ?_⟩
  · obtain ⟨hvis, hle', -⟩ := startOf_visited (show p0 ≤ stopOf addr len s - 1 by omega)
    have hlast := hlen _ hvis (by omega)
    rw [hat _ (by omega) (by omega)] at hlast
    unfold stopOf sectorSzB nPages szPageB at *
    omega
  · intro x hx0 hx1 hne
    obtain ⟨hvis, hle', -⟩ := startOf_visited hx0
    apply h.rest x hx0 hx1
    rw [(hlen _ hvis (by omega)).2.2, hat x hx0 hx1]
    omega

/-- With the worst end of the buffer the comparison sees a difference there. -/
theorem bufferAt_worst {addr len s x : ℕ} (data : ℕ → BitVec 8) (mem : Mem)
    (ha : addr ≤ baseOf addr s) (h0 : baseOf addr s ≤ x)
    (h1 : (stopOf addr len s - baseOf addr s) / 4 * 4 ≤ x - baseOf addr s) :
    bufferAt (worst addr len data) mem addr len s x ≠ data (x - addr) := by
  unfold bufferAt sbuf
  rw [if_neg (by omega)]
  show ~~~data (baseOf addr s - addr + (x - baseOf addr s)) ≠ _
  rw [show baseOf addr s - addr + (x - baseOf addr s) = x - addr by omega]
  intro h
  have h7 := congrArg (BitVec.getLsbD · 7) h
  simp at h7

/-- **Only harmless sectors get the data** with the worst values. -/
theorem harmless_of_worst {addr len s : ℕ} {data : ℕ → BitVec 8} {mem : Mem}
    (hs : InRange addr len s) (h : SectorOk (worst addr len data) addr len data mem s) :
    Harmless mem addr len data s := by
  obtain ⟨ha, h0, hsb, hlt, hstop', hle, -⟩ := hs.base
  have hplace : ∀ y, baseOf addr s ≤ y → y < stopOf addr len s →
      y - (y - baseOf addr s) % 4 ≠ 0 ∧ baseOf addr s ≤ y - (y - baseOf addr s) % 4 ∧
      y - (y - baseOf addr s) % 4 < stopOf addr len s := by
    unfold rFlash at h0
    omega
  rcases hs.found_at (worst addr len data) mem data with
    ⟨hf, hall⟩ | ⟨y, hy0, hy1, hf, -, hbefore, hand⟩ | ⟨y, hy0, hy1, hf, -⟩
  · refine Or.inl ⟨?_, h.same (by rw [hf]), ?_⟩
    · by_contra hln
      exact bufferAt_worst data mem ha (by omega) (by omega)
        (hall (stopOf addr len s - 1) (by omega) (by omega))
    · intro i hi
      have hln : (stopOf addr len s - baseOf addr s) % 4 = 0 := by
        by_contra hln
        exact bufferAt_worst data mem ha (by omega) (by omega)
          (hall (stopOf addr len s - 1) (by omega) (by omega))
      have hx := hall (baseOf addr s + i) (by omega) (by omega)
      unfold bufferAt at hx
      rwa [Nat.add_sub_cancel_left, sbuf_eq hs _ mem (by omega),
        show baseOf addr s + i - addr = baseOf addr s - addr + i by omega] at hx
  · obtain ⟨hne, hn0, hn1⟩ := hplace y hy0 hy1
    obtain ⟨hholds, hpages⟩ := h.differs (by rw [hf]; exact hne) (by rw [hf])
    rw [hf] at hholds hpages
    obtain ⟨hfirst, hstop, hrest⟩ := pagesOk_worst hs hn0 hn1 hpages
    change (y - (y - baseOf addr s) % 4) % 256 = 0 at hfirst
    have hb : baseOf addr s % 4 = 0 := by
      omega
    refine Or.inr (Or.inl ⟨hb, hstop, ?_⟩)
    intro x hx0 hx1
    constructor
    · rw [← bufferAt_aligned hs (worst addr len data) mem hb (by omega) hx0 hx1]
      exact hand x hx0 hx1
    · intro hxne
      by_cases hx : x < y - (y - baseOf addr s) % 4
      · exact hholds x hx0 hx
      · exact hrest x (Nat.le_of_not_lt hx) hx1 hxne
  · have hne := (hplace y hy0 hy1).1
    obtain ⟨hfirst, hstop, hrest⟩ :=
      pagesOk_worst hs (Nat.le_refl _) hlt (h.erased (by rw [hf]; exact hne) (by rw [hf]))
    refine Or.inr (Or.inr ⟨hfirst, hstop, ?_⟩)
    intro x hx0 hx1 hxne
    rw [← hrest x hx0 hx1 hxne]
    exact erase_at hs.aligned hs.low' (by omega) (by omega)

/-- The verification of an erase looks outside the flash, and sees what it likes there. -/
theorem eraseSector_worst {addr len s : ℕ} (data : ℕ → BitVec 8) (verify : Bool) (f : Chip)
    (hs : InRange addr len s) : (eraseSector (worst addr len data) f s verify).2 = true := by
  have h0 := hs.low'
  have h1 := hs.before
  have h2 := hs.high
  have hones : ∀ f' i j, readi (worst addr len data) f'
      (rFlash + s % 2 ^ 24 + i * szPageB) j = 0xffffffff#32 := by
    intro f' i j
    unfold readi busWord
    rw [if_neg]
    · rfl
    · unfold rFlash flashLen szPageB at *
      split_ifs <;> omega
  unfold eraseSector
  simp only [hones, beq_self_eq_true, List.all_eq_true, Bool.or_eq_true]
  exact Or.inr fun _ _ _ _ => trivial

/-- There is nothing to verify in less than a word. -/
theorem pageProgram_short (u : Unset) (st : State) {addr len : ℕ} (data : ℕ → BitVec 8)
    (verify : Bool) (hok : pageOk addr len) (hlen : len / 4 = 0) :
    (pageProgram u st addr len data verify).2 = .returned true := by
  unfold pageProgram
  rw [if_neg (not_not.2 hok)]
  simp only [hlen, List.range_zero, List.all_nil, Bool.or_true]

/-- A page that does not return `true` has a call that is not good. -/
theorem page_worst {addr len p : ℕ} {data : ℕ → BitVec 8} {verify : Bool} {st : State}
    (ha : addr ≤ p) (h0 : rFlash ≤ p) (h1 : p < rFlash + flashLen)
    (hr : (page (worst addr len data) addr data verify p st).2 ≠ .returned true) :
    ¬GoodCalls addr len (page (worst addr len data) addr data verify p st).1 := by
  intro hall
  have hcall : Good addr len (p, worstLen addr len p) := by
    apply hall
    unfold page
    rw [pageProgram_calls, pageLen_worst data ha h0 h1]
    exact List.mem_append_right _ (List.mem_singleton.2 rfl)
  have hbig : p + 256 < 2 ^ 32 := by
    unfold rFlash flashLen at h1
    omega
  have hok := hcall.ok
  have hpos := ((pageOk_iff hbig).1 hok).1
  have hin := hcall.inRange.2
  have hone : worstLen addr len p = 1 := by
    unfold worstLen at *
    split_ifs at * <;> omega
  apply hr
  unfold page
  rw [pageLen_worst data ha h0 h1]
  exact pageProgram_short _ st _ verify hok (by omega)

/-- **With the worst values** `write` stores the data only if each sector gets it. -/
theorem sectors_of_worst {addr len : ℕ} {chip : Chip} {data : ℕ → BitVec 8} {verify : Bool}
    (h : Idle chip) (hpos : 0 < len) (hlow : rFlash ≤ addr)
    (hhigh : addr + len ≤ rFlash + flashLen)
    (hst : Stores (worst addr len data) chip addr len data verify) :
    ∀ s, InRange addr len s → SectorOk (worst addr len data) addr len data chip.mem s := by
  obtain ⟨hidle, -, -, hholds, hlast⟩ :=
    sectors_run (worst addr len data) data verify ⟨chip, []⟩ h hpos hlow hhigh
  obtain ⟨hret, hcalls, hmem⟩ := write_eq (worst addr len data) addr len data verify hidle
  have hall : GoodCalls addr len (sectors (worst addr len data) addr len data verify ⟨chip, []⟩).1 := by
    intro c hc
    exact hst.calls c (by rwa [hcalls])
  have hr : (sectors (worst addr len data) addr len data verify ⟨chip, []⟩).2 = .returned true := by
    by_contra hno
    obtain ⟨s, st', hs, hidle', heq⟩ := hlast hno
    rw [heq] at hno hall
    rcases sector_failed _ data verify st' hidle' hs hno with herase | ⟨p, st'', hp0, hp1, hpage⟩
    · rw [eraseSector_worst data verify st'.chip hs] at herase
      exact nomatch herase
    · rw [hpage] at hno hall
      exact page_worst hp0 (by omega) (by omega) hno hall
  intro s hs
  rw [hholds hr hall s hs]
  obtain ⟨ha, h0, -, -, -, hle, -⟩ := hs.base
  intro x hx0 hx1
  have hx := hst.stored (by rwa [hret]) (x - addr) (by omega)
  rwa [hmem, show addr - rFlash + (x - addr) = x - rFlash by omega] at hx

/-- **Writing to flash stores the data, whatever the values that are never set, exactly when each
    sector of the range is harmless.** -/
theorem stores_iff {addr len : ℕ} {chip : Chip} (data : ℕ → BitVec 8) (verify : Bool)
    (h : chip.command = []) (hpos : 1 ≤ len) (hlow : rFlash ≤ addr)
    (hhigh : addr + len ≤ rFlash + flashLen) :
    (∀ u, Stores u chip addr len data verify) ↔
      ∀ s, InRange addr len s → Harmless chip.mem addr len data s := by
  constructor
  · intro hall s hs
    exact harmless_of_worst hs (sectors_of_worst h hpos hlow hhigh (hall _) s hs)
  · intro hall u
    exact stores_of_sectors u verify h hpos hlow hhigh fun s hs => (hall s hs).sectorOk hs u

/-- A byte on a page boundary. -/
theorem stores_firstByte :
    Stores ⟨fun _ _ => 0, fun _ => 0, fun _ => 0, 0⟩ ⟨fun _ => 0xff#8, false, []⟩ rFlash 256
      (fun i => if i = 0 then 0#8 else 0xff#8) true := by
  apply (stores_iff _ true rfl (by decide) (Nat.le_refl _) (by decide)).2
  intro s hs
  have hsector : s = rFlash := by
    obtain ⟨-, hal, h0, h1, -, -⟩ := hs
    unfold rFlash at *
    omega
  subst hsector
  have hstop : stopOf rFlash 256 rFlash = rFlash + 256 := by
    decide
  have hbase : baseOf rFlash rFlash = rFlash := by
    decide
  refine Or.inr (Or.inl ⟨by decide, by decide, ?_⟩)
  rw [hstop, hbase]
  intro x hx0 hx1
  constructor
  · show 0xff#8 &&& (if x - rFlash = 0 then 0#8 else 0xff#8) = _
    exact BitVec.allOnes_and
  · intro hne
    show 0xff#8 = if x - rFlash = 0 then 0#8 else 0xff#8
    rw [if_neg]
    unfold rFlash at *
    omega

/-- Two words, and the length of the rest of the page. -/
theorem stores_pastTheEnd :
    ¬Stores (worst rFlash 8 fun _ => 0#8) ⟨fun _ => 0xff#8, false, []⟩ rFlash 8 (fun _ => 0#8)
      false := by
  intro h
  have hs : InRange rFlash 8 rFlash :=
    ⟨by decide, by decide, by decide, by decide, by decide, by decide⟩
  have hstop : stopOf rFlash 8 rFlash % 256 = 8 := by
    decide
  have hok := sectors_of_worst (by exact rfl) (by decide) (by decide) (by decide) h rFlash hs
  rcases harmless_of_worst hs hok with ⟨-, hholds, -⟩ | ⟨-, hno, -⟩ | ⟨-, hno, -⟩
  · exact absurd (hholds rFlash (by decide) (by decide)) (by decide)
  · omega
  · omega

/-! ## The values that were meant -/

/-- The values are right: the end of the buffer is what is in the flash, the inner `len` holds the outer
    one, and the words are read from where they are. -/
structure Lucky (u : Unset) (mem : Mem) (addr len : ℕ) : Prop where
  word : addr % 4 = 0
  tail : ∀ s, InRange addr len s → ∀ i < stopOf addr len s - baseOf addr s,
    (stopOf addr len s - baseOf addr s) / 4 * 4 ≤ i → u.sbuf s i = mem (baseOf addr s + i - rFlash)
  len : ∀ p, addr ≤ p → p < addr + len → (u.len p).toNat = len

theorem Lucky.pageLen_eq {u : Unset} {mem : Mem} {addr len p : ℕ} (h : Lucky u mem addr len)
    (hhigh : addr + len ≤ rFlash + flashLen) (h0 : addr ≤ p) (h1 : p < addr + len) :
    pageLen u addr p = min (nextPage p) (addr + len) - p := by
  unfold pageLen
  rw [h.len p h0 h1, nextPage_eq]
  unfold rFlash flashLen at hhigh
  unfold pageOf szPageB
  dsimp only
  split_ifs <;> omega

theorem Lucky.pagesOk {u : Unset} {mem mem' : Mem} {addr len s p0 : ℕ} {data : ℕ → BitVec 8}
    (h : Lucky u mem addr len) (hs : InRange addr len s) (h0 : baseOf addr s ≤ p0)
    (hdata : ∀ x, p0 ≤ x → x < stopOf addr len s →
      mem' (x - rFlash) &&& data (x - addr) = data (x - addr)) :
    PagesOk u addr len data mem' p0 (stopOf addr len s) := by
  obtain ⟨ha, hlow, -, -, -, hle, -⟩ := hs.base
  have hhigh := hs.high
  have hlen : ∀ q, Visited p0 q → q < stopOf addr len s →
      pageLen u addr q = min (nextPage q) (addr + len) - q ∧ addr ≤ q := by
    intro q hq hlt
    have hq0 : addr ≤ q := by
      unfold Visited at hq
      omega
    exact ⟨h.pageLen_eq hhigh hq0 (by omega), hq0⟩
  refine ⟨?_, hdata, ?_⟩
  · intro q hq hlt
    obtain ⟨heq, hq0⟩ := hlen q hq hlt
    have hnext := lt_nextPage q
    have hok : pageOk q (pageLen u addr q) := by
      rw [pageOk_iff (by unfold rFlash flashLen at hhigh; omega)]
      omega
    exact .of hok hq0 (by omega)
  · intro x hx0 hx1 hover
    obtain ⟨hq, hqx, hnext⟩ := startOf_visited hx0
    obtain ⟨heq, -⟩ := hlen _ hq (by omega)
    omega

/-- **With the right values** `write` stores the data, anywhere in the flash. -/
theorem Lucky.stores {u : Unset} {chip : Chip} {addr len : ℕ} (data : ℕ → BitVec 8) (verify : Bool)
    (hu : Lucky u chip.mem addr len) (h : chip.command = []) (hpos : 1 ≤ len) (hlow : rFlash ≤ addr)
    (hhigh : addr + len ≤ rFlash + flashLen) : Stores u chip addr len data verify := by
  apply stores_of_sectors u verify h hpos hlow hhigh
  intro s hs
  obtain ⟨ha, h0, hsb, hlt, hstop, hle, -⟩ := hs.base
  have hal : baseOf addr s % 4 = 0 := by
    have hw := hu.word
    have hs4 := hs.aligned
    unfold baseOf
    split_ifs <;> omega
  have hbuf : ∀ x, baseOf addr s ≤ x → x < stopOf addr len s →
      bufferAt u chip.mem addr len s x = chip.mem (x - rFlash) := by
    intro x hx0 hx1
    have hx : baseOf addr s + (x - baseOf addr s) - rFlash = x - rFlash := by
      omega
    unfold bufferAt
    by_cases hin : x - baseOf addr s < (stopOf addr len s - baseOf addr s) / 4 * 4
    · rw [sbuf_eq hs u chip.mem hin, readBack_aligned hal h0, hx]
    · unfold sbuf
      rw [if_neg hin, hu.tail s hs _ (by omega) (by omega), hx]
  rcases hs.found_at u chip.mem data with ⟨hf, hall⟩ | ⟨y, hy0, hy1, hf, -, hbefore, hand⟩ |
    ⟨y, hy0, hy1, hf, -⟩
  · apply SectorOk.of_same hf
    intro x hx0 hx1
    rw [← hbuf x hx0 hx1]
    exact hall x hx0 hx1
  · apply SectorOk.of_differs hf (by unfold rFlash at h0; omega)
    · intro x hx0 hx1
      rw [← hbuf x hx0 (by omega)]
      exact hbefore x hx0 (by omega)
    · apply hu.pagesOk hs (by omega)
      intro x hx0 hx1
      rw [← hbuf x (by omega) hx1]
      exact hand x (by omega) hx1
  · apply SectorOk.of_erased hf (by unfold rFlash at h0; omega)
    apply hu.pagesOk hs (Nat.le_refl _)
    intro x hx0 hx1
    rw [erase_at hs.aligned hs.low' (by omega) (by omega)]
    exact BitVec.allOnes_and

end ZipStormMX.Flash
