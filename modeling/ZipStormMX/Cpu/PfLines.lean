/-
  The lines of `pfcache`, and how they are filled.

  A word address is a line and a place in the line, and a line is an index into the cache and a tag.
  `Audit` watches the ports, as `Watch` does for `prefetch`, and keeps the failed fetches until the
  cache is cleared.

  `Lines` is what holds of the memories: a line that is marked valid holds the words of the memory
  under its tag.  It is carried by `Filling`: during a fill the line is not marked, the words below
  `wraddr` are in place, and the requests under way are those from `wraddr` up to `o_wb_addr`, so that
  each acknowledgement brings the word that belongs at `wraddr`.
-/
import ZipStormMX.Cpu.Delivery
import ZipStormMX.Cpu.Pfcache

namespace ZipStormMX.Cpu

/-! ## The observer -/

/-- What the ports have shown so far.  `failed` are the fetches that have failed since the cache was
    last cleared, and `reported` says that the CPU has taken an error since the last jump. -/
structure Audit (AW : ℕ) extends Watch AW where
  reported : Bool

namespace Audit

variable {AW : ℕ}

/-- Before anything has happened. -/
def empty : Audit AW := { Watch.empty with reported := false }

variable (w : Audit AW) (i : FetchIn AW) (o : FetchOut AW)

/-- The CPU takes what is shown. -/
def given : Bool := o.oValid && i.iStallN

def nextDue : Option (BitVec (AW + 2)) :=
  if i.iNewPc then some i.iPc
  else if i.iReset then none
  else if given i o then w.due.map (· + 4)
  else w.due

def nextFailed : List (BitVec AW) :=
  if i.iReset || i.iClearCache then []
  else if o.oWbCyc && i.iWbErr then (Watch.flying w.toWatch i o).take 1 ++ w.failed
  else w.failed

def nextReported : Bool :=
  if i.iNewPc || i.iReset then false else w.reported || (given i o && o.oIllegal)

def step : Audit AW :=
  { due := nextDue w i o, asked := Watch.nextAsked w.toWatch i o, failed := nextFailed w i o,
    reported := nextReported w i o }

/-- What the observer has seen before clock `n`. -/
def seen (i : ℕ → FetchIn AW) (o : ℕ → FetchOut AW) : ℕ → Audit AW
  | 0 => empty
  | n + 1 => step (seen i o n) (i n) (o n)

end Audit

namespace Pfcache

variable {AW CW LGLINES : ℕ}

/-! ## Addresses -/

/-- The line of a word address. -/
def lineAt (CW LGLINES : ℕ) (a : BitVec AW) : BitVec (AW - (CW - LGLINES)) :=
  a.extractLsb' (CW - LGLINES) (AW - (CW - LGLINES))

/-- Where in its line a word is. -/
def placeAt {w : ℕ} (LS : ℕ) (a : BitVec w) : ℕ := a.toNat % 2 ^ LS

/-- The index of the line of a word address, and its tag. -/
def indexAt (CW : ℕ) {LGLINES : ℕ} (a : BitVec AW) : BitVec LGLINES :=
  a.extractLsb' (CW - LGLINES) LGLINES

def tagAt (CW : ℕ) (a : BitVec AW) : BitVec (AW - CW) := a.extractLsb' CW (AW - CW)

/-- Where in the cache a word goes. -/
def cellAt (CW : ℕ) (a : BitVec AW) : BitVec CW := a.extractLsb' 0 CW

theorem lineIndex_eq (hCW : CW ≤ AW) (hLS : LGLINES < CW) (pc : BitVec (AW + 2)) :
    lineIndex AW CW pc = (indexAt CW (wordOf pc) : BitVec LGLINES) := by
  apply BitVec.eq_of_getLsbD_eq
  intro k hk
  simp only [lineIndex, indexAt, wordOf, BitVec.getLsbD_extractLsb', hk, decide_true, Bool.true_and]
  rw [decide_eq_true (by omega), Bool.true_and]
  congr 1
  omega

theorem tagOf_eq (hCW : CW ≤ AW) (pc : BitVec (AW + 2)) : tagOf CW pc = tagAt CW (wordOf pc) := by
  apply BitVec.eq_of_getLsbD_eq
  intro k hk
  simp only [tagOf, tagAt, wordOf, BitVec.getLsbD_extractLsb', hk, decide_true, Bool.true_and]
  rw [decide_eq_true (by omega), Bool.true_and]
  congr 1
  omega

theorem lineOf_eq (pc : BitVec (AW + 2)) :
    lineOf CW LGLINES pc = lineAt CW LGLINES (wordOf pc) := by
  apply BitVec.eq_of_getLsbD_eq
  intro k hk
  simp only [lineOf, lineAt, wordOf, BitVec.getLsbD_extractLsb', hk, decide_true, Bool.true_and]
  rw [decide_eq_true (by omega), Bool.true_and]
  congr 1
  omega

theorem cell_eq (hCW : CW ≤ AW) (pc : BitVec (AW + 2)) : pc.extractLsb' 2 CW = cellAt CW (wordOf pc) := by
  apply BitVec.eq_of_getLsbD_eq
  intro k hk
  simp only [cellAt, wordOf, BitVec.getLsbD_extractLsb', hk, decide_true, Bool.true_and]
  rw [decide_eq_true (by omega), Bool.true_and]
  congr 1
  omega

/-- A line is its index and its tag. -/
theorem lineAt_eq_iff (hCW : CW ≤ AW) (hLS : LGLINES < CW) (a b : BitVec AW) :
    lineAt CW LGLINES a = lineAt CW LGLINES b ↔
      (indexAt CW a : BitVec LGLINES) = indexAt CW b ∧ tagAt CW a = tagAt CW b := by
  constructor
  · intro h
    have hbit : ∀ k, k < AW - (CW - LGLINES) →
        a.getLsbD (CW - LGLINES + k) = b.getLsbD (CW - LGLINES + k) := fun k hk => by
      have := congrArg (fun v => v.getLsbD k) h
      simpa [lineAt, BitVec.getLsbD_extractLsb', hk] using this
    constructor
    · apply BitVec.eq_of_getLsbD_eq
      intro k hk
      simp only [indexAt, BitVec.getLsbD_extractLsb', hk, decide_true, Bool.true_and]
      exact hbit k (by omega)
    · apply BitVec.eq_of_getLsbD_eq
      intro k hk
      simp only [tagAt, BitVec.getLsbD_extractLsb', hk, decide_true, Bool.true_and]
      have := hbit (LGLINES + k) (by omega)
      rwa [show CW - LGLINES + (LGLINES + k) = CW + k by omega] at this
  · rintro ⟨hi, ht⟩
    apply BitVec.eq_of_getLsbD_eq
    intro k hk
    simp only [lineAt, BitVec.getLsbD_extractLsb', hk, decide_true, Bool.true_and]
    by_cases hlow : k < LGLINES
    · have := congrArg (fun v => v.getLsbD k) hi
      simpa [indexAt, BitVec.getLsbD_extractLsb', hlow] using this
    · have := congrArg (fun v => v.getLsbD (k - LGLINES)) ht
      simp only [tagAt, BitVec.getLsbD_extractLsb'] at this
      rw [decide_eq_true (by omega), Bool.true_and, Bool.true_and,
        show CW + (k - LGLINES) = CW - LGLINES + k by omega] at this
      exact this

theorem indexAt_cell (hLS : LGLINES < CW) (a : BitVec AW) :
    (cellAt CW a).extractLsb' (CW - LGLINES) LGLINES = indexAt CW a := by
  apply BitVec.eq_of_getLsbD_eq
  intro k hk
  simp only [cellAt, indexAt, BitVec.getLsbD_extractLsb', hk, decide_true, Bool.true_and]
  rw [decide_eq_true (by omega), Bool.true_and, Nat.zero_add]

theorem placeAt_cell {LS : ℕ} (hLS : LS ≤ CW) (a : BitVec AW) :
    placeAt LS (cellAt CW a) = placeAt LS a := by
  unfold placeAt cellAt
  rw [BitVec.extractLsb'_toNat, Nat.shiftRight_zero, Nat.mod_mod_of_dvd _ (Nat.pow_dvd_pow 2 hLS)]

/-- The line and the place say which word it is. -/
theorem eq_of_line_place {a b : BitVec AW} (hl : lineAt CW LGLINES a = lineAt CW LGLINES b)
    (hp : placeAt (CW - LGLINES) a = placeAt (CW - LGLINES) b) : a = b := by
  have hline : ∀ x : BitVec AW, (lineAt CW LGLINES x).toNat = x.toNat / 2 ^ (CW - LGLINES) := by
    intro x
    unfold lineAt
    rw [BitVec.extractLsb'_toNat, Nat.shiftRight_eq_div_pow]
    apply Nat.mod_eq_of_lt
    have hx := x.isLt
    by_cases hle : CW - LGLINES ≤ AW
    · rw [Nat.div_lt_iff_lt_mul (Nat.two_pow_pos _), ← Nat.pow_add]
      rwa [Nat.sub_add_cancel hle]
    · have hlt : x.toNat < 2 ^ (CW - LGLINES) :=
        Nat.lt_of_lt_of_le hx (Nat.pow_le_pow_right (by decide) (by omega))
      rw [Nat.div_eq_of_lt hlt]
      exact Nat.two_pow_pos _
  have hdiv := congrArg BitVec.toNat hl
  rw [hline, hline] at hdiv
  apply BitVec.eq_of_toNat_eq
  calc a.toNat = 2 ^ (CW - LGLINES) * (a.toNat / 2 ^ (CW - LGLINES)) +
        a.toNat % 2 ^ (CW - LGLINES) := (Nat.div_add_mod _ _).symm
    _ = 2 ^ (CW - LGLINES) * (b.toNat / 2 ^ (CW - LGLINES)) + b.toNat % 2 ^ (CW - LGLINES) := by
      rw [hdiv]
      exact congrArg _ hp
    _ = b.toNat := Nat.div_add_mod _ _

theorem placeAt_lt {w : ℕ} (LS : ℕ) (a : BitVec w) : placeAt LS a < 2 ^ LS :=
  Nat.mod_lt _ (Nat.two_pow_pos LS)

/-- The cell says which place it is, and which index. -/
theorem cell_eq_iff (hLS : LGLINES < CW) (a : BitVec AW) (c : BitVec CW)
    (hi : (indexAt CW a : BitVec LGLINES) = c.extractLsb' (CW - LGLINES) LGLINES) :
    cellAt CW a = c ↔ placeAt (CW - LGLINES) a = placeAt (CW - LGLINES) c := by
  constructor
  · rintro rfl
    exact (placeAt_cell (by omega) a).symm
  · intro hp
    rw [← @placeAt_cell _ CW _ (by omega) a] at hp
    rw [← indexAt_cell hLS a] at hi
    have hsame : lineAt CW LGLINES (cellAt CW a) = lineAt CW LGLINES c := by
      apply BitVec.eq_of_getLsbD_eq
      intro k hk
      have := congrArg (fun v => v.getLsbD k) hi
      simp only [BitVec.getLsbD_extractLsb', show k < LGLINES by omega, decide_true,
        Bool.true_and] at this
      simpa only [lineAt, BitVec.getLsbD_extractLsb', hk, decide_true, Bool.true_and] using this
    exact eq_of_line_place hsame hp

/-! ## Counting in a line -/

section Count

variable {w LS : ℕ}

theorem lineBase_toNat (a : BitVec w) : (lineBase LS a).toNat = a.toNat / 2 ^ LS * 2 ^ LS := by
  unfold lineBase
  rw [BitVec.toNat_shiftLeft, BitVec.toNat_ushiftRight, Nat.shiftRight_eq_div_pow,
    Nat.shiftLeft_eq]
  exact Nat.mod_eq_of_lt (Nat.lt_of_le_of_lt (Nat.div_mul_le_self _ _) a.isLt)

theorem placeAt_lineBase (a : BitVec w) : placeAt LS (lineBase LS a) = 0 := by
  unfold placeAt
  rw [lineBase_toNat]
  exact Nat.mul_mod_left _ _

theorem extract_lineBase (a : BitVec w) {k n : ℕ} (hk : LS ≤ k) :
    (lineBase LS a).extractLsb' k n = a.extractLsb' k n := by
  apply BitVec.eq_of_getLsbD_eq
  intro j hj
  unfold lineBase
  simp only [BitVec.getLsbD_extractLsb', hj, decide_true, Bool.true_and, BitVec.getLsbD_shiftLeft,
    BitVec.getLsbD_ushiftRight]
  by_cases hw : k + j < w
  · rw [decide_eq_true hw, decide_eq_false (by omega : ¬k + j < LS)]
    simp only [Bool.true_and, Bool.not_false]
    rw [show LS + (k + j - LS) = k + j by omega]
  · rw [decide_eq_false hw, BitVec.getLsbD_of_ge a (k + j) (by omega)]
    rfl

/-- `lastWord` looks at all but the lowest bit of the place. -/
theorem lastWord_iff (hLS : 0 < LS) (a : BitVec w) :
    lastWord LS a = true ↔ 2 ^ LS ≤ placeAt LS a + 2 := by
  obtain ⟨n, rfl⟩ : ∃ n, LS = n + 1 := ⟨LS - 1, by omega⟩
  unfold lastWord placeAt
  rw [beq_iff_eq, Nat.add_sub_cancel, ← BitVec.toNat_inj, BitVec.extractLsb'_toNat,
    BitVec.toNat_allOnes, Nat.shiftRight_eq_div_pow, Nat.pow_one, Nat.pow_succ,
    Nat.mul_comm (2 ^ n) 2, Nat.mod_mul]
  have hlt : a.toNat / 2 % 2 ^ n < 2 ^ n := Nat.mod_lt _ (Nat.two_pow_pos n)
  omega

theorem getLsbD_zero_iff (hLS : 0 < LS) (a : BitVec w) :
    a.getLsbD 0 = true ↔ placeAt LS a % 2 = 1 := by
  unfold placeAt
  rw [Nat.mod_mod_of_dvd _ (Dvd.intro_left (2 ^ (LS - 1)) (by rw [← Nat.pow_succ]; congr 1; omega))]
  simp [BitVec.getLsbD, Nat.testBit_zero]

/-- The last place is odd. -/
theorem two_pow_even (hLS : 0 < LS) : 2 ^ LS % 2 = 0 := by
  obtain ⟨n, rfl⟩ : ∃ n, LS = n + 1 := ⟨LS - 1, by omega⟩
  rw [Nat.pow_succ]
  exact Nat.mul_mod_left _ _

theorem placeAt_add_one (hw : LS ≤ w) (a : BitVec w) (h : placeAt LS a + 1 < 2 ^ LS) :
    placeAt LS (a + 1) = placeAt LS a + 1 := by
  unfold placeAt at h ⊢
  have hone : (a + 1).toNat = (a.toNat + 1) % 2 ^ w := by
    simp [BitVec.toNat_add]
  rw [hone, Nat.mod_mod_of_dvd _ (Nat.pow_dvd_pow 2 hw)]
  calc (a.toNat + 1) % 2 ^ LS = (2 ^ LS * (a.toNat / 2 ^ LS) + (a.toNat % 2 ^ LS + 1)) % 2 ^ LS := by
        rw [← Nat.add_assoc, Nat.div_add_mod]
    _ = a.toNat % 2 ^ LS + 1 := by
      rw [Nat.mul_add_mod]
      exact Nat.mod_eq_of_lt h

/-- Above the place, counting on in a line changes nothing. -/
theorem extract_add_one (hw : LS ≤ w) (a : BitVec w) (h : placeAt LS a + 1 < 2 ^ LS) {k n : ℕ}
    (hk : LS ≤ k) : (a + 1).extractLsb' k n = a.extractLsb' k n := by
  have hdiv : (a + 1).toNat / 2 ^ LS = a.toNat / 2 ^ LS := by
    have hplace := placeAt_add_one hw a h
    have hone : (a + 1).toNat = a.toNat + 1 := by
      have hlt : a.toNat + 1 < 2 ^ w := by
        by_contra hge
        have heq : a.toNat + 1 = 2 ^ w := by
          have := a.isLt
          omega
        have hzero : (a.toNat + 1) % 2 ^ LS = 0 := by
          rw [heq]
          exact Nat.mod_eq_zero_of_dvd (Nat.pow_dvd_pow 2 hw)
        have hsum : (a + 1).toNat = (a.toNat + 1) % 2 ^ w := by
          simp [BitVec.toNat_add]
        unfold placeAt at hplace
        rw [hsum, Nat.mod_mod_of_dvd _ (Nat.pow_dvd_pow 2 hw), hzero] at hplace
        omega
      have hsum : (a + 1).toNat = (a.toNat + 1) % 2 ^ w := by
        simp [BitVec.toNat_add]
      rw [hsum, Nat.mod_eq_of_lt hlt]
    have ha := Nat.div_add_mod a.toNat (2 ^ LS)
    have hb := Nat.div_add_mod (a + 1).toNat (2 ^ LS)
    unfold placeAt at hplace
    rw [hplace, hone] at hb
    have hmul : 2 ^ LS * ((a.toNat + 1) / 2 ^ LS) = 2 ^ LS * (a.toNat / 2 ^ LS) := by omega
    rw [hone]
    exact Nat.eq_of_mul_eq_mul_left (Nat.two_pow_pos LS) hmul
  apply BitVec.eq_of_toNat_eq
  rw [BitVec.extractLsb'_toNat, BitVec.extractLsb'_toNat, Nat.shiftRight_eq_div_pow,
    Nat.shiftRight_eq_div_pow, show k = LS + (k - LS) by omega, Nat.pow_add, ← Nat.div_div_eq_div_mul,
    ← Nat.div_div_eq_div_mul, hdiv]

/-- How `o_wb_addr` counts: the line stays even behind its last word. -/
def bump (LS : ℕ) (a : BitVec w) : BitVec w :=
  lineBase LS a ||| ((a + 1).extractLsb' 0 LS).setWidth w

theorem extract_bump (a : BitVec w) {k n : ℕ} (hk : LS ≤ k) :
    (bump LS a).extractLsb' k n = a.extractLsb' k n := by
  rw [← extract_lineBase a hk]
  apply BitVec.eq_of_getLsbD_eq
  intro j hj
  have hout : ((a + 1).extractLsb' 0 LS).getLsbD (k + j) = false :=
    BitVec.getLsbD_of_ge _ _ (by omega)
  simp only [bump, BitVec.getLsbD_extractLsb', hj, decide_true, Bool.true_and, BitVec.getLsbD_or,
    BitVec.getLsbD_setWidth, hout, Bool.and_false, Bool.or_false]

theorem placeAt_bump (hw : LS ≤ w) (a : BitVec w) (h : placeAt LS a + 1 < 2 ^ LS) :
    placeAt LS (bump LS a) = placeAt LS a + 1 := by
  have hbits : ∀ x : BitVec w, placeAt LS x = (x.extractLsb' 0 LS).toNat := fun x => by
    rw [BitVec.extractLsb'_toNat, Nat.shiftRight_zero]
    rfl
  rw [← placeAt_add_one hw a h, hbits, hbits]
  apply congrArg
  apply BitVec.eq_of_getLsbD_eq
  intro j hj
  unfold bump lineBase
  simp only [BitVec.getLsbD_extractLsb', hj, decide_true, Bool.true_and, Nat.zero_add,
    BitVec.getLsbD_or, BitVec.getLsbD_shiftLeft, BitVec.getLsbD_setWidth, Bool.not_true,
    Bool.and_false, Bool.false_and, Bool.false_or]
  rw [decide_eq_true (by omega), Bool.true_and]

end Count

/-! ## What the memories hold -/

section Lines

variable (mem : BitVec AW → BitVec 32) (s : Pfcache AW CW LGLINES) (w : Audit AW)

/-- Line `l` of the cache holds the words of the memory under tag `t`. -/
def Holds (l : BitVec LGLINES) (t : BitVec (AW - CW)) : Prop :=
  ∀ a : BitVec AW, indexAt CW a = l → tagAt CW a = t → s.cache (cellAt CW a) = mem a

/-- The places of the requests that a fill has made and still has to make an end of. -/
def requested : ℕ :=
  (if s.oWbStb then placeAt (CW - LGLINES) s.oWbAddr else 2 ^ (CW - LGLINES)) -
    placeAt (CW - LGLINES) s.wraddr

/-- A fill under way. -/
structure Filling : Prop where
  index : s.wraddr.extractLsb' (CW - LGLINES) LGLINES = (indexAt CW s.oWbAddr : BitVec LGLINES)
  lastAddr : s.lastAddr = decide (placeAt (CW - LGLINES) s.oWbAddr + 1 = 2 ^ (CW - LGLINES))
  lastAck : s.lastAck = decide (placeAt (CW - LGLINES) s.wraddr + 1 = 2 ^ (CW - LGLINES))
  line : ∀ x ∈ w.asked, lineAt CW LGLINES x = lineAt CW LGLINES s.oWbAddr
  order : w.asked.map (placeAt (CW - LGLINES)) =
    List.range' (placeAt (CW - LGLINES) s.wraddr) (requested s)
  ahead : placeAt (CW - LGLINES) s.wraddr ≤ placeAt (CW - LGLINES) s.oWbAddr
  beyond : s.oWbStb = false → placeAt (CW - LGLINES) s.oWbAddr + 1 = 2 ^ (CW - LGLINES)
  words : ∀ a, lineAt CW LGLINES a = lineAt CW LGLINES s.oWbAddr →
    placeAt (CW - LGLINES) a < placeAt (CW - LGLINES) s.wraddr → s.cache (cellAt CW a) = mem a
  tag : 0 < placeAt (CW - LGLINES) s.wraddr →
    s.cacheTags (indexAt CW s.oWbAddr) = tagAt CW s.oWbAddr
  unmarked : s.validMask (indexAt CW s.oWbAddr) = false

/-- The lines that are marked, the one that is about to be, and the one that is being filled. -/
structure Lines : Prop where
  valid : ∀ l, s.validMask l = true → Holds mem s l (s.cacheTags l)
  marked : s.svmask = true → Holds mem s s.saddr (s.cacheTags s.saddr)
  idle : s.svmask = true → s.oWbCyc = false ∧ s.needload = false
  strobe : s.oWbStb = true → s.oWbCyc = true
  filling : s.oWbCyc = true → Filling mem s w

end Lines

section Step

variable {mem : BitVec AW → BitVec 32} {s : Pfcache AW CW LGLINES} {w : Audit AW} {i : FetchIn AW}

/-- The next clock of the bus cycle. -/
theorem nextCyc_cases (h : nextCyc s i = true) :
    i.iReset = false ∧ i.iClearCache = false ∧
      ((s.oWbCyc = false ∧ s.needload = true ∧ i.iNewPc = false) ∨
        (s.oWbCyc = true ∧ i.iWbErr = false ∧ (i.iWbAck = true → s.lastAck = false))) := by
  unfold nextCyc at h
  cases hr : i.iReset <;> cases hcl : i.iClearCache <;> rw [hr, hcl] at h
  case false.false =>
    refine ⟨rfl, rfl, ?_⟩
    cases hcyc : s.oWbCyc <;> rw [hcyc] at h
    · left
      simpa using h
    · right
      cases herr : i.iWbErr <;> cases hack : i.iWbAck <;> cases hlast : s.lastAck <;> simp_all
  all_goals simp at h

/-- A new fill. -/
theorem filling_start (hLS : LGLINES < CW) (hCW : CW ≤ AW) (hcyc : s.oWbCyc = false)
    (hstb : s.oWbStb = false) (hneed : s.needload = true) (hnew : i.iNewPc = false)
    (hr : i.iReset = false) (hcl : i.iClearCache = false) :
    (next s i).oWbAddr = lineBase (CW - LGLINES) (wordOf s.lastpc) ∧
      Filling mem (next s i) (Audit.step w i (out s i.iNewPc)) := by
  have haddr : (next s i).oWbAddr = lineBase (CW - LGLINES) (wordOf s.lastpc) := by
    simp [nextWbAddr, hcyc, hstb]
  have hwr : (next s i).wraddr = lineBase (CW - LGLINES) (cellAt CW (wordOf s.lastpc)) := by
    simp [nextWraddr, hcyc, cell_eq hCW]
  have hstb' : (next s i).oWbStb = true := by
    simp [nextStb, hr, hcl, hcyc, hneed, hnew]
  have hasked : (Audit.step w i (out s i.iNewPc)).asked = [] := by
    simp [Audit.step, Watch.nextAsked, out, hcyc]
  have hindex : (indexAt CW (lineBase (CW - LGLINES) (wordOf s.lastpc)) : BitVec LGLINES) =
      indexAt CW (wordOf s.lastpc) := extract_lineBase _ (Nat.le_refl _)
  have htwo : 2 ≤ 2 ^ (CW - LGLINES) := Nat.le_self_pow (by omega) 2
  refine ⟨haddr, ?_, ?_, ?_, ?_, ?_, ?_, ?_, ?_, ?_, ?_⟩
  · rw [haddr, hwr, hindex, extract_lineBase _ (Nat.le_refl _)]
    exact indexAt_cell hLS _
  · rw [haddr, placeAt_lineBase, decide_eq_false (by omega)]
    simp [nextLastAddr, hcyc]
  · rw [hwr, placeAt_lineBase, decide_eq_false (by omega)]
    simp [nextLastAck, hcyc]
  · simp [hasked]
  · rw [hasked, requested, hstb', haddr, hwr, placeAt_lineBase, placeAt_lineBase]
    rfl
  · rw [haddr, hwr, placeAt_lineBase, placeAt_lineBase]
  · intro h
    rw [hstb'] at h
    simp at h
  · intro a _ hplace
    rw [hwr, placeAt_lineBase] at hplace
    omega
  · rw [hwr, placeAt_lineBase]
    omega
  · rw [haddr, hindex]
    simp [nextValidMask, hr, hcl, hcyc, hneed, lineIndex_eq hCW hLS]

/-! ### A fill goes on -/

/-- The address of the next request. -/
theorem Filling.addr_next (h : Filling mem s w) (hLS : LGLINES < CW) (hCW : CW ≤ AW)
    (hcyc : s.oWbCyc = true) :
    lineAt CW LGLINES (next s i).oWbAddr = lineAt CW LGLINES s.oWbAddr ∧
      placeAt (CW - LGLINES) (next s i).oWbAddr = placeAt (CW - LGLINES) s.oWbAddr +
        if s.oWbStb && !i.iWbStall && !s.lastAddr then 1 else 0 := by
  have haddr : (next s i).oWbAddr =
      if s.oWbStb && !i.iWbStall && !s.lastAddr then bump (CW - LGLINES) s.oWbAddr
      else s.oWbAddr := by
    simp [nextWbAddr, hcyc, bump]
  rw [haddr]
  cases hgo : s.oWbStb && !i.iWbStall && !s.lastAddr
  · exact ⟨rfl, rfl⟩
  · have hroom : placeAt (CW - LGLINES) s.oWbAddr + 1 < 2 ^ (CW - LGLINES) := by
      have hlt := placeAt_lt (CW - LGLINES) s.oWbAddr
      have hnot : placeAt (CW - LGLINES) s.oWbAddr + 1 ≠ 2 ^ (CW - LGLINES) := by
        intro heq
        have hlast := h.lastAddr
        rw [decide_eq_true heq] at hlast
        simp [hlast] at hgo
      omega
    exact ⟨extract_bump _ (Nat.le_refl _), placeAt_bump (by omega) _ hroom⟩

/-- Where the next word goes. -/
theorem Filling.wraddr_next (h : Filling mem s w) (hLS : LGLINES < CW) (hcyc : s.oWbCyc = true)
    (hlast : i.iWbAck = true → s.lastAck = false) :
    (next s i).wraddr.extractLsb' (CW - LGLINES) LGLINES = (indexAt CW s.oWbAddr : BitVec LGLINES) ∧
      placeAt (CW - LGLINES) (next s i).wraddr =
        placeAt (CW - LGLINES) s.wraddr + if i.iWbAck then 1 else 0 := by
  have hwr : (next s i).wraddr = if i.iWbAck then s.wraddr + 1 else s.wraddr := by
    cases hack : i.iWbAck
    · simp [nextWraddr, hcyc, hack]
    · simp [nextWraddr, hcyc, hack, hlast hack]
  rw [hwr, ← h.index]
  cases hack : i.iWbAck
  · exact ⟨rfl, rfl⟩
  · have hroom : placeAt (CW - LGLINES) s.wraddr + 1 < 2 ^ (CW - LGLINES) := by
      have hlt := placeAt_lt (CW - LGLINES) s.wraddr
      have hnot : placeAt (CW - LGLINES) s.wraddr + 1 ≠ 2 ^ (CW - LGLINES) := by
        intro heq
        have hnow := h.lastAck
        rw [decide_eq_true heq, hlast hack] at hnow
        simp at hnow
      omega
    exact ⟨extract_add_one (by omega) _ hroom (Nat.le_refl _), placeAt_add_one (by omega) _ hroom⟩

/-- The requests that can be answered are for words of the line. -/
theorem Filling.flying_line (h : Filling mem s w) :
    ∀ x ∈ Watch.flying w.toWatch i (out s i.iNewPc),
      lineAt CW LGLINES x = lineAt CW LGLINES s.oWbAddr := by
  intro x hx
  unfold Watch.flying at hx
  rw [List.mem_append] at hx
  rcases hx with hx | hx
  · exact h.line x hx
  · split at hx
    · rw [List.mem_singleton.1 hx]
      rfl
    · simp at hx

/-- They are those from `wraddr` on. -/
theorem Filling.flying (h : Filling mem s w) (hLS : LGLINES < CW) (hCW : CW ≤ AW)
    (hcyc : s.oWbCyc = true) (hr : i.iReset = false) (hcl : i.iClearCache = false)
    (herr : i.iWbErr = false) :
    (Watch.flying w.toWatch i (out s i.iNewPc)).map (placeAt (CW - LGLINES)) =
      List.range' (placeAt (CW - LGLINES) s.wraddr)
        ((if (next s i).oWbStb then placeAt (CW - LGLINES) (next s i).oWbAddr
          else 2 ^ (CW - LGLINES)) - placeAt (CW - LGLINES) s.wraddr) := by
  have haddr := (h.addr_next (i := i) hLS hCW hcyc).2
  have hstb' : (next s i).oWbStb = if s.oWbStb && !i.iWbStall && s.lastAddr then false
      else s.oWbStb := by
    simp [nextStb, hr, hcl, hcyc, herr]
  have hahead := h.ahead
  have horder := h.order
  unfold requested at horder
  unfold Watch.flying out
  dsimp only
  cases hgo : s.oWbStb && !i.iWbStall
  · rw [hstb', haddr, hgo, if_neg (by decide), List.append_nil, horder]
    simp
  · have hstb : s.oWbStb = true := by
      simp only [Bool.and_eq_true] at hgo
      exact hgo.1
    rw [hstb, if_pos rfl] at horder
    rw [hstb', haddr, hgo, if_pos rfl, List.map_append, horder, List.map_singleton, Bool.true_and,
      Bool.true_and]
    have hgrow : List.range' (placeAt (CW - LGLINES) s.wraddr)
        (placeAt (CW - LGLINES) s.oWbAddr - placeAt (CW - LGLINES) s.wraddr) ++
          [placeAt (CW - LGLINES) s.oWbAddr] = List.range' (placeAt (CW - LGLINES) s.wraddr)
        (placeAt (CW - LGLINES) s.oWbAddr - placeAt (CW - LGLINES) s.wraddr + 1) := by
      rw [List.range'_concat]
      congr 2
      omega
    rw [hgrow]
    cases hlast : s.lastAddr
    · simp only [Bool.false_eq_true, if_false, hstb, if_true, Bool.not_false]
      congr 1
      omega
    · have hend := h.lastAddr
      rw [hlast] at hend
      have hend' := of_decide_eq_true hend.symm
      simp only [if_true, Bool.false_eq_true, if_false]
      congr 1
      omega

/-- When the last place has been reached. -/
theorem last_place {B a m : ℕ} (hB : B % 2 = 0) (hlt : a < B) (hm : m = 0 ∨ m = 1 ∧ a + 1 ≠ B) :
    a + m + 1 = B ↔ B ≤ a + 2 ∧ (a % 2 = 1 ∨ m = 1) := by
  omega

/-- What an acknowledgement brings. -/
theorem Filling.brings (h : Filling mem s w) (hLS : LGLINES < CW) (hCW : CW ≤ AW)
    (hcyc : s.oWbCyc = true) (hr : i.iReset = false) (hcl : i.iClearCache = false)
    (herr : i.iWbErr = false) (hs : Watch.Served w.toWatch i (out s i.iNewPc) mem)
    (hack : i.iWbAck = true) (a : BitVec AW)
    (ha : lineAt CW LGLINES a = lineAt CW LGLINES s.oWbAddr)
    (hp : placeAt (CW - LGLINES) a = placeAt (CW - LGLINES) s.wraddr) : i.iWbData = mem a := by
  obtain ⟨-, x, l, hfly, hdata⟩ := hs.ack hack
  have hline := h.flying_line (i := i)
  have horder := h.flying hLS hCW hcyc hr hcl herr
  rw [hfly] at hline horder
  have hx : placeAt (CW - LGLINES) x = placeAt (CW - LGLINES) s.wraddr := by
    revert horder
    generalize (if (Pfcache.next s i).oWbStb = true then
      placeAt (CW - LGLINES) (Pfcache.next s i).oWbAddr else 2 ^ (CW - LGLINES)) -
        placeAt (CW - LGLINES) s.wraddr = n
    intro horder
    cases n with
    | zero => simp at horder
    | succ n =>
      rw [List.map_cons, List.range'_succ] at horder
      exact (List.cons.inj horder).1
  rw [hdata, eq_of_line_place ((hline x List.mem_cons_self).trans ha.symm) (hx.trans hp.symm)]

/-- A fill goes on. -/
theorem Filling.next (h : Filling mem s w) (hLS : LGLINES < CW) (hCW : CW ≤ AW)
    (hs : Watch.Served w.toWatch i (out s i.iNewPc) mem) (hmark : s.svmask = false)
    (hcyc : s.oWbCyc = true) (hr : i.iReset = false) (hcl : i.iClearCache = false)
    (herr : i.iWbErr = false) (hlast : i.iWbAck = true → s.lastAck = false) :
    Filling mem (Pfcache.next s i) (Audit.step w i (out s i.iNewPc)) := by
  obtain ⟨hline, haddr⟩ := h.addr_next (i := i) hLS hCW hcyc
  obtain ⟨hindex, hwr⟩ := h.wraddr_next (i := i) hLS hcyc hlast
  have hflyline := h.flying_line (i := i)
  have hfly := h.flying hLS hCW hcyc hr hcl herr
  have hsame := (lineAt_eq_iff hCW hLS _ _).1 hline
  have heven : 2 ^ (CW - LGLINES) % 2 = 0 := two_pow_even (by omega)
  have hlt := placeAt_lt (CW - LGLINES) s.wraddr
  have hasked : (Audit.step w i (out s i.iNewPc)).asked =
      if i.iWbAck then (Watch.flying w.toWatch i (out s i.iNewPc)).tail
      else Watch.flying w.toWatch i (out s i.iNewPc) := by
    simp [Audit.step, Watch.nextAsked, out, hcyc, herr]
  have hover : (Pfcache.next s i).oWbStb = false →
      placeAt (CW - LGLINES) (Pfcache.next s i).oWbAddr + 1 = 2 ^ (CW - LGLINES) := by
    intro hstb'
    rw [haddr]
    have hstb : (s.oWbStb && !i.iWbStall && s.lastAddr) = true ∨ s.oWbStb = false := by
      cases hgo : s.oWbStb && !i.iWbStall && s.lastAddr
      · right
        simpa [nextStb, hr, hcl, hcyc, herr, hgo] using hstb'
      · exact .inl rfl
    rcases hstb with hgo | hstb
    · simp only [Bool.and_eq_true] at hgo
      have hend := h.lastAddr
      rw [hgo.2] at hend
      rw [hgo.2, Bool.not_true, Bool.and_false]
      exact of_decide_eq_true hend.symm
    · rw [hstb]
      exact h.beyond hstb
  have hcells : ∀ a : BitVec AW, (indexAt CW a : BitVec LGLINES) = indexAt CW s.oWbAddr →
      (cellAt CW a = s.wraddr ↔ placeAt (CW - LGLINES) a = placeAt (CW - LGLINES) s.wraddr) :=
    fun a ha => cell_eq_iff hLS a s.wraddr (ha.trans h.index.symm)
  refine ⟨hindex.trans hsame.1.symm, ?_, ?_, ?_, ?_, ?_, hover, ?_, ?_, ?_⟩
  · -- `last_addr` is one clock early, so that it is right when the address has moved
    have hnow := h.lastAddr
    have hword := lastWord_iff (Nat.sub_pos_of_lt hLS) s.oWbAddr
    have hodd := getLsbD_zero_iff (Nat.sub_pos_of_lt hLS) s.oWbAddr
    have hlta := placeAt_lt (CW - LGLINES) s.oWbAddr
    have hoff := h.beyond
    rw [haddr]
    show nextLastAddr s i = _
    unfold nextLastAddr
    rw [hcyc, if_neg (by decide)]
    have hplace := last_place (m := if s.oWbStb && !i.iWbStall && !s.lastAddr then 1 else 0) heven
      hlta (by
        split
        · rename_i hgo
          simp only [Bool.and_eq_true, Bool.not_eq_true'] at hgo
          rw [hgo.2] at hnow
          exact .inr ⟨rfl, of_decide_eq_false hnow.symm⟩
        · exact .inl rfl)
    rw [Bool.eq_iff_iff, decide_eq_true_eq, hplace]
    cases hstb : s.oWbStb
    · have hend := hoff hstb
      have hlast' : s.lastAddr = true := by
        rw [hnow, decide_eq_true hend]
      rw [hlast', ite_self]
      simp only [true_iff]
      omega
    · cases hl : s.lastAddr
      · cases hw' : i.iWbStall <;> simp_all
      · rw [hl] at hnow
        have hend := of_decide_eq_true hnow.symm
        rw [ite_self]
        simp only [true_iff]
        omega
  · have hnow := h.lastAck
    have hword := lastWord_iff (Nat.sub_pos_of_lt hLS) s.wraddr
    have hodd := getLsbD_zero_iff (Nat.sub_pos_of_lt hLS) s.wraddr
    rw [hwr]
    show nextLastAck s i = _
    unfold nextLastAck
    rw [hcyc, Bool.true_and]
    have hplace := last_place (m := if i.iWbAck then 1 else 0) heven hlt (by
      split
      · rename_i hack
        rw [hlast hack] at hnow
        exact .inr ⟨rfl, of_decide_eq_false hnow.symm⟩
      · exact .inl rfl)
    rw [Bool.eq_iff_iff, decide_eq_true_eq, hplace, Bool.and_eq_true, Bool.or_eq_true, hword, hodd]
    cases i.iWbAck <;> simp
  · intro x hx
    rw [hasked] at hx
    rw [hline]
    split at hx
    · exact hflyline x (List.mem_of_mem_tail hx)
    · exact hflyline x hx
  · unfold requested
    rw [hasked, hwr]
    cases hack : i.iWbAck
    · exact hfly
    · rw [if_pos rfl, if_pos rfl, List.map_tail, hfly, List.tail_range']
      congr 1
  · rw [hwr]
    have hahead := h.ahead
    cases hack : i.iWbAck
    · rw [haddr]
      simp only [Bool.false_eq_true, if_false]
      omega
    · -- there is a request to be answered, so `o_wb_addr` is ahead
      have hnow := h.lastAck
      rw [hlast hack] at hnow
      have hmore := of_decide_eq_false hnow.symm
      have hlen := congrArg List.length hfly
      obtain ⟨-, x, l, hx, -⟩ := hs.ack hack
      rw [hx, List.length_map, List.length_cons, List.length_range'] at hlen
      rw [if_pos rfl]
      cases hstb' : (Pfcache.next s i).oWbStb
      · have hend := hover hstb'
        omega
      · rw [hstb', if_pos rfl] at hlen
        omega
  · intro a ha hplace
    rw [hline] at ha
    rw [hwr] at hplace
    have hia := ((lineAt_eq_iff hCW hLS _ _).1 ha).1
    show (if s.oWbCyc && cellAt CW a == s.wraddr then i.iWbData else s.cache (cellAt CW a)) = mem a
    rw [hcyc, Bool.true_and]
    by_cases hcell : cellAt CW a = s.wraddr
    · have hp := (hcells a hia).1 hcell
      have hack : i.iWbAck = true := by
        by_contra hno
        rw [if_neg hno] at hplace
        omega
      rw [hcell, if_pos (by simp)]
      exact h.brings hLS hCW hcyc hr hcl herr hs hack a ha hp
    · have hp : placeAt (CW - LGLINES) a ≠ placeAt (CW - LGLINES) s.wraddr :=
        fun hp => hcell ((hcells a hia).2 hp)
      rw [if_neg (by simpa using hcell)]
      refine h.words a ha ?_
      split at hplace <;> omega
  · intro hpos
    rw [hwr] at hpos
    rw [hsame.1, hsame.2]
    show (if s.oWbCyc && i.iWbAck && indexAt CW s.oWbAddr == s.oWbAddr.extractLsb' _ _ then
      s.oWbAddr.extractLsb' CW (AW - CW) else s.cacheTags (indexAt CW s.oWbAddr)) = _
    cases hack : i.iWbAck
    · rw [hack] at hpos
      simpa using h.tag hpos
    · rw [hcyc, if_pos (by simp [indexAt])]
      rfl
  · rw [hsame.1]
    have hold := h.unmarked
    simp [nextValidMask, hcyc, hmark, hold]

/-- A line that nothing is written to. -/
theorem Holds.next {l : BitVec LGLINES} {t : BitVec (AW - CW)} (h : Holds mem s l t)
    (hLS : LGLINES < CW)
    (hl : s.oWbCyc = true → l ≠ s.wraddr.extractLsb' (CW - LGLINES) LGLINES) :
    Holds mem (Pfcache.next s i) l t := by
  intro a hi ht
  show (if s.oWbCyc && cellAt CW a == s.wraddr then i.iWbData else s.cache (cellAt CW a)) = mem a
  rw [if_neg]
  · exact h a hi ht
  · intro hwrite
    simp only [Bool.and_eq_true, beq_iff_eq] at hwrite
    refine hl hwrite.1 ?_
    rw [← hwrite.2, indexAt_cell hLS, hi]

/-- The last word of a fill completes the line. -/
theorem Filling.complete (h : Filling mem s w) (hLS : LGLINES < CW) (hCW : CW ≤ AW)
    (hs : Watch.Served w.toWatch i (out s i.iNewPc) mem) (hcyc : s.oWbCyc = true)
    (hr : i.iReset = false) (hcl : i.iClearCache = false) (hack : i.iWbAck = true)
    (hlast : s.lastAck = true) :
    Holds mem (Pfcache.next s i) (indexAt CW s.oWbAddr) (tagAt CW s.oWbAddr) := by
  have herr : i.iWbErr = false := by
    cases herr : i.iWbErr
    · rfl
    · exact absurd ⟨hack, herr⟩ hs.one
  have hend := h.lastAck
  rw [hlast] at hend
  have hend' := of_decide_eq_true hend.symm
  intro a hi ht
  have ha : lineAt CW LGLINES a = lineAt CW LGLINES s.oWbAddr := (lineAt_eq_iff hCW hLS _ _).2 ⟨hi, ht⟩
  have hcell := cell_eq_iff hLS a s.wraddr (hi.trans h.index.symm)
  have hlt := placeAt_lt (CW - LGLINES) a
  show (if s.oWbCyc && cellAt CW a == s.wraddr then i.iWbData else s.cache (cellAt CW a)) = mem a
  rw [hcyc, Bool.true_and]
  by_cases hp : placeAt (CW - LGLINES) a = placeAt (CW - LGLINES) s.wraddr
  · rw [if_pos (by simpa using hcell.2 hp)]
    exact h.brings hLS hCW hcyc hr hcl herr hs hack a ha hp
  · rw [if_neg (by simpa using fun hc => hp (hcell.1 hc))]
    exact h.words a ha (by omega)

/-- The tags of all other lines stay. -/
theorem tags_next {l : BitVec LGLINES}
    (hl : s.oWbCyc = true → l ≠ (indexAt CW s.oWbAddr : BitVec LGLINES)) :
    (next s i).cacheTags l = s.cacheTags l := by
  show (if s.oWbCyc && i.iWbAck && l == s.oWbAddr.extractLsb' _ _ then _ else s.cacheTags l) = _
  rw [if_neg]
  intro hwrite
  simp only [Bool.and_eq_true, beq_iff_eq] at hwrite
  exact hl hwrite.1.1 hwrite.2

/-- Which lines are marked. -/
theorem validMask_next {l : BitVec LGLINES} (h : (next s i).validMask l = true) :
    i.iReset = false ∧ i.iClearCache = false ∧
      ¬(s.oWbCyc = false ∧ s.needload = true ∧ l = lineIndex AW CW s.lastpc) ∧
      (s.svmask = true ∧ l = s.saddr ∨ s.validMask l = true) := by
  have hv : nextValidMask s i l = true := h
  unfold nextValidMask at hv
  cases hr : i.iReset <;> cases hcl : i.iClearCache <;> rw [hr, hcl] at hv
  case false.false =>
    refine ⟨rfl, rfl, ?_, ?_⟩
    · rintro ⟨hcyc, hneed, rfl⟩
      simp [hcyc, hneed] at hv
    · rw [if_neg (by decide)] at hv
      split_ifs at hv with hstart hmark
      · simp only [Bool.and_eq_true, beq_iff_eq] at hmark
        exact .inl hmark
      · exact .inr hv
  all_goals simp at hv

/-- **The lines of the cache.**  The memory may change when the cache is cleared. -/
theorem Lines.next {mem' : BitVec AW → BitVec 32} (h : Lines mem s w) (hLS : LGLINES < CW)
    (hCW : CW ≤ AW) (hs : Watch.Served w.toWatch i (out s i.iNewPc) mem)
    (himage : i.iReset = false → i.iClearCache = false → mem' = mem) :
    Lines mem' (Pfcache.next s i) (Audit.step w i (out s i.iNewPc)) where
  valid l hl := by
    obtain ⟨hr, hcl, -, hor⟩ := validMask_next hl
    rw [himage hr hcl]
    have hother : s.oWbCyc = true → l ≠ (indexAt CW s.oWbAddr : BitVec LGLINES) := by
      rintro hcyc rfl
      rcases hor with ⟨hmark, -⟩ | hold
      · simp [(h.idle hmark).1] at hcyc
      · simp [(h.filling hcyc).unmarked] at hold
    rw [tags_next hother]
    refine Holds.next ?_ hLS fun hcyc => by
      rw [(h.filling hcyc).index]
      exact hother hcyc
    rcases hor with ⟨hmark, rfl⟩ | hold
    · exact h.marked hmark
    · exact h.valid l hold
  marked hm := by
    have hm' : (!(i.iReset || i.iClearCache) &&
        (s.oWbCyc && i.iWbAck && s.lastAck && !s.busAbort)) = true := hm
    simp only [Bool.and_eq_true, Bool.not_eq_true', Bool.or_eq_false_iff] at hm'
    obtain ⟨⟨hr, hcl⟩, ⟨⟨hcyc, hack⟩, hlast⟩, -⟩ := hm'
    have hfill := h.filling hcyc
    have hsaddr : (Pfcache.next s i).saddr = indexAt CW s.oWbAddr := by
      simp [hcyc, hack, ← hfill.index]
    have htag : (Pfcache.next s i).cacheTags (indexAt CW s.oWbAddr) = tagAt CW s.oWbAddr := by
      show (if s.oWbCyc && i.iWbAck && indexAt CW s.oWbAddr == s.oWbAddr.extractLsb' _ _ then
        s.oWbAddr.extractLsb' CW (AW - CW) else _) = _
      rw [hcyc, hack, if_pos (by simp [indexAt])]
      rfl
    rw [himage hr hcl, hsaddr, htag]
    exact hfill.complete hLS hCW hs hcyc hr hcl hack hlast
  idle hm := by
    have hm' : (!(i.iReset || i.iClearCache) &&
        (s.oWbCyc && i.iWbAck && s.lastAck && !s.busAbort)) = true := hm
    simp only [Bool.and_eq_true, Bool.not_eq_true', Bool.or_eq_false_iff] at hm'
    obtain ⟨⟨hr, hcl⟩, ⟨⟨hcyc, hack⟩, hlast⟩, -⟩ := hm'
    constructor
    · simp [nextCyc, hr, hcl, hcyc, hack, hlast]
    · simp [nextNeedload, hcyc]
  strobe hstb := by
    have hstb' : nextStb s i = true := hstb
    show nextCyc s i = true
    cases hr : i.iReset
    case true => simp [nextStb, hr] at hstb'
    cases hcl : i.iClearCache
    case true => simp [nextStb, hcl] at hstb'
    cases hcyc : s.oWbCyc
    · cases hs' : s.oWbStb
      · simpa [nextStb, nextCyc, hr, hcl, hcyc, hs'] using hstb'
      · simp [h.strobe hs'] at hcyc
    · cases herr : i.iWbErr
      case true => simp [nextStb, hr, hcl, hcyc, herr] at hstb'
      cases hend : i.iWbAck && s.lastAck
      · simp [nextCyc, hr, hcl, hcyc, herr, hend]
      · -- with the last answer the last request has been made
        simp only [Bool.and_eq_true] at hend
        have hfill := h.filling hcyc
        obtain ⟨-, x, l, hx, -⟩ := hs.ack hend.1
        have hlen := congrArg List.length (hfill.flying hLS hCW hcyc hr hcl herr)
        have hlt := placeAt_lt (CW - LGLINES) (Pfcache.next s i).oWbAddr
        have hlast := hfill.lastAck
        rw [hend.2] at hlast
        have hlast' := of_decide_eq_true hlast.symm
        rw [hstb, if_pos rfl, hx, List.length_map, List.length_cons, List.length_range'] at hlen
        omega
  filling hcyc := by
    obtain ⟨hr, hcl, ⟨hidle, hneed, hnew⟩ | ⟨hbusy, herr, hlast⟩⟩ := nextCyc_cases hcyc
    · have hstb : s.oWbStb = false := by
        cases hstb : s.oWbStb
        · rfl
        · simp [h.strobe hstb] at hidle
      exact (filling_start hLS hCW hidle hstb hneed hnew hr hcl).2
    · have hmark : s.svmask = false := by
        cases hmark : s.svmask
        · rfl
        · simp [(h.idle hmark).1] at hbusy
      rw [himage hr hcl]
      exact (h.filling hbusy).next hLS hCW hs hmark hbusy hr hcl herr hlast

end Step

end Pfcache

end ZipStormMX.Cpu
