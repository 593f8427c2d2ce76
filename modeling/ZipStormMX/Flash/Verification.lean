/-
  Erase verification looks at the wrong memory.

  The loop over the pages is right for the address it is given: it reads the 64 words of each page in
  turn, stops at the first page that is not erased, and says so.  The crux: the address is the bus
  address with the base of the flash added a second time, since the mask of 24 bits leaves the base in
  place.

    * `verifyFrom_spec`  the loop, at any address.
    * `erase_verifies`   the sector at `s` is judged by the words at `R_FLASH + s`.
    * `verifies_never`   which are never words of the sector.
-/
import ZipStormMX.Flash.Programming

namespace ZipStormMX.Flash

open Nor

/-! ## The loop over the pages -/

/-- The word address that word `i` of `readi(a, ..)` comes from. -/
def readAddr (a i : ℕ) : ℕ := a / 4 + if a % 2 = 1 then 0 else i

/-- The verification from page `i` on with `n` to go: the word addresses that are read, and what is
returned. -/
def verifyFrom (u : Unset) (mem : Mem) (base : ℕ) : ℕ → ℕ → List ℕ × Bool
  | _, 0 => ([], true)
  | i, n + 1 =>
    let reads := (List.range szPageW).map (readAddr (base + i * szPageB))
    if (List.range szPageW).all fun j => readi u mem (base + i * szPageB) j == 0xffffffff#32 then
      let r := verifyFrom u mem base (i + 1) n
      (reads ++ r.1, r.2)
    else (reads, false)

theorem verifyFrom_all (u : Unset) (mem : Mem) (base i n : ℕ) :
    (verifyFrom u mem base i n).2 = (List.range n).all fun k => (List.range szPageW).all fun j =>
      readi u mem (base + (i + k) * szPageB) j == 0xffffffff#32 := by
  induction n generalizing i with
  | zero => rfl
  | succ n ih =>
    have hrest : (verifyFrom u mem base (i + 1) n).2 = (List.range n).all
        ((fun k => (List.range szPageW).all fun j =>
          readi u mem (base + (i + k) * szPageB) j == 0xffffffff#32) ∘ Nat.succ) := by
      simp only [ih, Function.comp_def, Nat.succ_eq_add_one, Nat.add_assoc, Nat.add_comm 1]
    rw [verifyFrom, List.range_succ_eq_map, List.all_cons, List.all_map, ← hrest]
    simp only [Nat.add_zero]
    split
    · rename_i hpage
      rw [hpage, Bool.true_and]
    · rename_i hpage
      rw [Bool.eq_false_iff.mpr hpage, Bool.false_and]

/-- The words read by page `i`, for a base at a word. -/
theorem readAddr_page {base : ℕ} (hbase : base % 4 = 0) (i j : ℕ) :
    readAddr (base + i * szPageB) j = base / 4 + (szPageW * i + j) := by
  unfold readAddr szPageB szPageW
  rw [if_neg (by omega)]
  omega

/-- The loop is about the words of `n` pages: it reads no others, it reads them all if it returns
`true`, and it returns `true` if they are all erased. -/
structure Judges (u : Unset) (mem : Mem) (first n : ℕ) (r : List ℕ × Bool) : Prop where
  only : ∀ w ∈ r.1, first ≤ w ∧ w < first + n
  all : r.2 = true → ∀ w, first ≤ w → w < first + n → w ∈ r.1
  erased : r.2 = true ↔ ∀ w, first ≤ w → w < first + n → busWord u mem w = 0xffffffff#32

/-- The loop is right, whatever address it is given. -/
theorem verifyFrom_spec (u : Unset) (mem : Mem) {base : ℕ} (hbase : base % 4 = 0) (i n : ℕ) :
    Judges u mem (base / 4 + szPageW * i) (szPageW * n) (verifyFrom u mem base i n) := by
  induction n generalizing i with
  | zero =>
    refine ⟨fun w hw => absurd hw List.not_mem_nil, fun _ w _ _ => by omega, fun _ w _ _ => by omega,
      fun _ => rfl⟩
  | succ n ih =>
    obtain ⟨honly, hall, herased⟩ := ih (i + 1)
    have hnext : base / 4 + szPageW * (i + 1) = base / 4 + szPageW * i + szPageW := by
      rw [Nat.mul_succ, Nat.add_assoc]
    have hwords : szPageW * (n + 1) = szPageW * n + szPageW := Nat.mul_succ _ _
    have hread : ∀ w, w ∈ (List.range szPageW).map (readAddr (base + i * szPageB)) ↔
        base / 4 + szPageW * i ≤ w ∧ w < base / 4 + szPageW * i + szPageW := by
      intro w
      rw [List.mem_map]
      constructor
      · rintro ⟨j, hj, rfl⟩
        rw [List.mem_range] at hj
        rw [readAddr_page hbase]
        omega
      · rintro ⟨hge, hlt⟩
        refine ⟨w - (base / 4 + szPageW * i), List.mem_range.mpr (by omega), ?_⟩
        rw [readAddr_page hbase]
        omega
    have hpage : ((List.range szPageW).all fun j =>
        readi u mem (base + i * szPageB) j == 0xffffffff#32) = true ↔
        ∀ w, base / 4 + szPageW * i ≤ w → w < base / 4 + szPageW * i + szPageW →
          busWord u mem w = 0xffffffff#32 := by
      rw [List.all_eq_true]
      constructor
      · intro h w hge hlt
        obtain ⟨j, hj, rfl⟩ := List.mem_map.mp ((hread w).mpr ⟨hge, hlt⟩)
        exact eq_of_beq (h j hj)
      · intro h j hj
        obtain ⟨hge, hlt⟩ := (hread _).mp (List.mem_map_of_mem hj)
        exact beq_iff_eq.mpr (h _ hge hlt)
    rw [verifyFrom]
    split
    · rename_i herase
      refine ⟨fun w hw => ?_, fun hr w hge hlt => ?_, fun hr w hge hlt => ?_, fun h => ?_⟩
      · rcases List.mem_append.mp hw with hw | hw
        · have := (hread w).mp hw
          omega
        · have := honly w hw
          omega
      · by_cases hin : w < base / 4 + szPageW * i + szPageW
        · exact List.mem_append_left _ ((hread w).mpr ⟨hge, hin⟩)
        · exact List.mem_append_right _ (hall hr w (by omega) (by omega))
      · by_cases hin : w < base / 4 + szPageW * i + szPageW
        · exact hpage.mp herase w hge hin
        · exact herased.mp hr w (by omega) (by omega)
      · exact herased.mpr fun w hge hlt => h w (by omega) (by omega)
    · rename_i herase
      refine ⟨fun w hw => ?_, fun hr => absurd hr Bool.false_ne_true,
        fun hr => absurd hr Bool.false_ne_true, fun h => ?_⟩
      · have := (hread w).mp hw
        omega
      · exact absurd (hpage.mpr fun w hge hlt => h w hge (by omega)) herase

/-! ## The sector -/

/-- What `erase_sector(s, true)` reads back, and what it returns. -/
def verification (u : Unset) (f : Chip) (s : ℕ) : List ℕ × Bool :=
  verifyFrom u (eraseSector u f s true).1.mem (rFlash + s % 2 ^ 24) 0 nPages

/-- The value returned is that of the driver. -/
theorem verification_returns (u : Unset) (f : Chip) (s : ℕ) :
    (verification u f s).2 = (eraseSector u f s true).2 := by
  rw [verification, verifyFrom_all]
  simp only [Nat.zero_add]
  rfl

/-- The sector is judged by the words one flash base further up. -/
theorem erase_verifies (u : Unset) (f : Chip) {s : ℕ} (hs : s % sectorSzB = 0)
    (hhigh : s < rFlash + flashLen) :
    Judges u (eraseSector u f s true).1.mem ((rFlash + s) / 4) (nPages * szPageW)
      (verification u f s) := by
  have hmask : s % 2 ^ 24 = s := Nat.mod_eq_of_lt (by
    unfold rFlash flashLen at hhigh
    omega)
  have hbase : (rFlash + s) % 4 = 0 := by
    unfold sectorSzB nPages szPageB at hs
    unfold rFlash
    omega
  have hspec := verifyFrom_spec u (eraseSector u f s true).1.mem hbase 0 nPages
  rw [verification, hmask]
  exact hspec

/-- Erase verification looks at the erased sector, all of it within the window of the flash. -/
structure VerifiesErase (u : Unset) (f : Chip) (s : ℕ) : Prop where
  judges : Judges u (eraseSector u f s true).1.mem (s / 4) (nPages * szPageW) (verification u f s)
  window : ∀ w ∈ (verification u f s).1, rFlash ≤ 4 * w ∧ 4 * w < rFlash + flashLen

/-- **It never does**: not even the first word that is read is in the window of the flash. -/
theorem verifies_never (u : Unset) (f : Chip) {s : ℕ} (hs : s % sectorSzB = 0) (hlow : rFlash ≤ s)
    (hhigh : s < rFlash + flashLen) : ¬VerifiesErase u f s := by
  intro h
  have hword : 0 < szPageW := by
    decide
  have hfirst : ∃ w, w ∈ (verification u f s).1 := by
    rw [verification, nPages, verifyFrom]
    split
    · exact ⟨_, List.mem_append_left _ (List.mem_map_of_mem (List.mem_range.mpr hword))⟩
    · exact ⟨_, List.mem_map_of_mem (List.mem_range.mpr hword)⟩
  obtain ⟨w, hw⟩ := hfirst
  obtain ⟨hge, -⟩ := (erase_verifies u f hs hhigh).only w hw
  have hlt := (h.window w hw).2
  unfold rFlash flashLen at *
  omega

theorem verifies_never_first :
    ¬VerifiesErase ⟨fun _ _ => 0, fun _ => 0, fun _ => 0xffffffff, 0⟩ ⟨fun _ => 0xff#8, false, []⟩
      rFlash :=
  verifies_never _ _ (by decide) (Nat.le_refl _) (by decide)

/-- A sector that is erased is reported as a failure, since there is a zero in the SDRAM. -/
theorem erased_unverified :
    (eraseSector ⟨fun _ _ => 0, fun _ => 0, fun _ => 0, 0⟩ ⟨fun _ => 0#8, false, []⟩ rFlash true).2 =
      false ∧
    ∀ a, rFlash ≤ a → a < rFlash + sectorSzB → (eraseSector ⟨fun _ _ => 0, fun _ => 0, fun _ => 0, 0⟩
      ⟨fun _ => 0#8, false, []⟩ rFlash true).1.mem (a - rFlash) = 0xff#8 := by
  constructor
  · rw [← verification_returns, Bool.eq_false_iff]
    intro h
    have hzero := (erase_verifies _ _ (by decide) (by decide)).erased.mp h
      ((rFlash + rFlash) / 4) (Nat.le_refl _) (by decide)
    exact absurd hzero (by decide)
  · intro a hlow hhigh
    rw [eraseSector_chip _ (by exact rfl) _ (Nat.le_refl _) (by decide)]
    show (if (a - rFlash) / 65536 = (rFlash - rFlash) / 65536 then 0xff#8 else 0#8) = 0xff#8
    rw [if_pos]
    unfold rFlash sectorSzB nPages szPageB at *
    omega

end ZipStormMX.Flash
