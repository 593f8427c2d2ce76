/-
  `crt0.c`: the boot loader, where the processor does the copying.

  Three loops share the pointers `rdp` and `wrp`.  The crux: each loop is a run of consecutive
  stores, and a run is known by the words it stores, by the words it leaves alone and by the
  addresses it has stored to (`Wrote`); the loader is at most three runs, to regions apart from each
  other and from the image.

    * `copies_words`, `clears_words`  what one loop does.
    * `boots_iff`                     memory is set up as linked, unless there is no flash and the
                                      BSS is not zero by itself, or the kernel's part is skipped
                                      since it ends where the image begins.
-/
import Mathlib.Data.BitVec
import Mathlib.Tactic.Common

namespace ZipStormMX.Zlib

/-! ## Memory and its loops -/

/-- Memory by the number of the word, and the addresses that have been stored to. -/
structure Memory where
  word : ℕ → BitVec 32
  stored : List ℕ

def Memory.store (m : Memory) (a : ℕ) (v : BitVec 32) : Memory where
  word := fun b => if b = a then v else m.word b
  stored := a :: m.stored

/-- Memory and the two pointers of the boot loader. -/
structure Loader where
  mem : Memory
  rdp : ℕ
  wrp : ℕ

namespace Loader

/-- `*wrp++ = *rdp++;` -/
def copy (p : Loader) : Loader := ⟨p.mem.store p.wrp (p.mem.word p.rdp), p.rdp + 1, p.wrp + 1⟩

/-- `*wrp++ = 0;` -/
def clear (p : Loader) : Loader := ⟨p.mem.store p.wrp 0, p.rdp, p.wrp + 1⟩

/-- `while(wrp < end) *wrp++ = *rdp++;` -/
def copyWhile (p : Loader) (stop : ℕ) : Loader :=
  if p.wrp < stop then copyWhile p.copy stop else p
termination_by stop - p.wrp
decreasing_by
  show stop - (p.wrp + 1) < stop - p.wrp
  omega

/-- `while(wrp < end) *wrp++ = 0;` -/
def clearWhile (p : Loader) (stop : ℕ) : Loader :=
  if p.wrp < stop then clearWhile p.clear stop else p
termination_by stop - p.wrp
decreasing_by
  show stop - (p.wrp + 1) < stop - p.wrp
  omega

/-- `for(int i=0; i<n; i++) *wrp++ = *rdp++;` -/
def copyFor (p : Loader) (n : ℕ) : Loader := Nat.iterate copy n p

/-- `for(int i=0; i<n; i++) *wrp++ = 0;` -/
def clearFor (p : Loader) (n : ℕ) : Loader := Nat.iterate clear n p

end Loader

/-! ## The boot loader -/

/-- What the linker script says, as numbers of words. -/
structure Layout where
  rom : ℕ
  kram : ℕ
  ram : ℕ
  kramStart : ℕ
  kramEnd : ℕ
  ramImageEnd : ℕ
  bssImageEnd : ℕ

/-- `_bootloader`. -/
def bootloader (l : Layout) (m : Memory) : Memory :=
  if l.rom = 0 then (Loader.clearWhile ⟨m, 0, l.ramImageEnd⟩ l.ramImageEnd).mem
  else
    let p : Loader := ⟨m, l.kramStart, if l.kram ≠ 0 then l.kram else l.ram⟩
    let p := if l.kramEnd ≠ l.kramStart then p.copyWhile l.kramEnd else p
    let p : Loader := if l.ram ≠ 0 then ⟨p.mem, p.rdp, l.ram⟩ else p
    let p := p.copyFor (l.ramImageEnd - l.ram)
    (p.clearFor (l.bssImageEnd - l.ramImageEnd)).mem

/-! ## What it is for -/

namespace Layout

variable (l : Layout)

/-- The words of the kernel RAM to be filled: none if there is no kernel RAM. -/
def kramWords : ℕ := if l.kram = 0 then 0 else l.kramEnd - l.kram

def ramWords : ℕ := l.ramImageEnd - l.ram

/-- An address of `[_kram, _kram_end)`. -/
def InKram (a : ℕ) : Prop := l.kram ≤ a ∧ a < l.kram + l.kramWords

/-- An address of `[_ram, _ram_image_end)`. -/
def InRam (a : ℕ) : Prop := l.ram ≤ a ∧ a < l.ramImageEnd

/-- An address of `[_ram_image_end, _bss_image_end)`. -/
def InBss (a : ℕ) : Prop := l.ramImageEnd ≤ a ∧ a < l.bssImageEnd

/-- An address of the image in flash. -/
def InImage (a : ℕ) : Prop := l.kramStart ≤ a ∧ a < l.kramStart + l.kramWords + l.ramWords

/-- The layouts of the linker scripts: the regions to be set up are ascending and apart, and so is
the image, if there is one.  A script without kernel RAM ends it where it starts. -/
structure Linked : Prop where
  ram_set : l.ram ≠ 0
  kram_ascends : l.kram ≠ 0 → l.kram ≤ l.kramEnd
  kram_none : l.kram = 0 → l.kramEnd = l.kramStart ∨ l.kramEnd ≤ l.ram
  ram_ascends : l.ram ≤ l.ramImageEnd
  bss_ascends : l.ramImageEnd ≤ l.bssImageEnd
  kram_apart : ∀ a, l.InKram a → ¬(l.InRam a ∨ l.InBss a)
  image_apart : l.rom ≠ 0 → ∀ a, l.InImage a → ¬(l.InKram a ∨ l.InRam a ∨ l.InBss a)

/-- Memory `m'` is set up as linked, starting from the words `w`. -/
structure SetUp (w : ℕ → BitVec 32) (m' : Memory) : Prop where
  kram : l.rom ≠ 0 → ∀ i < l.kramWords, m'.word (l.kram + i) = w (l.kramStart + i)
  ram : l.rom ≠ 0 → ∀ i < l.ramWords,
    m'.word (l.ram + i) = w (l.kramStart + l.kramWords + i)
  bss : ∀ a, l.InBss a → m'.word a = 0
  only : ∀ a ∈ m'.stored, (l.rom ≠ 0 ∧ (l.InKram a ∨ l.InRam a)) ∨ l.InBss a

/-- The kernel's part of the image is in place, and the words that come first in the image are those
of the part after it. -/
def Placed (w : ℕ → BitVec 32) : Prop :=
  (∀ i < l.kramWords, w (l.kram + i) = w (l.kramStart + i)) ∧
  ∀ i < l.ramWords, w (l.kramStart + i) = w (l.kramStart + l.kramWords + i)

/-- Without flash the BSS is zero by itself; a kernel's part that ends where the image begins is in
place by itself. -/
def Ready (w : ℕ → BitVec 32) : Prop :=
  (l.rom = 0 → ∀ a, l.InBss a → w a = 0) ∧
  (l.rom ≠ 0 → 0 < l.kramWords → l.kramEnd = l.kramStart → l.Placed w)

end Layout

/-! ## Runs of stores -/

/-- `m'` comes from `m` by storing `f 0`, …, `f (n - 1)` from `wrp` on. -/
structure Wrote (m m' : Memory) (wrp n : ℕ) (f : ℕ → BitVec 32) : Prop where
  word : ∀ i < n, m'.word (wrp + i) = f i
  frame : ∀ a, a < wrp ∨ wrp + n ≤ a → m'.word a = m.word a
  stored : ∀ a, a ∈ m'.stored ↔ a ∈ m.stored ∨ wrp ≤ a ∧ a < wrp + n

theorem Memory.store_word_self (m : Memory) (a : ℕ) (v : BitVec 32) : (m.store a v).word a = v :=
  if_pos rfl

theorem Memory.store_word_of_ne (m : Memory) {a b : ℕ} (v : BitVec 32) (h : b ≠ a) :
    (m.store a v).word b = m.word b := if_neg h

theorem Wrote.none (m : Memory) (wrp : ℕ) (f : ℕ → BitVec 32) : Wrote m m wrp 0 f where
  word := fun i hi => absurd hi (Nat.not_lt_zero i)
  frame := fun _ _ => rfl
  stored := fun a => by
    constructor
    · exact .inl
    · rintro (h | h)
      · exact h
      · omega

/-- A run grows by the store of the next word. -/
theorem Wrote.more {m m' : Memory} {wrp n : ℕ} {f : ℕ → BitVec 32} (h : Wrote m m' wrp n f) :
    Wrote m (m'.store (wrp + n) (f n)) wrp (n + 1) f where
  word := by
    intro i hi
    rcases Nat.lt_succ_iff_lt_or_eq.mp hi with hlt | rfl
    · rw [Memory.store_word_of_ne _ _ (by omega), h.word i hlt]
    · exact Memory.store_word_self _ _ _
  frame := by
    intro a ha
    rw [Memory.store_word_of_ne _ _ (by omega), h.frame a (by omega)]
  stored := by
    intro a
    show a ∈ (wrp + n) :: m'.stored ↔ _
    rw [List.mem_cons, h.stored]
    constructor
    · rintro (rfl | hm | hin)
      · exact .inr (by omega)
      · exact .inl hm
      · exact .inr (by omega)
    · rintro (hm | hin)
      · exact .inr (.inl hm)
      · by_cases hlast : a = wrp + n
        · exact .inl hlast
        · exact .inr (.inr (by omega))

namespace Loader

/-- The pointers after `n` words. -/
theorem iterate_copy_pointers (p : Loader) (n : ℕ) :
    (p.copyFor n).rdp = p.rdp + n ∧ (p.copyFor n).wrp = p.wrp + n := by
  induction n with
  | zero => exact ⟨rfl, rfl⟩
  | succ n ih =>
    rw [copyFor, Function.iterate_succ_apply']
    constructor
    · show (p.copyFor n).rdp + 1 = _
      rw [ih.1]
      omega
    · show (p.copyFor n).wrp + 1 = _
      rw [ih.2]
      omega

/-- The copy loop stores the words that were at `rdp`, if source and destination are apart. -/
theorem copies_words (p : Loader) (n : ℕ)
    (happart : ∀ i < n, p.rdp + i < p.wrp ∨ p.wrp + n ≤ p.rdp + i) :
    Wrote p.mem (p.copyFor n).mem p.wrp n fun i => p.mem.word (p.rdp + i) := by
  -- the loop stays apart while it has not ended, which is what the induction is on
  have hpart : ∀ k ≤ n, Wrote p.mem (p.copyFor k).mem p.wrp k fun i => p.mem.word (p.rdp + i) := by
    intro k
    induction k with
    | zero => exact fun _ => Wrote.none _ _ _
    | succ k ih =>
      intro hk
      have hdone := ih (by omega)
      obtain ⟨hrdp, hwrp⟩ := p.iterate_copy_pointers k
      have hread : (p.copyFor k).mem.word (p.copyFor k).rdp = p.mem.word (p.rdp + k) := by
        rw [hrdp]
        exact hdone.frame _ (by have := happart k (by omega); omega)
      rw [copyFor, Function.iterate_succ_apply']
      show Wrote p.mem ((p.copyFor k).mem.store (p.copyFor k).wrp
        ((p.copyFor k).mem.word (p.copyFor k).rdp)) _ _ _
      rw [hread, hwrp]
      exact hdone.more
  exact hpart n (Nat.le_refl n)

theorem iterate_clear_wrp (p : Loader) (n : ℕ) : (p.clearFor n).wrp = p.wrp + n := by
  induction n with
  | zero => rfl
  | succ n ih =>
    rw [clearFor, Function.iterate_succ_apply']
    show (p.clearFor n).wrp + 1 = _
    rw [ih]
    omega

/-- The loop of the BSS stores zeros. -/
theorem clears_words (p : Loader) (n : ℕ) :
    Wrote p.mem (p.clearFor n).mem p.wrp n fun _ => 0 := by
  induction n with
  | zero => exact Wrote.none _ _ _
  | succ n ih =>
    rw [clearFor, Function.iterate_succ_apply']
    show Wrote p.mem ((p.clearFor n).mem.store (p.clearFor n).wrp 0) _ _ _
    rw [iterate_clear_wrp]
    exact ih.more

/-- The loop `while(wrp < end)` runs once for each word that is missing. -/
theorem copyWhile_eq (p : Loader) (stop : ℕ) : p.copyWhile stop = p.copyFor (stop - p.wrp) := by
  fun_induction copyWhile p stop with
  | case1 p hlt ih =>
    rw [ih, show stop - p.wrp = stop - (p.wrp + 1) + 1 by omega]
    rfl
  | case2 p hge =>
    rw [show stop - p.wrp = 0 by omega]
    rfl

end Loader

/-! ## Memory as linked -/

section Boot

variable {l : Layout}

/-- Without flash the loop starts where it ends. -/
theorem bootloader_of_rom_zero (hrom : l.rom = 0) (m : Memory) : bootloader l m = m := by
  rw [bootloader, if_pos hrom, Loader.clearWhile, if_neg (Nat.lt_irrefl _)]

/-- The words of the kernel's part that are copied. -/
def copied (l : Layout) : ℕ := if l.kramEnd = l.kramStart then 0 else l.kramWords

theorem copied_le (l : Layout) : copied l ≤ l.kramWords := by
  rw [copied]
  split
  · exact Nat.zero_le _
  · exact Nat.le_refl _

/-- The loader after the kernel's part. -/
def kramLoaded (l : Layout) (m : Memory) : Loader :=
  let p : Loader := ⟨m, l.kramStart, if l.kram ≠ 0 then l.kram else l.ram⟩
  if l.kramEnd ≠ l.kramStart then p.copyWhile l.kramEnd else p

/-- The kernel's part is one run, which may be empty. -/
theorem kramLoaded_wrote (hlinked : l.Linked) (hrom : l.rom ≠ 0) (m : Memory) :
    Wrote m (kramLoaded l m).mem l.kram (copied l) (fun i => m.word (l.kramStart + i)) ∧
    (kramLoaded l m).rdp = l.kramStart + copied l := by
  by_cases hskip : l.kramEnd = l.kramStart
  · rw [kramLoaded, if_neg (not_not_intro hskip), copied, if_pos hskip]
    exact ⟨Wrote.none _ _ _, rfl⟩
  · rw [kramLoaded, if_pos hskip, copied, if_neg hskip, Loader.copyWhile_eq]
    by_cases hkram : l.kram = 0
    · -- the pointer is in the main RAM, beyond the end that the loop looks at
      have hend : l.kramEnd ≤ l.ram := (hlinked.kram_none hkram).resolve_left hskip
      rw [if_neg (not_not_intro hkram), Layout.kramWords, if_pos hkram, Nat.sub_eq_zero_of_le hend]
      exact ⟨Wrote.none _ _ _, rfl⟩
    · have hwords : l.kramEnd - l.kram = l.kramWords := by rw [Layout.kramWords, if_neg hkram]
      rw [if_pos hkram, hwords]
      refine ⟨Loader.copies_words ⟨m, l.kramStart, l.kram⟩ _ fun i hi => ?_,
        (Loader.iterate_copy_pointers _ _).1⟩
      show l.kramStart + i < l.kram ∨ l.kram + l.kramWords ≤ l.kramStart + i
      by_contra hin
      exact hlinked.image_apart hrom (l.kramStart + i) ⟨by omega, by omega⟩
        (.inl ⟨by omega, by omega⟩)

/-- **The loader is three runs**: the kernel's part, the rest of the image, and zeros. -/
theorem bootloader_wrote (hlinked : l.Linked) (hrom : l.rom ≠ 0) (m : Memory) :
    ∃ m₁ m₂, Wrote m m₁ l.kram (copied l) (fun i => m.word (l.kramStart + i)) ∧
      Wrote m₁ m₂ l.ram l.ramWords (fun i => m.word (l.kramStart + copied l + i)) ∧
      Wrote m₂ (bootloader l m) l.ramImageEnd (l.bssImageEnd - l.ramImageEnd) fun _ => 0 := by
  obtain ⟨hkram, hrdp⟩ := kramLoaded_wrote hlinked hrom m
  have hboot : bootloader l m =
      ((Loader.copyFor ⟨(kramLoaded l m).mem, (kramLoaded l m).rdp, l.ram⟩ l.ramWords).clearFor
        (l.bssImageEnd - l.ramImageEnd)).mem := by
    rw [bootloader, if_neg hrom]
    show (Loader.clearFor (Loader.copyFor (if l.ram ≠ 0 then _ else _) _) _).mem = _
    rw [if_pos hlinked.ram_set]
    rfl
  have hle := copied_le l
  have himage : ∀ i < l.ramWords, l.InImage (l.kramStart + copied l + i) :=
    fun i hi => ⟨by omega, by omega⟩
  have hram : l.ram + l.ramWords = l.ramImageEnd := Nat.add_sub_cancel' hlinked.ram_ascends
  have hcopied := Loader.copies_words ⟨(kramLoaded l m).mem, (kramLoaded l m).rdp, l.ram⟩
    l.ramWords fun i hi => by
      show (kramLoaded l m).rdp + i < l.ram ∨ l.ram + l.ramWords ≤ (kramLoaded l m).rdp + i
      rw [hrdp]
      by_contra hin
      exact hlinked.image_apart hrom _ (himage i hi) (.inr (.inl ⟨by omega, by omega⟩))
  have hcleared := Loader.clears_words
    (Loader.copyFor ⟨(kramLoaded l m).mem, (kramLoaded l m).rdp, l.ram⟩ l.ramWords)
    (l.bssImageEnd - l.ramImageEnd)
  rw [(Loader.iterate_copy_pointers _ _).2, show (Loader.mk (kramLoaded l m).mem
    (kramLoaded l m).rdp l.ram).wrp + l.ramWords = l.ramImageEnd from hram] at hcleared
  rw [hboot]
  refine ⟨_, _, hkram, ⟨fun i hi => ?_, hcopied.frame, hcopied.stored⟩, hcleared⟩
  -- the image is as it was before the kernel's part was copied
  rw [hcopied.word i hi]
  show (kramLoaded l m).mem.word ((kramLoaded l m).rdp + i) = _
  rw [hrdp]
  refine hkram.frame _ ?_
  by_contra hin
  exact hlinked.image_apart hrom _ (himage i hi) (.inl ⟨by omega, by omega⟩)

/-- What the loader leaves, with flash. -/
theorem bootloader_word (hlinked : l.Linked) (hrom : l.rom ≠ 0) (m : Memory) :
    (∀ i < copied l, (bootloader l m).word (l.kram + i) = m.word (l.kramStart + i)) ∧
    (∀ i < l.ramWords, (bootloader l m).word (l.ram + i) =
      m.word (l.kramStart + copied l + i)) ∧
    (∀ a, l.InBss a → (bootloader l m).word a = 0) ∧
    (copied l = 0 → ∀ a, l.InKram a → (bootloader l m).word a = m.word a) ∧
    ∀ a, a ∈ (bootloader l m).stored ↔ a ∈ m.stored ∨ (l.kram ≤ a ∧ a < l.kram + copied l) ∨
      l.InRam a ∨ l.InBss a := by
  obtain ⟨m₁, m₂, hkram, hram, hbss⟩ := bootloader_wrote hlinked hrom m
  have hascends := hlinked.ram_ascends
  have hbascends := hlinked.bss_ascends
  have hend : l.ram + l.ramWords = l.ramImageEnd := Nat.add_sub_cancel' hascends
  have hle := copied_le l
  -- the kernel RAM is apart from what the two later runs store to
  have hleft : ∀ a, l.InKram a → (bootloader l m).word a = m₁.word a := by
    intro a ha
    have hno := hlinked.kram_apart a ha
    simp only [Layout.InRam, Layout.InBss, not_or, not_and] at hno
    rw [hbss.frame a (by omega), hram.frame a (by omega)]
  refine ⟨fun i hi => ?_, fun i hi => ?_, fun a ha => ?_, fun hnone a ha => ?_, fun a => ?_⟩
  · rw [hleft _ ⟨by omega, by omega⟩]
    exact hkram.word i hi
  · rw [hbss.frame _ (.inl (by omega))]
    exact hram.word i hi
  · obtain ⟨hge, hlt⟩ := ha
    obtain ⟨i, rfl⟩ := Nat.exists_eq_add_of_le hge
    exact hbss.word i (by omega)
  · rw [hleft a ha]
    exact hkram.frame a (by omega)
  · rw [hbss.stored, hram.stored, hkram.stored, hend, Nat.add_sub_cancel' hbascends,
      or_assoc, or_assoc]
    rfl

/-- **When memory is set up as linked**, for every layout and every content of memory. -/
theorem boots_iff (l : Layout) (hlinked : l.Linked) (w : ℕ → BitVec 32) :
    l.SetUp w (bootloader l ⟨w, []⟩) ↔ l.Ready w := by
  by_cases hrom : l.rom = 0
  · rw [bootloader_of_rom_zero hrom]
    constructor
    · intro h
      exact ⟨fun _ => h.bss, fun hno => absurd hrom hno⟩
    · intro h
      exact ⟨fun hno => absurd hrom hno, fun hno => absurd hrom hno, h.1 hrom,
        fun a ha => absurd ha List.not_mem_nil⟩
  · obtain ⟨hkram, hram, hbss, hleft, hstored⟩ := bootloader_word hlinked hrom ⟨w, []⟩
    have honly : ∀ a ∈ (bootloader l ⟨w, []⟩).stored,
        (l.rom ≠ 0 ∧ (l.InKram a ∨ l.InRam a)) ∨ l.InBss a := by
      intro a ha
      have hle := copied_le l
      rcases (hstored a).mp ha with hnil | ⟨hge, hlt⟩ | hin | hin
      · exact absurd hnil List.not_mem_nil
      · exact .inl ⟨hrom, .inl ⟨hge, by omega⟩⟩
      · exact .inl ⟨hrom, .inr hin⟩
      · exact .inr hin
    by_cases hskip : 0 < l.kramWords ∧ l.kramEnd = l.kramStart
    · -- nothing is copied to the kernel RAM, and the rest begins where the kernel's part is
      have hnone : copied l = 0 := by rw [copied, if_pos hskip.2]
      have hplace : ∀ i < l.kramWords, (bootloader l ⟨w, []⟩).word (l.kram + i) = w (l.kram + i) :=
        fun i hi => hleft hnone _ ⟨by omega, by omega⟩
      rw [hnone] at hram
      constructor
      · intro h
        refine ⟨fun hno => absurd hno hrom, fun _ _ _ => ⟨fun i hi => ?_, fun i hi => ?_⟩⟩
        · rw [← hplace i hi]
          exact h.kram hrom i hi
        · rw [← h.ram hrom i hi]
          exact (hram i hi).symm
      · intro h
        obtain ⟨hfirst, hrest⟩ := h.2 hrom hskip.1 hskip.2
        refine ⟨fun _ i hi => ?_, fun _ i hi => ?_, hbss, honly⟩
        · rw [hplace i hi]
          exact hfirst i hi
        · rw [hram i hi]
          exact hrest i hi
    · have hall : copied l = l.kramWords := by
        rw [copied]
        split
        · omega
        · rfl
      rw [hall] at hkram hram
      exact ⟨fun _ => ⟨fun hno => absurd hno hrom, fun _ hpos heq => absurd ⟨hpos, heq⟩ hskip⟩,
        fun _ => ⟨fun _ => hkram, fun _ => hram, hbss, honly⟩⟩

/-- A layout of `board.ld`: two words for the kernel RAM, three for the SDRAM, and a BSS of four. -/
def boardLayout : Layout where
  rom := 0x80000
  kram := 0x60000
  ram := 0x100000
  kramStart := 0x80010
  kramEnd := 0x60002
  ramImageEnd := 0x100003
  bssImageEnd := 0x100007

theorem boots_iff_board : boardLayout.SetUp (fun a => BitVec.ofNat 32 a)
    (bootloader boardLayout ⟨fun a => BitVec.ofNat 32 a, []⟩) :=
  (boots_iff boardLayout
    ⟨by decide, by decide, by decide, by decide, by decide,
      by simp [boardLayout, Layout.InKram, Layout.InRam, Layout.InBss, Layout.kramWords]; omega,
      by simp [boardLayout, Layout.InImage, Layout.InKram, Layout.InRam, Layout.InBss,
          Layout.kramWords, Layout.ramWords]; omega⟩ _).mpr
    ⟨fun h => absurd h (by decide), fun _ _ h => absurd h (by decide)⟩

/-- A layout of `bkram.ld`: a program of four words, and a BSS of one. -/
def bkramLayout : Layout where
  rom := 0
  kram := 0
  ram := 0x60000
  kramStart := 0x60000
  kramEnd := 0x60000
  ramImageEnd := 0x60004
  bssImageEnd := 0x60005

theorem bkramLayout_linked : bkramLayout.Linked where
  ram_set := by decide
  kram_ascends := by decide
  kram_none := by decide
  ram_ascends := by decide
  bss_ascends := by decide
  kram_apart := by
    rintro a ⟨hge, hlt⟩
    exact absurd hlt (Nat.not_lt.mpr hge)
  image_apart := fun hrom => absurd rfl hrom

/-- After a warm restart the BSS is what it was. -/
theorem bkramLayout_stale : bkramLayout.Linked ∧
    ¬bkramLayout.SetUp (fun _ => 1) (bootloader bkramLayout ⟨fun _ => 1, []⟩) := by
  refine ⟨bkramLayout_linked, fun h => ?_⟩
  have hzero := h.bss 0x60004 ⟨by decide, by decide⟩
  rw [bootloader_of_rom_zero rfl] at hzero
  exact absurd hzero (by decide)

end Boot

end ZipStormMX.Zlib
