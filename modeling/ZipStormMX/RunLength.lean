/-
  Run-length words and what they expand to.

  A word is a value, or a count `v` that repeats the last value `v + 1` times.  Counts before the
  first value stand for nothing.  Nothing here knows who encodes.

  * `expand`             the values that a list of words stands for;
  * `expand_append_one`  one word more extends the expansion, and never takes anything back;
  * `expand_append`      the last words alone stand for a last part of what all of them stand for;
  * `extend_again_succ`  a larger count is one value more: an encoder may replace its last count;
  * `sum_weight`         how many values the words stand for, and how many are lost in front.
-/
import Mathlib.Algebra.GroupWithZero.Nat
import Mathlib.Data.List.Induction
import Mathlib.Data.List.TakeWhile

namespace ZipStormMX.RunLength

variable {α : Type*}

/-- A value, or how often the last one comes again, less one. -/
inductive Word (α : Type*) where
  | data (d : α)
  | again (v : ℕ)
  deriving DecidableEq, Repr

def Word.isData : Word α → Bool
  | .data _ => true
  | .again _ => false

/-- How many values a word stands for. -/
def Word.weight : Word α → ℕ
  | .data _ => 1
  | .again v => v + 1

/-- One word more. -/
def extend (l : List α) : Word α → List α
  | .data d => l ++ [d]
  | .again v =>
    match l.getLast? with
    | some d => l ++ List.replicate (v + 1) d
    | none => l

def expand (ws : List (Word α)) : List α := ws.foldl extend []

@[simp] theorem expand_nil : expand ([] : List (Word α)) = [] := rfl

theorem expand_append_one (ws : List (Word α)) (w : Word α) :
    expand (ws ++ [w]) = extend (expand ws) w := by
  unfold expand
  rw [List.foldl_append]
  rfl

theorem prefix_extend (l : List α) (w : Word α) : l <+: extend l w := by
  unfold extend
  cases w with
  | data d => exact List.prefix_append l [d]
  | again v =>
    show l <+: match l.getLast? with
      | some d => l ++ List.replicate (v + 1) d
      | none => l
    split
    · exact List.prefix_append l _
    · exact List.prefix_rfl

/-- Words that are added take nothing back. -/
theorem expand_prefix (us vs : List (Word α)) : expand us <+: expand (us ++ vs) := by
  induction vs using List.reverseRecOn with
  | nil => exact ⟨[], by rw [List.append_nil, List.append_nil]⟩
  | append_singleton vs w ih =>
    rw [← List.append_assoc, expand_append_one]
    exact ih.trans (prefix_extend _ _)

theorem extend_again {l : List α} {d : α} (h : l.getLast? = some d) (v : ℕ) :
    extend l (.again v) = l ++ List.replicate (v + 1) d := by
  unfold extend
  rw [h]

/-- A count of zero is the last value once more. -/
theorem extend_again_zero {l : List α} {d : α} (h : l.getLast? = some d) :
    extend l (.again 0) = l ++ [d] := extend_again h 0

/-- The last value stays the last one. -/
theorem getLast?_extend_again (l : List α) (v : ℕ) :
    (extend l (.again v)).getLast? = l.getLast? := by
  cases h : l.getLast? with
  | none =>
    unfold extend
    rw [h]
    exact h
  | some d =>
    rw [extend_again h, List.replicate_succ', ← List.append_assoc, List.getLast?_append]
    rfl

/-- One more in the count is one value more. -/
theorem extend_again_succ {l : List α} {d : α} (v : ℕ)
    (h : (extend l (.again v)).getLast? = some d) :
    extend l (.again (v + 1)) = extend l (.again v) ++ [d] := by
  rw [getLast?_extend_again] at h
  rw [extend_again h, extend_again h, List.replicate_succ', List.append_assoc]

theorem length_extend {l : List α} (h : l ≠ []) (w : Word α) :
    (extend l w).length = l.length + w.weight := by
  cases w with
  | data d => exact List.length_append
  | again v =>
    have hd := List.getLast?_eq_some_getLast h
    rw [extend_again hd, List.length_append, List.length_replicate]
    rfl

/-- **The tail of a recording.**  The words that come last stand, by themselves, for the last part of
what they add to the words before them: only counts in front of their first value are lost. -/
theorem expand_append (us vs : List (Word α)) :
    ∃ m, expand (us ++ vs) = expand us ++ m ∧ expand vs <:+ m := by
  induction vs using List.reverseRecOn with
  | nil => exact ⟨[], by rw [List.append_nil, List.append_nil], List.suffix_rfl⟩
  | append_singleton vs w ih =>
    obtain ⟨m, hall, hsuffix⟩ := ih
    rw [← List.append_assoc, expand_append_one, expand_append_one, hall]
    cases w with
    | data d =>
      refine ⟨m ++ [d], List.append_assoc _ _ _, ?_⟩
      obtain ⟨l, rfl⟩ := hsuffix
      exact ⟨l, (List.append_assoc _ _ _).symm⟩
    | again v =>
      cases hlast : (expand vs).getLast? with
      | none =>
        -- a count with nothing to repeat
        have hnil : expand vs = [] := List.getLast?_eq_none_iff.mp hlast
        rw [hnil]
        cases hbase : (expand us ++ m).getLast? with
        | none =>
          refine ⟨m, ?_, List.nil_suffix⟩
          unfold extend
          rw [hbase]
        | some d =>
          exact ⟨m ++ List.replicate (v + 1) d, by rw [extend_again hbase, List.append_assoc],
            List.nil_suffix⟩
      | some d =>
        obtain ⟨l, rfl⟩ := hsuffix
        have hbase : (expand us ++ (l ++ expand vs)).getLast? = some d := by
          rw [← List.append_assoc, List.getLast?_append, hlast]
          rfl
        rw [extend_again hbase, extend_again hlast]
        exact ⟨l ++ expand vs ++ List.replicate (v + 1) d, by rw [List.append_assoc],
          ⟨l, (List.append_assoc _ _ _).symm⟩⟩

/-- A value stands where the expansion of the words before it ends. -/
theorem expand_at (us vs : List (Word α)) (d : α) :
    (expand (us ++ .data d :: vs))[(expand us).length]? = some d := by
  have hprefix : expand us ++ [d] <+: expand (us ++ .data d :: vs) := by
    rw [show us ++ .data d :: vs = us ++ [.data d] ++ vs by rw [List.append_assoc]; rfl,
      show expand us ++ [d] = expand (us ++ [.data d]) from (expand_append_one us (.data d)).symm]
    exact expand_prefix _ _
  obtain ⟨l, hl⟩ := hprefix
  rw [← hl, List.append_assoc, List.getElem?_append_right (Nat.le_refl _), Nat.sub_self]
  rfl

/-! ## Counting -/

/-- What the counts in front of the first value would stand for. -/
def lead (ws : List (Word α)) : ℕ := ((ws.takeWhile fun w => !w.isData).map Word.weight).sum

theorem expand_eq_nil {ws : List (Word α)} : expand ws = [] ↔ ∀ w ∈ ws, w.isData = false := by
  induction ws using List.reverseRecOn with
  | nil => exact iff_of_true rfl fun w hw => absurd hw List.not_mem_nil
  | append_singleton ws w ih =>
    rw [expand_append_one, List.forall_mem_append, List.forall_mem_singleton, ← ih]
    cases w with
    | data d =>
      exact iff_of_false (List.concat_ne_nil d _) fun hno => absurd hno.2 Bool.noConfusion
    | again v =>
      constructor
      · intro hnil
        exact ⟨List.prefix_nil.mp (hnil ▸ prefix_extend _ _), rfl⟩
      · rintro ⟨hnil, -⟩
        rw [hnil]
        rfl

theorem lead_of_expand_nil {us : List (Word α)} (h : expand us = []) (vs : List (Word α)) :
    lead (us ++ vs) = (us.map Word.weight).sum + lead vs := by
  have hall : (us.takeWhile fun w => !w.isData) = us :=
    List.takeWhile_eq_self_iff.mpr fun w hw => by rw [expand_eq_nil.mp h w hw]; rfl
  rw [lead, List.takeWhile_append, hall, if_pos rfl, List.map_append, List.sum_append, ← lead]

theorem lead_append {us : List (Word α)} (h : expand us ≠ []) (vs : List (Word α)) :
    lead (us ++ vs) = lead us := by
  have hnot : (us.takeWhile fun w => !w.isData).length ≠ us.length := by
    intro hlen
    have hall := (List.takeWhile_prefix fun w : Word α => !w.isData).eq_of_length hlen
    refine h (expand_eq_nil.mpr fun w hw => ?_)
    simpa using List.takeWhile_eq_self_iff.mp hall w hw
  rw [lead, List.takeWhile_append, if_neg hnot, ← lead]

/-- The words stand for as many values as they weigh, less the counts in front. -/
theorem sum_weight (ws : List (Word α)) :
    (ws.map Word.weight).sum = (expand ws).length + lead ws := by
  induction ws using List.reverseRecOn with
  | nil => rfl
  | append_singleton ws w ih =>
    rw [List.map_append, List.sum_append, List.map_singleton, List.sum_singleton, expand_append_one]
    by_cases hnil : expand ws = []
    · rw [hnil, lead_of_expand_nil hnil]
      cases w with
      | data d => exact Nat.add_comm _ _
      | again v => exact (Nat.zero_add _).symm
    · rw [lead_append hnil, length_extend hnil, ih]
      exact Nat.add_right_comm _ _ _

theorem lead_append_data (us vs : List (Word α)) (d : α) :
    lead (us ++ .data d :: vs) = lead us := by
  by_cases hnil : expand us = []
  · have hlead := sum_weight us
    rw [hnil, List.length_nil, Nat.zero_add] at hlead
    rw [lead_of_expand_nil hnil, hlead]
    rfl
  · exact lead_append hnil _

/-- **The place of a value.**  A value stands where the words in front of it come to by weight, but for
the counts in front of the first one. -/
theorem expand_place (us vs : List (Word α)) (d : α) :
    ∃ k, (us.map Word.weight).sum = k + lead (us ++ .data d :: vs) ∧
      (expand (us ++ .data d :: vs))[k]? = some d := by
  exact ⟨(expand us).length, by rw [sum_weight, lead_append_data], expand_at us vs d⟩

end ZipStormMX.RunLength
