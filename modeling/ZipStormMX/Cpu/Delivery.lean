/-
  What it means for a fetch unit to deliver the program, and that `prefetch` does.

  `Watch` is an observer on the ports of a fetch unit.  It keeps the address that is due next, the
  requests that the bus has taken and not answered, and the addresses whose fetch has failed since
  the last jump.  A unit delivers the program if every instruction taken from it is the one that is
  due.  Nothing here depends on how the unit works.
-/
import ZipStormMX.Clocked
import ZipStormMX.Cpu.Prefetch
import ZipStormMX.Cpu.Stages

namespace ZipStormMX.Cpu

variable {AW : ℕ}

/-! ## The observer -/

/-- The decoder takes what the fetch unit shows. -/
def FetchIn.taken (i : FetchIn AW) (o : FetchOut AW) : Bool :=
  o.oValid && i.iStallN && !(i.iReset || i.iNewPc || i.iClearCache)

/-- What the ports have shown so far. -/
structure Watch (AW : ℕ) where
  due : Option (BitVec (AW + 2))
  asked : List (BitVec AW)
  failed : List (BitVec AW)

namespace Watch

/-- Before anything has happened. -/
def empty : Watch AW := { due := none, asked := [], failed := [] }

variable (w : Watch AW) (i : FetchIn AW) (o : FetchOut AW)

/-- The requests that can be answered on this clock, oldest first. -/
def flying : List (BitVec AW) :=
  w.asked ++ if o.oWbStb && !i.iWbStall then [o.oWbAddr] else []

def nextDue : Option (BitVec (AW + 2)) :=
  if i.iReset then none
  else if i.iNewPc then some i.iPc
  else if i.taken o then w.due.map (· + 4)
  else w.due

/-- A cycle that is dropped takes its requests with it. -/
def nextAsked : List (BitVec AW) :=
  if !o.oWbCyc then []
  else if i.iWbAck || i.iWbErr then (flying w i o).tail
  else flying w i o

def nextFailed : List (BitVec AW) :=
  if i.iReset || i.iNewPc then []
  else if o.oWbCyc && i.iWbErr then (flying w i o).take 1 ++ w.failed
  else w.failed

def step : Watch AW :=
  { due := nextDue w i o, asked := nextAsked w i o, failed := nextFailed w i o }

/-- A memory on the bus: it answers requests of the present cycle only, one at a time and in order,
    each with its word or an error. -/
structure Served (mem : BitVec AW → BitVec 32) : Prop where
  ack : i.iWbAck = true → o.oWbCyc = true ∧ ∃ a l, flying w i o = a :: l ∧ i.iWbData = mem a
  err : i.iWbErr = true → o.oWbCyc = true ∧ flying w i o ≠ []
  one : ¬(i.iWbAck = true ∧ i.iWbErr = true)

/-- What the decoder takes is the instruction that is due, or the error that its fetch met. -/
def Right (mem : BitVec AW → BitVec 32) : Prop :=
  i.taken o = true → ∃ pc, w.due = some pc ∧ o.oPc = pc ∧
    (o.oIllegal = true ↔ wordOf pc ∈ w.failed) ∧
    (o.oIllegal = false → o.oInsn = mem (wordOf pc))

/-- What the observer has seen before clock `n`. -/
def seen (i : ℕ → FetchIn AW) (o : ℕ → FetchOut AW) : ℕ → Watch AW
  | 0 => empty
  | n + 1 => step (seen i o n) (i n) (o n)

end Watch

/-- **Delivery.**  From the first clock after reset on, whatever is taken is right. -/
def Delivers (mem : BitVec AW → BitVec 32) (i : ℕ → FetchIn AW) (o : ℕ → FetchOut AW) : Prop :=
  ∀ n, 0 < n → Watch.Right (Watch.seen i o n) (i n) (o n) mem

/-- What the CPU keeps to on the ports of its fetch unit: it begins with a reset, follows each reset
    and each clearing of the cache by a jump, and jumps to whole words. -/
structure Driven (i : ℕ → FetchIn AW) : Prop where
  reset : (i 0).iReset = true
  jumps : ∀ n, (i n).iReset = true ∨ (i n).iClearCache = true → (i (n + 1)).iNewPc = true
  aligned : ∀ n, 0 < n → (i n).iNewPc = true → byteAddr (wordOf (i n).iPc) 0#2 = (i n).iPc

/-! ## Addresses -/

theorem wordOf_byteAddr (w : BitVec AW) (lo : BitVec 2) : wordOf (byteAddr w lo) = w :=
  BitVec.extractLsb'_append_eq_left

/-- The next word is four bytes on. -/
theorem byteAddr_succ (w : BitVec AW) : byteAddr w 0#2 + 4 = byteAddr (w + 1) 0#2 := by
  have hval : ∀ v : BitVec AW, (byteAddr v 0#2).toNat = 4 * v.toNat := fun v => by
    simp [byteAddr, BitVec.toNat_append, Nat.shiftLeft_eq, Nat.mul_comm]
  have hpow : 2 ^ (AW + 2) = 4 * 2 ^ AW := by
    rw [Nat.pow_add, Nat.mul_comm]
  have hsum : (byteAddr w 0#2 + 4).toNat = (4 * w.toNat + 4) % (4 * 2 ^ AW) := by
    rw [BitVec.toNat_add, hval, hpow]
    simp [hpow]
  have hone : (w + 1).toNat = (w.toNat + 1) % 2 ^ AW := by
    rw [BitVec.toNat_add]
    simp
  apply BitVec.eq_of_toNat_eq
  rw [hsum, hval, hone, ← Nat.mul_mod_mul_left, Nat.mul_add, Nat.mul_one]

/-! ## prefetch -/

namespace Prefetch

variable {mem : BitVec AW → BitVec 32} {i : ℕ → FetchIn AW} {s : ℕ → Prefetch AW}

/-- Where the bus stands: `prefetch` has one request under way, and none while it shows a word. -/
structure Asking (s : Prefetch AW) (w : Watch AW) : Prop where
  quiet : s.oWbCyc = true → s.oValid = false
  abandoned : s.invalid = true → s.oValid = false ∧ s.oWbCyc = false
  strobe : s.oWbCyc = true → s.oWbStb = true → w.asked = []
  waiting : s.oWbCyc = true → s.oWbStb = false → w.asked = [s.oWbAddr]

/-- Where the program stands: the address is the one that is due, its fetch has failed or not, and
    the word shown is that of the memory.  Once an error has been taken, the address stays behind
    and nothing is fetched until the next jump. -/
structure Fetching (mem : BitVec AW → BitVec 32) (s : Prefetch AW) (w : Watch AW) : Prop where
  due : s.oIllegal = false ∨ s.oValid = true → w.due = some (byteAddr s.oWbAddr 0#2)
  failed : w.failed = if s.oIllegal then [s.oWbAddr] else []
  busy : s.oWbCyc = true ∨ s.invalid = true → s.oIllegal = false
  word : s.oValid = true → s.oIllegal = false → s.oInsn = mem s.oWbAddr

section Step

variable {s : Prefetch AW} {w : Watch AW} {i : FetchIn AW}

/-- The request that an answer is for. -/
theorem Asking.flying (h : Asking s w) (hs : Watch.Served w i (out s) mem)
    (ha : i.iWbAck = true ∨ i.iWbErr = true) :
    s.oWbCyc = true ∧ Watch.flying w i (out s) = [s.oWbAddr] := by
  have hcyc : s.oWbCyc = true := by
    rcases ha with ha | ha
    · exact (hs.ack ha).1
    · exact (hs.err ha).1
  have hne : Watch.flying w i (out s) ≠ [] := by
    rcases ha with ha | ha
    · obtain ⟨-, a, l, hl, -⟩ := hs.ack ha
      simp [hl]
    · exact (hs.err ha).2
  refine ⟨hcyc, ?_⟩
  cases hstb : s.oWbStb
  · simp [Watch.flying, out, h.waiting hcyc hstb, hstb]
  · have hasked := h.strobe hcyc hstb
    cases hstall : i.iWbStall
    · simp [Watch.flying, out, hasked, hstb, hstall]
    · simp [Watch.flying, out, hasked, hstall] at hne

/-- A bus cycle goes on: it was not answered, and there was neither reset nor jump. -/
theorem nextCyc_cases (h : nextCyc s i = true) :
    (s.oWbCyc = false ∧ nextStb s i = true ∧ start s i = true ∧ i.iReset = false) ∨
      (s.oWbCyc = true ∧ answered s i = false ∧ i.iReset = false ∧ i.iNewPc = false ∧
        nextStb s i = (i.iWbStall && s.oWbStb)) := by
  cases hr : i.iReset
  · cases hcyc : s.oWbCyc
    · have hans : answered s i = false := by
        simp [answered, hcyc]
      have hst : start s i = true := by
        simpa [nextCyc, hr, hans, hcyc] using h
      exact .inl ⟨rfl, by simp [nextStb, hr, hans, hcyc, hst], hst, rfl⟩
    · have hans : answered s i = false ∧ i.iNewPc = false := by
        simpa [nextCyc, hr, hcyc] using h
      refine .inr ⟨rfl, hans.1, rfl, hans.2, ?_⟩
      cases hstall : i.iWbStall <;> simp [nextStb, hr, hans.1, hcyc, hans.2, hstall]
  · simp [nextCyc, hr] at h

theorem Asking.next (h : Asking s w) : Asking (next s i) (Watch.step w i (out s)) where
  quiet hcyc := by
    rcases nextCyc_cases hcyc with ⟨hidle, -, hst, -⟩ | ⟨hcyc', hans, -, -, -⟩
    · have hans : answered s i = false := by
        simp [answered, hidle]
      simp only [start, Bool.or_eq_true, Bool.and_eq_true] at hst
      rcases hst with (⟨hn, -⟩ | hinv) | hnew
      · simp [next_oValid, hans, hn]
      · simp [next_oValid, hans, (h.abandoned hinv).1]
      · simp [next_oValid, flush, hnew]
    · simp [next_oValid, hans, h.quiet hcyc']
  abandoned hinv := by
    have hcases : s.oWbCyc = true ∧ i.iReset = false ∧ i.iNewPc = true := by
      cases hcyc : s.oWbCyc
      · simp [hcyc] at hinv
      · cases hnew : i.iNewPc
        · have hold : s.invalid = true := by
            by_cases hr : i.iReset = true <;> simp_all
          simp [(h.abandoned hold).2] at hcyc
        · by_cases hr : i.iReset = true <;> simp_all
    obtain ⟨hcyc, hr, hnew⟩ := hcases
    refine ⟨by simp [next_oValid, flush, hnew], ?_⟩
    simp [nextCyc, hr, hcyc, hnew]
  strobe hcyc hstb := by
    rcases nextCyc_cases hcyc with ⟨hidle, -, -, -⟩ | ⟨hcyc', hans, -, -, hstb'⟩
    · simp [Watch.step, Watch.nextAsked, out, hidle]
    · have hon : i.iWbStall = true ∧ s.oWbStb = true := by
        simpa [hstb'] using hstb
      have hno : i.iWbAck = false ∧ i.iWbErr = false := by
        simpa [answered, hcyc'] using hans
      simp [Watch.step, Watch.nextAsked, Watch.flying, out, hcyc', hno, hon,
        h.strobe hcyc' hon.2]
  waiting hcyc hstb := by
    rcases nextCyc_cases hcyc with ⟨-, hset, -, -⟩ | ⟨hcyc', hans, -, hnew, hstb'⟩
    · rw [next_oWbStb, hset] at hstb
      simp at hstb
    · have hno : i.iWbAck = false ∧ i.iWbErr = false := by
        simpa [answered, hcyc'] using hans
      have haddr : (Prefetch.next s i).oWbAddr = s.oWbAddr := by
        simp [next_oWbAddr, hnew, h.quiet hcyc']
      rw [haddr]
      cases hs : s.oWbStb
      · simp [Watch.step, Watch.nextAsked, Watch.flying, out, hcyc', hno, hs, h.waiting hcyc' hs]
      · have hstall : i.iWbStall = false := by
          simpa [hstb', hs] using hstb
        simp [Watch.step, Watch.nextAsked, Watch.flying, out, hcyc', hno, hs, hstall,
          h.strobe hcyc' hs]

/-- A jump sets the address. -/
theorem fetching_jump (hr : i.iReset = false) (hnew : i.iNewPc = true)
    (ha : byteAddr (wordOf i.iPc) 0#2 = i.iPc) :
    Fetching mem (Prefetch.next s i) (Watch.step w i (out s)) where
  due _ := by
    simp [Watch.step, Watch.nextDue, hr, hnew, ha]
  failed := by
    simp [Watch.step, Watch.nextFailed, flush, hnew]
  busy _ := by
    simp [flush, hnew]
  word hv := by
    simp [flush, hnew] at hv

/-- Between two jumps. -/
theorem Fetching.next (h : Fetching mem s w) (ha : Asking s w)
    (hs : Watch.Served w i (out s) mem) (hr : i.iReset = false) (hnew : i.iNewPc = false)
    (hclr : i.iClearCache = false) :
    Fetching mem (Prefetch.next s i) (Watch.step w i (out s)) := by
  have hflush : flush i = false := by
    simp [flush, hr, hnew, hclr]
  have hinv : (Prefetch.next s i).invalid = false := by
    cases hinv : s.invalid
    · simp [hnew, hinv]
    · simp [(ha.abandoned hinv).2]
  cases hans : answered s i
  · -- nothing comes back from the bus, and the word shown is kept or taken
    have hno : s.oWbCyc = true → i.iWbAck = false ∧ i.iWbErr = false := fun hcyc => by
      simpa [answered, hcyc] using hans
    have hfailed : (Watch.step w i (out s)).failed = w.failed := by
      cases hcyc : s.oWbCyc
      · simp [Watch.step, Watch.nextFailed, hr, hnew, out, hcyc]
      · simp [Watch.step, Watch.nextFailed, hr, hnew, hno hcyc]
    have hill : (Prefetch.next s i).oIllegal = s.oIllegal := by
      simp [hflush, hans]
    have hvalid : (Prefetch.next s i).oValid = (!i.iStallN && s.oValid) := by
      cases hn : i.iStallN <;> simp [hflush, hans, hn]
    have hinsn : (Prefetch.next s i).oInsn = s.oInsn := by
      rw [next_oInsn, if_neg]
      intro hack
      simp only [Bool.and_eq_true] at hack
      simp [(hno hack.1).1] at hack
    have hdue : (Watch.step w i (out s)).due =
        if s.oValid && i.iStallN then w.due.map (· + 4) else w.due := by
      simp [Watch.step, Watch.nextDue, FetchIn.taken, hr, hnew, hclr, out]
    refine ⟨fun hor => ?_, ?_, fun hor => ?_, fun hv hok => ?_⟩
    · rw [hill, hvalid] at hor
      rw [hdue, next_oWbAddr, hnew]
      cases htaken : s.oValid && i.iStallN
      · have hor' : s.oIllegal = false ∨ s.oValid = true :=
          hor.imp_right fun hv => by simp only [Bool.and_eq_true] at hv; exact hv.2
        simp [h.due hor']
      · have hok : s.oIllegal = false := by
          refine hor.resolve_right ?_
          simp only [Bool.and_eq_true] at htaken
          simp [htaken.2]
        rw [h.due (.inl hok), hok]
        simpa using byteAddr_succ s.oWbAddr
    · rw [hfailed, hill, h.failed, next_oWbAddr, hnew]
      cases hold : s.oIllegal <;> simp
    · rw [hill]
      have hcyc : nextCyc s i = true := hor.resolve_right (by rw [hinv]; simp)
      rcases nextCyc_cases hcyc with ⟨-, -, hst, -⟩ | ⟨hcyc', -⟩
      · simp only [start, hnew, Bool.or_false, Bool.or_eq_true, Bool.and_eq_true,
          Bool.not_eq_true'] at hst
        exact hst.elim (·.2) fun hi => h.busy (.inr hi)
      · exact h.busy (.inl hcyc')
    · rw [hvalid, Bool.and_eq_true, Bool.not_eq_true'] at hv
      rw [hill] at hok
      rw [hinsn, h.word hv.2 hok, next_oWbAddr, hnew, hv.1]
      simp
  · -- the answer to the request under way
    have hcyc : s.oWbCyc = true := by
      simp only [answered, Bool.and_eq_true] at hans
      exact hans.1
    have hold := h.busy (.inl hcyc)
    have hback : i.iWbAck = true ∨ i.iWbErr = true := by
      simpa [answered, hcyc] using hans
    have hfly := (ha.flying hs hback).2
    have haddr : (Prefetch.next s i).oWbAddr = s.oWbAddr := by
      simp [hnew, ha.quiet hcyc]
    have hill : (Prefetch.next s i).oIllegal = i.iWbErr := by
      simp [hflush, hans]
    refine ⟨fun _ => ?_, ?_, ?_, fun _ hok => ?_⟩
    · have ht : i.taken (out s) = false := by
        simp [FetchIn.taken, out, ha.quiet hcyc]
      rw [haddr]
      simp [Watch.step, Watch.nextDue, hr, hnew, ht, h.due (.inl hold)]
    · have hnone : w.failed = [] := by
        simp [h.failed, hold]
      rw [haddr, hill]
      cases herr : i.iWbErr
      · simp [Watch.step, Watch.nextFailed, hr, hnew, herr, hnone]
      · simp only [Watch.step, Watch.nextFailed, hr, hnew, herr, hfly, hnone]
        simp [out, hcyc]
    · rw [hinv]
      simp [nextCyc, hr, hans]
    · rw [hill] at hok
      have hack : i.iWbAck = true := hback.resolve_right (by simp [hok])
      obtain ⟨-, a, l, hal, hdata⟩ := hs.ack hack
      rw [hfly] at hal
      rw [haddr, next_oInsn, if_pos (by simp [hcyc, hack]), hdata]
      simp only [List.cons.injEq] at hal
      rw [hal.1]

/-- What is taken is right. -/
theorem Fetching.right (h : Fetching mem s w) : Watch.Right w i (out s) mem := by
  intro ht
  have hv : s.oValid = true := by
    simp only [FetchIn.taken, out, Bool.and_eq_true] at ht
    exact ht.1.1
  refine ⟨_, h.due (.inr hv), rfl, ?_, ?_⟩
  · rw [wordOf_byteAddr, h.failed]
    cases hill : s.oIllegal <;> simp [out, hill]
  · intro hill
    rw [wordOf_byteAddr]
    exact h.word hv hill

end Step

/-- **`prefetch` delivers the program.** -/
theorem delivers_program {mem : BitVec AW → BitVec 32} {i : ℕ → FetchIn AW} {s : ℕ → Prefetch AW}
    (hstep : ∀ n, s (n + 1) = next (s n) (i n)) (hi : Driven i)
    (hserved : ∀ n, 0 < n → Watch.Served (Watch.seen i (fun k => out (s k)) n) (i n) (out (s n)) mem) :
    Delivers mem i fun k => out (s k) := by
  have hinv : ∀ n, Asking (s (n + 1)) (Watch.seen i (fun k => out (s k)) (n + 1)) ∧
      ((i (n + 1)).iNewPc = true ∨
        Fetching mem (s (n + 1)) (Watch.seen i (fun k => out (s k)) (n + 1))) := by
    intro n
    induction n with
    | zero =>
      have hcyc : (s 1).oWbCyc = false := by
        rw [hstep]
        simp [nextCyc, hi.reset]
      have hinv : (s 1).invalid = false := by
        rw [hstep]
        simp [hi.reset]
      exact ⟨⟨by simp [hcyc], by simp [hinv], by simp [hcyc], by simp [hcyc]⟩,
        .inl (hi.jumps 0 (.inl hi.reset))⟩
    | succ n ih =>
      obtain ⟨hask, hfetch⟩ := ih
      rw [hstep (n + 1)]
      refine ⟨hask.next, ?_⟩
      cases hr : (i (n + 1)).iReset
      · cases hclr : (i (n + 1)).iClearCache
        · right
          cases hnew : (i (n + 1)).iNewPc
          · rw [hnew] at hfetch
            have hfetch' := hfetch.resolve_left (by simp)
            exact hfetch'.next hask (hserved _ (by omega)) hr hnew hclr
          · exact fetching_jump hr hnew (hi.aligned _ (by omega) hnew)
        · exact .inl (hi.jumps _ (.inr hclr))
      · exact .inl (hi.jumps _ (.inl hr))
  intro n hn
  obtain ⟨m, rfl⟩ := Nat.exists_eq_add_of_lt hn
  rw [Nat.zero_add]
  rcases (hinv m).2 with hnew | hfetch
  · intro ht
    simp [FetchIn.taken, hnew] at ht
  · exact hfetch.right

end Prefetch

end ZipStormMX.Cpu
