/-
  `memdev` is a memory.

  With `EXTRACLOCK` a request goes through a stage of registers before it reaches the memory; a read
  then sees every write that was asked for before it, since a write is a clock ahead of it all the
  way.  `stored` counts the clocks a request needs to get there, and the contents of the memory are
  those requests, one at a time (`holds`).
-/
import ZipStormMX.Pipelined
import ZipStormMX.Store
import ZipStormMX.Cpu.Board

namespace ZipStormMX.Cpu.Memdev

open Clocked Pipelined Store

variable {AW : ℕ}

/-! ## Bytes -/

theorem mergeBytes_eq (sel : BitVec 4) (new old : BitVec 32) :
    mergeBytes sel new old = merge (n := 4) sel old new := by
  apply BitVec.eq_of_getLsbD_eq
  intro j hj
  rw [getLsbD_merge, mergeBytes, BitVec.getLsbD_append, BitVec.getLsbD_append,
    BitVec.getLsbD_append]
  have hcases : j / 8 = 0 ∨ j / 8 = 1 ∨ j / 8 = 2 ∨ j / 8 = 3 := by omega
  rcases hcases with h | h | h | h
  · rw [if_pos (by omega), BitVec.getLsbD_extractLsb', decide_eq_true (by omega), Bool.true_and, h,
      Nat.zero_add]
    split <;> rfl
  · rw [if_neg (by omega), if_pos (by omega), BitVec.getLsbD_extractLsb', decide_eq_true (by omega),
      Bool.true_and, h, show 8 + (j - 8) = j by omega]
    split <;> rfl
  · rw [if_neg (by omega), if_neg (by omega), if_pos (by omega), BitVec.getLsbD_extractLsb',
      decide_eq_true (by omega), Bool.true_and, h, show 16 + (j - 8 - 8) = j by omega]
    split <;> rfl
  · rw [if_neg (by omega), if_neg (by omega), if_neg (by omega), BitVec.getLsbD_extractLsb',
      decide_eq_true (by omega), Bool.true_and, h, show 24 + (j - 8 - 8 - 8) = j by omega]
    split <;> rfl

/-! ## Runs -/

/-- What the bus asks for. -/
def access (bus : DblMaster AW) : Access (BitVec AW) 4 := ⟨bus.we, bus.adr, bus.dat, bus.sel⟩

section Run

variable {extraclock : Bool} {m : ℕ → Memdev AW} {reset : ℕ → Bool} {bus : ℕ → DblMaster AW}

/-- The requests before clock `n`.  One that comes in reset is not answered, but it is carried
    out. -/
def asked (bus : ℕ → DblMaster AW) (n : ℕ) : List (Access (BitVec AW) 4) :=
  (clocks (fun t => (bus t).stbA) n).map fun t => access (bus t)

theorem asked_succ (n : ℕ) : asked bus (n + 1) =
    asked bus n ++ if (bus n).stbA then [access (bus n)] else [] := by
  rw [asked, clocks_succ, List.map_append, asked]
  split <;> rfl

/-- The contents, one clock later. -/
theorem mem_next (s : Memdev AW) (r : Bool) (b : DblMaster AW) :
    (s.next extraclock r b).mem =
      if wWstb extraclock s b then
        (Access.mk (n := 4) true (wAddr extraclock s b) (wData extraclock s b)
          (wSel extraclock s b)).apply s.mem
      else s.mem := by
  funext a
  show (if wWstb extraclock s b && a == wAddr extraclock s b then _ else s.mem a) = _
  cases wWstb extraclock s b
  · rfl
  · rw [Bool.true_and, if_pos rfl, apply_write _ rfl]
    by_cases h : a = wAddr extraclock s b
    · rw [if_pos (beq_iff_eq.2 h), h, Function.update_self, mergeBytes_eq]
    · rw [if_neg fun hb => h (beq_iff_eq.1 hb), Function.update_of_ne h]

/-- A request that reaches the memory. -/
theorem apply_asked (b : DblMaster AW) (f : BitVec AW → BitVec 32) :
    (if b.stbA && b.we then (Access.mk (n := 4) true b.adr b.dat b.sel).apply f else f) =
      after f (if b.stbA then [access b] else []) := by
  cases b.stbA
  · rfl
  · cases hwe : b.we
    · exact (apply_read (r := access b) f hwe).symm
    · show _ = (access b).apply f
      rw [access, hwe]
      rfl

section Plain

variable (hs : ∀ n, m (n + 1) = (m n).next false (reset n) (bus n))
include hs

theorem holds_plain (n : ℕ) : (m n).mem = after (m 0).mem (asked bus n) := by
  induction n with
  | zero => rfl
  | succ n ih =>
    rw [hs, mem_next, asked_succ, after_append, ← ih]
    exact apply_asked (bus n) (m n).mem

end Plain

section Extra

variable (h0 : (m 0).lastWstb = false) (hs : ∀ n, m (n + 1) = (m n).next true (reset n) (bus n))
include h0 hs

/-- The contents are a clock behind. -/
theorem holds_extra (n : ℕ) : (m (n + 1)).mem = after (m 0).mem (asked bus n) := by
  induction n with
  | zero =>
    rw [hs, mem_next]
    show (if (m 0).lastWstb then _ else _) = _
    rw [h0]
    rfl
  | succ n ih =>
    rw [hs (n + 1), mem_next, asked_succ, after_append, ← ih, ← apply_asked]
    show (if (m (n + 1)).lastWstb then (Access.mk (n := 4) true (m (n + 1)).lastAddr
      (m (n + 1)).lastData (m (n + 1)).lastSel).apply (m (n + 1)).mem else (m (n + 1)).mem) = _
    rw [hs n]
    rfl

end Extra

/-! ## Answers -/

/-- The bus holds on. -/
def held (reset : ℕ → Bool) (bus : ℕ → DblMaster AW) (n : ℕ) : Bool := (bus n).cycA && !reset n

/-- A request is taken. -/
def takes (reset : ℕ → Bool) (bus : ℕ → DblMaster AW) (n : ℕ) : Bool := (bus n).stbA && !reset n

/-- The answer of clock `n` is right for the request of clock `t`: a read returns what the requests
    before it have left in its word. -/
def Right (m : ℕ → Memdev AW) (bus : ℕ → DblMaster AW) (t n : ℕ) : Prop :=
  (bus t).we = false → (m n).oWbData = after (m 0).mem (asked bus t) (bus t).adr

/-- The answers that are on their way at clock `n`. -/
def queue (extraclock : Bool) (m : ℕ → Memdev AW) (n : ℕ) : List ℕ :=
  if extraclock then
    (if (m n).oWbAck then [n - 2] else []) ++ (if (m n).lastStb then [n - 1] else [])
  else if (m n).oWbAck then [n - 1] else []

theorem queue_step (hs : ∀ n, m (n + 1) = (m n).next extraclock (reset n) (bus n))
    (hcyc : ∀ n, (bus n).stbA = true → (bus n).cycA = true) (n : ℕ) :
    queue extraclock m (n + 1) =
      if held reset bus n then
        (queue extraclock m n).drop (m n).oWbAck.toNat ++ (if takes reset bus n then [n] else [])
      else [] := by
  have hack : (m (n + 1)).oWbAck =
      (!reset n && (wStb extraclock (m n) (bus n) && (bus n).cycA)) := by
    rw [hs]
    rfl
  have hlast : (m (n + 1)).lastStb = (!reset n && (bus n).stbA) := by
    rw [hs]
    rfl
  rw [queue, queue, hack, hlast, held, takes]
  cases hr : reset n
  · cases hc : (bus n).cycA
    · have hstb : (bus n).stbA = false := by
        cases hstb : (bus n).stbA
        · rfl
        · rw [hcyc n hstb] at hc
          cases hc
      cases extraclock <;> simp [hstb]
    · cases extraclock
      · simp only [wStb, Bool.false_eq_true, if_false]
        cases (m n).oWbAck <;> cases (bus n).stbA <;> simp
      · simp only [wStb, if_true]
        cases (m n).oWbAck <;> cases (bus n).stbA <;> cases (m n).lastStb <;> simp
  · cases extraclock <;> simp

/-- **The block RAM is a memory.**  Whatever the bus asks for, one request after another without a
pause, with or without the extra clock, and whenever it lets go: each request that is taken is
answered in its turn and once, within two clocks, and a read returns what the requests before it,
one at a time and byte by byte, have left in its word. -/
theorem serves_memory (h0 : (m 0).lastWstb = false ∧ (m 0).lastStb = false ∧ (m 0).oWbAck = false)
    (hs : ∀ n, m (n + 1) = (m n).next extraclock (reset n) (bus n))
    (hcyc : ∀ n, (bus n).stbA = true → (bus n).cycA = true) :
    Serves (held reset bus) (takes reset bus) (fun n => (m n).oWbAck) (Right m bus) 2 := by
  obtain ⟨hw0, hs0, ha0⟩ := h0
  have hqueue : ∀ n, waiting (held reset bus) (takes reset bus) (fun n => (m n).oWbAck) n =
      queue extraclock m n :=
    waiting_eq (by rw [queue, hs0, ha0]; cases extraclock <;> rfl) (queue_step hs hcyc)
  refine ⟨?_, ?_⟩
  · intro n _ hack
    replace hack : (m n).oWbAck = true := hack
    rw [hqueue, queue, hack]
    cases extraclock
    · refine ⟨n - 1, [], rfl, ?_⟩
      intro _
      obtain _ | n := n
      · rw [ha0] at hack
        cases hack
      · rw [hs n]
        show (m n).mem (bus n).adr = _
        rw [holds_plain hs]
        rfl
    · refine ⟨n - 2, _, rfl, ?_⟩
      intro _
      obtain _ | _ | n := n
      · rw [ha0] at hack
        cases hack
      · rw [hs 0] at hack
        have hlast : (m 0).lastStb = true := by
          replace hack : (!reset 0 && ((m 0).lastStb && (bus 0).cycA)) = true := hack
          simp only [Bool.and_eq_true] at hack
          exact hack.2.1
        rw [hs0] at hlast
        cases hlast
      · rw [hs (n + 1)]
        show (m (n + 1)).mem (m (n + 1)).lastAddr = _
        rw [holds_extra hw0 hs, hs n]
        rfl
  · intro n hwait hheld
    rw [hqueue] at hwait
    by_cases hack : (m n).oWbAck = true
    · exact ⟨0, Nat.two_pos, hack⟩
    · refine ⟨1, Nat.one_lt_two, ?_⟩
      rw [queue, if_neg hack, if_neg hack] at hwait
      cases extraclock
      · exact absurd rfl hwait
      · have hlast : (m n).lastStb = true := by
          cases hlast : (m n).lastStb
          · rw [hlast] at hwait
            exact absurd rfl hwait
          · rfl
        have hh := hheld 0 Nat.two_pos
        simp only [held, Bool.and_eq_true] at hh
        rw [hs n]
        show (!reset n && ((m n).lastStb && (bus n).cycA)) = true
        rw [hlast, show (bus n).cycA = true from hh.1, show (!reset n) = true from hh.2]
        rfl

end Run

/-! ### A word that is written and read on the next clock -/

/-- Half of a word is written on every other clock, and the word is read in between. -/
def backAndForth (n : ℕ) : DblMaster 4 where
  cycA := true
  cycB := false
  stbA := true
  stbB := false
  we := n % 2 == 0
  adr := 3
  dat := BitVec.ofNat 32 (0x11111111 * n)
  sel := 0x6

def filling : ℕ → Memdev 4 :=
  Clocked.run (fun m b => m.next true false b) (Memdev.init fun _ => 0xffffffff) backAndForth

theorem serves_memory_filling :
    Serves (held (fun _ => false) backAndForth) (takes (fun _ => false) backAndForth)
      (fun n => (filling n).oWbAck) (Right filling backAndForth) 2 :=
  @serves_memory 4 true filling (fun _ => false) backAndForth ⟨rfl, rfl, rfl⟩ (fun _ => rfl)
    fun _ _ => rfl

example : (filling 5).oWbData = 0xff2222ff := by decide +kernel

end ZipStormMX.Cpu.Memdev
