/-
  The requests a memory unit has under way.

  To the CPU either memory unit is a queue: a request goes in with the register its answer is to be
  filed under, the answers come out in the same order, and a bus error empties it.  `Orderly` says so,
  and both `memops`, whose queue holds one request, and `pipemem`, with its FIFO, are orderly.
-/
import ZipStormMX.Fifo
import ZipStormMX.Cpu.System

namespace ZipStormMX.Cpu

variable {AW : ℕ}

/-! ## The queue -/

namespace MemUnit

/-- What goes into the queue on this clock. -/
def newDest (i : MemIn) : List (BitVec 5) := if i.iStb then [i.iOreg] else []

variable (M : MemUnit AW) (dests : M.State → List (BitVec 5))

/-- What the CPU may present: no lock, and no request to a busy unit, unless it is built for it,
    has room, and works for the same mode. -/
structure Allowed (piped : Bool) (s : M.State) (i : MemIn) : Prop where
  lock : i.iLock = false
  request : i.iStb = true → dests s = [] ∨ (piped = true ∧ M.oPipeStalled s i.iWbStall = false ∧
    ∀ d ∈ dests s, d.getLsbD 4 = i.iOreg.getLsbD 4)

/-- One clock of the queue: at most the oldest request is answered, and an error drops them all. -/
structure Moves (s : M.State) (i : MemIn) : Prop where
  queue : dests (M.step s i) = [] ∨ dests (M.step s i) = dests s ++ newDest i ∨
    dests (M.step s i) = (dests s).tail ++ newDest i
  valid : (M.out (M.step s i)).oValid = true → (M.out s).oWbWe = false ∧
    ∃ d ds, dests s = d :: ds ∧ (M.out (M.step s i)).oWreg = d ∧
      (dests (M.step s i) = [] ∨ dests (M.step s i) = ds ++ newDest i)
  err : (M.out (M.step s i)).oErr = true → dests (M.step s i) = []
  quiet : dests s = [] → i.iStb = false → (M.out (M.step s i)).oErr = false
  we : dests s ≠ [] → (M.out (M.step s i)).oWbWe = (M.out s).oWbWe
  direction : dests s = [] → i.iStb = true → (M.out (M.step s i)).oWbWe = i.iOp.getLsbD 0

/-- A memory unit that is a queue; `inv` is what its registers keep to. -/
structure Orderly (piped : Bool) (inv : M.State → Prop) : Prop where
  reset : ∀ s i, i.iReset = true → inv (M.step s i) ∧ dests (M.step s i) = [] ∧
    (M.out (M.step s i)).oValid = false ∧ (M.out (M.step s i)).oErr = false
  busy : ∀ s, inv s → (M.out s).oBusy = !(dests s).isEmpty
  step : ∀ s i, inv s → i.iReset = false → Allowed M dests piped s i →
    inv (M.step s i) ∧ Moves M dests s i

end MemUnit

/-! ## `memops` -/

namespace Memops

variable {c : MemCfg} {s : Memops AW} {i : MemIn}

/-- The one request under way. -/
def dests (s : Memops AW) : List (BitVec 5) := if oBusy s then [s.oWreg] else []

/-- No lock is held. -/
def Unlocked (s : Memops AW) : Prop := s.lockGbl = false ∧ s.lockLcl = false

theorem dests_eq_nil : dests s = [] ↔ oBusy s = false := by
  cases hb : oBusy s <;> simp [dests, hb]

theorem unlocked_next (h : i.iLock = false) : Unlocked (next c s i) := by
  simp [Unlocked, nextLockGbl, nextLockLcl, h]

theorem busy_of_cyc (h : Unlocked s) (hb : oBusy s = false) :
    oWbCycGbl c s = false ∧ oWbCycLcl c s = false := by
  obtain ⟨hg, hl⟩ := Bool.or_eq_false_iff.mp hb
  simp [oWbCycGbl, oWbCycLcl, hg, hl, h.1, h.2]

/-- A reset leaves it with nothing to say. -/
theorem rest_reset (hr : i.iReset = true) :
    oBusy (next c s i) = false ∧ (next c s i).oValid = false ∧ (next c s i).oErr = false := by
  refine ⟨?_, ?_, ?_⟩
  · simp [oBusy, nextCycGbl, nextCycLcl, hr]
  · simp [hr]
  · simp [nextErr, hr]

theorem unlocked_reset (hr : i.iReset = true) : Unlocked (next c s i) := by
  simp [Unlocked, nextLockGbl, nextLockLcl, hr]

/-- While it is busy, it waits for the answer. -/
theorem moves_busy (hb : oBusy s = true) (hr : i.iReset = false) (hs : i.iStb = false) :
    MemUnit.Moves (memops AW c) dests s i := by
  have hd : dests s = [s.oWreg] := by rw [dests, hb, if_pos rfl]
  have hcyc : s.rWbCycGbl = true ∨ s.rWbCycLcl = true := by simpa [oBusy] using hb
  have hzero : zeroOut c s = false := by
    rcases hcyc with hcyc | hcyc <;> simp [zeroOut, oWbCycGbl, oWbCycLcl, hcyc]
  have hdone : (i.iWbAck || i.iWbErr) = true → dests (next c s i) = [] := by
    intro hdone
    rw [dests_eq_nil]
    rcases hcyc with hcyc | hcyc <;> simp [oBusy, nextCycGbl, nextCycLcl, hcyc, hdone]
  have hwait : (i.iWbAck || i.iWbErr) = false → dests (next c s i) = dests s ++ [] := by
    intro hwait
    have hb' : oBusy (next c s i) = true := by
      rcases hcyc with hcyc | hcyc <;> simp [oBusy, nextCycGbl, nextCycLcl, hr, hcyc, hwait]
    rw [hd, dests, hb', if_pos rfl]
    simp [hs]
  have hnew : MemUnit.newDest i = [] := by simp [MemUnit.newDest, hs]
  refine ⟨?_, fun hv => ?_, fun he => ?_, fun h0 => ?_, fun _ => ?_, fun h0 => ?_⟩
  · show dests (next c s i) = [] ∨ dests (next c s i) = dests s ++ _ ∨ _
    rw [hnew]
    cases hdw : i.iWbAck || i.iWbErr
    · exact Or.inr (Or.inl (hwait hdw))
    · exact Or.inl (hdone hdw)
  · have hv' : (next c s i).oValid = true := hv
    simp only [next_oValid, Bool.and_eq_true, Bool.not_eq_true'] at hv'
    refine ⟨hv'.2.2, s.oWreg, [], hd, ?_, Or.inl (hdone (by simp [hv'.2.1]))⟩
    show (next c s i).oWreg = s.oWreg
    simp [hs]
  · have he' : nextErr c s i = true := he
    refine hdone ?_
    rcases hcyc with hcyc | hcyc <;> simp_all [nextErr]
  · rw [h0] at hd
    cases hd
  · show (next c s i).oWbWe = s.oWbWe
    simp [hs, hzero]
  · rw [h0] at hd
    cases hd

/-- While it is idle, it takes a request. -/
theorem moves_idle (hu : Unlocked s) (hb : oBusy s = false) (hr : i.iReset = false) :
    MemUnit.Moves (memops AW c) dests s i := by
  have hd : dests s = [] := dests_eq_nil.mpr hb
  obtain ⟨hg, hl⟩ := Bool.or_eq_false_iff.mp hb
  obtain ⟨hcg, hcl⟩ := busy_of_cyc (c := c) hu hb
  have hbusy : oBusy (next c s i) = (gblStb c i || lclStb c i) := by
    simp [oBusy, nextCycGbl, nextCycLcl, hr, hg, hl]
  refine ⟨?_, fun hv => ?_, fun he => ?_, fun _ hs => ?_, fun h => ?_, fun _ hs => ?_⟩
  · show dests (next c s i) = [] ∨ dests (next c s i) = dests s ++ _ ∨ _
    cases hb' : oBusy (next c s i)
    · exact Or.inl (dests_eq_nil.mpr hb')
    · right
      left
      have hs : i.iStb = true := by
        rw [hbusy] at hb'
        cases hs : i.iStb
        · simp [gblStb, lclStb, hs] at hb'
        · rfl
      rw [hd, dests, hb', if_pos rfl, MemUnit.newDest, hs, if_pos rfl]
      simp [hs]
  · have hv' : (next c s i).oValid = true := hv
    simp [hcg, hcl] at hv'
  · have he' : nextErr c s i = true := he
    have hm : misaligned c i = true := by
      simp only [nextErr, hr, hg, hl, Bool.or_self, Bool.false_eq_true, if_false] at he'
      split at he'
      · exact he'
      · cases he'
    show dests (next c s i) = []
    rw [dests_eq_nil, hbusy]
    simp [gblStb, lclStb, hm]
  · show nextErr c s i = false
    simp [nextErr, hg, hl, hs]
  · exact absurd hd h
  · show (next c s i).oWbWe = _
    simp [hs]

theorem orderly (c : MemCfg) : (memops AW c).Orderly dests false Unlocked where
  reset s i h := by
    obtain ⟨hb, hv, he⟩ := rest_reset (c := c) (s := s) h
    exact ⟨unlocked_reset h, dests_eq_nil.mpr hb, hv, he⟩
  busy s _ := by
    show oBusy s = !(dests s).isEmpty
    cases hb : oBusy s <;> simp [dests, hb]
  step s i hu hr ha := by
    refine ⟨unlocked_next ha.lock, ?_⟩
    cases hb : oBusy s
    · exact moves_idle hu hb hr
    · refine moves_busy hb hr ?_
      cases hs : i.iStb
      · rfl
      · rcases ha.request hs with h0 | ⟨h0, -⟩
        · rw [dests_eq_nil.mp h0] at hb
          cases hb
        · cases h0

end Memops

/-! ## `pipemem` -/

namespace Pipemem

variable {c : MemCfg} {s : Pipemem AW} {i : MemIn}

/-- The register that the entry at `a` is to be filed under. -/
def regAt (s : Pipemem AW) (a : BitVec 4) : BitVec 5 :=
  BitVec.ofBool s.fifoGie ++ (s.fifoOreg a).extractLsb' 4 4

/-- The requests in the FIFO. -/
def dests (s : Pipemem AW) : List (BitVec 5) :=
  Fifo.contents (regAt s) s.rdaddr (Fifo.fill s.rdaddr s.wraddr)

/-- The FIFO is empty when there is no cycle, and never overflows in one. -/
structure Sound (s : Pipemem AW) : Prop where
  idle : s.cyc = false → Fifo.fill s.rdaddr s.wraddr = 0
  busy : s.cyc = true → 0 < Fifo.fill s.rdaddr s.wraddr
  room : Fifo.fill s.rdaddr s.wraddr ≤ 13
  full : s.fifoFull = false → Fifo.fill s.rdaddr s.wraddr ≤ 12

theorem fifoFill_eq (s : Pipemem AW) : (fifoFill s).toNat = Fifo.fill s.rdaddr s.wraddr := rfl

theorem Sound.dests_eq_nil (h : Sound s) : dests s = [] ↔ s.cyc = false := by
  cases hc : s.cyc
  · simp [dests, h.idle hc, Fifo.contents]
  · simpa [dests] using Fifo.contents_ne_nil (h.busy hc)

theorem mode_bit : ∀ (g : Bool) (e : BitVec 4), (BitVec.ofBool g ++ e).getLsbD 4 = g := by
  decide

theorem mode_of_mem {d : BitVec 5} (h : d ∈ dests s) : d.getLsbD 4 = s.fifoGie := by
  have hall : ∀ (n : ℕ) (rd : BitVec 4), d ∈ Fifo.contents (regAt s) rd n →
      d.getLsbD 4 = s.fifoGie := by
    intro n
    induction n with
    | zero => intro rd hd; cases hd
    | succ n ih =>
      intro rd hd
      rcases List.mem_cons.mp hd with rfl | hd
      · exact mode_bit _ _
      · exact ih (rd + 1) hd
  exact hall _ _ h

theorem oreg_entry : ∀ (r : BitVec 5) (k : BitVec 4),
    BitVec.ofBool (r.getLsbD 4) ++ (r.extractLsb' 0 4 ++ k).extractLsb' 4 4 = r := by
  decide

/-- The buffer after this clock: a register stands at the write pointer, whether it is wanted or
    not. -/
theorem regAt_next (hg : i.iStb = true → s.fifoGie = i.iOreg.getLsbD 4) :
    ∃ v, regAt (next c s i) = (fun a => if a = s.wraddr then v else regAt s a) ∧
      (i.iStb = true → v = i.iOreg) := by
  refine ⟨regAt (next c s i) s.wraddr, ?_, fun hs => ?_⟩
  · funext a
    by_cases ha : a = s.wraddr
    · rw [if_pos ha, ha]
    · rw [if_neg ha]
      cases hs : i.iStb
      · simp [regAt, ha, hs]
      · simp [regAt, ha, hs, hg hs]
  · simp only [regAt, next_fifoOreg, next_fifoGie, hs, if_true]
    exact oreg_entry _ _

theorem not_misaligned (ha : c.optAlignmentErr = false) : misaligned c i = false := by
  simp [misaligned, ha]

section

variable (ha : c.optAlignmentErr = false) (hr : i.iReset = false)
include ha hr

/-- Idle, it takes a request. -/
theorem sound_idle (h : Sound s) (hc : s.cyc = false) : Sound (next c s i) ∧
    (next c s i).rdaddr = s.wraddr ∧
    Fifo.fill (next c s i).rdaddr (next c s i).wraddr = i.iStb.toNat := by
  have hm := not_misaligned (i := i) ha
  have heq : s.rdaddr = s.wraddr := Fifo.fill_eq_zero.mp (h.idle hc)
  have hrd : (next c s i).rdaddr = s.wraddr := by simp [hr, flush, hc, hm, heq]
  have hwr : (next c s i).wraddr = if i.iStb then s.wraddr + 1 else s.wraddr := by
    simp [hr, flush, hc, hm]
  have hcyc : (next c s i).cyc = i.iStb := by
    cases hs : i.iStb <;> simp [nextCyc, hr, hc, hm, hs]
  have hfill : Fifo.fill (next c s i).rdaddr (next c s i).wraddr = i.iStb.toNat := by
    rw [hrd, hwr]
    cases i.iStb
    · exact Fifo.fill_self _
    · rw [if_pos rfl, Fifo.fill_push (by rw [Fifo.fill_self]; decide), Fifo.fill_self]
      rfl
  have hle := i.iStb.toNat_le
  refine ⟨⟨fun hb => ?_, fun hb => ?_, by omega, fun _ => by omega⟩, hrd, hfill⟩
  · rw [hfill, ← hcyc, hb]
    rfl
  · rw [hfill, ← hcyc, hb]
    exact Nat.one_pos

/-- A buffer that is written at the write pointer holds the request. -/
theorem contents_idle {α : Type*} {buf : BitVec 4 → α} {v : α} (h : Sound s) (hc : s.cyc = false)
    (hv : i.iStb = true → buf s.wraddr = v) :
    Fifo.contents buf (next c s i).rdaddr (Fifo.fill (next c s i).rdaddr (next c s i).wraddr) =
      if i.iStb then [v] else [] := by
  obtain ⟨-, hrd, hfill⟩ := sound_idle ha hr h hc
  rw [hfill, hrd]
  cases hs : i.iStb
  · rfl
  · rw [if_pos rfl, ← hv hs]
    rfl

/-- Idle, it takes a request. -/
theorem next_idle (h : Sound s) (hc : s.cyc = false) : Sound (next c s i) ∧
    dests (next c s i) = MemUnit.newDest i := by
  refine ⟨(sound_idle ha hr h hc).1, contents_idle ha hr h hc fun hs => ?_⟩
  simp only [regAt, next_fifoOreg, next_fifoGie, hs, if_true]
  exact oreg_entry _ _

omit ha in
/-- A bus error empties the FIFO. -/
theorem next_err (hc : s.cyc = true) (he : i.iWbErr = true) : Sound (next c s i) ∧
    dests (next c s i) = [] := by
  have hf : flush c s i = true := by simp [flush, he, hc]
  have hrd : (next c s i).rdaddr = 0 := by simp [hf]
  have hwr : (next c s i).wraddr = 0 := by simp [hf]
  have hcyc : (next c s i).cyc = false := by simp [nextCyc, hr, hc, he]
  have hfill : Fifo.fill (next c s i).rdaddr (next c s i).wraddr = 0 := by
    rw [hrd, hwr, Fifo.fill_self]
  refine ⟨⟨fun _ => hfill, fun hb => ?_, by omega, fun _ => by omega⟩, ?_⟩
  · rw [hcyc] at hb
    cases hb
  · rw [dests, hfill]
    rfl

/-- Busy, it takes requests and answers; what a buffer that is written at the write pointer holds
    follows. -/
theorem contents_busy {α : Type*} {buf buf' : BitVec 4 → α} {v : α} (h : Sound s)
    (hc : s.cyc = true) (he : i.iWbErr = false) (hs : i.iStb = true → s.fifoFull = false)
    (hbuf : buf' = fun a => if a = s.wraddr then v else buf a) :
    Sound (next c s i) ∧
      Fifo.contents buf' (next c s i).rdaddr (Fifo.fill (next c s i).rdaddr (next c s i).wraddr) =
      (if i.iWbAck then (Fifo.contents buf s.rdaddr (Fifo.fill s.rdaddr s.wraddr)).tail
        else Fifo.contents buf s.rdaddr (Fifo.fill s.rdaddr s.wraddr)) ++
        if i.iStb then [v] else [] := by
  have hm := not_misaligned (i := i) ha
  have hpos := h.busy hc
  have hroom := h.room
  have hrd : (next c s i).rdaddr = if i.iWbAck then s.rdaddr + 1 else s.rdaddr := by
    simp [hr, flush, hc, hm, he]
  have hwr : (next c s i).wraddr = if i.iStb then s.wraddr + 1 else s.wraddr := by
    simp [hr, flush, hm, he]
  have hcyc : (next c s i).cyc =
      !(i.iWbAck && s.rdaddr + 1 == s.wraddr && !i.iStb) := by
    have hlast : lastAck c s i = (i.iWbAck && s.rdaddr + 1 == s.wraddr && !i.iStb) := by
      simp [lastAck, hm, nxtRdaddr]
    rw [next_cyc, nextCyc, hr, hc, he, hlast]
    cases i.iWbAck && s.rdaddr + 1 == s.wraddr && !i.iStb <;> rfl
  have hfull : (next c s i).fifoFull = if i.iStb then
      decide (12 ≤ Fifo.fill s.rdaddr s.wraddr) else decide (13 ≤ Fifo.fill s.rdaddr s.wraddr) := by
    have h12 : decide (optMaxdepth - 1 ≤ fifoFill s) = decide (12 ≤ Fifo.fill s.rdaddr s.wraddr) :=
      rfl
    have h13 : decide (optMaxdepth ≤ fifoFill s) = decide (13 ≤ Fifo.fill s.rdaddr s.wraddr) := rfl
    rw [← h12, ← h13, next_fifoFull, nextFifoFull, hr]
    simp [flush, hm, he]
  have hpush : Fifo.fill s.rdaddr (s.wraddr + 1) = Fifo.fill s.rdaddr s.wraddr + 1 :=
    Fifo.fill_push (show _ < 16 by omega)
  have hpop := Fifo.fill_pop hpos
  have hpush' : Fifo.fill (s.rdaddr + 1) (s.wraddr + 1) =
      Fifo.fill (s.rdaddr + 1) s.wraddr + 1 := Fifo.fill_push (show _ < 16 by omega)
  have hlast : (s.rdaddr + 1 == s.wraddr) = decide (Fifo.fill (s.rdaddr + 1) s.wraddr = 0) := by
    rw [Bool.eq_iff_iff, beq_iff_eq, decide_eq_true_eq, Fifo.fill_eq_zero]
  cases hack : i.iWbAck <;> cases hstb : i.iStb
  all_goals
    simp only [hack, hstb, if_true, Bool.false_eq_true, if_false, hlast, Bool.false_and,
      Bool.true_and, Bool.not_true, Bool.and_false, Bool.not_false, Bool.and_true] at hrd hwr hcyc hfull
  · -- neither
    refine ⟨⟨fun h0 => ?_, fun _ => ?_, ?_, fun hf => ?_⟩, ?_⟩
    · rw [hcyc] at h0
      cases h0
    · rwa [hrd, hwr]
    · rwa [hrd, hwr]
    · rw [hfull, decide_eq_false_iff_not] at hf
      rw [hrd, hwr]
      omega
    · rw [hrd, hwr, hbuf, Fifo.contents_write]
      simp
  · -- a request
    have hroom' := h.full (hs hstb)
    refine ⟨⟨fun h0 => ?_, fun _ => ?_, ?_, fun hf => ?_⟩, ?_⟩
    · rw [hcyc] at h0
      cases h0
    · rw [hrd, hwr, hpush]
      omega
    · rw [hrd, hwr, hpush]
      omega
    · rw [hfull, decide_eq_false_iff_not] at hf
      rw [hrd, hwr, hpush]
      omega
    · rw [hrd, hwr, hpush, hbuf, Fifo.contents_push]
      simp
  · -- an answer
    refine ⟨⟨fun h0 => ?_, fun hb => ?_, ?_, fun hf => ?_⟩, ?_⟩
    · rw [hcyc] at h0
      rw [hrd, hwr]
      simpa using h0
    · rw [hcyc] at hb
      rw [hrd, hwr]
      have : Fifo.fill (s.rdaddr + 1) s.wraddr ≠ 0 := by simpa using hb
      omega
    · rw [hrd, hwr]
      omega
    · rw [hfull, decide_eq_false_iff_not] at hf
      rw [hrd, hwr]
      omega
    · rw [hrd, hwr, hbuf, Fifo.contents_write, Fifo.contents_pop hpos]
      simp
  · -- both
    have hroom' := h.full (hs hstb)
    refine ⟨⟨fun h0 => ?_, fun _ => ?_, ?_, fun hf => ?_⟩, ?_⟩
    · rw [hcyc] at h0
      cases h0
    · rw [hrd, hwr, hpush']
      omega
    · rw [hrd, hwr, hpush']
      omega
    · rw [hrd, hwr, hpush']
      omega
    · rw [hrd, hwr, hpush', hbuf, Fifo.contents_push, Fifo.contents_pop hpos]
      simp

/-- Busy, it takes requests and answers. -/
theorem next_busy (h : Sound s) (hc : s.cyc = true) (he : i.iWbErr = false)
    (hs : i.iStb = true → s.fifoFull = false ∧ s.fifoGie = i.iOreg.getLsbD 4) :
    Sound (next c s i) ∧ dests (next c s i) =
      (if i.iWbAck then (dests s).tail else dests s) ++ MemUnit.newDest i := by
  obtain ⟨v, hreg, hv⟩ := regAt_next (c := c) fun hstb => (hs hstb).2
  obtain ⟨hsound, hcont⟩ := contents_busy ha hr h hc he (fun hstb => (hs hstb).1) hreg
  refine ⟨hsound, hcont.trans ?_⟩
  cases hstb : i.iStb
  · rw [MemUnit.newDest, hstb]
    rfl
  · rw [MemUnit.newDest, hstb, hv hstb]
    rfl

end

/-- The register of the answer is the oldest one. -/
theorem oWreg_next (h : Sound s) (hc : s.cyc = true) :
    ∃ ds, dests s = (next c s i).oWreg :: ds ∧ (dests s).tail = ds := by
  have hpop := Fifo.fill_pop (h.busy hc)
  refine ⟨(dests s).tail, ?_, rfl⟩
  rw [dests, ← hpop]
  rfl

theorem sound_reset (hr : i.iReset = true) : Sound (next c s i) ∧ dests (next c s i) = [] := by
  have hfill : Fifo.fill (next c s i).rdaddr (next c s i).wraddr = 0 := by
    simp [hr, Fifo.fill_self]
  refine ⟨⟨fun _ => hfill, fun hb => ?_, by omega, fun _ => by omega⟩, ?_⟩
  · simp [nextCyc, hr] at hb
  · rw [dests, hfill]
    rfl

theorem moves (ha : c.optAlignmentErr = false) (h : Sound s) (hr : i.iReset = false)
    (hall : MemUnit.Allowed (pipemem AW c) dests true s i) :
    Sound (next c s i) ∧ MemUnit.Moves (pipemem AW c) dests s i := by
  have hm := not_misaligned (i := i) ha
  have hvalid : (next c s i).oValid = (s.cyc && i.iWbAck && !s.oWbWe) := by simp [hr]
  have herr : (next c s i).oErr = (s.cyc && i.iWbErr) := by simp [hr, hm]
  cases hc : s.cyc
  · -- idle
    obtain ⟨hsound, hd⟩ := next_idle ha hr h hc
    have hnil : dests s = [] := h.dests_eq_nil.mpr hc
    rw [hc] at hvalid herr
    refine ⟨hsound, ?_, fun hv => ?_, fun hv => ?_, fun _ _ => herr, fun hne => ?_, fun _ hs => ?_⟩
    · right
      left
      rw [hnil]
      exact hd
    · have hv' : (next c s i).oValid = true := hv
      rw [hvalid] at hv'
      cases hv'
    · have hv' : (next c s i).oErr = true := hv
      rw [herr] at hv'
      cases hv'
    · exact absurd hnil hne
    · show (next c s i).oWbWe = _
      simp [hs, hc]
  · have hne : dests s ≠ [] := fun h0 => by
      rw [h.dests_eq_nil.mp h0] at hc
      cases hc
    obtain ⟨ds, hds, htl⟩ := oWreg_next (c := c) (i := i) h hc
    have hwe : (next c s i).oWbWe = s.oWbWe := by simp [hc]
    rw [hc, Bool.true_and] at hvalid herr
    have hval : ∀ l, (dests (next c s i) = [] ∨ (i.iWbAck = true → dests (next c s i) = ds ++ l)) →
        (next c s i).oValid = true → s.oWbWe = false ∧ ∃ d ds', dests s = d :: ds' ∧
          (next c s i).oWreg = d ∧ (dests (next c s i) = [] ∨ dests (next c s i) = ds' ++ l) := by
      intro l hl hv
      rw [hvalid] at hv
      simp only [Bool.and_eq_true, Bool.not_eq_true'] at hv
      exact ⟨hv.2, _, ds, hds, rfl, hl.imp_right fun hl => hl hv.1⟩
    cases he : i.iWbErr
    · -- requests and answers
      have hstb : i.iStb = true → s.fifoFull = false ∧ s.fifoGie = i.iOreg.getLsbD 4 := by
        intro hs
        rcases hall.request hs with h0 | ⟨-, hroom, hmode⟩
        · exact absurd h0 hne
        · have hroom' : oPipeStalled s i.iWbStall = false := hroom
          simp only [oPipeStalled, hc, Bool.true_and, Bool.or_eq_false_iff] at hroom'
          refine ⟨hroom'.1, ?_⟩
          have hd := hmode (next c s i).oWreg (by rw [hds]; exact List.mem_cons_self)
          have hd' := mode_of_mem (s := s) (d := (next c s i).oWreg)
            (by rw [hds]; exact List.mem_cons_self)
          exact hd'.symm.trans hd
      obtain ⟨hsound, hd⟩ := next_busy ha hr h hc he hstb
      refine ⟨hsound, ?_, hval _ (Or.inr fun hack => ?_), fun hv => ?_, fun h0 => absurd h0 hne,
        fun _ => hwe, fun h0 => absurd h0 hne⟩
      · right
        show dests (next c s i) = _ ∨ dests (next c s i) = _
        rw [hd]
        cases i.iWbAck
        · exact Or.inl rfl
        · exact Or.inr rfl
      · rw [hd, hack, if_pos rfl, htl]
      · have hv' : (next c s i).oErr = true := hv
        rw [herr, he] at hv'
        cases hv'
    · -- an error
      obtain ⟨hsound, hd⟩ := next_err (c := c) (s := s) hr hc he
      exact ⟨hsound, Or.inl hd, hval _ (Or.inl hd), fun _ => hd, fun h0 => absurd h0 hne,
        fun _ => hwe, fun h0 => absurd h0 hne⟩

theorem orderly (ha : c.optAlignmentErr = false) : (pipemem AW c).Orderly dests true Sound where
  reset s i hr := by
    obtain ⟨hs, hd⟩ := sound_reset (c := c) (s := s) hr
    refine ⟨hs, hd, ?_, ?_⟩
    · show (!i.iReset && _) = false
      rw [hr]
      rfl
    · show (!i.iReset && _) = false
      rw [hr]
      rfl
  busy s h := by
    show s.cyc = !(dests s).isEmpty
    cases hc : s.cyc
    · rw [h.dests_eq_nil.mpr hc]
      rfl
    · cases hd : dests s with
      | nil =>
        rw [h.dests_eq_nil.mp hd] at hc
        cases hc
      | cons d ds => rfl
  step _ _ h hr hall := moves ha h hr hall

end Pipemem

/-! ## The memory unit of the CPU -/

/-- Whichever memory unit the CPU is built with, it is orderly, and takes requests while it is busy only
    with pipelined bus access. -/
theorem CpuCfg.memUnit_orderly (c : CpuCfg AW) :
    ∃ dests inv, c.memUnit.Orderly dests c.optMempipe inv := by
  cases h : c.optMempipe
  · rw [CpuCfg.memUnit, h]
    exact ⟨_, _, Memops.orderly _⟩
  · rw [CpuCfg.memUnit, h]
    exact ⟨_, _, Pipemem.orderly rfl⟩

end ZipStormMX.Cpu
