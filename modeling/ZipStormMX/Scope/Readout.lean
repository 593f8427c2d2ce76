/-
  Reading the compressed scope over the bus.

  A read returns the word that `this_addr` points to, two clocks later, if the address stays where it
  is for the clock after the read.  The read pointer starts at the oldest word, so by the recorder's
  theorem what is read stands for consecutive samples.
-/
import ZipStormMX.Scope.Recording

namespace ZipStormMX.Scope

open RunLength (Word expand extend)

namespace Wbscopc

variable {c : WbscopcCfg} {s : ℕ → Wbscopc c.lgmem} {x : ℕ → WbscopcIn}

/-- The reads of the data register from clock `n` on. -/
def readsFrom (x : ℕ → WbscopcIn) (n t : ℕ) : Bool := decide (n ≤ t) && (x t).readFromData

/-- The clocks `r 0`, `r 1`, … are those of successive reads from clock `n` on.  The address has to
stay on the data register for the clock after. -/
structure Reads (c : WbscopcCfg) (x : ℕ → WbscopcIn) (n : ℕ) (r : ℕ → ℕ) : Prop where
  read : ∀ j < 2 ^ c.lgmem, (x (r j)).readFromData = true ∧ (x (r j + 1)).iWbAddr = true
  count : ∀ j < 2 ^ c.lgmem, (Clocked.clocks (readsFrom x n) (r j)).length = j
  late : n < r 0
  quiet : ∀ t, n ≤ t → (x t).writeToData = false

/-- The read pointer counts the reads. -/
structure Reading (s : ℕ → Wbscopc c.lgmem) (x : ℕ → WbscopcIn) (n t : ℕ) : Prop where
  stopped : dwFinalStop c (s t) = true
  mem : (s t).mem = (s n).mem
  waddr : (s t).waddr = (s n).waddr
  raddr : (s t).raddr = BitVec.ofNat c.lgmem (Clocked.clocks (readsFrom x n) t).length
  thisAddr : n < t → (s t).thisAddr = (s t).raddr + (s t).waddr

namespace Captures

variable {n : ℕ} {r : ℕ → ℕ}

/-- The scope has stopped for good. -/
theorem stays (h : Captures c s x) {t : ℕ} (hfinal : dwFinalStop c (s t) = true) :
    dwFinalStop c (s (t + 1)) = true := by
  rw [h.step]
  cases hce : (x t).iCe
  · obtain ⟨-, -, -, -, -, -, -, -, -, -, hpipe⟩ := encoder_idle hce (h.not_reset t)
    rw [dwFinalStop, hpipe]
    exact hfinal
  · rw [dwFinalStop, stopPipe_next hce (h.not_reset t), shift_succ _ _ (by decide)]
    exact (h.stopping t).moves 3 (by decide) hfinal

theorem none_yet : (Clocked.clocks (readsFrom x n) n).length = 0 := by
  rw [List.length_eq_zero_iff, List.eq_nil_iff_forall_not_mem]
  intro k hk
  rw [Clocked.mem_clocks, readsFrom, Bool.and_eq_true, decide_eq_true_eq] at hk
  omega

theorem reading (h : Captures c s x) (hfinal : dwFinalStop c (s n) = true)
    (hzero : (s n).raddr = 0) (hquiet : ∀ t, n ≤ t → (x t).writeToData = false) {t : ℕ}
    (ht : n ≤ t) : Reading s x n t := by
  induction t, ht using Nat.le_induction with
  | base =>
    exact ⟨hfinal, rfl, rfl, by rw [none_yet]; exact hzero, fun hlt => absurd hlt (Nat.lt_irrefl n)⟩
  | succ t ht ih =>
    obtain ⟨hstop, hmem, hwaddr, hraddr, -⟩ := ih
    have hno := h.settled t hstop
    have hmem' : (s (t + 1)).mem = (s t).mem := by
      rw [h.step]
      show (if (s t).recordCe then _ else _) = _
      rw [hno, if_neg Bool.false_ne_true]
    have hwaddr' : (s (t + 1)).waddr = (s t).waddr := by
      rw [h.step]
      show (if dwReset c (s t) then _ else if (s t).recordCe then _ else _) = _
      rw [h.not_reset, hno, if_neg Bool.false_ne_true, if_neg Bool.false_ne_true]
    have hraddr' : (s (t + 1)).raddr =
        if (x t).readFromData then (s t).raddr + 1 else (s t).raddr := by
      rw [h.step]
      show (if dwReset c (s t) || (x t).writeToData then 0
        else if (x t).readFromData && dwFinalStop c (s t) then _ else _) = _
      rw [h.not_reset, hquiet t ht, hstop, Bool.or_false, if_neg Bool.false_ne_true, Bool.and_true]
    have hthis' : (s (t + 1)).thisAddr = if (x t).readFromData then
        (s t).raddr + (s t).waddr + 1 else (s t).raddr + (s t).waddr := by
      rw [h.step]
      rfl
    have hcount : (Clocked.clocks (readsFrom x n) (t + 1)).length =
        (Clocked.clocks (readsFrom x n) t).length + (x t).readFromData.toNat := by
      rw [Clocked.clocks_succ, List.length_append, readsFrom, decide_eq_true ht, Bool.true_and]
      cases (x t).readFromData <;> rfl
    refine ⟨h.stays hstop, hmem'.trans hmem, hwaddr'.trans hwaddr, ?_, fun _ => ?_⟩
    · rw [hraddr', hcount, hraddr]
      cases (x t).readFromData
      · rfl
      · exact (ofNat_succ _ _).symm
    · rw [hthis', hraddr', hwaddr']
      cases (x t).readFromData
      · rfl
      · exact add_right_comm _ _ _

/-- A read returns the word that `this_addr` points to, two clocks later. -/
theorem returns (h : Captures c s x) {t : ℕ} (haddr : (x (t + 1)).iWbAddr = true)
    (hstop : dwFinalStop c (s (t + 1)) = true) :
    (s (t + 2)).oWbData = (s t).mem (s t).thisAddr := by
  have hnxt : (s (t + 1)).nxtMem = (s t).mem (s t).thisAddr := by
    rw [h.step]
    rfl
  rw [h.step (t + 1)]
  show (if !(x (t + 1)).iWbAddr then _ else if !dwFinalStop c (s (t + 1)) then _ else _) = _
  rw [haddr, hstop, Bool.not_true, if_neg Bool.false_ne_true, if_neg Bool.false_ne_true, hnxt]

/-- The reads return the memory, oldest word first. -/
theorem reads_eq (h : Captures c s x) (hfinal : dwFinalStop c (s n) = true)
    (hzero : (s n).raddr = 0) (hreads : Reads c x n r) :
    (List.range (2 ^ c.lgmem)).map (fun j => (s (r j + 2)).oWbData) = rawread c (s n) := by
  refine List.map_congr_left fun j hj => ?_
  rw [List.mem_range] at hj
  have hlate : n < r j := by
    by_contra hle
    have hcount := hreads.count j hj
    have hmono := (Clocked.clocks_mono (readsFrom x n) (by omega : r j ≤ n)).length_le
    rw [none_yet, hcount, Nat.le_zero] at hmono
    rw [hmono] at hle
    exact hle hreads.late
  have hreading := h.reading hfinal hzero hreads.quiet (Nat.le_of_lt hlate)
  rw [h.returns (hreads.read j hj).2 (h.stays hreading.stopped), hreading.thisAddr hlate,
    hreading.raddr, hreads.count j hj, hreading.waddr, hreading.mem]

end Captures

/-! ## A scope of two words -/

def tinyCfg : WbscopcCfg := ⟨1, Nat.one_pos, 0, 8⟩

/-- The scope after a reset. -/
def cleared : Wbscopc tinyCfg.lgmem where
  brRun := true
  brManual := false
  brDisable := false
  brHoldoff := 0
  drTriggered := false
  drPrimed := false
  holdoffCounter := 0
  drStopped := false
  drStopPipe := 0
  ckAddr := 0
  qdData := 0
  drForceWrite := true
  drForceInhibit := false
  drRunTimeout := true
  newData := true
  immAdr := true
  immVal := 0
  lstAdr := true
  lstVal := 0
  recordCe := false
  rData := 0
  waddr := 0
  mem := fun _ => 0
  raddr := 0
  thisAddr := 0
  nxtMem := 0
  brPreWbAck := false
  brWbAck := false
  oWbData := 0
  brLevelInterrupt := false

/-- The samples are the numbers of their clocks, the trigger is on clock six, and from clock 14 on the
host reads. -/
def ramp (t : ℕ) : WbscopcIn where
  iCe := true
  iTrigger := t == 6
  iData := BitVec.ofNat 31 t
  iWbCyc := true
  iWbStb := 13 < t
  iWbWe := false
  iWbAddr := true
  iWbData := 0

theorem ramp_writes (t : ℕ) :
    (ramp t).writeToControl = false ∧ (ramp t).writeToData = false := by
  constructor
  · rw [WbscopcIn.writeToControl]
    exact Bool.and_false _
  · rw [WbscopcIn.writeToData]
    exact Bool.and_false _

theorem ramp_captures : Captures tinyCfg (Clocked.run (next tinyCfg) cleared ramp) ramp where
  step := fun _ => rfl
  start := ⟨rfl, rfl, rfl, rfl, rfl, rfl, rfl, rfl, rfl, rfl, rfl, rfl⟩
  run := rfl
  asks := fun t => by rw [WbscopcIn.asksReset, (ramp_writes t).1, Bool.false_and]

theorem ramp_reads : Reads tinyCfg ramp 13 (fun j => 14 + j) where
  read := by decide
  count := by decide
  late := by decide
  quiet := fun t _ => (ramp_writes t).2

end Wbscopc

end ZipStormMX.Scope
