/-
  The SDRAM and its controller together are a memory.

  `Chip` is the memory's side, as a data sheet has it: two banks of cells of half a word, the row that
  each bank has open, bursts of two, and the data of a read three clocks behind its command.  What the
  controller is for is said by `Store.after`: a read returns what the accesses before it, one at a time
  and in the order in which they were accepted, have left in the word.

  The second half of a word is written on the clock after the command.  So the invariant (`Holds`) is
  not about the cells but about the cells as they are once that half is in place (`settled`): they are
  the words that the commands on the pins so far have made.  That a command finds its row is `Tracks`,
  that it carries its request is `carried`.
-/
import ZipStormMX.Store
import ZipStormMX.Sdram.Requests

namespace ZipStormMX.Sdram

open Store (Access after)

/-! ## The chip -/

/-- A cell: its bank, its row and its column. -/
abbrev Cell := Bool × BitVec 11 × BitVec 8

structure Chip where
  rows : Rows
  cells : Cell → BitVec 16
  -- where the second half of a write goes
  rest : Option Cell
  -- the data pins, on this clock and the next ones
  q0 : BitVec 16
  q1 : BitVec 16
  q2 : BitVec 16
  q3 : BitVec 16

namespace Chip

variable (m : Chip) (p : Pins) (data : BitVec 16) (dqm : BitVec 2)

/-- A write to a cell; the bytes that `dqm` masks stay. -/
def put (k : Cell) : Access Cell 2 := { we := true, addr := k, data := data, sel := ~~~dqm }

/-- The cells, with the second half of a write in place. -/
def settled : Cell → BitVec 16 :=
  match m.rest with
  | some k => (put data dqm k).apply m.cells
  | none => m.cells

/-- The cell that an access goes to, if a row is open. -/
def target : Option Cell := (m.rows.get p.bank).map fun row => (p.bank, row, p.col)

/-- The other cell of a burst. -/
def second (k : Cell) : Cell := (k.1, k.2.1, k.2.2 + 1)

def next : Chip where
  rows := m.rows.after p
  cells :=
    if p.writes then
      match target m p with
      | some k => (put data dqm k).apply (settled m data dqm)
      | none => settled m data dqm
    else settled m data dqm
  rest := if p.writes then (target m p).map second else none
  q0 := m.q1
  q1 := m.q2
  q2 := if p.reads then (target m p).elim 0 (settled m data dqm) else m.q3
  q3 := if p.reads then (target m p).elim 0 fun k => settled m data dqm (second k) else 0

end Chip

/-! ## Words -/

/-- The cell of the upper half of a word. -/
def cellOf (a : BitVec 19) : Cell := (bankOf a, rowOf a, colOf a)

/-- A word in the cells. -/
def word (f : Cell → BitVec 16) (a : BitVec 19) : BitVec 32 :=
  f (cellOf a) ++ f (Chip.second (cellOf a))

theorem colOf_toNat (a : BitVec 19) : (colOf a).toNat = 2 * (a.toNat % 128) := by
  rw [colOf, BitVec.toNat_append, BitVec.extractLsb'_toNat]
  simp
  omega

theorem rowOf_toNat (a : BitVec 19) : (rowOf a).toNat = a.toNat / 256 := by
  rw [rowOf, BitVec.extractLsb'_toNat]
  have := a.isLt
  omega

theorem bankOf_toNat (a : BitVec 19) : (bankOf a).toNat = a.toNat / 128 % 2 := by
  rw [bankOf, BitVec.getLsbD, Nat.testBit_eq_decide_div_mod_eq]
  have := Nat.mod_two_eq_zero_or_one (a.toNat / 2 ^ 7)
  by_cases h : a.toNat / 2 ^ 7 % 2 = 1
  · rw [decide_eq_true h]
    exact h.symm
  · rw [decide_eq_false h]
    exact (this.resolve_right h).symm

/-- A cell belongs to one word. -/
theorem cellOf_inj {a b : BitVec 19} (h : cellOf a = cellOf b) : a = b := by
  obtain ⟨hbank, hrow, hcol⟩ : bankOf a = bankOf b ∧ rowOf a = rowOf b ∧ colOf a = colOf b := by
    simpa [cellOf] using h
  have hbank' := congrArg Bool.toNat hbank
  have hrow' := congrArg BitVec.toNat hrow
  have hcol' := congrArg BitVec.toNat hcol
  rw [bankOf_toNat, bankOf_toNat] at hbank'
  rw [rowOf_toNat, rowOf_toNat] at hrow'
  rw [colOf_toNat, colOf_toNat] at hcol'
  apply BitVec.eq_of_toNat_eq
  omega

theorem second_inj {j k : Cell} (h : Chip.second j = Chip.second k) : j = k := by
  obtain ⟨b, r, x⟩ := j
  obtain ⟨b', r', x'⟩ := k
  obtain ⟨hb, hr, hx⟩ : b = b' ∧ r = r' ∧ x + 1 = x' + 1 := by
    simpa [Chip.second] using h
  rw [hb, hr, add_right_cancel hx]

/-- The halves of words are different cells. -/
theorem second_ne (a b : BitVec 19) : Chip.second (cellOf a) ≠ cellOf b := by
  intro h
  have hcol : colOf a + 1 = colOf b := congrArg (fun k : Cell => k.2.2) h
  have := congrArg BitVec.toNat hcol
  rw [BitVec.toNat_add, colOf_toNat, colOf_toNat] at this
  simp at this
  omega

/-- A word that is written in two halves is written as a whole. -/
theorem word_put (f : Cell → BitVec 16) (a : BitVec 19) (data : BitVec 32) (sel : BitVec 4) :
    word ((Chip.put (data.extractLsb' 0 16) (~~~sel.extractLsb' 0 2)
      (Chip.second (cellOf a))).apply
        ((Chip.put (data.extractLsb' 16 16) (~~~sel.extractLsb' 2 2) (cellOf a)).apply f)) =
      (Access.mk (n := 4) true a data sel).apply (word f) := by
  funext b
  rw [Store.apply_write _ rfl, Store.apply_write _ rfl, Store.apply_write _ rfl]
  simp only [word, Chip.put, BitVec.not_not]
  by_cases hb : b = a
  · subst hb
    rw [Function.update_of_ne (second_ne b b).symm, Function.update_self, Function.update_self,
      Function.update_self, Function.update_of_ne (second_ne b b), Store.merge_append]
  · have hcell : cellOf b ≠ cellOf a := fun h => hb (cellOf_inj h)
    rw [Function.update_of_ne (second_ne a b).symm, Function.update_of_ne hcell,
      Function.update_of_ne fun h => hcell (second_inj h), Function.update_of_ne (second_ne b a),
      Function.update_of_ne hb]
    rfl

/-! ## The controller with its chip -/

def Request.access (r : Request) : Access (BitVec 19) 4 := ⟨r.we, r.addr, r.data, r.sel⟩

namespace Wbsdram

open Clocked

/-- The pins of the chip are those of the controller. -/
structure Attached (s : ℕ → Wbsdram) (i : ℕ → SdramIn) (m : ℕ → Chip) : Prop where
  step : ∀ n, m (n + 1) = (m n).next (pins (s n)) (s n).oRamData (s n).oRamDqm
  idle : (m 0).rest = none
  data : ∀ n, (i n).iRamData = (m n).q0

/-- The cells on clock `n`. -/
def cellsAt (s : ℕ → Wbsdram) (m : ℕ → Chip) (n : ℕ) : Cell → BitVec 16 :=
  (m n).settled (s n).oRamData (s n).oRamDqm

/-- The accesses that have gone out before clock `n`. -/
def sent (s : ℕ → Wbsdram) (i : ℕ → SdramIn) (n : ℕ) : List (Access (BitVec 19) 4) :=
  (issueClocks s i n).map fun t => (current (s t)).access

section Attached

variable {c : SdramCfg} {s : ℕ → Wbsdram} {i : ℕ → SdramIn} {m : ℕ → Chip}

theorem Attached.rows (h : Attached s i m) (n : ℕ) : (m n).rows = rowsAt (m 0).rows s n := by
  induction n with
  | zero => rfl
  | succ n ih =>
    rw [h.step]
    show (m n).rows.after (pins (s n)) = _
    rw [ih]
    rfl

/-- Without the look-ahead the books are always right. -/
theorem tracks (hc : c.optFwdAddress = false) (h0 : AtPowerUp c (s 0))
    (hstep : ∀ n, s (n + 1) = next c (s n) (i n)) (r : Rows) (n : ℕ) :
    Tracks (s n) (rowsAt r s (n + 1)) := by
  have hkept := kept_run h0 hstep
  induction n with
  | zero =>
    have hzero : ∀ b, booked (s 0) b = false := fun b =>
      booked_of_zero (by rw [h0.bankActive, Banks.get_both])
    refine ⟨fun b hb => ?_, fun b _ => .inr (unprimed_powerUp h0), fun _ hb => ?_⟩
    · exact absurd ((hzero b).symm.trans hb) (by decide)
    · exact absurd ((hzero _).symm.trans hb) (by decide)
  | succ n ih =>
    show Tracks (s (n + 1)) ((rowsAt r s (n + 1)).after (pins (s (n + 1))))
    rw [hstep]
    exact ih.next (hkept n) (misleads_of_plain hc)

/-- What goes out finds its cell. -/
theorem Attached.target (h : Attached s i m) (hc : c.optFwdAddress = false)
    (h0 : AtPowerUp c (s 0)) (hstep : ∀ n, s (n + 1) = next c (s n) (i n)) {t : ℕ}
    (ht : issued (s t) (i t) = true) :
    (m (t + 1)).target (pins (s (t + 1))) = some (cellOf (s t).rAddr) := by
  have hkept := kept_run h0 hstep
  have hpins := @command_next c (s t) (i t) (hkept t)
  rw [ht, Bool.or_eq_true, ← hstep] at hpins
  have htouches : Touches _ (some (s t).rAddr) _ (pins (next c (s t) (i t))) :=
    (tracks hc h0 hstep (m 0).rows t).touches (hkept t) fun _ _ => rfl
  rw [← hstep, ← h.rows] at htouches
  obtain ⟨-, a, ha, hbank, hcol, hrow⟩ := htouches.access hpins
  obtain rfl := Option.some.inj ha
  rw [Chip.target, hrow, hcol, hbank]
  rfl

/-- Nothing goes out on two clocks in a row. -/
theorem not_issued (h0 : AtPowerUp c (s 0)) (hstep : ∀ n, s (n + 1) = next c (s n) (i n)) {t : ℕ}
    (ht : issued (s t) (i t) = true) : issued (s (t + 1)) (i (t + 1)) = false := by
  have hbus := @Kept.busCyc_eq c (s t) (i t) (kept_run h0 hstep t) (pending_of_issued ht)
  refine Bool.eq_false_iff.mpr fun hnext => ?_
  have hp := pending_of_issued hnext
  rw [hstep, next_rPending, nextPending, hbus, ht, if_neg Bool.false_ne_true, if_pos rfl] at hp
  exact absurd hp (by decide)

/-- **What the chip holds.**  With the second half of a write in place, the cells are what the requests
that have gone out, one at a time, have made of them. -/
theorem Attached.holds (h : Attached s i m) (hc : c.optFwdAddress = false)
    (h0 : AtPowerUp c (s 0)) (hstep : ∀ n, s (n + 1) = next c (s n) (i n)) (n : ℕ) :
    word (cellsAt s m (n + 1)) = after (word (m 0).cells) (sent s i n) := by
  have hkept := kept_run h0 hstep
  -- on a clock without a write the cells stay
  have hstays : ∀ n, (pins (s n)).writes = false → cellsAt s m (n + 1) = cellsAt s m n := by
    intro n hno
    have hcells : (m (n + 1)).cells = cellsAt s m n := by
      rw [h.step]
      show (if (pins (s n)).writes then _ else cellsAt s m n) = _
      rw [hno, if_neg Bool.false_ne_true]
    have hrest : (m (n + 1)).rest = none := by
      rw [h.step]
      show (if (pins (s n)).writes then _ else none) = _
      rw [hno, if_neg Bool.false_ne_true]
    rw [cellsAt, Chip.settled, hrest, hcells]
  induction n with
  | zero =>
    have hno : (pins (s 0)).writes = false := by
      refine Bool.eq_false_iff.mpr fun hw => ?_
      rw [writes_iff, h0.oCmd] at hw
      exact absurd hw (by decide)
    rw [hstays 0 hno, cellsAt, Chip.settled, h.idle]
    rfl
  | succ n ih =>
    have hpins := @command_next c (s n) (i n) (hkept n)
    rw [← hstep] at hpins
    rw [sent, issueClocks, clocks_succ, List.map_append]
    cases hissued : issued (s n) (i n)
    · -- no command
      rw [hissued, Bool.or_eq_false_iff] at hpins
      rw [hstays (n + 1) hpins.2, ih, if_neg Bool.false_ne_true, List.map_nil, List.append_nil]
      rfl
    · have hcarried := @carried c s i hstep hkept n hissued
      have htarget := h.target hc h0 hstep hissued
      rw [if_pos rfl, List.map_singleton, Store.after_concat]
      show _ = (current (s n)).access.apply (after _ (sent s i n))
      rw [← ih]
      cases hwe : (s n).rWe
      · -- a read
        have hdir : (pins (s (n + 1))).reads = true := by
          have := hcarried.direction
          rwa [current, hwe, if_neg Bool.false_ne_true] at this
        have hno : (pins (s (n + 1))).writes = false := by
          refine Bool.eq_false_iff.mpr fun hw => ?_
          rw [reads_iff] at hdir
          rw [writes_iff, hdir] at hw
          exact absurd hw (by decide)
        rw [hstays (n + 1) hno, Store.apply_read _ hwe]
      · -- a write
        have hdir : (pins (s (n + 1))).writes = true := by
          have := hcarried.direction
          rwa [current, hwe, if_pos rfl] at this
        obtain ⟨⟨hhi, hlo⟩, ⟨hmhi, hmlo⟩, -⟩ := hcarried.write hwe
        have hcells : (m (n + 2)).cells = (Chip.put (s (n + 1)).oRamData (s (n + 1)).oRamDqm
            (cellOf (s n).rAddr)).apply (cellsAt s m (n + 1)) := by
          rw [h.step]
          show (if (pins (s (n + 1))).writes then match (m (n + 1)).target (pins (s (n + 1))) with
            | some k => _ | none => _ else _) = _
          rw [hdir, if_pos rfl, htarget]
          rfl
        have hrest : (m (n + 2)).rest = some (Chip.second (cellOf (s n).rAddr)) := by
          rw [h.step]
          show (if (pins (s (n + 1))).writes then _ else none) = _
          rw [hdir, if_pos rfl, htarget]
          rfl
        have hwrite : (current (s n)).access =
            Access.mk (n := 4) true (s n).rAddr (s n).rData (s n).rSel := by
          rw [← hwe]
          rfl
        rw [hwrite, ← word_put, cellsAt, Chip.settled, hrest, hcells, hhi, hlo, hmhi, hmlo]
        rfl

/-- A read that goes out returns what the chip holds. -/
theorem Attached.returns (h : Attached s i m) (hc : c.optFwdAddress = false)
    (h0 : AtPowerUp c (s 0)) (hstep : ∀ n, s (n + 1) = next c (s n) (i n)) {t : ℕ}
    (ht : issued (s t) (i t) = true) (hwe : (s t).rWe = false) :
    (s (due (s t) t)).oWbData = word (cellsAt s m (t + 1)) (s t).rAddr := by
  have hkept := kept_run h0 hstep
  have hcarried := @carried c s i hstep hkept t ht
  obtain ⟨hack, hdata⟩ := hcarried.read hwe
  have hdir : (pins (s (t + 1))).reads = true := by
    have := hcarried.direction
    rwa [current, hwe, if_neg Bool.false_ne_true] at this
  have hnext : (pins (s (t + 2))).reads = false := by
    have hpins := @command_next c (s (t + 1)) (i (t + 1)) (hkept (t + 1))
    rw [not_issued h0 hstep ht, ← hstep, Bool.or_eq_false_iff] at hpins
    exact hpins.1
  have htarget := h.target hc h0 hstep ht
  -- the burst on its way through the chip
  have hq2 : (m (t + 2)).q2 = cellsAt s m (t + 1) (cellOf (s t).rAddr) := by
    rw [h.step]
    show (if (pins (s (t + 1))).reads then _ else _) = _
    rw [hdir, if_pos rfl, htarget]
    rfl
  have hq3 : (m (t + 2)).q3 = cellsAt s m (t + 1) (Chip.second (cellOf (s t).rAddr)) := by
    rw [h.step]
    show (if (pins (s (t + 1))).reads then _ else _) = _
    rw [hdir, if_pos rfl, htarget]
    rfl
  have hfirst : (i (t + 4)).iRamData = (m (t + 2)).q2 := by
    rw [h.data, h.step (t + 3)]
    show (m (t + 3)).q1 = _
    rw [h.step (t + 2)]
    rfl
  have hlast : (i (t + 5)).iRamData = (m (t + 2)).q3 := by
    rw [h.data, h.step (t + 4)]
    show (m (t + 4)).q1 = _
    rw [h.step (t + 3)]
    show (m (t + 3)).q2 = _
    rw [h.step (t + 2)]
    show (if (pins (s (t + 2))).reads then _ else (m (t + 2)).q3) = _
    rw [hnext, if_neg Bool.false_ne_true]
  rw [hack] at hdata ⊢
  rw [hdata]
  show (i (t + 4)).iRamData ++ (i (t + 5)).iRamData = word (cellsAt s m (t + 1)) (s t).rAddr
  rw [hfirst, hlast, hq2, hq3]
  rfl

/-- **The SDRAM is a memory.**  With the look-ahead left out, whatever the bus asks for and whenever,
as long as it waits for its answers: each read that is accepted is acknowledged in its turn, with what
the requests accepted before it, one at a time, have left in its word. -/
theorem reads_memory (h : Attached s i m) (hc : c.optFwdAddress = false)
    (h0 : AtPowerUp c (s 0)) (hstep : ∀ n, s (n + 1) = next c (s n) (i n))
    (hcyc : ∀ n, (ackClocks s n).length < (acceptClocks s i n).length → (i n).iWbCyc = true)
    {n k t : ℕ} (hk : (acceptClocks s i n)[k]? = some t) (hread : (i t).iWbWe = false) :
    ∃ m' ack, (ackClocks s m')[k]? = some ack ∧ (s ack).oWbData =
      after (word (m 0).cells) (((acceptClocks s i n).take k).map fun t => (i t).request.access)
        (i t).iWbAddr := by
  have hkept := kept_run h0 hstep
  have hbooks := books h0 hstep hcyc
  have hb : ∀ n, Books s i n := fun n => (hbooks n).2
  have hout : ∀ n, (s n).rPending = true → ∃ m, n ≤ m ∧ issued (s m) (i m) = true := fun n hp =>
    goes_out hc hstep hkept (fun n => (hbooks n).1)
      (fun n hp => hcyc n ((hb n).outstanding (.inl hp))) hp
  obtain ⟨m', u, hu, hreq⟩ := goes_out_in_turn hb hout hk
  have hissued : issued (s u) (i u) = true := (mem_clocks.1 (List.mem_of_getElem? hu)).2
  have hwe : (s u).rWe = false := by
    rw [← hread]
    exact (congrArg Request.we hreq).symm
  have haddr : (i t).iWbAddr = (s u).rAddr := congrArg Request.addr hreq
  refine ⟨m' + rdly, due (s u) u, acknowledged_in_turn hb hu, ?_⟩
  rw [h.returns hc h0 hstep hissued hwe, h.holds hc h0 hstep, haddr]
  congr 2
  -- what had gone out by then is what had been accepted before
  have hlen : (issueClocks s i u).length = k := clocks_length_of_get hu
  have hbefore := (hb u).requests
  have hcount := congrArg List.length hbefore
  rw [List.length_map, List.length_append, List.length_map, hlen] at hcount
  have htake : (acceptClocks s i n).take k = (acceptClocks s i u).take k :=
    clocks_take (Nat.le_of_lt (List.getElem?_eq_some_iff.1 hk).1) (by
      rw [← acceptClocks]
      omega)
  have hlen' : ((issueClocks s i u).map fun t => current (s t)).length = k := by
    rw [List.length_map, hlen]
  have hfirst : ((acceptClocks s i u).take k).map (fun t => (i t).request) =
      (issueClocks s i u).map fun t => current (s t) := by
    rw [List.map_take, hbefore, List.take_append_of_le_length (Nat.le_of_eq hlen'.symm),
      List.take_of_length_le (Nat.le_of_eq hlen')]
  rw [htake]
  have haccess := congrArg (List.map Request.access) hfirst
  rw [List.map_map, List.map_map] at haccess
  exact haccess.symm

/-! ### A word that is written and read -/

def slowCfg : SdramCfg := ⟨10000, false⟩

/-- A chip with nothing open, and all cells zero. -/
def blank : Chip := ⟨.both none, fun _ => 0, none, 0, 0, 0, 0⟩

/-- A master that writes a word, and then reads it. -/
def master (t : ℕ) : SdramIn := if t < 40 then writeOf 512 else readOf 512

/-- The controller with the chip on its pins. -/
def together (t : ℕ) : Wbsdram × Chip :=
  Clocked.run (fun x i => (next slowCfg x.1 { i with iRamData := x.2.q0 },
    x.2.next (pins x.1) x.1.oRamData x.1.oRamDqm)) (poweringUp slowCfg 0, blank) master t

def atPins (t : ℕ) : SdramIn := { master t with iRamData := (together t).2.q0 }

theorem atPins_cyc (t : ℕ) : (atPins t).iWbCyc = true := by
  show (master t).iWbCyc = true
  rw [master]
  split <;> rfl

theorem reads_memory_together :
    ∃ m' ack, (ackClocks (fun t => (together t).1) m')[1]? = some ack ∧ (together ack).1.oWbData =
      after (word (together 0).2.cells)
        (((acceptClocks (fun t => (together t).1) atPins 55).take 1).map
          fun t => (atPins t).request.access) (atPins 54).iWbAddr :=
  reads_memory (s := fun t => (together t).1) (m := fun t => (together t).2)
    ⟨fun _ => rfl, rfl, fun _ => rfl⟩ rfl (atPowerUp_poweringUp slowCfg) (fun _ => rfl)
    (fun n _ => atPins_cyc n) (by decide +kernel) (by decide)

end Attached

end Wbsdram

end ZipStormMX.Sdram
