/-
  The bus of the board gives every request its own answer.

  The source says itself what could go wrong: two peripherals might answer at once, or out of order,
  and it leaves it to the master not to turn from one to another while it waits.  Under that one
  condition the peripherals behind the decoder are one slave (`serves_joined`), and what is left to
  show is local: each peripheral that is answered here serves (`serves_sio`, `serves_dio`), and
  `r_wb_bus_select` stands at the one that answers (`select_waiting`).
-/
import ZipStormMX.Pipelined
import ZipStormMX.Bus.Main

namespace ZipStormMX.Bus

open Pipelined

/-! ## The address map -/

/-- Who answers.  The flash and its control port are one. -/
inductive Port where
  | flash
  | dio
  | console
  | sdcard
  | sio
  | bkram
  | sdram
  deriving DecidableEq, Repr

/-- Who answers at an address, from its top five bits. -/
def portOf (p : BitVec 5) : Option Port :=
  match p.toNat with
  | 1 => some .flash
  | 2 => some .dio
  | 3 => some .console
  | 4 => some .sdcard
  | 5 => some .sio
  | 6 => some .bkram
  | 8 => some .flash
  | 9 => some .flash
  | k => if k / 8 = 2 then some .sdram else none

/-- What `r_wb_bus_select` stands for. -/
def slaveOf (b : BitVec 3) : Port :=
  match b.toNat with
  | 0 => .flash
  | 1 => .dio
  | 2 => .console
  | 3 => .sdcard
  | 4 => .sio
  | 5 => .bkram
  | 6 => .flash
  | _ => .sdram

namespace Main

variable {s : Main} {i : MainIn}

theorem slaveOf_busSelect : ∀ (p : BitVec 5) (old : BitVec 3) (k : Port), portOf p = some k →
    slaveOf (busSelect p old) = k := by decide +kernel

theorem busSelect_none : ∀ (p : BitVec 5) (old : BitVec 3), portOf p = none →
    busSelect p old = old := by decide +kernel

/-- The port of an address; of one that nobody has, any. -/
def portAt (i : MainIn) : Port := (portOf (page i.wbAddr)).getD .flash

/-- Somebody has the address. -/
def mapped (i : MainIn) : Bool := (portOf (page i.wbAddr)).isSome

theorem sels_none (a : BitVec 21) : (sels a).all (!·) = (portOf (page a)).isNone := by
  simp only [sels, flashcfgSel, wbDioSel, consoleSel, sdcardSel, wbSioSel, bkramSel, flashSel,
    sdramSel]
  generalize page a = p
  revert p
  decide +kernel

theorem sel_sio (a : BitVec 21) : wbSioSel a = decide (portOf (page a) = some .sio) := by
  rw [wbSioSel]
  generalize page a = p
  revert p
  decide +kernel

theorem sel_dio (a : BitVec 21) : wbDioSel a = decide (portOf (page a) = some .dio) := by
  rw [wbDioSel]
  generalize page a = p
  revert p
  decide +kernel

/-! ## The lines of a port -/

/-- The acknowledgement of a port. -/
def ack (s : Main) (i : MainIn) : Port → Bool
  | .flash => i.flash.ack
  | .dio => (wbDio s).ack
  | .console => i.console.ack
  | .sdcard => i.sdcard.ack
  | .sio => (wbSio s).ack
  | .bkram => i.bkram.ack
  | .sdram => i.sdram.ack

/-- The data of a port. -/
def data (s : Main) (i : MainIn) : Port → BitVec 32
  | .flash => i.flash.data
  | .dio => (wbDio s).data
  | .console => i.console.data
  | .sdcard => i.sdcard.data
  | .sio => (wbSio s).data
  | .bkram => i.bkram.data
  | .sdram => i.sdram.data

theorem any_acks : (acks s i).any id = true ↔ ∃ k, ack s i k = true := by
  constructor
  · intro h
    simp only [acks, slaves, flashcfg, List.map_cons, List.map_nil, List.any_cons, List.any_nil, id,
      Bool.or_false, Bool.false_or, Bool.or_eq_true] at h
    rcases h with h | h | h | h | h | h | h
    · exact ⟨.dio, h⟩
    · exact ⟨.console, h⟩
    · exact ⟨.sdcard, h⟩
    · exact ⟨.sio, h⟩
    · exact ⟨.bkram, h⟩
    · exact ⟨.flash, h⟩
    · exact ⟨.sdram, h⟩
  · rintro ⟨k, h⟩
    simp only [acks, slaves, List.map_cons, List.map_nil, List.any_cons, List.any_nil, id]
    cases k <;> rw [ack] at h <;> simp [h]

/-- One port that answers alone is no collision. -/
theorem countP_acks {k : Port} (h : ∀ j, ack s i j = true → j = k) :
    (acks s i).countP id ≤ 1 := by
  have hno : ∀ j, j ≠ k → ack s i j = false := by
    intro j hj
    cases ha : ack s i j
    · rfl
    · exact absurd (h j ha) hj
  have hflash := hno .flash
  have hdio := hno .dio
  have hconsole := hno .console
  have hsdcard := hno .sdcard
  have hsio := hno .sio
  have hbkram := hno .bkram
  have hsdram := hno .sdram
  simp only [ack] at hflash hdio hconsole hsdcard hsio hbkram hsdram
  simp only [acks, slaves, List.map_cons, List.map_nil, List.countP_cons, List.countP_nil, id,
    flashcfg]
  cases k <;> simp_all <;> split <;> omega

theorem nextIdata_eq : nextIdata s i = data s i (slaveOf s.rWbBusSelect) := by
  have hlt := s.rWbBusSelect.isLt
  have hcases : s.rWbBusSelect.toNat = 0 ∨ s.rWbBusSelect.toNat = 1 ∨ s.rWbBusSelect.toNat = 2 ∨
      s.rWbBusSelect.toNat = 3 ∨ s.rWbBusSelect.toNat = 4 ∨ s.rWbBusSelect.toNat = 5 ∨
      s.rWbBusSelect.toNat = 6 ∨ s.rWbBusSelect.toNat = 7 := by omega
  rw [nextIdata, slaveOf]
  rcases hcases with h | h | h | h | h | h | h | h <;> rw [h] <;> rfl

/-- The registers that are answered here do not stall. -/
theorem stall_inner (h : portOf (page i.wbAddr) = some .sio ∨ portOf (page i.wbAddr) = some .dio) :
    wbStall s i = false := by
  revert h
  simp only [wbStall, sels, slaves, List.zip_cons_cons, List.zip_nil_right, List.any_cons,
    List.any_nil, flashcfgSel, wbDioSel, consoleSel, sdcardSel, wbSioSel, bkramSel, flashSel,
    sdramSel, flashcfg, wbDio, wbSio]
  generalize page i.wbAddr = p
  generalize i.console.stall = c1
  generalize i.sdcard.stall = c2
  generalize i.bkram.stall = c3
  generalize i.flash.stall = c4
  generalize i.sdram.stall = c5
  revert p c1 c2 c3 c4 c5
  decide +kernel

end Main

/-! ## Runs -/

namespace Main

section Run

variable {s : ℕ → Main} {i : ℕ → MainIn} {bound : ℕ} {right : ℕ → BitVec 32 → Prop}

def held (i : ℕ → MainIn) (n : ℕ) : Bool := (i n).wbCyc

/-- A request is taken by somebody. -/
def takes (s : ℕ → Main) (i : ℕ → MainIn) (n : ℕ) : Bool :=
  (i n).wbStb && !wbStall (s n) (i n) && mapped (i n)

/-- The port that the request of clock `n` goes to. -/
def port (i : ℕ → MainIn) (n : ℕ) : Port := portAt (i n)

/-- A port serves what the bus gives it: `right t d` if `d` is a right answer for the request of
    clock `t`. -/
def PortServes (s : ℕ → Main) (i : ℕ → MainIn) (right : ℕ → BitVec 32 → Prop) (bound : ℕ)
    (k : Port) : Prop :=
  Serves (held i) (takenBy (takes s i) (port i) k) (fun n => ack (s n) (i n) k)
    (fun t n => right t (data (s n) (i n) k)) bound

/-- The right answers of the registers that are answered here: what they held on the clock of the
    request, or for the timers on the clock behind it. -/
def rightInner (s : ℕ → Main) (i : ℕ → MainIn) (t : ℕ) (d : BitVec 32) : Prop :=
  match port i t with
  | .sio => d = nextSioData (s t) (i t)
  | .dio => d = if (i t).wbAddr.getLsbD 0 then (i (t + 1)).watchdogData
      else (i (t + 1)).bustimerData
  | _ => False

theorem takenBy_port {k : Port} {n : ℕ} (h : takenBy (takes s i) (port i) k n = true) :
    portOf (page (i n).wbAddr) = some k := by
  simp only [takenBy, takes, mapped, Bool.and_eq_true, decide_eq_true_eq] at h
  obtain ⟨⟨-, hsome⟩, hport⟩ := h
  obtain ⟨j, hj⟩ := Option.isSome_iff_exists.1 hsome
  rw [port, portAt, hj, Option.getD_some] at hport
  rw [hj, hport]

/-- The requests to the registers that are answered here. -/
theorem takenBy_inner {k : Port} (hk : k = .sio ∨ k = .dio) (n : ℕ) :
    takenBy (takes s i) (port i) k n =
      ((i n).wbStb && decide (portOf (page (i n).wbAddr) = some k)) := by
  by_cases hp : portOf (page (i n).wbAddr) = some k
  · have hst : wbStall (s n) (i n) = false := by
      apply stall_inner
      rcases hk with rfl | rfl
      · exact .inl hp
      · exact .inr hp
    simp [takenBy, takes, mapped, port, portAt, hp, hst]
  · cases ht : takenBy (takes s i) (port i) k n
    · simp [hp]
    · exact absurd (takenBy_port ht) hp

section Served

variable (hcyc : ∀ n, (i n).wbStb = true → (i n).wbCyc = true)
include hcyc

theorem stb_of_not_held {n : ℕ} (h : held i n = false) : (i n).wbStb = false := by
  cases hstb : (i n).wbStb
  · rfl
  · rw [held, hcyc n hstb] at h
    cases h

variable (hs : ∀ n, s (n + 1) = next (s n) (i n))
include hs

theorem serves_sio (h0 : (s 0).rWbSioAck = false) : PortServes s i (rightInner s i) 2 .sio := by
  have hack : ∀ n, (s (n + 1)).rWbSioAck = takenBy (takes s i) (port i) .sio n := by
    intro n
    rw [hs, takenBy_inner (.inl rfl), ← sel_sio]
    rfl
  have hqueue : ∀ n, waiting (held i) (takenBy (takes s i) (port i) .sio)
      (fun n => (s n).rWbSioAck) n = if (s n).rWbSioAck then [n - 1] else [] := by
    refine waiting_eq (by rw [h0]; rfl) fun n => ?_
    rw [hack, takenBy_inner (.inl rfl)]
    cases hh : held i n
    · rw [stb_of_not_held hcyc hh]
      rfl
    · cases (s n).rWbSioAck <;> rfl
  refine ⟨?_, ?_⟩
  · intro n _ ha
    replace ha : (s n).rWbSioAck = true := ha
    obtain _ | n := n
    · rw [h0] at ha
      cases ha
    · refine ⟨n, [], ?_, ?_⟩
      · show waiting _ _ (fun n => (s n).rWbSioAck) (n + 1) = _
        rw [hqueue, ha]
        rfl
      · have hport := takenBy_port ((hack n).symm.trans ha)
        have hp : port i n = .sio := by rw [port, portAt, hport, Option.getD_some]
        rw [rightInner, hp]
        show (s (n + 1)).rWbSioData = _
        rw [hs]
        rfl
  · intro n hw _
    have hw' : waiting (held i) (takenBy (takes s i) (port i) .sio)
      (fun n => (s n).rWbSioAck) n ≠ [] := hw
    rw [hqueue] at hw'
    refine ⟨0, Nat.two_pos, ?_⟩
    show (s n).rWbSioAck = true
    cases ha : (s n).rWbSioAck
    · rw [ha] at hw'
      exact absurd rfl hw'
    · rfl

theorem serves_dio (h0 : (s 0).rWbDioAck = 0) (hreset : ∀ n, (i n).iReset = false) :
    PortServes s i (rightInner s i) 2 .dio := by
  have hnext : ∀ n, (s (n + 1)).rWbDioAck = nextDioAck (s n) (i n) := fun n => by
    rw [hs]
    rfl
  have hfirst : ∀ n, (s (n + 1)).rWbDioAck.getLsbD 0 = takenBy (takes s i) (port i) .dio n := by
    intro n
    rw [hnext, takenBy_inner (.inr rfl), ← sel_dio, nextDioAck, hreset, Bool.false_or]
    cases hh : (i n).wbCyc
    · rw [stb_of_not_held hcyc hh]
      simp
    · rw [if_neg (by simp), BitVec.getLsbD_append, if_pos Nat.one_pos, BitVec.getLsbD_ofBool]
      simp
  have hsecond : ∀ n, (s (n + 1)).rWbDioAck.getLsbD 1 =
      (held i n && (s n).rWbDioAck.getLsbD 0) := by
    intro n
    rw [hnext, nextDioAck, hreset, Bool.false_or, held]
    cases hh : (i n).wbCyc
    · simp
    · rw [if_neg (by simp), BitVec.getLsbD_append, if_neg (by omega), BitVec.getLsbD_extractLsb']
      simp
  have hqueue : ∀ n, waiting (held i) (takenBy (takes s i) (port i) .dio)
      (fun n => (s n).rWbDioAck.getLsbD 1) n =
        (if (s n).rWbDioAck.getLsbD 1 then [n - 2] else []) ++
          if (s n).rWbDioAck.getLsbD 0 then [n - 1] else [] := by
    refine waiting_eq (by rw [h0]; rfl) fun n => ?_
    rw [hfirst, hsecond, takenBy_inner (.inr rfl)]
    cases hh : held i n
    · rw [stb_of_not_held hcyc hh]
      rfl
    · cases (s n).rWbDioAck.getLsbD 1 <;> cases (s n).rWbDioAck.getLsbD 0 <;> rfl
  refine ⟨?_, ?_⟩
  · intro n _ ha
    replace ha : (s n).rWbDioAck.getLsbD 1 = true := ha
    obtain _ | _ | n := n
    · rw [h0] at ha
      cases ha
    · rw [hsecond, h0] at ha
      exact absurd (Bool.and_eq_true_iff.1 ha).2 (by decide)
    · have hpend : (s (n + 1)).rWbDioAck.getLsbD 0 = true := by
        rw [hsecond] at ha
        exact (Bool.and_eq_true_iff.1 ha).2
      refine ⟨n, if (s (n + 2)).rWbDioAck.getLsbD 0 then [n + 1] else [], ?_, ?_⟩
      · show waiting _ _ (fun n => (s n).rWbDioAck.getLsbD 1) (n + 2) = _
        rw [hqueue, ha]
        rfl
      · have hport := takenBy_port ((hfirst n).symm.trans hpend)
        have hp : port i n = .dio := by rw [port, portAt, hport, Option.getD_some]
        rw [rightInner, hp]
        show (s (n + 1 + 1)).rWbDioData = _
        rw [hs (n + 1)]
        show (if (s (n + 1)).rWbDioBusSelect then _ else _) = _
        rw [hs n]
        rfl
  · intro n hw hh
    have hw' : waiting (held i) (takenBy (takes s i) (port i) .dio)
      (fun n => (s n).rWbDioAck.getLsbD 1) n ≠ [] := hw
    rw [hqueue] at hw'
    cases ha : (s n).rWbDioAck.getLsbD 1
    · refine ⟨1, Nat.one_lt_two, ?_⟩
      show (s (n + 1)).rWbDioAck.getLsbD 1 = true
      have hhn : held i n = true := hh 0 Nat.two_pos
      rw [hsecond, hhn, Bool.true_and]
      cases hp : (s n).rWbDioAck.getLsbD 0
      · rw [ha, hp] at hw'
        exact absurd rfl hw'
      · rfl
    · exact ⟨0, Nat.two_pos, ha⟩

end Served

/-! ## The bus as a whole -/

/-- A right answer for the request of clock `t`. -/
def Right (s : ℕ → Main) (i : ℕ → MainIn) (right : ℕ → BitVec 32 → Prop) (t : ℕ)
    (d : BitVec 32) : Prop :=
  if port i t = .sio ∨ port i t = .dio then rightInner s i t d else right t d

/-- The bus at rest. -/
structure AtRest (s : Main) : Prop where
  ack : s.wbAck = false
  manyAck : s.wbManyAck = false
  sio : s.rWbSioAck = false
  dio : s.rWbDioAck = 0

/-- The requests that wait for the acknowledgement of the bus. -/
def waitingAt (s : ℕ → Main) (i : ℕ → MainIn) : ℕ → List ℕ :=
  waiting (held i) (takes s i) (fun n => (s n).wbAck)

section Whole

variable (hbound : 2 ≤ bound) (hs : ∀ n, s (n + 1) = next (s n) (i n)) (h0 : AtRest (s 0))
  (hreset : ∀ n, (i n).iReset = false) (hcyc : ∀ n, (i n).wbStb = true → (i n).wbCyc = true)
  (hext : ∀ k, k ≠ .sio → k ≠ .dio → PortServes s i right bound k)
  (hone : ∀ n, takes s i n = true → ∀ t ∈ waitingAt s i n, port i n = port i t)
include hbound hs h0 hreset hcyc hext

/-- Every port serves. -/
theorem serves_ports (k : Port) : PortServes s i (Right s i right) bound k := by
  by_cases hk : k = .sio ∨ k = .dio
  · have hinner : PortServes s i (rightInner s i) 2 k := by
      rcases hk with rfl | rfl
      · exact serves_sio hcyc hs h0.sio
      · exact serves_dio hcyc hs h0.dio hreset
    refine ⟨fun n hn ha => ?_, (hinner.mono (fun _ _ h => h) hbound).prompt⟩
    obtain ⟨t, l, hl, ht⟩ := hinner.honest n hn ha
    have hmem := (taken_of_waiting _ _ _ (hl ▸ List.mem_cons_self)).2
    have hport := takenBy_port hmem
    have hp : port i t = k := by rw [port, portAt, hport, Option.getD_some]
    refine ⟨t, l, hl, ?_⟩
    show Right s i right t _
    rw [Right, hp, if_pos hk]
    exact ht
  · have hout := hext k (fun h => hk (.inl h)) fun h => hk (.inr h)
    refine ⟨fun n hn ha => ?_, hout.prompt⟩
    obtain ⟨t, l, hl, ht⟩ := hout.honest n hn ha
    have hmem := (taken_of_waiting _ _ _ (hl ▸ List.mem_cons_self)).2
    have hport := takenBy_port hmem
    have hp : port i t = k := by rw [port, portAt, hport, Option.getD_some]
    refine ⟨t, l, hl, ?_⟩
    show Right s i right t _
    rw [Right, hp, if_neg hk]
    exact ht

omit hbound h0 hreset hcyc hext in
theorem ack_next (n : ℕ) : (s (n + 1)).wbAck = (held i n && (acks (s n) (i n)).any id) := by
  rw [hs]
  rfl

include hone

/-- The requests behind the decoder. -/
theorem sorted (n : ℕ) : Sorted (held i) (takes s i) (fun n => (acks (s n) (i n)).any id) (port i)
    (fun k n => ack (s n) (i n) k) n := by
  have hjoined : Serves (held i) (takes s i) (fun n => (s n).wbAck) (fun _ _ => True) (bound + 1) ∧
      ∀ n, Sorted (held i) (takes s i) (fun n => (acks (s n) (i n)).any id) (port i)
        (fun k n => ack (s n) (i n) k) n :=
    serves_joined (serves_ports hbound hs h0 hreset hcyc hext) (fun _ => any_acks) h0.ack
      (ack_next hs) (fun _ _ _ _ _ => trivial) hone
  exact hjoined.2 n

/-- **`r_wb_bus_select` stands at the peripheral that is waited for.** -/
theorem select_waiting (n : ℕ) :
    ∀ t ∈ waiting (held i) (takes s i) (fun n => (acks (s n) (i n)).any id) n,
      slaveOf (s n).rWbBusSelect = port i t := by
  induction n with
  | zero => exact fun t ht => absurd ht List.not_mem_nil
  | succ n ih =>
    intro t ht
    have hsame := (sorted hbound hs h0 hreset hcyc hext hone (n + 1)).same
    have hnext : (s (n + 1)).rWbBusSelect = nextBusSelect (s n) (i n) := by
      rw [hs]
      rfl
    cases htk : takes s i n
    · -- nothing is taken: the select stays
      have hkeep : nextBusSelect (s n) (i n) = (s n).rWbBusSelect := by
        rw [nextBusSelect]
        split
        · rename_i hstb
          apply busSelect_none
          rw [takes, hstb, Bool.true_and, mapped] at htk
          exact Option.isNone_iff_eq_none.1 (by rw [← Option.not_isSome, htk]; rfl)
        · rfl
      rw [waiting_succ, htk] at ht
      split at ht
      · rcases List.mem_append.1 ht with ht | ht
        · rw [hnext, hkeep]
          exact ih t (List.mem_of_mem_drop ht)
        · exact absurd ht List.not_mem_nil
      · exact absurd ht List.not_mem_nil
    · -- a request is taken: it is among those that wait, and they are all alike
      have hpins : ((i n).wbStb = true ∧ wbStall (s n) (i n) = false) ∧ mapped (i n) = true := by
        simpa [takes] using htk
      obtain ⟨k, hk⟩ := Option.isSome_iff_exists.1 hpins.2
      have hsel : slaveOf (s (n + 1)).rWbBusSelect = k := by
        rw [hnext, nextBusSelect, hpins.1.1, hpins.1.2]
        exact slaveOf_busSelect _ _ k hk
      have hport : port i n = k := by rw [port, portAt, hk, Option.getD_some]
      have hheld : held i n = true := hcyc n hpins.1.1
      have hmem : n ∈ waiting (held i) (takes s i) (fun n => (acks (s n) (i n)).any id)
          (n + 1) := by
        rw [waiting_succ, hheld, htk]
        exact List.mem_append_right _ List.mem_cons_self
      rw [hsel, ← hport]
      exact hsame n hmem t ht

/-- No two peripherals answer at once. -/
theorem manyAck_next (n : ℕ) : (s n).wbManyAck = false := by
  obtain _ | n := n
  · exact h0.manyAck
  · have hnext : (s (n + 1)).wbManyAck =
        if (acks (s n) (i n)).countP id ≤ 1 then false else (i n).wbCyc := by
      rw [hs]
      rfl
    rw [hnext]
    cases hc : (i n).wbCyc
    · exact ite_self false
    · refine if_pos ?_
      have hports := serves_ports hbound hs h0 hreset hcyc hext
      have hsort := sorted hbound hs h0 hreset hcyc hext hone n
      cases hany : (acks (s n) (i n)).any id
      · refine countP_acks (k := Port.flash) fun j hj => ?_
        rw [any_acks.2 ⟨j, hj⟩] at hany
        cases hany
      · obtain ⟨k, hk⟩ := any_acks.1 hany
        refine countP_acks (k := k) fun j hj => ?_
        obtain ⟨t, l, hl, ht, -⟩ := hsort.answered hports hc hk
        obtain ⟨u, l', hl', hu, -⟩ := hsort.answered hports hc hj
        obtain ⟨rfl, -⟩ := List.cons.inj (hl.symm.trans hl')
        rw [← hu, ht]

/-- **Every request gets its own answer.**  If each peripheral serves what is put to it, and the
master does not turn to another one while it waits: every request that is taken is acknowledged by
the bus in its turn and once, a clock later than by its peripheral, with the data of that
peripheral; and the bus raises an error for the requests at addresses that nobody has, at once, and
for no others. -/
theorem answers_right :
    Serves (held i) (takes s i) (fun n => (s n).wbAck)
      (fun t n => Right s i right t (s n).wbIdata) (bound + 1) ∧
    ∀ n, wbErr (s n) (i n) = ((i n).wbStb && !mapped (i n)) := by
  refine ⟨(serves_joined (serves_ports hbound hs h0 hreset hcyc hext) (fun _ => any_acks) h0.ack
    (ack_next hs) ?_ hone).1, ?_⟩
  · rintro t n - ⟨l, hl⟩ hright
    have hsel := select_waiting hbound hs h0 hreset hcyc hext hone n t (hl ▸ List.mem_cons_self)
    have hdata : (s (n + 1)).wbIdata = data (s n) (i n) (port i t) := by
      rw [hs, ← hsel]
      exact nextIdata_eq
    rw [hdata]
    exact hright
  · intro n
    rw [wbErr, manyAck_next hbound hs h0 hreset hcyc hext hone, Bool.or_false, wbNoneSel, sels_none,
      mapped, Option.not_isSome]
    cases (i n).wbStb <;> rfl

end Whole

end Run

/-! ### A bus that asks the block RAM without a pause -/

/-- The block RAM answers the clock after it is asked, and its data counts the clocks. -/
def asks (n : ℕ) : MainIn where
  iReset := false
  wbCyc := true
  wbStb := true
  wbAddr := 0x060000
  console := ⟨false, false, 0⟩
  sdcard := ⟨false, false, 0⟩
  bkram := ⟨decide (n ≠ 0), false, BitVec.ofNat 32 n⟩
  flash := ⟨false, false, 0⟩
  sdram := ⟨false, false, 0⟩
  buildtimeData := 0
  buspicData := 0
  spioData := 0
  versionData := 0
  bustimerData := 0
  watchdogData := 0

def resting : Main where
  wbAck := false
  wbManyAck := false
  wbIdata := 0
  rWbSioAck := false
  rWbSioData := 0
  rWbDioAck := 0
  rWbDioBusSelect := false
  rWbDioData := 0
  rWbBusSelect := 0
  rBuserrAddr := 0
  rPwrcountData := 0

def busy : ℕ → Main := Clocked.run next resting asks

theorem page_bkram : portOf (page 0x060000) = some .bkram := by decide +kernel

theorem port_asks (n : ℕ) : port asks n = .bkram := by
  show (portOf (page 0x060000)).getD .flash = .bkram
  rw [page_bkram, Option.getD_some]

/-- What the block RAM has to answer to the request of clock `t`. -/
def countOf (t : ℕ) (d : BitVec 32) : Prop := d = BitVec.ofNat 32 (t + 1)

theorem busy_taken (k : Port) (n : ℕ) :
    takenBy (takes busy asks) (port asks) k n = decide (k = .bkram) := by
  have hst : wbStall (busy n) (asks n) = false := by
    simp [wbStall, slaves, sels, asks, flashcfg, wbDio, wbSio]
  have hmap : mapped (asks n) = true := by
    show (portOf (page 0x060000)).isSome = true
    rw [page_bkram]
    rfl
  rw [takenBy, takes, hst, hmap, port_asks]
  cases k <;> rfl

theorem busy_serves (k : Port) (hsio : k ≠ .sio) (hdio : k ≠ .dio) :
    PortServes busy asks countOf 2 k := by
  by_cases hk : k = .bkram
  · subst hk
    have hqueue : ∀ n, waiting (held asks) (takenBy (takes busy asks) (port asks) .bkram)
        (fun n => ack (busy n) (asks n) .bkram) n = if n = 0 then [] else [n - 1] := by
      refine waiting_eq rfl fun n => ?_
      rw [busy_taken]
      obtain _ | n := n <;> rfl
    refine ⟨?_, ?_⟩
    · intro n _ ha
      obtain _ | n := n
      · cases ha
      · exact ⟨n, [], hqueue (n + 1), rfl⟩
    · intro n hw _
      obtain _ | n := n
      · exact absurd rfl hw
      · exact ⟨0, Nat.two_pos, rfl⟩
  · have hqueue : ∀ n, waiting (held asks) (takenBy (takes busy asks) (port asks) k)
        (fun n => ack (busy n) (asks n) k) n = [] := by
      refine waiting_eq rfl fun n => ?_
      rw [busy_taken, decide_eq_false hk]
      simp
    have hno : ∀ n, ack (busy n) (asks n) k = false := by
      intro n
      cases k <;> first | rfl | exact absurd rfl hk | exact absurd rfl hsio | exact absurd rfl hdio
    refine ⟨?_, ?_⟩
    · intro n _ ha
      rw [hno n] at ha
      cases ha
    · intro n hw
      exact absurd (hqueue n) hw

theorem answers_right_busy :
    Serves (held asks) (takes busy asks) (fun n => (busy n).wbAck)
      (fun t n => Right busy asks countOf t (busy n).wbIdata) 3 ∧
    ∀ n, wbErr (busy n) (asks n) = ((asks n).wbStb && !mapped (asks n)) :=
  answers_right (Nat.le_refl 2) (fun _ => rfl) ⟨rfl, rfl, rfl, rfl⟩ (fun _ => rfl) (fun _ _ => rfl)
    busy_serves fun _ _ _ _ => by rw [port_asks, port_asks]

end Main

end ZipStormMX.Bus
