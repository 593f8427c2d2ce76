/-
  `pipemem` completes every access once and in order.

  What the CPU has presented and not had answered is kept in a ledger: the requests the bus has
  taken, oldest first, and the one that is still on the strobe lines.  A request leaves the ledger
  when the slave answers it or when a bus error (or a reset) aborts it, and the ledger says nothing
  of how `pipemem` works.  `Keeps` is what the registers of `pipemem` have to do with it.
-/
import ZipStormMX.Clocked
import ZipStormMX.Cpu.MemQueue

namespace ZipStormMX.Cpu

variable {AW : ℕ}

/-! ## Requests -/

/-- A request of the CPU. -/
structure MemReq where
  op : BitVec 3
  addr : BitVec 32
  data : BitVec 32
  oreg : BitVec 5
deriving DecidableEq

/-- A request on the bus: which of the two, the direction, and the rest of its lines. -/
structure BusReq (AW : ℕ) where
  lcl : Bool
  we : Bool
  addr : BitVec AW
  data : BitVec 32
  sel : BitVec 4
deriving DecidableEq

def MemIn.req (i : MemIn) : MemReq :=
  { op := i.iOp, addr := i.iAddr, data := i.iData, oreg := i.iOreg }

namespace MemReq

variable (c : MemCfg) (r : MemReq)

/-- It is for the local bus. -/
def lcl : Bool := lclAddr r.addr && c.withLocalBus

/-- It is a store. -/
def store : Bool := r.op.getLsbD 0

/-- The register set it works for. -/
def gie : Bool := r.oreg.getLsbD 4

def key : BitVec 4 := laneKey r.op r.addr

/-- What `pipemem` files in its FIFO. -/
def entry : BitVec 8 := r.oreg.extractLsb' 0 4 ++ r.key

/-- The request as the bus is to see it. -/
def bus (AW : ℕ) : BusReq AW where
  lcl := r.lcl c
  we := r.store
  addr := r.addr.extractLsb' 2 AW
  data := laneData r.key r.data
  sel := laneSel r.key

/-- The same direction, bus and register set. -/
def SameKind (r q : MemReq) : Prop := r.lcl c = q.lcl c ∧ r.store = q.store ∧ r.gie = q.gie

end MemReq

/-! ## The ledger -/

/-- The requests under way: those the bus has taken, oldest first, and the one presented to it. -/
structure Ledger where
  asked : List MemReq
  waiting : Option MemReq

/-- What has become of a request: an answer, or an abort before or after the bus has taken it. -/
inductive Outcome where
  | answered (data : BitVec 32)
  | aborted (taken : Bool)
deriving DecidableEq

namespace Ledger

variable (L : Ledger) (taken : Bool) (i : MemIn)

def inside : List MemReq := L.asked ++ L.waiting.toList

/-- The bus takes the request that waits. -/
def sent : List MemReq := if taken then L.waiting.toList else []

def still : Option MemReq := if taken then none else L.waiting

/-- Everything under way is given up. -/
def abort : Bool := i.iReset || i.iWbErr

def presented : List MemReq := if i.iStb then [i.req] else []

/-- One clock: the bus takes what waits if `taken`, the oldest request is answered, a new one is
    presented. -/
def next : Ledger :=
  if abort i then { asked := [], waiting := none }
  else
    { asked := if i.iWbAck then (L.asked ++ L.sent taken).tail else L.asked ++ L.sent taken
      waiting := if i.iStb then some i.req else L.still taken }

/-- The requests that are over on this clock. -/
def closed : List (MemReq × Outcome) :=
  if abort i then
    (L.asked ++ L.sent taken).map (fun r => (r, .aborted true)) ++
      ((L.still taken).toList ++ presented i).map fun r => (r, .aborted false)
  else if i.iWbAck then
    ((L.asked ++ L.sent taken).take 1).map fun r => (r, .answered i.iWbData)
  else []

end Ledger

/-- What the CPU is to be told about a request that is over: the register and the value of a load
    that has been answered. -/
def loaded : MemReq × Outcome → Option (BitVec 5 × BitVec 32)
  | (r, .answered data) => if r.store then none else some (r.oreg, laneResult r.key data)
  | (_, .aborted _) => none

/-! ### Nothing is lost in the ledger -/

namespace Ledger

variable {L : Ledger} {taken : Bool} {i : MemIn}

theorem inside_eq (L : Ledger) (taken : Bool) :
    L.inside = (L.asked ++ L.sent taken) ++ (L.still taken).toList := by
  cases taken <;> simp [inside, sent, still]

/-- Every request is either over or still under way, in the order of presentation. -/
theorem closed_inside (hnew : i.iStb = true → L.still taken = none)
    (hack : i.iWbAck = true → L.asked ++ L.sent taken ≠ []) :
    (L.closed taken i).map Prod.fst ++ (L.next taken i).inside = L.inside ++ presented i := by
  have hwait : (if i.iStb then some i.req else L.still taken).toList =
      (L.still taken).toList ++ presented i := by
    cases hs : i.iStb
    · simp [presented, hs]
    · simp [presented, hs, hnew hs]
  rw [inside_eq L taken]
  cases ha : abort i
  · cases hk : i.iWbAck
    · simp only [closed, next, inside, ha, hk, Bool.false_eq_true, if_false, List.map_nil,
        List.nil_append, hwait, List.append_assoc]
    · obtain ⟨r, rs, hr⟩ := List.exists_cons_of_ne_nil (hack hk)
      simp only [closed, next, inside, ha, hk, Bool.false_eq_true, if_false, if_true, hr, hwait,
        List.take_succ_cons, List.take_zero, List.map_cons, List.map_nil, List.tail_cons,
        List.cons_append, List.nil_append, List.append_assoc]
  · simp [closed, next, inside, ha, List.map_append, List.map_map, Function.comp_def]

theorem inside_next (ha : abort i = false) (hnew : i.iStb = true → L.still taken = none)
    (hack : i.iWbAck = true → L.asked ++ L.sent taken ≠ []) :
    (L.next taken i).inside =
      (if i.iWbAck then L.inside.tail else L.inside) ++ presented i := by
  have hall := closed_inside hnew hack
  cases hk : i.iWbAck
  · simpa [closed, ha, hk] using hall
  · obtain ⟨r, rs, hr⟩ := List.exists_cons_of_ne_nil (hack hk)
    have hin := inside_eq L taken
    rw [hr] at hin
    rw [hin] at hall ⊢
    simpa [closed, ha, hk, hr] using hall

end Ledger

/-! ## `pipemem` against the ledger -/

/-- `pipemem` and the requests it has under way. -/
structure Watched (AW : ℕ) where
  unit : Pipemem AW
  ledger : Ledger

namespace Watched

variable (c : MemCfg) (w : Watched AW) (i : MemIn)

def init (AW : ℕ) : Watched AW := { unit := .init AW, ledger := { asked := [], waiting := none } }

/-- The bus takes a request: a strobe inside a cycle, not stalled. -/
def takenGbl : Bool := Pipemem.oWbCycGbl c w.unit && w.unit.oWbStbGbl && !i.iWbStall

def takenLcl : Bool := Pipemem.oWbCycLcl c w.unit && w.unit.oWbStbLcl && !i.iWbStall

def taken : Bool := w.takenGbl c i || w.takenLcl c i

def next : Watched AW where
  unit := Pipemem.next c w.unit i
  ledger := w.ledger.next (w.taken c i) i

/-- The lines of a bus. -/
def lines (lcl : Bool) : BusReq AW where
  lcl := lcl
  we := w.unit.oWbWe
  addr := w.unit.oWbAddr
  data := w.unit.oWbData
  sel := w.unit.oWbSel

/-- What the CPU is told on this clock. -/
def told : List (BitVec 5 × BitVec 32) :=
  if w.unit.oValid then [(w.unit.oWreg, w.unit.oResult)] else []

/-- What the CPU and the slave keep to: no request while `o_pipe_stalled` is up, none of another
    kind than those under way, and an answer only for a strobe that has been taken and not
    answered. -/
structure Proper : Prop where
  room : i.iStb = true → Pipemem.oPipeStalled w.unit i.iWbStall = false
  kind : i.iStb = true → ∀ r ∈ w.ledger.inside, r.SameKind c i.req
  answer : (i.iWbAck || i.iWbErr) = true → w.ledger.asked ++ w.ledger.sent (w.taken c i) ≠ []
  once : ¬ (i.iWbAck = true ∧ i.iWbErr = true)

end Watched

/-- What is in the FIFO. -/
def Pipemem.entries (s : Pipemem AW) : List (BitVec 8) :=
  Fifo.contents s.fifoOreg s.rdaddr (Fifo.fill s.rdaddr s.wraddr)

/-- The strobe lines show the request that waits. -/
def Pipemem.Shows (c : MemCfg) (s : Pipemem AW) : Option MemReq → Prop
  | none => s.oWbStbGbl = false ∧ s.oWbStbLcl = false
  | some r => s.oWbStbGbl = !r.lcl c ∧ s.oWbStbLcl = r.lcl c ∧
    s.oWbAddr = (r.bus c AW).addr ∧ s.oWbData = (r.bus c AW).data ∧ s.oWbSel = (r.bus c AW).sel

/-- The registers of `pipemem` against the ledger. -/
structure Keeps (c : MemCfg) (w : Watched AW) : Prop where
  sound : Pipemem.Sound w.unit
  entries : w.unit.entries = w.ledger.inside.map MemReq.entry
  kind : ∀ r ∈ w.ledger.inside, w.unit.rWbCycGbl = !r.lcl c ∧ w.unit.rWbCycLcl = r.lcl c ∧
    w.unit.oWbWe = r.store ∧ w.unit.fifoGie = r.gie
  shows : w.unit.Shows c w.ledger.waiting

namespace Keeps

variable {c : MemCfg} {w : Watched AW} {i : MemIn}

theorem fill (h : Keeps c w) :
    Fifo.fill w.unit.rdaddr w.unit.wraddr = w.ledger.inside.length := by
  have hlen : ∀ (n : ℕ) (rd : BitVec 4), (Fifo.contents w.unit.fifoOreg rd n).length = n := by
    intro n
    induction n with
    | zero => exact fun _ => rfl
    | succ n ih => exact fun rd => congrArg (· + 1) (ih (rd + 1))
  have := congrArg List.length h.entries
  rw [Pipemem.entries, hlen, List.length_map] at this
  exact this

/-- A cycle is on exactly as long as something is under way. -/
theorem cyc (h : Keeps c w) : w.unit.cyc = !w.ledger.inside.isEmpty := by
  have hfill := h.fill
  cases hc : w.unit.cyc
  · have h0 := h.sound.idle hc
    rw [hfill] at h0
    rw [List.length_eq_zero_iff.1 h0]
    rfl
  · have h1 := h.sound.busy hc
    rw [hfill] at h1
    cases hl : w.ledger.inside with
    | nil => rw [hl] at h1; exact absurd h1 (Nat.lt_irrefl 0)
    | cons r rs => rfl

theorem inside_nil (h : Keeps c w) (hc : w.unit.cyc = false) : w.ledger.inside = [] := by
  rw [h.cyc] at hc
  simpa using hc

theorem waiting_inside {r : MemReq} (hr : w.ledger.waiting = some r) : r ∈ w.ledger.inside := by
  rw [Ledger.inside, hr]
  exact List.mem_append_right _ (List.mem_singleton.2 rfl)

/-- A strobe is up exactly when a request waits, and inside its cycle: the bus takes it as soon as
    it does not stall. -/
theorem taken_eq (h : Keeps c w) :
    w.taken c i = (w.ledger.waiting.isSome && !i.iWbStall) := by
  cases hw : w.ledger.waiting with
  | none =>
    have hs := h.shows
    rw [hw] at hs
    simp [Watched.taken, Watched.takenGbl, Watched.takenLcl, hs.1, hs.2]
  | some r =>
    have hs := h.shows
    rw [hw] at hs
    obtain ⟨hg, hl, -⟩ := hs
    obtain ⟨hcg, hcl, -⟩ := h.kind r (waiting_inside hw)
    cases hlcl : r.lcl c <;>
      simp [Watched.taken, Watched.takenGbl, Watched.takenLcl, Pipemem.oWbCycGbl,
        Pipemem.oWbCycLcl, hg, hl, hcg, hcl, hlcl]

/-- A request is presented only where it finds the strobe lines free. -/
theorem still_none (h : Keeps c w) (hp : w.Proper c i) (hs : i.iStb = true) :
    w.ledger.still (w.taken c i) = none := by
  rw [h.taken_eq]
  cases hw : w.ledger.waiting with
  | none => simp [Ledger.still, hw]
  | some r =>
    have hcyc : w.unit.cyc = true := by
      rw [h.cyc]
      cases hl : w.ledger.inside with
      | nil =>
        have hmem := waiting_inside hw
        rw [hl] at hmem
        cases hmem
      | cons r rs => rfl
    have hroom := hp.room hs
    simp only [Pipemem.oPipeStalled, hcyc, Bool.true_and, Bool.or_eq_false_iff] at hroom
    simp [Ledger.still, hroom.2.1]

/-! ### One clock -/

theorem lines_new (hc : c.optAlignmentErr = false) (i : MemIn) :
    Pipemem.gblStb c i = !i.req.lcl c ∧ Pipemem.lclStb c i = i.req.lcl c := by
  have hm := Pipemem.not_misaligned (i := i) hc
  have hl : i.req.lcl c = Pipemem.lclBus c i := rfl
  rw [hl]
  simp only [Pipemem.gblStb, Pipemem.lclStb, hm, Pipemem.lclBus]
  cases lclAddr i.iAddr <;> cases c.withLocalBus <;> exact ⟨rfl, rfl⟩

/-- Everything is given up. -/
theorem abort (h : Keeps c w) (hp : w.Proper c i)
    (ha : Ledger.abort i = true) : Keeps c (w.next c i) ∧ (w.next c i).ledger.inside = [] := by
  have hledger : (w.next c i).ledger = { asked := [], waiting := none } := by
    simp only [Watched.next, Ledger.next, ha, if_true]
  have hunit : Pipemem.Sound (w.next c i).unit ∧ (w.next c i).unit.cyc = false ∧
      (w.next c i).unit.oWbStbGbl = false ∧ (w.next c i).unit.oWbStbLcl = false := by
    cases hr : i.iReset
    · have he : i.iWbErr = true := by simpa [Ledger.abort, hr] using ha
      have hcyc : w.unit.cyc = true := by
        rw [h.cyc, Ledger.inside_eq _ (w.taken c i)]
        have hne := hp.answer (by simp [he])
        cases hl : w.ledger.asked ++ w.ledger.sent (w.taken c i) with
        | nil => exact absurd hl hne
        | cons r rs => rfl
      refine ⟨(Pipemem.next_err hr hcyc he).1, ?_, ?_, ?_⟩
      · simp [Watched.next, Pipemem.nextCyc, hr, hcyc, he]
      · simp [Watched.next, Pipemem.nextStbGbl, hr, hcyc, he]
      · simp [Watched.next, Pipemem.nextStbLcl, hr, hcyc, he]
    · refine ⟨(Pipemem.sound_reset hr).1, ?_, ?_, ?_⟩
      · simp [Watched.next, Pipemem.nextCyc, hr]
      · simp [Watched.next, Pipemem.nextStbGbl, hr]
      · simp [Watched.next, Pipemem.nextStbLcl, hr]
  obtain ⟨hsound, hcyc, hg, hl⟩ := hunit
  have hinside : (w.next c i).ledger.inside = [] := by
    rw [hledger]
    rfl
  refine ⟨⟨hsound, ?_, ?_, ?_⟩, hinside⟩
  · rw [hinside, Pipemem.entries, hsound.idle hcyc]
    rfl
  · intro r hr
    rw [hinside] at hr
    cases hr
  · rw [hledger]
    exact ⟨hg, hl⟩

section

variable (hc : c.optAlignmentErr = false) (h : Keeps c w) (hp : w.Proper c i)
  (ha : Ledger.abort i = false)
include hc h hp ha

/-- The FIFO follows. -/
theorem entries_next : Pipemem.Sound (w.next c i).unit ∧
    (w.next c i).unit.entries = (w.next c i).ledger.inside.map MemReq.entry := by
  obtain ⟨hr, he⟩ : i.iReset = false ∧ i.iWbErr = false := by
    simpa [Ledger.abort] using ha
  have hin : (w.next c i).ledger.inside = _ :=
    Ledger.inside_next ha (fun hs => h.still_none hp hs) fun hk => hp.answer (by simp [hk])
  have hbuf : (w.next c i).unit.fifoOreg =
      fun a => if a = w.unit.wraddr then i.req.entry else w.unit.fifoOreg a := rfl
  have hnew : (Ledger.presented i).map MemReq.entry = if i.iStb then [i.req.entry] else [] := by
    cases hs : i.iStb <;> simp [Ledger.presented, hs]
  rw [hin, List.map_append, hnew]
  cases hcyc : w.unit.cyc
  · have hnil := h.inside_nil hcyc
    refine ⟨(Pipemem.sound_idle hc hr h.sound hcyc).1, ?_⟩
    have hv : i.iStb = true → (w.next c i).unit.fifoOreg w.unit.wraddr = i.req.entry := by
      intro _
      rw [hbuf]
      exact if_pos rfl
    have hcont := Pipemem.contents_idle hc hr h.sound hcyc hv
    rw [hnil]
    cases hk : i.iWbAck <;> exact hcont
  · have hfull : i.iStb = true → w.unit.fifoFull = false := by
      intro hs
      have hroom := hp.room hs
      simp only [Pipemem.oPipeStalled, hcyc, Bool.true_and, Bool.or_eq_false_iff] at hroom
      exact hroom.1
    obtain ⟨hsound, hcont⟩ := Pipemem.contents_busy hc hr h.sound hcyc he hfull hbuf
    refine ⟨hsound, hcont.trans ?_⟩
    have hold : Fifo.contents w.unit.fifoOreg w.unit.rdaddr
        (Fifo.fill w.unit.rdaddr w.unit.wraddr) = w.ledger.inside.map MemReq.entry := h.entries
    rw [hold]
    cases i.iWbAck
    · rfl
    · rw [if_pos rfl, if_pos rfl, List.map_tail]

/-- The cycle goes on as long as something is under way. -/
theorem cyc_next : (w.next c i).unit.cyc = !(w.next c i).ledger.inside.isEmpty := by
  obtain ⟨hsound, hent⟩ := entries_next hc h hp ha
  have hlen := congrArg List.length hent
  rw [List.length_map] at hlen
  cases hcyc : (w.next c i).unit.cyc
  · rw [Pipemem.entries, hsound.idle hcyc] at hlen
    rw [List.length_eq_zero_iff.1 hlen.symm]
    rfl
  · cases hl : (w.next c i).ledger.inside with
    | cons r rs => rfl
    | nil =>
      rw [hl] at hent
      exact absurd hent (Fifo.contents_ne_nil (hsound.busy hcyc))

/-- The bus, the direction and the register set are those of all the requests under way. -/
theorem kind_next : ∀ r ∈ (w.next c i).ledger.inside,
    (w.next c i).unit.rWbCycGbl = !r.lcl c ∧ (w.next c i).unit.rWbCycLcl = r.lcl c ∧
    (w.next c i).unit.oWbWe = r.store ∧ (w.next c i).unit.fifoGie = r.gie := by
  obtain ⟨hr, he⟩ : i.iReset = false ∧ i.iWbErr = false := by
    simpa [Ledger.abort] using ha
  obtain ⟨hg, hl⟩ := lines_new hc i
  have hin : (w.next c i).ledger.inside = _ :=
    Ledger.inside_next ha (fun hs => h.still_none hp hs) fun hk => hp.answer (by simp [hk])
  intro r hmem
  have hcyc' := cyc_next hc h hp ha
  have hon : (w.next c i).unit.cyc = true := by
    rw [hcyc']
    cases hl : (w.next c i).ledger.inside with
    | nil =>
      rw [hl] at hmem
      cases hmem
    | cons r rs => rfl
  cases hcyc : w.unit.cyc
  · -- the request opens the cycle
    have hs : i.iStb = true := by
      simpa [Watched.next, Pipemem.nextCyc, hr, hcyc, Pipemem.not_misaligned hc] using hon
    have hreq : r = i.req := by
      rw [hin, h.inside_nil hcyc] at hmem
      cases hk : i.iWbAck <;> simpa [hk, Ledger.presented, hs] using hmem
    subst hreq
    refine ⟨?_, ?_, ?_, ?_⟩
    · simpa [Watched.next, Pipemem.nextCycGbl, hr, hcyc, hs] using hg
    · simpa [Watched.next, Pipemem.nextCycLcl, hr, hcyc, hs] using hl
    · simp [Watched.next, hs, hcyc, MemReq.store, MemIn.req]
    · simp [Watched.next, hs, MemReq.gie, MemIn.req]
  · -- the cycle goes on
    have hmore : Pipemem.lastAck c w.unit i = false := by
      simp only [Watched.next, Pipemem.next_cyc, Pipemem.nextCyc, hr, hcyc, he, Bool.or_false,
        Bool.false_eq_true, if_false, if_true] at hon
      by_contra hlast
      rw [if_pos (by simpa using hlast)] at hon
      cases hon
    have hsame : (w.next c i).unit.rWbCycGbl = w.unit.rWbCycGbl ∧
        (w.next c i).unit.rWbCycLcl = w.unit.rWbCycLcl ∧
        (w.next c i).unit.oWbWe = w.unit.oWbWe := by
      refine ⟨?_, ?_, ?_⟩
      · simp [Watched.next, Pipemem.nextCycGbl, hr, hcyc, hmore, he]
      · simp [Watched.next, Pipemem.nextCycLcl, hr, hcyc, hmore, he]
      · simp [Watched.next, hcyc]
    have hgie : (w.next c i).unit.fifoGie = if i.iStb then i.req.gie else w.unit.fifoGie := rfl
    rw [hsame.1, hsame.2.1, hsame.2.2, hgie]
    -- one of those under way, which a new request resembles
    have hold : ∀ q ∈ w.ledger.inside, w.unit.rWbCycGbl = !q.lcl c ∧
        w.unit.rWbCycLcl = q.lcl c ∧ w.unit.oWbWe = q.store ∧
        (if i.iStb then i.req.gie else w.unit.fifoGie) = q.gie := by
      intro q hq
      obtain ⟨h1, h2, h3, h4⟩ := h.kind q hq
      refine ⟨h1, h2, h3, ?_⟩
      cases hs : i.iStb
      · exact h4
      · exact (hp.kind hs q hq).2.2.symm
    rw [hin] at hmem
    rcases List.mem_append.1 hmem with hmem | hmem
    · refine hold r ?_
      cases hk : i.iWbAck
      · simpa [hk] using hmem
      · exact List.mem_of_mem_tail (by simpa [hk] using hmem)
    · obtain ⟨q, hq⟩ : ∃ q, q ∈ w.ledger.inside := by
        have hne := h.cyc
        rw [hcyc] at hne
        cases hl : w.ledger.inside with
        | nil =>
          rw [hl] at hne
          cases hne
        | cons q qs => exact ⟨q, List.mem_cons_self⟩
      have hs : i.iStb = true := by
        cases hs : i.iStb
        · simp [Ledger.presented, hs] at hmem
        · rfl
      have hreq : r = i.req := by simpa [Ledger.presented, hs] using hmem
      subst hreq
      obtain ⟨k1, k2, k3⟩ := hp.kind hs q hq
      obtain ⟨h1, h2, h3, h4⟩ := hold q hq
      refine ⟨?_, h2.trans k1, h3.trans k2, h4.trans k3⟩
      rw [← k1]
      exact h1

/-- The strobe lines show the request that waits. -/
theorem shows_next : (w.next c i).unit.Shows c (w.next c i).ledger.waiting := by
  obtain ⟨hr, he⟩ : i.iReset = false ∧ i.iWbErr = false := by
    simpa [Ledger.abort] using ha
  obtain ⟨hg, hl⟩ := lines_new hc i
  have hm := Pipemem.not_misaligned (i := i) hc
  have hw : (w.next c i).ledger.waiting =
      if i.iStb then some i.req else w.ledger.still (w.taken c i) := by
    simp only [Watched.next, Ledger.next, ha, Bool.false_eq_true, if_false]
  rw [hw]
  cases hs : i.iStb
  · -- nothing new: the lines hold as long as they are stalled
    simp only [Bool.false_eq_true, if_false]
    have hlast : Pipemem.lastAck c w.unit i = true → w.ledger.waiting = none ∨
        i.iWbStall = false := by
      intro hlast
      by_contra hno
      rw [not_or] at hno
      obtain ⟨hwait, hstall⟩ := hno
      have hcyc' := cyc_next hc h hp ha
      have hin : (w.next c i).ledger.inside ≠ [] := by
        obtain ⟨r, hr'⟩ := Option.ne_none_iff_exists'.1 hwait
        have hstill : (w.next c i).ledger.waiting = some r := by
          rw [hw, hs]
          simp [Ledger.still, h.taken_eq, hr', hstall]
        intro hnil
        have hmem := waiting_inside hstill
        rw [hnil] at hmem
        cases hmem
      have hoff : (w.next c i).unit.cyc = false := by
        cases hcyc : w.unit.cyc
        · simp [Watched.next, Pipemem.nextCyc, hr, hcyc, hs]
        · simp [Watched.next, Pipemem.nextCyc, hr, hcyc, hlast]
      rw [hoff] at hcyc'
      exact hin (by simpa using hcyc')
    cases hst : i.iWbStall
    · -- the bus takes what is there
      have hnone : w.ledger.still (w.taken c i) = none := by
        rw [h.taken_eq, hst]
        cases hwait : w.ledger.waiting <;> simp [Ledger.still, hwait]
      rw [hnone]
      have hdone : Pipemem.stbDone c i = true := by simp [Pipemem.stbDone, hst, hs, hm]
      cases hcyc : w.unit.cyc
      · have hidle := h.shows
        have hwait : w.ledger.waiting = none := by
          have hnil := h.inside_nil hcyc
          cases hwait : w.ledger.waiting with
          | none => rfl
          | some r =>
            have hmem := waiting_inside hwait
            rw [hnil] at hmem
            cases hmem
        rw [hwait] at hidle
        exact ⟨by simp [Watched.next, Pipemem.nextStbGbl, hr, hcyc, hs, hidle.1],
          by simp [Watched.next, Pipemem.nextStbLcl, hr, hcyc, hs, hidle.2]⟩
      · exact ⟨by simp [Watched.next, Pipemem.nextStbGbl, hr, hcyc, hdone],
          by simp [Watched.next, Pipemem.nextStbLcl, hr, hcyc, hdone]⟩
    · -- held up
      have hstill : w.ledger.still (w.taken c i) = w.ledger.waiting := by
        rw [h.taken_eq, hst]
        simp [Ledger.still]
      rw [hstill]
      have hold := h.shows
      cases hwait : w.ledger.waiting with
      | none =>
        rw [hwait] at hold
        obtain ⟨h1, h2⟩ := hold
        constructor
        · cases hcyc : w.unit.cyc <;>
            simp [Watched.next, Pipemem.nextStbGbl, hr, hcyc, hs, h1]
        · cases hcyc : w.unit.cyc <;>
            simp [Watched.next, Pipemem.nextStbLcl, hr, hcyc, hs, h2]
      | some r =>
        have hcyc : w.unit.cyc = true := by
          rw [h.cyc]
          have hmem := waiting_inside hwait
          cases hl : w.ledger.inside with
          | nil =>
            rw [hl] at hmem
            cases hmem
          | cons r rs => rfl
        have hmore : Pipemem.lastAck c w.unit i = false := by
          by_contra hyes
          rcases hlast (by simpa using hyes) with h0 | h0
          · rw [hwait] at h0
            cases h0
          · rw [hst] at h0
            cases h0
        have hbusy : Pipemem.busCe w.unit i = false := by simp [Pipemem.busCe, hcyc, hst]
        have hdone : Pipemem.stbDone c i = false := by simp [Pipemem.stbDone, hst, he]
        rw [hwait] at hold
        obtain ⟨h1, h2, h3, h4, h5⟩ := hold
        refine ⟨?_, ?_, ?_, ?_, ?_⟩
        · simp [Watched.next, Pipemem.nextStbGbl, hr, hcyc, hmore, he, hdone, h1]
        · simp [Watched.next, Pipemem.nextStbLcl, hr, hcyc, hmore, he, hdone, h2]
        · simp [Watched.next, hbusy, h3]
        · simp [Watched.next, hbusy, h4]
        · simp [Watched.next, hbusy, h5]
  · -- a new request goes onto the lines
    simp only [if_true]
    have hfree : Pipemem.busCe w.unit i = true := by
      have hroom := hp.room hs
      cases hcyc : w.unit.cyc
      · simp [Pipemem.busCe, hcyc]
      · simp only [Pipemem.oPipeStalled, hcyc, Bool.true_and, Bool.or_eq_false_iff] at hroom
        simp [Pipemem.busCe, hroom.2.1]
    have hidle : Pipemem.idleZero c i = false := by simp [Pipemem.idleZero, hs]
    have hstb : (w.next c i).unit.oWbStbGbl = (!i.req.lcl c) ∧
        (w.next c i).unit.oWbStbLcl = i.req.lcl c := by
      cases hcyc : w.unit.cyc
      · exact ⟨by simpa [Watched.next, Pipemem.nextStbGbl, hr, hcyc, hs] using hg,
          by simpa [Watched.next, Pipemem.nextStbLcl, hr, hcyc, hs] using hl⟩
      · have hmore : Pipemem.lastAck c w.unit i = false := by
          simp [Pipemem.lastAck, hs, hm]
        have hdone : Pipemem.stbDone c i = false := by simp [Pipemem.stbDone, hs, he]
        -- the lines are up for a request of the same kind
        have hroom := hp.room hs
        simp only [Pipemem.oPipeStalled, hcyc, Bool.true_and, Bool.or_eq_false_iff] at hroom
        have hold := h.shows
        cases hwait : w.ledger.waiting with
        | none =>
          rw [hwait] at hold
          simp [hold.1, hold.2] at hroom
        | some r =>
          rw [hwait] at hold
          have hsame := (hp.kind hs r (waiting_inside hwait)).1
          refine ⟨?_, ?_⟩
          · simp [Watched.next, Pipemem.nextStbGbl, hr, hcyc, hmore, he, hdone, hold.1, hsame]
          · simp [Watched.next, Pipemem.nextStbLcl, hr, hcyc, hmore, he, hdone, hold.2.1, hsame]
    refine ⟨hstb.1, hstb.2, ?_, ?_, ?_⟩
    · simp [Watched.next, hfree, hidle, MemReq.bus, MemIn.req]
    · simp [Watched.next, hfree, hidle, MemReq.bus, MemIn.req, MemReq.key]
    · simp [Watched.next, hfree, hidle, MemReq.bus, MemIn.req, MemReq.key]

end

/-- **One clock**: the registers keep to the ledger. -/
theorem step (hc : c.optAlignmentErr = false) (h : Keeps c w) (hp : w.Proper c i) :
    Keeps c (w.next c i) := by
  cases ha : Ledger.abort i
  · obtain ⟨hsound, hent⟩ := entries_next hc h hp ha
    exact ⟨hsound, hent, kind_next hc h hp ha, shows_next hc h hp ha⟩
  · exact (abort h hp ha).1

end Keeps

/-! ## Runs -/

section runs

variable (AW : ℕ) (c : MemCfg) (x : ℕ → MemIn)

/-- `pipemem` and its ledger at clock `n`, from power on. -/
def watch (n : ℕ) : Watched AW := Clocked.run (Watched.next c) (Watched.init AW) x n

/-- The requests that are over before clock `n`, and how they ended. -/
def closedBy (n : ℕ) : List (MemReq × Outcome) :=
  Clocked.events (Watched.next c) (fun w i => w.ledger.closed (w.taken c i) i) (Watched.init AW) x n

variable {AW c x}

end runs

/-! ## Three requests -/

instance (c : MemCfg) (r q : MemReq) : Decidable (r.SameKind c q) :=
  inferInstanceAs (Decidable (_ ∧ _ ∧ _))

theorem proper_iff {c : MemCfg} {w : Watched AW} {i : MemIn} : w.Proper c i ↔
    (i.iStb = true → Pipemem.oPipeStalled w.unit i.iWbStall = false) ∧
    (i.iStb = true → ∀ r ∈ w.ledger.inside, r.SameKind c i.req) ∧
    ((i.iWbAck || i.iWbErr) = true → w.ledger.asked ++ w.ledger.sent (w.taken c i) ≠ []) ∧
    ¬ (i.iWbAck = true ∧ i.iWbErr = true) :=
  ⟨fun h => ⟨h.room, h.kind, h.answer, h.once⟩, fun h => ⟨h.1, h.2.1, h.2.2.1, h.2.2.2⟩⟩

instance (c : MemCfg) (w : Watched AW) (i : MemIn) : Decidable (w.Proper c i) :=
  decidable_of_iff _ proper_iff.symm

end ZipStormMX.Cpu
