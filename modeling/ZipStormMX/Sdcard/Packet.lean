/-
  The packet of a block that goes out to the card, up to its start token.

  A packet is a start token, the bytes of the FIFO, and their CRC (`packet`).  It is made ready with the
  command, and waits for the response of the card.  The crux: from there on each byte that is offered is
  taken in the end (`next_take`), and nothing is completed while none is taken, so the FIFO is read from
  some clock on, with the start token in front (`reads_from`).
-/
import ZipStormMX.Sdcard.Answer
import ZipStormMX.Sdcard.Outgoing

namespace ZipStormMX.Sdcard

namespace Sdspi

variable {c : SdspiCfg}

/-! ## Packets -/

/-- The byte of a FIFO at address `n`, as the card's side counts. -/
def byteAt {lg : ℕ} (mem : Fin 4 → BitVec lg → BitVec 8) (n : ℕ) : BitVec 8 :=
  mem (lanePart (BitVec.ofNat (lg + 2) n)) (wordPart (BitVec.ofNat (lg + 2) n))

/-- The first `n` bytes of a FIFO, in the order of their addresses. -/
def front {lg : ℕ} (mem : Fin 4 → BitVec lg → BitVec 8) (n : ℕ) : List (BitVec 8) :=
  (List.range n).map (byteAt mem)

/-- The start token, the bytes, and their CRC. -/
def packet (bytes : List (BitVec 8)) : List (BitVec 8) :=
  let crc := Crc.crc blockTaps bytes
  0xfe :: (bytes ++ [crc.extractLsb' 8 8, crc.extractLsb' 0 8])

theorem length_packet (bytes : List (BitVec 8)) : (packet bytes).length = bytes.length + 3 := by
  rw [packet, List.length_cons, List.length_append]
  rfl

theorem packet_injective : Function.Injective packet := by
  intro bytes bytes' h
  have htail := List.tail_eq_of_cons_eq h
  exact (List.append_inj' htail rfl).1

theorem length_front {lg : ℕ} (mem : Fin 4 → BitVec lg → BitVec 8) (n : ℕ) :
    (front mem n).length = n := by
  rw [front, List.length_map, List.length_range]

/-- A word with given bytes. -/
theorem exists_lanes (b : Fin 4 → BitVec 8) : ∃ w : BitVec 32, ∀ k, lane w k = b k := by
  refine ⟨b 3 ++ (b 2 ++ (b 1 ++ b 0)), fun k => ?_⟩
  have hcases : k = 0 ∨ k = 1 ∨ k = 2 ∨ k = 3 := by
    revert k
    decide
  rcases hcases with rfl | rfl | rfl | rfl
  · rw [lane, BitVec.extractLsb'_append_eq_of_add_le (by decide),
      BitVec.extractLsb'_append_eq_of_add_le (by decide)]
    exact BitVec.extractLsb'_append_eq_right
  · rw [lane, BitVec.extractLsb'_append_eq_of_add_le (by decide),
      BitVec.extractLsb'_append_eq_of_add_le (by decide)]
    exact BitVec.extractLsb'_append_eq_left
  · rw [lane, BitVec.extractLsb'_append_eq_of_add_le (by decide)]
    exact BitVec.extractLsb'_append_eq_left
  · exact BitVec.extractLsb'_append_eq_left

/-- Every address is one of a word and a lane. -/
theorem exists_parts {lg n : ℕ} (hn : n < 4 * 2 ^ lg) :
    ∃ (p : BitVec lg) (k : Fin 4), n = 4 * p.toNat + k.val :=
  ⟨_, _, (ofNat_parts hn _ _).1 ⟨rfl, rfl⟩⟩

theorem byteAt_zero {lg : ℕ} (mem : Fin 4 → BitVec lg → BitVec 8) : byteAt mem 0 = mem 0 0 := by
  have hpos : 0 < 2 ^ lg := Nat.two_pow_pos _
  obtain ⟨hword, hlane⟩ := (ofNat_parts (by omega : 0 < 4 * 2 ^ lg) 0 0).2 (by simp)
  rw [byteAt, hword, hlane]

/-! ## One clock -/

section Step

variable {s : Sdspi c.lgfifoln} {i : SdspiIn}

/-- With no byte taken, the packet is not completed, and no byte enters its CRC. -/
theorem nextPacket_quiet (hbusy : s.rCmdBusy = true) (hno : takenFromFifo c s i = false) :
    (next c s i).llFifoRdComplete = s.llFifoRdComplete ∧ (next c s i).fifoByte = s.fifoByte ∧
    (next c s i).fifoRdCrcStb = false := by
  rw [next_llFifoRdComplete, next_fifoByte, next_fifoRdCrcStb, nextPacket, hbusy, if_pos rfl, hno]
  split <;> exact ⟨rfl, rfl, rfl⟩

/-- Nor is it with a byte taken from the data. -/
theorem nextPacket_data (hbusy : s.rCmdBusy = true) (hst : s.llFifoPktState < 5) :
    (next c s i).llFifoRdComplete = s.llFifoRdComplete := by
  rw [next_llFifoRdComplete, nextPacket, hbusy, if_pos rfl]
  generalize s.llFifoPktState = t at hst
  have hcases : t = 0 ∨ t = 1 ∨ t = 2 ∨ t = 3 ∨ t = 4 := by
    revert t
    decide
  rcases hcases with rfl | rfl | rfl | rfl | rfl <;> simp <;> split_ifs <;> rfl

/-- Behind the data no byte enters the CRC. -/
theorem nextPacket_late (hbusy : s.rCmdBusy = true) (hst : 3 ≤ s.llFifoPktState) :
    3 ≤ (next c s i).llFifoPktState ∧ (next c s i).fifoRdCrcStb = false := by
  rw [next_llFifoPktState, next_fifoRdCrcStb, nextPacket, hbusy, if_pos rfl]
  generalize s.llFifoPktState = t at hst
  have hcases : t = 3 ∨ t = 4 ∨ t = 5 ∨ t = 6 ∨ t = 7 := by
    revert t
    decide
  rcases hcases with rfl | rfl | rfl | rfl | rfl <;> cases takenFromFifo c s i <;>
    exact ⟨by simp, rfl⟩

/-- A byte of the CRC is ready, behind the data. -/
structure Closing (s : Sdspi c.lgfifoln) (q : BitVec 3) (v : BitVec 8) : Prop where
  late : 3 < q
  state : s.llFifoPktState = q
  byte : s.fifoByte = v
  data : s.preCmdState = false → s.llCmdDat = v

theorem Closing.waited {q : BitVec 3} {v : BitVec 8} (h : Closing s q v) (hbusy : s.rCmdBusy = true)
    (hrd : s.llFifoRd = true) (hst : s.rCmdState = 6) (hgoes : s.llFifoRdComplete = false)
    (hno : takenFromFifo c s i = false) : Closing (next c s i) q v := by
  refine ⟨h.late, ?_, ?_, fun _ => ?_⟩
  · have hlate := h.late
    rw [next_llFifoPktState, nextPacket, hbusy, if_pos rfl, hno, h.state]
    have hcases : ∀ q : BitVec 3, 3 < q → q = 4 ∨ q = 5 ∨ q = 6 ∨ q = 7 := by decide
    rcases hcases q hlate with rfl | rfl | rfl | rfl <;> rfl
  · rw [(nextPacket_quiet hbusy hno).2.1]
    exact h.byte
  · rw [next_llCmdDat, nextLlCmdDat]
    cases hpre : s.preCmdState
    · rw [hbusy]
      exact h.data hpre
    · rw [if_pos rfl, hst, hgoes, hrd]
      exact h.byte

/-- A byte is loaded as the one before it is taken. -/
theorem closing_loaded {q : BitVec 3} {v : BitVec 8} (hlate : 3 < q)
    (hyes : takenFromFifo c s i = true) (hstate : (nextPacket c s i).1 = q)
    (hbyte : (nextPacket c s i).2.2.1 = v) : Closing (next c s i) q v := by
  refine ⟨hlate, hstate, hbyte, fun hpre => ?_⟩
  rw [takenFromFifo, Bool.and_eq_true] at hyes
  rw [next_preCmdState, hyes.2] at hpre
  exact absurd hpre (by decide)

/-- The first byte of the CRC comes behind the data. -/
theorem closing_first (hbusy : s.rCmdBusy = true) (hst : s.llFifoPktState = 3)
    (hyes : takenFromFifo c s i = true) :
    Closing (next c s i) 4 (s.fifoRdCrcReg.extractLsb' 8 8) := by
  have hpkt : nextPacket c s i =
      (4, s.llFifoRdComplete, s.fifoRdCrcReg.extractLsb' 8 8, false) := by
    rw [nextPacket, hbusy, hst, hyes]
    rfl
  exact closing_loaded (by decide) hyes (by rw [hpkt]) (by rw [hpkt])

/-- The second one comes behind the first. -/
theorem closing_second (hbusy : s.rCmdBusy = true) (hst : s.llFifoPktState = 4)
    (hyes : takenFromFifo c s i = true) :
    Closing (next c s i) 5 (s.fifoRdCrcReg.extractLsb' 0 8) := by
  have hpkt : nextPacket c s i =
      (5, s.llFifoRdComplete, s.fifoRdCrcReg.extractLsb' 0 8, false) := by
    rw [nextPacket, hbusy, hst, hyes]
    rfl
  exact closing_loaded (by decide) hyes (by rw [hpkt]) (by rw [hpkt])

/-- And then the packet is complete. -/
theorem completes (hbusy : s.rCmdBusy = true) (hst : s.llFifoPktState = 5)
    (hyes : takenFromFifo c s i = true) : (next c s i).llFifoRdComplete = true := by
  rw [next_llFifoRdComplete, nextPacket, hbusy, hst, hyes]
  rfl

end Step

/-! ## On the way -/

/-- The packet is not complete before clock `z`. -/
def Unfinished (s : ℕ → Sdspi c.lgfifoln) (a z : ℕ) : Prop :=
  ∀ t, a < t → t < z → (s t).llFifoRdComplete = false

/-- Until the packet is complete, FIFO `f` keeps its contents and, from the response on, the bus is
    granted, the watchdog does not fire, and no token comes in. -/
structure Undisturbed (c : SdspiCfg) (s : ℕ → Sdspi c.lgfifoln) (x : ℕ → SdspiIn) (f : Bool)
    (mem : Fin 4 → BitVec c.lgfifoln → BitVec 8) (a r : ℕ) : Prop where
  memory : ∀ t, a < t → Unfinished s a (t + 1) → (fifo c (s t) f).mem = mem
  granted : ∀ t, r ≤ t → Unfinished s a (t + 1) →
    Llsdspi.granted c.toLlCfg (llIn c (s t) (x t)) = true
  watch : ∀ t, r ≤ t → Unfinished s a (t + 1) → (s t).rWatchdogErr = false
  quiet : ∀ t, r ≤ t → Unfinished s a (t + 1) → llOutStb c (s t) = true →
    (llOutDat c (s t)).getLsbD 4 = true

/-- A packet with the bytes is sent, behind the response on clock `r`: it consists of what the shifter
    takes while the FIFO is read, until it is complete. -/
def SendsPacket (c : SdspiCfg) (s : ℕ → Sdspi c.lgfifoln) (x : ℕ → SdspiIn) (a r : ℕ)
    (bytes : List (BitVec 8)) : Prop :=
  (∀ t, a < t → t ≤ r → (s t).llFifoRd = false) ∧
    ∃ n, Unfinished s a (a + 1 + n) ∧ (s (a + 1 + n)).llFifoRdComplete = true ∧
      sent c s x (a + 1) n = packet bytes

/-- The FIFO is read from clock `e` on, with the start token in front. -/
structure ReadsFrom (s : ℕ → Sdspi c.lgfifoln) (a r e : ℕ) : Prop where
  later : r < e
  far : a + 10 ≤ e
  unfinished : Unfinished s a (e + 1)
  before : ∀ t, a < t → t < e → (s t).llFifoRd = false
  reads : (s e).llFifoRd = true
  token : (s e).llCmdDat = 0xfe
  waits : (s e).preCmdState = false

/-- What the shifter has taken of the packet before clock `t`. -/
def sentBy (c : SdspiCfg) (s : ℕ → Sdspi c.lgfifoln) (x : ℕ → SdspiIn) (a t : ℕ) :
    List (BitVec 8) := sent c s x (a + 1) (t - (a + 1))

/-- The data of the packet.  Its first byte is what the port of the FIFO shows as the command
    starts. -/
def sentByte (c : SdspiCfg) (s : Sdspi c.lgfifoln) (f : Bool)
    (mem : Fin 4 → BitVec c.lgfifoln → BitVec 8) (n : ℕ) : BitVec 8 :=
  if n = 0 then (fifo c s f).byte else byteAt mem n

section Runs

variable {s : ℕ → Sdspi c.lgfifoln} {x : ℕ → SdspiIn} {f : Bool}
  {mem : Fin 4 → BitVec c.lgfifoln → BitVec 8} {a r t z : ℕ}

theorem Unfinished.mono {z' : ℕ} (h : Unfinished s a z) (hle : z' ≤ z) : Unfinished s a z' :=
  fun t hat htz => h t hat (by omega)

theorem Unfinished.succ (h : Unfinished s a z) (hz : a < z → (s z).llFifoRdComplete = false) :
    Unfinished s a (z + 1) := by
  intro t hat htz
  rcases Nat.lt_succ_iff_lt_or_eq.mp htz with hlt | rfl
  · exact h t hat hlt
  · exact hz hat

theorem sentBy_succ (hat : a < t) : sentBy c s x a (t + 1) = sentBy c s x a t ++
    if takenFromFifo c (s t) (x t) then [(s t).llCmdDat] else [] := by
  obtain ⟨n, rfl⟩ : ∃ n, t = a + 1 + n := ⟨t - (a + 1), by omega⟩
  rw [sentBy, sentBy, show a + 1 + n + 1 - (a + 1) = n + 1 by omega,
    show a + 1 + n - (a + 1) = n by omega, sent]

theorem sentBy_quiet {m n : ℕ} (ham : a < m) (hmn : m ≤ n)
    (hno : ∀ u, m ≤ u → u < n → taken c (s u) (x u) = false) :
    sentBy c s x a n = sentBy c s x a m := by
  induction n, hmn using Nat.le_induction with
  | base => rfl
  | succ n hmn ih =>
    rw [sentBy_succ (by omega), ih fun u hu hun => hno u hu (by omega), takenFromFifo,
      hno n hmn (Nat.lt_succ_self n), Bool.and_false, if_neg Bool.false_ne_true, List.append_nil]

variable (h0 : AtPowerUp c (s 0)) (hstep : ∀ n, s (n + 1) = next c (s n) (x n))
  (h : BlockWrite c s f a r) (hund : Undisturbed c s x f mem a r)

include h0 hstep h

omit h0 in
/-- The command makes the packet ready. -/
theorem packet_first : (s (a + 1)).llFifoRdComplete = false ∧ (s (a + 1)).fifoRdCrcStb = true ∧
    (s (a + 1)).fifoByte = (fifo c (s a) f).byte := by
  obtain ⟨hpos, -⟩ := h.order
  obtain ⟨hbusy, -, hnew⟩ := free_of_starts h.starts
  have hcmd : (s a).rWriteStb = true ∧ (s a).rWbAddr = cmdAddress := by
    obtain ⟨m, rfl⟩ : ∃ m, a = m + 1 := ⟨a - 1, by omega⟩
    rw [hstep] at hnew ⊢
    exact newCmd_next hnew
  rw [hstep, next_llFifoRdComplete, next_fifoRdCrcStb, next_fifoByte, nextPacket, hbusy, hcmd.1,
    hcmd.2, h.fifo]
  exact ⟨rfl, rfl, rfl⟩

/-- Nothing is completed before the response. -/
theorem unfinished_before : ∀ t, a < t → t ≤ r + 1 → Unfinished s a (t + 1) := by
  intro t hat
  induction t, hat using Nat.le_induction with
  | base =>
    intro _ u hau hu
    obtain rfl : u = a + 1 := by omega
    exact (packet_first hstep h).1
  | succ t hat ih =>
    intro htr
    have hold := ih (by omega)
    refine hold.succ fun _ => ?_
    have hrd : takenFromFifo c (s t) (x t) = false := by
      rw [takenFromFifo, (h.unanswered h0 hstep t hat (by omega)).reads, Bool.false_and]
    rw [hstep, (nextPacket_quiet (h.busy t hat (by omega)) hrd).1]
    exact hold t hat (Nat.lt_succ_self t)

include hund

/-- From the response on the state machine waits. -/
theorem answered_run (hrt : r < t) (hun : Unfinished s a t) : Answered (s t) := by
  obtain ⟨hpos, har⟩ := h.order
  induction t, hrt using Nat.le_induction with
  | base => exact h.answered h0 hstep (hund.watch r (Nat.le_refl r) hun)
  | succ t hrt ih =>
    have hlast := ih (hun.mono (Nat.le_succ t))
    rw [hstep]
    exact hlast.next (hund.watch t (by omega) hun) (hund.quiet t (by omega) hun)
      (hun t (by omega) (Nat.lt_succ_self t))

theorem busy_run (hat : a < t) (hun : Unfinished s a t) : (s t).rCmdBusy = true := by
  rcases Nat.lt_or_ge r t with hlt | hle
  · exact (answered_run h0 hstep h hund hlt hun).busy
  · exact h.busy t hat (by omega)

/-- Once the FIFO is read it goes on to be read. -/
theorem reads_on {e : ℕ} (hre : r < e) (hrd : (s e).llFifoRd = true) (het : e ≤ t)
    (hun : Unfinished s a t) : (s t).llFifoRd = true ∧ (s t).rCmdState = 6 := by
  obtain ⟨hpos, har⟩ := h.order
  have hon : (s t).llFifoRd = true := by
    induction t, het using Nat.le_induction with
    | base => exact hrd
    | succ t het ih =>
      have hlast := ih (hun.mono (Nat.le_succ t))
      have hans := answered_run h0 hstep h hund (by omega : r < t) (hun.mono (Nat.le_succ t))
      rw [hstep, next_llFifoRd, nextLlFifoRd, hans.heard, hans.uses, hans.outwards, hans.offers,
        hun t (by omega) (Nat.lt_succ_self t), hlast]
      simp
  refine ⟨hon, ?_⟩
  rcases (answered_run h0 hstep h hund (by omega : r < t) hun).reads with ⟨-, hno⟩ | ⟨hst, -⟩
  · rw [hno] at hon
    exact absurd hon (by decide)
  · exact hst

/-- Nothing is completed while no byte is taken. -/
theorem unfinished_quiet {m n : ℕ} (hrm : r < m) (hun : Unfinished s a (m + 1)) (hmn : m ≤ n)
    (hno : ∀ u, m ≤ u → u < n → taken c (s u) (x u) = false) : Unfinished s a (n + 1) := by
  obtain ⟨hpos, har⟩ := h.order
  induction n, hmn using Nat.le_induction with
  | base => exact hun
  | succ n hmn ih =>
    have hold := ih fun u hu hun => hno u hu (by omega)
    refine hold.succ fun _ => ?_
    have hquiet : takenFromFifo c (s n) (x n) = false := by
      rw [takenFromFifo, hno n hmn (Nat.lt_succ_self n), Bool.and_false]
    rw [hstep, (nextPacket_quiet (busy_run h0 hstep h hund (by omega) (hold.mono (Nat.le_succ n)))
      hquiet).1]
    exact hold n (by omega) (Nat.lt_succ_self n)

/-- **The next byte is taken.** -/
theorem next_take {m : ℕ} (hrm : r < m) (hun : Unfinished s a (m + 1)) :
    ∃ n, m ≤ n ∧ Unfinished s a (n + 1) ∧ taken c (s n) (x n) = true ∧
      ∀ u, m ≤ u → u < n → taken c (s u) (x u) = false := by
  obtain ⟨hpos, har⟩ := h.order
  have hhold : (s m).lowlevel.startupHold = false := by
    obtain ⟨q, rfl⟩ : ∃ q, r = q + 1 := ⟨r - 1, by omega⟩
    have hpre := h.response
    rw [firstResponse, Bool.and_eq_true, Bool.and_eq_true, Bool.and_eq_true] at hpre
    have htaken := hpre.1.1.1
    rw [hstep, next_preCmdState] at htaken
    have hacc : Llsdspi.byteAccepted c.toLlCfg (s q).lowlevel (llIn c (s q) (x q)) = true := htaken
    exact hold_over hstep (hold_idle h0 hstep (Llsdspi.idle_of_accepted hacc).1) (by omega)
  obtain ⟨n, hmn, htaken, hno⟩ := taken_again h0 hstep _ m hhold (Nat.le_refl _) fun t hmt hno => by
    have hunt := unfinished_quiet h0 hstep h hund hrm hun hmt hno
    have hans := answered_run h0 hstep h hund (by omega : r < t) (hunt.mono (Nat.le_succ t))
    exact ⟨hans.busy, hans.offers, hund.granted t (by omega) hunt⟩
  exact ⟨n, hmn, unfinished_quiet h0 hstep h hund hrm hun hmn hno, htaken, hno⟩

/-- The shifter is busy for a while with a byte that it has taken. -/
theorem take_far {m n : ℕ} (ham : a ≤ m) (hmn : m < n) (hun : Unfinished s a n)
    (hm : taken c (s m) (x m) = true) (hn : taken c (s n) (x n) = true) : m + 17 ≤ n :=
  taken_far h0 hstep hm hn hmn fun _ hmt htn =>
    busy_run h0 hstep h hund (by omega) (hun.mono (by omega))

/-- The FIFO is read from some clock on, with the start token in front. -/
theorem reads_from : ∃ e, ReadsFrom s a r e := by
  obtain ⟨hpos, har⟩ := h.order
  have hbefore := unfinished_before h0 hstep h (r + 1) (by omega) (Nat.le_refl _)
  obtain ⟨n, hrn, hun, htaken, hno⟩ := next_take h0 hstep h hund (Nat.lt_succ_self r) hbefore
  -- the byte behind the command
  have hlast : taken c (s (r - 1)) (x (r - 1)) = true := by
    have hpre := h.response
    rw [firstResponse, Bool.and_eq_true, Bool.and_eq_true, Bool.and_eq_true] at hpre
    have hpre := hpre.1.1.1
    rw [show r = r - 1 + 1 by omega, hstep, next_preCmdState] at hpre
    exact hpre
  have hfar := take_far h0 hstep h hund (by omega) (by omega) (hun.mono (Nat.le_succ n)) hlast htaken
  have hrest : ∀ u, r ≤ u → u < n → taken c (s u) (x u) = false := by
    intro u hu hun'
    rcases Nat.lt_or_eq_of_le hu with hlt | rfl
    · exact hno u hlt hun'
    · rw [Bool.eq_false_iff]
      intro hyes
      have := take_far h0 hstep h hund (by omega) (by omega) (hbefore.mono (by omega)) hlast hyes
      omega
  -- until it is taken, the FIFO is not read
  have hoff : ∀ u, r < u → u ≤ n + 1 → (s u).llFifoRd = false := by
    intro u hu
    induction u, hu using Nat.le_induction with
    | base =>
      intro _
      have hun := h.unanswered h0 hstep r (by omega) (Nat.le_refl r)
      rw [hstep, next_llFifoRd, nextLlFifoRd, hun.unheard, hun.reads]
      simp
    | succ u hu ih =>
      intro hle
      have hans := answered_run h0 hstep h hund hu (hun.mono (by omega))
      have hpre : (s u).preCmdState = false := by
        rw [show u = u - 1 + 1 by omega, hstep, next_preCmdState]
        exact hrest (u - 1) (by omega) (by omega)
      rw [hstep, next_llFifoRd, nextLlFifoRd, hpre, hans.offers]
      exact ih (by omega)
  have hnone : ∀ u, n ≤ u → u ≤ n + 1 → takenFromFifo c (s u) (x u) = false := by
    intro u hnu hun
    rw [takenFromFifo, hoff u (by omega) hun, Bool.false_and]
  have hun₂ : Unfinished s a (n + 2) := hun.succ fun _ => by
    rw [hstep, (nextPacket_quiet (busy_run h0 hstep h hund (by omega) (hun.mono (Nat.le_succ n)))
      (hnone n (Nat.le_refl n) (Nat.le_succ n))).1]
    exact hun n (by omega) (Nat.lt_succ_self n)
  have hans := answered_run h0 hstep h hund (by omega : r < n + 1) hun
  have hun₃ : Unfinished s a (n + 3) := hun₂.succ fun _ => by
    rw [hstep, (nextPacket_quiet hans.busy (hnone (n + 1) (Nat.le_succ n) (Nat.le_refl _))).1]
    exact hun₂ (n + 1) (by omega) (Nat.lt_succ_self _)
  have hfive : (s (n + 1)).rCmdState = 5 := by
    rcases hans.reads with ⟨hst, -⟩ | ⟨-, hrd⟩
    · exact hst
    · rw [hoff (n + 1) (by omega) (Nat.le_refl _)] at hrd
      exact absurd hrd (by decide)
  have hpre : (s (n + 1)).preCmdState = true := by
    rw [hstep, next_preCmdState]
    exact htaken
  refine ⟨n + 2, by omega, by omega, hun₃, fun t hat hte => ?_, ?_, ?_, ?_⟩
  · rcases Nat.lt_or_ge r t with hlt | hge
    · exact hoff t hlt (by omega)
    · exact (h.unanswered h0 hstep t hat hge).reads
  · rw [hstep, next_llFifoRd, nextLlFifoRd, hpre, hfive, hans.heard, hans.uses, hans.outwards]
    rfl
  · rw [hstep, next_llCmdDat, nextLlCmdDat, hpre, hfive, hans.heard, hans.uses, hans.outwards]
    rfl
  · rw [hstep, next_preCmdState, Bool.eq_false_iff]
    intro hyes
    have := take_far h0 hstep h hund (by omega) (Nat.lt_succ_self n) hun htaken hyes
    omega

end Runs

end Sdspi

end ZipStormMX.Sdcard
