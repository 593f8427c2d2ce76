/-
  A block of the SD card controller that goes out.

  The byte that the shifter takes has come from the memory in three steps: to the port of the memory,
  to the packet, and to the shifter's own register.  Each time the shifter takes a byte, the address
  advances and each of these is loaded with the byte behind it, and there is just time enough before
  the next one is taken (`accepted_twice`).  The first byte is loaded as the command starts.
-/
import ZipStormMX.Sdcard.Blocks

namespace ZipStormMX.Sdcard

namespace Sdspi

variable {c : SdspiCfg} {s : Sdspi c.lgfifoln} {i : SdspiIn}

/-- The bytes of the packet that the shifter takes on `n` clocks from clock `a` on. -/
def sent (c : SdspiCfg) (s : ℕ → Sdspi c.lgfifoln) (x : ℕ → SdspiIn) (a : ℕ) :
    ℕ → List (BitVec 8)
  | 0 => []
  | n + 1 =>
    sent c s x a n ++
      if takenFromFifo c (s (a + n)) (x (a + n)) then [(s (a + n)).llCmdDat] else []

/-! ## Between two bytes -/

/-- The shifter takes no byte on this clock and on the next one, whatever happens. -/
def Resting (c : SdspiCfg) (s : Sdspi c.lgfifoln) : Prop :=
  ∀ i i', llIdle c s i = false ∧ llIdle c (next c s i) i' = false

theorem resting_next (hrests : s.lowlevel.Rests) (htaken : taken c s i = true)
    (hbusy : (next c s i).rCmdBusy = true) : Resting c (next c s i) := by
  intro i' i''
  have haccepted : Llsdspi.byteAccepted c.toLlCfg s.lowlevel (llIn c s i) = true := htaken
  exact Llsdspi.accepted_twice hrests haccepted (llIn c (next c s i) i')
    (llIn c (next c (next c s i) i') i'') hbusy

theorem Resting.not_taken (h : Resting c s) : taken c s i = false := by
  rw [taken, (h i i).1, Bool.and_false]

/-- While a block goes out, the packet has the bytes `l` behind it.  Word `p` of the FIFO is `u`. -/
structure Sending (c : SdspiCfg) (s : Sdspi c.lgfifoln) (f : Bool) (p : BitVec c.lgfifoln)
    (u : BitVec 32) (l : List (BitVec 8)) : Prop where
  id : s.rFifoId = f
  inwards : s.preFifoAddrIncWr = false
  address : s.preFifoAddrIncRd = false → s.llFifoAddr = BitVec.ofNat _ l.length
  advance : s.preFifoAddrIncRd = true → (s.rCmdBusy = true → Resting c s) ∧
    ∃ n, l.length = n + 1 ∧ s.llFifoAddr = BitVec.ofNat _ n
  packet : l.length < 4 * 2 ^ c.lgfifoln → s.llFifoPktState = BitVec.ofNat 3 (min l.length 2)
  last : l.length = 4 * 2 ^ c.lgfifoln → s.llFifoPktState = 2 ∨ s.llFifoPktState = 3
  complete : s.llFifoRdComplete = false
  paced : l ≠ [] → s.preCmdState = s.preFifoAddrIncRd
  front : ∀ k : Fin 4, 4 * p.toNat + k.val = l.length - 1 → s.fifoByte = lane u k
  port : 0 < l.length → (∃ i, llIdle c s i = true) →
    ∀ k : Fin 4, 4 * p.toNat + k.val = l.length → (fifo c s f).byte = lane u k
  data : s.preCmdState = false →
    ∀ k : Fin 4, 4 * p.toNat + k.val + 1 = l.length → s.llCmdDat = lane u k

theorem byte_next (f : Bool) : (fifo c (next c s i) f).byte =
    (fifo c s f).mem (lanePart s.llFifoAddr) (wordPart s.llFifoAddr) := by
  rw [fifo_next]
  rfl

theorem ofNat_ne_zero {lg n : ℕ} (hpos : 0 < n) (hn : n < 4 * 2 ^ lg) :
    BitVec.ofNat (lg + 2) n ≠ 0 := by
  intro h
  have hz := congrArg BitVec.toNat h
  rw [BitVec.toNat_ofNat, Nat.mod_eq_of_lt (by rw [Nat.pow_add]; omega)] at hz
  exact absurd hz (by simp; omega)

section Step

variable {f : Bool} {p : BitVec c.lgfifoln} {u : BitVec 32} {l : List (BitVec 8)}

theorem Sending.advanced (h : Sending c s f p u l) (hbusy : s.rCmdBusy = true) :
    (Sdspi.next c s i).llFifoAddr = BitVec.ofNat _ l.length := by
  rw [next_llFifoAddr, nextLlFifoAddr, hbusy, h.inwards]
  cases hinc : s.preFifoAddrIncRd
  · exact h.address hinc
  · obtain ⟨-, n, hn, haddr⟩ := h.advance hinc
    rw [hn, haddr, BitVec.ofNat_add]
    rfl

/-- A byte is not taken while the address is still to advance. -/
theorem Sending.at_rest (h : Sending c s f p u l) (hbusy : s.rCmdBusy = true)
    (htaken : taken c s i = true) : s.preFifoAddrIncRd = false := by
  rw [Bool.eq_false_iff]
  intro hinc
  rw [((h.advance hinc).1 hbusy).not_taken] at htaken
  exact absurd htaken (by decide)

/-- The packet waits, or it is complete but for its CRC. -/
theorem nextPacket_waited (hbusy : s.rCmdBusy = true) (hno : takenFromFifo c s i = false)
    (hst : s.llFifoPktState < 4) : nextPacket c s i =
      (if s.llFifoPktState = 2 ∧ s.llFifoAddr = 0 then 3 else s.llFifoPktState,
        s.llFifoRdComplete, s.fifoByte, false) := by
  unfold nextPacket
  rw [hbusy, if_pos rfl, hno]
  generalize s.llFifoPktState = t at hst ⊢
  have hcases : t = 0 ∨ t = 1 ∨ t = 2 ∨ t = 3 := by
    revert t
    decide
  obtain rfl | rfl | rfl | rfl := hcases
  · rfl
  · rfl
  · simp
  · rfl

theorem Sending.packet_lt (h : Sending c s f p u l) (hlen : l.length ≤ 4 * 2 ^ c.lgfifoln) :
    s.llFifoPktState < 4 := by
  rcases Nat.lt_or_eq_of_le hlen with hlt | heq
  · rw [h.packet hlt]
    have hcases : min l.length 2 = 0 ∨ min l.length 2 = 1 ∨ min l.length 2 = 2 := by omega
    obtain h0 | h1 | h2 := hcases
    · rw [h0]
      decide
    · rw [h1]
      decide
    · rw [h2]
      decide
  · rcases h.last heq with h2 | h3
    · rw [h2]
      decide
    · rw [h3]
      decide

/-- The byte that the shifter is offered, when it has not just taken one. -/
theorem Sending.data_next (h : Sending c s f p u l) (hbusy : s.rCmdBusy = true)
    (hrd : l ≠ [] → s.llFifoRd = true) (hsix : s.llFifoRd = true → s.rCmdState = 6)
    (k : Fin 4) (hk : 4 * p.toNat + k.val + 1 = l.length) :
    (Sdspi.next c s i).llCmdDat = lane u k := by
  have hon : s.llFifoRd = true := by
    refine hrd ?_
    rintro rfl
    exact absurd hk (by simp)
  rw [next_llCmdDat, nextLlCmdDat]
  cases hpre : s.preCmdState
  · rw [hbusy]
    exact h.data hpre k hk
  · rw [if_pos rfl, hsix hon, hon, h.complete]
    exact h.front k (by omega)

/-- No byte of the packet is taken. -/
theorem Sending.waited (h : Sending c s f p u l) (hbusy : s.rCmdBusy = true)
    (hwr : s.llFifoWr = false) (hrd : l ≠ [] → s.llFifoRd = true)
    (hsix : s.llFifoRd = true → s.rCmdState = 6)
    (hmem : ∀ k : Fin 4, 0 < 4 * p.toNat + k.val → (fifo c s f).mem k p = lane u k)
    (hlen : l.length ≤ 4 * 2 ^ c.lgfifoln) (hno : takenFromFifo c s i = false) :
    Sending c (Sdspi.next c s i) f p u l := by
  have hinc : (Sdspi.next c s i).preFifoAddrIncRd = false := hno
  have hpkt := nextPacket_waited hbusy hno (h.packet_lt hlen)
  refine ⟨(rFifoId_busy hbusy).trans h.id, ?_, fun _ => h.advanced hbusy, fun hyes => ?_,
    fun hlt => ?_, fun heq => ?_, ?_, fun hl => ?_, fun k hk => ?_, fun hpos hidle k hk => ?_,
    fun _ k hk => h.data_next hbusy hrd hsix k hk⟩
  · simp [hwr]
  · rw [hinc] at hyes
    exact absurd hyes (by decide)
  · -- the packet is not complete: its address has not come round
    rw [next_llFifoPktState, hpkt, if_neg]
    · exact h.packet hlt
    · rintro ⟨hst, haddr⟩
      have htwo : 2 ≤ l.length := by
        by_contra hfew
        have hmin : min l.length 2 = 0 ∨ min l.length 2 = 1 := by omega
        rw [h.packet hlt] at hst
        obtain h0 | h1 := hmin
        · rw [h0] at hst
          exact absurd hst (by decide)
        · rw [h1] at hst
          exact absurd hst (by decide)
      cases hon : s.preFifoAddrIncRd
      · rw [h.address hon] at haddr
        exact ofNat_ne_zero (by omega) hlt haddr
      · obtain ⟨-, n, hn, haddr'⟩ := h.advance hon
        rw [haddr'] at haddr
        exact ofNat_ne_zero (by omega) (by omega) haddr
  · rw [next_llFifoPktState, hpkt]
    rcases h.last heq with hst | hst
    · rw [hst]
      dsimp only
      split_ifs
      · exact .inr rfl
      · exact .inl rfl
    · rw [hst]
      exact .inr rfl
  · rw [next_llFifoRdComplete, hpkt]
    exact h.complete
  · rw [next_preCmdState, next_preFifoAddrIncRd, takenFromFifo, hrd hl, Bool.true_and]
  · rw [next_fifoByte, hpkt]
    exact h.front k hk
  · cases hon : s.preFifoAddrIncRd
    · -- the port has read at the address of the clock before
      have hp := p.isLt
      obtain ⟨hw, hl⟩ := (ofNat_parts (by omega : l.length < 4 * 2 ^ c.lgfifoln) p k).2 hk.symm
      rw [byte_next, h.address hon, hw, hl]
      exact hmem k (by omega)
    · obtain ⟨i', hi'⟩ := hidle
      rw [(((h.advance hon).1 hbusy) i i').2] at hi'
      exact absurd hi' (by decide)

/-- A byte of the packet is taken. -/
theorem Sending.took (h : Sending c s f p u l) (hrests : s.lowlevel.Rests)
    (hbusy : s.rCmdBusy = true) (hwr : s.llFifoWr = false)
    (hlen : l.length < 4 * 2 ^ c.lgfifoln) (hyes : takenFromFifo c s i = true) :
    Sending c (Sdspi.next c s i) f p u (l ++ [s.llCmdDat]) := by
  have htaken : taken c s i = true := by
    rw [takenFromFifo, Bool.and_eq_true] at hyes
    exact hyes.2
  have haddr := h.address (h.at_rest hbusy htaken)
  have hinc : (Sdspi.next c s i).preFifoAddrIncRd = true := hyes
  have hone : (l ++ [s.llCmdDat]).length = l.length + 1 := by
    rw [List.length_append]
    rfl
  have hidle : ∀ {i'}, llIdle c (Sdspi.next c s i) i' = true →
      (Sdspi.next c s i).rCmdBusy = true := by
    intro i' hi'
    unfold llIdle Llsdspi.oIdle at hi'
    simp only [Bool.and_eq_true] at hi'
    exact hi'.2.1
  have hcases : l.length = 0 ∨ l.length = 1 ∨ 2 ≤ l.length := by omega
  have hpkt : (nextPacket c s i).1 = BitVec.ofNat 3 (min (l.length + 1) 2) ∧
      (nextPacket c s i).2.1 = s.llFifoRdComplete ∧
      (nextPacket c s i).2.2.1 = if l.length = 0 then s.fifoByte else (fifo c s f).byte := by
    have hst := h.packet hlen
    unfold nextPacket
    rw [hbusy, if_pos rfl, hyes, h.id, hst]
    obtain h0 | h1 | h2 := hcases
    · rw [h0]
      exact ⟨rfl, rfl, rfl⟩
    · rw [h1]
      exact ⟨rfl, rfl, rfl⟩
    · have hne : (BitVec.ofNat (c.lgfifoln + 2) l.length == 0) = false :=
        beq_false_of_ne (ofNat_ne_zero (by omega) hlen)
      rw [Nat.min_eq_right h2, Nat.min_eq_right (show 2 ≤ l.length + 1 by omega), haddr, hne,
        if_neg (show ¬l.length = 0 by omega)]
      exact ⟨rfl, rfl, rfl⟩
  refine ⟨(rFifoId_busy hbusy).trans h.id, ?_, fun hno => ?_, fun _ => ⟨fun hb => ?_, l.length, ?_⟩,
    fun hlt => ?_, fun heq => ?_, ?_, fun _ => ?_, fun k hk => ?_, fun _ hex => ?_, fun hno => ?_⟩
  · simp [hwr]
  · rw [hinc] at hno
    exact absurd hno (by decide)
  · exact resting_next hrests htaken hb
  · exact ⟨hone, h.advanced hbusy⟩
  · rw [hone, next_llFifoPktState]
    exact hpkt.1
  · left
    rw [hone] at heq
    rw [next_llFifoPktState, hpkt.1, Nat.min_eq_right (by omega)]
    rfl
  · rw [next_llFifoRdComplete, hpkt.2.1]
    exact h.complete
  · exact htaken.trans hinc.symm
  · rw [hone, Nat.add_sub_cancel] at hk
    rw [next_fifoByte, hpkt.2.2]
    split_ifs with h0
    · exact h.front k (by omega)
    · exact h.port (by omega) ⟨i, by
        rw [taken, Bool.and_eq_true] at htaken
        exact htaken.2⟩ k hk
  · obtain ⟨i', hi'⟩ := hex
    have hrest := resting_next hrests htaken (hidle hi')
    rw [(hrest i' i').1] at hi'
    exact absurd hi' (by decide)
  · have hpre : (Sdspi.next c s i).preCmdState = true := htaken
    rw [hpre] at hno
    exact absurd hno (by decide)

end Step

/-! ## Whole runs -/

section Runs

variable {s : ℕ → Sdspi c.lgfifoln} {x : ℕ → SdspiIn} {f : Bool} {a b : ℕ} {bytes : List (BitVec 8)}

/-- A block, or the front of one, goes out of FIFO `f` between clock `a` and clock `b`: the FIFO is
    read to the end from some clock on, and the bytes taken from it are a start token and the block. -/
structure Sends (c : SdspiCfg) (s : ℕ → Sdspi c.lgfifoln) (x : ℕ → SdspiIn) (f : Bool)
    (a b : ℕ) (bytes : List (BitVec 8)) : Prop extends Moves c s f true a b where
  reads : ∃ e, (∀ t, a < t → t < e → (s t).llFifoRd = false) ∧
    ∀ t, e ≤ t → t < b → (s t).llFifoRd = true
  bytes : ∃ token, sent c s x (a + 1) (b - (a + 1)) = token :: bytes

theorem newCmd_next {s : Sdspi c.lgfifoln} (h : newCmd c (next c s i) = true) :
    (next c s i).rWriteStb = true ∧ (next c s i).rWbAddr = cmdAddress := by
  unfold newCmd at h
  rw [next_rCmdStb] at h
  simp only [Bool.and_eq_true, beq_iff_eq] at h
  refine ⟨?_, h.2⟩
  rw [next_rWriteStb, h.1.1.2, h.1.2]
  rfl

/-- The command loads the packet with the first byte. -/
theorem sending_first {s : Sdspi c.lgfifoln} (hfree : Free (c := c) s) (hstart : starts c s = true)
    (hcmd : s.rWriteStb = true ∧ s.rWbAddr = cmdAddress) (hid : s.rWbData.getLsbD 12 = f)
    {p : BitVec c.lgfifoln} {u : BitVec 32} (hfirst : p = 0 → (fifo c s f).byte = lane u 0) :
    Sending c (next c s i) f p u [] := by
  obtain ⟨hbusy, hpre, hnew⟩ := free_of_starts hstart
  have hrd : takenFromFifo c s i = false := by
    rw [takenFromFifo, hfree.llFifoRd hbusy]
    rfl
  have hpkt : nextPacket c s i = (0, false, (fifo c s f).byte, true) := by
    unfold nextPacket
    rw [hbusy, hcmd.1, hcmd.2, hid]
    rfl
  have hinc : (next c s i).preFifoAddrIncRd = false := hrd
  refine ⟨?_, ?_, fun _ => ?_, fun hyes => ?_, fun _ => ?_, fun heq => ?_, ?_, fun hl => ?_,
    fun k hk => ?_, fun hpos => ?_, fun _ k hk => ?_⟩
  · rw [next_rFifoId, hpre, hbusy, hnew, hid]
    rfl
  · simp [hfree.llFifoWr hbusy]
  · rw [next_llFifoAddr, nextLlFifoAddr, hbusy]
    rfl
  · rw [hinc] at hyes
    exact absurd hyes (by decide)
  · rw [next_llFifoPktState, hpkt]
    rfl
  · exact absurd heq (by simp)
  · rw [next_llFifoRdComplete, hpkt]
  · exact absurd rfl hl
  · simp only [List.length_nil] at hk
    have hp : p = 0 := BitVec.eq_of_toNat_eq (by simp; omega)
    have hk0 : k = 0 := Fin.ext (by simp; omega)
    rw [next_fifoByte, hpkt, hk0]
    exact hfirst hp
  · exact absurd hpos (Nat.lt_irrefl 0)
  · exact absurd hk (by simp)

/-- Nothing is taken before the FIFO is read. -/
theorem sent_nil {e n : ℕ} (h : ∀ t, a < t → t < e → (s t).llFifoRd = false) (hn : a + n < e) :
    sent c s x (a + 1) n = [] := by
  induction n with
  | zero => rfl
  | succ n ih =>
    rw [sent, ih (by omega), takenFromFifo, h (a + 1 + n) (by omega) (by omega)]
    rfl

/-- What has gone out after `n` clocks, while the FIFO is read. -/
theorem Moves.sending (h : Moves c s f true a b) (h0 : AtPowerUp c (s 0))
    (hstep : ∀ n, s (n + 1) = next c (s n) (x n))
    (hreads : ∃ e, (∀ t, a < t → t < e → (s t).llFifoRd = false) ∧
      ∀ t, e ≤ t → t < b → (s t).llFifoRd = true) {p : BitVec c.lgfifoln} {u : BitVec 32}
    (hmem : ∀ t, a < t → t < b → ∀ k : Fin 4, 0 < 4 * p.toNat + k.val →
      (Sdspi.fifo c (s t) f).mem k p = lane u k)
    (hfirst : p = 0 → (Sdspi.fifo c (s a) f).byte = lane u 0) : ∀ n, a + 1 + n ≤ b →
      ((sent c s x (a + 1) n).length ≤ 4 * 2 ^ c.lgfifoln →
        Sending c (s (a + 1 + n)) f p u (sent c s x (a + 1) n)) ∧
      ∀ k : Fin 4, 4 * p.toNat + k.val + 1 < (sent c s x (a + 1) n).length →
        (sent c s x (a + 1) n)[4 * p.toNat + k.val + 1]? = some (lane u k) := by
  obtain ⟨hpos, hab⟩ := h.order
  obtain ⟨e, hwaits, hreads⟩ := hreads
  have hp := p.isLt
  intro n
  induction n with
  | zero =>
    intro _
    refine ⟨fun _ => ?_, fun k hk => absurd hk (Nat.not_lt_zero _)⟩
    have hfree := free_run h0 hstep (a - 1)
    have hcmd : newCmd c (s a) = true := (free_of_starts h.starts).2.2
    rw [Nat.sub_add_cancel hpos] at hfree
    rw [show a = a - 1 + 1 by omega, hstep] at hcmd
    have hwrites := newCmd_next hcmd
    rw [← hstep, Nat.sub_add_cancel hpos] at hwrites
    rw [Nat.add_zero, hstep]
    exact sending_first hfree h.starts hwrites h.fifo hfirst
  | succ n ih =>
    intro hn
    obtain ⟨hsending, hold⟩ := ih (by omega)
    have hbusy := h.busy (a + 1 + n) (by omega) (by omega)
    have hwr := (h.oneWay h0 hstep (a + 1 + n) (by omega) (by omega)).2 rfl
    have hsix := sixth_run h0 hstep (a + 1 + n)
    have hrd : sent c s x (a + 1) n ≠ [] → (s (a + 1 + n)).llFifoRd = true := by
      intro hl
      refine hreads _ ?_ (by omega)
      by_contra hlt
      exact hl (sent_nil hwaits (by omega))
    rw [show a + 1 + (n + 1) = a + 1 + n + 1 from rfl, sent]
    cases htook : takenFromFifo c (s (a + 1 + n)) (x (a + 1 + n))
    · rw [if_neg (by decide), List.append_nil]
      refine ⟨fun hlen => ?_, hold⟩
      rw [hstep]
      exact (hsending hlen).waited hbusy hwr hrd hsix (hmem _ (by omega) (by omega)) hlen htook
    · rw [if_pos rfl]
      refine ⟨fun hlen => ?_, fun k hk => ?_⟩
      · rw [List.length_append, List.length_singleton] at hlen
        rw [hstep]
        exact (hsending (by omega)).took (rests_run h0 hstep _) hbusy hwr (by omega) htook
      · rw [List.length_append, List.length_singleton] at hk
        by_cases hlt : 4 * p.toNat + k.val + 1 < (sent c s x (a + 1) n).length
        · rw [List.getElem?_append_left hlt]
          exact hold k hlt
        · -- the byte taken just now
          have heq : 4 * p.toNat + k.val + 1 = (sent c s x (a + 1) n).length := by omega
          have hnow := hsending (by omega)
          have htaken : taken c (s (a + 1 + n)) (x (a + 1 + n)) = true := by
            rw [takenFromFifo, Bool.and_eq_true] at htook
            exact htook.2
          have hne : sent c s x (a + 1) n ≠ [] := by
            intro hnil
            rw [hnil] at heq
            exact absurd heq (by simp)
          have hpre := (hnow.paced hne).trans (hnow.at_rest hbusy htaken)
          rw [heq, List.getElem?_concat_length, hnow.data hpre k heq]

/-- **A block goes out.**  Its bytes are those of the FIFO, one after the other. -/
theorem Sends.bytes_eq (h : Sends c s x f a b bytes) (h0 : AtPowerUp c (s 0))
    (hstep : ∀ n, s (n + 1) = next c (s n) (x n)) {p : BitVec c.lgfifoln} {u : BitVec 32}
    (hmem : ∀ t, a < t → t < b → ∀ k : Fin 4, 0 < 4 * p.toNat + k.val →
      (Sdspi.fifo c (s t) f).mem k p = lane u k)
    (hfirst : p = 0 → (Sdspi.fifo c (s a) f).byte = lane u 0) (k : Fin 4)
    (hlt : 4 * p.toNat + k.val < bytes.length) :
    bytes[4 * p.toNat + k.val]? = some (lane u k) := by
  obtain ⟨hpos, hab⟩ := h.order
  obtain ⟨token, hbytes⟩ := h.bytes
  have hall := (h.toMoves.sending h0 hstep h.reads hmem hfirst (b - (a + 1)) (by omega)).2 k
  rw [hbytes, List.length_cons, List.getElem?_cons_succ] at hall
  exact hall (by omega)

end Runs

end Sdspi

end ZipStormMX.Sdcard
