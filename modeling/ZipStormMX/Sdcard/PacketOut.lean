/-
  The packet of a block that goes out to the card, from its start token to its end.

  The bytes are followed one at a time: while the shifter is busy with one, the next one is put in its
  place.  The crux: the end of the data is where the address comes round to zero (`at_end`), so the
  packet has the length of the FIFO, whatever the length of a block is set to (`sendsPacket_eq_iff`);
  and by then the CRC has long come to rest (`crc_settled`).
-/
import ZipStormMX.Sdcard.Packet

namespace ZipStormMX.Sdcard

namespace Sdspi

variable {c : SdspiCfg}

/-! ## From byte to byte -/

section Runs

variable {s : ℕ → Sdspi c.lgfifoln} {x : ℕ → SdspiIn} {f : Bool}
  {mem : Fin 4 → BitVec c.lgfifoln → BitVec 8} {a r t z : ℕ}

variable (h0 : AtPowerUp c (s 0)) (hstep : ∀ n, s (n + 1) = next c (s n) (x n))
  (h : BlockWrite c s f a r) (hund : Undisturbed c s x f mem a r) {e : ℕ} (he : ReadsFrom s a r e)

include h0 hstep h hund he

/-- What is taken from then on is of the packet, and nothing before. -/
theorem takenFromFifo_eq (het : e ≤ t) (hun : Unfinished s a t) :
    takenFromFifo c (s t) (x t) = taken c (s t) (x t) := by
  rw [takenFromFifo, (reads_on h0 hstep h hund he.later he.reads het hun).1, Bool.true_and]

omit h0 hstep h hund in
theorem sentBy_nil (hte : t ≤ e) : sentBy c s x a t = [] := by
  by_cases hat : a < t
  · exact sent_nil he.before (by omega)
  · rw [sentBy, show t - (a + 1) = 0 by omega]
    rfl

/-- The start token comes first. -/
theorem token_first (het : e ≤ t) (hun : Unfinished s a (t + 1)) :
    (sentBy c s x a t = [] ∧ (s t).llCmdDat = 0xfe ∧ (s t).preCmdState = false) ∨
      (sentBy c s x a t)[0]? = some 0xfe := by
  obtain ⟨hpos, har⟩ := h.order
  have hlater := he.later
  induction t, het using Nat.le_induction with
  | base => exact .inl ⟨sentBy_nil he (Nat.le_refl e), he.token, he.waits⟩
  | succ t het ih =>
    have hold := hun.mono (Nat.le_succ (t + 1))
    have htook := takenFromFifo_eq h0 hstep h hund he het (hold.mono (Nat.le_succ t))
    have hbusy := busy_run h0 hstep h hund (by omega) (hold.mono (Nat.le_succ t))
    rw [sentBy_succ (by omega), htook]
    rcases ih hold with ⟨hnil, hdat, hpre⟩ | hfirst
    · rw [hnil, List.nil_append]
      cases htaken : taken c (s t) (x t)
      · left
        refine ⟨rfl, ?_, ?_⟩
        · rw [hstep, next_llCmdDat, nextLlCmdDat, hpre, hbusy]
          exact hdat
        · rw [hstep, next_preCmdState]
          exact htaken
      · right
        rw [hdat]
        rfl
    · right
      rw [List.getElem?_append_left (List.getElem?_eq_some_iff.mp hfirst).1]
      exact hfirst

/-- What the packet has ready while its data goes out. -/
theorem sending_data (hat : a < t) (hun : Unfinished s a t) (p : BitVec c.lgfifoln) :
    ∃ u, (∀ k : Fin 4, lane u k = sentByte c (s a) f mem (4 * p.toNat + k.val)) ∧
      ((sentBy c s x a t).length ≤ 4 * 2 ^ c.lgfifoln → Sending c (s t) f p u (sentBy c s x a t)) ∧
      ∀ k : Fin 4, 4 * p.toNat + k.val + 1 < (sentBy c s x a t).length →
        (sentBy c s x a t)[4 * p.toNat + k.val + 1]? = some (lane u k) := by
  obtain ⟨hpos, har⟩ := h.order
  obtain ⟨u, hu⟩ := exists_lanes fun k => sentByte c (s a) f mem (4 * p.toNat + k.val)
  have hp := p.isLt
  refine ⟨u, hu, ?_⟩
  -- up to the response at least
  have hmax : ∀ v, a < v → v < max t (r + 1) → Unfinished s a (v + 1) := by
    intro v hav hv
    rcases Nat.lt_or_ge v t with hlt | hge
    · exact hun.mono hlt
    · exact unfinished_before h0 hstep h v hav (by omega)
  have hmoves : Moves c s f true a (max t (r + 1)) := by
    refine ⟨⟨hpos, by omega⟩, h.starts, h.fifo, h.direction, fun v hav hv => ?_⟩
    exact busy_run h0 hstep h hund hav ((hmax v hav hv).mono (Nat.le_succ v))
  have hreads : ∃ e, (∀ v, a < v → v < e → (s v).llFifoRd = false) ∧
      ∀ v, e ≤ v → v < max t (r + 1) → (s v).llFifoRd = true := by
    refine ⟨e, he.before, fun v hev hv => ?_⟩
    have hlater := he.later
    exact (reads_on h0 hstep h hund he.later he.reads hev
      ((hmax v (by omega) hv).mono (Nat.le_succ v))).1
  have hmem : ∀ v, a < v → v < max t (r + 1) → ∀ k : Fin 4, 0 < 4 * p.toNat + k.val →
      (fifo c (s v) f).mem k p = lane u k := by
    intro v hav hv k hk
    obtain ⟨hw, hl⟩ := (ofNat_parts (by omega : 4 * p.toNat + k.val < 4 * 2 ^ c.lgfifoln) p k).2 rfl
    rw [hund.memory v hav (hmax v hav hv), hu, sentByte, if_neg hk.ne', byteAt, hw, hl]
  have hfirst : p = 0 → (fifo c (s a) f).byte = lane u 0 := by
    rintro rfl
    rw [hu, sentByte, if_pos (by simp)]
  have hsending := hmoves.sending h0 hstep hreads hmem hfirst (t - (a + 1)) (by omega)
  rw [show a + 1 + (t - (a + 1)) = t by omega] at hsending
  exact hsending

/-- The bytes of the data, as the shifter has taken them. -/
theorem taken_data (hat : a < t) (hun : Unfinished s a t) {i : ℕ} (hi : i < 4 * 2 ^ c.lgfifoln)
    (hlt : i + 1 < (sentBy c s x a t).length) :
    (sentBy c s x a t)[i + 1]? = some (sentByte c (s a) f mem i) := by
  obtain ⟨p, k, rfl⟩ := exists_parts hi
  obtain ⟨u, hu, -, hdata⟩ := sending_data h0 hstep h hund he hat hun p
  rw [hdata k hlt, hu]

/-- The state of the packet, and the byte that it has ready. -/
theorem packet_ready (hat : a < t) (hun : Unfinished s a t)
    (hlen : (sentBy c s x a t).length ≤ 4 * 2 ^ c.lgfifoln) : (s t).llFifoPktState < 4 ∧
    ((sentBy c s x a t).length < 4 * 2 ^ c.lgfifoln →
      (s t).llFifoPktState = BitVec.ofNat 3 (min (sentBy c s x a t).length 2)) ∧
    (s t).fifoByte = sentByte c (s a) f mem ((sentBy c s x a t).length - 1) := by
  have hpos : 0 < 2 ^ c.lgfifoln := Nat.two_pow_pos _
  obtain ⟨p, k, hpk⟩ := exists_parts
    (by omega : (sentBy c s x a t).length - 1 < 4 * 2 ^ c.lgfifoln)
  obtain ⟨u, hu, hsending, -⟩ := sending_data h0 hstep h hund he hat hun p
  have hnow := hsending hlen
  refine ⟨hnow.packet_lt hlen, hnow.packet, ?_⟩
  rw [hnow.front k hpk.symm, hu, ← hpk]

/-- The bytes that have entered the CRC. -/
theorem entered_data (hat : a < t) (hun : Unfinished s a t)
    (hlen : (sentBy c s x a t).length ≤ 4 * 2 ^ c.lgfifoln) :
    Crc.entered (fun t => (s t).fifoRdCrcStb) (fun t => (s t).fifoByte) (a + 1) (t - (a + 1)) ++
        (if (s t).fifoRdCrcStb then [(s t).fifoByte] else []) =
      (List.range (max 1 (sentBy c s x a t).length)).map (sentByte c (s a) f mem) := by
  induction t, hat using Nat.le_induction with
  | base =>
    obtain ⟨-, hstb, hbyte⟩ := packet_first hstep h
    have hpos : a + 1 ≤ e := by
      have := he.far
      omega
    rw [sentBy_nil he hpos, Nat.sub_self, hstb, hbyte]
    rfl
  | succ t hat ih =>
    have hold := hun.mono (Nat.le_succ t)
    have hsucc := sentBy_succ (x := x) (s := s) hat
    have hbusy := busy_run h0 hstep h hund hat hold
    obtain ⟨n, rfl⟩ : ∃ n, t = a + 1 + n := ⟨t - (a + 1), by omega⟩
    rw [show a + 1 + n - (a + 1) = n by omega] at ih
    rw [show a + 1 + n + 1 - (a + 1) = n + 1 by omega, Crc.entered]
    cases htook : takenFromFifo c (s (a + 1 + n)) (x (a + 1 + n))
    · rw [htook, if_neg Bool.false_ne_true, List.append_nil] at hsucc
      rw [hsucc] at hlen ⊢
      rw [ih hold hlen, hstep, (nextPacket_quiet hbusy htook).2.2, if_neg Bool.false_ne_true,
        List.append_nil]
    · rw [htook, if_pos rfl] at hsucc
      have hone : (sentBy c s x a (a + 1 + n + 1)).length =
          (sentBy c s x a (a + 1 + n)).length + 1 := by
        rw [hsucc, List.length_append]
        rfl
      obtain ⟨-, hst, -⟩ := packet_ready h0 hstep h hund he hat hold (by omega)
      obtain ⟨-, -, hbyte⟩ := packet_ready h0 hstep h hund he (by omega) hun hlen
      have hstate := hst (by omega)
      rw [ih hold (by omega), hone]
      rw [hone, Nat.add_sub_cancel] at hbyte
      cases hl : (sentBy c s x a (a + 1 + n)).length with
      | zero =>
        rw [hl] at hstate
        have hno : (s (a + 1 + n + 1)).fifoRdCrcStb = false := by
          rw [hstep, next_fifoRdCrcStb, nextPacket, hbusy, hstate]
          rfl
        rw [hno, if_neg Bool.false_ne_true, List.append_nil]
        rfl
      | succ l =>
        have hyes : (s (a + 1 + n + 1)).fifoRdCrcStb = true := by
          rw [hstep, next_fifoRdCrcStb, nextPacket, hbusy, hstate, htook, hl]
          cases l with
          | zero => rfl
          | succ l =>
            rw [show min (l + 1 + 1) 2 = 2 by omega]
            rfl
        rw [hl] at hbyte
        have hsnoc : List.range (l + 1 + 1) = List.range (l + 1) ++ [l + 1] := List.range_succ
        rw [hyes, if_pos rfl, hbyte, Nat.max_eq_right (by omega), Nat.max_eq_right (by omega),
          hsnoc, List.map_append]
        rfl

/-! ### One byte after the other -/

/-- Byte `k` of the packet is taken, up to the last one of the data. -/
theorem take_at {k : ℕ} (hk : k < 4 * 2 ^ c.lgfifoln) : ∃ t, e ≤ t ∧ Unfinished s a (t + 1) ∧
    taken c (s t) (x t) = true ∧ (sentBy c s x a t).length = k := by
  have hfar := he.far
  have hlater := he.later
  induction k with
  | zero =>
    obtain ⟨t, het, hun, htaken, hno⟩ := next_take h0 hstep h hund he.later he.unfinished
    refine ⟨t, het, hun, htaken, ?_⟩
    rw [sentBy_quiet (by omega) het hno, sentBy_nil he (Nat.le_refl e)]
    rfl
  | succ k ih =>
    obtain ⟨m, hem, hun, htaken, hlen⟩ := ih (by omega)
    have hold := hun.mono (Nat.le_succ m)
    have htook := takenFromFifo_eq h0 hstep h hund he hem hold
    have hbusy := busy_run h0 hstep h hund (by omega) hold
    obtain ⟨hearly, -⟩ := packet_ready h0 hstep h hund he (by omega) hold (by omega)
    have hnext : Unfinished s a (m + 1 + 1) := hun.succ fun _ => by
      rw [hstep, nextPacket_data hbusy (by bv_omega)]
      exact hun m (by omega) (Nat.lt_succ_self m)
    obtain ⟨t, hmt, hunt, htaken', hno⟩ := next_take h0 hstep h hund (by omega) hnext
    refine ⟨t, by omega, hunt, htaken', ?_⟩
    rw [sentBy_quiet (by omega) hmt hno, sentBy_succ (by omega), htook, htaken, if_pos rfl,
      List.length_append, hlen]
    rfl

/-- Behind the last byte but one of the data, the address has come round. -/
theorem at_end {m : ℕ} (hem : e ≤ m) (hmt : m + 3 ≤ t) (hun : Unfinished s a t)
    (htaken : taken c (s m) (x m) = true)
    (hlen : (sentBy c s x a m).length + 1 = 4 * 2 ^ c.lgfifoln)
    (hno : ∀ u, m < u → u < t → taken c (s u) (x u) = false) : (s t).llFifoPktState = 3 := by
  have hfar := he.far
  have hlater := he.later
  have hquiet : ∀ u, m < u → u < t → takenFromFifo c (s u) (x u) = false := by
    intro u hmu hut
    rw [takenFromFifo, hno u hmu hut, Bool.and_false]
  have hbusy : ∀ u, a < u → u < t → (s u).rCmdBusy = true := fun u hau hut =>
    busy_run h0 hstep h hund hau (hun.mono hut.le)
  have hfull : ∀ u, m < u → u ≤ t → (sentBy c s x a u).length = 4 * 2 ^ c.lgfifoln := by
    intro u hmu hut
    rw [sentBy_quiet (by omega : a < m + 1) hmu fun v hv hvu => hno v (by omega) (by omega),
      sentBy_succ (by omega), takenFromFifo_eq h0 hstep h hund he hem (hun.mono (by omega)), htaken,
      if_pos rfl, List.length_append, ← hlen]
    rfl
  induction t, hmt using Nat.le_induction with
  | base =>
    -- two clocks behind the byte the address is zero
    obtain ⟨u, -, hsending, -⟩ := sending_data h0 hstep h hund he (by omega : a < m + 2)
      (hun.mono (by omega)) 0
    have hnow := hsending (hfull (m + 2) (by omega) (by omega)).le
    have haddr : (s (m + 2)).llFifoAddr = 0 := by
      rw [hnow.address (by rw [hstep]; exact hquiet (m + 1) (by omega) (by omega)),
        hfull (m + 2) (by omega) (by omega)]
      apply BitVec.eq_of_toNat_eq
      rw [BitVec.toNat_ofNat, Nat.pow_add, Nat.mul_comm]
      simp
    have hpkt := nextPacket_waited (hbusy (m + 2) (by omega) (by omega))
      (hquiet (m + 2) (by omega) (by omega))
      (hnow.packet_lt (hfull (m + 2) (by omega) (by omega)).le)
    rw [hstep, next_llFifoPktState, hpkt, haddr]
    rcases hnow.last (hfull (m + 2) (by omega) (by omega)) with hst | hst
    · rw [hst]
      rfl
    · rw [hst]
      rfl
  | succ t hmt ih =>
    have hst := ih (hun.mono (Nat.le_succ t)) (fun u hmu hut => hno u hmu (by omega))
      (fun u hmu hut => hquiet u hmu (by omega)) (fun u hau hut => hbusy u hau (by omega))
      (fun u hmu hut => hfull u hmu (by omega))
    rw [hstep, next_llFifoPktState, nextPacket_waited (hbusy t (by omega) (Nat.lt_succ_self t))
      (hquiet t (by omega) (Nat.lt_succ_self t)) (by rw [hst]; decide), hst]
    rfl

/-! ### The CRC -/

/-- A byte enters the CRC with the command, and behind a byte of the packet. -/
theorem strobe_taken (hat : a < t) (hun : Unfinished s a t) (hstb : (s t).fifoRdCrcStb = true) :
    t = a + 1 ∨ (e < t ∧ taken c (s (t - 1)) (x (t - 1)) = true) := by
  have hfar := he.far
  rcases Nat.lt_or_eq_of_le (Nat.succ_le_of_lt hat) with hlt | heq
  · right
    obtain ⟨u, rfl⟩ : ∃ u, t = u + 1 := ⟨t - 1, by omega⟩
    have htook : takenFromFifo c (s u) (x u) = true := by
      by_contra hno
      rw [Bool.not_eq_true] at hno
      rw [hstep, (nextPacket_quiet (busy_run h0 hstep h hund (by omega)
        (hun.mono (Nat.le_succ u))) hno).2.2] at hstb
      exact absurd hstb (by decide)
    rw [takenFromFifo, Bool.and_eq_true] at htook
    refine ⟨?_, htook.2⟩
    by_contra hle
    rw [he.before u (by omega) (by omega)] at htook
    exact absurd htook.1 (by decide)
  · exact .inl heq.symm

theorem strobes_spaced (hun : Unfinished s a t) :
    Crc.Spaced (fun t => (s t).fifoRdCrcStb) (a + 1) t := by
  intro u v hau huv hvt hu hv
  have hfar := he.far
  rcases strobe_taken h0 hstep h hund he (by omega) (hun.mono hvt.le) hv with rfl | ⟨hev, hv'⟩
  · omega
  · rcases strobe_taken h0 hstep h hund he (by omega) (hun.mono (by omega)) hu with rfl | ⟨heu, hu'⟩
    · omega
    · have := take_far h0 hstep h hund (by omega) (by omega) (hun.mono (by omega)) hu' hv'
      omega

/-- **The CRC of the data**, from the clock on which the last byte of it is taken. -/
theorem crc_settled {m : ℕ} (hem : e ≤ m) (hmt : m ≤ t) (hun : Unfinished s a t)
    (htaken : taken c (s m) (x m) = true)
    (hlen : (sentBy c s x a m).length = 4 * 2 ^ c.lgfifoln) (hst : (s m).llFifoPktState = 3) :
    (s t).fifoRdCrcReg = Crc.crc blockTaps
      ((List.range (4 * 2 ^ c.lgfifoln)).map (sentByte c (s a) f mem)) := by
  have hfar := he.far
  have hpos : 0 < 2 ^ c.lgfifoln := Nat.two_pow_pos _
  have hlate : ∀ u, m ≤ u → u ≤ t → 3 ≤ (s u).llFifoPktState := by
    intro u hmu
    induction u, hmu using Nat.le_induction with
    | base =>
      intro _
      rw [hst]
      decide
    | succ u hmu ih =>
      intro hut
      rw [hstep]
      exact (nextPacket_late (busy_run h0 hstep h hund (by omega) (hun.mono (by omega)))
        (ih (by omega))).1
  have hnone : ∀ u, m ≤ u → u ≤ t → (s u).fifoRdCrcStb = false := by
    intro u hmu hut
    rcases Nat.lt_or_eq_of_le hmu with hlt | rfl
    · rw [show u = u - 1 + 1 by omega, hstep]
      exact (nextPacket_late (busy_run h0 hstep h hund (by omega) (hun.mono (by omega)))
        (hlate (u - 1) (by omega) (by omega))).2
    · rw [Bool.eq_false_iff]
      intro hstb
      rcases strobe_taken h0 hstep h hund he (by omega) (hun.mono hut) hstb with heq | ⟨hlt, htaken'⟩
      · omega
      · have := take_far h0 hstep h hund (by omega) (by omega) (hun.mono hut) htaken' htaken
        omega
  have hentered : ∀ u, m ≤ u → u ≤ t →
      Crc.entered (fun t => (s t).fifoRdCrcStb) (fun t => (s t).fifoByte) (a + 1) (u - (a + 1)) =
        (List.range (4 * 2 ^ c.lgfifoln)).map (sentByte c (s a) f mem) := by
    intro u hmu
    induction u, hmu using Nat.le_induction with
    | base =>
      intro hle
      have hall := entered_data h0 hstep h hund he (by omega : a < m) (hun.mono hle) hlen.le
      rw [hnone m (Nat.le_refl m) hle, if_neg Bool.false_ne_true, List.append_nil, hlen,
        Nat.max_eq_right (by omega)] at hall
      exact hall
    | succ u hmu ih =>
      intro hut
      rw [show u + 1 - (a + 1) = u - (a + 1) + 1 by omega, Crc.entered, ih (by omega),
        show a + 1 + (u - (a + 1)) = u by omega, hnone u hmu (by omega), if_neg Bool.false_ne_true,
        List.append_nil]
  have hserial := send_serial hstep (free_of_starts h.starts).1 fun u hau hut =>
    busy_run h0 hstep h hund hau (hun.mono hut.le)
  have hsettled := hserial.settled (strobes_spaced h0 hstep h hund he hun) (n := t - (a + 1))
    (by omega) fun u hau hut hstb => by
      have hum : u < m := by
        by_contra hle
        rw [hnone u (by omega) (by omega)] at hstb
        exact absurd hstb (by decide)
      rcases strobe_taken h0 hstep h hund he hau (hun.mono (by omega)) hstb with rfl | ⟨hlt, htaken'⟩
      · omega
      · have := take_far h0 hstep h hund (by omega) (by omega) (hun.mono hmt) htaken' htaken
        omega
  rw [hentered t hmt (Nat.le_refl t), show a + 1 + (t - (a + 1)) = t by omega] at hsettled
  exact hsettled

/-! ### The end -/

/-- The shifter takes the byte of the CRC that is ready. -/
theorem Closing.taken {m : ℕ} {q : BitVec 3} {v : BitVec 8} (hclosing : Closing (s m) q v)
    (hem : e ≤ m) (hmt : m ≤ t) (hun : Unfinished s a (t + 1))
    (hno : ∀ u, m ≤ u → u < t → taken c (s u) (x u) = false)
    (htaken : Sdspi.taken c (s t) (x t) = true) :
    (s t).llFifoPktState = q ∧ (s t).llCmdDat = v := by
  have hfar := he.far
  have hrun : Closing (s t) q v := by
    clear htaken
    induction t, hmt using Nat.le_induction with
    | base => exact hclosing
    | succ t hmt ih =>
      have hold := hun.mono (Nat.le_succ (t + 1))
      obtain ⟨hrd, hst⟩ := reads_on h0 hstep h hund he.later he.reads (by omega : e ≤ t)
        (hold.mono (Nat.le_succ t))
      rw [hstep]
      refine (ih hold fun u hmu hut => hno u hmu (by omega)).waited ?_ hrd hst
        (hold t (by omega) (Nat.lt_succ_self t)) ?_
      · exact busy_run h0 hstep h hund (by omega) (hold.mono (Nat.le_succ t))
      · rw [takenFromFifo, hno t hmt (Nat.lt_succ_self t), Bool.and_false]
  have hpre : (s t).preCmdState = false := by
    rw [show t = t - 1 + 1 by omega, hstep, next_preCmdState, Bool.eq_false_iff]
    intro hyes
    have := take_far h0 hstep h hund (by omega) (by omega : t - 1 < t) (hun.mono (Nat.le_succ t))
      hyes htaken
    omega
  exact ⟨hrun.state, hrun.data hpre⟩

/-- The token and the data, once they have gone out. -/
theorem sentBy_data (het : e ≤ t) (hun : Unfinished s a (t + 1))
    (hlen : (sentBy c s x a t).length = 4 * 2 ^ c.lgfifoln + 1) : sentBy c s x a t =
      0xfe :: (List.range (4 * 2 ^ c.lgfifoln)).map (sentByte c (s a) f mem) := by
  have hfar := he.far
  apply List.ext_getElem?
  intro i
  cases i with
  | zero =>
    rcases token_first h0 hstep h hund he het hun with ⟨hnil, -⟩ | hfirst
    · rw [hnil] at hlen
      exact absurd hlen (by simp)
    · exact hfirst
  | succ i =>
    rw [List.getElem?_cons_succ, List.getElem?_map]
    rcases Nat.lt_or_ge i (4 * 2 ^ c.lgfifoln) with hlt | hge
    · rw [taken_data h0 hstep h hund he (by omega) (hun.mono (Nat.le_succ t)) hlt (by omega),
        List.getElem?_range hlt]
      rfl
    · rw [List.getElem?_eq_none (by omega),
        List.getElem?_eq_none (by rw [List.length_range]; exact hge)]
      rfl

/-- **The packet goes out.** -/
theorem packet_out : ∃ z, a < z ∧ Unfinished s a z ∧ (s z).llFifoRdComplete = true ∧
    sentBy c s x a z =
      packet ((List.range (4 * 2 ^ c.lgfifoln)).map (sentByte c (s a) f mem)) := by
  have hfar := he.far
  have hlater := he.later
  have hpos : 0 < 2 ^ c.lgfifoln := Nat.two_pow_pos _
  have htook : ∀ {m}, e ≤ m → Unfinished s a (m + 1) → taken c (s m) (x m) = true →
      (s m).rCmdBusy = true ∧ takenFromFifo c (s m) (x m) = true := by
    intro m hem hun htaken
    have hold := hun.mono (Nat.le_succ m)
    exact ⟨busy_run h0 hstep h hund (by omega) hold,
      (takenFromFifo_eq h0 hstep h hund he hem hold).trans htaken⟩
  have hgoes : ∀ {m}, e ≤ m → Unfinished s a (m + 1) → taken c (s m) (x m) = true →
      (s m).llFifoPktState < 5 → Unfinished s a (m + 1 + 1) := by
    intro m hem hun htaken hst
    refine hun.succ fun _ => ?_
    rw [hstep, nextPacket_data (htook hem hun htaken).1 hst]
    exact hun m (by omega) (Nat.lt_succ_self m)
  have hone : ∀ {m n}, e ≤ m → Unfinished s a (m + 1) → taken c (s m) (x m) = true → m + 1 ≤ n →
      (∀ u, m + 1 ≤ u → u < n → taken c (s u) (x u) = false) →
      sentBy c s x a n = sentBy c s x a m ++ [(s m).llCmdDat] := by
    intro m n hem hun htaken hmn hno
    rw [sentBy_quiet (by omega) hmn hno, sentBy_succ (by omega), (htook hem hun htaken).2, if_pos rfl]
  -- the last byte of the data but one
  obtain ⟨l, hel, hunl, hl, hlenl⟩ :=
    take_at h0 hstep h hund he (by omega : 4 * 2 ^ c.lgfifoln - 1 < 4 * 2 ^ c.lgfifoln)
  obtain ⟨hearly, -⟩ :=
    packet_ready h0 hstep h hund he (by omega) (hunl.mono (Nat.le_succ l)) (by omega)
  -- the last one
  obtain ⟨m, hlm, hunm, hm, hnom⟩ :=
    next_take h0 hstep h hund (by omega) (hgoes hel hunl hl (by bv_omega))
  have hlenm : (sentBy c s x a m).length = 4 * 2 ^ c.lgfifoln := by
    rw [hone hel hunl hl hlm hnom, List.length_append, hlenl]
    show 4 * 2 ^ c.lgfifoln - 1 + 1 = _
    omega
  have hfarm := take_far h0 hstep h hund (by omega) hlm (hunm.mono (Nat.le_succ m)) hl hm
  have hthree := at_end h0 hstep h hund he hel (by omega) (hunm.mono (Nat.le_succ m)) hl (by omega)
    hnom
  -- the first byte of the CRC
  have hnextm := hgoes (by omega) hunm hm (by rw [hthree]; decide)
  obtain ⟨n, hmn, hunn, hn, hnon⟩ := next_take h0 hstep h hund (by omega) hnextm
  have hfirst := closing_first (htook (by omega) hunm hm).1 hthree (htook (by omega) hunm hm).2
  rw [← hstep, crc_settled h0 hstep h hund he (by omega) (Nat.le_refl m) (hunm.mono (Nat.le_succ m))
    hm hlenm hthree] at hfirst
  obtain ⟨hfour, hhigh⟩ :=
    hfirst.taken h0 hstep h hund he (by omega) hmn hunn hnon hn
  -- the second one
  have hnextn := hgoes (by omega) hunn hn (by rw [hfour]; decide)
  obtain ⟨o, hno, huno, ho, hnoo⟩ := next_take h0 hstep h hund (by omega) hnextn
  have hsecond := closing_second (htook (by omega) hunn hn).1 hfour (htook (by omega) hunn hn).2
  rw [← hstep, crc_settled h0 hstep h hund he (by omega) (by omega : m ≤ n)
    (hunn.mono (Nat.le_succ n)) hm hlenm hthree] at hsecond
  obtain ⟨hfive, hlow⟩ := hsecond.taken h0 hstep h hund he (by omega) hno huno hnoo ho
  -- and all of them together
  have hdata := sentBy_data h0 hstep h hund he (by omega : e ≤ n) hunn (by
    rw [hone (by omega) hunm hm hmn hnon, List.length_append, hlenm]
    rfl)
  refine ⟨o + 1, by omega, huno, ?_, ?_⟩
  · rw [hstep]
    exact completes (htook (by omega) huno ho).1 hfive (htook (by omega) huno ho).2
  · rw [hone (by omega) huno ho (Nat.le_refl _) fun u hou huo => absurd hou (by omega),
      hone (by omega) hunn hn hno hnoo, hdata, hhigh, hlow, packet]
    simp

omit he

/-- **What the packet is made of**: as many bytes as the FIFO has, whatever the length of a block. -/
theorem sendsPacket_eq_iff (bytes : List (BitVec 8)) : SendsPacket c s x a r bytes ↔
    bytes = (List.range (4 * 2 ^ c.lgfifoln)).map (sentByte c (s a) f mem) := by
  obtain ⟨e, he⟩ := reads_from h0 hstep h hund
  obtain ⟨z, haz, hun, hdone, hsent⟩ := packet_out h0 hstep h hund he
  constructor
  · rintro ⟨-, n, hun', hdone', hsent'⟩
    have heq : a + 1 + n = z := by
      rcases Nat.lt_trichotomy (a + 1 + n) z with hlt | heq | hgt
      · rw [hun (a + 1 + n) (by omega) hlt] at hdone'
        exact absurd hdone' (by decide)
      · exact heq
      · rw [hun' z haz hgt] at hdone
        exact absurd hdone (by decide)
    rw [sentBy, ← heq, show a + 1 + n - (a + 1) = n by omega, hsent'] at hsent
    exact packet_injective hsent
  · rintro rfl
    refine ⟨fun t hat htr => (h.unanswered h0 hstep t hat htr).reads, z - (a + 1), ?_, ?_, hsent⟩
    · rw [show a + 1 + (z - (a + 1)) = z by omega]
      exact hun
    · rw [show a + 1 + (z - (a + 1)) = z by omega]
      exact hdone

/-- **When a block is sent as it should be**: when it has the length of the FIFO, and the port of the
    FIFO shows its first byte as the command starts. -/
theorem sends_block_iff :
    SendsPacket c s x a r (front mem (4 * 2 ^ (s a).rLgblklen.toNat)) ↔
      (s a).rLgblklen.toNat = c.lgfifoln ∧ (fifo c (s a) f).byte = mem 0 0 := by
  rw [sendsPacket_eq_iff h0 hstep h hund]
  have hfirst := byteAt_zero mem
  have hpos : 0 < 2 ^ c.lgfifoln := Nat.two_pow_pos _
  constructor
  · intro heq
    have hlen := congrArg List.length heq
    rw [length_front, List.length_map, List.length_range] at hlen
    have hpow : 2 ^ (s a).rLgblklen.toNat = 2 ^ c.lgfifoln := by omega
    have hsame := Nat.pow_right_injective (Nat.le_refl 2) hpow
    refine ⟨hsame, ?_⟩
    have hhead := congrArg (fun bytes => bytes[0]?) heq
    rw [hsame, front] at hhead
    simp only [List.getElem?_map, List.getElem?_range (by omega : 0 < 4 * 2 ^ c.lgfifoln)] at hhead
    have hbyte := Option.some.inj hhead
    rw [hfirst, sentByte, if_pos rfl] at hbyte
    exact hbyte.symm
  · rintro ⟨hsame, hbyte⟩
    rw [hsame, front]
    refine List.map_congr_left fun n _ => ?_
    cases n with
    | zero => rw [hfirst, sentByte, if_pos rfl, hbyte]
    | succ n => rw [sentByte, if_neg (Nat.succ_ne_zero n)]

end Runs

/-! ### Two runs -/

section Examples

variable {s : ℕ → Sdspi c.lgfifoln} {x : ℕ → SdspiIn} {f : Bool} {a r z : ℕ}

/-- A run that is not disturbed before clock `z`, on which the packet is complete. -/
theorem undisturbed_until (hstep : ∀ n, s (n + 1) = next c (s n) (x n)) (haz : a < z)
    (hdone : (s z).llFifoRdComplete = true) (hgrant : ∀ n, (x n).iBusGrant = true)
    (hwr : ∀ t < z, (fifo c (s t) f).wr = false)
    (hcalm : ∀ t < z, r ≤ t → (s t).rWatchdogErr = false ∧
      (llOutStb c (s t) = true → (llOutDat c (s t)).getLsbD 4 = true)) :
    Undisturbed c s x f (fifo c (s 0) f).mem a r := by
  have hbefore : ∀ t, Unfinished s a (t + 1) → t < z := by
    intro t hun
    by_contra hle
    rw [hun z haz (by omega)] at hdone
    exact absurd hdone (by decide)
  have hmem : ∀ t, t ≤ z → (fifo c (s t) f).mem = (fifo c (s 0) f).mem := by
    intro t
    induction t with
    | zero => exact fun _ => rfl
    | succ t ih =>
      intro htz
      rw [← ih (by omega), hstep, fifo_next]
      funext k p
      show (fifo c (s t) f).nextMem k p = _
      rw [SdFifo.nextMem, hwr t (by omega)]
      rfl
  refine ⟨fun t _ hun => hmem t (hbefore t hun).le, fun t _ _ => ?_, fun t hrt hun => ?_,
    fun t hrt hun => ?_⟩
  · show (!c.optSpiArbitration || (x t).iBusGrant) = true
    rw [hgrant, Bool.or_true]
  · exact (hcalm t (hbefore t hun) hrt).1
  · exact (hcalm t (hbefore t hun) hrt).2

end Examples

/-- A FIFO of eight bytes, and no start up sequence. -/
def smallCfg : SdspiCfg := ⟨⟨0, false⟩, 1, Nat.one_pos, 7, 0⟩

/-- A command to write a block.  The card's answer is `0x00`. -/
def blockAnswer (n : ℕ) : SdspiIn where
  iWbStb := n == 0
  iWbWe := true
  iWbAddr := cmdAddress
  iWbData := 0x0c58
  iMiso := !(decide (122 ≤ n) && decide (n < 139))
  iBusGrant := true

def blockRun : ℕ → Sdspi 1 := Clocked.run (next smallCfg) (poweredUp smallCfg) blockAnswer

theorem blockRun_write : BlockWrite smallCfg blockRun false 1 140 where
  order := by decide
  starts := by decide +kernel
  fifo := by decide +kernel
  direction := by decide +kernel
  busy := by
    have hbusy : ∀ t < 141, 1 < t → (blockRun t).rCmdBusy = true := by decide +kernel
    exact fun t h1 ht => hbusy t ht h1
  expects := by decide +kernel
  uses := by decide +kernel
  response := by decide +kernel
  first := by
    have hfirst : ∀ t < 140, firstResponse smallCfg (blockRun t) = false := by decide +kernel
    exact fun t _ ht => hfirst t ht

theorem blockRun_undisturbed :
    Undisturbed smallCfg blockRun blockAnswer false (fun _ _ => 0) 1 140 := by
  have hcalm : ∀ t < 344, (blockRun t).fifoA.wr = false ∧ (140 ≤ t →
      (blockRun t).rWatchdogErr = false ∧ (llOutStb smallCfg (blockRun t) = true →
        (llOutDat smallCfg (blockRun t)).getLsbD 4 = true)) := by
    decide +kernel
  exact undisturbed_until (c := smallCfg) (z := 344) (fun _ => rfl) (by decide) (by decide +kernel)
    (fun _ => rfl) (fun t ht => (hcalm t ht).1) fun t ht => (hcalm t ht).2

theorem sends_block_iff_blockRun : SendsPacket smallCfg blockRun blockAnswer 1 140
    (front (fun _ _ => 0 : Fin 4 → BitVec smallCfg.lgfifoln → BitVec 8)
      (4 * 2 ^ (blockRun 1).rLgblklen.toNat)) :=
  (sends_block_iff (c := smallCfg) (atPowerUp_poweredUp smallCfg) (fun _ => rfl) blockRun_write
    blockRun_undisturbed).mpr ⟨by decide +kernel, by decide +kernel⟩

/-- The length of a block is set to eight bytes in front of the command, and the FIFO has sixteen. -/
def shortCfg : SdspiCfg := ⟨⟨0, false⟩, 2, Nat.two_pos, 7, 0⟩

def shortAnswer (n : ℕ) : SdspiIn where
  iWbStb := decide (n < 3)
  iWbWe := true
  iWbAddr := if n = 0 then datAddress else cmdAddress
  iWbData := if n = 0 then 0x100 else if n = 1 then 0xc0 else 0x0c58
  iMiso := !(decide (124 ≤ n) && decide (n < 141))
  iBusGrant := true

def shortRun : ℕ → Sdspi 2 := Clocked.run (next shortCfg) (poweredUp shortCfg) shortAnswer

theorem shortRun_write : BlockWrite shortCfg shortRun false 3 142 where
  order := by decide
  starts := by decide +kernel
  fifo := by decide +kernel
  direction := by decide +kernel
  busy := by
    have hbusy : ∀ t < 143, 3 < t → (shortRun t).rCmdBusy = true := by decide +kernel
    exact fun t h1 ht => hbusy t ht h1
  expects := by decide +kernel
  uses := by decide +kernel
  response := by decide +kernel
  first := by
    have hfirst : ∀ t < 142, firstResponse shortCfg (shortRun t) = false := by decide +kernel
    exact fun t _ ht => hfirst t ht

theorem shortRun_undisturbed :
    Undisturbed shortCfg shortRun shortAnswer false (fun _ _ => 0) 3 142 := by
  have hcalm : ∀ t < 482, (shortRun t).fifoA.wr = false ∧ (142 ≤ t →
      (shortRun t).rWatchdogErr = false ∧ (llOutStb shortCfg (shortRun t) = true →
        (llOutDat shortCfg (shortRun t)).getLsbD 4 = true)) := by
    decide +kernel
  exact undisturbed_until (c := shortCfg) (z := 482) (fun _ => rfl) (by decide) (by decide +kernel)
    (fun _ => rfl) (fun t ht => (hcalm t ht).1) fun t ht => (hcalm t ht).2

/-- A block that is shorter than the FIFO is not sent. -/
theorem shortRun_long : ¬ ∀ (c : SdspiCfg) (s : ℕ → Sdspi c.lgfifoln) (x : ℕ → SdspiIn) (f : Bool)
    (mem : Fin 4 → BitVec c.lgfifoln → BitVec 8) (a r : ℕ), AtPowerUp c (s 0) →
    (∀ n, s (n + 1) = next c (s n) (x n)) → BlockWrite c s f a r → Undisturbed c s x f mem a r →
    1 ≤ (s a).rLgblklen.toNat → (s a).rLgblklen.toNat ≤ c.lgfifoln →
    SendsPacket c s x a r (front mem (4 * 2 ^ (s a).rLgblklen.toNat)) := by
  intro hall
  have hlength : (shortRun 3).rLgblklen = 1 := by decide +kernel
  have hsends := hall shortCfg shortRun shortAnswer false (fun _ _ => 0) 3 142
    (atPowerUp_poweredUp shortCfg) (fun _ => rfl) shortRun_write shortRun_undisturbed
    (by rw [hlength]; decide) (by rw [hlength]; decide)
  have heq := (sendsPacket_eq_iff (c := shortCfg) (atPowerUp_poweredUp shortCfg) (fun _ => rfl)
    shortRun_write shortRun_undisturbed _).mp hsends
  have hlen := congrArg List.length heq
  rw [length_front, List.length_map, List.length_range, hlength] at hlen
  exact absurd hlen (by decide)

end Sdspi

end ZipStormMX.Sdcard
