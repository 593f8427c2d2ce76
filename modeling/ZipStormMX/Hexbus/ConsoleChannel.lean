/-
  The two channels of `hbconsole`.

  Bytes with the top bit clear are console traffic.  `hbdechex` looks at the other seven bits only,
  so a console byte reaches the command being assembled as a byte of the debugging bus would: a
  console `T` resets the bus, and a digit goes into the word.  What follows is when it does not
  matter: a console byte is without effect on the bus if it neither resets it nor completes a
  command, and leaves the command being assembled as it is.
-/
import ZipStormMX.Hexbus.Hbconsole

namespace ZipStormMX.Hexbus

/-! ## The channels -/

namespace Pins

/-- The byte of the debugging bus on this clock: one with bit 7 set. -/
def debugByte (i : Pins) : Option (BitVec 8) :=
  if i.iRxStb && i.iRxByte.getLsbD 7 then some i.iRxByte else none

/-- The character of the console on this clock: a byte with bit 7 clear. -/
def consoleChar (i : Pins) : Option (BitVec 7) :=
  if i.iRxStb && !i.iRxByte.getLsbD 7 then some (i.iRxByte.extractLsb' 0 7) else none

end Pins

/-- The same bytes of the debugging bus, on the same clocks, and the same Wishbone responses. -/
def SameDebug (x y : ℕ → Pins) : Prop :=
  ∀ n, (x n).debugByte = (y n).debugByte ∧ (x n).wb = (y n).wb

namespace Hbconsole

/-- The state at clock `n`, from power on. -/
def stateAt (x : ℕ → Pins) (n : ℕ) : Hbconsole := Clocked.run next init x n

/-- The requests and resets issued to the bus before clock `n`. -/
def issued (x : ℕ → Pins) (n : ℕ) : List BusEvent := Clocked.events next busEvents init x n

/-- The same sequence of requests and resets, whenever they are issued. -/
def SameSequence (x y : ℕ → Pins) : Prop :=
  (∀ m, ∃ n, issued x m <+: issued y n) ∧ ∀ m, ∃ n, issued y m <+: issued x n

end Hbconsole

/-- A character that does nothing to the bus, when `p` is the command being assembled: the idle
    code `7f`, or any but the reset that leaves `p` as it is and completes nothing. -/
def Unaffected (p : Option BusCmd) (ch : BitVec 7) : Prop :=
  ch ≠ 0x54#7 ∧ (ch = 0x7f#7 ∨ assemble p (dhCode ch) = p ∧ completed p (dhCode ch) = none)

instance (p : Option BusCmd) (ch : BitVec 7) : Decidable (Unaffected p ch) :=
  inferInstanceAs (Decidable (_ ∧ _))

/-- Every console character of the run leaves the command being assembled alone.  It is decoded on
    the clock after the one it is received on. -/
def Harmless (x : ℕ → Pins) : Prop :=
  ∀ n ch, (x n).consoleChar = some ch → Unaffected (Hbconsole.stateAt x (n + 1)).packxi.pending ch

/-! ## Agreement of two consoles -/

/-- `hbexec` in two consoles, up to what no request shows: the data of a read. -/
structure Hbexec.Agree (s t : Hbexec) : Prop where
  active : s.oWbStb = true → s.oWbCyc = true
  cyc : s.oWbCyc = t.oWbCyc
  stb : s.oWbStb = t.oWbStb
  we : s.oWbWe = t.oWbWe
  addr : s.oWbAddr = t.oWbAddr
  inc : s.inc = t.inc
  data : s.oWbStb = true → s.oWbWe = true → s.oWbData = t.oWbData

/-- The path from the decoder to the bus in two consoles, up to what no request shows. -/
structure Hbconsole.Agree (s t : Hbconsole) : Prop where
  pending : s.packxi.pending = t.packxi.pending
  issued : s.packxi.issued = t.packxi.issued
  exec : s.wbexec.Agree t.wbexec

namespace Hbexec

/-- The strobe is only ever up inside a bus cycle. -/
theorem active_next {s : Hbexec} (h : s.oWbStb = true → s.oWbCyc = true) {iReset iCmdStb : Bool}
    {iCmdWord : BitVec 34} {r : WbReply} :
    (Hbexec.next s iReset iCmdStb iCmdWord r).oWbStb = true →
      (Hbexec.next s iReset iCmdStb iCmdWord r).oWbCyc = true := by
  simp only [next_oWbStb, next_oWbCyc, nextStb, nextCyc]
  cases hs : s.oWbStb <;> cases hst : r.iWbStall <;> simp_all

/-- An address that is taken has been offered. -/
theorem taken {s : Hbexec} {iCmdStb : Bool} {iCmdWord : BitVec 34}
    (h : setAddr s iCmdStb iCmdWord = true) : iCmdAddr iCmdStb iCmdWord = true := by
  simp only [setAddr, Bool.and_eq_true] at h
  exact h.1

theorem Agree.next {s t : Hbexec} (h : s.Agree t) (iReset : Bool) {a b : Bool}
    {v w : BitVec 34} (hc : command a v = command b w) (r : WbReply) :
    (Hbexec.next s iReset a v r).Agree (Hbexec.next t iReset b w r) := by
  -- the decoded command lines agree, and with them the words they come with
  have hlines : iCmdBus a v = iCmdBus b w ∧ iCmdWr a v = iCmdWr b w ∧
      iCmdAddr a v = iCmdAddr b w ∧
      (iCmdWr a v = true ∨ iCmdAddr a v = true → v.extractLsb' 0 32 = w.extractLsb' 0 32) := by
    rcases command_cases a v with h1 | h1 | h1 | h1 <;>
      rcases command_cases b w with h2 | h2 | h2 | h2 <;>
      · obtain ⟨ha, ha1, ha2, ha3⟩ := h1
        obtain ⟨hb, hb1, hb2, hb3⟩ := h2
        rw [ha, hb] at hc
        simp_all
  obtain ⟨hbus, hwr, haddr, hword⟩ := hlines
  have hset : setAddr s a v = setAddr t b w := by
    simp only [setAddr, oCmdBusy, haddr, h.cyc]
  refine ⟨?_, ?_, ?_, ?_, ?_, ?_, ?_⟩
  · exact active_next h.active
  · simp only [next_oWbCyc, nextCyc, h.cyc, h.stb, hbus]
  · simp only [next_oWbStb, nextStb, h.cyc, h.stb, hbus]
  · simp only [next_oWbWe, h.cyc, h.we, hwr]
  · simp only [next_oWbAddr, nextAddr, ← hset]
    by_cases hs : setAddr s a v = true
    · obtain ⟨hv1, hv2, -⟩ := addr_bits v
      obtain ⟨hw1, hw2, -⟩ := addr_bits w
      simp only [hs, if_true, hv1, hv2, hw1, hw2, hword (Or.inr (taken hs)), h.addr]
    · simp only [hs, Bool.false_eq_true, if_false, h.addr, h.stb, h.inc]
  · simp only [next_inc, ← hset]
    by_cases hs : setAddr s a v = true
    · obtain ⟨-, -, hv3⟩ := addr_bits v
      obtain ⟨-, -, hw3⟩ := addr_bits w
      simp only [hs, if_true, hv3, hw3, hword (Or.inr (taken hs))]
    · simp only [hs, Bool.false_eq_true, if_false, h.inc]
  · -- the data of a write: stalled, it stays; otherwise the request is a new one
    intro hstb hwe
    simp only [next_oWbData, next_oWbStb, next_oWbWe, nextStb] at hstb hwe ⊢
    rw [← h.stb]
    by_cases hheld : s.oWbStb = true
    · have hst : r.iWbStall = true := by
        by_contra hns
        rw [hheld] at hstb
        simp [hns] at hstb
      simp only [h.active hheld, Bool.not_true, Bool.false_eq_true, if_false] at hwe
      simp only [hheld, hst, Bool.not_true, Bool.or_false, Bool.false_eq_true, if_false]
      exact h.data hheld hwe
    · simp only [hheld, Bool.not_false, Bool.true_or, if_true]
      have hidle : s.oWbCyc = false := by
        by_contra hcyc
        simp [hheld, hcyc] at hstb
      simp only [hidle, Bool.not_false, if_true] at hwe
      exact hword (Or.inl hwe)

end Hbexec

/-! ## One clock -/

namespace Hbconsole

variable {s t : Hbconsole} {i j : Pins}

/-- Two consoles that agree, and whose decoders have done the same to the command being assembled,
    agree on the next clock. -/
theorem Agree.next (h : s.Agree t) (hr : wReset s = wReset t) (hwb : i.wb = j.wb)
    (hp : (Hbconsole.next s i).packxi.pending = (Hbconsole.next t j).packxi.pending)
    (hi : (Hbconsole.next s i).packxi.issued = (Hbconsole.next t j).packxi.issued) :
    (Hbconsole.next s i).Agree (Hbconsole.next t j) := by
  refine ⟨hp, hi, ?_⟩
  have hexec := h.exec.next (wReset s) (a := s.packxi.oPckStb) (b := t.packxi.oPckStb)
    (v := s.packxi.oPckWord) (w := t.packxi.oPckWord) h.issued i.wb
  rw [next_wbexec, next_wbexec, ← hr, ← hwb]
  exact hexec

/-- Two consoles that agree issue the same. -/
theorem Agree.busEvents (h : s.Agree t) (hr : wReset s = wReset t) (hwb : i.wb = j.wb) :
    Hbconsole.busEvents s i = Hbconsole.busEvents t j := by
  have hev : (s.wbexec.oWbStb && !i.wb.iWbStall) = true →
      (if s.wbexec.oWbWe then BusEvent.write s.wbexec.oWbAddr s.wbexec.oWbData
        else BusEvent.read s.wbexec.oWbAddr) =
      (if t.wbexec.oWbWe then BusEvent.write t.wbexec.oWbAddr t.wbexec.oWbData
        else BusEvent.read t.wbexec.oWbAddr) := by
    intro hgo
    rw [Bool.and_eq_true] at hgo
    rw [← h.exec.addr, ← h.exec.we]
    by_cases hwe : s.wbexec.oWbWe = true
    · rw [if_pos hwe, if_pos hwe, h.exec.data hgo.1 hwe]
    · rw [if_neg hwe, if_neg hwe]
  unfold Hbconsole.busEvents
  rw [← hr, ← hwb, ← h.exec.stb]
  by_cases hgo : (s.wbexec.oWbStb && !i.wb.iWbStall) = true
  · rw [if_pos hgo, if_pos hgo, hev hgo]
  · rw [if_neg hgo, if_neg hgo]

/-- What the decoder holds when no byte of the debugging bus has come in: nothing that changes the
    command being assembled. -/
def Idle (s : Hbconsole) : Prop :=
  wReset s = false ∧ ∀ i, (next s i).packxi.pending = s.packxi.pending ∧
    (next s i).packxi.issued = none

/-- Without a byte of the debugging bus, and with console characters that do not matter, the
    decoder holds nothing of consequence on the next clock. -/
theorem idle_next (hd : i.debugByte = none)
    (hc : ∀ ch, i.consoleChar = some ch → Unaffected (next s i).packxi.pending ch) :
    Idle (next s i) := by
  by_cases hstb : i.iRxStb = true
  · -- a console character
    have hb7 : i.iRxByte.getLsbD 7 = false := by
      by_contra hne
      simp only [Bool.not_eq_false] at hne
      rw [Pins.debugByte, hstb, hne] at hd
      simp at hd
    have hch : i.consoleChar = some (i.iRxByte.extractLsb' 0 7) := by
      simp only [Pins.consoleChar, hstb, hb7, Bool.not_false, Bool.and_self, if_true]
    obtain ⟨hT, hkeep⟩ := hc _ hch
    have hreset : wReset (next s i) = false := by
      simp only [wReset, next_dechxi, Hbdechex.next_oReset, hstb, Bool.true_and,
        beq_eq_false_iff_ne]
      exact hT
    refine ⟨hreset, fun j => ?_⟩
    rw [next_packxi (next s i), hreset, next_dechxi, Hbdechex.next_oDhStb, Hbdechex.next_oDhBits,
      hstb]
    by_cases hidle : i.iRxByte.extractLsb' 0 7 = 0x7f#7
    · rw [hidle]
      exact ⟨Hbpack.pending_quiet .., Hbpack.issued_quiet ..⟩
    · obtain ⟨hpend, hdone⟩ := hkeep.resolve_left hidle
      have hne : (true && i.iRxByte.extractLsb' 0 7 != 0x7f#7) = true := by simpa using hidle
      rw [hne, Hbpack.pending_code, Hbpack.issued_code]
      exact ⟨hpend, hdone⟩
  · -- no byte at all
    simp only [Bool.not_eq_true] at hstb
    have hreset : wReset (next s i) = false := by
      simp only [wReset, next_dechxi, Hbdechex.next_oReset, hstb, Bool.false_and]
    refine ⟨hreset, fun j => ?_⟩
    rw [next_packxi (next s i), hreset, next_dechxi, Hbdechex.next_oDhStb, hstb]
    exact ⟨Hbpack.pending_quiet .., Hbpack.issued_quiet ..⟩

/-- What the decoders of two consoles hold: the same byte, or in both nothing of consequence. -/
def SameDecoded (s t : Hbconsole) : Prop := s.dechxi = t.dechxi ∨ (Idle s ∧ Idle t)

theorem SameDecoded.reset (h : SameDecoded s t) : wReset s = wReset t := by
  rcases h with h | ⟨hs, ht⟩
  · unfold wReset
    rw [h]
  · rw [hs.1, ht.1]

/-- The command being assembled takes the same from the same decoded byte. -/
theorem Agree.pack (h : s.Agree t) (hd : SameDecoded s t) :
    (Hbconsole.next s i).packxi.pending = (Hbconsole.next t j).packxi.pending ∧
      (Hbconsole.next s i).packxi.issued = (Hbconsole.next t j).packxi.issued := by
  rcases hd with hd | ⟨hs, ht⟩
  · rw [next_packxi, next_packxi]
    unfold wReset
    rw [hd]
    cases t.dechxi.oReset
    · cases t.dechxi.oDhStb
      · simp only [Hbpack.pending_quiet, Hbpack.issued_quiet, h.pending, and_self]
      · simp only [Hbpack.pending_code, Hbpack.issued_code, h.pending, and_self]
    · simp only [Hbpack.pending_reset, Hbpack.issued_reset, and_self]
  · rw [(hs.2 i).1, (hs.2 i).2, (ht.2 j).1, (ht.2 j).2]
    exact ⟨h.pending, rfl⟩

/-! ## Runs -/

/-- Along two runs with the same debugging traffic, and console traffic that does not matter, the
    two consoles agree on every clock. -/
theorem agree_at {x y : ℕ → Pins} (hxy : SameDebug x y) (hx : Harmless x) (hy : Harmless y) :
    ∀ n, (stateAt x n).Agree (stateAt y n) ∧ SameDecoded (stateAt x n) (stateAt y n) := by
  intro n
  induction n with
  | zero =>
    refine ⟨⟨rfl, rfl, ?_⟩, Or.inl rfl⟩
    exact ⟨fun h => absurd h Bool.false_ne_true, rfl, rfl, rfl, rfl, rfl, fun _ _ => rfl⟩
  | succ n ih =>
    obtain ⟨hag, hdec⟩ := ih
    have hxn : stateAt x (n + 1) = next (stateAt x n) (x n) := rfl
    have hyn : stateAt y (n + 1) = next (stateAt y n) (y n) := rfl
    obtain ⟨hp, hi⟩ := hag.pack (i := x n) (j := y n) hdec
    rw [hxn, hyn]
    refine ⟨hag.next hdec.reset (hxy n).2 hp hi, ?_⟩
    cases hb : (x n).debugByte with
    | none =>
      refine Or.inr ⟨idle_next hb ?_, idle_next ?_ ?_⟩
      · exact fun ch hch => hx n ch hch
      · rw [← (hxy n).1, hb]
      · exact fun ch hch => hy n ch hch
    | some b =>
      -- the same byte of the debugging bus
      have hxb : (x n).iRxStb = true ∧ (x n).iRxByte = b := by
        unfold Pins.debugByte at hb
        split_ifs at hb with hc
        · rw [Bool.and_eq_true] at hc
          exact ⟨hc.1, by simpa using hb⟩
      have hyb : (y n).iRxStb = true ∧ (y n).iRxByte = b := by
        have hb' := (hxy n).1.symm.trans hb
        unfold Pins.debugByte at hb'
        split_ifs at hb' with hc
        · rw [Bool.and_eq_true] at hc
          exact ⟨hc.1, by simpa using hb'⟩
      left
      rw [next_dechxi, next_dechxi, hxb.1, hxb.2, hyb.1, hyb.2]

/-- **Console traffic that leaves the command being assembled alone does not disturb the debugging
    bus**: two runs with the same bytes of the debugging bus issue the same requests and resets, on
    the same clocks. -/
theorem issued_eq (x y : ℕ → Pins) (hxy : SameDebug x y) (hx : Harmless x) (hy : Harmless y) :
    ∀ n, issued x n = issued y n := by
  intro n
  induction n with
  | zero => rfl
  | succ n ih =>
    obtain ⟨hag, hdec⟩ := agree_at hxy hx hy n
    show issued x n ++ busEvents (stateAt x n) (x n) = issued y n ++ busEvents (stateAt y n) (y n)
    rw [ih, hag.busEvents hdec.reset (hxy n).2]

/-! ## Two streams -/

/-- A slave that never stalls and acknowledges at once, and nothing to send. -/
def receive (b : Option (BitVec 8)) : Pins where
  iRxStb := b.isSome
  iRxByte := b.getD 0
  wb := { iWbAck := true, iWbStall := false, iWbErr := false, iWbData := 0 }
  iInterrupt := false
  iTxBusy := false
  iConsoleStb := false
  iConsoleData := 0

/-- The bytes of a list, one a clock where there is one, and then silence. -/
def stream (l : List (Option (BitVec 8))) (n : ℕ) : Pins := receive (l.getD n none)

theorem stream_silent (l : List (Option (BitVec 8))) {n : ℕ} (h : l.length ≤ n) :
    stream l n = receive none := by
  rw [stream, List.getD_eq_getElem?_getD, List.getElem?_eq_none h, Option.getD_none]

/-- Streams of the same debugging traffic, if they are so as long as either of them lasts. -/
theorem sameDebug_stream (l m : List (Option (BitVec 8)))
    (h : ∀ n < max l.length m.length,
      (stream l n).debugByte = (stream m n).debugByte) : SameDebug (stream l) (stream m) := by
  intro n
  refine ⟨?_, rfl⟩
  by_cases hn : n < max l.length m.length
  · exact h n hn
  · rw [stream_silent l (by omega), stream_silent m (by omega)]

/-- A stream is harmless if it is so as long as it lasts. -/
theorem harmless_stream (l : List (Option (BitVec 8)))
    (h : ∀ n < l.length, ∀ ch, (stream l n).consoleChar = some ch →
      Unaffected (stateAt (stream l) (n + 1)).packxi.pending ch) : Harmless (stream l) := by
  intro n ch hch
  by_cases hn : n < l.length
  · exact h n hn ch hch
  · rw [stream_silent l (by omega)] at hch
    cases hch

/-- What is issued up to a clock comes first in what is issued up to a later one. -/
theorem issued_mono (x : ℕ → Pins) {m n : ℕ} (h : m ≤ n) : issued x m <+: issued x n := by
  obtain ⟨k, rfl⟩ := Nat.exists_eq_add_of_le h
  exact ⟨_, (Clocked.events_add next busEvents init x m k).symm⟩

/-- Two runs whose events differ after as many of them do not issue the same sequence. -/
theorem not_sameSequence {x y : ℕ → Pins} (k : ℕ)
    (hlen : (issued x k).length = (issued y k).length) (hne : issued x k ≠ issued y k) :
    ¬ SameSequence x y := by
  rintro ⟨h, -⟩
  obtain ⟨n, hn⟩ := h k
  have hx : issued x k <+: issued y (max n k) := hn.trans (issued_mono y (Nat.le_max_left n k))
  have hy : issued y k <+: issued y (max n k) := issued_mono y (Nat.le_max_right n k)
  exact hne ((List.prefix_of_prefix_length_le hx hy (Nat.le_of_eq hlen)).eq_of_length hlen)

/-- The write of 1 to the address the bus is at: `W`, `1`, and a line feed. -/
def writeOne : List (Option (BitVec 8)) := [some 0xd7#8, none, some 0xb1#8, some 0x8a#8]

/-- The same write, with a `2` typed at the console on the way. -/
def writeOneTyped : List (Option (BitVec 8)) := [some 0xd7#8, some 0x32#8, some 0xb1#8, some 0x8a#8]

/-- The digit typed at the console goes into the word written: `21` in the place of `1`. -/
theorem console_digit_written :
    ∃ x y : ℕ → Pins, SameDebug x y ∧ ¬ SameSequence x y := by
  refine ⟨stream writeOne, stream writeOneTyped, sameDebug_stream _ _ ?_,
    not_sameSequence 7 ?_ ?_⟩
  · decide +kernel
  · decide +kernel
  · decide +kernel

/-- The same write, with a line typed before it and an idle code within. -/
theorem issued_eq_typed :
    issued (stream (none :: none :: writeOne)) 9 =
      issued (stream [some 0x68#8, some 0x0a#8, some 0xd7#8, some 0x7f#8, some 0xb1#8,
        some 0x8a#8]) 9 := by
  refine issued_eq _ _ (sameDebug_stream _ _ ?_) (harmless_stream _ ?_) (harmless_stream _ ?_) 9
  · decide +kernel
  · decide +kernel
  · decide +kernel

end Hbconsole

end ZipStormMX.Hexbus
