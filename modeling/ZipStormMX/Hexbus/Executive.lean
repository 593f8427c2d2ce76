/-
  From received characters to bus requests and response words: `hbdechex`, `hbpack` and `hbexec`.

  What the three are for is `Cursor`: an address that each command moves, and for each command the
  request it makes of the bus and the response it gets.  `ahead` are the commands that are still to
  reach `hbexec`.  A clock on which no error is reported, and on which no command reaches `hbexec`
  inside a bus cycle, moves one command from there into the cursor, and changes neither the
  requests nor the responses there will have been in the end.
-/
import ZipStormMX.Hexbus.Hbconsole

namespace ZipStormMX.Hexbus

open Hbconsole (BusEvent)

/-! ## The three blocks -/

/-- The blocks between the receiver and the bus, as `hbconsole` connects them. -/
structure Device where
  dechxi : Hbdechex
  packxi : Hbpack
  wbexec : Hbexec
deriving DecidableEq

namespace Device

@[simps]
def next (s : Device) (iRxStb : Bool) (iRxByte : BitVec 8) (w : WbReply) : Device where
  dechxi := Hbdechex.next iRxStb iRxByte
  packxi := Hbpack.next s.packxi s.dechxi.oReset s.dechxi.oDhStb s.dechxi.oDhBits
  wbexec := Hbexec.next s.wbexec s.dechxi.oReset s.packxi.oPckStb s.packxi.oPckWord w

end Device

/-- The three blocks inside `hbconsole`. -/
def Hbconsole.device (s : Hbconsole) : Device where
  dechxi := s.dechxi
  packxi := s.packxi
  wbexec := s.wbexec

/-- Nothing else in `hbconsole` has a say in them. -/
theorem Hbconsole.device_next (s : Hbconsole) (i : Pins) :
    (s.next i).device = s.device.next i.iRxStb i.iRxByte i.wb := rfl

/-! ## Commands on their way -/

/-- The code of a received character, if `hbdechex` passes one on. -/
def codeOf (ch : BitVec 8) : List (BitVec 5) :=
  if ch.extractLsb' 0 7 = 0x7f#7 then [] else [dhCode (ch.extractLsb' 0 7)]

/-- The commands that a row of codes completes, and the one being assembled after them. -/
def assembleAll : Option BusCmd → List (BitVec 5) → List BusCmd × Option BusCmd
  | p, [] => ([], p)
  | p, bits :: rest =>
    ((completed p bits).toList ++ (assembleAll (assemble p bits) rest).1,
      (assembleAll (assemble p bits) rest).2)

theorem assembleAll_append (p : Option BusCmd) (l l' : List (BitVec 5)) :
    assembleAll p (l ++ l') =
      ((assembleAll p l).1 ++ (assembleAll (assembleAll p l).2 l').1,
        (assembleAll (assembleAll p l).2 l').2) := by
  induction l generalizing p with
  | nil => rfl
  | cons bits l ih =>
    rw [List.cons_append, assembleAll, ih]
    simp only [assembleAll, List.append_assoc]

namespace Device

variable (s : Device)

/-- The code that `hbdechex` shows. -/
def decoded : List (BitVec 5) := if s.dechxi.oDhStb then [s.dechxi.oDhBits] else []

/-- The commands that have not reached `hbexec` yet when the characters of `down` are still to be
    received, and the one being assembled after them. -/
def ahead (down : List (BitVec 8)) : List BusCmd × Option BusCmd :=
  (s.packxi.issued.toList ++
      (assembleAll s.packxi.pending (s.decoded ++ down.flatMap codeOf)).1,
    (assembleAll s.packxi.pending (s.decoded ++ down.flatMap codeOf)).2)

/-- Further characters complete further commands. -/
theorem ahead_append (down text : List (BitVec 8)) :
    s.ahead (down ++ text) =
      ((s.ahead down).1 ++ (assembleAll (s.ahead down).2 (text.flatMap codeOf)).1,
        (assembleAll (s.ahead down).2 (text.flatMap codeOf)).2) := by
  simp only [ahead, List.flatMap_append, ← List.append_assoc, assembleAll_append]

variable {s}

/-- What `hbdechex` shows after a clock. -/
theorem decoded_next (iRxStb : Bool) (iRxByte : BitVec 8) (w : WbReply) :
    (s.next iRxStb iRxByte w).decoded = if iRxStb then codeOf iRxByte else [] := by
  unfold decoded codeOf
  simp only [next_dechxi, Hbdechex.next_oDhStb, Hbdechex.next_oDhBits]
  cases iRxStb
  · rfl
  · by_cases h : iRxByte.extractLsb' 0 7 = 0x7f#7
    · simp [h]
    · simp [h]

/-- A code that is shown goes into the command being assembled. -/
theorem assembleAll_next (h : s.dechxi.oReset = false) (iRxStb : Bool) (iRxByte : BitVec 8)
    (w : WbReply) (l : List (BitVec 5)) :
    assembleAll s.packxi.pending (s.decoded ++ l) =
      ((s.next iRxStb iRxByte w).packxi.issued.toList ++
          (assembleAll (s.next iRxStb iRxByte w).packxi.pending l).1,
        (assembleAll (s.next iRxStb iRxByte w).packxi.pending l).2) := by
  rw [next_packxi, h, decoded]
  cases hs : s.dechxi.oDhStb
  · rw [Hbpack.issued_quiet, Hbpack.pending_quiet]
    rfl
  · rw [Hbpack.issued_code, Hbpack.pending_code]
    rfl

/-- **One clock on the way**: the command that `hbpack` hands over is the first of those ahead, and
    the others are still ahead. -/
theorem ahead_next (h : s.dechxi.oReset = false) (rx : Option (BitVec 8)) (w : WbReply)
    (rest : List (BitVec 8)) :
    s.ahead (rx.toList ++ rest) =
      (s.packxi.issued.toList ++ ((s.next rx.isSome (rx.getD 0) w).ahead rest).1,
        ((s.next rx.isSome (rx.getD 0) w).ahead rest).2) := by
  have hdec : (s.next rx.isSome (rx.getD 0) w).decoded = rx.toList.flatMap codeOf := by
    rw [decoded_next]
    cases rx
    · rfl
    · simp
  simp only [ahead, hdec, List.flatMap_append]
  rw [assembleAll_next h rx.isSome (rx.getD 0) w]

end Device

/-! ## What commands are for -/

/-- How far an access moves the address. -/
def stride (inc : Bool) : BitVec 30 := 0#29 ++ BitVec.ofBool inc

/-- A response there is to be: the word read at an address, a write acknowledgement, or the
    address that has been set. -/
inductive Expect where
  | data (addr : BitVec 30)
  | ack
  | addr (addr : BitVec 30) (inc : Bool)
deriving DecidableEq

/-- The address of the next access, and whether accesses move it. -/
@[ext]
structure Cursor where
  addr : BitVec 30
  inc : Bool
deriving DecidableEq

namespace Cursor

/-- After a command. -/
def after (c : Cursor) : BusCmd → Cursor
  | .read => { c with addr := c.addr + stride c.inc }
  | .write _ => { c with addr := c.addr + stride c.inc }
  | .addr w =>
    { addr := if w.getLsbD 1 then w.extractLsb' 2 30 + c.addr else w.extractLsb' 2 30
      inc := !w.getLsbD 0 }

/-- The request of a command. -/
def issues (c : Cursor) : BusCmd → List BusEvent
  | .read => [.read c.addr]
  | .write d => [.write c.addr d]
  | .addr _ => []

/-- The response to a command. -/
def answers (c : Cursor) : BusCmd → List Expect
  | .read => [.data c.addr]
  | .write _ => [.ack]
  | .addr w => [.addr (c.after (.addr w)).addr (c.after (.addr w)).inc]

/-- After a row of commands. -/
def afterAll (c : Cursor) (l : List BusCmd) : Cursor := l.foldl after c

/-- What comes of a row of commands. -/
def along {β : Type} (f : Cursor → BusCmd → List β) : Cursor → List BusCmd → List β
  | _, [] => []
  | c, cmd :: rest => f c cmd ++ along f (c.after cmd) rest

@[simp] theorem afterAll_nil (c : Cursor) : c.afterAll [] = c := rfl

@[simp] theorem along_nil {β : Type} (f : Cursor → BusCmd → List β) (c : Cursor) :
    along f c [] = [] := rfl

theorem afterAll_append (c : Cursor) (l l' : List BusCmd) :
    c.afterAll (l ++ l') = (c.afterAll l).afterAll l' := List.foldl_append

theorem along_append {β : Type} (f : Cursor → BusCmd → List β) (c : Cursor) (l l' : List BusCmd) :
    along f c (l ++ l') = along f c l ++ along f (c.afterAll l) l' := by
  induction l generalizing c with
  | nil => rfl
  | cons cmd l ih => simp only [List.cons_append, along, ih, List.append_assoc]; rfl

end Cursor

/-! ## hbexec -/

namespace Hbexec

variable (e : Hbexec)

/-- The address of the next request to come. -/
def cursor : Cursor where
  addr := if e.oWbStb then e.oWbAddr + stride e.inc else e.oWbAddr
  inc := e.inc

/-- The address of the request that is open. -/
def outstanding : BitVec 30 := if e.oWbStb then e.oWbAddr else e.oWbAddr - stride e.inc

/-- The request on the pins. -/
def onPins : List BusEvent :=
  if e.oWbStb then
    [if e.oWbWe then BusEvent.write e.oWbAddr e.oWbData else BusEvent.read e.oWbAddr]
  else []

/-- The request taken on a clock. -/
def takes (w : WbReply) : List BusEvent := if w.iWbStall then [] else e.onPins

/-- The responses still to come for what has reached `hbexec`. -/
def owed : List Expect :=
  (if e.newaddr then [Expect.addr e.oWbAddr e.inc] else []) ++
    (if e.oWbCyc then [if e.oWbWe then Expect.ack else Expect.data e.outstanding] else [])

/-- The response word on the output. -/
def spoken : List (BitVec 34) := if e.oRspStb then [e.oRspWord] else []

/-- A strobe is inside a bus cycle, and an address is reported outside of any. -/
structure Sound : Prop where
  cyc : e.oWbStb = true → e.oWbCyc = true
  newaddr : e.newaddr = true → e.oWbCyc = false

/-- The word is a response of the kind there is to be; `D b d` if `d` may be read at `b`. -/
def Answered (D : BitVec 30 → BitVec 32 → Prop) : Expect → BitVec 34 → Prop
  | .data b, word => ∃ d, D b d ∧ word = rspData d
  | .ack, word => word = rspWriteAcknowledgement
  | .addr a inc, word => word = rspAddr a inc

/-- The slave answers the request that is open, and that one only. -/
structure Open (w : WbReply) : Prop where
  cyc : w.iWbAck = true ∨ w.iWbErr = true → e.oWbCyc = true
  taken : w.iWbAck = true → e.oWbStb = true → w.iWbStall = false

variable {e} {iCmdStb : Bool} {iCmdWord : BitVec 34} {w : WbReply}

theorem sound_next (h : e.Sound) : (next e false iCmdStb iCmdWord w).Sound := by
  obtain ⟨hcyc, -⟩ := h
  constructor
  · simp only [next_oWbStb, next_oWbCyc, nextStb, nextCyc]
    cases hs : e.oWbStb <;> cases hst : w.iWbStall <;> simp_all
  · simp only [next_newaddr, next_oWbCyc, nextCyc, setAddr, oCmdBusy]
    intro hn
    simp only [Bool.not_false, Bool.true_and, Bool.and_eq_true, Bool.not_eq_true'] at hn
    obtain ⟨haddr, hidle⟩ := hn
    have hstb : e.oWbStb = false := by
      by_contra hs
      rw [hcyc (by simpa using hs)] at hidle
      cases hidle
    have hbus : iCmdBus iCmdStb iCmdWord = false := by
      rcases command_cases iCmdStb iCmdWord with h1 | h1 | h1 | h1
      · exact h1.2.1
      · rw [h1.2.2.2] at haddr
        cases haddr
      · rw [h1.2.2.2] at haddr
        cases haddr
      · exact h1.2.1
    simp [hidle, hstb, hbus]

/-- What `hbexec` does in a clock without an error, when no command reaches it inside a bus cycle:
    it takes the command, lets the request on the pins go, and keeps track of both. -/
structure Advances (e e' : Hbexec) (cmd : List BusCmd) (w : WbReply) : Prop where
  cursor : e'.cursor = e.cursor.afterAll cmd
  pins : e.onPins ++ Cursor.along Cursor.issues e.cursor cmd = e.takes w ++ e'.onPins
  owed : ∃ said, e.owed ++ Cursor.along Cursor.answers e.cursor cmd = said ++ e'.owed ∧
    ∀ D : BitVec 30 → BitVec 32 → Prop,
      (w.iWbAck = true → e.oWbWe = false → D e.outstanding w.iWbData) →
      List.Forall₂ (Answered D) said e'.spoken

/-- Outside of a bus cycle, what is owed is an address, and it is reported. -/
theorem spoken_idle (hidle : e.oWbCyc = false) (herr : w.iWbErr = false)
    (D : BitVec 30 → BitVec 32 → Prop) :
    List.Forall₂ (Answered D) e.owed (next e false iCmdStb iCmdWord w).spoken := by
  cases hn : e.newaddr <;>
    simp [Hbexec.owed, spoken, nextRspStb, nextRspWord, hidle, herr, hn, Answered]

/-- Outside of a bus cycle, the command on the input is taken: it moves the address, its request is
    on the pins next, and its response is owed. -/
theorem idle_next (h : e.Sound) (hidle : e.oWbCyc = false) :
    (next e false iCmdStb iCmdWord w).cursor =
        e.cursor.afterAll (command iCmdStb iCmdWord).toList ∧
      Cursor.along Cursor.issues e.cursor (command iCmdStb iCmdWord).toList =
        (next e false iCmdStb iCmdWord w).onPins ∧
      Cursor.along Cursor.answers e.cursor (command iCmdStb iCmdWord).toList =
        (next e false iCmdStb iCmdWord w).owed := by
  have hstb : e.oWbStb = false := by
    by_contra hs
    rw [h.cyc (by simpa using hs)] at hidle
    cases hidle
  -- the registers after the clock, when the bus is free
  have hcyc' : (next e false iCmdStb iCmdWord w).oWbCyc = iCmdBus iCmdStb iCmdWord := by
    simp [nextCyc, hidle, hstb]
  have hstb' : (next e false iCmdStb iCmdWord w).oWbStb = iCmdBus iCmdStb iCmdWord := by
    simp [nextStb, hidle, hstb]
  have hset : setAddr e iCmdStb iCmdWord = iCmdAddr iCmdStb iCmdWord := by
    simp [setAddr, oCmdBusy, hidle]
  obtain ⟨hb2, hb1, hb0⟩ := addr_bits iCmdWord
  have hdata : (next e false iCmdStb iCmdWord w).oWbData = iCmdWord.extractLsb' 0 32 := by
    simp [hstb]
  have haddr' : (next e false iCmdStb iCmdWord w).oWbAddr =
      if iCmdAddr iCmdStb iCmdWord then
        if !(iCmdWord.extractLsb' 0 32).getLsbD 1 then (iCmdWord.extractLsb' 0 32).extractLsb' 2 30
        else (iCmdWord.extractLsb' 0 32).extractLsb' 2 30 + e.oWbAddr
      else e.oWbAddr := by
    rw [next_oWbAddr, nextAddr, hset, hstb, hb2, hb1]
    rfl
  have hinc' : (next e false iCmdStb iCmdWord w).inc =
      if iCmdAddr iCmdStb iCmdWord then !(iCmdWord.extractLsb' 0 32).getLsbD 0 else e.inc := by
    rw [next_inc, hset, hb0]
  have hwe' : (next e false iCmdStb iCmdWord w).oWbWe = iCmdWr iCmdStb iCmdWord := by
    simp [hidle]
  have hnew' : (next e false iCmdStb iCmdWord w).newaddr = iCmdAddr iCmdStb iCmdWord := by
    simp [hset]
  have hcases := command_cases iCmdStb iCmdWord
  simp only [Hbexec.cursor, onPins, Hbexec.owed, outstanding, hcyc', hstb', hdata, haddr', hinc',
    hwe', hnew', hstb, Bool.false_eq_true, if_false]
  generalize iCmdWord.extractLsb' 0 32 = v at hcases ⊢
  rcases hcases with h1 | h1 | h1 | h1
  all_goals
    obtain ⟨hcmd, hbus, hwr, haddr⟩ := h1
    rw [hcmd, hbus, hwr, haddr]
  · simp
  · simp [Cursor.afterAll, Cursor.along, Cursor.after, Cursor.issues, Cursor.answers]
  · simp [Cursor.afterAll, Cursor.along, Cursor.after, Cursor.issues, Cursor.answers]
  · cases h1 : v.getLsbD 1 <;>
      simp only [h1, Cursor.afterAll, Cursor.along, Cursor.after, Cursor.issues, Cursor.answers,
        Option.toList_some, List.foldl_cons, List.foldl_nil, Bool.not_true, Bool.not_false,
        Bool.false_eq_true, if_true, if_false, List.append_nil, and_self]

theorem advances_idle (h : e.Sound) (hidle : e.oWbCyc = false) (ho : e.Open w) :
    Advances e (next e false iCmdStb iCmdWord w) (command iCmdStb iCmdWord).toList w := by
  have hstb : e.oWbStb = false := by
    by_contra hs
    rw [h.cyc (by simpa using hs)] at hidle
    cases hidle
  have herr : w.iWbErr = false := by
    by_contra he
    rw [ho.cyc (Or.inr (by simpa using he))] at hidle
    cases hidle
  have hpins : e.onPins = [] := by simp [onPins, hstb]
  have htaken : e.takes w = [] := by simp [Hbexec.takes, hpins]
  obtain ⟨h1, h2, h3⟩ := @idle_next e iCmdStb iCmdWord w h hidle
  refine ⟨h1, ?_, e.owed, by rw [h3], fun D _ => spoken_idle hidle herr D⟩
  rw [hpins, htaken, h2]

/-- The answer to a request is the response that is owed. -/
theorem spoken_ack (hbusy : e.oWbCyc = true) (hnew : e.newaddr = false) (ha : w.iWbAck = true)
    (herr : w.iWbErr = false) {D : BitVec 30 → BitVec 32 → Prop}
    (hD : e.oWbWe = false → D e.outstanding w.iWbData) :
    List.Forall₂ (Answered D) e.owed (next e false iCmdStb iCmdWord w).spoken := by
  have hstb : (next e false iCmdStb iCmdWord w).oRspStb = true := by
    simp [nextRspStb, herr, hbusy, ha]
  cases hwe : e.oWbWe
  · have hword : (next e false iCmdStb iCmdWord w).oRspWord = rspData w.iWbData := by
      simp [nextRspWord, herr, hbusy, hwe]
    simp only [Hbexec.owed, spoken, hnew, hbusy, hwe, hstb, hword, Bool.false_eq_true, if_false,
      if_true, List.nil_append]
    exact .cons ⟨_, hD hwe, rfl⟩ .nil
  · have hword : (next e false iCmdStb iCmdWord w).oRspWord = rspWriteAcknowledgement := by
      simp [nextRspWord, herr, hbusy, hwe]
    simp only [Hbexec.owed, spoken, hnew, hbusy, hwe, hstb, hword, Bool.false_eq_true, if_false,
      if_true, List.nil_append]
    exact .cons rfl .nil

/-- Inside a bus cycle: the request leaves, and is answered, in its time. -/
theorem advances_busy (h : e.Sound) (hbusy : e.oWbCyc = true)
    (hfree : command iCmdStb iCmdWord = none) (ho : e.Open w) (herr : w.iWbErr = false) :
    Advances e (next e false iCmdStb iCmdWord w) (command iCmdStb iCmdWord).toList w := by
  rw [hfree]
  have hnew : e.newaddr = false := by
    by_contra hn
    rw [h.newaddr (by simpa using hn)] at hbusy
    cases hbusy
  have hset : setAddr e iCmdStb iCmdWord = false := by
    simp [setAddr, oCmdBusy, hbusy]
  cases hs : e.oWbStb
  · refine ⟨?_, ?_, ?_⟩
    · simp [Hbexec.cursor, nextStb, nextAddr, hset, hs, herr, hbusy]
    · simp [onPins, Hbexec.takes, nextStb, hs, herr, hbusy]
    · cases ha : w.iWbAck
      · refine ⟨[], ?_, fun D _ => ?_⟩
        · simp [Hbexec.owed, nextCyc, nextStb, nextAddr, outstanding, hset, hs, herr, hbusy, ha, hnew]
        · simp [spoken, nextRspStb, herr, hbusy, ha]
      · refine ⟨e.owed, ?_, fun D hD => ?_⟩
        · simp [Hbexec.owed, nextCyc, hset, hs, herr, hbusy, ha]
        · exact spoken_ack hbusy hnew ha herr (hD rfl)
  · cases hst : w.iWbStall
    · refine ⟨?_, ?_, ?_⟩
      · simp [Hbexec.cursor, nextStb, nextAddr, stride, hset, hs, herr, hst]
      · simp [onPins, Hbexec.takes, nextStb, hs, herr, hst]
      · cases ha : w.iWbAck
        · refine ⟨[], ?_, fun D _ => ?_⟩
          · simp [Hbexec.owed, nextCyc, nextStb, nextAddr, outstanding, stride, hset, hs, herr, hst,
              hbusy, ha, hnew, BitVec.add_sub_cancel]
          · simp [spoken, nextRspStb, herr, hbusy, ha]
        · refine ⟨e.owed, ?_, fun D hD => ?_⟩
          · simp [Hbexec.owed, nextCyc, hset, hs, herr, hst, hbusy, ha]
          · exact spoken_ack hbusy hnew ha herr (hD rfl)
    · have hna : w.iWbAck = false := by
        by_contra ha
        rw [ho.taken (by simpa using ha) hs] at hst
        cases hst
      refine ⟨?_, ?_, [], ?_, fun D _ => ?_⟩
      · simp [Hbexec.cursor, nextStb, nextAddr, hset, hs, herr, hst]
      · simp [onPins, Hbexec.takes, nextStb, nextAddr, hset, hs, herr, hst, hbusy]
      · simp [Hbexec.owed, nextCyc, nextStb, nextAddr, outstanding, hset, hs, herr, hst, hbusy, hnew]
      · simp [spoken, nextRspStb, herr, hbusy, hna]

/-- A clock without an error, on which no command reaches `hbexec` inside a bus cycle. -/
theorem advances (h : e.Sound) (ho : e.Open w) (herr : w.iWbErr = false)
    (hfree : e.oWbCyc = true → command iCmdStb iCmdWord = none) :
    Advances e (next e false iCmdStb iCmdWord w) (command iCmdStb iCmdWord).toList w := by
  cases hc : e.oWbCyc
  · exact advances_idle h hc ho
  · exact advances_busy h hc (hfree hc) ho herr

/-- An error ends the bus cycle.  The address has moved on if the request had been taken, or is
    taken on this clock. -/
theorem fails (h : e.Sound) (hbusy : e.oWbCyc = true) (herr : w.iWbErr = true) :
    (next e false iCmdStb iCmdWord w).spoken = [rspBusError] ∧
      (next e false iCmdStb iCmdWord w).oWbCyc = false ∧
      (next e false iCmdStb iCmdWord w).owed = [] ∧
      (next e false iCmdStb iCmdWord w).onPins = [] ∧
      (next e false iCmdStb iCmdWord w).cursor.inc = e.inc ∧
      (next e false iCmdStb iCmdWord w).cursor.addr =
        e.outstanding + if e.oWbStb && w.iWbStall then 0 else stride e.inc := by
  have hnew : e.newaddr = false := by
    by_contra hn
    rw [h.newaddr (by simpa using hn)] at hbusy
    cases hbusy
  have hset : setAddr e iCmdStb iCmdWord = false := by
    simp [setAddr, oCmdBusy, hbusy]
  have hcyc' : (next e false iCmdStb iCmdWord w).oWbCyc = false := by
    simp [nextCyc, herr, hbusy]
  have hstb' : (next e false iCmdStb iCmdWord w).oWbStb = false := by
    simp [nextStb, herr, hbusy]
  refine ⟨?_, hcyc', ?_, ?_, ?_, ?_⟩
  · simp [spoken, nextRspStb, nextRspWord, herr]
  · rw [Hbexec.owed, hcyc', next_newaddr, hset]
    rfl
  · rw [onPins, hstb']
    rfl
  · simp [Hbexec.cursor, hset]
  · simp only [Hbexec.cursor, hstb', next_oWbAddr, nextAddr, hset, outstanding, stride]
    cases e.oWbStb <;> cases w.iWbStall <;> simp [BitVec.sub_add_cancel]

end Hbexec

end ZipStormMX.Hexbus
