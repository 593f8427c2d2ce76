/-
  One transaction and one response for each command of `hbexec.v`.

  A command moves a cursor (`Cursor`), and says which request the bus is to see and which response
  there is to be.  `resolve` pairs the responses there are to be with the answers of the slave.  What
  is proved of every run is that the requests taken, and the responses strobed, are these two lists:
  the last request may still be on the pins, and the last response waits for its answer.

  The slave is any that answers what it has taken, once, and that only while there is a cycle.  An
  error is an answer like another, and ends the transaction like one.
-/
import ZipStormMX.Clocked
import ZipStormMX.Hexbus.Executive

namespace ZipStormMX.Hexbus

open Hbconsole (BusEvent)

/-! ## Answers and responses -/

/-- What a slave answers: a word, which counts if the request is a read, or an error. -/
abbrev Answer := Option (BitVec 32)

/-- The answer on a clock.  Errors go first. -/
def WbReply.answer (w : WbReply) : List Answer :=
  if w.iWbErr then [none] else if w.iWbAck then [some w.iWbData] else []

namespace Expect

/-- The response belongs to a bus request. -/
def isAccess : Expect → Bool
  | data _ => true
  | ack => true
  | addr _ _ => false

/-- The response word, for the answer to the request. -/
def reply : Expect → Answer → BitVec 34
  | addr a inc, _ => rspAddr a inc
  | _, none => rspBusError
  | data _, some d => rspData d
  | ack, some _ => rspWriteAcknowledgement

end Expect

/-- The responses to a row of commands, as far as there are answers: each bus request uses one. -/
def resolve : List Expect → List Answer → List (BitVec 34)
  | [], _ => []
  | .addr a inc :: l, answers => rspAddr a inc :: resolve l answers
  | x :: l, a :: answers => x.reply a :: resolve l answers
  | _ :: _, [] => []

/-- The number of bus requests in a row of responses. -/
def accesses (l : List Expect) : ℕ := l.countP Expect.isAccess

/-- Responses that use up their answers leave the others to what follows. -/
theorem resolve_append {l : List Expect} {as : List Answer} (h : accesses l = as.length)
    (l' : List Expect) (as' : List Answer) :
    resolve (l ++ l') (as ++ as') = resolve l as ++ resolve l' as' := by
  induction l generalizing as with
  | nil =>
    have hnil : as = [] := List.eq_nil_of_length_eq_zero h.symm
    rw [hnil]
    rfl
  | cons x l ih =>
    cases x with
    | addr a inc =>
      show rspAddr a inc :: resolve (l ++ l') (as ++ as') = rspAddr a inc :: resolve l as ++ _
      rw [ih h]
      rfl
    | _ =>
      cases as with
      | nil => simp [accesses, Expect.isAccess] at h
      | cons a as =>
        have hl : accesses l = as.length := by
            simpa [accesses, List.countP_cons, Expect.isAccess] using h
        show Expect.reply _ a :: resolve (l ++ l') (as ++ as') = _
        rw [ih hl]
        rfl

theorem accesses_append (l l' : List Expect) : accesses (l ++ l') = accesses l + accesses l' :=
  List.countP_append

/-- A command that sets the address. -/
def BusCmd.isAddr : BusCmd → Bool
  | .addr _ => true
  | _ => false

namespace Cursor

/-- Commands that do not set the address move it on, each by the same stride. -/
theorem addr_afterAll (c : Cursor) (l : List BusCmd) (hl : ∀ b ∈ l, b.isAddr = false) :
    c.afterAll l = { addr := c.addr + BitVec.ofNat 30 l.length * stride c.inc, inc := c.inc } := by
  induction l generalizing c with
  | nil =>
    show c = { addr := c.addr + 0#30 * stride c.inc, inc := c.inc }
    rw [BitVec.zero_mul, BitVec.add_zero]
  | cons b l ih =>
    have hb : c.after b = { c with addr := c.addr + stride c.inc } := by
      cases b with
      | addr w => exact absurd (hl _ (List.mem_cons_self ..)) (by simp [BusCmd.isAddr])
      | _ => rfl
    have hcount : BitVec.ofNat 30 (l.length + 1) = 1#30 + BitVec.ofNat 30 l.length := by
      rw [← BitVec.ofNat_add, Nat.add_comm]
    show (c.after b).afterAll l = _
    rw [hb, ih _ fun b' hb' => hl b' (List.mem_cons_of_mem _ hb'), List.length_cons, hcount,
      BitVec.add_mul, BitVec.one_mul, BitVec.add_assoc]

/-- Each request of a row of commands has one response. -/
theorem length_issues (c : Cursor) (l : List BusCmd) :
    (along issues c l).length = accesses (along answers c l) := by
  induction l generalizing c with
  | nil => rfl
  | cons cmd l ih =>
    show (issues c cmd ++ along issues (c.after cmd) l).length =
      accesses (answers c cmd ++ along answers (c.after cmd) l)
    rw [List.length_append, accesses_append, ih]
    cases cmd <;> rfl

end Cursor

/-! ## One clock -/

namespace Hbexec

variable {e : Hbexec} {iCmdStb : Bool} {iCmdWord : BitVec 34} {w : WbReply}

/-- What a clock does to the books: the command is added to them, the request that the slave takes
    and the answer it gives are settled, and the response of what has been settled is strobed. -/
structure Settles (e e' : Hbexec) (cmd : List BusCmd) (w : WbReply) : Prop where
  sound : e'.Sound
  cursor : e'.cursor = e.cursor.afterAll cmd
  pins : e.onPins ++ Cursor.along Cursor.issues e.cursor cmd = e.takes w ++ e'.onPins
  owed : ∃ said, e.owed ++ Cursor.along Cursor.answers e.cursor cmd = said ++ e'.owed ∧
    accesses said = w.answer.length ∧ resolve said w.answer = e'.spoken
  spoken : resolve e.owed w.answer = e'.spoken

/-- Outside of a bus cycle there is no answer, and an address that is owed is reported. -/
theorem settles_idle (h : e.Sound) (hidle : e.oWbCyc = false) (ha : w.answer = []) :
    Settles e (next e false iCmdStb iCmdWord w) (command iCmdStb iCmdWord).toList w := by
  have hstb : e.oWbStb = false := by
    by_contra hs
    rw [h.cyc (by simpa using hs)] at hidle
    cases hidle
  have herr : w.iWbErr = false := by
    by_contra he
    rw [WbReply.answer, if_pos (by simpa using he)] at ha
    cases ha
  have hspoken : resolve e.owed [] = (next e false iCmdStb iCmdWord w).spoken := by
    cases hn : e.newaddr <;>
      simp [Hbexec.owed, spoken, nextRspStb, nextRspWord, hidle, herr, hn, resolve]
  have hcount : accesses e.owed = 0 := by
    cases hn : e.newaddr <;> simp [Hbexec.owed, hidle, hn, accesses, Expect.isAccess]
  have hpins : e.onPins = [] := by simp [onPins, hstb]
  have htaken : e.takes w = [] := by simp [Hbexec.takes, hpins]
  obtain ⟨h1, h2, h3⟩ := @idle_next e iCmdStb iCmdWord w h hidle
  refine ⟨sound_next h, h1, ?_, ⟨e.owed, by rw [h3], ?_, ?_⟩, ?_⟩
  · rw [hpins, htaken, h2]
  · rw [ha, hcount]
    rfl
  · rw [ha, hspoken]
  · rw [ha, hspoken]

/-- The response that is owed inside a bus cycle. -/
theorem owed_busy (h : e.Sound) (hbusy : e.oWbCyc = true) :
    e.owed = [if e.oWbWe then Expect.ack else Expect.data e.outstanding] := by
  have hnew : e.newaddr = false := by
    by_contra hn
    rw [h.newaddr (by simpa using hn)] at hbusy
    cases hbusy
  simp [Hbexec.owed, hnew, hbusy]

/-- Inside a bus cycle, an error is the answer to the request. -/
theorem settles_error (h : e.Sound) (hbusy : e.oWbCyc = true)
    (hfree : command iCmdStb iCmdWord = none) (herr : w.iWbErr = true)
    (ht : e.oWbStb = true → w.iWbStall = false) :
    Settles e (next e false iCmdStb iCmdWord w) (command iCmdStb iCmdWord).toList w := by
  obtain ⟨hspoken, -, howed, hpins, hinc, haddr⟩ := @fails e iCmdStb iCmdWord w h hbusy herr
  have hanswer : w.answer = [none] := by rw [WbReply.answer, if_pos herr]
  have hreply : resolve e.owed [none] = [rspBusError] := by
    rw [owed_busy h hbusy]
    cases e.oWbWe <;> rfl
  have hcount : accesses e.owed = 1 := by
    rw [owed_busy h hbusy]
    cases e.oWbWe <;> rfl
  rw [hfree]
  refine ⟨sound_next h, ?_, ?_, ⟨e.owed, ?_, ?_, ?_⟩, ?_⟩
  · -- the request has been taken, so the address has moved
    have hgo : (e.oWbStb && w.iWbStall) = false := by
      cases hs : e.oWbStb
      · rfl
      · rw [ht hs]
        rfl
    rw [hgo, if_neg Bool.false_ne_true] at haddr
    have hcur : e.cursor = { addr := e.outstanding + stride e.inc, inc := e.inc } := by
      cases hs : e.oWbStb <;>
        simp [Hbexec.cursor, outstanding, hs, BitVec.sub_add_cancel]
    show (next e false iCmdStb iCmdWord w).cursor = e.cursor
    rw [hcur]
    exact Cursor.ext haddr hinc
  · rw [hpins]
    cases hs : e.oWbStb
    · simp [onPins, Hbexec.takes, hs]
    · simp [Hbexec.takes, ht hs]
  · rw [howed]
    rfl
  · rw [hanswer, hcount]
    rfl
  · rw [hanswer, hreply, hspoken]
  · rw [hanswer, hreply, hspoken]

/-- Inside a bus cycle, an acknowledgement is the answer to the request, and without an answer the
    response is still owed. -/
theorem settles_busy (h : e.Sound) (hbusy : e.oWbCyc = true)
    (hfree : command iCmdStb iCmdWord = none) (herr : w.iWbErr = false)
    (ht : w.iWbAck = true → e.oWbStb = true → w.iWbStall = false) :
    Settles e (next e false iCmdStb iCmdWord w) (command iCmdStb iCmdWord).toList w := by
  obtain ⟨hcursor, hpins, -⟩ := advances_busy h hbusy hfree ⟨fun _ => hbusy, ht⟩ herr
  have hset : setAddr e iCmdStb iCmdWord = false := by
    simp [setAddr, oCmdBusy, hbusy]
  have hanswer : w.answer = if w.iWbAck then [some w.iWbData] else [] := by
    rw [WbReply.answer, herr]
    rfl
  refine ⟨sound_next h, hcursor, hpins, ?_, ?_⟩
  · cases ha : w.iWbAck with
    | false =>
      refine ⟨[], ?_, ?_, ?_⟩
      · have hcyc : (next e false iCmdStb iCmdWord w).oWbCyc = true := by
          simp [nextCyc, herr, hbusy, ha]
        have hout : (next e false iCmdStb iCmdWord w).outstanding = e.outstanding := by
          cases hs : e.oWbStb <;> cases hst : w.iWbStall <;>
            simp [outstanding, nextStb, nextAddr, stride, hset, hs, hst, herr, hbusy,
              BitVec.add_sub_cancel]
        rw [hfree, owed_busy h hbusy, owed_busy (sound_next h) hcyc, hout, next_oWbWe, hbusy]
        rfl
      · rw [hanswer, ha]
        rfl
      · rw [hanswer, ha]
        simp [spoken, nextRspStb, herr, hbusy, ha, resolve]
    | true =>
      refine ⟨e.owed, ?_, ?_, ?_⟩
      · have howed : (next e false iCmdStb iCmdWord w).owed = [] := by
          have hcyc : (next e false iCmdStb iCmdWord w).oWbCyc = false := by
            cases hs : e.oWbStb
            · simp [nextCyc, herr, hbusy, ha, hs]
            · simp [nextCyc, herr, hbusy, ha, hs, ht ha hs]
          rw [Hbexec.owed, hcyc, next_newaddr, hset]
          rfl
        rw [howed, hfree]
        rfl
      · rw [hanswer, ha, owed_busy h hbusy]
        cases e.oWbWe <;> rfl
      · rw [hanswer, ha, owed_busy h hbusy]
        cases hwe : e.oWbWe <;>
          simp [spoken, nextRspStb, nextRspWord, herr, hbusy, ha, hwe, resolve, Expect.reply]
  · rw [hanswer, owed_busy h hbusy]
    cases ha : w.iWbAck <;> cases hwe : e.oWbWe <;>
      simp [spoken, nextRspStb, nextRspWord, herr, hbusy, ha, hwe, resolve, Expect.reply]

/-- **One clock** of `hbexec`, with a command outside of a bus cycle only, and a slave that answers
    what it has taken. -/
theorem settles (h : e.Sound) (hfree : e.oWbCyc = true → command iCmdStb iCmdWord = none)
    (hcyc : w.answer ≠ [] → e.oWbCyc = true)
    (ht : w.answer ≠ [] → e.oWbStb = true → w.iWbStall = false) :
    Settles e (next e false iCmdStb iCmdWord w) (command iCmdStb iCmdWord).toList w := by
  cases hbusy : e.oWbCyc with
  | false =>
    refine settles_idle h hbusy ?_
    by_contra ha
    rw [hcyc ha] at hbusy
    cases hbusy
  | true =>
    cases herr : w.iWbErr with
    | true =>
      refine settles_error h hbusy (hfree hbusy) herr (ht ?_)
      rw [WbReply.answer, if_pos herr]
      exact List.cons_ne_nil _ _
    | false =>
      refine settles_busy h hbusy (hfree hbusy) herr fun ha => ht ?_
      rw [WbReply.answer, herr, ha]
      exact List.cons_ne_nil _ _

/-- Inside a cycle one answer is missing, and outside none. -/
theorem accesses_owed (h : e.Sound) : accesses e.owed = if e.oWbCyc then 1 else 0 := by
  cases hbusy : e.oWbCyc with
  | true =>
    rw [owed_busy h hbusy]
    cases e.oWbWe <;> rfl
  | false => cases hn : e.newaddr <;> simp [Hbexec.owed, hbusy, hn, accesses, Expect.isAccess]

/-! ## Runs -/

/-- The inputs of `hbexec` outside of a reset. -/
structure ExecIn where
  iCmdStb : Bool
  iCmdWord : BitVec 34
  w : WbReply

section Run

variable (a : BitVec 30) (inc : Bool) (x : ℕ → ExecIn)

/-- After power up.  The address and its flag have no initial value. -/
def powerUp : Hbexec := { init with oWbAddr := a, inc := inc }

def step (e : Hbexec) (i : ExecIn) : Hbexec := next e false i.iCmdStb i.iCmdWord i.w

def run (n : ℕ) : Hbexec := Clocked.run step (powerUp a inc) x n

/-- The command presented on a clock. -/
def ExecIn.cmd (i : ExecIn) : List BusCmd := (command i.iCmdStb i.iCmdWord).toList

/-- What happens before clock `n`: the commands presented, the requests that the slave takes, its
    answers, and the responses strobed from clock 1 to clock `n`.  On clock 0 there is the response to
    the reset. -/
def commands (n : ℕ) : List BusCmd :=
  Clocked.events step (fun _ i => i.cmd) (powerUp a inc) x n

def requests (n : ℕ) : List BusEvent :=
  Clocked.events step (fun e i => e.takes i.w) (powerUp a inc) x n

def replies (n : ℕ) : List Answer :=
  Clocked.events step (fun _ i => i.w.answer) (powerUp a inc) x n

def responses (n : ℕ) : List (BitVec 34) :=
  Clocked.events step (fun e i => (step e i).spoken) (powerUp a inc) x n

/-- A command is presented only while `o_cmd_busy` is low. -/
def Polite : Prop := ∀ n, (x n).iCmdStb = true → (run a inc x n).oCmdBusy = false

/-- The slave answers no request twice and none that it has not taken, although it may take one and
    answer it on the same clock, and it answers inside of a cycle only. -/
structure AnswersOnce : Prop where
  cycle : ∀ n, (x n).w.answer ≠ [] → (run a inc x n).oWbCyc = true
  once : ∀ n, (replies a inc x n).length ≤ (requests a inc x n).length

/-- The slave takes a request in the end, and answers it in the end. -/
structure Obliges : Prop where
  takes : ∀ n, (run a inc x n).oWbStb = true → ∃ m, n ≤ m ∧ (x m).w.iWbStall = false
  answers : ∀ n, (replies a inc x n).length < (requests a inc x n).length →
    ∃ m, n ≤ m ∧ (replies a inc x n).length < (replies a inc x m).length

/-- **One transaction and one response for each command.**  The requests taken are those of the
    commands, but for one that is still on the pins; the responses are those to the commands, as far
    as the slave has answered; outside of a cycle nothing is open, and a slave that obliges sees to
    that time and again. -/
structure OnePerCommand : Prop where
  requests : ∀ n, requests a inc x n ++ (run a inc x n).onPins =
    Cursor.along Cursor.issues { addr := a, inc := inc } (commands a inc x n)
  responses : ∀ n, responses a inc x (n + 1) =
    resolve (Cursor.along Cursor.answers { addr := a, inc := inc } (commands a inc x n))
      (replies a inc x (n + 1))
  address : ∀ n pre mid, pre ++ mid <+: commands a inc x n → (∀ b ∈ mid, b.isAddr = false) →
    (Cursor.afterAll { addr := a, inc := inc } (pre ++ mid)).addr =
      (Cursor.afterAll { addr := a, inc := inc } pre).addr +
        BitVec.ofNat 30 mid.length * stride (Cursor.afterAll { addr := a, inc := inc } pre).inc
  idle : ∀ n, (run a inc x n).oWbCyc = false →
    Hbexec.requests a inc x n =
        Cursor.along Cursor.issues { addr := a, inc := inc } (commands a inc x n) ∧
      (replies a inc x n).length = (Hbexec.requests a inc x n).length
  ends : Obliges a inc x → ∀ n, ∃ m, n ≤ m ∧ (run a inc x m).oWbCyc = false

/-- The books at clock `n`: `done` has been settled. -/
structure Books (n : ℕ) (done : List Expect) : Prop where
  sound : (run a inc x n).Sound
  cursor : (run a inc x n).cursor =
    Cursor.afterAll { addr := a, inc := inc } (commands a inc x n)
  pins : requests a inc x n ++ (run a inc x n).onPins =
    Cursor.along Cursor.issues { addr := a, inc := inc } (commands a inc x n)
  owed : Cursor.along Cursor.answers { addr := a, inc := inc } (commands a inc x n) =
    done ++ (run a inc x n).owed
  count : accesses done = (replies a inc x n).length
  said : resolve done (replies a inc x n) = responses a inc x n

end Run

section Conservation

variable {a : BitVec 30} {inc : Bool} {x : ℕ → ExecIn} {n : ℕ} {done : List Expect}

/-- The requests and the answers, counted. -/
theorem Books.balance (h : Books a inc x n done) :
    (requests a inc x n).length + (run a inc x n).onPins.length =
      (replies a inc x n).length + if (run a inc x n).oWbCyc then 1 else 0 := by
  have hlen := congrArg List.length h.pins
  rw [List.length_append, Cursor.length_issues, h.owed, accesses_append, h.count,
    accesses_owed h.sound] at hlen
  exact hlen

theorem length_onPins (e : Hbexec) : e.onPins.length = if e.oWbStb then 1 else 0 := by
  cases hs : e.oWbStb <;> simp [onPins, hs]

/-- What the clock at `n` does to the books. -/
theorem Books.settles (h : Books a inc x n done) (hp : Polite a inc x) (ha : AnswersOnce a inc x) :
    Settles (run a inc x n) (run a inc x (n + 1)) (x n).cmd (x n).w := by
  refine Hbexec.settles h.sound ?_ (ha.cycle n) ?_
  · intro hbusy
    cases hs : (x n).iCmdStb with
    | false => rfl
    | true =>
      have hidle := hp n hs
      rw [oCmdBusy, hbusy] at hidle
      cases hidle
  · intro hans hstb
    by_contra hst
    -- nothing is taken, so that there is one answer too many
    have htakes : (run a inc x n).takes (x n).w = [] := by
      rw [Hbexec.takes, if_pos (by simpa using hst)]
    have hreq : requests a inc x (n + 1) = requests a inc x n := by
      show requests a inc x n ++ (run a inc x n).takes (x n).w = _
      rw [htakes, List.append_nil]
    have hrep : (replies a inc x (n + 1)).length = (replies a inc x n).length + (x n).w.answer.length :=
      List.length_append
    have honce := ha.once (n + 1)
    have hbal := h.balance
    rw [length_onPins, hstb, h.sound.cyc hstb, if_pos rfl] at hbal
    have hpos := List.length_pos_iff.2 hans
    rw [hreq, hrep] at honce
    omega

theorem Books.next (h : Books a inc x n done) (hs : Settles (run a inc x n) (run a inc x (n + 1))
    (x n).cmd (x n).w) : ∃ said, Books a inc x (n + 1) (done ++ said) := by
  obtain ⟨said, howed, hcount, hsaid⟩ := hs.owed
  have hcmd : commands a inc x (n + 1) = commands a inc x n ++ (x n).cmd := rfl
  have hreq : requests a inc x (n + 1) =
      requests a inc x n ++ (run a inc x n).takes (x n).w := rfl
  have hrep : replies a inc x (n + 1) = replies a inc x n ++ (x n).w.answer := rfl
  have hrsp : responses a inc x (n + 1) =
      responses a inc x n ++ (run a inc x (n + 1)).spoken := rfl
  refine ⟨said, hs.sound, ?_, ?_, ?_, ?_, ?_⟩
  · rw [hcmd, Cursor.afterAll_append, ← h.cursor]
    exact hs.cursor
  · rw [hcmd, Cursor.along_append, ← h.cursor, ← h.pins, hreq, List.append_assoc, List.append_assoc,
      hs.pins]
  · rw [hcmd, Cursor.along_append, ← h.cursor, h.owed, List.append_assoc, List.append_assoc, howed]
  · rw [accesses_append, h.count, hcount, hrep, List.length_append]
  · rw [hrep, hrsp, resolve_append h.count, h.said, hsaid]

theorem books (hp : Polite a inc x) (ha : AnswersOnce a inc x) (n : ℕ) :
    ∃ done, Books a inc x n done := by
  induction n with
  | zero =>
    exact ⟨[], ⟨fun h => absurd h Bool.false_ne_true, fun h => absurd h Bool.false_ne_true⟩,
      rfl, rfl, rfl, rfl, rfl⟩
  | succ n ih =>
    obtain ⟨done, h⟩ := ih
    obtain ⟨said, h'⟩ := h.next (h.settles hp ha)
    exact ⟨_, h'⟩

/-- A cycle without an end would keep the books as they are, but for a request to be taken. -/
theorem Books.stuck (hp : Polite a inc x) (ha : AnswersOnce a inc x) (m : ℕ)
    (hbusy : ∀ k, m ≤ k → (run a inc x k).oWbCyc = true) (d : ℕ) :
    (replies a inc x (m + d)).length = (replies a inc x m).length := by
  have hcmds : ∀ d, commands a inc x (m + d) = commands a inc x m := by
    intro d
    induction d with
    | zero => rfl
    | succ d ih =>
      have hnone : (x (m + d)).cmd = [] := by
        cases hs : (x (m + d)).iCmdStb with
        | false =>
          rw [ExecIn.cmd, command, hs]
          rfl
        | true =>
          have hidle := hp (m + d) hs
          rw [oCmdBusy, hbusy (m + d) (by omega)] at hidle
          cases hidle
      show commands a inc x (m + d) ++ (x (m + d)).cmd = _
      rw [hnone, List.append_nil, ih]
  have hcount : ∀ k, m ≤ k → (replies a inc x k).length + 1 =
      (Cursor.along Cursor.issues { addr := a, inc := inc } (commands a inc x k)).length := by
    intro k hk
    obtain ⟨done, h⟩ := books hp ha k
    have hbal := h.balance
    rw [hbusy k hk, if_pos rfl, ← List.length_append, h.pins] at hbal
    exact hbal.symm
  have h1 := hcount m (Nat.le_refl m)
  have h2 := hcount (m + d) (by omega)
  rw [hcmds d] at h2
  omega

/-- A slave that obliges ends each cycle. -/
theorem ends (hp : Polite a inc x) (ha : AnswersOnce a inc x) (ho : Obliges a inc x) (n : ℕ) :
    ∃ m, n ≤ m ∧ (run a inc x m).oWbCyc = false := by
  by_contra hnever
  have hbusy : ∀ k, n ≤ k → (run a inc x k).oWbCyc = true := by
    intro k hk
    by_contra hidle
    exact hnever ⟨k, hk, by simpa using hidle⟩
  -- the request is taken in the end
  obtain ⟨m, hnm, hstb⟩ : ∃ m, n ≤ m ∧ (run a inc x m).oWbStb = false := by
    cases hs : (run a inc x n).oWbStb with
    | false => exact ⟨n, Nat.le_refl n, hs⟩
    | true =>
      obtain ⟨m, hnm, hst⟩ := ho.takes n hs
      cases hs' : (run a inc x m).oWbStb with
      | false => exact ⟨m, hnm, hs'⟩
      | true =>
        refine ⟨m + 1, by omega, ?_⟩
        show nextStb (run a inc x m) false (x m).iCmdStb (x m).iCmdWord (x m).w = false
        simp [nextStb, hs', hst]
  -- and answered, which changes the number of answers
  obtain ⟨done, h⟩ := books hp ha m
  have hbal := h.balance
  rw [length_onPins, hstb, hbusy m hnm] at hbal
  have hopen : (replies a inc x m).length < (requests a inc x m).length := by
    simp only [Bool.false_eq_true, if_false, if_true, Nat.add_zero] at hbal
    omega
  obtain ⟨m', hmm', hlt⟩ := ho.answers m hopen
  obtain ⟨d, rfl⟩ := Nat.exists_eq_add_of_le hmm'
  have hsame := Books.stuck hp ha m (fun k hk => hbusy k (Nat.le_trans hnm hk)) d
  omega

/-- **`hbexec`** performs one bus transaction and one response for each command. -/
theorem one_per_command (a : BitVec 30) (inc : Bool) (x : ℕ → ExecIn) (hp : Polite a inc x)
    (ha : AnswersOnce a inc x) : OnePerCommand a inc x := by
  constructor
  · intro n
    obtain ⟨done, h⟩ := books hp ha n
    exact h.pins
  · intro n
    obtain ⟨done, h⟩ := books hp ha n
    have hs := h.settles hp ha
    show responses a inc x n ++ (run a inc x (n + 1)).spoken =
      resolve _ (replies a inc x n ++ (x n).w.answer)
    rw [h.owed, resolve_append h.count, h.said, hs.spoken]
  · intro n pre mid _ hmid
    rw [Cursor.afterAll_append, Cursor.addr_afterAll _ _ hmid]
  · intro n hidle
    obtain ⟨done, h⟩ := books hp ha n
    have hstb : (run a inc x n).oWbStb = false := by
      by_contra hs
      rw [h.sound.cyc (by simpa using hs)] at hidle
      cases hidle
    have hpins : (run a inc x n).onPins = [] := by simp [onPins, hstb]
    have hbal := h.balance
    have hall := h.pins
    rw [hpins, List.append_nil] at hall
    rw [hpins, hidle] at hbal
    exact ⟨hall, hbal.symm⟩
  · exact ends hp ha

end Conservation

/-! ## A run -/

/-- The address 0x100 is set, 7 is written there with the acknowledgement on the accepting clock, and
    a read of the next word is answered with an error on the clock behind. -/
def threeCommands : ℕ → ExecIn
  | 0 => { iCmdStb := true, iCmdWord := 0b10#2 ++ 0x400#32, w := quiet }
  | 1 => { iCmdStb := true, iCmdWord := 0b01#2 ++ 7#32, w := quiet }
  | 2 => { iCmdStb := false, iCmdWord := 0, w := { quiet with iWbAck := true } }
  | 3 => { iCmdStb := true, iCmdWord := 0b00#2 ++ 0#32, w := quiet }
  | 5 => { iCmdStb := false, iCmdWord := 0, w := { quiet with iWbErr := true } }
  | _ => { iCmdStb := false, iCmdWord := 0, w := quiet }
where quiet : WbReply := { iWbAck := false, iWbStall := false, iWbErr := false, iWbData := 0 }

/-- Nothing happens from clock 6 on. -/
theorem threeCommands_rest (n : ℕ) :
    replies 0 false threeCommands (6 + n) = replies 0 false threeCommands 6 := by
  induction n with
  | zero => rfl
  | succ n ih =>
    have hx : (threeCommands (6 + n)).w.answer = [] := by
      rw [Nat.add_comm]
      rfl
    show replies 0 false threeCommands (6 + n) ++ (threeCommands (6 + n)).w.answer = _
    rw [hx, List.append_nil, ih]

theorem one_per_command_three : OnePerCommand 0 false threeCommands :=
  one_per_command 0 false threeCommands
    (by
      intro n hn
      have hsix : ∀ k < 6, (threeCommands k).iCmdStb = true →
          (run 0 false threeCommands k).oCmdBusy = false := by decide
      rcases Nat.lt_or_ge n 6 with hlt | hge
      · exact hsix n hlt hn
      · obtain ⟨k, rfl⟩ := Nat.exists_eq_add_of_le hge
        rw [Nat.add_comm] at hn
        cases hn)
    { cycle := by
        intro n hn
        have hsix : ∀ k < 6, (threeCommands k).w.answer ≠ [] →
            (run 0 false threeCommands k).oWbCyc = true := by decide
        rcases Nat.lt_or_ge n 6 with hlt | hge
        · exact hsix n hlt hn
        · obtain ⟨k, rfl⟩ := Nat.exists_eq_add_of_le hge
          rw [Nat.add_comm] at hn
          exact absurd rfl hn
      once := by
        intro n
        rcases Nat.lt_or_ge n 6 with hlt | hge
        · revert n
          decide
        · obtain ⟨k, rfl⟩ := Nat.exists_eq_add_of_le hge
          have hpre : requests 0 false threeCommands 6 <+: requests 0 false threeCommands (6 + k) :=
            Clocked.events_mono step (fun e i => e.takes i.w) (powerUp 0 false) threeCommands
              (Nat.le_add_right 6 k)
          rw [threeCommands_rest]
          exact Nat.le_trans (by decide) hpre.length_le }

end Hbexec

end ZipStormMX.Hexbus
