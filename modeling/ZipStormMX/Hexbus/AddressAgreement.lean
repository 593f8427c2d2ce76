/-
  A program that calls `writeio`, `writei`, `writez`, `readio`, `readi` and `readz`.

  After a read, both ends agree on where the next access goes.  After a write they need not: `writev`
  moves the address of the host on for every acknowledgement as it arrives, and once more for all of
  the words in the end; and without words it moves the address of the host to where no command has
  moved that of the device.  Nothing comes of it as long as the next call sends its address.
-/
import Mathlib.Algebra.Order.Ring.Int
import ZipStormMX.Hexbus.ReadError
import ZipStormMX.Hexbus.Writing

namespace ZipStormMX.Hexbus

open Hbconsole (BusEvent)

/-! ## Calls -/

/-- What a caller may hand to `writei` and `writez`: as many words as an `int` counts. -/
abbrev WriteBuf := { ws : List (BitVec 32) // ws.length < 2 ^ 31 }

/-- A call, at a word address. -/
inductive Access where
  | writeio (b : BitVec 30) (v : BitVec 32)
  | writei (b : BitVec 30) (buf : WriteBuf)
  | writez (b : BitVec 30) (buf : WriteBuf)
  | readio (b : BitVec 30)
  | readi (b : BitVec 30) (len : ℤ)
  | readz (b : BitVec 30) (len : ℤ)

namespace Access

/-- The address of the call. -/
def addr : Access → BitVec 30
  | .writeio b _ | .writei b _ | .writez b _ | .readio b | .readi b _ | .readz b _ => b

/-- Whether the address is to move on. -/
def inc : Access → Bool
  | .writei _ _ | .readi _ _ => true
  | _ => false

/-- The words to write. -/
def words : Access → List (BitVec 32)
  | .writeio _ v => [v]
  | .writei _ buf | .writez _ buf => buf.1
  | _ => []

/-- The number of words to read. -/
def len : Access → ℤ
  | .readio _ => 1
  | .readi _ len | .readz _ len => len
  | _ => 0

def isWrite : Access → Bool
  | .writeio _ _ | .writei _ _ | .writez _ _ => true
  | _ => false

/-- The call gets as far as `encode_address`. -/
def encodes (c : Access) : Bool := c.isWrite || decide (0 < c.len)

/-- What `encode_address` puts in front of the first word. -/
def text (c : Access) (s : HexBus) : List (BitVec 8) :=
  encodeAddress s (addrArg (Belief.byteAddr c.addr) c.inc)

/-- Word `i` is asked for at the address, or `i` words behind it if the address moves on. -/
def reads (c : Access) : List (BitVec 30) :=
  (List.range c.len.toNat).map fun i => wordAddr c.addr c.inc i

def writes (c : Access) : List BusEvent :=
  c.words.mapIdx fun i v => .write (wordAddr c.addr c.inc i) v

/-- The accesses that the caller asks for. -/
def asks (c : Access) : List BusEvent := c.writes ++ c.reads.map .read

end Access

/-- `writeio` and `readio` note where they have been. -/
@[simps]
def HexBus.noted (s : HexBus) (a : BitVec 32) : HexBus := { s with mLastaddr := a, mAddrSet := true }

/-- What the calls do: `writeio` notes the address after its `writev`, and `readio` checks it after
    its `readv`. -/
inductive Performs (E : Link → LinkIn → Prop) (l : Link) :
    Access → Link → List (BitVec 32) → Ending → Prop where
  | writeio {b : BitVec 30} {v : BitVec 32} {l' : Link}
      (h : Writev E l (Belief.byteAddr b) false [v] l' .returned) :
      Performs E l (.writeio b v) { l' with bus := l'.bus.noted (Belief.byteAddr b) } [] .returned
  | writeioThrew {b : BitVec 30} {v : BitVec 32} {l' : Link} {e : Thrown}
      (h : Writev E l (Belief.byteAddr b) false [v] l' (.threw e)) :
      Performs E l (.writeio b v) l' [] (.threw e)
  | writei {b : BitVec 30} {buf : WriteBuf} {l' : Link} {e : Ending}
      (h : Writev E l (Belief.byteAddr b) true buf.1 l' e) : Performs E l (.writei b buf) l' [] e
  | writez {b : BitVec 30} {buf : WriteBuf} {l' : Link} {e : Ending}
      (h : Writev E l (Belief.byteAddr b) false buf.1 l' e) : Performs E l (.writez b buf) l' [] e
  | readio {b : BitVec 30} {l' : Link} {vs : List (BitVec 32)}
      (h : Readv E l (Belief.byteAddr b) false 1 l' vs .returned)
      (hlast : l'.bus.mLastaddr = Belief.byteAddr b) : Performs E l (.readio b) l' vs .returned
  | readioExited {b : BitVec 30} {l' : Link} {vs : List (BitVec 32)}
      (h : Readv E l (Belief.byteAddr b) false 1 l' vs .returned)
      (hlast : l'.bus.mLastaddr ≠ Belief.byteAddr b) :
      Performs E l (.readio b) { l' with bus := { l'.bus with mAddrSet := false } } vs .exited
  | readioEnded {b : BitVec 30} {l' : Link} {vs : List (BitVec 32)} {e : Ending}
      (h : Readv E l (Belief.byteAddr b) false 1 l' vs e) (he : e ≠ .returned) :
      Performs E l (.readio b) l' vs e
  | readi {b : BitVec 30} {len : ℤ} {l' : Link} {vs : List (BitVec 32)} {e : Ending}
      (h : Readv E l (Belief.byteAddr b) true len l' vs e) : Performs E l (.readi b len) l' vs e
  | readz {b : BitVec 30} {len : ℤ} {l' : Link} {vs : List (BitVec 32)} {e : Ending}
      (h : Readv E l (Belief.byteAddr b) false len l' vs e) : Performs E l (.readz b len) l' vs e

/-- A call that has been made, with what there was before and after it. -/
structure Made where
  before : Link
  call : Access
  after : Link
  buf : List (BitVec 32)
  ending : Ending

/-- Calls one after the other, while clocks pass. -/
inductive Session (E : Link → LinkIn → Prop) : Link → List Made → Prop where
  | nil (l : Link) : Session E l []
  | cons {l : Link} {m : Made} {ms : List Made} (hr : Link.Runs E l m.before)
      (hp : Performs E m.before m.call m.after m.buf m.ending) (hs : Session E m.after ms) :
      Session E l (m :: ms)

/-- What is to hold of a call: it returns, the accesses are those asked for, the words read are what
    `D` allows at their addresses, and if the address is not sent it is in the device already. -/
structure Made.Right (D : BitVec 30 → BitVec 32 → Prop) (m : Made) : Prop where
  returned : m.ending = .returned
  accesses : m.after.taken = m.before.taken ++ m.call.asks
  data : List.Forall₂ D m.call.reads m.buf
  omitted : m.call.encodes = true → m.call.text m.before.bus = [] →
    m.before.dev.wbexec.oWbAddr = m.call.addr ∧ m.before.dev.wbexec.inc = true

/-- A slave that answers without errors, over the bare pipeline: there is no `hbidle` in it. -/
structure Faultless (D : BitVec 30 → BitVec 32 → Prop) (l : Link) (i : LinkIn) : Prop where
  legal : l.Legal i D
  noErr : i.wb.iWbErr = false
  noIdle : ∀ f ∈ i.filler, f ≠ .idle

/-! ## After a write -/

/-- Whether the last call that has moved the address of the host was a write. -/
def Access.stale (c : Access) (stale : Bool) (s : HexBus) : Bool :=
  if c.isWrite then
    -- without a word nothing is sent, and nothing has changed if the address is the one it was
    if c.words = [] ∧ s.mAddrSet = true ∧ s.mLastaddr = Belief.byteAddr c.addr then stale else true
  else if 0 < c.len then false
  else stale

/-- After a write, the next address is sent. -/
def Fresh : Bool → List Made → Prop
  | _, [] => True
  | stale, m :: ms => (stale = true → m.call.encodes = true → m.call.text m.before.bus ≠ []) ∧
      Fresh (m.call.stale stale m.before.bus) ms

/-! ## writev -/

theorem along_writes (b : BitVec 30) (inc : Bool) (ws : List (BitVec 32)) :
    Cursor.along Cursor.issues { addr := b, inc := inc } (writes ws) =
      ws.mapIdx fun i v => BusEvent.write (wordAddr b inc i) v := by
  induction ws generalizing b with
  | nil => rfl
  | cons v ws ih =>
    have hcons : Cursor.along Cursor.issues { addr := b, inc := inc } (writes (v :: ws)) =
        .write b v ::
          Cursor.along Cursor.issues { addr := b + stride inc, inc := inc } (writes ws) := rfl
    have hzero : wordAddr b inc 0 = b := by cases inc <;> simp [wordAddr]
    rw [hcons, ih, List.mapIdx_cons, hzero]
    simp only [wordAddr_succ]

/-- What `encode_address` returns is empty or an address command. -/
theorem encodeAddress_of_ne {s : HexBus} {a : BitVec 32} (h : encodeAddress s a ≠ []) :
    encodeAddress s a = hexbAddr :: fmt08x a := by
  rw [encodeAddress] at h ⊢
  split_ifs at h ⊢
  · exact absurd rfl h
  · rfl

theorem Link.moveOn_zero (l : Link) : l.moveOn 0 = l := by
  have hzero : BitVec.ofNat 32 (4 * 0) = 0#32 := rfl
  rw [Link.moveOn, hzero, BitVec.add_zero]

section

variable {E : Link → LinkIn → Prop} {D : BitVec 30 → BitVec 32 → Prop} {F : Filler → Prop}
  {l l' : Link} {b : BitVec 30} {inc : Bool} {buf : List (BitVec 32)} {e : Ending}

/-- `writev` returns, and the words are written where they are to be.  Without words, it only
    notes the address. -/
theorem writev_of_leads (hE : ∀ l i, E l i →
      l.Legal i D ∧ (∀ f ∈ i.filler, F f) ∧ i.wb.iWbErr = false ∧ l.Unhurried)
    (hl : Rest F l) {cmds : List BusCmd} {said : List Expect}
    (hlead : Leads { l with bus := l.bus.writeFrom (Belief.byteAddr b) } { addr := b, inc := inc }
      (encodeAddress l.bus (addrArg (Belief.byteAddr b) inc)) cmds said)
    (hlen : buf.length < 2 ^ 32) (h : Writev E l (Belief.byteAddr b) inc buf l' e) :
    e = .returned ∧ Rest F l' ∧
      l'.taken = l.taken ++ buf.mapIdx (fun i v => .write (wordAddr b inc i) v) ∧
      (buf = [] → l' = { l with bus := l.bus.writeFrom (Belief.byteAddr b) }) := by
  have hrest0 : Rest F { l with bus := l.bus.writeFrom (Belief.byteAddr b) } :=
    hl.withBus hl.hushed
  have hplain : Link.Plain (encodeAddress l.bus (addrArg (Belief.byteAddr b) inc)) :=
    plain_texts.2.2.2 _ _
  cases h with
  | threw hr =>
    obtain ⟨hnone, -⟩ := hr.outcome hE hrest0 rfl hlead hplain hlen
    cases hnone
  | @returned l1 hr =>
    obtain ⟨-, hnil, hcons, htaken⟩ := hr.outcome hE hrest0 rfl hlead hplain hlen
    rw [along_writes] at htaken
    have hrest : Rest F l1 := by
      by_cases hbuf : buf = []
      · rw [hnil hbuf]
        exact hrest0
      · exact (hcons hbuf).1
    cases inc with
    | false => exact ⟨rfl, hrest, htaken, hnil⟩
    | true =>
      refine ⟨rfl, hrest.withBus hrest.hushed, htaken, fun hbuf => ?_⟩
      rw [if_pos rfl, hnil hbuf, hbuf]
      exact Link.moveOn_zero _

/-- Without errors, and without idle characters, `readv` returns. -/
theorem readv_returns {len : ℤ} (hE : ∀ l i, E l i → l.Legal i D ∧ ∀ f ∈ i.filler, F f)
    (herr : ∀ l i, E l i → i.wb.iWbErr = false) (hidle : ¬ F .idle) (hl : Rest F l) (hlen : 0 < len)
    {cmds : List BusCmd} {said : List Expect}
    (hlead : Leads { l with bus := l.bus.readFrom (Belief.byteAddr b) inc } { addr := b, inc := inc }
      (encodeAddress l.bus (addrArg (Belief.byteAddr b) inc)) cmds said)
    (h : Readv E l (Belief.byteAddr b) inc len l' buf e) : e = .returned := by
  have hexit := (readv_of_leads hE hl hlen hlead h).1
  cases h with
  | none _ _ => rfl
  | returned _ _ _ => rfl
  | exited hn hr hlast => exact absurd rfl hexit
  | @threw n _ _ _ hr =>
    have hn : 0 < n := by omega
    cases readLoop_of_leads hE hl hn hlead hr with
    | abort h0 => exact absurd h0 hidle
    | error _ _ _ _ hbad =>
      obtain ⟨l1, i, hi, he⟩ := hbad
      rw [herr l1 i hi] at he
      cases he

end

/-! ## One call -/

namespace Access

/-- Where the address is sent, or both ends agree, what is sent leads to the address. -/
theorem leads {F : Filler → Prop} {l : Link} {c : Access} {stale : Bool} (hl : Rest F l)
    (hg : stale = false → l.Agrees) (hfresh : stale = true → c.text l.bus ≠ []) (s : HexBus) :
    ∃ cmds said, Leads { l with bus := s } { addr := c.addr, inc := c.inc } (c.text l.bus)
      cmds said := by
  cases stale with
  | false => exact leads_of_agrees hl (hg rfl) c.addr c.inc s
  | true =>
    rw [text, encodeAddress_of_ne (hfresh rfl)]
    exact ⟨_, _, .command⟩

/-- An address that is not sent is in the device. -/
theorem there_of_text_nil {l : Link} {c : Access} (hg : l.Agrees) (h : c.text l.bus = []) :
    l.dev.wbexec.oWbAddr = c.addr ∧ l.dev.wbexec.inc = true := by
  by_cases hset : l.bus.mAddrSet = true
  · obtain ⟨hlast, hinc⟩ := hg hset
    rcases encodeAddress_cases (b := c.addr) hlast c.inc with htext | ⟨-, -, haddr, -, hi⟩
    · rw [text, htext] at h
      cases h
    · exact ⟨haddr, hinc.symm.trans hi⟩
  · rw [text, encodeAddress_unset (by simpa using hset)] at h
    cases h

end Access

/-- The words read, at the addresses they were asked for at. -/
theorem forall₂_data {D : BitVec 30 → BitVec 32 → Prop} {addrs : List (BitVec 30)}
    {buf : List (BitVec 32)}
    (h : List.Forall₂ (fun x d => ∃ b, x = Expect.data b ∧ D b d) (addrs.map Expect.data) buf) :
    List.Forall₂ D addrs buf := by
  rw [List.forall₂_map_left_iff] at h
  refine h.imp ?_
  rintro a d ⟨b, hb, hd⟩
  injection hb with hb
  rwa [hb]

section

variable {E : Link → LinkIn → Prop} {D : BitVec 30 → BitVec 32 → Prop} {l l' : Link} {c : Access}
  {buf : List (BitVec 32)} {e : Ending} {stale : Bool}

/-- What is left when a call is over. -/
structure CallOutcome (D : BitVec 30 → BitVec 32 → Prop) (l l' : Link) (c : Access)
    (buf : List (BitVec 32)) (e : Ending) (stale : Bool) : Prop where
  returned : e = .returned
  rest : Rest (· ≠ .idle) l'
  accesses : l'.taken = l.taken ++ c.asks
  data : List.Forall₂ D c.reads buf
  agrees : c.stale stale l.bus = false → l'.Agrees

/-- The calls that read. -/
theorem outcome_of_readv (hE : ∀ l i, E l i → Faultless D l i) (hl : Rest (· ≠ .idle) l)
    (hg : stale = false → l.Agrees)
    (hfresh : stale = true → c.encodes = true → c.text l.bus ≠ []) (hread : c.isWrite = false)
    (hwords : c.words = []) (h : Readv E l (Belief.byteAddr c.addr) c.inc c.len l' buf e) :
    CallOutcome D l l' c buf e stale ∧
      (0 < c.len → l'.bus.mLastaddr = addrAfter (Belief.byteAddr c.addr) c.inc c.len.toNat) := by
  have hE' : ∀ l i, E l i → l.Legal i D ∧ ∀ f ∈ i.filler, f ≠ .idle :=
    fun l i hi => ⟨(hE l i hi).legal, (hE l i hi).noIdle⟩
  have hasks : c.asks = c.reads.map .read := by
    rw [Access.asks, Access.writes, hwords]
    rfl
  by_cases hlen : 0 < c.len
  · obtain ⟨cmds, said, hlead⟩ := Access.leads hl hg
      (fun hs => hfresh hs (by simp [Access.encodes, hlen]))
      (l.bus.readFrom (Belief.byteAddr c.addr) c.inc)
    have hret := readv_returns hE' (fun l i hi => (hE l i hi).noErr) (fun hidle => hidle rfl) hl hlen
      hlead h
    obtain ⟨hrest, hag, htaken, hlast, hdata⟩ := (readv_of_leads hE' hl hlen hlead h).2 hret
    refine ⟨⟨hret, hrest, ?_, ?_, fun _ => hag⟩, fun _ => hlast⟩
    · rw [htaken, hasks, Access.reads, List.map_map]
      rfl
    · apply forall₂_data
      rw [Access.reads, List.map_map]
      exact hdata
  · obtain ⟨rfl, rfl, rfl⟩ := h.of_nonpos (by omega)
    have hreads : c.reads = [] := by
      rw [Access.reads, Int.toNat_of_nonpos (by omega)]
      rfl
    refine ⟨⟨rfl, hl, ?_, ?_, ?_⟩, fun h0 => absurd h0 hlen⟩
    · rw [hasks, hreads]
      exact (List.append_nil _).symm
    · rw [hreads]
      exact .nil
    · rw [Access.stale, hread, if_neg Bool.false_ne_true, if_neg hlen]
      exact hg

/-- The calls that write. -/
theorem outcome_of_writev (hE : ∀ l i, E l i → Faultless D l i ∧ l.Unhurried)
    (hl : Rest (· ≠ .idle) l) (hg : stale = false → l.Agrees)
    (hfresh : stale = true → c.encodes = true → c.text l.bus ≠ []) (hwrite : c.isWrite = true)
    (hlen : c.len = 0) (hwords : c.words.length < 2 ^ 31)
    (h : Writev E l (Belief.byteAddr c.addr) c.inc c.words l' e) :
    CallOutcome D l l' c [] e stale := by
  obtain ⟨cmds, said, hlead⟩ := Access.leads hl hg
    (fun hs => hfresh hs (by simp [Access.encodes, hwrite]))
    (l.bus.writeFrom (Belief.byteAddr c.addr))
  have hreads : c.reads = [] := by
    rw [Access.reads, hlen]
    rfl
  obtain ⟨he, hrest, htaken, hnil⟩ := writev_of_leads
    (fun l i hi => ⟨(hE l i hi).1.legal, (hE l i hi).1.noIdle, (hE l i hi).1.noErr, (hE l i hi).2⟩)
    hl hlead (by omega) h
  refine ⟨he, hrest, ?_, ?_, ?_⟩
  · rw [htaken, Access.asks, hreads]
    exact congrArg (l.taken ++ ·) (List.append_nil _).symm
  · rw [hreads]
    exact .nil
  · rw [Access.stale, if_pos hwrite]
    split_ifs with hsame
    · obtain ⟨hempty, hset, hlast⟩ := hsame
      intro hs _
      obtain ⟨h1, h2⟩ := hg hs hset
      rw [hnil hempty]
      exact ⟨hlast.symm.trans h1, h2⟩
    · intro hs
      cases hs

/-- **One call**, after a state in which both ends agree, or with the address sent. -/
theorem Performs.outcome (hE : ∀ l i, E l i → Faultless D l i ∧ l.Unhurried)
    (hl : Rest (· ≠ .idle) l) (hg : stale = false → l.Agrees)
    (hfresh : stale = true → c.encodes = true → c.text l.bus ≠ []) (hp : Performs E l c l' buf e) :
    CallOutcome D l l' c buf e stale := by
  have hE' : ∀ l i, E l i → Faultless D l i := fun l i hi => (hE l i hi).1
  have hone : 1 < 2 ^ 31 := by decide
  cases hp with
  | @writeio b v _ h =>
    have ho := outcome_of_writev hE hl hg hfresh rfl rfl hone h
    refine ⟨rfl, ho.rest.withBus ho.rest.hushed, ho.accesses, ho.data, ?_⟩
    intro hs
    have hwrite : (Access.writeio b v).isWrite = true := rfl
    have hword : (Access.writeio b v).words ≠ [] := List.cons_ne_nil v []
    have hstale : (Access.writeio b v).stale stale l.bus = true := by
      rw [Access.stale, if_pos hwrite, if_neg fun hc => hword hc.1]
    rw [hstale] at hs
    cases hs
  | writeioThrew h => exact outcome_of_writev hE hl hg hfresh rfl rfl hone h
  | @writei _ ws _ _ h => exact outcome_of_writev hE hl hg hfresh rfl rfl ws.2 h
  | @writez _ ws _ _ h => exact outcome_of_writev hE hl hg hfresh rfl rfl ws.2 h
  | readio h hlast => exact (outcome_of_readv hE' hl hg hfresh rfl rfl h).1
  | @readioExited b _ _ h hlast =>
    have hat := (outcome_of_readv hE' hl hg hfresh rfl rfl h).2 Int.one_pos
    have hstay : addrAfter (Belief.byteAddr b) false 1 = Belief.byteAddr b := BitVec.add_zero _
    exact absurd (hat.trans hstay) hlast
  | readioEnded h he => exact absurd (outcome_of_readv hE' hl hg hfresh rfl rfl h).1.returned he
  | readi h => exact (outcome_of_readv hE' hl hg hfresh rfl rfl h).1
  | readz h => exact (outcome_of_readv hE' hl hg hfresh rfl rfl h).1

end

/-! ## All of them -/

/-- The calls of a session, one after the other. -/
theorem Session.right {E : Link → LinkIn → Prop} {D : BitVec 30 → BitVec 32 → Prop} {l : Link}
    {ms : List Made} {stale : Bool} (hE : ∀ l i, E l i → Faultless D l i ∧ l.Unhurried)
    (hs : Session E l ms) (hl : Rest (· ≠ .idle) l) (hg : stale = false → l.Agrees)
    (hf : Fresh stale ms) : ∀ m ∈ ms, m.Right D := by
  induction hs generalizing stale with
  | nil l =>
    intro m hm
    cases hm
  | @cons l m ms hr hp _ ih =>
    obtain ⟨hfresh, hf⟩ := hf
    have hE' : ∀ l i, E l i → l.Legal i D ∧ ∀ f ∈ i.filler, f ≠ .idle :=
      fun l i hi => ⟨(hE l i hi).1.legal, (hE l i hi).1.noIdle⟩
    have hbefore : Rest (· ≠ .idle) m.before := (hl.runs hE' hr).1
    have hag : stale = false → m.before.Agrees := fun h => hl.agrees_runs hE' hr (hg h)
    have ho := hp.outcome hE hbefore hag hfresh
    intro x hx
    rcases List.mem_cons.1 hx with rfl | hx
    · refine ⟨ho.returned, ho.accesses, ho.data, ?_⟩
      intro henc htext
      cases stale with
      | false => exact Access.there_of_text_nil (hag rfl) htext
      | true => exact absurd htext (hfresh rfl henc)
    · exact ih ho.rest ho.agrees hf x hx

/-- **Host and device agree on the address**, if after a write the next address is sent and no
    command reaches `hbexec` inside a bus cycle: each call returns, and every word is written to or
    read from the address that was asked for. -/
theorem session_right {D : BitVec 30 → BitVec 32 → Prop} {l : Link} {ms : List Made}
    (hl : Rest (· ≠ .idle) l) (hg : l.Agrees)
    (hs : Session (fun l i => Faultless D l i ∧ l.Unhurried) l ms) (hf : Fresh false ms) :
    ∀ m ∈ ms, m.Right D :=
  hs.right (fun _ _ h => h) hl (fun _ => hg) hf

/-! ## A write, and a read behind it -/

/-- Whether a slave that is a memory may do this, without an error, and nothing reaches `hbexec`
    inside a bus cycle. -/
def Link.faultless (mem : BitVec 30 → BitVec 32) (l : Link) (i : LinkIn) : Bool :=
  l.allows mem i && !i.wb.iWbErr && i.filler.all (· != .idle) &&
    !(l.dev.wbexec.oWbCyc && l.dev.packxi.issued.isSome)

/-- A slave whose words are their own addresses. -/
def OwnAddress (b : BitVec 30) (d : BitVec 32) : Prop := d = ownAddress b

theorem Link.faultless_sound (l : Link) (i : LinkIn) (h : l.faultless ownAddress i = true) :
    Faultless OwnAddress l i ∧ l.Unhurried := by
  simp only [faultless, Bool.and_eq_true, Bool.not_eq_true'] at h
  obtain ⟨⟨⟨hallow, herr⟩, hidle⟩, hfree⟩ := h
  refine ⟨⟨legal_of_allows hallow, herr, ?_⟩, ?_⟩
  · intro f hf
    simpa using List.all_eq_true.1 hidle f hf
  · intro hc
    rw [hc, Bool.true_and] at hfree
    simpa using hfree

/-- Clocks pass, and `readidle` reads all there is. -/
def Link.poll (ok : Link → LinkIn → Bool) (l : Link) (is : List LinkIn) :
    Option (Link × Option Thrown) :=
  (pass ok l is).map fun l1 =>
    match readidle l1.bus 0 l1.up with
    | (s, t, rest) => ({ l1 with bus := s, up := rest }, t)

theorem Link.poll_sound {E : Link → LinkIn → Prop} {ok : Link → LinkIn → Bool} {l l' : Link}
    {is : List LinkIn} {t : Option Thrown} (hok : ∀ l i, ok l i = true → E l i)
    (h : poll ok l is = some (l', t)) : Poll E l l' t := by
  obtain ⟨l1, hpass, h⟩ := Option.map_eq_some_iff.1 h
  obtain ⟨rfl, rfl⟩ := Prod.mk.inj h
  refine ⟨l1, l1.up.length, (readidle l1.bus 0 l1.up).1, (readidle l1.bus 0 l1.up).2.2,
    runs_of_pass hok hpass, ?_, ?_⟩
  · rw [List.take_length]
  · rw [List.drop_length, List.append_nil]

/-- One word is written to address 0x1000, -/
def writing : Link :=
  Link.write { Link.start with bus := Link.start.bus.writeFrom 0x1000 }
    (encodeAddress Link.start.bus (addrArg 0x1000 true) ++ writeText 1)

/-- and acknowledged. -/
def written : Link :=
  ((writing.poll (Link.faultless ownAddress) (answerClocks 12 { idleWb with iWbAck := true })).map
    Prod.fst).getD .start

/-- Then a word is asked for, with or without its address. -/
def readBehind (a : BitVec 32) (n : ℕ) : Link :=
  ((askFor (Link.faultless ownAddress) (written.moveOn 1) a
    (answerClocks n { idleWb with iWbAck := true, iWbData := 0x401 })).map Prod.fst).getD .start

/-- `writei` at 0x1000 -/
def madeWrite : Made where
  before := .start
  call := .writei 0x400 ⟨[1], by decide⟩
  after := written.moveOn 1
  buf := []
  ending := .returned

/-- `readi` at 0x1008, where the host is. -/
def madeRead : Made where
  before := written.moveOn 1
  call := .readi 0x402 1
  after := readBehind 0x1008 2
  buf := [0x401]
  ending := .returned

/-- `readi` at 0x1004, where the device is. -/
def madeReadThere : Made where
  before := written.moveOn 1
  call := .readi 0x401 1
  after := readBehind 0x1004 11
  buf := [0x401]
  ending := .returned

theorem performs_write : Performs (fun l i => Faultless OwnAddress l i ∧ l.Unhurried)
    madeWrite.before madeWrite.call madeWrite.after madeWrite.buf madeWrite.ending := by
  have hpoll : writing.poll (Link.faultless ownAddress)
      (answerClocks 12 { idleWb with iWbAck := true }) = some (written, none) := by decide +kernel
  have hloop : WriteLoop (fun l i => Faultless OwnAddress l i ∧ l.Unhurried)
      { Link.start with bus := Link.start.bus.writeFrom 0x1000 }
      (encodeAddress Link.start.bus (addrArg 0x1000 true)) 0 [1] written none :=
    .word (.enough (Nat.zero_le _))
      (.done (.again (by decide) (Link.poll_sound Link.faultless_sound hpoll)
        (.enough (by decide +kernel))))
  exact .writei (Writev.returned hloop)

theorem performs_read : Performs (fun l i => Faultless OwnAddress l i ∧ l.Unhurried)
    madeRead.before madeRead.call madeRead.after madeRead.buf madeRead.ending := by
  have hx : askFor (Link.faultless ownAddress) (written.moveOn 1) 0x1008
      (answerClocks 2 { idleWb with iWbAck := true, iWbData := 0x401 }) =
        some (readBehind 0x1008 2, .ok 0x401) := by decide +kernel
  exact .readi (.returned Nat.one_pos
    (.word (Link.exchange_of_pass Link.faultless_sound hx) (.done _ _)) (by decide +kernel))

theorem performs_readThere : Performs (fun l i => Faultless OwnAddress l i ∧ l.Unhurried)
    madeReadThere.before madeReadThere.call madeReadThere.after madeReadThere.buf
      madeReadThere.ending := by
  have hx : askFor (Link.faultless ownAddress) (written.moveOn 1) 0x1004
      (answerClocks 11 { idleWb with iWbAck := true, iWbData := 0x401 }) =
        some (readBehind 0x1004 11, .ok 0x401) := by decide +kernel
  exact .readi (.returned Nat.one_pos
    (.word (Link.exchange_of_pass Link.faultless_sound hx) (.done _ _)) (by decide +kernel))

/-- **The read is not at the address asked for**: the one that is not sent is not the one in the
    device, and the word at 0x1004 is returned for the one at 0x1008. -/
theorem redirected :
    Rest (· ≠ .idle) .start ∧ Link.start.Agrees ∧
      Session (fun l i => Faultless OwnAddress l i ∧ l.Unhurried) .start [madeWrite, madeRead] ∧
      madeRead.call.text madeRead.before.bus = [] ∧
      madeRead.before.dev.wbexec.oWbAddr ≠ madeRead.call.addr ∧ ¬ madeRead.Right OwnAddress := by
  have hne : madeRead.before.dev.wbexec.oWbAddr ≠ madeRead.call.addr := by decide +kernel
  have htext : madeRead.call.text madeRead.before.bus = [] := by decide +kernel
  refine ⟨Link.rest_start _, Link.agrees_start,
    .cons .refl performs_write (.cons .refl performs_read (.nil _)), htext, hne, ?_⟩
  intro hright
  exact hne (hright.omitted rfl htext).1

/-- With the address sent, the read is right. -/
theorem session_right_sent : madeReadThere.Right OwnAddress := by
  have hright : ∀ m ∈ [madeWrite, madeReadThere], m.Right OwnAddress :=
    session_right (Link.rest_start _) Link.agrees_start
      (.cons .refl performs_write (.cons .refl performs_readThere (.nil _)))
      ⟨fun h => (Bool.false_ne_true h).elim, fun _ _ => by decide +kernel, trivial⟩
  exact hright madeReadThere (by simp)

end ZipStormMX.Hexbus
