/-
  A bus error, and the address afterwards.

  The device moves its address when a request is taken, the host when the data arrive.  If the
  request is answered with an error there are no data: then the two differ by the one word, unless
  the request had not been taken yet, or addresses do not move at all.
-/
import ZipStormMX.Hexbus.Reading

namespace ZipStormMX.Hexbus

open Hbconsole (BusEvent)

/-! ## Agreement -/

/-- If the host believes that the address is set, it is the one in the device, and moves on there if
    it is one that moves on. -/
def Link.Agrees (l : Link) : Prop :=
  l.bus.mAddrSet = true → l.bus.mLastaddr = Belief.byteAddr l.dev.wbexec.oWbAddr ∧
    l.bus.mInc = l.dev.wbexec.inc

instance (l : Link) : Decidable l.Agrees := inferInstanceAs (Decidable (_ → _))

/-- The slave is a memory.  It may stall for as long as it likes, and report errors. -/
def Slave (mem : BitVec 30 → BitVec 32) (l : Link) (i : LinkIn) : Prop :=
  l.Legal i fun b d => d = mem b

/-- Any characters may stand between the words. -/
def AnyFiller (_ : Filler) : Prop := True

/-- The address of word `i`. -/
def wordAddr (b : BitVec 30) (inc : Bool) (i : ℕ) : BitVec 30 :=
  b + if inc then BitVec.ofNat 30 i else 0

theorem Rest.withBus {F : Filler → Prop} {l : Link} (h : Rest F l) {s : HexBus} (hs : Hushed s) :
    Rest F { l with bus := s } :=
  ⟨⟨h.sound.exec, h.sound.noReset, h.sound.plain, h.sound.last⟩, h.awaited, h.pending, h.up, hs⟩

theorem byteAddr_bit (b : BitVec 30) : (Belief.byteAddr b).getLsbD 0 = false := by
  have happ : (b ++ 0#2).getLsbD 0 = if 0 < 2 then (0#2).getLsbD 0 else b.getLsbD (0 - 2) :=
    BitVec.getLsbD_append
  exact happ

theorem byteAddr_inj {a b : BitVec 30} (h : Belief.byteAddr a = Belief.byteAddr b) : a = b := by
  apply BitVec.eq_of_toNat_eq
  have htn := congrArg BitVec.toNat h
  rw [toNat_byteAddr, toNat_byteAddr] at htn
  omega

/-- The address is left out only if it moves on and is the one the host has. -/
theorem encodeAddress_cases {s : HexBus} {a b : BitVec 30} (ha : s.mLastaddr = Belief.byteAddr a)
    (inc : Bool) :
    encodeAddress s (addrArg (Belief.byteAddr b) inc) =
        hexbAddr :: fmt08x (addrArg (Belief.byteAddr b) inc) ∨
      encodeAddress s (addrArg (Belief.byteAddr b) inc) = [] ∧ s.mAddrSet = true ∧ a = b ∧
        inc = true ∧ s.mInc = true := by
  rw [encodeAddress]
  split_ifs with hc
  · right
    simp only [Bool.and_eq_true, beq_iff_eq] at hc
    obtain ⟨⟨hset, hlast⟩, hinc⟩ := hc
    rw [ha] at hlast
    have hi : inc = true := by
      by_contra hi
      have hi : inc = false := by simpa using hi
      have hbit := congrArg (fun w : BitVec 32 => w.getLsbD 0) hlast
      simp only [byteAddr_bit, addrArg, hi, Bool.false_eq_true, if_false, BitVec.getLsbD_or,
        Bool.false_or] at hbit
      cases hbit
    have harg : addrArg (Belief.byteAddr b) true = Belief.byteAddr b := by simp [addrArg]
    rw [hi, harg] at hlast hinc
    rw [byteAddr_bit] at hinc
    exact ⟨rfl, hset, (byteAddr_inj hlast).symm, hi, by simpa using hinc⟩
  · exact Or.inl rfl

theorem encodeAddress_unset {s : HexBus} (h : s.mAddrSet = false) (a : BitVec 32) :
    encodeAddress s a = hexbAddr :: fmt08x a := by
  simp [encodeAddress, h]

/-- When both ends agree, what the host sends in front of a request leads to the address. -/
theorem leads_of_agrees {F : Filler → Prop} {l : Link} (hl : Rest F l) (hg : l.Agrees)
    (b : BitVec 30) (inc : Bool) (s : HexBus) :
    ∃ cmds said, Leads { l with bus := s } { addr := b, inc := inc }
      (encodeAddress l.bus (addrArg (Belief.byteAddr b) inc)) cmds said := by
  by_cases hset : l.bus.mAddrSet = true
  · obtain ⟨hlast, hinc⟩ := hg hset
    rcases encodeAddress_cases (b := b) hlast inc with htext | ⟨htext, -, rfl, rfl, hi⟩
    · rw [htext]
      exact ⟨_, _, .command⟩
    · rw [htext]
      refine ⟨_, _, .there ?_⟩
      show l.cursor = _
      rw [Link.cursor_of_awaited_nil hl.sound hl.awaited, ← hinc, hi]
  · rw [encodeAddress_unset (by simpa using hset)]
    exact ⟨_, _, .command⟩

/-- Clocks that pass at rest leave the agreement as it is. -/
theorem Rest.agrees_runs {l l' : Link} {D : BitVec 30 → BitVec 32 → Prop} {F : Filler → Prop}
    {E : Link → LinkIn → Prop} (hE : ∀ l i, E l i → l.Legal i D ∧ ∀ f ∈ i.filler, F f)
    (h : Rest F l) (hr : Link.Runs E l l') (hg : l.Agrees) : l'.Agrees := by
  obtain ⟨hrest, hbus, hcur, -⟩ := h.runs hE hr
  rw [Link.cursor_of_awaited_nil hrest.sound hrest.awaited,
    Link.cursor_of_awaited_nil h.sound h.awaited] at hcur
  obtain ⟨h1, h2⟩ := Cursor.mk.inj hcur
  unfold Link.Agrees
  rw [hbus, h1, h2]
  exact hg

/-! ## The addresses of a read -/

theorem ofNat_succ (i : ℕ) : BitVec.ofNat 30 (i + 1) = 1 + BitVec.ofNat 30 i := by
  rw [Nat.add_comm, ← BitVec.ofNat_add_ofNat]
  rfl

theorem wordAddr_succ (b : BitVec 30) (inc : Bool) (i : ℕ) :
    wordAddr b inc (i + 1) = wordAddr (b + stride inc) inc i := by
  cases inc
  · simp [wordAddr, stride]
  · have hone : stride true = 1 := rfl
    rw [wordAddr, wordAddr, hone, if_pos rfl, if_pos rfl, ofNat_succ, BitVec.add_assoc]

theorem afterAll_reads (b : BitVec 30) (inc : Bool) (n : ℕ) :
    Cursor.afterAll { addr := b, inc := inc } (reads_n n) =
      { addr := wordAddr b inc n, inc := inc } := by
  induction n generalizing b with
  | zero => cases inc <;> simp [reads_n, wordAddr]
  | succ n ih =>
    show Cursor.afterAll { addr := b + stride inc, inc := inc } (reads_n n) = _
    rw [ih, wordAddr_succ]

theorem along_reads {β : Type} (f : Cursor → BusCmd → List β) (g : BitVec 30 → β)
    (hf : ∀ c : Cursor, f c .read = [g c.addr]) (b : BitVec 30) (inc : Bool) (n : ℕ) :
    Cursor.along f { addr := b, inc := inc } (reads_n n) =
      (List.range n).map fun i => g (wordAddr b inc i) := by
  induction n generalizing b with
  | zero => rfl
  | succ n ih =>
    have hcons : Cursor.along f { addr := b, inc := inc } (reads_n (n + 1)) =
        f { addr := b, inc := inc } .read ++
          Cursor.along f { addr := b + stride inc, inc := inc } (reads_n n) := rfl
    have hzero : wordAddr b inc 0 = b := by cases inc <;> simp [wordAddr]
    rw [hcons, hf, ih, List.range_succ_eq_map, List.map_cons, List.map_map, hzero]
    refine congrArg (g b :: ·) (List.map_congr_left fun i _ => ?_)
    rw [← wordAddr_succ]
    rfl

/-- Words read in a row are those stored at the addresses. -/
theorem words_eq {mem : BitVec 30 → BitVec 32} {l : List (BitVec 30)} {buf : List (BitVec 32)}
    (h : List.Forall₂ (fun x d => ∃ b, x = Expect.data b ∧ d = mem b) (l.map Expect.data) buf) :
    buf = l.map mem := by
  induction l generalizing buf with
  | nil =>
    cases h
    rfl
  | cons b l ih =>
    cases h with
    | cons hx ht =>
      obtain ⟨b', hb, rfl⟩ := hx
      injection hb with hb
      rw [List.map_cons, ← ih ht, hb]

/-! ## readv -/

/-- Where the host is after the words it has read, it believes to be. -/
theorem belief_reads {s : HexBus} {b : BitVec 30} {inc : Bool} {n : ℕ}
    (h : s.belief = (Cursor.afterAll { addr := b, inc := inc } (reads_n n)).belief) :
    s.mAddrSet = true ∧ s.mLastaddr = Belief.byteAddr (wordAddr b inc n) ∧ s.mInc = inc := by
  rw [afterAll_reads] at h
  exact ⟨congrArg Belief.addrSet h, congrArg Belief.lastaddr h, congrArg Belief.inc h⟩

/-- The address after some words is the one `readv` checks for. -/
theorem byteAddr_wordAddr (b : BitVec 30) (inc : Bool) (n : ℕ) :
    Belief.byteAddr (wordAddr b inc n) = addrAfter (Belief.byteAddr b) inc n := by
  cases inc
  · simp [wordAddr, addrAfter]
  · apply BitVec.eq_of_toNat_eq
    rw [toNat_byteAddr, wordAddr, addrAfter, if_pos rfl, if_pos rfl, BitVec.toNat_add,
      BitVec.toNat_add, toNat_byteAddr, BitVec.toNat_ofNat, BitVec.toNat_ofNat]
    omega

section

variable {E : Link → LinkIn → Prop} {D : BitVec 30 → BitVec 32 → Prop} {F : Filler → Prop}
  {l l' : Link} {b : BitVec 30} {inc : Bool} {len : ℤ} {buf : List (BitVec 32)} {e : Ending}

/-- The loop of `readv`, when what is in front of its first request leads to the address. -/
theorem readLoop_of_leads (hE : ∀ l i, E l i → l.Legal i D ∧ ∀ f ∈ i.filler, F f) (hl : Rest F l)
    {cmds : List BusCmd} {said : List Expect} {n : ℕ} (hn : 0 < n) {t : Option Thrown}
    (hlead : Leads { l with bus := l.bus.readFrom (Belief.byteAddr b) inc } { addr := b, inc := inc }
      (encodeAddress l.bus (addrArg (Belief.byteAddr b) inc)) cmds said)
    (hr : ReadLoop E { l with bus := l.bus.readFrom (Belief.byteAddr b) inc }
      (encodeAddress l.bus (addrArg (Belief.byteAddr b) inc)) n l' buf t) :
    LoopOutcome E D F { l with bus := l.bus.readFrom (Belief.byteAddr b) inc } l'
      { addr := b, inc := inc } n buf t :=
  hr.outcome hE (hl.withBus hl.hushed) rfl hlead (Or.inl hn)

/-- Nothing is done for no words. -/
theorem Readv.of_nonpos {a : BitVec 32} (hlen : len ≤ 0) (h : Readv E l a inc len l' buf e) :
    l' = l ∧ buf = [] ∧ e = .returned := by
  cases h with
  | none _ _ => exact ⟨rfl, rfl, rfl⟩
  | returned hn _ _ => omega
  | exited hn _ _ => omega
  | threw hr => cases hr <;> omega

/-- Words that are returned are those asked for, `readv` does not exit, and both ends agree. -/
theorem readv_of_leads (hE : ∀ l i, E l i → l.Legal i D ∧ ∀ f ∈ i.filler, F f) (hl : Rest F l)
    (hlen : 0 < len) {cmds : List BusCmd} {said : List Expect}
    (hlead : Leads { l with bus := l.bus.readFrom (Belief.byteAddr b) inc } { addr := b, inc := inc }
      (encodeAddress l.bus (addrArg (Belief.byteAddr b) inc)) cmds said)
    (h : Readv E l (Belief.byteAddr b) inc len l' buf e) :
    e ≠ .exited ∧ (e = .returned → Rest F l' ∧ l'.Agrees ∧
      l'.taken = l.taken ++ ((List.range len.toNat).map fun i => .read (wordAddr b inc i)) ∧
      l'.bus.mLastaddr = addrAfter (Belief.byteAddr b) inc len.toNat ∧
      List.Forall₂ (fun x d => ∃ b, x = Expect.data b ∧ D b d)
        ((List.range len.toNat).map fun i => .data (wordAddr b inc i)) buf) := by
  cases h with
  | none len hle => omega
  | returned hn hr hlast =>
    cases readLoop_of_leads hE hl hn hlead hr with
    | done hrest hcur htaken hb hbuf =>
      refine ⟨Ending.noConfusion, fun _ => ⟨hrest, ?_, ?_, hlast, ?_⟩⟩
      · intro _
        obtain ⟨-, h1, h2⟩ := belief_reads hb
        rw [Link.cursor_of_awaited_nil hrest.sound hrest.awaited, afterAll_reads] at hcur
        obtain ⟨hc1, hc2⟩ := Cursor.mk.inj hcur
        rw [h1, h2, hc1, hc2]
        exact ⟨rfl, rfl⟩
      · rw [htaken, along_reads Cursor.issues BusEvent.read fun _ => rfl]
        rfl
      · rw [along_reads Cursor.answers Expect.data fun _ => rfl] at hbuf
        exact hbuf
  | exited hn hr hlast =>
    cases readLoop_of_leads hE hl hn hlead hr with
    | done hrest hcur htaken hb hbuf =>
      obtain ⟨-, h1, -⟩ := belief_reads hb
      rw [byteAddr_wordAddr] at h1
      exact absurd h1 hlast
  | threw hr =>
    refine ⟨Ending.noConfusion, ?_⟩
    intro he
    cases he

/-- So it is when both ends agree. -/
theorem readv_of_agrees (hE : ∀ l i, E l i → l.Legal i D ∧ ∀ f ∈ i.filler, F f) (hl : Rest F l)
    (hg : l.Agrees) (h : Readv E l (Belief.byteAddr b) inc len l' buf e) :
    e ≠ .exited ∧ (e = .returned → List.Forall₂ (fun x d => ∃ b, x = Expect.data b ∧ D b d)
      ((List.range len.toNat).map fun i => .data (wordAddr b inc i)) buf) := by
  by_cases hlen : 0 < len
  · obtain ⟨cmds, said, hlead⟩ :=
      leads_of_agrees hl hg b inc (l.bus.readFrom (Belief.byteAddr b) inc)
    obtain ⟨hexit, hret⟩ := readv_of_leads hE hl hlen hlead h
    exact ⟨hexit, fun he => (hret he).2.2.2.2⟩
  · obtain ⟨-, rfl, rfl⟩ := h.of_nonpos (by omega)
    rw [Int.toNat_of_nonpos (by omega)]
    exact ⟨Ending.noConfusion, fun _ => .nil⟩

end

/-! ## After an error -/

/-- What is to hold after a call: whenever the next one is a read, of any word, at an address that
    moves on or not, it returns what is stored there, and does not exit. -/
def ReadsRight (mem : BitVec 30 → BitVec 32) (l : Link) : Prop :=
  ∀ l1 l2 b inc len buf e, Link.Runs (Slave mem) l l1 →
    Readv (Slave mem) l1 (Belief.byteAddr b) inc len l2 buf e →
      e ≠ .exited ∧ (e = .returned →
        buf = (List.range len.toNat).map fun i => mem (wordAddr b inc i))

/-- With both ends at rest and in agreement, the next read is right. -/
theorem readsRight {mem : BitVec 30 → BitVec 32} {l : Link} (hl : Rest AnyFiller l)
    (hg : l.Agrees) : ReadsRight mem l := by
  intro l1 l2 b inc len buf e hr h
  have hE : ∀ l i, Slave mem l i →
      l.Legal i (fun b d => d = mem b) ∧ ∀ f ∈ i.filler, AnyFiller f :=
    fun l i hi => ⟨hi, fun _ _ => trivial⟩
  obtain ⟨hrest, -, -, -⟩ := hl.runs hE hr
  have hg1 := hl.agrees_runs hE hr hg
  obtain ⟨hexit, hret⟩ := readv_of_agrees hE hrest hg1 h
  refine ⟨hexit, fun he => ?_⟩
  have hbuf := hret he
  have hmap : (List.range len.toNat).map (fun i => Expect.data (wordAddr b inc i)) =
      ((List.range len.toNat).map fun i => wordAddr b inc i).map Expect.data := by
    rw [List.map_map]
    rfl
  rw [hmap] at hbuf
  rw [words_eq hbuf, List.map_map]
  rfl

/-! ## Runs with given clocks -/

namespace Link

/-- Whether a slave that is a memory may do this on a clock. -/
def allows (mem : BitVec 30 → BitVec 32) (l : Link) (i : LinkIn) : Bool :=
  (!(i.wb.iWbAck || i.wb.iWbErr) || l.dev.wbexec.oWbCyc) &&
    !(i.wb.iWbAck && l.dev.wbexec.oWbStb && i.wb.iWbStall) &&
      (!i.wb.iWbAck || match (l.clock i).taken.getLast? with
        | some (.read b) => i.wb.iWbData == mem b
        | _ => true)

theorem legal_of_allows {mem : BitVec 30 → BitVec 32} {l : Link} {i : LinkIn}
    (h : allows mem l i = true) : Slave mem l i := by
  simp only [allows, Bool.and_eq_true, Bool.or_eq_true, Bool.not_eq_true', Bool.and_eq_false_iff,
    Bool.or_eq_false_iff] at h
  obtain ⟨⟨hcyc, hstall⟩, hdata⟩ := h
  refine ⟨⟨?_, ?_⟩, ?_⟩
  · rintro (ha | he)
    · exact hcyc.resolve_left fun hn => by rw [hn.1] at ha; cases ha
    · exact hcyc.resolve_left fun hn => by rw [hn.2] at he; cases he
  · intro ha hs
    rcases hstall with (hn | hn) | hn
    · rw [ha] at hn
      cases hn
    · rw [hs] at hn
      cases hn
    · exact hn
  · intro ha _ b hb
    rcases hdata with hn | hd
    · rw [ha] at hn
      cases hn
    · rw [hb] at hd
      simpa using hd

section

variable {E : Link → LinkIn → Prop} {ok : Link → LinkIn → Bool} {l l' : Link} {is : List LinkIn}

/-- The clocks of a list pass, if each of them is all right. -/
def pass (ok : Link → LinkIn → Bool) : Link → List LinkIn → Option Link
  | l, [] => some l
  | l, i :: is => if ok l i then pass ok (l.clock i) is else none

theorem runs_of_pass (hok : ∀ l i, ok l i = true → E l i) (h : pass ok l is = some l') :
    Runs E l l' := by
  induction is generalizing l with
  | nil =>
    injection h with h
    rw [h]
    exact .refl
  | cons i is ih =>
    rw [pass] at h
    split_ifs at h with hi
    exact .head ⟨i, hok l i hi, rfl⟩ (ih h)

/-- One word asked for and read, with the clocks of the list between the two. -/
def exchange (ok : Link → LinkIn → Bool) (l : Link) (text : List (BitVec 8)) (is : List LinkIn) :
    Option (Link × Except Thrown (BitVec 32)) :=
  (pass ok (l.write text) is).bind fun l1 =>
    (readword l1.bus 0 3 l1.up).map fun (s, r, rest) => ({ l1 with bus := s, up := rest }, r)

theorem exchange_of_pass (hok : ∀ l i, ok l i = true → E l i) {text : List (BitVec 8)}
    {r : Except Thrown (BitVec 32)} (h : exchange ok l text is = some (l', r)) :
    Exchange E l text l' r := by
  obtain ⟨l1, hpass, h⟩ := Option.bind_eq_some_iff.1 h
  obtain ⟨⟨s, r', rest⟩, hread, h⟩ := Option.map_eq_some_iff.1 h
  obtain ⟨rfl, rfl⟩ := Prod.mk.inj h
  exact ⟨l1, s, rest, runs_of_pass hok hpass, hread, rfl⟩

end

/-- Both ends when nothing has been written yet, and the host has read that there was a reset. -/
def start : Link where
  bus := .init true false 0
  down := []
  dev :=
    { dechxi := { Hbdechex.init with oReset := false }
      packxi := .init
      wbexec := { Hbexec.init with oRspStb := false } }
  up := []
  taken := []

theorem rest_start (F : Filler → Prop) : Rest F start := by
  refine ⟨⟨⟨?_, ?_⟩, rfl, ?_, ?_⟩, rfl, rfl, ⟨[], rfl, ?_⟩, Or.inl rfl⟩
  · intro h
    cases h
  · intro h
    cases h
  · intro ch hch
    cases hch
  · intro h
    cases h
  · intro f hf
    cases hf

theorem agrees_start : start.Agrees := by
  intro h
  cases h

end Link

/-! ## After an error, once more -/

/-- **After an error**, with both ends in agreement before: they agree still, and the next read is
    right, just if the address of the read does not move, or the slave had not taken the request
    that it reports the error for. -/
theorem agrees_after_error {mem : BitVec 30 → BitVec 32} {l l' : Link} {b : BitVec 30} {inc : Bool}
    {len : ℤ} {buf : List (BitVec 32)} {a : BitVec 32} (hl : Rest AnyFiller l) (hg : l.Agrees)
    (h : Readv (Slave mem) l (Belief.byteAddr b) inc len l' buf (.threw (.err a))) :
    (l'.Agrees ∧ ReadsRight mem l') ↔
      inc = false ∨ l'.taken.length = l.taken.length + buf.length := by
  have hE : ∀ l i, Slave mem l i →
      l.Legal i (fun b d => d = mem b) ∧ ∀ f ∈ i.filler, AnyFiller f :=
    fun l i hi => ⟨hi, fun _ _ => trivial⟩
  cases h with
  | threw hr =>
    rename_i n
    have hn : 0 < n := by
      cases hr <;> omega
    obtain ⟨cmds, said, hlead⟩ :=
      leads_of_agrees hl hg b inc (l.bus.readFrom (Belief.byteAddr b) inc)
    cases readLoop_of_leads hE hl hn hlead hr with
    | error _ hrest hb haddr herr =>
      obtain ⟨hset, hlast, hinc⟩ := belief_reads hb
      have hcur := Link.cursor_of_awaited_nil hrest.sound hrest.awaited
      have hlen : ∀ k, ((List.range k).map fun i => BusEvent.read (wordAddr b inc i)).length = k := by
        intro k
        rw [List.length_map, List.length_range]
      rw [along_reads Cursor.issues BusEvent.read fun _ => rfl,
        along_reads Cursor.issues BusEvent.read fun _ => rfl, afterAll_reads, afterAll_reads,
        hcur] at haddr
      rcases haddr with ⟨hc, htaken⟩ | ⟨hc, htaken⟩
      · -- the request had been taken
        obtain ⟨h1, h2⟩ := Cursor.mk.inj hc
        have hcount : l'.taken.length = l.taken.length + (buf.length + 1) := by
          rw [htaken, List.length_append, hlen]
        constructor
        · rintro ⟨hag, -⟩
          left
          obtain ⟨hag1, -⟩ := hag hset
          rw [hlast, h1] at hag1
          have hsame := byteAddr_inj hag1
          by_contra hi
          have hi : inc = true := by simpa using hi
          rw [hi, wordAddr, wordAddr, if_pos rfl, if_pos rfl, ofNat_succ] at hsame
          have hne := congrArg BitVec.toNat hsame
          have hone : (1 : BitVec 30).toNat = 1 := rfl
          simp only [BitVec.toNat_add, BitVec.toNat_ofNat, hone] at hne
          omega
        · rintro (rfl | hno)
          · have hag : l'.Agrees := by
              intro _
              rw [hlast, hinc, h1, h2]
              exact ⟨rfl, rfl⟩
            exact ⟨hag, readsRight hrest hag⟩
          · omega
      · -- it had not
        obtain ⟨h1, h2⟩ := Cursor.mk.inj hc
        have hcount : l'.taken.length = l.taken.length + buf.length := by
          rw [htaken, List.length_append, hlen]
        have hag : l'.Agrees := by
          intro _
          rw [hlast, hinc, h1, h2]
          exact ⟨rfl, rfl⟩
        exact ⟨fun _ => Or.inr hcount, fun _ => ⟨hag, readsRight hrest hag⟩⟩

/-- A slave that does nothing on a clock. -/
def idleWb : WbReply := { iWbAck := false, iWbStall := false, iWbErr := false, iWbData := 0 }

/-- Some characters are received, the request they make is taken, and the slave answers it. -/
def answerClocks (n : ℕ) (wb : WbReply) : List LinkIn :=
  List.replicate n { deliver := true, wb := idleWb, filler := [] } ++
    List.replicate 3 { deliver := false, wb := idleWb, filler := [] } ++
      [{ deliver := false, wb := wb, filler := [] },
        { deliver := false, wb := idleWb, filler := [.carriageReturn, .lineFeed] }]

/-- A memory in which each word is its own address. -/
def ownAddress (b : BitVec 30) : BitVec 32 := b.setWidth 32

/-- The first word of a row of words at an address, asked for and read. -/
def askFor (ok : Link → LinkIn → Bool) (l : Link) (a : BitVec 32) (is : List LinkIn) :
    Option (Link × Except Thrown (BitVec 32)) :=
  Link.exchange ok { l with bus := l.bus.readFrom a true }
    (encodeAddress l.bus (addrArg a true) ++ readText) is

/-- Both ends after the error, -/
def afterError : Link :=
  ((askFor (Link.allows ownAddress) .start 0x1000
    (answerClocks 11 { idleWb with iWbErr := true })).map Prod.fst).getD .start

/-- and after the same word has been asked for again. -/
def afterRetry : Link :=
  ((askFor (Link.allows ownAddress) afterError 0x1000
    (answerClocks 2 { idleWb with iWbAck := true, iWbData := 0x401 })).map Prod.fst).getD .start

/-- The first word of a row of words at 0x1000 is answered with an error, after the request has been
    taken. -/
theorem readv_threw :
    Readv (Slave ownAddress) .start 0x1000 true 1 afterError [] (.threw (.err 0x1000)) := by
  have hx : askFor (Link.allows ownAddress) .start 0x1000
      (answerClocks 11 { idleWb with iWbErr := true }) =
        some (afterError, .error (.err 0x1000)) := by decide +kernel
  exact .threw (.throw (Link.exchange_of_pass (fun _ _ => Link.legal_of_allows) hx))

/-- Asked for again, the word at 0x1000 is the one stored at 0x1004. -/
theorem readv_retried :
    Readv (Slave ownAddress) afterError 0x1000 true 1 afterRetry [0x401] .returned := by
  have hx : askFor (Link.allows ownAddress) afterError 0x1000
      (answerClocks 2 { idleWb with iWbAck := true, iWbData := 0x401 }) =
        some (afterRetry, .ok 0x401) := by decide +kernel
  exact .returned Nat.one_pos (.word (Link.exchange_of_pass (fun _ _ => Link.legal_of_allows) hx) (.done _ _)) (by decide +kernel)

/-- By then the two ends do not agree, and the next read is not right. -/
theorem disagree_after_error :
    Rest AnyFiller .start ∧ Link.start.Agrees ∧
      Readv (Slave ownAddress) .start 0x1000 true 1 afterError [] (.threw (.err 0x1000)) ∧
      ¬ afterError.Agrees ∧ ¬ ReadsRight ownAddress afterError := by
  refine ⟨Link.rest_start _, Link.agrees_start, readv_threw, by decide +kernel, ?_⟩
  intro hright
  have hretry : Readv (Slave ownAddress) afterError (Belief.byteAddr 0x400) true 1 afterRetry
      [0x401] .returned := readv_retried
  obtain ⟨-, hret⟩ := hright _ _ _ _ _ _ _ .refl hretry
  exact absurd (hret rfl) (by decide)

/-- It is as it is said to be when the request had been taken. -/
theorem agrees_after_error_taken : ¬ (afterError.Agrees ∧ ReadsRight ownAddress afterError) := by
  have hthrew : Readv (Slave ownAddress) .start (Belief.byteAddr 0x400) true 1 afterError []
      (.threw (.err 0x1000)) := readv_threw
  have hiff := agrees_after_error (Link.rest_start _) Link.agrees_start hthrew
  have hcond : ¬ (true = false ∨ afterError.taken.length = Link.start.taken.length + 0) := by
    decide +kernel
  exact fun h => hcond (hiff.1 h)

end ZipStormMX.Hexbus
