/-
  One word read, and then `readv`.

  Between calls both ends rest.  From there a request for a word has at most two responses coming,
  the address if it was sent, and the data or an error.  When `readword` comes back with the second
  of them, both ends rest again, and the address at either end has moved as far as the request got:
  together if it was answered with data, and not together if a request that was to move the address
  had been taken and was then answered with an error.
-/
import ZipStormMX.Hexbus.Calls

namespace ZipStormMX.Hexbus

open Hbconsole (BusEvent)

/-! ## At rest -/

/-- The address of the next request in the device. -/
def Link.cursor (l : Link) : Cursor := l.dev.wbexec.cursor

/-- Nothing is on its way to the device or being carried out, and only fillers are on their way to
    the host. -/
structure Rest (F : Filler → Prop) (l : Link) : Prop where
  sound : l.Sound
  awaited : l.awaited = []
  pending : l.ahead.2 = none
  up : ∃ fs : List Filler, l.up = charsOf (fs.map Item.filler) ∧ ∀ f ∈ fs, F f
  hushed : Hushed l.bus

/-- Every command has a response. -/
theorem along_answers_eq_nil {c : Cursor} {cmds : List BusCmd}
    (h : Cursor.along Cursor.answers c cmds = []) : cmds = [] := by
  cases cmds with
  | nil => rfl
  | cons cmd cmds => cases cmd <;> cases h

namespace Link

variable {l l' : Link} {D : BitVec 30 → BitVec 32 → Prop} {F : Filler → Prop}

/-- No response is to come: no command is, and the bus is free. -/
theorem of_awaited_nil (h : l.awaited = []) :
    l.ahead.1 = [] ∧ l.dev.wbexec.oWbCyc = false ∧ l.dev.wbexec.newaddr = false := by
  obtain ⟨howed, halong⟩ := List.append_eq_nil_iff.1 h
  refine ⟨along_answers_eq_nil halong, ?_, ?_⟩
  · by_contra hc
    have hc : l.dev.wbexec.oWbCyc = true := by simpa using hc
    simp [Hbexec.owed, hc] at howed
  · by_contra hn
    have hn : l.dev.wbexec.newaddr = true := by simpa using hn
    simp [Hbexec.owed, hn] at howed

/-- Then no strobe is up either, -/
theorem stb_of_awaited_nil (hs : l.Sound) (h : l.awaited = []) : l.dev.wbexec.oWbStb = false := by
  by_contra hstb
  have hc := hs.exec.cyc (by simpa using hstb)
  rw [(of_awaited_nil h).2.1] at hc
  cases hc

/-- the requests are those taken, -/
theorem promised_of_awaited_nil (hs : l.Sound) (h : l.awaited = []) : l.promised = l.taken := by
  rw [promised, (of_awaited_nil h).1, Hbexec.onPins, stb_of_awaited_nil hs h]
  simp

/-- and the address is the one in the register. -/
theorem bound_of_awaited_nil (h : l.awaited = []) : l.bound = l.cursor := by
  rw [bound, (of_awaited_nil h).1]
  rfl

theorem cursor_of_awaited_nil (hs : l.Sound) (h : l.awaited = []) :
    l.cursor = { addr := l.dev.wbexec.oWbAddr, inc := l.dev.wbexec.inc } := by
  rw [cursor, Hbexec.cursor, stb_of_awaited_nil hs h]
  rfl

/-- Items without a word are fillers. -/
theorem fillers_of_wordsOf_nil {items : List Item} (h : wordsOf items = []) :
    ∃ fs : List Filler, items = fs.map Item.filler := by
  induction items with
  | nil => exact ⟨[], rfl⟩
  | cons it items ih =>
    cases it with
    | filler f =>
      obtain ⟨fs, rfl⟩ := ih h
      exact ⟨f :: fs, rfl⟩
    | word w => cases h

/-- A clock at rest: fillers may be sent, and that is all. -/
theorem idle_clock {i : LinkIn} (hs : l.Sound) (ha : l.awaited = []) (hl : l.Legal i D)
    (hF : ∀ f ∈ i.filler, F f) :
    (l.clock i).Sound ∧ (l.clock i).awaited = [] ∧ (l.clock i).ahead.2 = l.ahead.2 ∧
      (l.clock i).bus = l.bus ∧ (l.clock i).cursor = l.cursor ∧ (l.clock i).taken = l.taken ∧
      ∃ fs : List Filler, (l.clock i).up = l.up ++ charsOf (fs.map Item.filler) ∧ ∀ f ∈ fs, F f := by
  have hcyc := (of_awaited_nil ha).2.1
  have herr : i.wb.iWbErr = false := by
    by_contra he
    rw [hl.opn.cyc (Or.inr (by simpa using he))] at hcyc
    cases hcyc
  have hfree : l.Unhurried := by
    intro hc
    rw [hcyc] at hc
    cases hc
  have hs' := sound_clock hs i
  have hk := kept_clock hs hl hF herr hfree
  obtain ⟨said, hsaid, hans⟩ := hk.awaited
  rw [ha] at hsaid
  obtain ⟨rfl, ha'⟩ := List.append_eq_nil_iff.1 hsaid.symm
  obtain ⟨fs, hfs⟩ := fillers_of_wordsOf_nil (List.forall₂_nil_left_iff.1 hans)
  refine ⟨hs', ha', hk.pending, rfl, ?_, ?_, fs, ?_, ?_⟩
  · rw [← bound_of_awaited_nil ha', hk.bound, bound_of_awaited_nil ha]
  · rw [← promised_of_awaited_nil hs' ha', hk.promised, promised_of_awaited_nil hs ha]
  · rw [hk.up, hfs]
    rfl
  · intro f hf
    exact hk.fillers f (by rw [hfs]; exact List.mem_map_of_mem hf)

end Link

/-- Clocks that pass at rest. -/
theorem Rest.runs {l l' : Link} {D : BitVec 30 → BitVec 32 → Prop} {F : Filler → Prop}
    {E : Link → LinkIn → Prop} (hE : ∀ l i, E l i → l.Legal i D ∧ ∀ f ∈ i.filler, F f)
    (h : Rest F l) (hr : Link.Runs E l l') :
    Rest F l' ∧ l'.bus = l.bus ∧ l'.cursor = l.cursor ∧ l'.taken = l.taken := by
  induction hr with
  | refl => exact ⟨h, rfl, rfl, rfl⟩
  | tail _ hstep ih =>
    obtain ⟨hrest, hbus, hcur, htaken⟩ := ih
    obtain ⟨i, hi, rfl⟩ := hstep
    obtain ⟨hl, hF⟩ := hE _ i hi
    obtain ⟨hs', ha', hp', hbus', hcur', htaken', fs, hup', hfs⟩ :=
      Link.idle_clock hrest.sound hrest.awaited hl hF
    obtain ⟨fs0, hup0, hfs0⟩ := hrest.up
    refine ⟨⟨hs', ha', hp'.trans hrest.pending, ⟨fs0 ++ fs, ?_, ?_⟩, ?_⟩, hbus'.trans hbus,
      hcur'.trans hcur, htaken'.trans htaken⟩
    · rw [hup', hup0, List.map_append, charsOf_append]
    · intro f hf
      rcases List.mem_append.1 hf with hf | hf
      · exact hfs0 f hf
      · exact hfs f hf
    · rw [hbus']
      exact hrest.hushed

/-! ## A request for a word -/

/-- What is in the buffer in front of a request is to lead to address `c`: an address command, or
    nothing if the device is there already.  `said` is what comes back of it. -/
inductive Leads (l : Link) (c : Cursor) : List (BitVec 8) → List BusCmd → List Expect → Prop where
  | there (h : l.cursor = c) : Leads l c [] [] []
  | command : Leads l c (hexbAddr :: fmt08x (addrArg (Belief.byteAddr c.addr) c.inc))
      [.addr (addrArg (Belief.byteAddr c.addr) c.inc)] [.addr c.addr c.inc]

/-- What the host believes when it is about to access address `c`. -/
def Cursor.belief (c : Cursor) : Belief where
  addrSet := true
  lastaddr := Belief.byteAddr c.addr
  inc := c.inc

/-- The address command that the host sends sets the address, and that it does not move if so. -/
theorem after_addrArg (c : Cursor) (b : BitVec 30) (inc : Bool) :
    c.after (.addr (addrArg (Belief.byteAddr b) inc)) = { addr := b, inc := inc } := by
  have hbit : ∀ k, (addrArg (Belief.byteAddr b) inc).getLsbD k =
      ((if k < 2 then false else b.getLsbD (k - 2)) || (decide (k = 0) && !inc)) := by
    intro k
    have hone : (1#32).getLsbD k = decide (k = 0) := by
      cases k <;> simp [BitVec.getLsbD_one]
    have happ : (b ++ 0#2).getLsbD k = if k < 2 then (0#2).getLsbD k else b.getLsbD (k - 2) :=
      BitVec.getLsbD_append
    rw [addrArg, Belief.byteAddr, BitVec.getLsbD_or, happ]
    cases inc <;> simp [hone]
  have hlow : (addrArg (Belief.byteAddr b) inc).getLsbD 0 = !inc := by
    rw [hbit]
    simp
  have hrel : (addrArg (Belief.byteAddr b) inc).getLsbD 1 = false := by
    rw [hbit]
    simp
  have hword : (addrArg (Belief.byteAddr b) inc).extractLsb' 2 30 = b := by
    apply BitVec.eq_of_getLsbD_eq
    intro k hk
    rw [BitVec.getLsbD_extractLsb', hbit, decide_eq_true hk, if_neg (by omega),
      decide_eq_false (by omega), Bool.false_and, Bool.or_false, Bool.true_and]
    exact congrArg b.getLsbD (by omega)
  simp only [Cursor.after, hlow, hrel, hword, Bool.false_eq_true, if_false, Bool.not_not]

theorem told_belief {l : Link} {c : Cursor} {ptr : List (BitVec 8)} {cmds : List BusCmd}
    {said : List Expect} (h : Leads l c ptr cmds said) :
    (∀ x ∈ said, ∃ a inc, x = .addr a inc) ∧ said.foldl Belief.told c.belief = c.belief := by
  cases h with
  | there h => exact ⟨fun x hx => (List.not_mem_nil hx).elim, rfl⟩
  | command =>
    refine ⟨?_, rfl⟩
    intro x hx
    rw [List.mem_singleton.1 hx]
    exact ⟨_, _, rfl⟩

/-- What a request with the command `cmd` adds to the accounts, when the device rests. -/
theorem Leads.request {F : Filler → Prop} {l : Link} (hl : Rest F l) {c : Cursor}
    {ptr : List (BitVec 8)} {cmds : List BusCmd} {said : List Expect} (h : Leads l c ptr cmds said)
    {text : List (BitVec 8)} {cmd : BusCmd}
    (ht : ∀ p, assembleAll p (Link.codes text) = (p.toList ++ [cmd], none)) :
    (l.write (ptr ++ text)).awaited = said ++ c.answers cmd ∧
      (l.write (ptr ++ text)).promised = l.taken ++ c.issues cmd ∧
      (l.write (ptr ++ text)).bound = c.after cmd ∧ (l.write (ptr ++ text)).ahead.2 = none := by
  have hall : assembleAll l.ahead.2 (Link.codes (ptr ++ text)) = (cmds ++ [cmd], none) := by
    rw [hl.pending, codes_append, assembleAll_append]
    cases h with
    | there h => exact ht none
    | command => rw [assembleAll_addr, ht]; rfl
  have hbound : l.bound.afterAll cmds = c ∧ Cursor.along Cursor.issues l.bound cmds = [] ∧
      Cursor.along Cursor.answers l.bound cmds = said := by
    rw [Link.bound_of_awaited_nil hl.awaited]
    cases h with
    | there h => exact ⟨h, rfl, rfl⟩
    | command =>
      have hset := after_addrArg l.cursor c.addr c.inc
      refine ⟨hset, rfl, ?_⟩
      show [Expect.addr (l.cursor.after _).addr (l.cursor.after _).inc] = _
      rw [hset]
  obtain ⟨hafter, hissues, hanswers⟩ := hbound
  refine ⟨?_, ?_, ?_, Link.pending_write hall⟩
  · rw [Link.awaited_write hall, hl.awaited, Cursor.along_append, hanswers, hafter]
    simp [Cursor.along]
  · rw [Link.promised_write hall, Link.promised_of_awaited_nil hl.sound hl.awaited,
      Cursor.along_append, hissues, hafter]
    simp [Cursor.along]
  · rw [Link.bound_write hall, Cursor.afterAll_append, hafter]
    rfl

/-! ## From the request to the response -/

/-- A word at address `c` has been asked for: `said` is to come first, and then the data. -/
structure Requested (l : Link) (c : Cursor) (said : List Expect) : Prop where
  sound : l.Sound
  awaited : l.awaited = said ++ [.data c.addr]
  promised : l.promised = l.taken ++ [.read c.addr]
  bound : l.bound = c.after .read
  pending : l.ahead.2 = none
  addr : ∀ x ∈ said, ∃ a inc, x = .addr a inc

/-- The request has been answered with an error, before or after it was taken. -/
structure Failed (D : BitVec 30 → BitVec 32 → Prop) (F : Filler → Prop) (l l' : Link) (c : Cursor)
    (said : List Expect) : Prop where
  sound : l'.Sound
  awaited : l'.awaited = []
  pending : l'.ahead.2 = none
  bus : l'.bus = l.bus
  up : ∃ items ws, l'.up = l.up ++ charsOf items ∧ (∀ f, Item.filler f ∈ items → F f) ∧
    List.Forall₂ (Hbexec.Answered D) said ws ∧ wordsOf items = ws ++ [rspBusError]
  addr : l'.cursor = c.after .read ∧ l'.taken = l.taken ++ [.read c.addr] ∨
    l'.cursor = c ∧ l'.taken = l.taken

section

variable {l l' : Link} {D : BitVec 30 → BitVec 32 → Prop} {F : Filler → Prop} {c : Cursor}
  {said : List Expect} {items : List Item}

/-- Inside the bus cycle, it is the request for the word that is being carried out. -/
theorem Requested.busy (h : Requested l c said) (hs : l'.Sound) (hk : Link.Kept D F l l' items)
    (hcyc : l'.dev.wbexec.oWbCyc = true) :
    l'.ahead.1 = [] ∧ l'.dev.wbexec.oWbWe = false ∧ l'.dev.wbexec.outstanding = c.addr ∧
      List.Forall₂ (Hbexec.Answered D) said (wordsOf items) := by
  have hnew : l'.dev.wbexec.newaddr = false := by
    by_contra hn
    rw [hs.exec.newaddr (by simpa using hn)] at hcyc
    cases hcyc
  obtain ⟨said', hsaid, hans⟩ := hk.awaited
  have howed : l'.awaited = (if l'.dev.wbexec.oWbWe then Expect.ack
      else Expect.data l'.dev.wbexec.outstanding) ::
        Cursor.along Cursor.answers l'.dev.wbexec.cursor l'.ahead.1 := by
    simp [Link.awaited, Hbexec.owed, hnew, hcyc]
  rw [h.awaited, howed] at hsaid
  generalize hx : (if l'.dev.wbexec.oWbWe then Expect.ack
      else Expect.data l'.dev.wbexec.outstanding) = x at hsaid
  have hnot : ∀ a inc, x ≠ .addr a inc := by
    intro a inc hxa
    rw [hxa] at hx
    cases hwe : l'.dev.wbexec.oWbWe <;> rw [hwe] at hx <;> cases hx
  -- an address comes before the data, and `x` is none
  have hlast : said' = said ∧ x = .data c.addr ∧
      Cursor.along Cursor.answers l'.dev.wbexec.cursor l'.ahead.1 = [] := by
    rcases List.append_eq_append_iff.1 hsaid with ⟨as, hs1, hd⟩ | ⟨bs, hs1, hd⟩
    · cases as with
      | nil =>
        rw [List.nil_append, List.cons.injEq] at hd
        exact ⟨by rw [hs1, List.append_nil], hd.1.symm, hd.2.symm⟩
      | cons a as => simp at hd
    · cases bs with
      | nil =>
        rw [List.nil_append, List.cons.injEq] at hd
        exact ⟨by rw [hs1, List.append_nil], hd.1, hd.2⟩
      | cons a as =>
        rw [List.cons_append, List.cons.injEq] at hd
        obtain ⟨b, inc, hb⟩ := h.addr a (by rw [hs1]; simp)
        exact absurd (hd.1.trans hb) (hnot b inc)
  obtain ⟨rfl, hdata, hnil⟩ := hlast
  have hwe : l'.dev.wbexec.oWbWe = false := by
    by_contra hwe
    rw [hdata, if_pos (by simpa using hwe)] at hx
    cases hx
  refine ⟨along_answers_eq_nil hnil, hwe, ?_, hans⟩
  rw [hdata, hwe] at hx
  injection hx

/-- The slave answers the request with an error. -/
theorem Requested.fails (h : Requested l c said) (hs : l'.Sound) (hk : Link.Kept D F l l' items)
    {i : LinkIn} (hl : l'.Legal i D) (hF : ∀ f ∈ i.filler, F f) (herr : i.wb.iWbErr = true) :
    Failed D F l (l'.clock i) c said := by
  have hcyc := hl.opn.cyc (Or.inr herr)
  obtain ⟨hahead, hwe, hout, hans⟩ := h.busy hs hk hcyc
  have hexec : (l'.clock i).dev.wbexec =
      Hbexec.next l'.dev.wbexec false l'.dev.packxi.oPckStb l'.dev.packxi.oPckWord i.wb := by
    rw [Link.clock_dev, Link.devNext, Device.next_wbexec, hs.noReset]
  obtain ⟨hspoken, -, howed, -, hinc, haddr⟩ := @Hbexec.fails l'.dev.wbexec l'.dev.packxi.oPckStb
    l'.dev.packxi.oPckWord i.wb hs.exec hcyc herr
  rw [← hexec] at hspoken howed hinc haddr
  have hpath := Link.ahead_clock hs i
  have hnil : (l'.clock i).ahead.1 = [] := by
    have hfirst := congrArg Prod.fst hpath
    rw [hahead] at hfirst
    exact (List.append_eq_nil_iff.1 hfirst.symm).2
  have hbound : l'.dev.wbexec.cursor = c.after .read := by
    rw [← h.bound, ← hk.bound, Link.bound, hahead]
    rfl
  have hpins : l'.taken ++ l'.dev.wbexec.onPins = l.taken ++ [.read c.addr] := by
    rw [← h.promised, ← hk.promised, Link.promised, hahead]
    simp
  have hstride : l'.dev.wbexec.inc = c.inc := congrArg Cursor.inc hbound
  refine ⟨Link.sound_clock hs i, ?_, ?_, hk.bus, ?_, ?_⟩
  · rw [Link.awaited, howed, hnil]
    rfl
  · rw [← congrArg Prod.snd hpath, hk.pending, h.pending]
  · refine ⟨items ++ Link.sends l' i, wordsOf items, ?_, ?_, hans, ?_⟩
    · rw [Link.clock_up, hk.up, charsOf_append, ← List.append_assoc]
      rfl
    · intro f hf
      rcases List.mem_append.1 hf with hf | hf
      · exact hk.fillers f hf
      · apply hF f
        simpa [Link.sends] using hf
    · have hsp : (Link.devNext l' i).wbexec.spoken = [rspBusError] := hspoken
      rw [wordsOf, List.flatMap_append, Link.words_sends, hsp]
      rfl
  · rw [hout, hstride] at haddr
    rw [Link.clock_taken, Hbexec.takes]
    cases hst : i.wb.iWbStall
    · left
      rw [hst, Bool.and_false, if_neg Bool.false_ne_true] at haddr
      refine ⟨?_, ?_⟩
      · exact Cursor.ext haddr (hinc.trans hstride)
      · rw [if_neg Bool.false_ne_true, hpins]
    · cases hstb : l'.dev.wbexec.oWbStb
      · left
        rw [hstb, Bool.false_and, if_neg Bool.false_ne_true] at haddr
        have hnopins : l'.dev.wbexec.onPins = [] := by simp [Hbexec.onPins, hstb]
        rw [hnopins, List.append_nil] at hpins
        refine ⟨?_, ?_⟩
        · exact Cursor.ext haddr (hinc.trans hstride)
        · rw [if_pos rfl, List.append_nil, hpins]
      · -- not taken: neither has the address moved
        right
        rw [hstb, hst, Bool.and_self, if_pos rfl] at haddr
        rw [show c.addr + 0 = c.addr from BitVec.add_zero _] at haddr
        have hread : l'.dev.wbexec.onPins = [.read c.addr] := by
          have haddr' : l'.dev.wbexec.oWbAddr = c.addr := by
            rw [← hout, Hbexec.outstanding, hstb]
            rfl
          simp [Hbexec.onPins, hstb, hwe, haddr']
        rw [hread] at hpins
        refine ⟨?_, ?_⟩
        · exact Cursor.ext haddr (hinc.trans hstride)
        · rw [if_pos rfl, List.append_nil]
          exact List.append_cancel_right hpins

/-- **Every clock of an exchange** either keeps the accounts, or the request has failed. -/
theorem Requested.runs {E : Link → LinkIn → Prop}
    (hE : ∀ l i, E l i → l.Legal i D ∧ ∀ f ∈ i.filler, F f) (h : Requested l c said)
    (hr : Link.Runs E l l') :
    (l'.Sound ∧ ∃ items, Link.Kept D F l l' items) ∨
      Failed D F l l' c said ∧ ∃ l i, E l i ∧ i.wb.iWbErr = true := by
  induction hr with
  | refl => exact Or.inl ⟨h.sound, [], .refl l⟩
  | tail _ hstep ih =>
    obtain ⟨i, hi, rfl⟩ := hstep
    obtain ⟨hl, hF⟩ := hE _ i hi
    rcases ih with ⟨hs, items, hk⟩ | ⟨hfail, herr⟩
    · cases herr : i.wb.iWbErr
      · left
        refine ⟨Link.sound_clock hs i, _, hk.trans (Link.kept_clock hs hl hF herr ?_)⟩
        -- inside the bus cycle there is no further command on its way
        intro hcyc
        have hahead := (h.busy hs hk hcyc).1
        obtain ⟨hissued, -⟩ := List.append_eq_nil_iff.1 hahead
        cases hp : Hbpack.issued _ with
        | none => rfl
        | some cmd => simp [hp] at hissued
      · exact Or.inr ⟨h.fails hs hk hl hF herr, _, i, hi, herr⟩
    · right
      refine ⟨?_, herr⟩
      obtain ⟨hs', ha', hp', hbus', hcur', htaken', fs, hup', hfs⟩ :=
        Link.idle_clock hfail.sound hfail.awaited hl hF
      obtain ⟨items, ws, hup, hf, hans, hws⟩ := hfail.up
      refine ⟨hs', ha', hp'.trans hfail.pending, hbus'.trans hfail.bus, ?_, ?_⟩
      · refine ⟨items ++ fs.map Item.filler, ws, ?_, ?_, hans, ?_⟩
        · rw [hup', hup, charsOf_append, List.append_assoc]
        · intro f hmem
          rcases List.mem_append.1 hmem with hmem | hmem
          · exact hf f hmem
          · exact hfs f (by simpa using hmem)
        · rw [wordsOf_append, wordsOf_fillers, List.append_nil, hws]
      · rw [hcur', htaken']
        exact hfail.addr

/-- How an exchange ends, when the host has noted that it is about to read at address `c`. -/
inductive Outcome (E : Link → LinkIn → Prop) (D : BitVec 30 → BitVec 32 → Prop)
    (F : Filler → Prop) (l l' : Link) (c : Cursor) : Except Thrown (BitVec 32) → Prop where
  | data (d : BitVec 32) (hd : D c.addr d) (hrest : Rest F l')
      (hcur : l'.cursor = c.after .read) (htaken : l'.taken = l.taken ++ [.read c.addr])
      (hb : l'.bus.belief = c.belief.advance) : Outcome E D F l l' c (.ok d)
  | abort (h : F .idle) : Outcome E D F l l' c (.error .abort)
  | error (a : BitVec 32) (hrest : Rest F l') (hb : l'.bus.belief = c.belief)
      (haddr : l'.cursor = c.after .read ∧ l'.taken = l.taken ++ [.read c.addr] ∨
        l'.cursor = c ∧ l'.taken = l.taken)
      (herr : ∃ l i, E l i ∧ i.wb.iWbErr = true) : Outcome E D F l l' c (.error (.err a))

/-- What stands for a list that is made of two is made of two. -/
theorem forall₂_append_left {α β : Type} {R : α → β → Prop} {a b : List α} {l : List β}
    (h : List.Forall₂ R (a ++ b) l) :
    ∃ u v, l = u ++ v ∧ List.Forall₂ R a u ∧ List.Forall₂ R b v :=
  ⟨l.take a.length, l.drop a.length, (List.take_append_drop ..).symm,
    (List.forall₂_take_append _ _ _ h.flip).flip, (List.forall₂_drop_append _ _ _ h.flip).flip⟩

/-- **What an exchange does**, from rest. -/
theorem Exchange.outcome {E : Link → LinkIn → Prop}
    (hE : ∀ l i, E l i → l.Legal i D ∧ ∀ f ∈ i.filler, F f) (hl : Rest F l)
    (hb : l.bus.belief = c.belief) {ptr : List (BitVec 8)} {cmds : List BusCmd}
    (hlead : Leads l c ptr cmds said) (hplain : Link.Plain (ptr ++ readText))
    {r : Except Thrown (BitVec 32)} (hx : Exchange E l (ptr ++ readText) l' r) :
    Outcome E D F l l' c r := by
  obtain ⟨l1, s, rest, hr, hread, rfl⟩ := hx
  obtain ⟨hsaid, htold⟩ := told_belief hlead
  obtain ⟨haw, hprom, hbound, hpend⟩ := hlead.request hl assembleAll_readText
  rw [show c.answers .read = [Expect.data c.addr] from rfl] at haw
  have hreq : Requested (l.write (ptr ++ readText)) c said :=
    ⟨Link.sound_write hl.sound hplain, haw, hprom, hbound, hpend, hsaid⟩
  obtain ⟨fs0, hup0, hfs0⟩ := hl.up
  have hmem0 : ∀ {items : List Item}, (∀ f, Item.filler f ∈ items → F f) →
      ∀ f, Item.filler f ∈ fs0.map Item.filler ++ items → F f := by
    intro items hf f hmem
    rcases List.mem_append.1 hmem with hmem | hmem
    · exact hfs0 f (by simpa using hmem)
    · exact hf f hmem
  have hwords0 : ∀ items, wordsOf (fs0.map Item.filler ++ items) = wordsOf items := by
    intro items
    rw [wordsOf_append, wordsOf_fillers, List.nil_append]
  have hchars0 : ∀ items, l.up ++ charsOf items = charsOf (fs0.map Item.filler ++ items) := by
    intro items
    rw [hup0, charsOf_append]
  rcases hreq.runs hE hr with ⟨hs, items, hk⟩ | ⟨hfail, herr⟩
  · have hbus : l1.bus = l.bus := hk.bus
    have hhush : Hushed l1.bus := by
      rw [hbus]
      exact hl.hushed
    have hbel : l1.bus.belief = c.belief := by rw [hbus, hb]
    have hup : l1.up = charsOf (fs0.map Item.filler ++ items) := by
      rw [hk.up]
      exact hchars0 items
    obtain ⟨said', hsaid', hans⟩ := hk.awaited
    rw [haw] at hsaid'
    rw [hup] at hread
    have hans0 := hans
    rw [show items.flatMap Item.words = wordsOf items from rfl, ← hwords0 items] at hans0
    by_cases haw1 : l1.awaited = []
    · -- everything there was to be has been said
      rw [haw1, List.append_nil] at hsaid'
      rw [← hsaid'] at hans0
      obtain ⟨ws, wd, hws, hans1, hans2⟩ := forall₂_append_left hans0
      obtain ⟨d, hd, rfl⟩ : ∃ d, D c.addr d ∧ wd = [rspData d] := by
        cases hans2 with
        | cons hx ht =>
          cases ht
          obtain ⟨d, hd, rfl⟩ := hx
          exact ⟨d, hd, rfl⟩
      have hresp := readword_data hhush hsaid hans1 hws
      rw [hread] at hresp
      cases hresp with
      | abort _ _ h => exact .abort (hmem0 hk.fillers _ h)
      | response _ fs hs' hb' hfs =>
        refine .data d hd ⟨?_, ?_, ?_, ⟨fs, rfl, fun f hf => hmem0 hk.fillers f (hfs f hf)⟩, hs'⟩ ?_ ?_ ?_
        · exact ⟨hs.exec, hs.noReset, hs.plain, hs.last⟩
        · exact haw1
        · exact hk.pending.trans hpend
        · show l1.cursor = _
          rw [← Link.bound_of_awaited_nil haw1, hk.bound, hbound]
        · show l1.taken = _
          rw [← Link.promised_of_awaited_nil hs haw1, hk.promised, hprom]
          rfl
        · show s.belief = _
          rw [hb', hbel, htold]
    · -- the data is still to come
      have hpre : ∀ x ∈ said', ∃ a inc, x = Expect.addr a inc := by
        rcases List.append_eq_append_iff.1 hsaid' with ⟨as, hs1, hd⟩ | ⟨bs, hs1, hd⟩
        · cases as with
          | nil =>
            rw [hs1, List.append_nil]
            exact hsaid
          | cons a as =>
            rw [List.cons_append, List.cons.injEq] at hd
            exact absurd (List.append_eq_nil_iff.1 hd.2.symm).2 haw1
        · intro x hx
          exact hsaid x (by rw [hs1]; exact List.mem_append_left _ hx)
      rcases readword_waits hhush hpre hans0 with hnone | ⟨hidle, s', rest', habort⟩
      · rw [hread] at hnone
        cases hnone
      · rw [hread] at habort
        injection habort with habort
        injection habort with _ habort
        injection habort with habort _
        rw [habort]
        exact .abort (hmem0 hk.fillers _ hidle)
  · have hbus : l1.bus = l.bus := hfail.bus
    have hhush : Hushed l1.bus := by
      rw [hbus]
      exact hl.hushed
    have hbel : l1.bus.belief = c.belief := by rw [hbus, hb]
    obtain ⟨items, ws, hup, hf, hans, hws⟩ := hfail.up
    rw [show (l.write (ptr ++ readText)).up = l.up from rfl, hchars0] at hup
    rw [hup] at hread
    have hresp := readword_error hhush hsaid hans ((hwords0 items).trans hws)
    rw [hread] at hresp
    cases hresp with
    | abort _ _ h => exact .abort (hmem0 hf _ h)
    | response _ fs hs' hb' hfs =>
      refine .error _ ⟨?_, ?_, ?_, ⟨fs, rfl, fun f hm => hmem0 hf f (hfs f hm)⟩, hs'⟩ ?_ ?_ herr
      · exact ⟨hfail.sound.exec, hfail.sound.noReset, hfail.sound.plain, hfail.sound.last⟩
      · exact hfail.awaited
      · exact hfail.pending
      · show s.belief = _
        rw [hb', hbel, htold]
      · exact hfail.addr

end

/-! ## readv -/

theorem toNat_byteAddr (b : BitVec 30) : (Belief.byteAddr b).toNat = 4 * b.toNat := by
  rw [Belief.byteAddr, BitVec.toNat_append, Nat.shiftLeft_eq]
  simp [Nat.mul_comm]

/-- The address of the next word, in bytes. -/
theorem byteAddr_add_one (b : BitVec 30) : Belief.byteAddr (b + 1) = Belief.byteAddr b + 4 := by
  apply BitVec.eq_of_toNat_eq
  rw [BitVec.toNat_add, toNat_byteAddr, toNat_byteAddr, BitVec.toNat_add]
  show 4 * ((b.toNat + 1) % 2 ^ 30) = (4 * b.toNat + 4) % 2 ^ 32
  omega

/-- An access moves what the host believes as it moves the device. -/
theorem Cursor.belief_after (c : Cursor) : (c.after .read).belief = c.belief.advance := by
  obtain ⟨b, inc⟩ := c
  cases inc
  · simp [Cursor.after, Cursor.belief, Belief.advance, stride]
  · have hone : stride true = 1 := rfl
    have hnext : Belief.byteAddr (b + 1#30) = Belief.byteAddr b + 4#32 := byteAddr_add_one b
    simp [Cursor.after, Cursor.belief, Belief.advance, hone, hnext]

/-- Words read in a row. -/
def reads_n (n : ℕ) : List BusCmd := List.replicate n .read

/-- How the loop of `readv` ends that is to read `n` words from `c` on. -/
inductive LoopOutcome (E : Link → LinkIn → Prop) (D : BitVec 30 → BitVec 32 → Prop)
    (F : Filler → Prop) (l l' : Link) (c : Cursor) (n : ℕ) (buf : List (BitVec 32)) :
    Option Thrown → Prop where
  | done (hrest : Rest F l') (hcur : l'.cursor = c.afterAll (reads_n n))
      (htaken : l'.taken = l.taken ++ Cursor.along Cursor.issues c (reads_n n))
      (hb : l'.bus.belief = (c.afterAll (reads_n n)).belief)
      (hbuf : List.Forall₂ (fun x d => ∃ b, x = Expect.data b ∧ D b d)
        (Cursor.along Cursor.answers c (reads_n n)) buf) : LoopOutcome E D F l l' c n buf none
  | abort (h : F .idle) : LoopOutcome E D F l l' c n buf (some .abort)
  | error (a : BitVec 32) (hrest : Rest F l')
      (hb : l'.bus.belief = (c.afterAll (reads_n buf.length)).belief)
      (haddr : l'.cursor = c.afterAll (reads_n (buf.length + 1)) ∧
          l'.taken = l.taken ++ Cursor.along Cursor.issues c (reads_n (buf.length + 1)) ∨
        l'.cursor = c.afterAll (reads_n buf.length) ∧
          l'.taken = l.taken ++ Cursor.along Cursor.issues c (reads_n buf.length))
      (herr : ∃ l i, E l i ∧ i.wb.iWbErr = true) : LoopOutcome E D F l l' c n buf (some (.err a))

section

variable {l l' : Link} {D : BitVec 30 → BitVec 32 → Prop} {F : Filler → Prop} {c : Cursor}
  {said : List Expect} {E : Link → LinkIn → Prop} {ptr : List (BitVec 8)} {cmds : List BusCmd}

theorem Leads.plain (h : Leads l c ptr cmds said) : Link.Plain (ptr ++ readText) := by
  intro ch hch
  rcases List.mem_append.1 hch with hch | hch
  · cases h with
    | there h => cases hch
    | command =>
      rcases List.mem_cons.1 hch with rfl | hch
      · decide
      · exact plain_texts.1 _ ch hch
  · exact plain_texts.2.1 ch hch

/-- **What the loop does**, from rest. -/
theorem ReadLoop.outcome (hE : ∀ l i, E l i → l.Legal i D ∧ ∀ f ∈ i.filler, F f) {n : ℕ}
    {buf : List (BitVec 32)} {t : Option Thrown} (hr : ReadLoop E l ptr n l' buf t)
    (hl : Rest F l) (hb : l.bus.belief = c.belief) (hlead : Leads l c ptr cmds said)
    (hn : 0 < n ∨ l.cursor = c) : LoopOutcome E D F l l' c n buf t := by
  induction hr generalizing c cmds said with
  | done l ptr =>
    have hcur : l.cursor = c := hn.resolve_left (Nat.lt_irrefl 0)
    exact .done hl hcur (List.append_nil _).symm hb .nil
  | word hx hr ih =>
    cases hx.outcome hE hl hb hlead hlead.plain with
    | data d hd hrest hcur htaken hb' =>
      rw [← Cursor.belief_after] at hb'
      cases ih hrest hb' (.there hcur) (Or.inr hcur) with
      | done hrest' hcur' htaken' hb'' hbuf =>
        refine .done hrest' hcur' ?_ hb'' (.cons ⟨_, rfl, hd⟩ hbuf)
        rw [htaken', htaken, List.append_assoc]
        rfl
      | abort h => exact .abort h
      | error a hrest' hb'' haddr herr =>
        refine .error a hrest' hb'' ?_ herr
        rcases haddr with ⟨h1, h2⟩ | ⟨h1, h2⟩
        · left
          refine ⟨h1, ?_⟩
          rw [h2, htaken, List.append_assoc]
          rfl
        · right
          refine ⟨h1, ?_⟩
          rw [h2, htaken, List.append_assoc]
          rfl
  | throw hx =>
    cases hx.outcome hE hl hb hlead hlead.plain with
    | abort h => exact .abort h
    | error a hrest hb' haddr herr =>
      refine .error a hrest hb' ?_ herr
      rcases haddr with ⟨h1, h2⟩ | ⟨h1, h2⟩
      · exact Or.inl ⟨h1, h2⟩
      · exact Or.inr ⟨h1, by rw [h2]; exact (List.append_nil _).symm⟩

end

end ZipStormMX.Hexbus
