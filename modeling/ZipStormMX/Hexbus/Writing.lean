/-
  `writev`: words written, and their acknowledgements counted.

  `readidle` may stop in the middle of a response, and what it had read of its digits is lost then;
  but not the letter, and letters are what acknowledgements are counted by.  When there are as many
  as words, the last of them is over, and with it everything that was on its way: both ends rest.
  Of what the host believes about the address nothing is said.
-/
import ZipStormMX.Hexbus.Reading

namespace ZipStormMX.Hexbus

open Hbconsole (BusEvent)

/-! ## Letters -/

/-- Whether the response in progress is over, and its letter, after one more character. -/
def voiceNext (p : Bool × BitVec 8) (ch : BitVec 8) : Bool × BitVec 8 :=
  if digit ch then p else (isspace ch, if isspace ch then p.2 else ch)

/-- The same, after the characters of the list. -/
def voice (p : Bool × BitVec 8) (l : List (BitVec 8)) : Bool × BitVec 8 := l.foldl voiceNext p

/-- An acknowledgement is in progress. -/
def ackOpen (p : Bool × BitVec 8) : ℕ := if p.1 = false ∧ p.2 = hexbAck then 1 else 0

/-- Neither an error nor a reset. -/
def Calm (ch : BitVec 8) : Prop := ch ≠ hexbErr ∧ ch ≠ hexbReset

/-- What `readidle` has made of the characters `u`, from `s0` on. -/
structure HostHeard (s0 : HexBus) (u : List (BitVec 8)) (s : HexBus) : Prop where
  voice : (s.mIsspace, s.mCmd) = Hexbus.voice (s0.mIsspace, s0.mCmd) u
  count : s.mNacks.toNat + ackOpen (s.mIsspace, s.mCmd) = u.count hexbAck
  calm : s.mIsspace = true ∨ Calm s.mCmd

theorem HostHeard.start {s0 : HexBus} (h : Hushed s0) (hn : s0.mNacks = 0) : HostHeard s0 [] s0 := by
  have hquiet : s0.mIsspace = true ∨ s0.mCmd = hexbInt ∨ s0.mCmd = hexbIdle ∨ s0.mCmd = 0 := h
  refine ⟨rfl, ?_, ?_⟩
  · rw [hn, ackOpen, if_neg]
    · rfl
    · rintro ⟨h1, h2⟩
      simp only at h1 h2
      rw [h1, h2] at hquiet
      revert hquiet
      decide
  · rcases hquiet with h | h | h | h
    · exact Or.inl h
    all_goals
      right
      rw [h]
      exact ⟨by decide, by decide⟩

theorem readidleEnd_mCmd (s : HexBus) (word : BitVec 32) : (readidleEnd s word).mCmd = s.mCmd := by
  have hadv : s.advance.mCmd = s.mCmd := by
    unfold HexBus.advance
    split_ifs <;> rfl
  unfold readidleEnd
  split_ifs <;> first | rfl | exact hadv

/-- An acknowledgement that is over is counted. -/
theorem readidleEnd_mNacks (s : HexBus) (word : BitVec 32) :
    (readidleEnd s word).mNacks = s.mNacks + BitVec.ofNat 32 (ackOpen (s.mIsspace, s.mCmd)) := by
  have hadv : s.advance.mNacks = s.mNacks := by
    unfold HexBus.advance
    split_ifs <;> rfl
  cases hs : s.mIsspace
  · by_cases hk : s.mCmd = hexbAck
    · have hopen : ackOpen (false, s.mCmd) = 1 := if_pos ⟨rfl, hk⟩
      have hend : readidleEnd s word = s.recvAck := by
        rw [readidleEnd, hs, hk]
        rfl
      rw [hopen, hend]
      show s.advance.mNacks + 1 = _
      rw [hadv]
      rfl
    · have hopen : ackOpen (false, s.mCmd) = 0 := if_neg fun hc => hk hc.2
      rw [hopen, readidleEnd, hs, if_neg Bool.false_ne_true]
      split_ifs <;> first | exact (BitVec.add_zero _).symm | (rw [hadv]; exact (BitVec.add_zero _).symm)
  · have hopen : ackOpen (true, s.mCmd) = 0 := if_neg fun hc => Bool.noConfusion hc.1
    rw [hopen, readidleEnd, hs, if_pos rfl]
    exact (BitVec.add_zero _).symm

/-- One more character. -/
theorem HostHeard.char {s0 s : HexBus} {u : List (BitVec 8)} (h : HostHeard s0 u s) {ch : BitVec 8}
    (hch : Calm ch) (hlt : (u ++ [ch]).count hexbAck < 2 ^ 32) (word : BitVec 32) :
    ∃ s' word', readidleChar s word ch = .more s' word' 0 ∧ HostHeard s0 (u ++ [ch]) s' := by
  have hvoice : Hexbus.voice (s0.mIsspace, s0.mCmd) (u ++ [ch]) =
      voiceNext (s.mIsspace, s.mCmd) ch := by
    rw [h.voice, Hexbus.voice, Hexbus.voice, List.foldl_append]
    rfl
  have hcount := h.count
  rw [List.count_append, List.count_singleton] at hlt
  by_cases hd : digit ch = true
  · -- a digit
    have hne : ch ≠ hexbAck := by
      rintro rfl
      cases hd
    refine ⟨s, pushDigit word ch, by rw [readidleChar, if_pos hd], ?_, ?_, h.calm⟩
    · rw [hvoice, voiceNext, if_pos hd]
    · rw [List.count_append, List.count_singleton, beq_false_of_ne hne]
      exact h.count
  have hd : digit ch = false := by simpa using hd
  have hnext : voiceNext (s.mIsspace, s.mCmd) ch =
      (isspace ch, if isspace ch then s.mCmd else ch) := by
    rw [voiceNext, hd]
    rfl
  by_cases hsp : (isspace ch && s.mIsspace) = true
  · -- more white space
    obtain ⟨hs1, hs2⟩ := Bool.and_eq_true_iff.1 hsp
    have hne : ch ≠ hexbAck := by
      rintro rfl
      cases hs1
    refine ⟨s, word, ?_, ?_, ?_, h.calm⟩
    · simp only [readidleChar, hd, hsp, Bool.false_eq_true, if_false, if_true]
    · rw [hvoice, hnext, hs1, hs2]
      rfl
    · rw [List.count_append, List.count_singleton, beq_false_of_ne hne]
      exact h.count
  -- the response in progress ends
  have hnerr : (!s.mIsspace && s.mCmd == hexbErr) = false := by
    rcases h.calm with hs | hc
    · rw [hs]
      rfl
    · rw [beq_false_of_ne hc.1, Bool.and_false]
  have hcmd : ((readidleEnd s word).startCmd ch).mCmd = if isspace ch then s.mCmd else ch := by
    rw [HexBus.startCmd, readidleEnd_mCmd]
  refine ⟨(readidleEnd s word).startCmd ch, 0, ?_, ?_, ?_, ?_⟩
  · simp only [readidleChar, hd, hsp, hnerr, Bool.false_eq_true, if_false]
  · rw [hvoice, hnext, hcmd]
    rfl
  · have hopen : ackOpen (isspace ch, if isspace ch then s.mCmd else ch) =
        if ch = hexbAck then 1 else 0 := by
      by_cases hk : ch = hexbAck
      · rw [hk]
        rfl
      · rw [if_neg hk, ackOpen, if_neg]
        rintro ⟨h1, h2⟩
        simp only at h1 h2
        rw [h1, if_neg Bool.false_ne_true] at h2
        exact hk h2
    have hnacks : ((readidleEnd s word).startCmd ch).mNacks = (readidleEnd s word).mNacks := rfl
    rw [hcmd, hnacks, readidleEnd_mNacks, List.count_append, List.count_singleton,
      BitVec.toNat_add, BitVec.toNat_ofNat]
    show _ + ackOpen (isspace ch, _) = _
    rw [hopen]
    simp only [beq_iff_eq] at hlt ⊢
    have hone : ackOpen (s.mIsspace, s.mCmd) ≤ 1 := by
      unfold ackOpen
      split_ifs <;> omega
    split_ifs at hlt ⊢ <;> omega
  · rw [hcmd]
    cases hsp' : isspace ch
    · exact Or.inr hch
    · exact Or.inl hsp'

/-- A row of characters. -/
theorem HostHeard.readidle {s0 s : HexBus} {u : List (BitVec 8)} (h : HostHeard s0 u s)
    (l : List (BitVec 8)) (hl : ∀ ch ∈ l, Calm ch) (hlt : (u ++ l).count hexbAck < 2 ^ 32)
    (word : BitVec 32) :
    ∃ s', Hexbus.readidle s word l = (s', none, []) ∧ HostHeard s0 (u ++ l) s' := by
  induction l generalizing u s word with
  | nil => exact ⟨s, rfl, by rwa [List.append_nil]⟩
  | cons ch l ih =>
    have hassoc : u ++ ch :: l = (u ++ [ch]) ++ l := by simp
    have hlt1 : (u ++ [ch]).count hexbAck < 2 ^ 32 := by
      rw [hassoc, List.count_append] at hlt
      omega
    obtain ⟨s1, word1, hr, h1⟩ := h.char (hl ch (List.mem_cons_self ..)) hlt1 word
    obtain ⟨s', hr', h'⟩ := ih h1 (fun c hc => hl c (List.mem_cons_of_mem _ hc))
      (by rwa [← hassoc]) word1
    refine ⟨s', ?_, by rwa [hassoc]⟩
    rw [Hexbus.readidle, hr]
    exact hr'

/-! ## The letters of what is sent -/

/-- What stands for a list that is made of two is made of two, the other way around. -/
theorem forall₂_append_right {α β : Type} {R : α → β → Prop} {l : List α} {a b : List β}
    (h : List.Forall₂ R l (a ++ b)) :
    ∃ u v, l = u ++ v ∧ List.Forall₂ R u a ∧ List.Forall₂ R v b :=
  ⟨l.take a.length, l.drop a.length, (List.take_append_drop ..).symm,
    List.forall₂_take_append _ _ _ h, List.forall₂_drop_append _ _ _ h⟩

/-- A digit is neither a letter of interest. -/
theorem digit_plain {ch : BitVec 8} (h : digit ch = true) : Calm ch ∧ ch ≠ hexbAck := by
  refine ⟨⟨?_, ?_⟩, ?_⟩ <;>
  · rintro rfl
    cases h

/-- A response is an acknowledgement, or holds none; and neither an error nor a reset. -/
theorem reply_letters {D : BitVec 30 → BitVec 32 → Prop} {x : Expect} {w : BitVec 34}
    (h : Hbexec.Answered D x w) :
    ∃ ch ds, (Item.word w).chars = ch :: ds ∧ Calm ch ∧ (∀ d ∈ ds, digit d = true) ∧
      (ch = hexbAck ↔ x = .ack) := by
  have hof : ∀ r : Reply, Calm r.letter → (r.letter = hexbAck ↔ x = .ack) →
      ∃ ch ds, (Item.word r.word).chars = ch :: ds ∧ Calm ch ∧ (∀ d ∈ ds, digit d = true) ∧
        (ch = hexbAck ↔ x = .ack) := by
    intro r hcalm hack
    obtain ⟨ds, hds, hdig, -⟩ := chars_eq r
    exact ⟨r.letter, ds, hds, hcalm, hdig, hack⟩
  cases x with
  | data b =>
    obtain ⟨d, -, rfl⟩ := h
    exact hof (.data d) ⟨(by decide : hexbRead ≠ hexbErr), (by decide : hexbRead ≠ hexbReset)⟩
      (by simp [Reply.letter, hexbRead, hexbAck])
  | ack =>
    obtain rfl := h
    exact hof (.ack 0) ⟨by decide, by decide⟩ (by simp [Reply.letter])
  | addr a inc =>
    obtain rfl := h
    exact hof (addrReply a inc) ⟨(by decide : hexbAddr ≠ hexbErr), (by decide : hexbAddr ≠ hexbReset)⟩
      (by simp [addrReply, Reply.letter, hexbAddr, hexbAck])

theorem count_digits {ds : List (BitVec 8)} (h : ∀ d ∈ ds, digit d = true) :
    ds.count hexbAck = 0 :=
  List.count_eq_zero_of_not_mem fun hmem => (digit_plain (h _ hmem)).2 rfl

/-- The acknowledgements that are sent are the letters by which they are counted. -/
theorem items_letters {D : BitVec 30 → BitVec 32 → Prop} (items : List Item) {said : List Expect}
    (h : List.Forall₂ (Hbexec.Answered D) said (wordsOf items)) :
    (∀ ch ∈ charsOf items, Calm ch) ∧ (charsOf items).count hexbAck = said.count .ack := by
  induction items generalizing said with
  | nil =>
    obtain rfl : said = [] := by simpa [wordsOf] using h
    exact ⟨fun ch hch => (List.not_mem_nil hch).elim, rfl⟩
  | cons it items ih =>
    have hwords : wordsOf (it :: items) = it.words ++ wordsOf items := rfl
    have hchars : charsOf (it :: items) = it.chars ++ charsOf items := rfl
    rw [hwords] at h
    obtain ⟨said1, said2, rfl, h1, h2⟩ := forall₂_append_right h
    obtain ⟨hcalm, hcount⟩ := ih h2
    suffices hit : (∀ ch ∈ it.chars, Calm ch) ∧ it.chars.count hexbAck = said1.count .ack by
      rw [hchars, List.count_append, List.count_append, hit.2, hcount]
      refine ⟨?_, rfl⟩
      intro ch hch
      rcases List.mem_append.1 hch with hch | hch
      · exact hit.1 ch hch
      · exact hcalm ch hch
    cases it with
    | filler f =>
      obtain rfl : said1 = [] := by simpa [Item.words] using h1
      refine ⟨?_, ?_⟩
      · intro ch hch
        rw [List.mem_singleton.1 hch]
        cases f <;> exact ⟨by decide, by decide⟩
      · cases f <;> rfl
    | word w =>
      cases h1 with
      | cons hx ht =>
        cases ht
        obtain ⟨ch, ds, hch, hcalm1, hdig, hack⟩ := reply_letters hx
        rw [hch]
        refine ⟨?_, ?_⟩
        · intro c hc
          rcases List.mem_cons.1 hc with rfl | hc
          · exact hcalm1
          · exact (digit_plain (hdig c hc)).1
        · rw [List.count_cons, count_digits hdig, List.count_singleton, Nat.zero_add]
          simp only [beq_iff_eq, hack]

/-! ## When the last acknowledgement is over -/

theorem voice_append (p : Bool × BitVec 8) (a b : List (BitVec 8)) :
    voice p (a ++ b) = voice (voice p a) b := List.foldl_append

/-- Digits leave the response in progress as it is. -/
theorem voice_digits (p : Bool × BitVec 8) {ds : List (BitVec 8)} (h : ∀ d ∈ ds, digit d = true) :
    voice p ds = p := by
  induction ds with
  | nil => rfl
  | cons d ds ih =>
    show voice (voiceNext p d) ds = p
    rw [voiceNext, if_pos (h d (List.mem_cons_self ..)),
      ih fun c hc => h c (List.mem_cons_of_mem _ hc)]

/-- Fillers, one character each. -/
theorem charsOf_fillers (fs : List Filler) : charsOf (fs.map Item.filler) = fs.map Filler.char := by
  induction fs with
  | nil => rfl
  | cons f fs ih =>
    show f.char :: charsOf (fs.map Item.filler) = _
    rw [ih]
    rfl

/-- All of the acknowledgements have been read, and none is in progress: the rest are fillers. -/
theorem rest_of_counts {s0 s : HexBus} {u up : List (BitVec 8)} {pre : List Item} {fs : List Filler}
    {ds : List (BitVec 8)} (h : HostHeard s0 u s) (hds : ∀ d ∈ ds, digit d = true)
    (hsplit : u ++ up = charsOf pre ++ (hexbAck :: ds ++ charsOf (fs.map Item.filler)))
    (hall : (u ++ up).count hexbAck ≤ s.mNacks.toNat) :
    Hushed s ∧ ∃ fs' : List Filler, up = charsOf (fs'.map Item.filler) ∧ ∀ f ∈ fs', f ∈ fs := by
  have hcount := h.count
  rw [List.count_append] at hall
  have hup : up.count hexbAck = 0 := by omega
  have hopen : ackOpen (s.mIsspace, s.mCmd) = 0 := by omega
  -- the letter of the last one has been read
  have hsplit' : u ++ up = (charsOf pre ++ [hexbAck]) ++ (ds ++ charsOf (fs.map Item.filler)) := by
    rw [hsplit]
    simp
  obtain ⟨as, hu, hrest⟩ : ∃ as, u = (charsOf pre ++ [hexbAck]) ++ as ∧
      ds ++ charsOf (fs.map Item.filler) = as ++ up := by
    rcases List.append_eq_append_iff.1 hsplit' with ⟨bs, hb1, hb2⟩ | ⟨as, ha1, ha2⟩
    · rcases List.eq_nil_or_concat bs with rfl | ⟨bs', b, rfl⟩
      · rw [List.append_nil] at hb1
        exact ⟨[], by rw [List.append_nil, hb1], hb2.symm⟩
      · rw [List.concat_eq_append] at hb1 hb2
        rw [← List.append_assoc] at hb1
        obtain ⟨-, hlast⟩ := List.append_inj' hb1 rfl
        obtain rfl : hexbAck = b := by simpa using hlast
        rw [hb2, List.count_append, List.count_append] at hup
        have hone : [hexbAck].count hexbAck = 1 := rfl
        omega
    · exact ⟨as, ha1, ha2⟩
  have hvoice := h.voice
  rw [hu, voice_append, voice_append] at hvoice
  have hletter : voice (voice (s0.mIsspace, s0.mCmd) (charsOf pre)) [hexbAck] =
      (false, hexbAck) := rfl
  rw [hletter] at hvoice
  -- and so have its digits, and a character behind them
  rcases List.append_eq_append_iff.1 hrest with ⟨cs, hc1, hc2⟩ | ⟨cs, hc1, hc2⟩
  · rw [hc1, voice_append, voice_digits _ hds] at hvoice
    rw [charsOf_fillers] at hc2
    obtain ⟨fs1, fs2, rfl, rfl, rfl⟩ := List.map_eq_append_iff.1 hc2
    rcases List.eq_nil_or_concat fs1 with rfl | ⟨fs1', f, rfl⟩
    · rw [hvoice] at hopen
      cases hopen
    · refine ⟨?_, fs2, (charsOf_fillers fs2).symm, fun g hg => List.mem_append_right _ hg⟩
      rw [List.concat_eq_append, List.map_append, voice_append] at hvoice
      generalize voice (false, hexbAck) (fs1'.map Filler.char) = p at hvoice
      have hnext : (s.mIsspace, s.mCmd) = voiceNext p f.char := hvoice
      obtain ⟨h1, h2⟩ := Prod.mk.inj hnext
      cases f with
      | carriageReturn => exact Or.inl h1
      | lineFeed => exact Or.inl h1
      | interrupt => exact Or.inr (Or.inl h2)
      | idle => exact Or.inr (Or.inr (Or.inl h2))
  · have hpart : ∀ d ∈ as, digit d = true := fun d hd =>
      hds d (by rw [hc1]; exact List.mem_append_left _ hd)
    rw [voice_digits _ hpart] at hvoice
    rw [hvoice] at hopen
    cases hopen

/-! ## writev -/

/-- The commands that write the words. -/
def writes (ws : List (BitVec 32)) : List BusCmd := ws.map .write

/-- In the middle of `writev`, from `l0` on, with the words `ws` written to the link. -/
structure InWritev (D : BitVec 30 → BitVec 32 → Prop) (F : Filler → Prop) (l0 l : Link) (c : Cursor)
    (said : List Expect) (ws : List (BitVec 32)) : Prop where
  sound : l.Sound
  promised : l.promised = l0.taken ++ Cursor.along Cursor.issues c (writes ws)
  bound : l.bound = c.afterAll (writes ws)
  pending : l.ahead.2 = none
  sent : ∃ items u said', u ++ l.up = charsOf items ∧ (∀ f, Item.filler f ∈ items → F f) ∧
    HostHeard l0.bus u l.bus ∧ said ++ List.replicate ws.length .ack = said' ++ l.awaited ∧
    List.Forall₂ (Hbexec.Answered D) said' (wordsOf items)

section

variable {l0 l l' : Link} {D : BitVec 30 → BitVec 32 → Prop} {F : Filler → Prop} {c : Cursor}
  {said : List Expect} {E : Link → LinkIn → Prop} {ptr : List (BitVec 8)} {cmds : List BusCmd}
  {ws : List (BitVec 32)}

/-- The first word, with the address in front of it. -/
theorem InWritev.first (hl : Rest F l0) (hn : l0.bus.mNacks = 0) (hlead : Leads l0 c ptr cmds said)
    (hplain : Link.Plain ptr) (v : BitVec 32) :
    InWritev D F l0 (l0.write (ptr ++ writeText v)) c said [v] := by
  obtain ⟨haw, hprom, hbound, hpend⟩ := hlead.request hl fun p => assembleAll_writeText p v
  obtain ⟨fs, hup, hfs⟩ := hl.up
  refine ⟨Link.sound_write hl.sound ?_, ?_, hbound, hpend, ?_⟩
  · intro ch hch
    rcases List.mem_append.1 hch with hch | hch
    · exact hplain ch hch
    · exact plain_texts.2.2.1 v ch hch
  · rw [hprom]
    simp [writes, Cursor.along]
  · refine ⟨fs.map Item.filler, [], [], hup, ?_, .start hl.hushed hn, ?_, ?_⟩
    · intro f hf
      exact hfs f (by simpa using hf)
    · rw [haw]
      rfl
    · rw [wordsOf_fillers]
      exact .nil

/-- One more word. -/
theorem InWritev.next (h : InWritev D F l0 l c said ws) (v : BitVec 32) :
    InWritev D F l0 (l.write (writeText v)) c said (ws ++ [v]) := by
  have hall : assembleAll l.ahead.2 (Link.codes (writeText v)) = ([.write v], none) := by
    rw [h.pending, assembleAll_writeText]
    rfl
  have hcmds : writes (ws ++ [v]) = writes ws ++ [.write v] := List.map_append
  refine ⟨Link.sound_write h.sound (plain_texts.2.2.1 v), ?_, ?_, Link.pending_write hall, ?_⟩
  · rw [Link.promised_write hall, h.promised, h.bound, hcmds, Cursor.along_append, List.append_assoc]
  · rw [Link.bound_write hall, h.bound, hcmds, Cursor.afterAll_append]
  · obtain ⟨items, u, said', hup, hf, hheard, hsaid, hans⟩ := h.sent
    refine ⟨items, u, said', hup, hf, hheard, ?_, hans⟩
    rw [Link.awaited_write hall, List.length_append, List.length_singleton, List.replicate_succ',
      ← List.append_assoc, hsaid, List.append_assoc]
    rfl

/-- Clocks that pass. -/
theorem InWritev.runs (hE : ∀ l i, E l i →
      l.Legal i D ∧ (∀ f ∈ i.filler, F f) ∧ i.wb.iWbErr = false ∧ l.Unhurried)
    (h : InWritev D F l0 l c said ws) (hr : Link.Runs E l l') :
    InWritev D F l0 l' c said ws := by
  obtain ⟨hs, items', hk⟩ := Link.kept_runs hE h.sound hr
  obtain ⟨items, u, said', hup, hf, hheard, hsaid, hans⟩ := h.sent
  obtain ⟨said'', hsaid'', hans''⟩ := hk.awaited
  refine ⟨hs, hk.promised.trans h.promised, hk.bound.trans h.bound, hk.pending.trans h.pending, ?_⟩
  refine ⟨items ++ items', u, said' ++ said'', ?_, ?_, ?_, ?_, ?_⟩
  · rw [hk.up, ← List.append_assoc, hup, charsOf_append]
    rfl
  · intro f hmem
    rcases List.mem_append.1 hmem with hmem | hmem
    · exact hf f hmem
    · exact hk.fillers f hmem
  · rw [hk.bus]
    exact hheard
  · rw [hsaid, hsaid'', List.append_assoc]
  · rw [wordsOf_append]
    exact List.rel_append hans hans''

/-- `readidle` reads what there is, and does not throw. -/
theorem InWritev.poll (hE : ∀ l i, E l i →
      l.Legal i D ∧ (∀ f ∈ i.filler, F f) ∧ i.wb.iWbErr = false ∧ l.Unhurried)
    (h : InWritev D F l0 l c said ws) (hsaid0 : said.count .ack = 0) (hlen : ws.length < 2 ^ 32)
    {t : Option Thrown} (hp : Poll E l l' t) : t = none ∧ InWritev D F l0 l' c said ws := by
  obtain ⟨l1, k, s, rest, hr, hread, rfl⟩ := hp
  have h1 := h.runs hE hr
  obtain ⟨items, u, said', hup, hf, hheard, hsaid, hans⟩ := h1.sent
  obtain ⟨hcalm, hcount⟩ := items_letters items hans
  have hsplit : (u ++ l1.up.take k) ++ l1.up.drop k = charsOf items := by
    rw [List.append_assoc, List.take_append_drop, hup]
  have hmax : said'.count .ack ≤ ws.length := by
    have htotal := congrArg (List.count Expect.ack) hsaid
    rw [List.count_append, List.count_append, hsaid0, List.count_replicate_self] at htotal
    omega
  have hlt : (u ++ l1.up.take k).count hexbAck < 2 ^ 32 := by
    have htotal := congrArg (List.count hexbAck) hsplit
    rw [List.count_append, hcount] at htotal
    omega
  obtain ⟨s', hread', hheard'⟩ := hheard.readidle (l1.up.take k)
    (fun ch hch => hcalm ch (by
      rw [← hup]
      exact List.mem_append_right _ (List.mem_of_mem_take hch))) hlt 0
  rw [hread] at hread'
  obtain ⟨rfl, hrest⟩ := Prod.mk.inj hread'
  obtain ⟨rfl, rfl⟩ := Prod.mk.inj hrest
  refine ⟨rfl, ⟨h1.sound.exec, h1.sound.noReset, h1.sound.plain, h1.sound.last⟩, h1.promised,
    h1.bound, h1.pending, items, u ++ l1.up.take k, said', ?_, hf, hheard', hsaid, hans⟩
  show (u ++ l1.up.take k) ++ ([] ++ l1.up.drop k) = _
  rw [List.nil_append, hsplit]

/-- Waiting for acknowledgements. -/
theorem InWritev.pollUntil (hE : ∀ l i, E l i →
      l.Legal i D ∧ (∀ f ∈ i.filler, F f) ∧ i.wb.iWbErr = false ∧ l.Unhurried)
    (hsaid0 : said.count .ack = 0) (hlen : ws.length < 2 ^ 32) {n : ℕ} {t : Option Thrown}
    (hp : PollUntil E n l l' t) (h : InWritev D F l0 l c said ws) :
    t = none ∧ n ≤ l'.bus.mNacks.toNat ∧ InWritev D F l0 l' c said ws := by
  induction hp with
  | enough hn => exact ⟨rfl, hn, h⟩
  | again hn hp _ ih => exact ih (h.poll hE hsaid0 hlen hp).2
  | throw hn hp =>
    have hnone := (h.poll hE hsaid0 hlen hp).1
    cases hnone

/-- **All of the words have been acknowledged**: they have been written, and both ends rest. -/
theorem InWritev.done (h : InWritev D F l0 l c said ws) (hsaid0 : said.count .ack = 0)
    (hws : ws ≠ []) (hn : ws.length ≤ l.bus.mNacks.toNat) :
    Rest F l ∧ l.cursor = c.afterAll (writes ws) ∧
      l.taken = l0.taken ++ Cursor.along Cursor.issues c (writes ws) := by
  obtain ⟨items, u, said', hup, hf, hheard, hsaid, hans⟩ := h.sent
  obtain ⟨-, hcount⟩ := items_letters items hans
  have htotal := congrArg (List.count Expect.ack) hsaid
  rw [List.count_append, List.count_append, hsaid0, List.count_replicate_self] at htotal
  have hheardAll : (u ++ l.up).count hexbAck = said'.count .ack := by rw [hup, hcount]
  have hheardSome := hheardAll
  rw [List.count_append] at hheardSome
  have hread := hheard.count
  obtain ⟨w, ws', rfl⟩ : ∃ w ws', ws = ws' ++ [w] := by
    rcases List.eq_nil_or_concat ws with h0 | ⟨ws', w, h0⟩
    · exact absurd h0 hws
    · exact ⟨w, ws', by rw [h0, List.concat_eq_append]⟩
  -- the last of the responses has been sent, for it is an acknowledgement
  have hlast : said ++ List.replicate (ws' ++ [w]).length .ack =
      (said ++ List.replicate ws'.length .ack) ++ [.ack] := by
    rw [List.length_append, List.length_singleton, List.replicate_succ', List.append_assoc]
  have haw : l.awaited = [] := by
    rcases List.eq_nil_or_concat l.awaited with h0 | ⟨xs, x, h0⟩
    · exact h0
    · rw [List.concat_eq_append] at h0
      rw [hlast, h0, ← List.append_assoc] at hsaid
      obtain ⟨-, hx⟩ := List.append_inj' hsaid rfl
      obtain rfl : Expect.ack = x := by simpa using hx
      rw [h0, List.count_append] at htotal
      have hone : [Expect.ack].count Expect.ack = 1 := rfl
      omega
  rw [haw, List.append_nil, hlast] at hsaid
  rw [← hsaid] at hans
  obtain ⟨u1, u2, hu12, -, hans2⟩ := forall₂_append_left hans
  obtain ⟨wk, rfl, hk⟩ : ∃ wk, u2 = [wk] ∧ Hbexec.Answered D .ack wk := by
    cases hans2 with
    | cons hx ht =>
      cases ht
      exact ⟨_, rfl, hx⟩
  obtain ⟨pre, fs, rfl, -⟩ := split_last hu12
  obtain ⟨ch, ds, hch, -, hdig, hack⟩ := reply_letters hk
  obtain rfl : ch = hexbAck := hack.2 rfl
  have hchars : charsOf (pre ++ Item.word wk :: fs.map Item.filler) =
      charsOf pre ++ (hexbAck :: ds ++ charsOf (fs.map Item.filler)) := by
    rw [charsOf_append, ← hch]
    rfl
  obtain ⟨hhush, fs', hup', hfs'⟩ := rest_of_counts hheard hdig (hup.trans hchars) (by omega)
  refine ⟨⟨h.sound, haw, h.pending, ⟨fs', hup', ?_⟩, hhush⟩, ?_, ?_⟩
  · intro f hmem
    apply hf f
    have := hfs' f hmem
    simp [this]
  · rw [← Link.bound_of_awaited_nil haw, h.bound]
  · rw [← Link.promised_of_awaited_nil h.sound haw, h.promised]

/-- **What the loop of `writev` does**, once a word has been written. -/
theorem InWritev.loop (hE : ∀ l i, E l i →
      l.Legal i D ∧ (∀ f ∈ i.filler, F f) ∧ i.wb.iWbErr = false ∧ l.Unhurried)
    (hsaid0 : said.count .ack = 0) {nw : ℕ} {vs : List (BitVec 32)} {t : Option Thrown}
    (hr : WriteLoop E l ptr nw vs l' t) (hptr : ptr = []) (hnw : nw = ws.length) (hws : ws ≠ [])
    (hlen : (ws ++ vs).length < 2 ^ 32) (h : InWritev D F l0 l c said ws) :
    t = none ∧ Rest F l' ∧ l'.cursor = c.afterAll (writes (ws ++ vs)) ∧
      l'.taken = l0.taken ++ Cursor.along Cursor.issues c (writes (ws ++ vs)) := by
  induction hr generalizing ws with
  | done hp =>
    rw [List.append_nil] at hlen ⊢
    obtain ⟨ht, hn, h'⟩ := h.pollUntil hE hsaid0 hlen hp
    exact ⟨ht, h'.done hsaid0 hws (hnw ▸ hn)⟩
  | @word _ _ _ _ _ v vs _ hp _ ih =>
    rw [hptr, List.nil_append] at hp
    have hlen' : ws.length + 1 + vs.length < 2 ^ 32 := by
      simpa [Nat.add_assoc, Nat.add_comm 1] using hlen
    obtain ⟨-, -, h'⟩ := InWritev.pollUntil hE hsaid0 (by simp; omega) hp (h.next v)
    have hassoc : ws ++ v :: vs = (ws ++ [v]) ++ vs := by simp
    rw [hassoc] at hlen ⊢
    exact ih rfl (by simp [hnw]) (by simp) hlen h'
  | @throw _ _ _ _ v vs _ hp =>
    rw [hptr, List.nil_append] at hp
    have hlen' : ws.length + 1 + vs.length < 2 ^ 32 := by
      simpa [Nat.add_assoc, Nat.add_comm 1] using hlen
    obtain ⟨hnone, -⟩ := InWritev.pollUntil hE hsaid0 (by simp; omega) hp (h.next v)
    cases hnone

/-- **What the loop of `writev` does**, from rest. -/
theorem WriteLoop.outcome (hE : ∀ l i, E l i →
      l.Legal i D ∧ (∀ f ∈ i.filler, F f) ∧ i.wb.iWbErr = false ∧ l.Unhurried)
    {vs : List (BitVec 32)} {t : Option Thrown} (hr : WriteLoop E l ptr 0 vs l' t) (hl : Rest F l)
    (hn : l.bus.mNacks = 0) (hlead : Leads l c ptr cmds said) (hplain : Link.Plain ptr)
    (hlen : vs.length < 2 ^ 32) :
    t = none ∧ (vs = [] → l' = l) ∧ (vs ≠ [] → Rest F l' ∧ l'.cursor = c.afterAll (writes vs)) ∧
      l'.taken = l.taken ++ Cursor.along Cursor.issues c (writes vs) := by
  have hsaid0 : said.count .ack = 0 := by
    apply List.count_eq_zero_of_not_mem
    intro hmem
    obtain ⟨a, inc, hx⟩ := (told_belief hlead).1 _ hmem
    cases hx
  cases hr with
  | done hp =>
    cases hp with
    | enough _ => exact ⟨rfl, fun _ => rfl, fun h => absurd rfl h, (List.append_nil _).symm⟩
    | again hn _ _ => exact absurd hn (Nat.not_lt_zero _)
    | throw hn _ => exact absurd hn (Nat.not_lt_zero _)
  | @word _ _ _ _ _ v vs _ hp hr =>
    have hfirst := InWritev.first (D := D) hl hn hlead hplain v
    obtain ⟨-, -, h'⟩ := InWritev.pollUntil hE hsaid0 (by simp) hp hfirst
    obtain ⟨ht, hrest, hcur, htaken⟩ := h'.loop hE hsaid0 hr rfl rfl (by simp) hlen
    exact ⟨ht, fun h => (List.cons_ne_nil _ _ h).elim, fun _ => ⟨hrest, hcur⟩, htaken⟩
  | @throw _ _ _ _ v vs _ hp =>
    have hfirst := InWritev.first (D := D) hl hn hlead hplain v
    obtain ⟨hnone, -⟩ := InWritev.pollUntil hE hsaid0 (by simp) hp hfirst
    cases hnone

end

end ZipStormMX.Hexbus
