/-
  `readword` on what the link delivers.

  Between the responses stand single characters; the response to a read is the data or an error,
  perhaps behind the address that has been set.  A response is over with the first character of
  whatever comes next.
-/
import Mathlib.Data.List.Induction
import ZipStormMX.Hexbus.Link

namespace ZipStormMX.Hexbus

/-! ## Items -/

/-- The code of a letter does not name a digit. -/
theorem digit_letter (w : BitVec 34) : digit (hostChar (gxChar (letterCode w))) = false := by
  have hcode : ∀ c : BitVec 5, c.getLsbD 4 = true → digit (hostChar (gxChar c)) = false := by
    decide
  apply hcode
  unfold letterCode
  cases hs : Hbdeword.special w
  · rw [if_neg Bool.false_ne_true, BitVec.getLsbD_append]
    rfl
  · have hkind : w.extractLsb' 32 2 = 0b11#2 := by simpa [Hbdeword.special] using hs
    have hbit : (w.extractLsb' 32 2).getLsbD 1 = true := by
      rw [hkind]
      rfl
    rw [if_pos rfl]
    rw [BitVec.getLsbD_extractLsb'] at hbit ⊢
    exact hbit

namespace Item

/-- An item begins with a character that is no digit. -/
theorem chars_cons (it : Item) : ∃ ch l, it.chars = ch :: l ∧ digit ch = false := by
  cases it with
  | filler f => exact ⟨f.char, [], rfl, by cases f <;> rfl⟩
  | word w => exact ⟨_, _, rfl, digit_letter w⟩

end Item

/-! ## What the host believes -/

/-- Whether the address is known, the address, and whether it is one that moves on. -/
structure Belief where
  addrSet : Bool
  lastaddr : BitVec 32
  inc : Bool
deriving DecidableEq

def Shadow.belief (v : Shadow) : Belief where
  addrSet := v.addrSet
  lastaddr := v.lastaddr
  inc := v.inc

def HexBus.belief (s : HexBus) : Belief := s.shadow.belief

namespace Belief

/-- The address in the device, as the host has it: in bytes. -/
def byteAddr (a : BitVec 30) : BitVec 32 := a ++ 0#2

/-- An access is over. -/
def advance (b : Belief) : Belief := if b.inc then { b with lastaddr := b.lastaddr + 4 } else b

/-- What a response to a command other than a read tells. -/
def told (b : Belief) : Expect → Belief
  | .addr a inc => { addrSet := true, lastaddr := byteAddr a, inc := inc }
  | .ack => b.advance
  | .data _ => b.advance

end Belief

/-- The reply that reports an address. -/
def addrReply (a : BitVec 30) (inc : Bool) : Reply := .addr (a ++ (0#1 ++ BitVec.ofBool !inc))

theorem belief_addrReply (v : Shadow) (a : BitVec 30) (inc : Bool) :
    (v.receive (addrReply a inc)).belief = v.belief.told (.addr a inc) := by
  have hlow : (a ++ (0#1 ++ BitVec.ofBool !inc)).getLsbD 0 = !inc := by
    rw [BitVec.getLsbD_append, BitVec.getLsbD_append]
    cases inc <;> rfl
  have hword : (a ++ (0#1 ++ BitVec.ofBool !inc)) &&& 0xfffffffc#32 = Belief.byteAddr a := by
    apply BitVec.eq_of_getLsbD_eq
    intro k hk
    have hmask : (0xfffffffc#32).getLsbD k = decide (2 ≤ k) := by
      have : ∀ j : Fin 32, (0xfffffffc#32).getLsbD j = decide (2 ≤ j.val) := by decide
      exact this ⟨k, hk⟩
    have hr : (a ++ 0#2).getLsbD k = if k < 2 then (0#2).getLsbD k else a.getLsbD (k - 2) :=
      BitVec.getLsbD_append
    rw [BitVec.getLsbD_and, hmask, Belief.byteAddr, hr, BitVec.getLsbD_append]
    by_cases h2 : 2 ≤ k
    · simp [h2, show ¬ k < 2 by omega]
    · simp [h2, show k < 2 by omega]
  have hrecv : (v.receive (addrReply a inc)).belief =
      { addrSet := true
        lastaddr := (a ++ (0#1 ++ BitVec.ofBool !inc)) &&& 0xfffffffc#32
        inc := !(a ++ (0#1 ++ BitVec.ofBool !inc)).getLsbD 0 } := rfl
  rw [hrecv, hword, hlow, Bool.not_not]
  rfl

theorem belief_filler (v : Shadow) : (v.receive .interrupt).belief = v.belief ∧
    (v.receive .idle).belief = v.belief := ⟨rfl, rfl⟩

/-! ## Waiting for the response -/

/-- A response that `readword` does not return on. -/
def Pending (p : Option Reply) : Prop := ∀ r, p = some r → r.isData = false

/-- `readword` gives up when the third sign of life is over. -/
theorem readwordChar_abort {s : HexBus} {word : BitVec 32} {n : ℕ} {p : Option Reply}
    (h : InProgress s word p) (hn : 1 ≤ n) (hlast : ¬ idles p < n) {ch : BitVec 8}
    (hd : digit ch = false) : readwordChar s word n ch = .throw s .abort := by
  have hp : p = some .idle ∧ n = 1 := by
    cases p with
    | none => exact absurd hn hlast
    | some r => cases r <;> simp [idles] at hlast ⊢ <;> omega
  obtain ⟨rfl, rfl⟩ := hp
  obtain ⟨hs, hcmd, -⟩ := h
  simp [readwordChar, hd, hs, hcmd, Reply.letter, hexbIdle, hexbErr]

/-- The signs of life among some items. -/
def signsOfLife (items : List Item) : ℕ := items.count (.filler .idle)

/-- One item in `readword`, when it is not the data: what was in progress before is over, or was
    the last sign of life to wait for. -/
theorem reads_item {s : HexBus} {word : BitVec 32} {n : ℕ} {p : Option Reply}
    (h : InProgress s word p) (hp : Pending p) (hn : 1 ≤ n) (it : Item) {said : List Expect}
    {D : BitVec 30 → BitVec 32 → Prop} (hans : List.Forall₂ (Hbexec.Answered D) said it.words)
    (hsaid : ∀ x ∈ said, ∃ a inc, x = .addr a inc) :
    (∃ s' word' n' p', reads .readword s word n it.chars = some (s', word', n') ∧
        InProgress s' word' p' ∧ Pending p' ∧ 1 ≤ n' ∧
        n + idles p' = n' + idles p + signsOfLife [it] ∧
        (settled s' p').belief = said.foldl Belief.told (settled s p).belief) ∨
      n ≤ idles p ∧ ∀ rest, ∃ s' rest',
        readword s word n (it.chars ++ rest) = some (s', .error .abort, rest') := by
  by_cases hi : idles p < n
  · left
    have hmay : MayEnd .readword n p := fun _ => ⟨hp, hi⟩
    cases it with
    | filler f =>
      obtain rfl : said = [] := by simpa [Item.words] using hans
      have hspace : ∀ ch, isspace ch = true → ∃ s' word' n' p',
          reads .readword s word n [ch] = some (s', word', n') ∧ InProgress s' word' p' ∧
            Pending p' ∧ 1 ≤ n' ∧ n + idles p' = n' + idles p ∧
            (settled s' p').belief = (settled s p).belief := by
        intro ch hch
        obtain ⟨s', word', n', hr, hin, hsh, hn'⟩ := reads_space h hmay hch
        have hcount := hn' rfl
        refine ⟨s', word', n', none, hr, hin, ?_, by omega, ?_, ?_⟩
        · intro r hr
          cases hr
        · show n + 0 = _
          omega
        · show s'.shadow.belief = _
          rw [hsh]
      have hletter : ∀ r : Reply, r.isData = false → (∀ v : Shadow, (v.receive r).belief = v.belief) →
          ∃ s' word' n' p',
          reads .readword s word n r.chars = some (s', word', n') ∧ InProgress s' word' p' ∧
            Pending p' ∧ 1 ≤ n' ∧ n + idles p' = n' + idles p + idles (some r) ∧
            (settled s' p').belief = (settled s p).belief := by
        intro r hr hv
        obtain ⟨s', n', hrd, hin, hsh, hn'⟩ := reads_chars h hmay r
        have hcount := hn' rfl
        refine ⟨s', r.payload, n', some r, hrd, hin, ?_, by omega, by omega, ?_⟩
        · intro r' hr'
          obtain rfl : r = r' := by simpa using hr'
          exact hr
        · show (s'.shadow.receive r).belief = _
          rw [hv, hsh]
      cases f with
      | carriageReturn => exact hspace 0x0d#8 rfl
      | lineFeed => exact hspace 0x0a#8 rfl
      | interrupt => exact hletter .interrupt rfl fun v => rfl
      | idle => exact hletter .idle rfl fun v => rfl
    | word w =>
      obtain ⟨x, rfl⟩ : ∃ x, said = [x] := by
        cases hans with
        | cons _ ht =>
          cases ht
          exact ⟨_, rfl⟩
      obtain ⟨a, inc, rfl⟩ := hsaid x (List.mem_cons_self ..)
      obtain rfl : w = rspAddr a inc := by
        cases hans with
        | cons hx _ => exact hx
      obtain ⟨s', n', hrd, hin, hsh, hn'⟩ := reads_chars h hmay (addrReply a inc)
      have hcount := hn' rfl
      refine ⟨s', _, n', some (addrReply a inc), hrd, hin, ?_, by omega, ?_, ?_⟩
      · intro r' hr'
        obtain rfl : addrReply a inc = r' := by simpa using hr'
        rfl
      · show n + 0 = n' + idles p + 0
        omega
      · show (s'.shadow.receive (addrReply a inc)).belief = _
        rw [belief_addrReply, hsh]
        rfl
  · right
    refine ⟨Nat.le_of_not_lt hi, ?_⟩
    intro rest
    obtain ⟨ch, l, hch, hd⟩ := it.chars_cons
    refine ⟨s, l ++ rest, ?_⟩
    rw [hch, List.cons_append, readword, readwordChar_abort h hn hi hd]

/-- The characters of some items. -/
def charsOf (items : List Item) : List (BitVec 8) := items.flatMap Item.chars

/-- The response words among some items. -/
def wordsOf (items : List Item) : List (BitVec 34) := items.flatMap Item.words

theorem charsOf_append (a b : List Item) : charsOf (a ++ b) = charsOf a ++ charsOf b :=
  List.flatMap_append

theorem wordsOf_append (a b : List Item) : wordsOf (a ++ b) = wordsOf a ++ wordsOf b :=
  List.flatMap_append

theorem wordsOf_fillers (fs : List Filler) : wordsOf (fs.map Item.filler) = [] := by
  rw [wordsOf, List.flatMap_map]
  simp [Item.words]

/-- A row of items in `readword`, none of them the data. -/
theorem reads_items {s : HexBus} {word : BitVec 32} {n : ℕ} {p : Option Reply}
    (h : InProgress s word p) (hp : Pending p) (hn : 1 ≤ n) (items : List Item)
    {said : List Expect} {D : BitVec 30 → BitVec 32 → Prop}
    (hans : List.Forall₂ (Hbexec.Answered D) said (wordsOf items))
    (hsaid : ∀ x ∈ said, ∃ a inc, x = .addr a inc) :
    (∃ s' word' n' p', reads .readword s word n (charsOf items) = some (s', word', n') ∧
        InProgress s' word' p' ∧ Pending p' ∧ 1 ≤ n' ∧
        n + idles p' = n' + idles p + signsOfLife items ∧
        (settled s' p').belief = said.foldl Belief.told (settled s p).belief) ∨
      n ≤ idles p + signsOfLife items ∧ ∀ rest, ∃ s' rest',
        readword s word n (charsOf items ++ rest) = some (s', .error .abort, rest') := by
  induction items generalizing s word n p said with
  | nil =>
    left
    obtain rfl : said = [] := by simpa [wordsOf] using hans
    exact ⟨s, word, n, p, rfl, h, hp, hn, rfl, rfl⟩
  | cons it items ih =>
    have hchars : charsOf (it :: items) = it.chars ++ charsOf items := rfl
    have hwords : wordsOf (it :: items) = it.words ++ wordsOf items := rfl
    have hsigns : signsOfLife (it :: items) = signsOfLife [it] + signsOfLife items := by
      rw [signsOfLife, ← List.singleton_append, List.count_append]
      rfl
    rw [hwords] at hans
    have hans1 := List.forall₂_take_append _ _ _ hans
    have hans2 := List.forall₂_drop_append _ _ _ hans
    have hsplit := List.take_append_drop it.words.length said
    generalize said.take it.words.length = said1 at *
    generalize said.drop it.words.length = said2 at *
    subst hsplit
    have hsaid1 : ∀ x ∈ said1, ∃ a inc, x = Expect.addr a inc :=
      fun x hx => hsaid x (List.mem_append_left _ hx)
    have hsaid2 : ∀ x ∈ said2, ∃ a inc, x = Expect.addr a inc :=
      fun x hx => hsaid x (List.mem_append_right _ hx)
    rw [hchars]
    rcases reads_item h hp hn it hans1 hsaid1 with
      ⟨s1, w1, n1, p1, hr1, hin1, hp1, hn1, hc1, hb1⟩ | ⟨hlast, habort⟩
    · rcases ih hin1 hp1 hn1 hans2 hsaid2 with
        ⟨s2, w2, n2, p2, hr2, hin2, hp2, hn2, hc2, hb2⟩ | ⟨hlast, habort⟩
      · left
        refine ⟨s2, w2, n2, p2, ?_, hin2, hp2, hn2, by omega, ?_⟩
        · rw [reads_append hr1, hr2]
        · rw [hb2, hb1, List.foldl_append]
      · right
        refine ⟨by omega, ?_⟩
        intro rest
        obtain ⟨s2, rest2, h2⟩ := habort rest
        exact ⟨s2, rest2, by rw [List.append_assoc, readword_reads hr1, h2]⟩
    · right
      refine ⟨by omega, ?_⟩
      intro rest
      obtain ⟨s1, rest1, h1⟩ := habort (charsOf items ++ rest)
      exact ⟨s1, rest1, by rw [List.append_assoc, h1]⟩

/-! ## The response -/

/-- Nothing of interest is in progress: white space, an interrupt, a sign of life, or nothing at
    all yet. -/
def Hushed (s : HexBus) : Prop :=
  s.mIsspace = true ∨ s.mCmd = hexbInt ∨ s.mCmd = hexbIdle ∨ s.mCmd = 0

/-- A filler leaves nothing of interest in progress. -/
theorem hushed_startCmd (s : HexBus) (f : Filler) : Hushed (s.startCmd f.char) := by
  cases f with
  | carriageReturn => exact Or.inl rfl
  | lineFeed => exact Or.inl rfl
  | interrupt => exact Or.inr (Or.inl rfl)
  | idle => exact Or.inr (Or.inr (Or.inl rfl))

/-- A call of `readword` that begins when nothing of interest is in progress. -/
theorem Hushed.inProgress {s : HexBus} (h : Hushed s) :
    ∃ s' p, InProgress s' 0 p ∧ Pending p ∧ (settled s' p).belief = s.belief ∧
      ∀ items n, readword s 0 n (charsOf items) = readword s' 0 n (charsOf items) := by
  by_cases hs : s.mIsspace = true
  · refine ⟨s, none, hs, ?_, rfl, fun items n => rfl⟩
    intro r hr
    cases hr
  have hs0 : s.mIsspace = false := by simpa using hs
  rcases h with h | h | h | h
  · exact absurd h hs
  · refine ⟨s, some .interrupt, ⟨hs0, h, rfl⟩, ?_, rfl, fun items n => rfl⟩
    intro r hr
    obtain rfl : Reply.interrupt = r := by simpa using hr
    rfl
  · refine ⟨s, some .idle, ⟨hs0, h, rfl⟩, ?_, rfl, fun items n => rfl⟩
    intro r hr
    obtain rfl : Reply.idle = r := by simpa using hr
    rfl
  · -- before anything has been received it does not matter what `m_isspace` is
    refine ⟨{ s with mIsspace := true }, none, rfl, ?_, rfl, ?_⟩
    · intro r hr
      cases hr
    · intro items n
      cases items with
      | nil => rfl
      | cons it items =>
        obtain ⟨ch, l, hch, hd⟩ := it.chars_cons
        have hsame : readwordChar s 0 n ch = readwordChar { s with mIsspace := true } 0 n ch := by
          simp [readwordChar, readwordEnd, HexBus.startCmd, hd, hs0, h, hexbErr, hexbIdle, hexbRead,
            hexbAck, hexbInt, hexbAddr, hexbReset]
        show readword s 0 n (it.chars ++ charsOf items) = readword _ 0 n (it.chars ++ charsOf items)
        rw [hch, List.cons_append, readword, readword, hsame]

/-- The last of the words, and only fillers behind it. -/
theorem split_last {items : List Item} {ws : List (BitVec 34)} {w : BitVec 34}
    (h : wordsOf items = ws ++ [w]) :
    ∃ (pre : List Item) (fs : List Filler),
      items = pre ++ Item.word w :: fs.map Item.filler ∧ wordsOf pre = ws := by
  induction items using List.reverseRecOn with
  | nil => simp [wordsOf] at h
  | append_singleton items it ih =>
    have hlast : wordsOf [it] = it.words := List.append_nil _
    rw [wordsOf_append, hlast] at h
    cases it with
    | filler f =>
      rw [Item.words, List.append_nil] at h
      obtain ⟨pre, fs, rfl, hpre⟩ := ih h
      exact ⟨pre, fs ++ [f], by simp, hpre⟩
    | word w' =>
      obtain ⟨rfl, hw⟩ := List.append_inj' h rfl
      obtain rfl : w' = w := by simpa [Item.words] using hw
      exact ⟨items, [], by simp, rfl⟩

/-- The data are the word read when the character behind them arrives. -/
theorem readwordChar_data {s : HexBus} {d : BitVec 32} (h : InProgress s d (some (.data d))) (n : ℕ)
    {ch : BitVec 8} (hd : digit ch = false) :
    readwordChar s d n ch = .done ((readwordEnd s d).startCmd ch) d := by
  obtain ⟨hsp, hcmd, -⟩ := h
  simp [readwordChar, hd, hsp, hcmd, Reply.letter, hexbRead, hexbErr, hexbIdle]

/-- How `readword` comes back on the items of a stream: not yet, giving up on signs of life, or
    with the response, of which it has made `b`; what it has not read are fillers. -/
inductive Response (items : List Item) (b : Belief) (r : Except Thrown (BitVec 32)) :
    Option (HexBus × Except Thrown (BitVec 32) × List (BitVec 8)) → Prop where
  | wait : Response items b r none
  | abort (s : HexBus) (rest : List (BitVec 8)) (h : Item.filler .idle ∈ items) :
      Response items b r (some (s, .error .abort, rest))
  | response (s : HexBus) (fs : List Filler) (hs : Hushed s) (hb : s.belief = b)
      (hfs : ∀ f ∈ fs, Item.filler f ∈ items) :
      Response items b r (some (s, r, charsOf (fs.map Item.filler)))

/-- A call that gives up has seen signs of life, at least two of its own. -/
theorem idle_mem {p : Option Reply} {items : List Item} (h : 3 ≤ idles p + signsOfLife items) :
    Item.filler .idle ∈ items := by
  have hp : idles p ≤ 1 := by
    unfold idles
    split <;> omega
  exact List.count_pos_iff.1 (by unfold signsOfLife at h; omega)

section

variable {s : HexBus} (hs : Hushed s) {items : List Item} {said : List Expect}
  {D : BitVec 30 → BitVec 32 → Prop} (hsaid : ∀ x ∈ said, ∃ a inc, x = .addr a inc)
include hs hsaid

/-- As long as the response has not arrived. -/
theorem readword_waits (hans : List.Forall₂ (Hbexec.Answered D) said (wordsOf items)) :
    readword s 0 3 (charsOf items) = none ∨ Item.filler .idle ∈ items ∧
      ∃ s' rest, readword s 0 3 (charsOf items) = some (s', .error .abort, rest) := by
  obtain ⟨s1, p, hin, hp, -, hsame⟩ := hs.inProgress
  rw [hsame]
  rcases reads_items hin hp (by decide : 1 ≤ 3) items hans hsaid with
    ⟨s2, w2, n2, p2, hr, -⟩ | ⟨hlast, habort⟩
  · left
    have hend := readword_reads hr []
    rw [List.append_nil] at hend
    rw [hend]
    rfl
  · right
    obtain ⟨s2, rest, h2⟩ := habort []
    rw [List.append_nil] at h2
    exact ⟨idle_mem hlast, s2, rest, h2⟩

/-- The response to a read is data. -/
theorem readword_data {d : BitVec 32} {ws : List (BitVec 34)}
    (hans : List.Forall₂ (Hbexec.Answered D) said ws) (hwords : wordsOf items = ws ++ [rspData d]) :
    Response items (said.foldl Belief.told s.belief).advance (.ok d)
      (readword s 0 3 (charsOf items)) := by
  obtain ⟨pre, fs, rfl, rfl⟩ := split_last hwords
  obtain ⟨s1, p, hin, hp, hb, hsame⟩ := hs.inProgress
  have hchars : charsOf (pre ++ Item.word (rspData d) :: fs.map Item.filler) =
      charsOf pre ++ ((Reply.data d).chars ++ charsOf (fs.map Item.filler)) := by
    simp only [charsOf, List.flatMap_append, List.flatMap_cons]
    rfl
  rw [hsame, hchars]
  rcases reads_items hin hp (by decide : 1 ≤ 3) pre hans hsaid with
    ⟨s2, w2, n2, p2, hr2, hin2, hp2, hn2, hc2, hb2⟩ | ⟨hlast, habort⟩
  · rw [readword_reads hr2]
    by_cases hi : idles p2 < n2
    · obtain ⟨s3, n3, hr3, hin3, hsh3, -⟩ := reads_chars hin2 (fun _ => ⟨hp2, hi⟩) (.data d)
      rw [show (Reply.data d).payload = d from rfl] at hr3 hin3
      rw [readword_reads hr3]
      cases fs with
      | nil => exact .wait
      | cons f fs =>
        have hd : digit f.char = false := by cases f <;> rfl
        have hdone := readwordChar_data hin3 n3 hd
        have hstep : readword s3 d n3 (charsOf ((f :: fs).map Item.filler)) =
            some ((readwordEnd s3 d).startCmd f.char, .ok d, charsOf (fs.map Item.filler)) := by
          show readword s3 d n3 (f.char :: charsOf (fs.map Item.filler)) = _
          rw [readword, hdone]
        show Response _ _ _ (readword s3 d n3 _)
        rw [hstep]
        refine .response _ fs (hushed_startCmd _ f) ?_ (fun g hg => by simp [hg])
        show (readwordEnd s3 d).shadow.belief = _
        rw [(shadow_end hin3).2]
        show (s3.shadow.receive (.data d)).belief = _
        rw [hsh3]
        have hadv : ∀ v : Shadow, (v.receive (.data d)).belief = v.belief.advance := by
          intro v
          show v.advance.belief = _
          cases hinc : v.inc <;> simp [Shadow.advance, Shadow.belief, Belief.advance, hinc]
        rw [hadv, hb2, hb]
    · have habort := readwordChar_abort hin2 hn2 hi (letter_plain (.data d)).1
      obtain ⟨l, hl, -⟩ := chars_eq (.data d)
      rw [hl, List.cons_append, readword, habort]
      exact .abort _ _ (List.mem_append_left _ (idle_mem (p := p) (by omega)))
  · obtain ⟨s2, rest, h2⟩ := habort ((Reply.data d).chars ++ charsOf (fs.map Item.filler))
    rw [h2]
    exact .abort _ _ (List.mem_append_left _ (idle_mem hlast))

/-- The response to a read is an error. -/
theorem readword_error {ws : List (BitVec 34)}
    (hans : List.Forall₂ (Hbexec.Answered D) said ws) (hwords : wordsOf items = ws ++ [rspBusError]) :
    Response items (said.foldl Belief.told s.belief)
      (.error (.err (said.foldl Belief.told s.belief).lastaddr))
      (readword s 0 3 (charsOf items)) := by
  obtain ⟨pre, fs, rfl, rfl⟩ := split_last hwords
  obtain ⟨s1, p, hin, hp, hb, hsame⟩ := hs.inProgress
  have hchars : charsOf (pre ++ Item.word rspBusError :: fs.map Item.filler) =
      charsOf pre ++ (hexbErr :: charsOf (fs.map Item.filler)) := by
    simp only [charsOf, List.flatMap_append, List.flatMap_cons]
    rfl
  rw [hsame, hchars]
  rcases reads_items hin hp (by decide : 1 ≤ 3) pre hans hsaid with
    ⟨s2, w2, n2, p2, hr2, hin2, hp2, hn2, hc2, hb2⟩ | ⟨hlast, habort⟩
  · rw [readword_reads hr2]
    have hde : digit hexbErr = false := rfl
    by_cases hi : idles p2 < n2
    · obtain ⟨u, w3, n3, hread, hu, -, -⟩ := read_end (m := .readword) hin2 (fun _ => ⟨hp2, hi⟩) hde
      have hread' : readwordChar s2 w2 n2 hexbErr = .more (u.startCmd hexbErr) w3 n3 := hread
      rw [readword, hread']
      cases fs with
      | nil => exact .wait
      | cons f fs =>
        have hd : digit f.char = false := by cases f <;> rfl
        have hstep : readword (u.startCmd hexbErr) w3 n3 (charsOf ((f :: fs).map Item.filler)) =
            some ({ u.startCmd hexbErr with mBusErr := true }.startCmd f.char,
              .error (.err u.mLastaddr), charsOf (fs.map Item.filler)) := by
          show readword (u.startCmd hexbErr) w3 n3 (f.char :: charsOf (fs.map Item.filler)) = _
          have hthrow : readwordChar (u.startCmd hexbErr) w3 n3 f.char =
              .throw ({ u.startCmd hexbErr with mBusErr := true }.startCmd f.char)
                (.err u.mLastaddr) := by
            simp only [readwordChar, hd, Bool.false_eq_true, if_false]
            rfl
          rw [readword, hthrow]
        have hbelief : u.belief = said.foldl Belief.told s.belief := by
          show u.shadow.belief = _
          rw [hu, hb2, hb]
        have hlast : u.mLastaddr = (said.foldl Belief.told s.belief).lastaddr :=
          congrArg Belief.lastaddr hbelief
        show Response _ _ _ (readword (u.startCmd hexbErr) w3 n3 _)
        rw [hstep, hlast]
        exact .response _ fs (hushed_startCmd _ f) hbelief (fun g hg => by simp [hg])
    · rw [readword, readwordChar_abort hin2 hn2 hi hde]
      exact .abort _ _ (List.mem_append_left _ (idle_mem (p := p) (by omega)))
  · obtain ⟨s2, rest, h2⟩ := habort (hexbErr :: charsOf (fs.map Item.filler))
    rw [h2]
    exact .abort _ _ (List.mem_append_left _ (idle_mem hlast))

end

end ZipStormMX.Hexbus
