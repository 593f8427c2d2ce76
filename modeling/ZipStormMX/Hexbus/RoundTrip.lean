/-
  The host reads what the device sends.

  The device ends no word: a word is over when the next letter arrives, or white space.  Both
  parsers carry the letter of the last response in `m_cmd`, and in `m_isspace` whether it is over.
  `InProgress` says what that means for a stream of encoded words with line breaks between them,
  and each word is then one step: its letter ends the response before it, its digits are its own.
-/
import Mathlib
import ZipStormMX.Hexbus.Encoder
import ZipStormMX.Hexbus.Hbexec
import ZipStormMX.Hexbus.Responses

namespace ZipStormMX.Hexbus

/-! ## The words of the device -/

/-- The response words of the device, errors and resets apart. -/
inductive Reply where
  | data (word : BitVec 32)
  | ack (word : BitVec 32)
  | addr (word : BitVec 32)
  | interrupt
  | idle
deriving DecidableEq

namespace Reply

/-- The 34 bit response word. -/
def word : Reply → BitVec 34
  | data w => 0b00#2 ++ w
  | ack w => 0b01#2 ++ w
  | addr w => 0b10#2 ++ w
  | interrupt => intWord
  | idle => idleWord

/-- The words are those of `hbexec`. -/
theorem word_hbexec (w : BitVec 32) (a : BitVec 30) (inc : Bool) :
    (data w).word = rspData w ∧ (ack 0).word = rspWriteAcknowledgement ∧
      (addr (a ++ (0#1 ++ BitVec.ofBool !inc))).word = rspAddr a inc := ⟨rfl, rfl, rfl⟩

/-- The letter of the response. -/
def letter : Reply → BitVec 8
  | data _ => hexbRead
  | ack _ => hexbAck
  | addr _ => hexbAddr
  | interrupt => hexbInt
  | idle => hexbIdle

/-- The digits of the response, as a word. -/
def payload : Reply → BitVec 32
  | data w => w
  | ack w => w
  | addr w => w
  | interrupt => 0
  | idle => 0

def isData : Reply → Bool
  | data _ => true
  | _ => false

def isAck : Reply → Bool
  | ack _ => true
  | _ => false

def isAddr : Reply → Bool
  | addr _ => true
  | _ => false

end Reply

/-- What the host is to make of a response. -/
def Shadow.receive (v : Shadow) (r : Reply) : Shadow := v.respond r.letter r.payload

/-! ## Characters on the link -/

/-- A character of the device, as the host reads it: the channel bit is gone. -/
def hostChar (ch : BitVec 7) : BitVec 8 := ch.setWidth 8

/-- The characters of a response, as the host reads them. -/
def Reply.chars (r : Reply) : List (BitVec 8) := (encode r.word).map hostChar

/-- A carriage return and a line feed. -/
def lineBreak : List (BitVec 8) := [0x0d#8, 0x0a#8]

def lineBreaks (n : ℕ) : List (BitVec 8) := (List.replicate n lineBreak).flatten

/-- Responses in a row, each with the number of line breaks in front of it. -/
def framed (rs : List (ℕ × Reply)) : List (BitVec 8) :=
  rs.flatMap fun r => lineBreaks r.1 ++ r.2.chars

/-- The value of a digit. -/
def digitValue (ch : BitVec 8) : BitVec 32 :=
  if isdigit ch then (ch &&& 0x0f#8).setWidth 32 else ((ch - 0x61#8 + 10#8) &&& 0x0f#8).setWidth 32

theorem pushDigit_eq (word : BitVec 32) (ch : BitVec 8) :
    pushDigit word ch = word <<< 4 ||| digitValue ch := by
  unfold pushDigit digitValue
  split_ifs <;> rfl

/-- The digits of `hbgenhex` are digits to the host, and of the same value. -/
theorem hostChar_digit : ∀ d : BitVec 4, digit (hostChar (gxChar (0#1 ++ d))) = true ∧
    digitValue (hostChar (gxChar (0#1 ++ d))) = d.setWidth 32 := by decide

/-- The top `n` digits of `word`, read behind those of `acc`. -/
theorem foldl_hexDigits (n : ℕ) (hn : n ≤ 8) (acc word : BitVec 32) :
    ((hexDigits n word).map hostChar).foldl pushDigit acc =
      acc <<< (4 * n) ||| word >>> (32 - 4 * n) := by
  induction n generalizing acc word with
  | zero =>
    show acc = acc <<< 0 ||| word >>> 32
    rw [BitVec.ushiftRight_eq_zero (Nat.le_refl 32), BitVec.shiftLeft_zero, BitVec.or_zero]
  | succ n ih =>
    rw [hexDigits, List.map_cons, List.foldl_cons, ih (by omega), pushDigit_eq, (hostChar_digit _).2]
    apply BitVec.eq_of_getLsbD_eq
    intro i hi
    simp only [BitVec.getLsbD_or, BitVec.getLsbD_shiftLeft, BitVec.getLsbD_ushiftRight,
      BitVec.getLsbD_setWidth, BitVec.getLsbD_append, BitVec.getLsbD_extractLsb',
      BitVec.getLsbD_zero]
    rcases (by omega : i < 4 * n ∨ (4 * n ≤ i ∧ i < 4 * n + 4) ∨ 4 * n + 4 ≤ i) with
      h | ⟨h1, h2⟩ | h
    · -- a digit further right
      simp only [h, show i < 4 * (n + 1) by omega, show ¬ 32 - 4 * n + i < 4 by omega,
        show 32 - 4 * n + i - 4 < 28 by omega, show 0 + (32 - 4 * n + i - 4) = 32 - 4 * (n + 1) + i
        by omega, hi, decide_true, Bool.not_true, Bool.and_false, Bool.false_and, Bool.false_or,
        Bool.true_and, if_false]
    · -- the digit just read
      simp only [hi, show ¬ i < 4 * n by omega, show i < 4 * (n + 1) by omega,
        show i - 4 * n < 4 by omega, show i - 4 * n < 32 by omega,
        show ¬ 32 - 4 * n + i - 4 < 28 by omega, show ¬ 32 - 4 * n + i < 4 by omega,
        show 28 + (i - 4 * n) = 32 - 4 * (n + 1) + i by omega, decide_true, decide_false,
        Bool.not_true, Bool.not_false, Bool.and_false, Bool.false_and, Bool.false_or,
        Bool.true_and, Bool.or_false, if_false]
    · -- what was there before
      simp only [hi, show ¬ i < 4 * n by omega, show ¬ i < 4 * (n + 1) by omega,
        show ¬ i - 4 * n < 4 by omega, show i - 4 * n < 32 by omega,
        show ¬ 32 - 4 * n + i - 4 < 28 by omega, show ¬ 32 - 4 * n + i < 4 by omega,
        show i - 4 * n - 4 = i - 4 * (n + 1) by omega, decide_true, decide_false,
        Bool.not_false, Bool.false_and, Bool.true_and, Bool.or_false, if_false]
      rw [BitVec.getLsbD_of_ge word (32 - 4 * (n + 1) + i) (by omega), Bool.or_false]

/-! ## Reading on -/

/-- What a call has become after the characters of the list, if they do not end it. -/
def reads (m : Method) (s : HexBus) (word : BitVec 32) (n : ℕ) :
    List (BitVec 8) → Option (HexBus × BitVec 32 × ℕ)
  | [] => some (s, word, n)
  | ch :: rest =>
    match Host.readChar s { method := m, word := word, abortCountdown := n } ch with
    | .more s' word' n' => reads m s' word' n' rest
    | _ => none

theorem reads_append {m : Method} {s : HexBus} {word : BitVec 32} {n : ℕ} {l : List (BitVec 8)}
    {s' : HexBus} {word' : BitVec 32} {n' : ℕ} (h : reads m s word n l = some (s', word', n'))
    (l' : List (BitVec 8)) : reads m s word n (l ++ l') = reads m s' word' n' l' := by
  induction l generalizing s word n with
  | nil =>
    obtain ⟨rfl, rfl, rfl⟩ : s = s' ∧ word = word' ∧ n = n' := by simpa [reads] using h
    rfl
  | cons ch rest ih =>
    rw [List.cons_append, reads]
    rw [reads] at h
    cases hc : Host.readChar s { method := m, word := word, abortCountdown := n } ch with
    | more s1 word1 n1 =>
      rw [hc] at h
      exact ih h
    | done s1 r => rw [hc] at h; cases h
    | throw s1 e => rw [hc] at h; cases h

theorem reads_cons {m : Method} {s : HexBus} {word : BitVec 32} {n : ℕ} {ch : BitVec 8}
    {s' : HexBus} {word' : BitVec 32} {n' : ℕ}
    (h : Host.readChar s { method := m, word := word, abortCountdown := n } ch = .more s' word' n')
    (rest : List (BitVec 8)) : reads m s word n (ch :: rest) = reads m s' word' n' rest := by
  rw [reads, h]

/-- `readidle` goes on from where it is. -/
theorem readidle_reads {s : HexBus} {word : BitVec 32} {n : ℕ} {l : List (BitVec 8)}
    {s' : HexBus} {word' : BitVec 32} {n' : ℕ}
    (h : reads .readidle s word n l = some (s', word', n')) (rest : List (BitVec 8)) :
    readidle s word (l ++ rest) = readidle s' word' rest := by
  induction l generalizing s word n with
  | nil =>
    obtain ⟨rfl, rfl, -⟩ : s = s' ∧ word = word' ∧ n = n' := by simpa [reads] using h
    rfl
  | cons ch l ih =>
    rw [List.cons_append, readidle]
    rw [reads] at h
    simp only [Host.readChar] at h
    cases hc : readidleChar s word ch with
    | more s1 word1 n1 =>
      rw [hc] at h
      exact ih h
    | done s1 r => rw [hc] at h; cases h
    | throw s1 e => rw [hc] at h; cases h

/-- `readword` goes on from where it is. -/
theorem readword_reads {s : HexBus} {word : BitVec 32} {n : ℕ} {l : List (BitVec 8)}
    {s' : HexBus} {word' : BitVec 32} {n' : ℕ}
    (h : reads .readword s word n l = some (s', word', n')) (rest : List (BitVec 8)) :
    readword s word n (l ++ rest) = readword s' word' n' rest := by
  induction l generalizing s word n with
  | nil =>
    obtain ⟨rfl, rfl, rfl⟩ : s = s' ∧ word = word' ∧ n = n' := by simpa [reads] using h
    rfl
  | cons ch l ih =>
    rw [List.cons_append, readword]
    rw [reads] at h
    simp only [Host.readChar] at h
    cases hc : readwordChar s word n ch with
    | more s1 word1 n1 =>
      rw [hc] at h
      exact ih h
    | done s1 r => rw [hc] at h; cases h
    | throw s1 e => rw [hc] at h; cases h

/-! ## The response in progress -/

/-- The response that a parser is in the middle of, if any: all of its characters have been read,
    and none behind it. -/
def InProgress (s : HexBus) (word : BitVec 32) : Option Reply → Prop
  | none => s.mIsspace = true
  | some r => s.mIsspace = false ∧ s.mCmd = r.letter ∧ word = r.payload

/-- What the host will know once the response in progress is over. -/
def settled (s : HexBus) : Option Reply → Shadow
  | none => s.shadow
  | some r => s.shadow.receive r

/-- The response takes one of the three that `readword` waits for. -/
def idles : Option Reply → ℕ
  | some .idle => 1
  | _ => 0

/-- The response may end inside the call: any in `readidle`; in `readword`, which has `n` idle
    responses left to wait for, none that is read data, and not the last of these. -/
def MayEnd (m : Method) (n : ℕ) (p : Option Reply) : Prop :=
  m = .readword → (∀ r, p = some r → r.isData = false) ∧ idles p < n

/-- The letter of a response is a letter. -/
theorem letter_plain (r : Reply) : digit r.letter = false ∧ isspace r.letter = false ∧
    r.letter ≠ hexbErr := by
  refine ⟨?_, ?_, ?_⟩
  · cases r <;> rfl
  · cases r <;> rfl
  · cases r <;> simp [Reply.letter, hexbRead, hexbAck, hexbAddr, hexbInt, hexbIdle, hexbErr]

/-- The end of a response in progress does what it is to, in either parser. -/
theorem shadow_end {s : HexBus} {word : BitVec 32} {p : Option Reply} (h : InProgress s word p) :
    (readidleEnd s word).shadow = settled s p ∧ (readwordEnd s word).shadow = settled s p := by
  cases p with
  | none =>
    have hs : s.mIsspace = true := h
    constructor
    · rw [readidleEnd, if_pos hs]
      rfl
    · rw [readwordEnd, if_pos hs]
      rfl
  | some r =>
    obtain ⟨hs, hcmd, rfl⟩ := h
    cases hr : r with
    | idle =>
      rw [hr] at hcmd
      constructor <;> simp [readidleEnd, readwordEnd, hs, hcmd, Reply.letter, settled,
        Shadow.receive, Shadow.respond, hexbIdle, hexbAddr, hexbRead, hexbInt, hexbAck, hexbReset]
    | _ =>
      rw [hr] at hcmd
      have hcommon : common s.mCmd = true := by rw [hcmd]; rfl
      constructor
      · rw [shadow_readidleEnd _ hs hcommon, hcmd]
        rfl
      · rw [shadow_readwordEnd _ hs hcommon, hcmd]
        rfl

/-- A character that is no digit, in a stream without errors: the response in progress ends. -/
theorem read_end {m : Method} {s : HexBus} {word : BitVec 32} {n : ℕ} {p : Option Reply}
    (h : InProgress s word p) (hp : MayEnd m n p) {ch : BitVec 8} (hd : digit ch = false) :
    ∃ (u : HexBus) (word' : BitVec 32) (n' : ℕ), Host.readChar s { method := m, word := word, abortCountdown := n } ch =
        .more (u.startCmd ch) word' n' ∧
      u.shadow = settled s p ∧ (isspace ch = false → word' = 0) ∧
      (m = .readword → n' = n - idles p) := by
  have hnerr : (!s.mIsspace && s.mCmd == hexbErr) = false := by
    cases p with
    | none =>
      have hs : s.mIsspace = true := h
      rw [hs]
      rfl
    | some r =>
      obtain ⟨-, hcmd, -⟩ := h
      have hne : (s.mCmd == hexbErr) = false := by
        rw [hcmd]
        simpa using (letter_plain r).2.2
      rw [hne, Bool.and_false]
  cases m with
  | readidle =>
    simp only [Host.readChar, readidleChar, hd, hnerr, Bool.false_eq_true, if_false]
    by_cases hsp : (isspace ch && s.mIsspace) = true
    · -- more white space changes nothing
      rw [if_pos hsp]
      rw [Bool.and_eq_true] at hsp
      have hsame : s.startCmd ch = s := by
        obtain ⟨f, a, e, l, k, i, sp, c⟩ := s
        simp only at hsp
        simp [HexBus.startCmd, hsp.1, hsp.2]
      have hnone : p = none := by
        cases p with
        | none => rfl
        | some r => exact absurd hsp.2 (by rw [h.1]; exact Bool.false_ne_true)
      refine ⟨s, word, 0, by rw [hsame], by rw [hnone]; rfl, ?_, ?_⟩
      · intro hc
        rw [hsp.1] at hc
        cases hc
      · intro hc
        cases hc
    · rw [if_neg hsp]
      refine ⟨readidleEnd s word, 0, 0, rfl, (shadow_end h).1, fun _ => rfl, ?_⟩
      intro hc
      cases hc
  | readword =>
    obtain ⟨hdata, hidle⟩ := hp rfl
    have hnread : (!s.mIsspace && s.mCmd == hexbRead) = false := by
      cases p with
      | none =>
        have hs : s.mIsspace = true := h
        rw [hs]
        rfl
      | some r =>
        obtain ⟨-, hcmd, -⟩ := h
        have hr := hdata r rfl
        rw [hcmd]
        cases r with
        | data w => cases hr
        | _ => simp [Reply.letter, hexbAck, hexbRead, hexbAddr, hexbInt, hexbIdle]
    have hcount : (!s.mIsspace && s.mCmd == hexbIdle) = decide (idles p = 1) := by
      cases p with
      | none =>
        have hs : s.mIsspace = true := h
        rw [hs]
        rfl
      | some r =>
        obtain ⟨hs, hcmd, -⟩ := h
        rw [hs, hcmd]
        cases r <;> rfl
    have hgo : (decide (idles p = 1) && n - 1 == 0) = false := by
      by_cases h1 : idles p = 1
      · have : n - 1 ≠ 0 := by omega
        simp [this]
      · simp [h1]
    simp only [Host.readChar, readwordChar, hd, hnerr, hgo, hnread, Bool.false_eq_true, if_false,
      hcount]
    refine ⟨readwordEnd s word, 0, _, rfl, (shadow_end h).2, fun _ => rfl, fun _ => ?_⟩
    by_cases h1 : idles p = 1
    · rw [if_pos (by simpa using h1), h1]
    · have h0 : idles p = 0 := by
        cases p with
        | none => rfl
        | some r => cases r <;> first | rfl | exact absurd rfl h1
      rw [if_neg (by simpa using h1), h0]
      rfl

/-- The digits of a response: the call collects them. -/
theorem reads_digits {m : Method} {s : HexBus} (hs : s.mIsspace = false) (l : List (BitVec 8))
    (hl : ∀ ch ∈ l, digit ch = true) (word : BitVec 32) (n : ℕ) :
    ∃ n', reads m s word n l = some (s, l.foldl pushDigit word, n') ∧
      (m = .readword → n' = n) := by
  induction l generalizing word n with
  | nil => exact ⟨n, rfl, fun _ => rfl⟩
  | cons ch l ih =>
    have hd := hl ch (List.mem_cons_self ..)
    have hsame : ({ s with mIsspace := false } : HexBus) = s := by
      obtain ⟨f, a, e, ad, k, i, sp, c⟩ := s
      simp only at hs
      rw [hs]
    cases m with
    | readidle =>
      have hch : Host.readChar s { method := .readidle, word := word, abortCountdown := n } ch =
          .more s (pushDigit word ch) 0 := by
        simp only [Host.readChar, readidleChar, hd, if_true]
      obtain ⟨n', hr, -⟩ := ih (fun c hc => hl c (List.mem_cons_of_mem _ hc)) (pushDigit word ch) 0
      rw [reads_cons hch]
      refine ⟨n', hr, ?_⟩
      intro hc
      cases hc
    | readword =>
      have hch : Host.readChar s { method := .readword, word := word, abortCountdown := n } ch =
          .more s (pushDigit word ch) n := by
        simp only [Host.readChar, readwordChar, hd, if_true, hsame]
      obtain ⟨n', hr, hn⟩ := ih (fun c hc => hl c (List.mem_cons_of_mem _ hc)) (pushDigit word ch) n
      rw [reads_cons hch]
      exact ⟨n', hr, hn⟩

/-! ## Words and line breaks -/

/-- The characters of a response: its letter, and digits that spell its payload. -/
theorem chars_eq (r : Reply) : ∃ l, r.chars = r.letter :: l ∧ (∀ ch ∈ l, digit ch = true) ∧
    l.foldl pushDigit 0 = r.payload := by
  have hdigits : ∀ (n : ℕ) (w : BitVec 32), ∀ ch ∈ (hexDigits n w).map hostChar,
      digit ch = true := by
    intro n
    induction n with
    | zero =>
      intro w ch hch
      cases hch
    | succ n ih =>
      intro w ch hch
      rw [hexDigits, List.map_cons, List.mem_cons] at hch
      rcases hch with rfl | hch
      · exact (hostChar_digit _).1
      · exact ih _ ch hch
  have height : ∀ w : BitVec 32, ((hexDigits 8 w).map hostChar).foldl pushDigit 0 = w := by
    intro w
    rw [foldl_hexDigits 8 (Nat.le_refl 8)]
    simp
  have hplain : ∀ (k : BitVec 2) (w : BitVec 32), k ≠ 0b11#2 →
      (encode (k ++ w)).map hostChar =
        hostChar (gxChar (0b100#3 ++ k)) :: (hexDigits 8 w).map hostChar := by
    intro k w hk
    have hkind : (k ++ w).extractLsb' 32 2 = k := BitVec.extractLsb'_append_eq_left
    have hlow : (k ++ w).extractLsb' 0 32 = w := BitVec.extractLsb'_append_eq_right
    have hs : Hbdeword.special (k ++ w) = false := by
      rw [Hbdeword.special, hkind]
      simpa using hk
    rw [encode, letterCode, hs, hkind, hlow]
    rfl
  cases r with
  | data w =>
    exact ⟨_, hplain 0b00#2 w (by decide), hdigits 8 w, height w⟩
  | ack w =>
    exact ⟨_, hplain 0b01#2 w (by decide), hdigits 8 w, height w⟩
  | addr w =>
    exact ⟨_, hplain 0b10#2 w (by decide), hdigits 8 w, height w⟩
  | interrupt =>
    exact ⟨[], rfl, fun ch hch => (List.not_mem_nil hch).elim, rfl⟩
  | idle =>
    exact ⟨[], rfl, fun ch hch => (List.not_mem_nil hch).elim, rfl⟩

section words

variable {m : Method} {s : HexBus} {word : BitVec 32} {n : ℕ} {p : Option Reply}

/-- A whole response: the one before it ends, and it is the one in progress. -/
theorem reads_chars (h : InProgress s word p) (hp : MayEnd m n p) (r : Reply) :
    ∃ s' n', reads m s word n r.chars = some (s', r.payload, n') ∧
      InProgress s' r.payload (some r) ∧ s'.shadow = settled s p ∧
      (m = .readword → n' = n - idles p) := by
  obtain ⟨l, hl, hdig, hpay⟩ := chars_eq r
  obtain ⟨hletter, hspace, -⟩ := letter_plain r
  obtain ⟨u, word', n1, hread, hu, hw, hn1⟩ := read_end h hp hletter
  have hs : (u.startCmd r.letter).mIsspace = false := hspace
  obtain ⟨n2, hread2, hn2⟩ := reads_digits (m := m) hs l hdig word' n1
  rw [hl, reads_cons hread, hread2, hw hspace, hpay]
  refine ⟨_, n2, rfl, ⟨hs, ?_, rfl⟩, ?_, fun hm => (hn2 hm).trans (hn1 hm)⟩
  · show (if isspace r.letter then u.mCmd else r.letter) = r.letter
    rw [hspace]
    rfl
  · rw [HexBus.shadow_startCmd, hu]

/-- White space: the response in progress ends. -/
theorem reads_space (h : InProgress s word p) (hp : MayEnd m n p) {ch : BitVec 8}
    (hsp : isspace ch = true) :
    ∃ s' word' n', reads m s word n [ch] = some (s', word', n') ∧
      InProgress s' word' none ∧ s'.shadow = settled s p ∧
      (m = .readword → n' = n - idles p) := by
  have hd : digit ch = false := by
    by_contra hd
    rw [isspace_of_digit ch (by simpa using hd)] at hsp
    cases hsp
  obtain ⟨u, word', n1, hread, hu, -, hn1⟩ := read_end h hp hd
  refine ⟨u.startCmd ch, word', n1, ?_, ?_, ?_, hn1⟩
  · rw [reads_cons hread, reads]
  · exact hsp
  · rw [HexBus.shadow_startCmd, hu]

theorem mayEnd_none (hn : m = .readword → 0 < n) : MayEnd m n none := by
  intro hm
  refine ⟨?_, hn hm⟩
  intro r hr
  cases hr

/-- Line breaks: whatever was in progress is settled, and nothing else has happened. -/
theorem reads_lineBreaks (h : InProgress s word p) (hp : MayEnd m n p) (k : ℕ) :
    ∃ s' word' n' p', reads m s word n (lineBreaks k) = some (s', word', n') ∧
      InProgress s' word' p' ∧ settled s' p' = settled s p ∧ MayEnd m n' p' ∧
      (m = .readword → n' - idles p' = n - idles p) ∧ (p' = none ∨ (k = 0 ∧ p' = p)) := by
  induction k generalizing s word n p with
  | zero => exact ⟨s, word, n, p, rfl, h, rfl, hp, fun _ => rfl, Or.inr ⟨rfl, rfl⟩⟩
  | succ k ih =>
    obtain ⟨s1, word1, n1, hr1, hin1, hsh1, hn1⟩ := reads_space h hp (show isspace 0x0d#8 = true from rfl)
    have hp1 : MayEnd m n1 none := by
      apply mayEnd_none
      intro hm
      have := (hp hm).2
      have := hn1 hm
      omega
    obtain ⟨s2, word2, n2, hr2, hin2, hsh2, hn2⟩ := reads_space hin1 hp1 (show isspace 0x0a#8 = true from rfl)
    have hp2 : MayEnd m n2 none := by
      apply mayEnd_none
      intro hm
      have h1 := (hp hm).2
      have h2 := hn1 hm
      have h3 := hn2 hm
      rw [show idles none = 0 from rfl] at h3
      omega
    obtain ⟨s3, word3, n3, p3, hr3, hin3, hsh3, hp3, hn3, hnone⟩ := ih hin2 hp2
    have hsplit : lineBreaks (k + 1) = [0x0d#8] ++ ([0x0a#8] ++ lineBreaks k) := rfl
    refine ⟨s3, word3, n3, p3, ?_, hin3, ?_, hp3, ?_, ?_⟩
    · rw [hsplit, reads_append hr1, reads_append hr2, hr3]
    · rw [hsh3, ← hsh1]
      exact hsh2
    · intro hm
      have h2 := hn1 hm
      have h3 := hn2 hm
      have h4 := hn3 hm
      rw [show idles none = 0 from rfl] at h3 h4
      omega
    · rcases hnone with hnone | ⟨-, hnone⟩
      · exact Or.inl hnone
      · exact Or.inl hnone

/-- The idle responses among those of a list. -/
def idleCount (rs : List (ℕ × Reply)) : ℕ := (rs.map fun r => idles (some r.2)).sum

/-- Responses in a row, none of them read data if it is `readword` that reads them. -/
theorem reads_framed (h : InProgress s word p) (hp : MayEnd m n p) (rs : List (ℕ × Reply))
    (hdata : m = .readword → ∀ r ∈ rs, r.2.isData = false)
    (hidle : m = .readword → idles p + idleCount rs < n) :
    ∃ s' word' n' p', reads m s word n (framed rs) = some (s', word', n') ∧
      InProgress s' word' p' ∧ MayEnd m n' p' ∧
      settled s' p' = (rs.map Prod.snd).foldl Shadow.receive (settled s p) := by
  induction rs generalizing s word n p with
  | nil => exact ⟨s, word, n, p, rfl, h, hp, rfl⟩
  | cons r rs ih =>
    obtain ⟨s1, word1, n1, p1, hr1, hin1, hsh1, hp1, hn1, -⟩ := reads_lineBreaks h hp r.1
    obtain ⟨s2, n2, hr2, hin2, hsh2, hn2⟩ := reads_chars hin1 hp1 r.2
    have hcount : idleCount (r :: rs) = idles (some r.2) + idleCount rs := rfl
    have hleft : m = .readword → n2 = n - idles p := fun hm => (hn2 hm).trans (hn1 hm)
    have hroom : m = .readword → idles (some r.2) + idleCount rs < n2 := by
      intro hm
      have h1 := hidle hm
      have h2 := hleft hm
      rw [hcount] at h1
      omega
    have hp2 : MayEnd m n2 (some r.2) := by
      intro hm
      refine ⟨?_, ?_⟩
      · intro r' hr'
        obtain rfl : r.2 = r' := by simpa using hr'
        exact hdata hm r (List.mem_cons_self ..)
      · exact Nat.lt_of_le_of_lt (Nat.le_add_right ..) (hroom hm)
    obtain ⟨s3, word3, n3, p3, hr3, hin3, hp3, hsh3⟩ := ih hin2 hp2
      (fun hm r' hr' => hdata hm r' (List.mem_cons_of_mem _ hr')) hroom
    have hsplit : framed (r :: rs) = lineBreaks r.1 ++ (r.2.chars ++ framed rs) := by
      rw [framed, List.flatMap_cons, List.append_assoc]
      rfl
    refine ⟨s3, word3, n3, p3, ?_, hin3, hp3, ?_⟩
    · rw [hsplit, reads_append hr1, reads_append hr2, hr3]
    · rw [hsh3, List.map_cons, List.foldl_cons, ← hsh1, ← hsh2]
      rfl

end words

/-! ## The fold, read off -/

theorem foldl_receive_nacks (rs : List Reply) (v : Shadow) :
    (rs.foldl Shadow.receive v).nacks = v.nacks + BitVec.ofNat 32 (rs.countP Reply.isAck) := by
  induction rs generalizing v with
  | nil => simp
  | cons r rs ih =>
    rw [List.foldl_cons, ih, List.countP_cons]
    cases r with
    | ack w =>
      show v.nacks + 1 + _ = _
      rw [BitVec.add_assoc, ← BitVec.ofNat_add_ofNat, BitVec.add_comm 1]
      rfl
    | _ => rfl

theorem foldl_receive_interruptFlag (rs : List Reply) (v : Shadow) :
    (rs.foldl Shadow.receive v).interruptFlag =
      (v.interruptFlag || decide (Reply.interrupt ∈ rs)) := by
  induction rs generalizing v with
  | nil => simp
  | cons r rs ih =>
    rw [List.foldl_cons, ih]
    cases r with
    | interrupt =>
      show (true || _) = _
      simp
    | _ =>
      show (v.interruptFlag || _) = _
      simp

/-- Behind the last address word: the flag stays, and each access moves the address on. -/
theorem foldl_receive_accesses (rs : List Reply) (v : Shadow) (h : ∀ r ∈ rs, r.isAddr = false) :
    (rs.foldl Shadow.receive v).inc = v.inc ∧
      (rs.foldl Shadow.receive v).lastaddr = v.lastaddr +
        if v.inc then BitVec.ofNat 32 (4 * rs.countP fun r => r.isAck || r.isData) else 0 := by
  induction rs generalizing v with
  | nil => simp
  | cons r rs ih =>
    obtain ⟨h1, h2⟩ := ih (v.receive r) fun r' hr' => h r' (List.mem_cons_of_mem _ hr')
    have hr := h r (List.mem_cons_self ..)
    have hinc : (v.receive r).inc = v.inc := by
      cases r <;> first | rfl | cases hr
    have haddr : (v.receive r).lastaddr = v.lastaddr +
        if v.inc then if r.isAck || r.isData then 4 else 0 else 0 := by
      cases r with
      | addr w => cases hr
      | data w =>
        show (if v.inc then v.lastaddr + 4 else v.lastaddr) = _
        cases v.inc <;> simp [Reply.isAck, Reply.isData]
      | ack w =>
        show (if v.inc then v.lastaddr + 4 else v.lastaddr) = _
        cases v.inc <;> simp [Reply.isAck]
      | _ =>
        show v.lastaddr = _
        simp [Reply.isAck, Reply.isData]
    rw [List.foldl_cons, h1, h2, hinc, haddr, List.countP_cons, BitVec.add_assoc]
    refine ⟨rfl, ?_⟩
    congr 1
    cases v.inc
    · rfl
    · cases hc : (r.isAck || r.isData)
      · simp
      · simp only [if_true, Nat.mul_add, ← BitVec.ofNat_add_ofNat]
        rw [BitVec.add_comm]
        rfl

/-! ## Whole streams -/

/-- What follows a word starts with a character that is no digit. -/
theorem framed_terminator {rs : List (ℕ × Reply)} {t : ℕ} (h : rs ≠ [] ∨ 0 < t) :
    ∃ ch rest, framed rs ++ lineBreaks t = ch :: rest ∧ digit ch = false := by
  have hbreak : ∀ k l, 0 < k → ∃ ch rest, lineBreaks k ++ l = ch :: rest ∧ digit ch = false := by
    intro k l hk
    obtain ⟨k, rfl⟩ : ∃ j, k = j + 1 := ⟨k - 1, by omega⟩
    exact ⟨0x0d#8, 0x0a#8 :: (lineBreaks k ++ l), rfl, rfl⟩
  cases rs with
  | nil =>
    obtain ⟨ch, rest, hch, hd⟩ := hbreak t [] (h.resolve_left (fun hn => hn rfl))
    rw [List.append_nil] at hch
    exact ⟨ch, rest, hch, hd⟩
  | cons r rs =>
    have hsplit : framed (r :: rs) ++ lineBreaks t =
        lineBreaks r.1 ++ (r.2.chars ++ (framed rs ++ lineBreaks t)) := by
      rw [framed, List.flatMap_cons, List.append_assoc, List.append_assoc]
      rfl
    rw [hsplit]
    by_cases hk : 0 < r.1
    · exact hbreak _ _ hk
    · obtain ⟨l, hl, -, -⟩ := chars_eq r.2
      obtain ⟨hd, -, -⟩ := letter_plain r.2
      rw [Nat.eq_zero_of_not_pos hk, hl]
      exact ⟨_, _, rfl, hd⟩

/-- `readidle` takes every response of a stream that ends with a line break. -/
theorem readidle_framed {s : HexBus} (hs : s.mIsspace = true) (rs : List (ℕ × Reply)) {t : ℕ}
    (ht : 0 < t) :
    ∃ s', readidle s 0 (framed rs ++ lineBreaks t) = (s', none, []) ∧
      s'.shadow = (rs.map Prod.snd).foldl Shadow.receive s.shadow := by
  have hany : ∀ n p, MayEnd .readidle n p := fun n p hm => nomatch hm
  have hin : InProgress s 0 none := hs
  obtain ⟨s1, w1, n1, p1, hr1, hin1, -, hsh1⟩ := reads_framed hin (hany 0 none) rs
    (fun hm => nomatch hm) (fun hm => nomatch hm)
  obtain ⟨s2, w2, n2, p2, hr2, -, hsh2, -, -, hnone⟩ := reads_lineBreaks hin1 (hany n1 p1) t
  obtain rfl : p2 = none := by
    rcases hnone with hnone | ⟨ht0, -⟩
    · exact hnone
    · omega
  refine ⟨s2, ?_, ?_⟩
  · rw [readidle_reads hr1]
    have hlast := readidle_reads hr2 []
    rw [List.append_nil] at hlast
    rw [hlast]
    rfl
  · show settled s2 none = _
    rw [hsh2, hsh1]
    rfl

/-- `readword` returns the first word read, and `readidle` makes the same of the characters up to
    the one that ends it. -/
theorem readword_framed {s : HexBus} (hs : s.mIsspace = true) (pre post : List (ℕ × Reply))
    (k t : ℕ) (d : BitVec 32) (hpre : ∀ r ∈ pre, r.2.isData = false) (hidle : idleCount pre < 3)
    (hend : post ≠ [] ∨ 0 < t) :
    ∃ s' s'' used rest, framed (pre ++ (k, .data d) :: post) ++ lineBreaks t = used ++ rest ∧
      readword s 0 3 (used ++ rest) = some (s', .ok d, rest) ∧
      readidle s 0 used = (s'', none, []) ∧
      s'.shadow = (pre.map Prod.snd ++ [Reply.data d]).foldl Shadow.receive s.shadow ∧
      s''.shadow = s'.shadow := by
  have hin : InProgress s 0 none := hs
  obtain ⟨ch, rest, hrest, hd⟩ := framed_terminator hend
  have hsplit : framed (pre ++ (k, .data d) :: post) ++ lineBreaks t =
      (framed pre ++ (lineBreaks k ++ ((Reply.data d).chars ++ [ch]))) ++ rest := by
    have hcons : framed (pre ++ (k, .data d) :: post) =
        framed pre ++ ((lineBreaks k ++ (Reply.data d).chars) ++ framed post) := by
      rw [framed, List.flatMap_append, List.flatMap_cons]
      rfl
    rw [hcons]
    simp only [List.append_assoc, hrest, List.singleton_append]
  -- both parsers read up to the end of the data word
  have hread : ∀ m : Method, ∃ s' n', reads m s 0 3
        (framed pre ++ (lineBreaks k ++ (Reply.data d).chars)) = some (s', d, n') ∧
      InProgress s' d (some (.data d)) ∧
      s'.shadow = (pre.map Prod.snd).foldl Shadow.receive s.shadow := by
    intro m
    have hstart : MayEnd m 3 none := mayEnd_none fun _ => by omega
    obtain ⟨s1, w1, n1, p1, hr1, hin1, hp1, hsh1⟩ := reads_framed hin hstart pre (fun _ => hpre)
      (fun _ => by rw [show idles none = 0 from rfl]; omega)
    obtain ⟨s2, w2, n2, p2, hr2, hin2, hsh2, hp2, -, -⟩ := reads_lineBreaks hin1 hp1 k
    obtain ⟨s3, n3, hr3, hin3, hsh3, -⟩ := reads_chars hin2 hp2 (.data d)
    refine ⟨s3, n3, ?_, hin3, ?_⟩
    · rw [reads_append hr1, reads_append hr2, hr3]
      rfl
    · rw [hsh3, hsh2, hsh1]
      rfl
  obtain ⟨s1, n1, hr1, hin1, hsh1⟩ := hread .readword
  obtain ⟨s2, n2, hr2, hin2, hsh2⟩ := hread .readidle
  have hfold : (pre.map Prod.snd ++ [Reply.data d]).foldl Shadow.receive s.shadow =
      ((pre.map Prod.snd).foldl Shadow.receive s.shadow).receive (.data d) := by
    rw [List.foldl_append]
    rfl
  have hword : readword s 0 3 ((framed pre ++ (lineBreaks k ++ ((Reply.data d).chars ++ [ch]))) ++
      rest) = some ((readwordEnd s1 d).startCmd ch, .ok d, rest) := by
    have hassoc : (framed pre ++ (lineBreaks k ++ ((Reply.data d).chars ++ [ch]))) ++ rest =
        (framed pre ++ (lineBreaks k ++ (Reply.data d).chars)) ++ (ch :: rest) := by
      simp only [List.append_assoc, List.singleton_append]
    have hch : readwordChar s1 d n1 ch = .done ((readwordEnd s1 d).startCmd ch) d := by
      obtain ⟨hsp, hcmd, -⟩ := hin1
      simp [readwordChar, hd, hsp, hcmd, Reply.letter, hexbRead, hexbErr, hexbIdle]
    rw [hassoc, readword_reads hr1, readword, hch]
  have hmay : MayEnd .readidle n2 (some (Reply.data d)) := fun hm => nomatch hm
  obtain ⟨u, w3, n3, hr3, hu, -, -⟩ := read_end hin2 hmay hd
  have hidl : readidle s 0 (framed pre ++ (lineBreaks k ++ ((Reply.data d).chars ++ [ch]))) =
      (u.startCmd ch, none, []) := by
    have hassoc : framed pre ++ (lineBreaks k ++ ((Reply.data d).chars ++ [ch])) =
        (framed pre ++ (lineBreaks k ++ (Reply.data d).chars)) ++ [ch] := by
      simp only [List.append_assoc]
    have hch : reads .readidle s2 d n2 [ch] = some (u.startCmd ch, w3, n3) := by
      rw [reads_cons hr3]
      rfl
    have hlast := readidle_reads hch []
    rw [List.append_nil] at hlast
    rw [hassoc, readidle_reads hr2, hlast]
    rfl
  refine ⟨_, _, _, rest, hsplit, hword, hidl, ?_, ?_⟩
  · rw [HexBus.shadow_startCmd, (shadow_end hin1).2, hfold]
    show s1.shadow.receive _ = _
    rw [hsh1]
  · rw [HexBus.shadow_startCmd, HexBus.shadow_startCmd, hu, (shadow_end hin1).2]
    show s2.shadow.receive _ = s1.shadow.receive _
    rw [hsh1, hsh2]

/-- What the host has made of the responses `rs` and of the read data behind them, when it was in
    state `s` before: the write acknowledgements are counted, the last address word is where the
    accesses behind it are counted from, and an interrupt is noted. -/
structure Decoded (s t : HexBus) (rs : List Reply) : Prop where
  nacks : t.mNacks = s.mNacks + BitVec.ofNat 32 (rs.countP Reply.isAck)
  interruptFlag : t.mInterruptFlag = (s.mInterruptFlag || decide (Reply.interrupt ∈ rs))
  addr : ∀ before a behind, rs = before ++ Reply.addr a :: behind →
    (∀ r ∈ behind, r.isAddr = false) →
    t.mInc = !a.getLsbD 0 ∧ t.mLastaddr = (a &&& 0xfffffffc#32) +
      if t.mInc then BitVec.ofNat 32 (4 * (behind.countP Reply.isAck + 1)) else 0
  same : (∀ r ∈ rs, r.isAddr = false) →
    t.mInc = s.mInc ∧ t.mLastaddr = s.mLastaddr +
      if t.mInc then BitVec.ofNat 32 (4 * (rs.countP Reply.isAck + 1)) else 0

/-- The fold over the responses and the read data, read off. -/
theorem decoded_of_fold {s t : HexBus} {rs : List Reply} {d : BitVec 32}
    (hdata : ∀ r ∈ rs, r.isData = false)
    (h : t.shadow = (rs ++ [Reply.data d]).foldl Shadow.receive s.shadow) : Decoded s t rs := by
  have hcount : ∀ l : List Reply, (∀ r ∈ l, r.isData = false) →
      (l ++ [Reply.data d]).countP (fun r => r.isAck || r.isData) = l.countP Reply.isAck + 1 := by
    intro l hl
    rw [List.countP_append]
    congr 1
    apply List.countP_congr
    intro r hr
    rw [hl r hr, Bool.or_false]
  have hnoaddr : ∀ l : List Reply, (∀ r ∈ l, r.isAddr = false) →
      ∀ r ∈ l ++ [Reply.data d], r.isAddr = false := by
    intro l hl r hr
    rcases List.mem_append.1 hr with hr | hr
    · exact hl r hr
    · rw [List.mem_singleton.1 hr]
      rfl
  refine ⟨?_, ?_, ?_, ?_⟩
  · show t.shadow.nacks = _
    rw [h, foldl_receive_nacks, List.countP_append]
    rfl
  · show t.shadow.interruptFlag = _
    rw [h, foldl_receive_interruptFlag]
    simp [HexBus.shadow]
  · intro before a behind hrs hlast
    have hbehind : ∀ r ∈ behind, r.isData = false := fun r hr =>
      hdata r (by rw [hrs]; exact List.mem_append_right _ (List.mem_cons_of_mem _ hr))
    have hfold : t.shadow = (behind ++ [Reply.data d]).foldl Shadow.receive
        ((before.foldl Shadow.receive s.shadow).receive (.addr a)) := by
      rw [h, hrs, List.append_assoc, List.foldl_append]
      rfl
    obtain ⟨hinc, haddr⟩ := foldl_receive_accesses (behind ++ [Reply.data d])
      ((before.foldl Shadow.receive s.shadow).receive (.addr a)) (hnoaddr behind hlast)
    rw [← hfold] at hinc haddr
    rw [hcount behind hbehind] at haddr
    refine ⟨hinc, ?_⟩
    show t.shadow.lastaddr = _
    rw [haddr, ← hinc]
    rfl
  · intro hno
    obtain ⟨hinc, haddr⟩ := foldl_receive_accesses (rs ++ [Reply.data d]) s.shadow (hnoaddr rs hno)
    rw [← h] at hinc haddr
    rw [hcount rs hdata] at haddr
    refine ⟨hinc, ?_⟩
    show t.shadow.lastaddr = _
    rw [haddr, ← hinc]
    rfl

/-- **Decoding undoes encoding.**  `hbdeword` and `hbgenhex` have taken the words of `pre`, a word
    of read data and those of `post`, and have handed over all of their characters: those are the
    words, encoded.  With any line breaks in front of the words and at the end, and fewer than three
    idle words before the data, `readword` returns the data as soon as the character behind it has
    arrived, having made of the responses what they say; `readidle` makes the same of the same
    characters, and takes in whole streams. -/
theorem decode_encode (x : ℕ → EncoderPins) (n : ℕ) (s : HexBus) (pre post : List (ℕ × Reply))
    (k t : ℕ) (d : BitVec 32) (hheld : (Clocked.run Encoder.next .init x n).held = [])
    (hwords : Encoder.acceptedBy x n = (pre ++ (k, .data d) :: post).map fun r => r.2.word)
    (hs : s.mIsspace = true) (hpre : ∀ r ∈ pre, r.2.isData = false) (hidle : idleCount pre < 3)
    (hend : post ≠ [] ∨ 0 < t) :
    (Encoder.emittedBy x n).map hostChar =
        framed ((pre ++ (k, .data d) :: post).map fun r => (0, r.2)) ∧
      ∃ s' s'' used rest, framed (pre ++ (k, .data d) :: post) ++ lineBreaks t = used ++ rest ∧
        readword s 0 3 (used ++ rest) = some (s', .ok d, rest) ∧
        Decoded s s' (pre.map Prod.snd) ∧
        readidle s 0 used = (s'', none, []) ∧ Decoded s s'' (pre.map Prod.snd) ∧
        ∀ t', 0 < t' → ∃ u,
          readidle s 0 (framed (pre ++ (k, .data d) :: post) ++ lineBreaks t') = (u, none, []) ∧
          u.shadow = ((pre ++ (k, .data d) :: post).map Prod.snd).foldl Shadow.receive s.shadow := by
  refine ⟨?_, ?_⟩
  · have hrun := Encoder.emitted_encode x n
    rw [hheld, List.append_nil, hwords] at hrun
    rw [hrun, framed, List.flatMap_map, List.flatMap_map, List.map_flatMap]
    rfl
  · obtain ⟨s', s'', used, rest, hsplit, hword, hidl, hsh, hsame⟩ :=
      readword_framed hs pre post k t d hpre hidle hend
    have hdata : ∀ r ∈ pre.map Prod.snd, r.isData = false := by
      intro r hr
      obtain ⟨q, hq, rfl⟩ := List.mem_map.1 hr
      exact hpre q hq
    refine ⟨s', s'', used, rest, hsplit, hword, decoded_of_fold hdata hsh, hidl,
      decoded_of_fold hdata (hsame.trans hsh), fun t' ht' => readidle_framed hs _ ht'⟩

/-- An address, a write acknowledgement, a sign of life and an interrupt, and a word read. -/
def someReplies : List (ℕ × Reply) :=
  [(0, .addr 0x1000), (1, .ack 0), (0, .idle), (2, .interrupt)]

/-- The words offered to `hbdeword` one after the other, every eleven clocks. -/
def offer (l : List (BitVec 34)) (n : ℕ) : EncoderPins where
  iStb := decide (n % 11 = 0) && decide (n / 11 < l.length)
  iWord := l.getD (n / 11) 0
  iBusy := false

/-- They arrive as sent: the word, one acknowledgement, the interrupt, and the address moved on by
    the write and the read. -/
theorem decode_encode_some :
    ∃ s' rest, readword (.init true false 0) 0 3
        (framed (someReplies ++ [(0, .data 0xdeadbeef)]) ++ lineBreaks 1) =
          some (s', .ok 0xdeadbeef, rest) ∧
      Decoded (.init true false 0) s' (someReplies.map Prod.snd) := by
  obtain ⟨-, s', -, used, rest, hsplit, hword, hdec, -⟩ := decode_encode
    (offer ((someReplies ++ [(0, Reply.data 0xdeadbeef)]).map fun r : ℕ × Reply => r.2.word)) 60
    (.init true false 0) someReplies [] 0 1 0xdeadbeef (by decide +kernel) (by decide +kernel) rfl
    (by decide) (by decide) (Or.inr (by decide))
  rw [hsplit]
  exact ⟨s', rest, hword, hdec⟩

end ZipStormMX.Hexbus
