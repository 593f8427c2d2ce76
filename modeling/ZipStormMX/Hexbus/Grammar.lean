/-
  The grammar of the command channel.

  `hbdechex` and `hbpack` are a parser that is spread over two clocks.  Here is the parser they are
  (`parse`), written over characters: a letter opens a command, digits are shifted into its value,
  and the next character that is neither a digit nor idle closes it.  `Decoder.words_eq` is the
  crux: whatever clocks there are between the characters, the words strobed are those of the parser,
  two clocks late.

  What `readv` and `writev` send is then read back with the parser alone.
-/
import ZipStormMX.Clocked
import ZipStormMX.Hexbus.Calls

namespace ZipStormMX.Hexbus

/-! ## The parser -/

/-- A character of the command channel. -/
def ascii (c : Char) : BitVec 7 := BitVec.ofNat 7 c.toNat

/-- The character of an idle line. -/
def idleChar : BitVec 7 := 0x7f#7

/-- The tag of the command that a letter opens. -/
def tagOf (ch : BitVec 7) : Option (BitVec 2) :=
  if ch = ascii 'R' then some 0b00#2
  else if ch = ascii 'W' then some 0b01#2
  else if ch = ascii 'A' then some 0b10#2
  else if ch = ascii 'S' then some 0b11#2
  else none

/-- The value of a digit. -/
def hexValue (ch : BitVec 7) : Option (BitVec 4) :=
  if ascii '0' ≤ ch ∧ ch ≤ ascii '9' then some ((ch - ascii '0').setWidth 4)
  else if ascii 'a' ≤ ch ∧ ch ≤ ascii 'f' then some ((ch - ascii 'a' + 10#7).setWidth 4)
  else none

/-- A command that is open: its tag, and the value of its digits so far. -/
@[ext]
structure OpenCmd where
  tag : BitVec 2
  value : BitVec 32
deriving DecidableEq

namespace OpenCmd

/-- The word of the command. -/
def word (c : OpenCmd) : BitVec 34 := c.tag ++ c.value

/-- One more digit.  The oldest one drops off the top. -/
def shift (c : OpenCmd) (d : BitVec 4) : OpenCmd :=
  { c with value := c.value <<< 4 ||| d.setWidth 32 }

end OpenCmd

/-- The command that is open after a character. -/
def openAfter (p : Option OpenCmd) (ch : BitVec 7) : Option OpenCmd :=
  if ch = idleChar then p
  else
    match hexValue ch with
    | some d => p.map fun c => c.shift d
    | none => (tagOf ch).map fun tag => { tag := tag, value := 0 }

/-- The words that a character closes: a `T` throws away what is open. -/
def closedBy (p : Option OpenCmd) (ch : BitVec 7) : List (BitVec 34) :=
  if ch = idleChar ∨ ch = ascii 'T' ∨ (hexValue ch).isSome then []
  else p.toList.map OpenCmd.word

/-- **The grammar**: the words of a row of characters. -/
def parse : Option OpenCmd → List (BitVec 7) → List (BitVec 34)
  | _, [] => []
  | p, ch :: rest => closedBy p ch ++ parse (openAfter p ch) rest

theorem parse_append (p : Option OpenCmd) (l l' : List (BitVec 7)) :
    parse p (l ++ l') = parse p l ++ parse (l.foldl openAfter p) l' := by
  induction l generalizing p with
  | nil => rfl
  | cons ch l ih =>
    show closedBy p ch ++ parse (openAfter p ch) (l ++ l') = _
    rw [ih, ← List.append_assoc]
    rfl

/-! ## The two blocks -/

namespace Hbpack

/-- The command that is open. -/
def opened (s : Hbpack) : Option OpenCmd :=
  if s.cmdLoaded then
    some { tag := s.rWord.extractLsb' 32 2, value := s.rWord.extractLsb' 0 32 }
  else none

/-- The word strobed on a clock. -/
def strobed (s : Hbpack) : List (BitVec 34) := if s.oPckStb then [s.oPckWord] else []

end Hbpack

/-- The codes are those of the grammar: bit 4 is clear for a digit, whose value stands below, and
    `100` in the top bits marks a letter, whose tag stands below. -/
theorem dhCode_spec : ∀ ch : BitVec 7,
    hexValue ch = (if (dhCode ch).getLsbD 4 then none else some ((dhCode ch).extractLsb' 0 4)) ∧
      tagOf ch = (if (dhCode ch).extractLsb' 2 3 = 0b100#3 then
        some ((dhCode ch).extractLsb' 0 2) else none) := by
  decide +kernel

/-- One more digit, as `hbpack` has it. -/
theorem pushWord_eq (w : BitVec 32) (d : BitVec 4) : w <<< 4 ||| d.setWidth 32 = pushWord w d := by
  apply BitVec.eq_of_getLsbD_eq
  intro i hi
  simp only [pushWord, BitVec.getLsbD_or, BitVec.getLsbD_shiftLeft, BitVec.getLsbD_setWidth,
    BitVec.getLsbD_append, BitVec.getLsbD_extractLsb']
  by_cases h4 : i < 4
  · simp [h4, hi]
  · have hd : d.getLsbD i = false := BitVec.getLsbD_of_ge d i (by omega)
    simp [h4, hi, hd, show i - 4 < 28 by omega]

/-- The shift register of `hbpack` shifts as the grammar has it. -/
theorem shift_eq (w : BitVec 34) (d : BitVec 4) :
    ({ tag := w.extractLsb' 32 2, value := w.extractLsb' 0 32 } : OpenCmd).shift d =
      { tag := (w.extractLsb' 32 2 ++ (w.extractLsb' 0 28 ++ d)).extractLsb' 32 2
        value := (w.extractLsb' 32 2 ++ (w.extractLsb' 0 28 ++ d)).extractLsb' 0 32 } := by
  have htag : (w.extractLsb' 32 2 ++ (w.extractLsb' 0 28 ++ d)).extractLsb' 32 2 =
      w.extractLsb' 32 2 := by
    rw [BitVec.extractLsb'_append_eq_left]
  have hvalue : (w.extractLsb' 32 2 ++ (w.extractLsb' 0 28 ++ d)).extractLsb' 0 32 =
      w.extractLsb' 0 28 ++ d := by
    rw [BitVec.extractLsb'_append_eq_right]
  have hlow : (w.extractLsb' 0 32).extractLsb' 0 28 = w.extractLsb' 0 28 :=
    BitVec.extractLsb'_extractLsb'_of_le (by omega)
  rw [OpenCmd.shift, pushWord_eq, pushWord, htag, hvalue, hlow]

namespace Hbpack

variable (s : Hbpack) (bits : BitVec 5)

/-- A code outside of reset: what is open after it. -/
theorem opened_code : (s.next false true bits).opened =
    match (if bits.getLsbD 4 then none else some (bits.extractLsb' 0 4)) with
    | some d => s.opened.map fun c => c.shift d
    | none => (if bits.extractLsb' 2 3 = 0b100#3 then some (bits.extractLsb' 0 2) else none).map
        fun tag => { tag := tag, value := 0 } := by
  cases h4 : bits.getLsbD 4 with
  | false =>
    have hl : ¬ bits.extractLsb' 2 3 = 0b100#3 := by
      intro hl
      rw [out_of_band_of_letter bits hl] at h4
      cases h4
    cases hc : s.cmdLoaded with
    | false => simp [opened, nextLoaded, hl, hc]
    | true =>
      simp only [opened, next_cmdLoaded, next_rWord, nextLoaded, nextWord, h4, hl, hc,
        Bool.false_eq_true, if_false, if_true, Bool.true_and, beq_iff_eq, Option.map_some, shift_eq]
  | true =>
    by_cases hl : bits.extractLsb' 2 3 = 0b100#3
    · have htag : (bits.extractLsb' 0 2 ++ 0#32).extractLsb' 32 2 = bits.extractLsb' 0 2 :=
        BitVec.extractLsb'_append_eq_left
      have hvalue : (bits.extractLsb' 0 2 ++ 0#32).extractLsb' 0 32 = 0#32 :=
        BitVec.extractLsb'_append_eq_right
      simp [opened, nextLoaded, nextWord, h4, hl, htag, hvalue]
    · simp [opened, nextLoaded, h4, hl]

/-- A code outside of reset: the word it closes is strobed. -/
theorem strobed_code : (s.next false true bits).strobed =
    if bits.getLsbD 4 then s.opened.toList.map OpenCmd.word else [] := by
  have hword : s.rWord.extractLsb' 32 2 ++ s.rWord.extractLsb' 0 32 = s.rWord := by
    apply BitVec.eq_of_getLsbD_eq
    intro i hi
    simp only [BitVec.getLsbD_append, BitVec.getLsbD_extractLsb']
    by_cases h : i < 32
    · simp [h]
    · simp [h, show i - 32 < 2 by omega, show 32 + (i - 32) = i by omega]
  simp only [strobed, opened, next_oPckStb, next_oPckWord]
  cases bits.getLsbD 4 with
  | false => cases s.cmdLoaded <;> rfl
  | true =>
    cases s.cmdLoaded with
    | false => rfl
    | true => exact congrArg (fun w => [w]) hword.symm

end Hbpack

/-- The decoder of the command channel. -/
structure Decoder where
  dechxi : Hbdechex
  packxi : Hbpack
deriving DecidableEq

/-- A byte from the receiver, if there is a strobe. -/
structure RxIn where
  iStb : Bool
  iByte : BitVec 8

/-- The character received on a clock. -/
def RxIn.received (i : RxIn) : List (BitVec 7) := if i.iStb then [i.iByte.extractLsb' 0 7] else []

namespace Decoder

def init : Decoder := { dechxi := Hbdechex.init, packxi := Hbpack.init }

@[simps]
def next (s : Decoder) (i : RxIn) : Decoder where
  dechxi := Hbdechex.next i.iStb i.iByte
  packxi := Hbpack.next s.packxi s.dechxi.oReset s.dechxi.oDhStb s.dechxi.oDhBits

/-- The words strobed in the first `n` clocks. -/
def words (x : ℕ → RxIn) (n : ℕ) : List (BitVec 34) :=
  Clocked.events next (fun s _ => s.packxi.strobed) init x n

/-- The characters received in the first `n` clocks. -/
def characters (x : ℕ → RxIn) (n : ℕ) : List (BitVec 7) := (List.range n).flatMap fun k => (x k).received

theorem characters_succ (x : ℕ → RxIn) (n : ℕ) :
    characters x (n + 1) = characters x n ++ (x n).received := by
  rw [characters, List.range_succ, List.flatMap_append, List.flatMap_singleton]
  rfl

/-- What the code of a character does to `hbpack`: what the character does in the grammar. -/
theorem pack_character (s : Hbpack) (i : RxIn) :
    (s.next (Hbdechex.next i.iStb i.iByte).oReset (Hbdechex.next i.iStb i.iByte).oDhStb
        (Hbdechex.next i.iStb i.iByte).oDhBits).opened = i.received.foldl openAfter s.opened ∧
      (s.next (Hbdechex.next i.iStb i.iByte).oReset (Hbdechex.next i.iStb i.iByte).oDhStb
        (Hbdechex.next i.iStb i.iByte).oDhBits).strobed = parse s.opened i.received := by
  obtain ⟨iStb, iByte⟩ := i
  cases iStb with
  | false => exact ⟨rfl, rfl⟩
  | true =>
    simp only [Hbdechex.next_oReset, Hbdechex.next_oDhStb, Hbdechex.next_oDhBits, RxIn.received,
      if_true, Bool.true_and, List.foldl_cons, List.foldl_nil, parse, List.append_nil]
    generalize iByte.extractLsb' 0 7 = ch
    obtain ⟨hdigit, hletter⟩ := dhCode_spec ch
    by_cases hidle : ch = idleChar
    · -- an idle character is not passed on
      subst hidle
      exact ⟨rfl, rfl⟩
    · by_cases hT : ch = ascii 'T'
      · -- a reset
        subst hT
        exact ⟨rfl, rfl⟩
      · have hreset : (ch == 0x54#7) = false := beq_eq_false_iff_ne.2 hT
        have hstb : (ch != 0x7f#7) = true := bne_iff_ne.2 hidle
        rw [hreset, hstb, openAfter, closedBy, if_neg hidle, s.strobed_code, hdigit, hletter]
        refine ⟨s.opened_code _, ?_⟩
        cases h4 : (dhCode ch).getLsbD 4 <;> simp [hidle, hT]

/-- **Decoding is parsing**: the words strobed are those of the grammar, two clocks late. -/
theorem words_eq (x : ℕ → RxIn) (n : ℕ) : words x (n + 2) = parse none (characters x n) := by
  suffices h : words x (n + 2) = parse none (characters x n) ∧
      (Clocked.run next init x (n + 1)).packxi.opened = (characters x n).foldl openAfter none from
    h.1
  induction n with
  | zero => exact ⟨rfl, rfl⟩
  | succ n ih =>
    obtain ⟨hwords, hopen⟩ := ih
    obtain ⟨hopen', hstrobed⟩ :=
      pack_character (Clocked.run next init x (n + 1)).packxi (x n)
    rw [hopen] at hopen' hstrobed
    rw [characters_succ, parse_append, List.foldl_append, ← hwords, ← hopen', ← hstrobed]
    exact ⟨rfl, rfl⟩

end Decoder

/-! ## What the host sends -/

/-- A call of the host that talks to the bus. -/
inductive HostCall where
  | readv (a : BitVec 32) (inc : Bool) (len : ℤ)
  | writev (a : BitVec 32) (inc : Bool) (buf : List (BitVec 32))

namespace HostCall

/-- The text that a call sends, made in state `s` of the host.  `writev` puts the address in front of
    its first word, and `readv` in front of its first request. -/
def text (s : HexBus) : HostCall → List (BitVec 8)
  | readv a inc len =>
    if len ≤ 0 then [] else encodeAddress s (addrArg a inc) ++
      (List.replicate len.toNat readText).flatten
  | writev a inc buf =>
    if buf = [] then [] else encodeAddress s (addrArg a inc) ++ buf.flatMap writeText

/-- The address command of a call, unless the host has set the address before. -/
def addressWord (s : HexBus) (a : BitVec 32) : List (BitVec 34) :=
  if s.mAddrSet && a == s.mLastaddr && s.mInc == !a.getLsbD 0 then [] else [0b10#2 ++ a]

/-- The commands that a call means. -/
def commands (s : HexBus) : HostCall → List (BitVec 34)
  | readv a inc len =>
    if len ≤ 0 then [] else addressWord s (addrArg a inc) ++ List.replicate len.toNat (0b00#2 ++ 0#32)
  | writev a inc buf =>
    if buf = [] then [] else addressWord s (addrArg a inc) ++ buf.map fun v => 0b01#2 ++ v

end HostCall

/-- The text as the decoder sees it: seven bits of each byte. -/
def lowBits (l : List (BitVec 8)) : List (BitVec 7) := l.map fun ch => ch.extractLsb' 0 7

theorem hexValue_hexDigit : ∀ d : BitVec 4, (hexDigit d).extractLsb' 0 7 ≠ idleChar ∧
    hexValue ((hexDigit d).extractLsb' 0 7) = some d := by decide

/-- Digits go into the command that is open, and close nothing. -/
theorem parse_digits (c : OpenCmd) (ds : List (BitVec 4)) :
    parse (some c) (lowBits (ds.map hexDigit)) = [] ∧
      (lowBits (ds.map hexDigit)).foldl openAfter (some c) =
        some { c with value := ds.foldl pushWord c.value } := by
  induction ds generalizing c with
  | nil => exact ⟨rfl, rfl⟩
  | cons d ds ih =>
    obtain ⟨hidle, hval⟩ := hexValue_hexDigit d
    have hopen : openAfter (some c) ((hexDigit d).extractLsb' 0 7) = some (c.shift d) := by
      rw [openAfter, if_neg hidle, hval]
      rfl
    have hclosed : closedBy (some c) ((hexDigit d).extractLsb' 0 7) = [] := by
      rw [closedBy, hval]
      simp
    obtain ⟨ih1, ih2⟩ := ih (c.shift d)
    constructor
    · show closedBy (some c) ((hexDigit d).extractLsb' 0 7) ++
        parse (openAfter (some c) ((hexDigit d).extractLsb' 0 7)) (lowBits (ds.map hexDigit)) = []
      rw [hopen, hclosed, ih1]
      rfl
    · show (lowBits (ds.map hexDigit)).foldl openAfter
        (openAfter (some c) ((hexDigit d).extractLsb' 0 7)) = _
      rw [hopen, ih2, OpenCmd.shift, pushWord_eq]
      rfl

/-- An address command stays open for the request behind it. -/
theorem parse_address (a : BitVec 32) :
    parse none (lowBits (hexbAddr :: fmt08x a)) = [] ∧
      (lowBits (hexbAddr :: fmt08x a)).foldl openAfter none = some { tag := 0b10#2, value := a } := by
  obtain ⟨h1, h2⟩ := parse_digits { tag := 0b10#2, value := 0 } (nibbles 8 a)
  rw [foldl_nibbles_eight] at h2
  exact ⟨h1, h2⟩

/-- A request to read closes what is open, and itself. -/
theorem parse_readText (p : Option OpenCmd) :
    parse p (lowBits readText) = p.toList.map OpenCmd.word ++ [0b00#2 ++ 0#32] ∧
      (lowBits readText).foldl openAfter p = none := ⟨rfl, rfl⟩

/-- A request to write closes what is open, and itself. -/
theorem parse_writeText (p : Option OpenCmd) (v : BitVec 32) :
    parse p (lowBits (writeText v)) = p.toList.map OpenCmd.word ++ [0b01#2 ++ v] ∧
      (lowBits (writeText v)).foldl openAfter p = none := by
  obtain ⟨ds, htext, hds⟩ := writeText_digits v
  obtain ⟨h1, h2⟩ := parse_digits { tag := 0b01#2, value := 0 } ds
  rw [hds] at h2
  have hlow : lowBits (writeText v) = ascii 'W' :: (lowBits (ds.map hexDigit) ++ [0x0a#7]) := by
    rw [htext, lowBits, List.cons_append, List.map_cons, List.map_append]
    rfl
  have hW : openAfter p (ascii 'W') = some { tag := 0b01#2, value := 0 } := rfl
  rw [hlow]
  constructor
  · show closedBy p (ascii 'W') ++ parse (openAfter p (ascii 'W')) _ = _
    rw [hW, parse_append, h1, h2]
    rfl
  · show (lowBits (ds.map hexDigit) ++ [0x0a#7]).foldl openAfter (openAfter p (ascii 'W')) = _
    rw [hW, List.foldl_append, h2]
    rfl

/-- A row of requests, the first of which closes the address command in front of it, if there is
    one. -/
theorem parse_requests (p : Option OpenCmd) (text : List (BitVec 8)) (w : BitVec 34)
    (rest : List (BitVec 8)) (ws : List (BitVec 34))
    (htext : parse p (lowBits text) = p.toList.map OpenCmd.word ++ [w] ∧
      (lowBits text).foldl openAfter p = none)
    (hrest : parse none (lowBits rest) = ws ∧ (lowBits rest).foldl openAfter none = none) :
    parse p (lowBits (text ++ rest)) = p.toList.map OpenCmd.word ++ w :: ws ∧
      (lowBits (text ++ rest)).foldl openAfter p = none := by
  have hlow : lowBits (text ++ rest) = lowBits text ++ lowBits rest := List.map_append
  rw [hlow, parse_append, List.foldl_append, htext.1, htext.2, hrest.1, hrest.2,
    List.append_assoc]
  exact ⟨rfl, rfl⟩

theorem parse_reads (n : ℕ) :
    parse none (lowBits (List.replicate n readText).flatten) =
        List.replicate n (0b00#2 ++ 0#32) ∧
      (lowBits (List.replicate n readText).flatten).foldl openAfter none = none := by
  induction n with
  | zero => exact ⟨rfl, rfl⟩
  | succ n ih => exact parse_requests none readText _ _ _ (parse_readText none) ih

theorem parse_writes (buf : List (BitVec 32)) :
    parse none (lowBits (buf.flatMap writeText)) = (buf.map fun v => 0b01#2 ++ v) ∧
      (lowBits (buf.flatMap writeText)).foldl openAfter none = none := by
  induction buf with
  | nil => exact ⟨rfl, rfl⟩
  | cons v buf ih => exact parse_requests none (writeText v) _ _ _ (parse_writeText none v) ih

/-- The address command of a call, if there is one, is open when its first request arrives. -/
theorem parse_encodeAddress (s : HexBus) (a : BitVec 32) : ∃ p : Option OpenCmd,
    parse none (lowBits (encodeAddress s a)) = [] ∧
      (lowBits (encodeAddress s a)).foldl openAfter none = p ∧
      p.toList.map OpenCmd.word = HostCall.addressWord s a := by
  rw [encodeAddress, HostCall.addressWord]
  split_ifs with hset
  · exact ⟨none, rfl, rfl, rfl⟩
  · obtain ⟨h1, h2⟩ := parse_address a
    exact ⟨_, h1, h2, rfl⟩

/-- An address command, if need be, with requests behind it. -/
theorem parse_behind (s : HexBus) (a : BitVec 32) (text rest : List (BitVec 8)) (w : BitVec 34)
    (ws : List (BitVec 34))
    (htext : ∀ p, parse p (lowBits text) = p.toList.map OpenCmd.word ++ [w] ∧
      (lowBits text).foldl openAfter p = none)
    (hrest : parse none (lowBits rest) = ws ∧ (lowBits rest).foldl openAfter none = none) :
    parse none (lowBits (encodeAddress s a ++ (text ++ rest))) =
        HostCall.addressWord s a ++ w :: ws ∧
      (lowBits (encodeAddress s a ++ (text ++ rest))).foldl openAfter none = none := by
  obtain ⟨p, h1, h2, h3⟩ := parse_encodeAddress s a
  obtain ⟨h4, h5⟩ := parse_requests p text w rest ws (htext p) hrest
  have hlow : lowBits (encodeAddress s a ++ (text ++ rest)) =
      lowBits (encodeAddress s a) ++ lowBits (text ++ rest) := List.map_append
  rw [hlow, parse_append, List.foldl_append, h1, h2, h4, h5, h3]
  exact ⟨rfl, rfl⟩

/-- The text of a call decodes to the commands it means, and leaves nothing open. -/
theorem parse_call (s : HexBus) (c : HostCall) :
    parse none (lowBits (c.text s)) = c.commands s ∧
      (lowBits (c.text s)).foldl openAfter none = none := by
  cases c with
  | readv a inc len =>
    by_cases hlen : len ≤ 0
    · rw [HostCall.text, HostCall.commands, if_pos hlen, if_pos hlen]
      exact ⟨rfl, rfl⟩
    · obtain ⟨n, hn⟩ : ∃ n, len.toNat = n + 1 := ⟨len.toNat - 1, by omega⟩
      rw [HostCall.text, HostCall.commands, if_neg hlen, if_neg hlen, hn]
      exact parse_behind s _ readText _ _ _ parse_readText (parse_reads n)
  | writev a inc buf =>
    cases buf with
    | nil => exact ⟨rfl, rfl⟩
    | cons v buf =>
      rw [HostCall.text, HostCall.commands, if_neg (List.cons_ne_nil v buf),
        if_neg (List.cons_ne_nil v buf)]
      exact parse_behind s _ (writeText v) _ _ _ (fun p => parse_writeText p v) (parse_writes buf)

/-- **The command decoder.**  For every stream of characters, with any clocks between them, the
    words strobed are those of the grammar; and the text of any calls of the host decodes to the
    commands these mean. -/
theorem decoder_grammar :
    (∀ (x : ℕ → RxIn) (n : ℕ),
      Decoder.words x (n + 2) = parse none (Decoder.characters x n)) ∧
    ∀ calls : List (HexBus × HostCall),
      parse none (lowBits (calls.flatMap fun c => c.2.text c.1)) =
        calls.flatMap fun c => c.2.commands c.1 := by
  refine ⟨Decoder.words_eq, fun calls => ?_⟩
  induction calls with
  | nil => rfl
  | cons c calls ih =>
    obtain ⟨h1, h2⟩ := parse_call c.1 c.2
    have hlow : lowBits ((c :: calls).flatMap fun c => c.2.text c.1) =
        lowBits (c.2.text c.1) ++ lowBits (calls.flatMap fun c => c.2.text c.1) := List.map_append
    rw [hlow, parse_append, h1, h2, ih]
    rfl

/-- A write, an aborted address, and a read, with noise around them. -/
example : parse none ("x5W1f2\nA12TR\n".toList.map ascii) =
    [0b01#2 ++ 0x1f2#32, 0b00#2 ++ 0#32] := by decide

end ZipStormMX.Hexbus
