/-
  The response path: `hbidle.v`, `hbdeword.v`, `hbgenhex.v`, `hbnewline.v` and the output register of
  `hbconsole.v`, under any back-pressure.

  Each stage hands over what it has been given, with something of its own between: `hbidle` a sign of
  life, `hbnewline` a carriage return and a line feed, and the output register the bytes of the
  console.  Each therefore has one equation a clock, of what it holds, takes and hands over, and the
  equations of the stages are put one behind the other (`ResponsePath.books_next`).

  The one thing that is thrown away is a carriage return that is still in `hbnewline` when the next
  character comes; it is not `loaded`, which only a carriage return may be (`Tidy`).
-/
import ZipStormMX.Hexbus.Encoder
import ZipStormMX.Hexbus.Hbconsole

namespace ZipStormMX.Hexbus

/-! ## The path -/

/-- The registers of the response path.  The idle counter has `W` bits. -/
structure ResponsePath (W : ℕ) where
  addidles : Hbidle W
  encoder : Encoder
  addnl : Hbnewline
  psFull : Bool
  psData : BitVec 8

/-- The inputs of the path outside of a reset. -/
structure PathIn where
  iCmdStb : Bool
  iCmdWord : BitVec 34
  iTxBusy : Bool
  iConsoleStb : Bool
  iConsoleData : BitVec 7

namespace ResponsePath

variable {W : ℕ}

def init (W : ℕ) : ResponsePath W :=
  { addidles := .init W, encoder := .init, addnl := .init, psFull := false, psData := 0 }

section Next

variable (s : ResponsePath W) (i : PathIn)

/-- The output register is taken, and not leaving. -/
def txHeld : Bool := i.iTxBusy && s.psFull

def nlBusy : Bool := Hbnewline.oNlBusy s.addnl (s.txHeld i)

def hbBusy : Bool := Hbdeword.oDwBusy s.encoder.unpackx

def oIdlBusy : Bool := Hbidle.oIdlBusy s.addidles s.hbBusy

def oConsoleBusy : Bool := s.addnl.oNlStb || s.psFull

/-- What the encoder sees. -/
def encoderPins : EncoderPins :=
  { iStb := s.addidles.oIdlStb, iWord := s.addidles.oIdlWord, iBusy := s.nlBusy i }

@[simps]
def next : ResponsePath W where
  addidles := Hbidle.next s.addidles false i.iCmdStb i.iCmdWord s.hbBusy
  encoder := Encoder.next s.encoder (s.encoderPins i)
  addnl := Hbnewline.next s.addnl false s.encoder.genhex.oGxStb s.encoder.genhex.oGxChar (s.txHeld i)
  psFull :=
    if !s.psFull then s.addnl.oNlStb || i.iConsoleStb
    else if !i.iTxBusy then s.addnl.oNlStb else true
  psData :=
    if !s.psFull then
      if s.addnl.oNlStb then 1#1 ++ s.addnl.oNlByte
      else if i.iConsoleStb then 0#1 ++ i.iConsoleData else s.psData
    else if !i.iTxBusy then 1#1 ++ s.addnl.oNlByte else s.psData

/-- The word accepted on a clock. -/
def wordIn : List (BitVec 34) := if i.iCmdStb && !s.oIdlBusy then [i.iCmdWord] else []

/-- The console byte accepted on a clock. -/
def consoleIn : List (BitVec 7) :=
  if i.iConsoleStb && !s.oConsoleBusy then [i.iConsoleData] else []

/-- The byte that the transmitter accepts on a clock. -/
def sent : List (BitVec 8) := if s.psFull && !i.iTxBusy then [s.psData] else []

end Next

end ResponsePath

/-- The path is part of `hbconsole`. -/
def Hbconsole.path (s : Hbconsole) : ResponsePath 30 :=
  { addidles := s.addidles, encoder := { unpackx := s.unpackx, genhex := s.genhex },
    addnl := s.addnl, psFull := s.psFull, psData := s.psData }

theorem Hbconsole.path_next (s : Hbconsole) (i : Pins) (h : s.wReset = false) :
    (s.next i).path = s.path.next
      { iCmdStb := s.addints.oIntStb, iCmdWord := s.addints.oIntWord, iTxBusy := i.iTxBusy,
        iConsoleStb := i.iConsoleStb, iConsoleData := i.iConsoleData } := by
  simp only [path, Hbconsole.next, h]
  rfl

/-! ## The two channels -/

/-- The characters of the debugging channel. -/
def debugChars (l : List (BitVec 8)) : List (BitVec 7) :=
  (l.filter fun b => b.getLsbD 7).map fun b => b.extractLsb' 0 7

/-- The characters of the console. -/
def consoleChars (l : List (BitVec 8)) : List (BitVec 7) :=
  (l.filter fun b => !b.getLsbD 7).map fun b => b.extractLsb' 0 7

/-- Without carriage returns and line feeds. -/
def plain (l : List (BitVec 7)) : List (BitVec 7) :=
  l.filter fun ch => ch != 0x0d#7 && ch != 0x0a#7

theorem debugChars_append (l l' : List (BitVec 8)) :
    debugChars (l ++ l') = debugChars l ++ debugChars l' := by
  simp [debugChars]

theorem consoleChars_append (l l' : List (BitVec 8)) :
    consoleChars (l ++ l') = consoleChars l ++ consoleChars l' := by
  simp [consoleChars]

theorem plain_append (l l' : List (BitVec 7)) : plain (l ++ l') = plain l ++ plain l' :=
  List.filter_append l l'

theorem debugChars_byte : ∀ ch : BitVec 7, debugChars [1#1 ++ ch] = [ch] ∧
    consoleChars [1#1 ++ ch] = [] ∧ debugChars [0#1 ++ ch] = [] ∧ consoleChars [0#1 ++ ch] = [ch] := by
  decide

/-- Of the codes that a word may start with, only those that no response has are line breaks. -/
theorem plain_encode (word : BitVec 34) (h : gxChar (letterCode word) ≠ 0x0d#7) :
    plain (encode word) = encode word := by
  have hletter : gxChar (letterCode word) ≠ 0x0a#7 := by
    generalize letterCode word = code
    revert code
    decide
  have hdigit : ∀ d : BitVec 4, gxChar (0#1 ++ d) ≠ 0x0d#7 ∧ gxChar (0#1 ++ d) ≠ 0x0a#7 := by decide
  have hdigits : ∀ (n : ℕ) (w : BitVec 32), plain (hexDigits n w) = hexDigits n w := by
    intro n
    induction n with
    | zero => exact fun _ => rfl
    | succ n ih =>
      intro w
      obtain ⟨h1, h2⟩ := hdigit (w.extractLsb' 28 4)
      rw [hexDigits, plain, List.filter_cons_of_pos (by simp [h1, h2])]
      exact congrArg _ (ih _)
  rw [encode, plain, List.filter_cons_of_pos (by simp [h, hletter])]
  exact congrArg _ (hdigits _ _)

/-- Each carriage return is followed by a line feed, unless it is the last character. -/
def Paired (l : List (BitVec 7)) : Prop :=
  ∀ before behind, l = before ++ 0x0d#7 :: behind → behind = [] ∨ ∃ rest, behind = 0x0a#7 :: rest

/-- Words with signs of life between them. -/
inductive WithIdle : List (BitVec 34) → List (BitVec 34) → Prop where
  | none : WithIdle [] []
  | word {l l' : List (BitVec 34)} (w : BitVec 34) (h : WithIdle l l') : WithIdle (l ++ [w]) (l' ++ [w])
  | idle {l l' : List (BitVec 34)} (h : WithIdle l l') : WithIdle l (l' ++ [idleWord])

/-! ## hbidle -/

namespace Hbidle

variable {W : ℕ} {s : Hbidle W} {iCmdStb iBusy : Bool} {iCmdWord : BitVec 34}

/-- The word on offer. -/
def offered (s : Hbidle W) : List (BitVec 34) := if s.oIdlStb then [s.oIdlWord] else []

/-- When nothing is on offer, the word is the idle word. -/
def Resting (s : Hbidle W) : Prop := s.oIdlStb = false → s.oIdlWord = idleWord

theorem resting_next (h : s.Resting) : (s.next false iCmdStb iCmdWord iBusy).Resting := by
  intro hstb
  simp only [next_oIdlStb, next_oIdlWord, nextStb, Bool.false_eq_true, if_false] at hstb ⊢
  split_ifs at hstb ⊢ with h1 h2 h3 h4
  · rfl
  · exact h hstb

/-- The word that a clock puts on offer: the one accepted, or a sign of life. -/
def added (s : Hbidle W) (iCmdStb : Bool) (iCmdWord : BitVec 34) (iBusy : Bool) : List (BitVec 34) :=
  if iCmdStb && !s.oIdlBusy iBusy then [iCmdWord]
  else if s.idleStb && !s.oIdlStb then [idleWord]
  else []

/-- What is on offer, and the word added, is what is taken and what is on offer next. -/
theorem offered_next (h : s.Resting) : s.offered ++ s.added iCmdStb iCmdWord iBusy =
    (if s.oIdlStb && !iBusy then [s.oIdlWord] else []) ++
      (s.next false iCmdStb iCmdWord iBusy).offered := by
  cases hacc : (iCmdStb && !s.oIdlBusy iBusy) with
  | true =>
    have hfree : s.oIdlBusy iBusy = false := by
      simp only [Bool.and_eq_true, Bool.not_eq_true'] at hacc
      exact hacc.2
    have hnext : (s.next false iCmdStb iCmdWord iBusy).offered = [iCmdWord] := by
      simp [offered, nextStb, hacc]
    rw [hnext, added, hacc, offered]
    cases hs : s.oIdlStb with
    | false => rfl
    | true =>
      rw [oIdlBusy, hs, Bool.true_and] at hfree
      rw [hfree]
      rfl
  | false =>
    by_cases hidle : (s.idleStb && !s.oIdlStb) = true
    · -- a sign of life
      have hs : s.oIdlStb = false := by
        simp only [Bool.and_eq_true, Bool.not_eq_true'] at hidle
        exact hidle.2
      have hword : (s.next false iCmdStb iCmdWord iBusy).oIdlWord = idleWord := by
        simp only [next_oIdlWord, hacc, Bool.false_eq_true, if_false, h hs, ite_self]
      have hstb : (s.next false iCmdStb iCmdWord iBusy).oIdlStb = true := by
        simp only [next_oIdlStb, nextStb, hacc, hidle, Bool.false_eq_true, if_false, if_true]
      rw [offered, offered, added, hacc, hidle, hs, hstb, hword]
      rfl
    · cases hb : iBusy with
      | false =>
        rw [hb] at hacc
        simp [offered, added, nextStb, hacc, hidle]
      | true =>
        rw [hb] at hacc
        simp [offered, added, nextStb, hacc, hidle]

end Hbidle

/-! ## hbnewline -/

namespace Hbnewline

variable {s : Hbnewline} {iStb iBusy : Bool} {iByte : BitVec 7}

/-- The character on offer. -/
def offered (s : Hbnewline) : List (BitVec 7) := if s.oNlStb then [s.oNlByte] else []

/-- `cr_state` says that a carriage return is on offer, and only that may be displaced. -/
structure Tidy (s : Hbnewline) : Prop where
  cr : s.crState = true ↔ s.oNlStb = true ∧ s.oNlByte = 0x0d#7
  last : s.crState = true → s.lastCr = true
  unloaded : s.oNlStb = true → s.loaded = false → s.oNlByte = 0x0d#7

/-- What the next clock holds: the character taken, or, when the last one has left, a carriage return
    behind a word, a line feed behind a carriage return, or nothing. -/
theorem next_cases (h : s.Tidy) :
    (iStb = true ∧ s.oNlBusy iBusy = false ∧ s.next false iStb iByte iBusy =
      { oNlStb := true, oNlByte := iByte, crState := iByte == 0x0d#7, lastCr := iByte == 0x0d#7,
        loaded := true }) ∨
    ((iStb && !s.oNlBusy iBusy) = false ∧
      ((iBusy = false ∧ s.crState = false ∧ s.next false iStb iByte iBusy =
          { oNlStb := true, oNlByte := 0x0d#7, crState := true, lastCr := true, loaded := false }) ∨
        (iBusy = false ∧ s.crState = true ∧ s.next false iStb iByte iBusy =
          { oNlStb := true, oNlByte := 0x0a#7, crState := false, lastCr := true, loaded := true }) ∨
        (iBusy = false ∧ s.crState = false ∧ s.next false iStb iByte iBusy =
          { oNlStb := false, oNlByte := 0x7f#7, crState := false, lastCr := true,
            loaded := false }) ∨
        (iBusy = true ∧ s.next false iStb iByte iBusy = s))) := by
  obtain ⟨-, hlast, -⟩ := h
  cases hacc : (iStb && !s.oNlBusy iBusy) with
  | true =>
    left
    simp only [Bool.and_eq_true, Bool.not_eq_true'] at hacc
    obtain ⟨rfl, hfree⟩ := hacc
    refine ⟨rfl, hfree, ?_⟩
    simp [next, hfree]
  | false =>
    right
    refine ⟨rfl, ?_⟩
    cases hb : iBusy with
    | true =>
      rw [hb] at hacc
      refine Or.inr (Or.inr (Or.inr ⟨rfl, ?_⟩))
      simp [next, hacc]
    | false =>
      rw [hb] at hacc
      cases hc : s.crState with
      | true =>
        refine Or.inr (Or.inl ⟨rfl, rfl, ?_⟩)
        simp [next, hacc, hc, hlast hc]
      | false =>
        -- nothing is on the input, or it would be taken
        have hstb : iStb = false := by
          simpa [oNlBusy, hc] using hacc
        cases hl : s.lastCr with
        | false =>
          refine Or.inl ⟨rfl, rfl, ?_⟩
          simp [next, hstb, hl]
        | true =>
          refine Or.inr (Or.inr (Or.inl ⟨rfl, rfl, ?_⟩))
          simp [next, hstb, hl, hc]

theorem tidy_init : init.Tidy := by
  constructor <;> decide

theorem tidy_next (h : s.Tidy) : (s.next false iStb iByte iBusy).Tidy := by
  rcases @next_cases s iStb iBusy iByte h with ⟨-, -, heq⟩ | ⟨-, ⟨-, -, heq⟩ | ⟨-, -, heq⟩ | ⟨-, -, heq⟩ | ⟨-, heq⟩⟩
  · rw [heq]
    constructor <;> simp
  · rw [heq]
    constructor <;> decide
  · rw [heq]
    constructor <;> decide
  · rw [heq]
    constructor <;> decide
  · rw [heq]
    exact h

/-- Line breaks apart, what is on offer and the character taken is what has left and what is on offer
    next. -/
theorem plain_next (h : s.Tidy) :
    plain s.offered ++ plain (if iStb && !s.oNlBusy iBusy then [iByte] else []) =
      plain (if iBusy then [] else s.offered) ++ plain (s.next false iStb iByte iBusy).offered := by
  rcases @next_cases s iStb iBusy iByte h with ⟨hstb, hfree, heq⟩ | ⟨hacc, hrest⟩
  · rw [heq, hstb, hfree]
    cases hb : iBusy with
    | false => rfl
    | true =>
      -- only a carriage return is displaced
      have hnone : plain s.offered = [] := by
        cases hs : s.oNlStb with
        | false =>
          rw [offered, hs]
          rfl
        | true =>
          have hl : s.loaded = false := by
            simpa [oNlBusy, hb, hs] using hfree
          rw [offered, hs, h.unloaded hs hl]
          rfl
      rw [hnone]
      rfl
  · rw [hacc]
    rcases hrest with ⟨rfl, -, heq⟩ | ⟨rfl, -, heq⟩ | ⟨rfl, -, heq⟩ | ⟨rfl, heq⟩
    · rw [heq]
      rfl
    · rw [heq]
      rfl
    · rw [heq]
      rfl
    · rw [heq]
      exact List.append_nil _

/-- A carriage return that leaves makes room for its line feed. -/
theorem lineFeed_next (h : s.Tidy) (hb : iBusy = false) (hcr : s.offered = [0x0d#7]) :
    (s.next false iStb iByte iBusy).offered = [0x0a#7] ∧
      (s.next false iStb iByte iBusy).loaded = true := by
  have hc : s.crState = true := by
    rw [h.cr]
    rw [offered] at hcr
    split_ifs at hcr with hs
    exact ⟨hs, by simpa using hcr⟩
  have hbusy : s.oNlBusy iBusy = true := by
    rw [oNlBusy, hc, hb]
    simp
  rcases @next_cases s iStb iBusy iByte h with ⟨-, hfree, -⟩ | ⟨-, hrest⟩
  · rw [hbusy] at hfree
    cases hfree
  · rcases hrest with ⟨-, hc', -⟩ | ⟨-, -, heq⟩ | ⟨-, hc', -⟩ | ⟨hb', -⟩
    · rw [hc] at hc'
      cases hc'
    · rw [heq]
      exact ⟨rfl, rfl⟩
    · rw [hc] at hc'
      cases hc'
    · rw [hb] at hb'
      cases hb'

/-- A loaded character waits while the stage behind is busy. -/
theorem loaded_waits (h : s.Tidy) (hb : iBusy = true) (hs : s.oNlStb = true) (hl : s.loaded = true) :
    s.next false iStb iByte iBusy = s := by
  have hbusy : s.oNlBusy iBusy = true := by
    rw [oNlBusy, hb, hs, hl]
    rfl
  rcases @next_cases s iStb iBusy iByte h with ⟨-, hfree, -⟩ | ⟨-, hrest⟩
  · rw [hbusy] at hfree
    cases hfree
  · rcases hrest with ⟨hb', -⟩ | ⟨hb', -⟩ | ⟨hb', -⟩ | ⟨-, heq⟩
    · rw [hb] at hb'
      cases hb'
    · rw [hb] at hb'
      cases hb'
    · rw [hb] at hb'
      cases hb'
    · exact heq

end Hbnewline

/-! ## Carriage returns -/

theorem Paired.of_append {l l' : List (BitVec 7)} (h : Paired (l ++ l')) : Paired l := by
  intro before behind heq
  have hlong : l ++ l' = before ++ 0x0d#7 :: (behind ++ l') := by
    rw [heq, List.append_assoc]
    rfl
  rcases h before _ hlong with hnil | ⟨rest, hrest⟩
  · exact Or.inl (List.append_eq_nil_iff.1 hnil).1
  · cases behind with
    | nil => exact Or.inl rfl
    | cons ch behind =>
      rw [List.cons_append] at hrest
      obtain ⟨rfl, -⟩ := List.cons.inj hrest
      exact Or.inr ⟨behind, rfl⟩

/-- One more character, which is a line feed behind a carriage return. -/
theorem Paired.snoc {l : List (BitVec 7)} (h : Paired l) {ch : BitVec 7}
    (hcr : l.getLast? = some 0x0d#7 → ch = 0x0a#7) : Paired (l ++ [ch]) := by
  intro before behind heq
  rcases List.eq_nil_or_concat behind with rfl | ⟨behind', ch', rfl⟩
  · exact Or.inl rfl
  · right
    rw [List.concat_eq_append] at heq ⊢
    have hsplit : l ++ [ch] = (before ++ 0x0d#7 :: behind') ++ [ch'] := by
      rw [heq, List.append_assoc]
      rfl
    obtain ⟨hl, hch⟩ := List.append_inj' hsplit rfl
    obtain rfl : ch = ch' := by simpa using hch
    rcases h before behind' hl with rfl | ⟨rest, rfl⟩
    · have hlast : l.getLast? = some 0x0d#7 := by rw [hl]; simp
      exact ⟨[], by rw [hcr hlast]; rfl⟩
    · exact ⟨rest ++ [ch], rfl⟩

/-! ## One clock -/

namespace ResponsePath

variable {W : ℕ} {s : ResponsePath W} {i : PathIn}

/-- The byte in the output register. -/
def onHold (s : ResponsePath W) : List (BitVec 8) := if s.psFull then [s.psData] else []

/-- The character that leaves `hbnewline`. -/
def moved (s : ResponsePath W) (i : PathIn) : List (BitVec 7) :=
  if s.txHeld i then [] else s.addnl.offered

/-- The debugging channel through the output register. -/
theorem debug_next : debugChars s.onHold ++ s.moved i =
    debugChars (s.sent i) ++ debugChars (s.next i).onHold := by
  obtain ⟨hnl, -, hco, -⟩ := debugChars_byte s.addnl.oNlByte
  obtain ⟨-, -, hco, -⟩ := debugChars_byte i.iConsoleData
  have hnil : debugChars [] = [] := rfl
  cases hf : s.psFull <;> cases hb : i.iTxBusy <;> cases hs : s.addnl.oNlStb <;>
    cases hc : i.iConsoleStb <;>
    simp [onHold, moved, txHeld, sent, Hbnewline.offered, hf, hb, hs, hc, hnl, hco, hnil]

/-- The console through the output register. -/
theorem console_next : consoleChars s.onHold ++ s.consoleIn i =
    consoleChars (s.sent i) ++ consoleChars (s.next i).onHold := by
  obtain ⟨-, hnl, -, -⟩ := debugChars_byte s.addnl.oNlByte
  obtain ⟨-, -, -, hco⟩ := debugChars_byte i.iConsoleData
  have hnil : consoleChars [] = [] := rfl
  cases hf : s.psFull <;> cases hb : i.iTxBusy <;> cases hs : s.addnl.oNlStb <;>
    cases hc : i.iConsoleStb <;>
    simp [onHold, sent, consoleIn, oConsoleBusy, hf, hb, hs, hc, hnl, hco, hnil]

/-- The characters of the words that are still on the way. -/
def held (s : ResponsePath W) : List (BitVec 7) :=
  debugChars s.onHold ++ (s.addnl.offered ++ (s.encoder.held ++ s.addidles.offered.flatMap encode))

/-- What the registers keep. -/
structure Sound (s : ResponsePath W) : Prop where
  tidy : s.addnl.Tidy
  resting : s.addidles.Resting
  settled : Encoder.Settled s.encoder.unpackx

theorem sound_next (h : s.Sound) : (s.next i).Sound where
  tidy := Hbnewline.tidy_next h.tidy
  resting := Hbidle.resting_next h.resting
  settled := Encoder.settled_next h.settled _ _ _

/-- The word that a clock adds, and the character that leaves the encoder. -/
def added (s : ResponsePath W) (i : PathIn) : List (BitVec 34) :=
  s.addidles.added i.iCmdStb i.iCmdWord s.hbBusy

def emitted (s : ResponsePath W) (i : PathIn) : List (BitVec 7) :=
  s.encoder.emitted (s.encoderPins i)

/-- **One clock** up to the encoder. -/
theorem encoding_next (h : s.Sound) :
    (s.encoder.held ++ s.addidles.offered.flatMap encode) ++ (s.added i).flatMap encode =
      s.emitted i ++ ((s.next i).encoder.held ++ (s.next i).addidles.offered.flatMap encode) := by
  have henc := Encoder.held_next s.encoder (s.encoderPins i) h.settled
  have hidle := congrArg (List.flatMap encode) (@Hbidle.offered_next W s.addidles i.iCmdStb s.hbBusy
    i.iCmdWord h.resting)
  simp only [List.flatMap_append] at hidle
  change s.addidles.offered.flatMap encode ++ (s.added i).flatMap encode =
    (s.encoder.accepted (s.encoderPins i)).flatMap encode ++
      (s.next i).addidles.offered.flatMap encode at hidle
  change s.emitted i ++ (s.next i).encoder.held = _ at henc
  rw [List.append_assoc, hidle, ← List.append_assoc, ← henc, List.append_assoc]

/-- **One clock** behind the encoder, line breaks apart. -/
theorem plain_next (h : s.Sound) :
    plain s.addnl.offered ++ plain (s.emitted i) =
      plain (s.moved i) ++ plain (s.next i).addnl.offered :=
  Hbnewline.plain_next h.tidy

/-! ## Runs -/

section Run

variable (W) (x : ℕ → PathIn)

/-- The path at clock `n`. -/
def run (n : ℕ) : ResponsePath W := Clocked.run next (init W) x n

/-- What happens before clock `n`: the words accepted, those put on the way, the characters that have
    left the encoder, those that have left `hbnewline`, the console bytes accepted, and the bytes
    sent. -/
def wordsIn (n : ℕ) : List (BitVec 34) := Clocked.events next wordIn (init W) x n

def wordsAdded (n : ℕ) : List (BitVec 34) := Clocked.events next added (init W) x n

def charsOut (n : ℕ) : List (BitVec 7) := Clocked.events next emitted (init W) x n

def charsMoved (n : ℕ) : List (BitVec 7) := Clocked.events next moved (init W) x n

def consoleBytesIn (n : ℕ) : List (BitVec 7) := Clocked.events next consoleIn (init W) x n

def bytesSent (n : ℕ) : List (BitVec 8) := Clocked.events next sent (init W) x n

end Run

variable {x : ℕ → PathIn}

theorem sound_run (n : ℕ) : (run W x n).Sound := by
  induction n with
  | zero => exact ⟨Hbnewline.tidy_init, fun _ => rfl, fun _ => rfl⟩
  | succ n ih => exact sound_next ih

/-- The words put on the way are those accepted, with signs of life between them. -/
theorem withIdle_run (n : ℕ) : WithIdle (wordsIn W x n) (wordsAdded W x n) := by
  induction n with
  | zero => exact .none
  | succ n ih =>
    show WithIdle (wordsIn W x n ++ (run W x n).wordIn (x n))
      (wordsAdded W x n ++ (run W x n).added (x n))
    rw [wordIn, added, Hbidle.added]
    change WithIdle (_ ++ if (x n).iCmdStb && !(run W x n).oIdlBusy then _ else _)
      (_ ++ if (x n).iCmdStb && !(run W x n).oIdlBusy then _ else _)
    cases (x n).iCmdStb && !(run W x n).oIdlBusy with
    | true => exact ih.word _
    | false =>
      simp only [Bool.false_eq_true, if_false, List.append_nil]
      split_ifs
      · exact ih.idle
      · rw [List.append_nil]
        exact ih

/-- The words put on the way are the characters that have left the encoder and those before it. -/
theorem encoding_run (n : ℕ) : (wordsAdded W x n).flatMap encode = charsOut W x n ++
    ((run W x n).encoder.held ++ (run W x n).addidles.offered.flatMap encode) := by
  induction n with
  | zero => rfl
  | succ n ih =>
    show (wordsAdded W x n ++ (run W x n).added (x n)).flatMap encode =
      (charsOut W x n ++ (run W x n).emitted (x n)) ++ _
    rw [List.flatMap_append, ih, List.append_assoc, encoding_next (sound_run n), List.append_assoc]
    rfl

/-- The characters that have left the encoder have left `hbnewline`, or are on offer there, line breaks
    apart. -/
theorem plain_run (n : ℕ) : plain (charsOut W x n) =
    plain (charsMoved W x n) ++ plain (run W x n).addnl.offered := by
  induction n with
  | zero => rfl
  | succ n ih =>
    show plain (charsOut W x n ++ (run W x n).emitted (x n)) =
      plain (charsMoved W x n ++ (run W x n).moved (x n)) ++ _
    rw [plain_append, ih, List.append_assoc, plain_next (sound_run n), plain_append,
      List.append_assoc]
    rfl

/-- The characters that have left `hbnewline` are those sent and the one in the output register. -/
theorem moved_run (n : ℕ) : charsMoved W x n =
    debugChars (bytesSent W x n) ++ debugChars (run W x n).onHold := by
  induction n with
  | zero => rfl
  | succ n ih =>
    show charsMoved W x n ++ (run W x n).moved (x n) =
      debugChars (bytesSent W x n ++ (run W x n).sent (x n)) ++ _
    rw [ih, debugChars_append, List.append_assoc, List.append_assoc, debug_next]
    rfl

/-- The console bytes accepted are those sent and the one in the output register. -/
theorem console_run (n : ℕ) : consoleBytesIn W x n =
    consoleChars (bytesSent W x n) ++ consoleChars (run W x n).onHold := by
  induction n with
  | zero => rfl
  | succ n ih =>
    show consoleBytesIn W x n ++ (run W x n).consoleIn (x n) =
      consoleChars (bytesSent W x n ++ (run W x n).sent (x n)) ++ _
    rw [ih, consoleChars_append, List.append_assoc, List.append_assoc, console_next]
    rfl

/-- Behind a carriage return that has left, a line feed is on offer. -/
theorem paired_run (n : ℕ) : Paired (charsMoved W x n) ∧
    ((charsMoved W x n).getLast? = some 0x0d#7 →
      (run W x n).addnl.offered = [0x0a#7] ∧ (run W x n).addnl.loaded = true) := by
  induction n with
  | zero =>
    refine ⟨?_, fun h => by cases h⟩
    intro before behind heq
    cases before <;> cases heq
  | succ n ih =>
    obtain ⟨hpaired, hlast⟩ := ih
    have hmove : charsMoved W x (n + 1) = charsMoved W x n ++ (run W x n).moved (x n) := rfl
    have htidy := (@sound_run W x n).tidy
    rw [hmove]
    cases hb : (run W x n).txHeld (x n) with
    | true =>
      rw [moved, hb, if_pos rfl, List.append_nil]
      refine ⟨hpaired, fun hcr => ?_⟩
      obtain ⟨hoff, hload⟩ := hlast hcr
      have hs : (run W x n).addnl.oNlStb = true := by
        by_contra hs
        rw [Hbnewline.offered, if_neg hs] at hoff
        cases hoff
      have hsame : (run W x (n + 1)).addnl = (run W x n).addnl :=
        Hbnewline.loaded_waits htidy hb hs hload
      rw [hsame]
      exact ⟨hoff, hload⟩
    | false =>
      rw [moved, hb, if_neg Bool.false_ne_true]
      cases hs : (run W x n).addnl.oNlStb with
      | false =>
        have hnone : (run W x n).addnl.offered = [] := by
          rw [Hbnewline.offered, hs]
          rfl
        rw [hnone, List.append_nil]
        refine ⟨hpaired, fun hcr => ?_⟩
        have hoff := (hlast hcr).1
        rw [hnone] at hoff
        cases hoff
      | true =>
        have hone : (run W x n).addnl.offered = [(run W x n).addnl.oNlByte] := by
          rw [Hbnewline.offered, hs]
          rfl
        rw [hone]
        refine ⟨hpaired.snoc fun hcr => ?_, fun hcr => ?_⟩
        · have hoff := (hlast hcr).1
          rw [hone] at hoff
          simpa using hoff
        · rw [List.getLast?_append, List.getLast?_singleton] at hcr
          have hch : (run W x n).addnl.oNlByte = 0x0d#7 := by simpa using hcr
          exact Hbnewline.lineFeed_next htidy hb (hone.trans (by rw [hch]))

/-! ## Everything is sent in the end -/

/-- What waits in `hbgenhex` goes on waiting. -/
theorem genhex_stays (hg : s.encoder.genhex.oGxStb = true) (he : s.emitted i = []) :
    s.nlBusy i = true ∧ (s.next i).encoder.genhex.oGxStb = true := by
  have hbusy : s.nlBusy i = true := by
    by_contra hfree
    rw [emitted, Encoder.emitted, hg] at he
    have hb : s.nlBusy i = false := by simpa using hfree
    change (if true && !s.nlBusy i then _ else _) = _ at he
    rw [hb] at he
    cases he
  refine ⟨hbusy, ?_⟩
  show (if !Hbgenhex.oGxBusy s.encoder.genhex (s.nlBusy i) then _ else _) = true
  rw [Hbgenhex.oGxBusy, hg, hbusy]
  rfl

/-- It waits for a line feed, or for the output register. -/
theorem addnl_waits (h : s.Sound) (hbusy : s.nlBusy i = true) :
    (s.addnl.crState = true ∧ s.txHeld i = false ∧ (s.next i).addnl.crState = false) ∨
      (s.txHeld i = true ∧ (s.next i).addnl = s.addnl) := by
  cases hb : s.txHeld i with
  | false =>
    left
    have hcr : s.addnl.crState = true := by
      rw [nlBusy, Hbnewline.oNlBusy, hb] at hbusy
      simpa using hbusy
    refine ⟨hcr, rfl, ?_⟩
    show (Hbnewline.next s.addnl false _ _ (s.txHeld i)).crState = false
    rcases @Hbnewline.next_cases s.addnl s.encoder.genhex.oGxStb (s.txHeld i)
      s.encoder.genhex.oGxChar h.tidy with ⟨-, hfree, -⟩ | ⟨-, ⟨-, hc, -⟩ | ⟨-, -, heq⟩ |
        ⟨-, hc, -⟩ | ⟨hb', -⟩⟩
    · change s.nlBusy i = false at hfree
      rw [hbusy] at hfree
      cases hfree
    · rw [hcr] at hc
      cases hc
    · rw [heq]
    · rw [hcr] at hc
      cases hc
    · rw [hb] at hb'
      cases hb'
  | true =>
    right
    refine ⟨rfl, ?_⟩
    have hheld : s.addnl.oNlStb = true ∧ s.addnl.loaded = true := by
      rw [nlBusy, Hbnewline.oNlBusy, hb] at hbusy
      simpa using hbusy
    exact Hbnewline.loaded_waits h.tidy hb hheld.1 hheld.2

/-- A character in `hbgenhex` leaves it, if the transmitter is free time and again. -/
theorem emitted_comes (hfree : ∀ n, ∃ m, n ≤ m ∧ (x m).iTxBusy = false) {n : ℕ}
    (hg : (run W x n).encoder.genhex.oGxStb = true) :
    ∃ m, n ≤ m ∧ (run W x m).emitted (x m) ≠ [] := by
  by_contra hnever
  have hnone : ∀ m, n ≤ m → (run W x m).emitted (x m) = [] := by
    intro m hm
    by_contra hne
    exact hnever ⟨m, hm, hne⟩
  have hwait : ∀ m, n ≤ m → (run W x m).encoder.genhex.oGxStb = true :=
    Clocked.run_invariant_from (P := fun s : ResponsePath W => s.encoder.genhex.oGxStb = true) hg
      fun m hm hg' => (genhex_stays hg' (hnone m hm)).2
  have hcases := fun m (hm : n ≤ m) =>
    addnl_waits (@sound_run W x m) (genhex_stays (hwait m hm) (hnone m hm)).1
  -- there is a clock without a carriage return to be followed up
  obtain ⟨k, hk, hcr⟩ : ∃ k, n ≤ k ∧ (run W x k).addnl.crState = false := by
    obtain ⟨m, hm, htx⟩ := hfree n
    rcases hcases m hm with ⟨-, -, hcr⟩ | ⟨hb, -⟩
    · exact ⟨m + 1, by omega, hcr⟩
    · rw [txHeld, htx] at hb
      cases hb
  -- and from there on the output register is never free
  have hstay : ∀ m, k ≤ m → (run W x m).addnl.crState = false :=
    Clocked.run_invariant_from (P := fun s : ResponsePath W => s.addnl.crState = false) hcr
      fun m hm hcr' => by
        rcases hcases m (by omega) with ⟨hc, -, -⟩ | ⟨-, heq⟩
        · change (run W x m).addnl.crState = false at hcr'
          rw [hc] at hcr'
          cases hcr'
        · change (run W x (m + 1)).addnl.crState = false
          change (run W x (m + 1)).addnl = _ at heq
          rw [heq]
          exact hcr'
  obtain ⟨m, hm, htx⟩ := hfree k
  rcases hcases m (by omega) with ⟨hc, -, -⟩ | ⟨hb, -⟩
  · rw [hstay m hm] at hc
    cases hc
  · rw [txHeld, htx] at hb
    cases hb

/-- What is in the encoder, or on offer to it, comes to `hbgenhex`. -/
theorem genhex_comes {n : ℕ} (hne : (run W x n).encoder.held ++
    (run W x n).addidles.offered.flatMap encode ≠ []) :
    ∃ m, n ≤ m ∧ (run W x m).encoder.genhex.oGxStb = true := by
  have hstep : ∀ k, (run W x k).encoder.genhex.oGxStb = false →
      (run W x k).encoder.unpackx.oDwStb = true →
      (run W x (k + 1)).encoder.genhex.oGxStb = true := by
    intro k hg hd
    show (if !Hbgenhex.oGxBusy (run W x k).encoder.genhex ((run W x k).nlBusy (x k)) then
      (run W x k).encoder.unpackx.oDwStb else _) = true
    rw [Hbgenhex.oGxBusy, hg, hd]
    rfl
  cases hg : (run W x n).encoder.genhex.oGxStb with
  | true => exact ⟨n, Nat.le_refl n, hg⟩
  | false =>
    cases hd : (run W x n).encoder.unpackx.oDwStb with
    | true => exact ⟨n + 1, by omega, hstep n hg hd⟩
    | false =>
      have hi : (run W x n).addidles.oIdlStb = true := by
        by_contra hi
        apply hne
        simp [Encoder.held, Encoder.unpacking, Hbidle.offered, hg, hd, hi]
      have hd' : (run W x (n + 1)).encoder.unpackx.oDwStb = true := by
        show Hbdeword.nextStb (run W x n).encoder.unpackx false (run W x n).addidles.oIdlStb _ = true
        simp [Hbdeword.nextStb, Hbdeword.take, Hbdeword.oDwBusy, hi, hd]
      have hg' : (run W x (n + 1)).encoder.genhex.oGxStb = false := by
        show (if !Hbgenhex.oGxBusy (run W x n).encoder.genhex ((run W x n).nlBusy (x n)) then
          (run W x n).encoder.unpackx.oDwStb else _) = false
        rw [Hbgenhex.oGxBusy, hg, hd]
        rfl
      exact ⟨n + 2, by omega, hstep (n + 1) hg' hd'⟩

theorem wordsAdded_mono {m n : ℕ} (h : m ≤ n) : wordsAdded W x m <+: wordsAdded W x n :=
  Clocked.events_mono next added (init W) x h

theorem charsOut_mono {m n : ℕ} (h : m ≤ n) : charsOut W x m <+: charsOut W x n :=
  Clocked.events_mono next emitted (init W) x h

theorem prefix_flatMap {l l' : List (BitVec 34)} (h : l <+: l') :
    l.flatMap encode <+: l'.flatMap encode := by
  obtain ⟨rest, rfl⟩ := h
  rw [List.flatMap_append]
  exact List.prefix_append _ _

theorem prefix_plain {l l' : List (BitVec 7)} (h : l <+: l') : plain l <+: plain l' := by
  obtain ⟨rest, rfl⟩ := h
  rw [plain_append]
  exact List.prefix_append _ _

/-- The words put on the way leave the encoder. -/
theorem charsOut_comes (hfree : ∀ n, ∃ m, n ≤ m ∧ (x m).iTxBusy = false) (n : ℕ) :
    ∃ m, n ≤ m ∧ (wordsAdded W x n).flatMap encode <+: charsOut W x m := by
  have hall : ∀ m, (wordsAdded W x m).flatMap encode = charsOut W x m ++ _ := encoding_run
  have hgrow : ∀ m, (charsOut W x (n + m)).length < ((wordsAdded W x n).flatMap encode).length →
      ∃ m', m ≤ m' ∧ (charsOut W x (n + m)).length < (charsOut W x (n + m')).length := by
    intro m hlt
    have hne : (run W x (n + m)).encoder.held ++
        (run W x (n + m)).addidles.offered.flatMap encode ≠ [] := by
      intro hnil
      have hlen := (prefix_flatMap (@wordsAdded_mono W x _ _ (Nat.le_add_right n m))).length_le
      rw [hall (n + m), hnil, List.append_nil] at hlen
      omega
    obtain ⟨k, hk, hg⟩ := genhex_comes hne
    obtain ⟨k', hk', hem⟩ := emitted_comes hfree hg
    refine ⟨k' + 1 - n, by omega, ?_⟩
    have hmono := (@charsOut_mono W x (n + m) k' (by omega)).length_le
    have hnext : charsOut W x (k' + 1) = charsOut W x k' ++ (run W x k').emitted (x k') := rfl
    have hpos := List.length_pos_iff.2 hem
    rw [show n + (k' + 1 - n) = k' + 1 by omega, hnext, List.length_append]
    omega
  obtain ⟨m, -, hm⟩ := Clocked.reaches_of_grows hgrow 0
  have hout : charsOut W x (n + m) <+: (wordsAdded W x (n + m)).flatMap encode := by
    rw [hall (n + m)]
    exact List.prefix_append _ _
  exact ⟨n + m, Nat.le_add_right n m, List.prefix_of_prefix_length_le
    (prefix_flatMap (wordsAdded_mono (Nat.le_add_right n m))) hout hm⟩

/-- What has left `hbnewline`, and the console byte in the output register, are sent when the
    transmitter is free. -/
theorem sent_comes {n : ℕ} (htx : (x n).iTxBusy = false) :
    debugChars (bytesSent W x (n + 1)) = charsMoved W x n ∧
      consoleChars (bytesSent W x (n + 1)) = consoleBytesIn W x n := by
  have hsent : (run W x n).sent (x n) = (run W x n).onHold := by
    rw [sent, onHold, htx, Bool.not_false, Bool.and_true]
  have hnext : bytesSent W x (n + 1) = bytesSent W x n ++ (run W x n).onHold := by
    show bytesSent W x n ++ (run W x n).sent (x n) = _
    rw [hsent]
  rw [hnext, debugChars_append, consoleChars_append, moved_run, console_run]
  exact ⟨rfl, rfl⟩

/-- The characters that have left the encoder are sent. -/
theorem plain_comes (hfree : ∀ n, ∃ m, n ≤ m ∧ (x m).iTxBusy = false) (n : ℕ) :
    ∃ m, n ≤ m ∧ plain (charsOut W x n) <+: plain (debugChars (bytesSent W x m)) := by
  obtain ⟨m, hm, htx⟩ := hfree n
  obtain ⟨m', hm', htx'⟩ := hfree (m + 1)
  -- at `m` they leave `hbnewline`, and at `m'` they are sent
  have hmoved : plain (charsMoved W x (m + 1)) = plain (charsOut W x m) := by
    have hmove : (run W x m).moved (x m) = (run W x m).addnl.offered := by
      rw [moved, txHeld, htx]
      rfl
    show plain (charsMoved W x m ++ (run W x m).moved (x m)) = _
    rw [hmove, plain_append, plain_run]
  refine ⟨m' + 1, by omega, ?_⟩
  rw [(sent_comes htx').1]
  refine (prefix_plain (charsOut_mono hm)).trans ?_
  rw [← hmoved]
  exact prefix_plain (Clocked.events_mono next moved (init W) x hm')

/-! ## The whole path -/

/-- **Nothing is lost, doubled or overtaken.**  Line breaks apart, the characters sent on the
    debugging channel and those on the way are the words accepted, encoded, with signs of life between
    words, and only a word whose letter is none has line breaks in it; a carriage return is followed by a line feed; the console bytes sent are those accepted,
    but for one that may wait in the output register; and if the transmitter is free time and again,
    all is sent. -/
structure LosesNothing (W : ℕ) (x : ℕ → PathIn) : Prop where
  words : ∀ n, ∃ l, WithIdle (wordsIn W x n) l ∧
    plain (debugChars (bytesSent W x n)) ++ plain (run W x n).held = plain (l.flatMap encode)
  codes : ∀ word, gxChar (letterCode word) ≠ 0x0d#7 → plain (encode word) = encode word
  pairs : ∀ n, Paired (debugChars (bytesSent W x n))
  console : ∀ n, consoleChars (bytesSent W x n) ++ consoleChars (run W x n).onHold =
    consoleBytesIn W x n
  all : (∀ n, ∃ m, n ≤ m ∧ (x m).iTxBusy = false) → ∀ n, ∃ m l, WithIdle (wordsIn W x n) l ∧
    plain (l.flatMap encode) <+: plain (debugChars (bytesSent W x m)) ∧
      consoleBytesIn W x n <+: consoleChars (bytesSent W x m)

/-- **The response path** loses, duplicates and reorders nothing, under any back-pressure. -/
theorem loses_nothing (W : ℕ) (x : ℕ → PathIn) : LosesNothing W x := by
  constructor
  · intro n
    refine ⟨wordsAdded W x n, withIdle_run n, ?_⟩
    rw [encoding_run, plain_append, plain_run, moved_run, held]
    simp only [plain_append, List.append_assoc]
  · exact plain_encode
  · intro n
    have h := (@paired_run W x n).1
    rw [moved_run] at h
    exact h.of_append
  · intro n
    exact (console_run n).symm
  · intro hfree n
    obtain ⟨m, hm, hout⟩ := @charsOut_comes W x hfree n
    obtain ⟨m', hm', hsent⟩ := @plain_comes W x hfree m
    obtain ⟨k, hk, htx⟩ := hfree m'
    have hlater : bytesSent W x m' <+: bytesSent W x (k + 1) :=
      Clocked.events_mono next sent (init W) x (by omega)
    refine ⟨k + 1, wordsAdded W x n, withIdle_run n, ?_, ?_⟩
    · have hdebug : debugChars (bytesSent W x m') <+: debugChars (bytesSent W x (k + 1)) := by
        obtain ⟨rest, hrest⟩ := hlater
        rw [← hrest, debugChars_append]
        exact List.prefix_append _ _
      exact ((prefix_plain hout).trans hsent).trans (prefix_plain hdebug)
    · rw [(sent_comes htx).2]
      exact Clocked.events_mono next consoleIn (init W) x (by omega)

end ResponsePath

end ZipStormMX.Hexbus
