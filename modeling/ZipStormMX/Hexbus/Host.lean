/-
  The host side of the debugging bus: the two parsers of class `HEXBUS` (`hexbus.cpp`).

  `readword` waits for the response to a read; `readidle` reads whatever has arrived.  Both go
  character by character and share `m_cmd` and `m_isspace` between calls, while the digits read so
  far are a variable of each call.  A character is therefore one step of the call that reads it
  (`readidleChar`, `readwordChar`), and a host a parser with the call that is open (`Host`).
-/
import Mathlib.Tactic.Common

namespace ZipStormMX.Hexbus

/-! ## Characters -/

/-- `HEXB_ADDR`, 'A' -/
def hexbAddr : BitVec 8 := 0x41#8

/-- `HEXB_READ`, 'R' -/
def hexbRead : BitVec 8 := 0x52#8

/-- `HEXB_IDLE`, 'Z' -/
def hexbIdle : BitVec 8 := 0x5a#8

/-- `HEXB_ACK`, 'K' -/
def hexbAck : BitVec 8 := 0x4b#8

/-- `HEXB_RESET`, 'T' -/
def hexbReset : BitVec 8 := 0x54#8

/-- `HEXB_INT`, 'I' -/
def hexbInt : BitVec 8 := 0x49#8

/-- `HEXB_ERR`, 'E' -/
def hexbErr : BitVec 8 := 0x45#8

def isdigit (ch : BitVec 8) : Bool := 0x30#8 ≤ ch && ch ≤ 0x39#8

/-- 'a' to 'f' -/
def ishex (ch : BitVec 8) : Bool := 0x61#8 ≤ ch && ch ≤ 0x66#8

/-- Blank, tab, line feed, vertical tab, form feed, carriage return. -/
def isspace (ch : BitVec 8) : Bool := ch == 0x20#8 || (0x09#8 ≤ ch && ch ≤ 0x0d#8)

/-- The character is read as a digit of a word. -/
def digit (ch : BitVec 8) : Bool := isdigit ch || ishex ch

/-- The word with one more digit. -/
def pushDigit (word : BitVec 32) (ch : BitVec 8) : BitVec 32 :=
  if isdigit ch then word <<< 4 ||| ((ch &&& 0x0f#8).setWidth 32)
  else word <<< 4 ||| (((ch - 0x61#8 + 10#8) &&& 0x0f#8).setWidth 32)

theorem isspace_of_digit : ∀ ch : BitVec 8, digit ch = true → isspace ch = false := by
  decide +kernel

/-! ## lclreadcode -/

/-- The loop of `lclreadcode` over `buf`, with the indices `sp` and `dp`. -/
def lclreadcodeStep (st : List (BitVec 8) × ℕ × ℕ) (i : ℕ) : List (BitVec 8) × ℕ × ℕ :=
  if st.1.getD i 0 &&& 0x7f#8 = 0x7f#8 then (st.1, st.2.1 + 1, st.2.2)
  else (st.1.set st.2.1 (st.1.getD st.2.2 0), st.2.1 + 1, st.2.2 + 1)

/-- What `lclreadcode` leaves in the buffer.  It returns the number of characters read. -/
def lclreadcode (buf : List (BitVec 8)) : List (BitVec 8) :=
  ((List.range buf.length).foldl lclreadcodeStep (buf, 0, 0)).1

/-- The parsers read one character at a time, and that one stays as it is. -/
theorem lclreadcode_one (ch : BitVec 8) : lclreadcode [ch] = [ch] := by
  show (lclreadcodeStep ([ch], 0, 0) 0).1 = [ch]
  unfold lclreadcodeStep
  split_ifs <;> rfl

/-! ## The members of the class -/

/-- The members of `HEXBUS` that its calls read. -/
structure HexBus where
  mInterruptFlag : Bool
  mAddrSet : Bool
  mBusErr : Bool
  mLastaddr : BitVec 32
  mNacks : BitVec 32
  mInc : Bool
  mIsspace : Bool
  mCmd : BitVec 8
deriving DecidableEq

namespace HexBus

/-- As `init` leaves them.  It sets neither `m_isspace` nor `m_inc` nor `m_lastaddr`. -/
def init (isspace inc : Bool) (lastaddr : BitVec 32) : HexBus :=
  { mInterruptFlag := false, mAddrSet := false, mBusErr := false, mLastaddr := lastaddr,
    mNacks := 0, mInc := inc, mIsspace := isspace, mCmd := 0 }

variable (s : HexBus) (word : BitVec 32)

/-- An address word: `m_addr_set`, `m_inc` and `m_lastaddr`. -/
def recvAddr : HexBus :=
  { s with mAddrSet := true, mInc := !word.getLsbD 0, mLastaddr := word &&& 0xfffffffc#32 }

/-- Where the next access of the device goes, after one. -/
def advance : HexBus := if s.mInc then { s with mLastaddr := s.mLastaddr + 4 } else s

/-- An acknowledged write. -/
def recvAck : HexBus := { advance s with mNacks := (advance s).mNacks + 1 }

/-- The letter of a new response, or white space. -/
def startCmd (ch : BitVec 8) : HexBus :=
  { s with mCmd := if isspace ch then s.mCmd else ch, mIsspace := isspace ch }

end HexBus

/-! ## The two parsers -/

/-- The two places that throw: `BUSERR(m_lastaddr)` for an error response, and `BUSERR(0)` when
    nothing but signs of life arrive. -/
inductive Thrown where
  | err (addr : BitVec 32)
  | abort
deriving DecidableEq

/-- What a call does with a character. -/
inductive Step where
  | more (s : HexBus) (word : BitVec 32) (abortCountdown : ℕ)
  | done (s : HexBus) (result : BitVec 32)
  | throw (s : HexBus) (e : Thrown)
deriving DecidableEq

/-- The end of a response in `readidle`, short of an error response. -/
def readidleEnd (s : HexBus) (word : BitVec 32) : HexBus :=
  if s.mIsspace then s
  else if s.mCmd = hexbAddr then s.recvAddr word
  else if s.mCmd = hexbRead then s.advance
  else if s.mCmd = hexbInt then { s with mInterruptFlag := true }
  else if s.mCmd = hexbAck then s.recvAck
  else if s.mCmd = hexbReset then { s with mAddrSet := false, mBusErr := false }
  else s

/-- One character in `readidle`.  It has no count of idle responses. -/
def readidleChar (s : HexBus) (word : BitVec 32) (ch : BitVec 8) : Step :=
  if digit ch then .more s (pushDigit word ch) 0
  else if isspace ch && s.mIsspace then .more s word 0
  else if !s.mIsspace && s.mCmd == hexbErr then
    -- thrown before `m_cmd` and `m_isspace` have taken the character
    .throw { s with mBusErr := true } (.err s.mLastaddr)
  else .more ((readidleEnd s word).startCmd ch) 0 0

/-- The end of a response in `readword`, short of an error response and an idle one. -/
def readwordEnd (s : HexBus) (word : BitVec 32) : HexBus :=
  if s.mIsspace then s
  else if s.mCmd = hexbRead then s.advance
  else if s.mCmd = hexbAck then s.recvAck
  else if s.mCmd = hexbInt then { s with mInterruptFlag := true }
  else if s.mCmd = hexbAddr then s.recvAddr word
  else if s.mCmd = hexbReset then { s with mAddrSet := false }
  else s

/-- One character in `readword`. -/
def readwordChar (s : HexBus) (word : BitVec 32) (abortCountdown : ℕ) (ch : BitVec 8) : Step :=
  if digit ch then .more { s with mIsspace := false } (pushDigit word ch) abortCountdown
  else if !s.mIsspace && s.mCmd == hexbErr then
    .throw ({ s with mBusErr := true }.startCmd ch) (.err s.mLastaddr)
  else if !s.mIsspace && s.mCmd == hexbIdle && abortCountdown - 1 == 0 then
    -- here too `m_cmd` and `m_isspace` have not taken the character
    .throw s .abort
  else if !s.mIsspace && s.mCmd == hexbRead then .done ((readwordEnd s word).startCmd ch) word
  else
    .more ((readwordEnd s word).startCmd ch) 0
      (if !s.mIsspace && s.mCmd == hexbIdle then abortCountdown - 1 else abortCountdown)

/-- `readidle`, when the characters of the list are there to be read: what it leaves, the
    exception if it throws, and the characters it has not read. -/
def readidle (s : HexBus) (word : BitVec 32) :
    List (BitVec 8) → HexBus × Option Thrown × List (BitVec 8)
  | [] => (s, none, [])
  | ch :: rest =>
    match readidleChar s word ch with
    | .more s' word' _ => readidle s' word' rest
    | .done s' _ => (s', none, rest)
    | .throw s' e => (s', some e, rest)

/-- `readword` on a stream that begins with the list: none while it waits for more. -/
def readword (s : HexBus) (word : BitVec 32) (abortCountdown : ℕ) :
    List (BitVec 8) → Option (HexBus × Except Thrown (BitVec 32) × List (BitVec 8))
  | [] => none
  | ch :: rest =>
    match readwordChar s word abortCountdown ch with
    | .more s' word' n => readword s' word' n rest
    | .done s' result => some (s', .ok result, rest)
    | .throw s' e => some (s', .error e, rest)

/-! ## A host that reads -/

inductive Method where
  | readidle
  | readword
deriving DecidableEq

/-- A call that is open, with its variables. -/
structure Call where
  method : Method
  word : BitVec 32
  abortCountdown : ℕ
deriving DecidableEq

/-- A call that begins. -/
def Call.begin (m : Method) : Call := { method := m, word := 0, abortCountdown := 3 }

/-- The members of the class, and the call that is open. -/
structure Host where
  bus : HexBus
  call : Option Call
deriving DecidableEq

/-- What happens next to a host: its program calls one of the methods, there is a character to
    read, or there is none. -/
inductive Event where
  | call (m : Method)
  | char (ch : BitVec 8)
  | empty
deriving DecidableEq

namespace Host

/-- The open call makes something of the character it reads. -/
def readChar (bus : HexBus) (c : Call) (ch : BitVec 8) : Step :=
  match c.method with
  | .readidle => readidleChar bus c.word ch
  | .readword => readwordChar bus c.word c.abortCountdown ch

/-- The host after a step of its open call. -/
def settle (m : Method) : Step → Host
  | .more s word n => { bus := s, call := some { method := m, word := word, abortCountdown := n } }
  | .done s _ => { bus := s, call := none }
  | .throw s _ => { bus := s, call := none }

/-- One event.  What cannot happen leaves the host as it is: a call inside another, a character
    that nobody reads, and for `readword`, which waits, that there is nothing. -/
def step (h : Host) : Event → Host
  | .call m => if h.call = none then { h with call := some (.begin m) } else h
  | .char ch =>
    match h.call with
    | none => h
    | some c => settle c.method (readChar h.bus c ch)
  | .empty =>
    match h.call with
    | some { method := .readidle, .. } => { h with call := none }
    | _ => h

/-- The characters read on an event. -/
def received (h : Host) : Event → List (BitVec 8)
  | .char ch => if h.call = none then [] else [ch]
  | _ => []

/-- What the caller catches on an event. -/
def raised (h : Host) : Event → List Thrown
  | .char ch =>
    match h.call with
    | none => []
    | some c =>
      match readChar h.bus c ch with
      | .throw _ e => [e]
      | _ => []
  | _ => []

end Host

end ZipStormMX.Hexbus
