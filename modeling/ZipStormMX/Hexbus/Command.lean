/-
  `hbdechex.v` and `hbpack.v`: from the bytes received to bus command words.

  `hbdechex` turns each character into a five bit code, whose top bit marks everything that is not
  a hexadecimal digit.  `hbpack` collects the digits that follow a command letter, and hands the
  word over when the next code that is not a digit arrives.

  On top of the two stands what they are for: a command being assembled (`BusCmd`), to which each
  code adds a digit, or which it completes.
-/
import Mathlib.Tactic.Common
import Mathlib.Tactic.Simps.Basic

namespace ZipStormMX.Hexbus

/-! ## hbdechex -/

/-- The code of a character: digits `0` to `9` and `a` to `f`, the command letters, and `1f` for
    all others. -/
def dhCode (ch : BitVec 7) : BitVec 5 :=
  if ch = 0x30#7 then 0x00#5
  else if ch = 0x31#7 then 0x01#5
  else if ch = 0x32#7 then 0x02#5
  else if ch = 0x33#7 then 0x03#5
  else if ch = 0x34#7 then 0x04#5
  else if ch = 0x35#7 then 0x05#5
  else if ch = 0x36#7 then 0x06#5
  else if ch = 0x37#7 then 0x07#5
  else if ch = 0x38#7 then 0x08#5
  else if ch = 0x39#7 then 0x09#5
  else if ch = 0x61#7 then 0x0a#5
  else if ch = 0x62#7 then 0x0b#5
  else if ch = 0x63#7 then 0x0c#5
  else if ch = 0x64#7 then 0x0d#5
  else if ch = 0x65#7 then 0x0e#5
  else if ch = 0x66#7 then 0x0f#5
  else if ch = 0x52#7 then 0x10#5 -- 'R'
  else if ch = 0x57#7 then 0x11#5 -- 'W'
  else if ch = 0x41#7 then 0x12#5 -- 'A'
  else if ch = 0x53#7 then 0x13#5 -- 'S'
  else if ch = 0x54#7 then 0x16#5 -- 'T'
  else 0x1f#5

/-- The registers of `hbdechex`. -/
structure Hbdechex where
  oDhStb : Bool
  oReset : Bool
  oDhBits : BitVec 5
deriving DecidableEq

namespace Hbdechex

-- a register without an `initial` value is zero here
def init : Hbdechex := { oDhStb := false, oReset := true, oDhBits := 0 }

/-- The next clock.  Bit 7 of the byte is not looked at. -/
@[simps]
def next (iStb : Bool) (iByte : BitVec 8) : Hbdechex where
  oDhStb := iStb && iByte.extractLsb' 0 7 != 0x7f#7
  oReset := iStb && iByte.extractLsb' 0 7 == 0x54#7
  oDhBits := dhCode (iByte.extractLsb' 0 7)

end Hbdechex

/-! ## hbpack -/

/-- The registers of `hbpack`. -/
structure Hbpack where
  cmdLoaded : Bool
  oPckStb : Bool
  rWord : BitVec 34
  oPckWord : BitVec 34
deriving DecidableEq

namespace Hbpack

def init : Hbpack := { cmdLoaded := false, oPckStb := false, rWord := 0, oPckWord := 0 }

variable (s : Hbpack) (iReset iStb : Bool) (iBits : BitVec 5)

def nextLoaded : Bool :=
  if iReset then false
  else if iStb && iBits.extractLsb' 2 3 == 0b100#3 then true
  else if iStb && iBits.getLsbD 4 then false
  else s.cmdLoaded

def nextWord : BitVec 34 :=
  if iReset then 0
  else if iStb then
    if iBits.getLsbD 4 then iBits.extractLsb' 0 2 ++ 0#32
    else s.rWord.extractLsb' 32 2 ++ (s.rWord.extractLsb' 0 28 ++ iBits.extractLsb' 0 4)
  else s.rWord

@[simps]
def next : Hbpack where
  cmdLoaded := nextLoaded s iReset iStb iBits
  oPckStb := !iReset && (iStb && s.cmdLoaded && iBits.getLsbD 4)
  rWord := nextWord s iReset iStb iBits
  oPckWord := if iReset then 0 else if iStb then s.rWord else s.oPckWord

end Hbpack

/-! ## The command being assembled -/

/-- A command that the bus executive acts on. -/
inductive BusCmd where
  | read
  | write (word : BitVec 32)
  | addr (word : BitVec 32)
deriving DecidableEq

namespace BusCmd

/-- The command a 34 bit word stands for.  The special commands have no effect. -/
def ofWord (w : BitVec 34) : Option BusCmd :=
  if w.extractLsb' 32 2 = 0b00#2 then some read
  else if w.extractLsb' 32 2 = 0b01#2 then some (write (w.extractLsb' 0 32))
  else if w.extractLsb' 32 2 = 0b10#2 then some (addr (w.extractLsb' 0 32))
  else none

/-- One more digit: nothing to a read, the low four bits of the word of the others. -/
def push (digit : BitVec 4) : BusCmd → BusCmd
  | read => read
  | write w => write (w.extractLsb' 0 28 ++ digit)
  | addr w => addr (w.extractLsb' 0 28 ++ digit)

theorem ofWord_push (w : BitVec 34) (d : BitVec 4) :
    ofWord (w.extractLsb' 32 2 ++ (w.extractLsb' 0 28 ++ d)) = (ofWord w).map (push d) := by
  have hcmd : (w.extractLsb' 32 2 ++ (w.extractLsb' 0 28 ++ d)).extractLsb' 32 2
      = w.extractLsb' 32 2 := by
    rw [BitVec.extractLsb'_append_eq_left]
  have hword : (w.extractLsb' 32 2 ++ (w.extractLsb' 0 28 ++ d)).extractLsb' 0 32
      = w.extractLsb' 0 28 ++ d := by
    rw [BitVec.extractLsb'_append_eq_right]
  have hlow : (w.extractLsb' 0 32).extractLsb' 0 28 = w.extractLsb' 0 28 := by
    exact BitVec.extractLsb'_extractLsb'_of_le (by omega)
  rw [ofWord, ofWord, hcmd, hword]
  split_ifs <;> simp [push, hlow]

end BusCmd

namespace Hbpack

/-- The command being assembled, none if no letter has been received or it is without effect. -/
def pending (s : Hbpack) : Option BusCmd := if s.cmdLoaded then BusCmd.ofWord s.rWord else none

/-- The command handed over on this clock. -/
def issued (s : Hbpack) : Option BusCmd := if s.oPckStb then BusCmd.ofWord s.oPckWord else none

end Hbpack

/-- What a code makes of the command being assembled. -/
def assemble (p : Option BusCmd) (bits : BitVec 5) : Option BusCmd :=
  if bits.getLsbD 4 then
    if bits.extractLsb' 2 3 = 0b100#3 then BusCmd.ofWord (bits.extractLsb' 0 2 ++ 0#32) else none
  else p.map (BusCmd.push (bits.extractLsb' 0 4))

/-- What a code completes. -/
def completed (p : Option BusCmd) (bits : BitVec 5) : Option BusCmd :=
  if bits.getLsbD 4 then p else none

namespace Hbpack

variable (s : Hbpack) (iReset iStb : Bool) (iBits : BitVec 5)

@[simp] theorem pending_reset : (next s true iStb iBits).pending = none := rfl

@[simp] theorem issued_reset : (next s true iStb iBits).issued = none := rfl

@[simp] theorem pending_quiet : (next s false false iBits).pending = s.pending := rfl

@[simp] theorem issued_quiet : (next s false false iBits).issued = none := rfl

/-- Bits 4 down to 2 being `100` says in particular that bit 4 is set. -/
theorem out_of_band_of_letter : ∀ bits : BitVec 5, bits.extractLsb' 2 3 = 0b100#3 →
    bits.getLsbD 4 = true := by decide

/-- A code received outside of reset: the command being assembled takes it. -/
theorem pending_code : (next s false true iBits).pending = assemble s.pending iBits := by
  by_cases hl : iBits.extractLsb' 2 3 = 0b100#3
  · have h4 := out_of_band_of_letter iBits hl
    simp only [pending, next_cmdLoaded, next_rWord, nextLoaded, nextWord, assemble, hl, h4,
      Bool.false_eq_true, if_false, Bool.true_and, beq_self_eq_true, if_true]
  · by_cases h4 : iBits.getLsbD 4 = true
    · simp only [pending, next_cmdLoaded, nextLoaded, assemble, hl, h4, Bool.false_eq_true,
        if_false, Bool.true_and, beq_iff_eq, if_true]
    · have hw := BusCmd.ofWord_push s.rWord (iBits.extractLsb' 0 4)
      simp only [pending, next_cmdLoaded, next_rWord, nextLoaded, nextWord, assemble, hl, h4,
        Bool.false_eq_true, if_false, Bool.true_and, beq_iff_eq, if_true, hw]
      split_ifs <;> rfl

/-- A code received outside of reset: what it completes is handed over. -/
theorem issued_code : (next s false true iBits).issued = completed s.pending iBits := by
  cases h4 : iBits.getLsbD 4 <;> cases hc : s.cmdLoaded <;>
    simp only [issued, pending, completed, next_oPckStb, next_oPckWord, h4, hc] <;> rfl

end Hbpack

end ZipStormMX.Hexbus
