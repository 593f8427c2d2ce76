/-
  `flashdrvr.cpp`: the host program that writes the flash.

  `write` goes through the sectors of the range: it reads a sector back, compares, erases if a bit has
  to be set, and programs page by page.  The driver sees the flash through the bus: words of the flash
  window, with the first byte on top, and the configuration port.

  Two things it looks at have no value of their own, and are parameters here (`Unset`): the end of the
  buffer that is read into, when the length is not a multiple of a word, and the variable `len` of the
  page loop, whose initial value `addr+len-start` names `len` itself.
-/
import ZipStormMX.Flash.Nor

namespace ZipStormMX.Flash

open Nor

/-! ## Constants (`regdefs.h`) -/

def rFlash : ℕ := 0x00200000
def flashLen : ℕ := 0x00080000
def szPageB : ℕ := 256
def szPageW : ℕ := 64
def nPages : ℕ := 256
def sectorSzB : ℕ := nPages * szPageB

def sectorOf (a : ℕ) : ℕ := a - a % 65536
def pageOf (a : ℕ) : ℕ := a - a % 256

def fEmpty : BitVec 32 := 0x000
def fPp : BitVec 32 := 0x002
def fRdsr1 : BitVec 32 := 0x005
def fWren : BitVec 32 := 0x006
def fWrdi : BitVec 32 := 0x004
def fSe : BitVec 32 := 0x0d8
def fEnd : BitVec 32 := 0x100

/-! ## Words (`byteswap.cpp`) -/

/-- Byte `j` of a word in the memory of the host. -/
def hostByte (v : BitVec 32) (j : ℕ) : BitVec 8 := v.extractLsb' (8 * j) 8

def byteswap (v : BitVec 32) : BitVec 32 :=
  v.extractLsb' 0 8 ++ v.extractLsb' 8 8 ++ v.extractLsb' 16 8 ++ v.extractLsb' 24 8

def buildword (p : ℕ → BitVec 8) : BitVec 32 := p 0 ++ p 1 ++ p 2 ++ p 3

/-! ## The environment -/

/-- Values that the program reads and has not set, what is on the bus outside the flash, and how often
    the status is polled. -/
structure Unset where
  -- the new buffer of sector `s`, byte by byte
  sbuf : ℕ → ℕ → BitVec 8
  -- the inner `len` at page `p`
  len : ℕ → BitVec 32
  other : ℕ → BitVec 32
  polls : ℕ

/-- The word of the bus at word address `w`. -/
def busWord (u : Unset) (mem : Mem) (w : ℕ) : BitVec 32 :=
  if rFlash ≤ 4 * w ∧ 4 * w < rFlash + flashLen then buildword fun j => mem (4 * w - rFlash + j)
  else u.other w

/-- Word `i` of `readi(a, ..)`.  The two low bits of an address are not part of it; the lowest one
    keeps the address from going on. -/
def readi (u : Unset) (mem : Mem) (a i : ℕ) : BitVec 32 :=
  busWord u mem (a / 4 + if a % 2 = 1 then 0 else i)

/-! ## The driver -/

/-- The flash, and the calls of `page_program` so far, with the address and the length of each. -/
structure State where
  chip : Chip
  calls : List (ℕ × ℕ)

/-- What a function comes to: it returns, or an assertion fails. -/
inductive Outcome where
  | returned (ok : Bool)
  | aborted
  deriving DecidableEq, Repr

def writeio (f : Chip) (vs : List (BitVec 32)) : Chip := sends flashLen f vs

/-- The address bytes of a command. -/
def addrBytes (flashaddr : ℕ) : List (BitVec 32) :=
  [BitVec.ofNat 32 (flashaddr / 65536 % 256), BitVec.ofNat 32 (flashaddr / 256 % 256),
    BitVec.ofNat 32 (flashaddr % 256)]

def flwait (u : Unset) (f : Chip) : Chip :=
  writeio f ([fEnd, fRdsr1] ++ List.replicate (u.polls + 1) fEmpty ++ [fEnd])

def eraseSector (u : Unset) (f : Chip) (sector : ℕ) (verifyErase : Bool) : Chip × Bool :=
  let flashaddr := sector % 2 ^ 24
  let f := writeio f ([fEnd, fWren, fEnd] ++ ([fSe] ++ addrBytes flashaddr ++ [fEnd]))
  let f := flwait u f
  (f, !verifyErase || (List.range nPages).all fun i => (List.range szPageW).all fun j =>
    readi u f.mem (rFlash + flashaddr + i * szPageB) j == 0xffffffff#32)

/-- The assertions of `page_program`. -/
def pageOk (addr len : ℕ) : Prop :=
  0 < len ∧ len ≤ szPageB ∧ pageOf addr = pageOf ((addr + len - 1) % 2 ^ 32)

instance (addr len : ℕ) : Decidable (pageOk addr len) := inferInstanceAs (Decidable (_ ∧ _))

/-- The words of the data; the last may go past its end. -/
def words (data : ℕ → BitVec 8) (len : ℕ) : List (BitVec 32) :=
  (List.range ((len + 3) / 4)).map fun i => buildword fun j => data (4 * i + j)

/-- The bytes that are sent. -/
def dataBytes (data : ℕ → BitVec 8) (len : ℕ) : List (BitVec 8) := (List.range len).map data

def pageProgram (u : Unset) (s : State) (addr len : ℕ) (data : ℕ → BitVec 8) (verifyWrite : Bool) :
    State × Outcome :=
  let s := { s with calls := s.calls ++ [(addr, len)] }
  if ¬pageOk addr len then (s, .aborted)
  else
    let flashaddr := addr % 2 ^ 24
    let emptyPage := (words data len).all (· == 0xffffffff#32)
    let chip :=
      if emptyPage then s.chip
      else
        flwait u (writeio s.chip ([fEnd, fWren, fEnd] ++ ([fEnd] ++
          ([fPp] ++ addrBytes flashaddr ++ bytes (dataBytes data len) ++ [fEnd]))))
    ({ s with chip := chip }, .returned (!verifyWrite || (List.range (len / 4)).all fun i =>
      readi u chip.mem addr i == buildword fun j => data (4 * i + j)))

/-- The buffer of a sector, after reading and swapping `ln>>2` words from `base` on. -/
def sbuf (u : Unset) (mem : Mem) (s base ln i : ℕ) : BitVec 8 :=
  if i < ln / 4 * 4 then hostByte (byteswap (readi u mem base (i / 4))) (i % 4) else u.sbuf s i

/-- The comparison, from byte `i` on with `n` to go: whether to erase, and where to begin. -/
def compare (sb dp : ℕ → BitVec 8) (base : ℕ) : ℕ → ℕ → ℕ → Bool × ℕ
  | _, 0, newv => (false, newv)
  | i, n + 1, newv =>
    if sb i &&& dp i ≠ dp i then (true, i - i % 4 + base)
    else
      compare sb dp base (i + 1) n (if sb i ≠ dp i ∧ newv = 0 then i - i % 4 + base else newv)

/-- The length that the page loop comes to at page `start`, from what the inner `len` held. -/
def pageLen (u : Unset) (addr start : ℕ) : ℕ :=
  let len := (addr + (u.len start).toNat + 2 ^ 32 - start) % 2 ^ 32
  if pageOf ((start + len + 2 ^ 32 - 1) % 2 ^ 32) ≠ pageOf start then
    pageOf (start + szPageB) - start
  else len

/-- A `for` loop that is left when its body does not return `true`. -/
def loop (body : ℕ → State → State × Outcome) (step : ℕ → ℕ) (hstep : ∀ p, p < step p)
    (stop p : ℕ) (st : State) : State × Outcome :=
  if p < stop then
    let r := body p st
    if r.2 = .returned true then loop body step hstep stop (step p) r.1 else r
  else (st, .returned true)
termination_by stop - p
decreasing_by
  have := hstep p
  omega

def nextPage (p : ℕ) : ℕ := pageOf (p + szPageB)

theorem lt_nextPage (p : ℕ) : p < nextPage p := by
  unfold nextPage pageOf szPageB
  omega

def nextSector (s : ℕ) : ℕ := s + sectorSzB

theorem lt_nextSector (s : ℕ) : s < nextSector s := by
  unfold nextSector sectorSzB nPages szPageB
  omega

/-- The page loop, from `p` on: `(p<s+SECTORSZB)&&(p<addr+len)`. -/
def pages (u : Unset) (addr len : ℕ) (data : ℕ → BitVec 8) (verify : Bool) (s p : ℕ) (st : State) :
    State × Outcome :=
  loop (fun p st => pageProgram u st p (pageLen u addr p) (fun i => data (p - addr + i)) verify)
    nextPage lt_nextPage (min (s + sectorSzB) (addr + len)) p st

/-- What is done about one sector. -/
def sector (u : Unset) (addr len : ℕ) (data : ℕ → BitVec 8) (verify : Bool) (s : ℕ) (st : State) :
    State × Outcome :=
  let base := if addr > s then addr else s
  let ln := (if addr + len > s + sectorSzB then s + sectorSzB else addr + len) - base
  let (needErase, newv) :=
    compare (sbuf u st.chip.mem s base ln) (fun i => data (base - addr + i)) base 0 ln 0
  if newv = 0 then (st, .returned true)
  else if needErase then
    let (chip, ok) := eraseSector u st.chip s verify
    if ok then
      pages u addr len data verify s (if s < addr then addr else s) { st with chip := chip }
    else ({ st with chip := chip }, .returned false)
  else pages u addr len data verify s newv st

/-- The sector loop. -/
def sectors (u : Unset) (addr len : ℕ) (data : ℕ → BitVec 8) (verify : Bool) (st : State) :
    State × Outcome :=
  loop (sector u addr len data verify) nextSector lt_nextSector
    (sectorOf (addr + len + sectorSzB - 1)) (sectorOf addr) st

def write (u : Unset) (st : State) (addr len : ℕ) (data : ℕ → BitVec 8) (verify : Bool) :
    State × Outcome :=
  let r := sectors u addr len data verify st
  if r.2 = .returned true then ({ r.1 with chip := writeio r.1.chip [fWrdi, fEnd] }, r.2) else r

end ZipStormMX.Flash
