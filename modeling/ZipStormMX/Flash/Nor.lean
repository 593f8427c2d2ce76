/-
  A NOR flash behind a serial port.

  A command is the bytes sent while the chip is selected; it takes effect when the chip is deselected.
  Erasing sets a sector of 64 kB to ones, programming can only clear bits, and wraps within a page of
  256 bytes; both need the write enable latch, and clear it.  Nothing here knows who sends the bytes.

  * `send`         one word for the port: a byte, or (bit 8) the end of a command;
  * `sends_cmd`    a whole command, from an idle chip;
  * `program_mem`  what a page program within one page leaves behind.
-/
import Mathlib.Data.BitVec
import Mathlib.Tactic.Common

namespace ZipStormMX.Nor

/-- The contents. -/
abbrev Mem := ℕ → BitVec 8

/-- Program bytes from `off` on in the page at `page`. -/
def programFrom (page : ℕ) : Mem → ℕ → List (BitVec 8) → Mem
  | mem, _, [] => mem
  | mem, off, d :: ds =>
    programFrom page (fun a => if a = page + off % 256 then mem a &&& d else mem a) (off + 1) ds

def program (mem : Mem) (addr : ℕ) (ds : List (BitVec 8)) : Mem :=
  programFrom (addr - addr % 256) mem (addr % 256) ds

def erase (mem : Mem) (addr : ℕ) : Mem := fun a => if a / 65536 = addr / 65536 then 0xff#8 else mem a

theorem programFrom_mem (page : ℕ) (ds : List (BitVec 8)) :
    ∀ (mem : Mem) (off : ℕ), off + ds.length ≤ 256 → ∀ a, programFrom page mem off ds a =
      if page + off ≤ a ∧ a < page + off + ds.length then mem a &&& ds.getD (a - (page + off)) 0
      else mem a := by
  induction ds with
  | nil =>
    intro mem off _ a
    rw [if_neg (by simp only [List.length_nil]; omega)]
    rfl
  | cons d ds ih =>
    intro mem off hoff a
    rw [List.length_cons] at hoff
    show programFrom page _ (off + 1) ds a = _
    rw [ih _ (off + 1) (by omega) a, List.length_cons, Nat.mod_eq_of_lt (by omega : off < 256)]
    by_cases hfirst : a = page + off
    · subst hfirst
      rw [if_neg (by omega), if_pos rfl, if_pos (by omega), Nat.sub_self]
      rfl
    · rw [if_neg hfirst]
      by_cases hin : page + (off + 1) ≤ a ∧ a < page + (off + 1) + ds.length
      · rw [if_pos hin, if_pos (by omega),
          show a - (page + off) = a - (page + (off + 1)) + 1 by omega]
        rfl
      · rw [if_neg hin, if_neg (by omega)]

/-- A page program that stays in its page clears the bits that the data has clear. -/
theorem program_mem {mem : Mem} {addr : ℕ} {ds : List (BitVec 8)}
    (h : addr % 256 + ds.length ≤ 256) (a : ℕ) : program mem addr ds a =
      if addr ≤ a ∧ a < addr + ds.length then mem a &&& ds.getD (a - addr) 0 else mem a := by
  have hle := Nat.mod_le addr 256
  unfold program
  rw [programFrom_mem _ _ _ _ h, Nat.sub_add_cancel hle]

/-! ## The port -/

/-- The chip: its contents, the write enable latch, and the bytes since it was selected. -/
structure Chip where
  mem : Mem
  writeEnable : Bool
  command : List (BitVec 8)

/-- The address of a command, in a chip of `size` bytes. -/
def address (size : ℕ) (a2 a1 a0 : BitVec 8) : ℕ := (a2 ++ a1 ++ a0).toNat % size

/-- What a command does. -/
def execute (size : ℕ) (f : Chip) : Chip :=
  match f.command with
  | [c] =>
    if c = 0x06#8 then { f with writeEnable := true, command := [] }
    else if c = 0x04#8 then { f with writeEnable := false, command := [] }
    else { f with command := [] }
  | c :: a2 :: a1 :: a0 :: ds =>
    if c = 0xd8#8 ∧ ds = [] ∧ f.writeEnable = true then
      { mem := erase f.mem (address size a2 a1 a0), writeEnable := false, command := [] }
    else if c = 0x02#8 ∧ f.writeEnable = true then
      { mem := program f.mem (address size a2 a1 a0) ds, writeEnable := false, command := [] }
    else { f with command := [] }
  | _ => { f with command := [] }

/-- One word for the port. -/
def send (size : ℕ) (f : Chip) (v : BitVec 32) : Chip :=
  if v.getLsbD 8 then execute size f else { f with command := f.command ++ [v.setWidth 8] }

def sends (size : ℕ) (f : Chip) (vs : List (BitVec 32)) : Chip := vs.foldl (send size) f

variable {size : ℕ}

theorem sends_append (f : Chip) (us vs : List (BitVec 32)) :
    sends size f (us ++ vs) = sends size (sends size f us) vs :=
  List.foldl_append

/-- The words that are bytes. -/
def bytes (ds : List (BitVec 8)) : List (BitVec 32) := ds.map fun d => d.setWidth 32

theorem sends_bytes (ds : List (BitVec 8)) :
    ∀ f : Chip, sends size f (bytes ds) = { f with command := f.command ++ ds } := by
  induction ds with
  | nil =>
    intro f
    show f = _
    rw [List.append_nil]
  | cons d ds ih =>
    intro f
    have hbyte : send size f (d.setWidth 32) = { f with command := f.command ++ [d] } := by
      have hlow : (d.setWidth 32).getLsbD 8 = false := by
        rw [BitVec.getLsbD_setWidth, BitVec.getLsbD_of_ge d 8 (Nat.le_refl 8), Bool.and_false]
      have hsame : (d.setWidth 32).setWidth 8 = d := by
        apply BitVec.eq_of_toNat_eq
        simp only [BitVec.toNat_setWidth]
        omega
      unfold send
      rw [hlow, hsame]
      rfl
    show sends size (send size f (d.setWidth 32)) (bytes ds) = _
    rw [hbyte, ih, List.append_assoc]
    rfl

/-- A command from an idle chip: its bytes, and the end. -/
theorem sends_cmd {f : Chip} (h : f.command = []) (ds : List (BitVec 8)) :
    sends size f (bytes ds ++ [0x100#32]) = execute size { f with command := ds } := by
  rw [sends_append, sends_bytes, h, List.nil_append]
  rfl

@[simp] theorem execute_idle {f : Chip} (h : f.command = []) : execute size f = f := by
  obtain ⟨mem, en, command⟩ := f
  subst h
  rfl

@[simp] theorem execute_command (f : Chip) : (execute size f).command = [] := by
  unfold execute
  split
  · split_ifs <;> rfl
  · split_ifs <;> rfl
  · rfl

end ZipStormMX.Nor
