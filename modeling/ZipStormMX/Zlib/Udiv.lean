/-
  `udiv.c`: division of 64-bit words in software.

  A word is divided by a hardware division of 32 bits where that is enough, and else by shifting and
  subtracting.  Both begin with the number of leading zeros, which is found from the bits in reverse.
-/
import Mathlib.Data.BitVec
import Mathlib.Tactic.Common

namespace ZipStormMX.Zlib

/-! ## cltz -/

/-- One round of `zip_bitrev`, on `(r, b)`. -/
def zipBitrevStep (rb : BitVec 32 × BitVec 32) : BitVec 32 × BitVec 32 :=
  (rb.1 <<< 1 ||| (rb.2 &&& 1), rb.2 >>> 1)

def zipBitrev (a : BitVec 32) : BitVec 32 := (Nat.iterate zipBitrevStep 32 (0, a)).1

/-- `if ((hv & mask)==0) { cnt += n; hv = hv >> n; }`, where `mask` is the last `n` bits. -/
def skip (n : ℕ) (x : ℕ × BitVec 32) : ℕ × BitVec 32 :=
  if x.2 &&& BitVec.ofNat 32 (2 ^ n - 1) = 0 then (x.1 + n, x.2 >>> n) else x

def cltz (v : BitVec 64) : ℕ :=
  let hv : BitVec 32 := (v >>> 32).setWidth 32
  let x : ℕ × BitVec 32 := if hv = 0 then (32, v.setWidth 32) else (0, hv)
  let x := skip 2 (skip 4 (skip 8 (skip 16 (x.1, zipBitrev x.2))))
  if x.2 &&& 1 = 0 then x.1 + 1 else x.1

/-! ## __udivdi3 -/

/-- The loop `while(m > 0)`. -/
def udivLoop (r a b m : BitVec 64) : BitVec 64 :=
  if m = 0 then r
  else if b ≤ a then udivLoop (r ||| m) (a - b) (b >>> 1) (m >>> 1)
  else udivLoop r a (b >>> 1) (m >>> 1)
termination_by m.toNat
decreasing_by
  all_goals
    rename_i hm _
    have hpos : m.toNat ≠ 0 := fun h => hm (BitVec.eq_of_toNat_eq h)
    rw [BitVec.toNat_ushiftRight, Nat.shiftRight_eq_div_pow]
    omega

/-- The words that a division of 32 bits is enough for. -/
def udivShortcut (b : BitVec 64) (la lb : ℤ) : Prop :=
  lb - la < 32 ∧ (b <<< la.toNat) &&& 0x0ffffffff#64 = 0

instance (b : BitVec 64) (la lb : ℤ) : Decidable (udivShortcut b la lb) :=
  inferInstanceAs (Decidable (_ ∧ _))

/-- The high half. -/
def high (a : BitVec 64) : BitVec 32 := (a >>> 32).setWidth 32

def udivdi3 (a b : BitVec 64) : BitVec 64 :=
  if a < b then 0
  else if b >>> 32 = 0 ∧ a >>> 32 = 0 then
    (a.setWidth 32 / b.setWidth 32 : BitVec 32).setWidth 64
  else
    let la : ℤ := cltz a
    let lb : ℤ := cltz b
    if udivShortcut b la lb then
      (high (a <<< la.toNat) / high (b <<< la.toNat)).setWidth 64
    else udivLoop 0 (a <<< la.toNat) (b <<< lb.toNat) (1#64 <<< (lb - la).toNat)

/-- The amounts that `__udivdi3` shifts by, on its way for `a` and `b`. -/
def shiftAmounts (a b : BitVec 64) : List ℤ :=
  if a < b then []
  else if b >>> 32 = 0 ∧ a >>> 32 = 0 then [32, 32]
  else
    let la : ℤ := cltz a
    let lb : ℤ := cltz b
    [32, 32, la] ++ (if lb - la < 32 then [la] else []) ++
      if udivShortcut b la lb then [la, 32, 32] else [lb, lb - la, 1, 1]

/-! ## __divdi3 -/

def divdi3 (a b : BitVec 64) : BitVec 64 :=
  let (s, a) := if a.slt 0 then (true, -a) else (false, a)
  let (s, b) := if b.slt 0 then (!s, -b) else (s, b)
  let r := udivdi3 a b
  if s then -r else r

/-! ## __umoddi3 -/

/-- `umod.c`. -/
def umoddi3 (a b : BitVec 64) : BitVec 64 := a - udivdi3 a b * b

end ZipStormMX.Zlib
