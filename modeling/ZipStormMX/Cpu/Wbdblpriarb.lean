/-
  `wbdblpriarb.v`: two masters share a pair of buses, with priority to the first.

  The one register is `r_a_owner`.  Master A owns the bus when nobody asks for it; B takes it when
  B strobes and A holds no cycle, and gives it back by dropping its cycle.
-/
import Mathlib.Data.BitVec

namespace ZipStormMX.Cpu

/-- The lines a master drives: the cycle and strobe of either bus, and what the two share. -/
structure DblMaster (AW : ℕ) where
  cycA : Bool
  cycB : Bool
  stbA : Bool
  stbB : Bool
  we : Bool
  adr : BitVec AW
  dat : BitVec 32
  sel : BitVec 4
  deriving DecidableEq, Repr

/-- The answers a master sees. -/
structure DblReply where
  ack : Bool
  stall : Bool
  err : Bool
  deriving DecidableEq, Repr

namespace Wbdblpriarb

variable {AW : ℕ} (rAOwner : Bool) (a b : DblMaster AW) (slave : DblReply)

/-- The next owner. -/
def nextOwner (iReset : Bool) : Bool :=
  if iReset then true
  else if !b.cycA && !b.cycB then true
  else if !a.cycA && !a.cycB && (b.stbA || b.stbB) then false
  else rAOwner

/-- The shared bus: the lines of the owner. -/
def bus : DblMaster AW := if rAOwner then a else b

/-- The answer to master A: stalled, and never acknowledged, while B owns the bus. -/
def replyA : DblReply :=
  if rAOwner then slave else { ack := false, stall := true, err := false }

/-- The answer to master B. -/
def replyB : DblReply :=
  if rAOwner then { ack := false, stall := true, err := false } else slave

end Wbdblpriarb

end ZipStormMX.Cpu
