/-
  The fetch unit as the CPU sees it.

  `zipcpu.v` instantiates one of four prefetch modules behind one set of wires.  `FetchUnit` is that
  set of wires: a state, what the clock does to it, and the outputs.  The outputs may look at the
  jump, reset and clear lines of the same clock (`pfcache` drops `o_valid` on a jump), and at
  nothing else from outside.
-/
import Mathlib.Data.BitVec

namespace ZipStormMX.Cpu

variable {AW : ℕ}

/-- The word address `pc[AW+1:2]` of a byte address. -/
def wordOf (pc : BitVec (AW + 2)) : BitVec AW := pc.extractLsb' 2 AW

/-- The byte address `{ w, lo }`. -/
def byteAddr (w : BitVec AW) (lo : BitVec 2) : BitVec (AW + 2) := w ++ lo

/-- The inputs of a fetch unit.  `i_wb_request` and the address that goes with it are there for
    `pipefetch` alone, whose `i_pc` is wired differently. -/
structure FetchIn (AW : ℕ) where
  iReset : Bool
  iNewPc : Bool
  iClearCache : Bool
  iStallN : Bool
  iPc : BitVec (AW + 2)
  iPipePc : BitVec (AW + 2)
  iWbRequest : Bool
  iWbAck : Bool
  iWbStall : Bool
  iWbErr : Bool
  iWbData : BitVec 32

/-- The outputs of a fetch unit. -/
structure FetchOut (AW : ℕ) where
  oInsn : BitVec 32
  oPc : BitVec (AW + 2)
  oValid : Bool
  oIllegal : Bool
  oWbCyc : Bool
  oWbStb : Bool
  oWbAddr : BitVec AW

/-- A fetch unit: `out` takes the state and the lines `i_reset`, `i_new_pc` and `i_clear_cache`. -/
structure FetchUnit (AW : ℕ) where
  State : Type
  step : State → FetchIn AW → State
  out : State → Bool → Bool → Bool → FetchOut AW

end ZipStormMX.Cpu
