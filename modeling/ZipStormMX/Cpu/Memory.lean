/-
  What the two memory units of the CPU have in common: the request the CPU presents, the answers
  of the bus, and the byte lanes of an access (`memops.v`, `pipemem.v`).

  An operation is three bits: bit 0 is the direction (set for a store), bits 2:1 the size, `01` a
  word, `10` a halfword, `11` a byte.  The byte order on the bus is big endian.
-/
import Mathlib.Data.BitVec

namespace ZipStormMX.Cpu

/-- The parameters of a memory unit. -/
structure MemCfg where
  implementLock : Bool
  withLocalBus : Bool
  optAlignmentErr : Bool
  optZeroOnIdle : Bool
  deriving DecidableEq, Repr

/-- The inputs of a memory unit during one clock. -/
structure MemIn where
  iReset : Bool
  iStb : Bool
  iLock : Bool
  iOp : BitVec 3
  iAddr : BitVec 32
  iData : BitVec 32
  iOreg : BitVec 5
  iWbAck : Bool
  iWbStall : Bool
  iWbErr : Bool
  iWbData : BitVec 32
  deriving DecidableEq, Repr

/-- The outputs of a memory unit that are registers: the answers to the CPU, then the bus it
    drives.  There is one more, `o_pipe_stalled`, which looks at the stall line of the bus. -/
structure MemOut (AW : ℕ) where
  oBusy : Bool
  oValid : Bool
  oErr : Bool
  oWreg : BitVec 5
  oResult : BitVec 32
  oWbCycGbl : Bool
  oWbCycLcl : Bool
  oWbStbGbl : Bool
  oWbStbLcl : Bool
  oWbWe : Bool
  oWbAddr : BitVec AW
  oWbData : BitVec 32
  oWbSel : BitVec 4
  deriving DecidableEq, Repr

/-- A memory unit as the CPU sees it. -/
structure MemUnit (AW : ℕ) where
  State : Type
  step : State → MemIn → State
  out : State → MemOut AW
  oPipeStalled : State → Bool → Bool

/-- `casez`: the bits of `k` that `care` selects are those of `pat`. -/
def casez {w : ℕ} (k pat care : BitVec w) : Bool := k &&& care == pat

/-- `{ i_op[2:1], i_addr[1:0] }`: what the lanes of an access depend on. -/
def laneKey (op : BitVec 3) (addr : BitVec 32) : BitVec 4 :=
  op.extractLsb' 1 2 ++ addr.extractLsb' 0 2

/-- The address is in the region of the local bus. -/
def lclAddr (addr : BitVec 32) : Bool := addr.extractLsb' 24 8 == 0xff#8

/-- A word off a multiple of four, or a halfword at an odd address. -/
def badAlignment (k : BitVec 4) : Bool :=
  casez k 0b0101#4 0b1101#4 || casez k 0b0110#4 0b1111#4 || casez k 0b1001#4 0b1101#4

/-- The byte selects of an access. -/
def laneSel (k : BitVec 4) : BitVec 4 :=
  if casez k 0b0100#4 0b1100#4 then 0b1111#4
  else if casez k 0b1000#4 0b1110#4 then 0b1100#4
  else if casez k 0b1010#4 0b1110#4 then 0b0011#4
  else if casez k 0b1100#4 0b1111#4 then 0b1000#4
  else if casez k 0b1101#4 0b1111#4 then 0b0100#4
  else if casez k 0b1110#4 0b1111#4 then 0b0010#4
  else if casez k 0b1111#4 0b1111#4 then 0b0001#4
  else 0b1111#4

/-- The data of a store, moved to its lanes, the other lanes zero. -/
def laneData (k : BitVec 4) (d : BitVec 32) : BitVec 32 :=
  if casez k 0b1000#4 0b1110#4 then d.extractLsb' 0 16 ++ 0#16
  else if casez k 0b1010#4 0b1110#4 then 0#16 ++ d.extractLsb' 0 16
  else if casez k 0b1100#4 0b1111#4 then d.extractLsb' 0 8 ++ 0#24
  else if casez k 0b1101#4 0b1111#4 then 0#8 ++ d.extractLsb' 0 8 ++ 0#16
  else if casez k 0b1110#4 0b1111#4 then 0#16 ++ d.extractLsb' 0 8 ++ 0#8
  else if casez k 0b1111#4 0b1111#4 then 0#24 ++ d.extractLsb' 0 8
  else d

/-- The data of a store, repeated over all the lanes. -/
def laneCopies (k : BitVec 4) (d : BitVec 32) : BitVec 32 :=
  if casez k 0b1000#4 0b1100#4 then d.extractLsb' 0 16 ++ d.extractLsb' 0 16
  else if casez k 0b1100#4 0b1100#4 then
    d.extractLsb' 0 8 ++ d.extractLsb' 0 8 ++ d.extractLsb' 0 8 ++ d.extractLsb' 0 8
  else d

/-- The value of a load: the addressed lanes of the bus, zero extended. -/
def laneResult (k : BitVec 4) (d : BitVec 32) : BitVec 32 :=
  if casez k 0b0100#4 0b1100#4 then d
  else if casez k 0b1000#4 0b1110#4 then 0#16 ++ d.extractLsb' 16 16
  else if casez k 0b1010#4 0b1110#4 then 0#16 ++ d.extractLsb' 0 16
  else if casez k 0b1100#4 0b1111#4 then 0#24 ++ d.extractLsb' 24 8
  else if casez k 0b1101#4 0b1111#4 then 0#24 ++ d.extractLsb' 16 8
  else if casez k 0b1110#4 0b1111#4 then 0#24 ++ d.extractLsb' 8 8
  else if casez k 0b1111#4 0b1111#4 then 0#24 ++ d.extractLsb' 0 8
  else d

end ZipStormMX.Cpu
