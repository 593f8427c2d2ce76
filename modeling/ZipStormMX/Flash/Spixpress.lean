/-
  `spixpress.v`: the flash controller.

  A read of the bus sends the command `03` and 24 bits of address, and takes in the 32 bits that
  follow; with `OPT_PIPE` a read of the next word goes on where the one before it ends.  With
  `OPT_CFG` a port gives the bus the pins themselves, one byte at a time (`cfg_user_mode`).
-/
import Mathlib.Data.BitVec
import ZipStormMX.Clocked

namespace ZipStormMX.Flash

/-- The parameters. -/
structure SpixCfg where
  optPipe : Bool
  optCfg : Bool
  deriving DecidableEq, Repr

/-- The input pins; `i_wb_addr` has `AW = LGSZ - 2` bits. -/
structure SpixIn (AW : ℕ) where
  iReset : Bool
  iWbCyc : Bool
  iWbStb : Bool
  iCfgStb : Bool
  iWbWe : Bool
  iWbAddr : BitVec AW
  iWbData : BitVec 32
  iSpiMiso : Bool
  deriving DecidableEq, Repr

/-- The registers. -/
structure Spixpress (AW : ℕ) where
  cfgUserMode : Bool
  wdataPipe : BitVec 33
  ackDelay : BitVec 7
  actualSck : Bool
  oWbStall : Bool
  oWbAck : Bool
  oWbData : BitVec 32
  oSpiCsN : Bool
  oSpiSck : Bool
  rNextAddr : BitVec AW
  deriving DecidableEq, Repr

namespace Spixpress

variable {AW : ℕ} (c : SpixCfg) (s : Spixpress AW) (i : SpixIn AW)

def nextAddr : BitVec AW := if c.optPipe then s.rNextAddr else 0

def busRequest : Bool := i.iWbStb && !s.oWbStall && !i.iWbWe && !s.cfgUserMode

def nextRequest : Bool :=
  c.optPipe && i.iWbStb && !i.iWbWe && !s.cfgUserMode && i.iWbAddr == nextAddr c s

def userRequest : Bool :=
  c.optCfg && i.iCfgStb && !s.oWbStall && i.iWbWe && !i.iWbData.getLsbD 8

/-- A write to the control port. -/
def cfgWrite : Bool := c.optCfg && i.iCfgStb && !s.oWbStall && i.iWbWe

def oSpiMosi : Bool := s.wdataPipe.getLsbD 32

def nextAckDelay : BitVec 7 :=
  if i.iReset || !i.iWbCyc then 0
  else if busRequest s i then if s.oSpiCsN || !c.optPipe then 65 else 32
  else if userRequest c s i then 9
  else if s.ackDelay != 0 then s.ackDelay - 1
  else s.ackDelay

/-- `wdata_pipe[32:24]` and `wdata_pipe[23:0]`. -/
def nextWdataPipe : BitVec 33 :=
  (if (!c.optCfg || i.iWbStb) && !s.oWbStall then 0#1 ++ 0x03#8
    else if c.optCfg && !s.oWbStall then 0#1 ++ i.iWbData.extractLsb' 0 8
    else s.wdataPipe.extractLsb' 23 9)
  ++ (if !s.oWbStall then (i.iWbAddr ++ 0#2).setWidth 24
    else s.wdataPipe.extractLsb' 0 23 ++ 0#1)

def nextWbAck : Bool :=
  if i.iReset then false
  else if s.ackDelay == 1 then i.iWbCyc
  else if i.iWbStb && !s.oWbStall && !busRequest s i then true
  else if i.iCfgStb && !s.oWbStall && !userRequest c s i then true
  else false

def nextUserMode : Bool :=
  if i.iReset then false
  else if cfgWrite c s i then !i.iWbData.getLsbD 8
  else s.cfgUserMode

def nextWbData : BitVec 32 :=
  if s.actualSck then
    if s.cfgUserMode then
      0#19 ++ 1#1 ++ 0#4 ++ s.oWbData.extractLsb' 0 7 ++ BitVec.ofBool i.iSpiMiso
    else s.oWbData.extractLsb' 0 31 ++ BitVec.ofBool i.iSpiMiso
  else if s.cfgUserMode then 0#19 ++ 1#1 ++ 0#4 ++ s.oWbData.extractLsb' 0 8
  else s.oWbData

def nextSpiCsN : Bool :=
  if i.iReset then true
  else if !i.iWbCyc && !s.cfgUserMode then true
  else if busRequest s i then false
  else if cfgWrite c s i then i.iWbData.getLsbD 8
  else if s.cfgUserMode then false
  else if s.ackDelay == 1 && !s.cfgUserMode then true
  else s.oSpiCsN

def nextSpiSck : Bool :=
  if i.iReset then false
  else if busRequest s i || userRequest c s i then true
  else if i.iWbCyc && s.ackDelay > 2 then true
  else if nextRequest c s i && s.ackDelay == 2 then true
  else false

def nextWbStall : Bool :=
  if i.iReset || !i.iWbCyc then false
  else if busRequest s i || userRequest c s i then true
  else if nextRequest c s i && s.ackDelay == 2 then false
  else decide (s.ackDelay > 1)

/-- The clock. -/
def next : Spixpress AW where
  cfgUserMode := nextUserMode c s i
  wdataPipe := nextWdataPipe c s i
  ackDelay := nextAckDelay c s i
  actualSck := if i.iReset || !i.iWbCyc then false else s.oSpiSck
  oWbStall := nextWbStall c s i
  oWbAck := nextWbAck c s i
  oWbData := nextWbData s i
  oSpiCsN := nextSpiCsN c s i
  oSpiSck := nextSpiSck c s i
  rNextAddr := if !s.oWbStall then i.iWbAddr + 1 else s.rNextAddr

/-- What the `initial` statements fix: all but the registers that have none. -/
structure AtPowerUp : Prop where
  ackDelay : s.ackDelay = 0
  wbAck : s.oWbAck = false
  userMode : s.cfgUserMode = false
  actualSck : s.actualSck = false
  csN : s.oSpiCsN = true
  sck : s.oSpiSck = false
  stall : s.oWbStall = false

end Spixpress

end ZipStormMX.Flash
