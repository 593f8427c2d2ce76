/-
  `hbconsole.v`: the debugging bus and a console on one serial port.

  The top bit of a byte says which of the two it belongs to: set for the debugging bus, clear for
  the console.  On the way out the two are merged, here each with its own top bit; on the way in
  every byte is offered to both.
-/
import ZipStormMX.Clocked
import ZipStormMX.Hexbus.Command
import ZipStormMX.Hexbus.Hbexec
import ZipStormMX.Hexbus.Response

namespace ZipStormMX.Hexbus

/-- The input pins of `hbconsole`. -/
structure Pins where
  iRxStb : Bool
  iRxByte : BitVec 8
  wb : WbReply
  iInterrupt : Bool
  iTxBusy : Bool
  iConsoleStb : Bool
  iConsoleData : BitVec 7

/-- The registers of `hbconsole`, with those of the blocks it is made of. -/
structure Hbconsole where
  oConsoleStb : Bool
  oConsoleData : BitVec 7
  dechxi : Hbdechex
  packxi : Hbpack
  wbexec : Hbexec
  addints : Hbints
  addidles : Hbidle 30
  unpackx : Hbdeword
  genhex : Hbgenhex
  addnl : Hbnewline
  psFull : Bool
  psData : BitVec 8

namespace Hbconsole

-- a register without an `initial` value is zero here
def init : Hbconsole :=
  { oConsoleStb := false, oConsoleData := 0, dechxi := .init, packxi := .init, wbexec := .init,
    addints := .init, addidles := .init 30, unpackx := .init, genhex := .init, addnl := .init,
    psFull := false, psData := 0 }

variable (s : Hbconsole) (i : Pins)

/-! ## Wires -/

def wReset : Bool := s.dechxi.oReset

/-- The output register is taken, and not leaving. -/
def txHeld : Bool := i.iTxBusy && s.psFull

def nlBusy : Bool := Hbnewline.oNlBusy s.addnl (txHeld s i)

def hxBusy : Bool := Hbgenhex.oGxBusy s.genhex (nlBusy s i)

def hbBusy : Bool := Hbdeword.oDwBusy s.unpackx

def idlBusy : Bool := Hbidle.oIdlBusy s.addidles (hbBusy s)

def oTxStb : Bool := s.psFull

def oTxData : BitVec 8 := s.psData

def oConsoleBusy : Bool := s.addnl.oNlStb || s.psFull

/-! ## The next clock -/

@[simps]
def next : Hbconsole where
  oConsoleStb := i.iRxStb && !i.iRxByte.getLsbD 7
  oConsoleData := i.iRxByte.extractLsb' 0 7
  dechxi := Hbdechex.next i.iRxStb i.iRxByte
  packxi := Hbpack.next s.packxi (wReset s) s.dechxi.oDhStb s.dechxi.oDhBits
  wbexec := Hbexec.next s.wbexec (wReset s) s.packxi.oPckStb s.packxi.oPckWord i.wb
  addints :=
    Hbints.next s.addints (wReset s) i.iInterrupt s.wbexec.oRspStb s.wbexec.oRspWord (idlBusy s)
  addidles :=
    Hbidle.next s.addidles (wReset s) s.addints.oIntStb s.addints.oIntWord (hbBusy s)
  unpackx :=
    Hbdeword.next s.unpackx (wReset s) s.addidles.oIdlStb s.addidles.oIdlWord (hxBusy s i)
  genhex := Hbgenhex.next s.genhex (wReset s) s.unpackx.oDwStb s.unpackx.oDwBits (nlBusy s i)
  addnl := Hbnewline.next s.addnl (wReset s) s.genhex.oGxStb s.genhex.oGxChar (txHeld s i)
  psFull :=
    if !s.psFull then s.addnl.oNlStb || i.iConsoleStb
    else if !i.iTxBusy then s.addnl.oNlStb else true
  psData :=
    if !s.psFull then
      if s.addnl.oNlStb then 1#1 ++ s.addnl.oNlByte
      else if i.iConsoleStb then 0#1 ++ i.iConsoleData else s.psData
    else if !i.iTxBusy then 1#1 ++ s.addnl.oNlByte else s.psData

/-! ## What the bus sees -/

/-- What is issued to the bus: a request that a slave takes, or a reset. -/
inductive BusEvent where
  | read (addr : BitVec 30)
  | write (addr : BitVec 30) (data : BitVec 32)
  | reset
deriving DecidableEq

/-- What is issued on one clock. -/
def busEvents : List BusEvent :=
  (if wReset s then [BusEvent.reset] else []) ++
    (if s.wbexec.oWbStb && !i.wb.iWbStall then
      [if s.wbexec.oWbWe then BusEvent.write s.wbexec.oWbAddr s.wbexec.oWbData
        else BusEvent.read s.wbexec.oWbAddr]
    else [])

end Hbconsole

end ZipStormMX.Hexbus
