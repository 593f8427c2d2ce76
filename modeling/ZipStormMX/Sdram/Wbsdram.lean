/-
  `wbsdram.v`: the SDRAM controller.

  A request waits in `r_pending` until its bank shows its row.  `bank_active` is a shift register a
  bank: its top bit says that the bank has been opened, and the ones that follow it count the clocks
  since.  One `if` chain decides what goes to the memory on a clock (`action`), and the other blocks
  follow it.  The chain and the wire `issued` work out apart from each other that a request goes out.

  Two sequencers take the memory away from it: one for the start up, the other for the refresh.
-/
import Mathlib.Data.Nat.Log
import Mathlib.Data.BitVec
import ZipStormMX.Sdram.Genuctrl

namespace ZipStormMX.Sdram

/-! ## Commands -/

def cmdSetMode : BitVec 4 := 0x0
def cmdRefresh : BitVec 4 := 0x1
def cmdPrecharge : BitVec 4 := 0x2
def cmdActivate : BitVec 4 := 0x3
def cmdWrite : BitVec 4 := 0x4
def cmdRead : BitVec 4 := 0x5
def cmdNoop : BitVec 4 := 0x7

/-- Two clocks from the command to the data, bursts of two words. -/
def modeCommand : BitVec 12 := 0x021

/-- `{ reset_active, reset_command, reset_addr10 }`. -/
structure ResetCmd where
  active : Bool
  cmd : BitVec 4
  addr10 : Bool

/-- `{ refresh_active, refresh_stall, refresh_cmd }`. -/
structure RefreshCmd where
  active : Bool
  stall : Bool
  cmd : BitVec 4

/-- The table of `reset_controller`. -/
def resetProgram : UProgram ResetCmd where
  commands :=
    ![.out ⟨true, cmdNoop, false⟩, .out ⟨true, cmdPrecharge, true⟩,
      .out ⟨true, cmdNoop, false⟩, .wait 0,
      .out ⟨true, cmdRefresh, false⟩, .out ⟨true, cmdNoop, false⟩, .wait 6,
      .out ⟨true, cmdRefresh, false⟩, .out ⟨true, cmdNoop, false⟩, .wait 6,
      .out ⟨true, cmdSetMode, false⟩, .out ⟨true, cmdNoop, false⟩,
      .out ⟨false, cmdNoop, false⟩, .out ⟨false, cmdNoop, false⟩,
      .out ⟨false, cmdNoop, false⟩, .out ⟨false, cmdNoop, false⟩]
  first := ⟨true, cmdNoop, false⟩
  optRepeat := false
  commands_zero := rfl

/-- The table of `refresh_controller`, with the clocks that remain between two refreshes. -/
def refreshProgram (remaining : ℕ) : UProgram RefreshCmd where
  commands :=
    ![.out ⟨false, false, cmdNoop⟩, .wait remaining,
      .out ⟨false, true, cmdNoop⟩, .wait 4,
      .out ⟨true, true, cmdPrecharge⟩, .out ⟨true, true, cmdNoop⟩, .wait 1,
      .out ⟨true, true, cmdRefresh⟩, .out ⟨true, true, cmdNoop⟩, .wait 4,
      .out ⟨false, false, cmdNoop⟩, .out ⟨false, false, cmdNoop⟩,
      .out ⟨false, false, cmdNoop⟩, .out ⟨false, false, cmdNoop⟩,
      .out ⟨false, false, cmdNoop⟩, .out ⟨false, false, cmdNoop⟩]
  first := ⟨false, false, cmdNoop⟩
  optRepeat := true
  commands_zero := rfl

/-! ## Parameters -/

structure SdramCfg where
  clockFrequencyHz : ℕ
  optFwdAddress : Bool

namespace SdramCfg

variable (c : SdramCfg)

/-- The clocks between two refreshes. -/
def ckRefresh : ℕ := c.clockFrequencyHz / 1000 * 16 / 2048 - 1

def ckRemaining : ℕ := c.ckRefresh - 4 - 1 - 4 - 15

def ckStartupWait : ℕ := c.clockFrequencyHz / 10000

/-- As many bits as `startup_idle` has. -/
def startupIdle : ℕ := c.ckStartupWait % 2 ^ Nat.clog 2 c.ckStartupWait

end SdramCfg

/-! ## The controller -/

structure SdramIn where
  iWbCyc : Bool
  iWbStb : Bool
  iWbWe : Bool
  iWbAddr : BitVec 19
  iWbData : BitVec 32
  iWbSel : BitVec 4
  iRamData : BitVec 16

/-- The row of an address. -/
def rowOf (a : BitVec 19) : BitVec 11 := a.extractLsb' 8 11

/-- The bank of an address. -/
def bankOf (a : BitVec 19) : Bool := a.getLsbD 7

/-- The column of an address.  A word takes two of them. -/
def colOf (a : BitVec 19) : BitVec 8 := a.extractLsb' 0 7 ++ 0#1

/-- A register for each of the two banks. -/
structure Banks (α : Type) where
  bank0 : α
  bank1 : α

namespace Banks

variable {α β : Type}

def get (m : Banks α) (b : Bool) : α := bif b then m.bank1 else m.bank0

def set (m : Banks α) (b : Bool) (x : α) : Banks α :=
  bif b then { m with bank1 := x } else { m with bank0 := x }

def map (f : α → β) (m : Banks α) : Banks β := ⟨f m.bank0, f m.bank1⟩

def both (x : α) : Banks α := ⟨x, x⟩

@[simp] theorem get_set_self (m : Banks α) (b : Bool) (x : α) : (m.set b x).get b = x := by
  cases b <;> rfl

theorem get_set_of_ne (m : Banks α) {b b' : Bool} (h : b' ≠ b) (x : α) :
    (m.set b x).get b' = m.get b' := by
  cases b <;> cases b' <;> first | rfl | exact absurd rfl h

@[simp] theorem get_map (f : α → β) (m : Banks α) (b : Bool) : (m.map f).get b = f (m.get b) := by
  cases b <;> rfl

@[simp] theorem get_both (x : α) (b : Bool) : (both x).get b = x := by
  cases b <;> rfl

end Banks

structure Wbsdram where
  bankActive : Banks (BitVec 5)
  bankRow : Banks (BitVec 11)
  rBarrellAck : BitVec 6
  rPending : Bool
  rWe : Bool
  rAddr : BitVec 19
  rData : BitVec 32
  rSel : BitVec 4
  nxtSel : BitVec 2
  fwdAddr : BitVec 19
  rBankValid : Bool
  fwdBankValid : Bool
  clocksTilIdle : BitVec 3
  nxtDmod : Bool
  oCmd : BitVec 4
  oRamAddr : BitVec 12
  oRamDmod : Bool
  oRamData : BitVec 16
  oRamDqm : BitVec 2
  oWbStall : Bool
  oWbData : BitVec 32
  maintenanceMode : Bool
  maintenanceCmd : BitVec 4
  maintenanceAddr : BitVec 12
  startupHold : Bool
  startupIdle : ℕ
  resetController : Genuctrl ResetCmd
  refreshController : Genuctrl RefreshCmd

namespace Wbsdram

variable (c : SdramCfg) (s : Wbsdram) (i : SdramIn)

/-! ### Wires -/

def rRow : BitVec 11 := rowOf s.rAddr
def rBank : Bool := bankOf s.rAddr
def rCol : BitVec 8 := colOf s.rAddr
def fwdRow : BitVec 11 := rowOf s.fwdAddr
def fwdBank : Bool := bankOf s.fwdAddr

def resetActive : Bool := s.resetController.oCmd.active
def refreshActive : Bool := s.refreshController.oCmd.active
def refreshStall : Bool := s.refreshController.oCmd.stall

def busCyc : Bool := i.iWbCyc && i.iWbStb && !s.oWbStall

def pending : Bool := s.rPending && s.oWbStall

/-- `&bank_active[b][CK_RCD:1]`: the bank has been open for long enough. -/
def ready (b : Bool) : Bool := (s.bankActive.get b).extractLsb' 1 4 == 0b1111

def issued : Bool :=
  if s.maintenanceMode || !s.rPending || !i.iWbCyc then false
  else if !s.nxtDmod && !s.refreshStall && s.rBankValid && ready s (rBank s) then
    if s.rWe then s.clocksTilIdle ≤ 1 else s.clocksTilIdle < 5
  else false

def oWbAck : Bool := s.rBarrellAck.getLsbD 0

/-! ### What goes to the memory -/

/-- The branches of the command state machine. -/
inductive Action where
  | maintain
  | rest
  | activate
  | precharge
  | write
  | read
  | ahead
  | aheadPrecharge
  | aheadActivate
  deriving DecidableEq

def action : Action :=
  if s.maintenanceMode then .maintain
  else if s.refreshStall then .rest
  else if s.rPending && !s.rBankValid then
    if s.bankActive.get (rBank s) == 0 then .activate
    else if s.bankActive.get (rBank s) == 0b11111 && s.clocksTilIdle < 1 then .precharge
    else .rest
  else if pending s && ready s (rBank s)
      && ((!s.rWe && s.clocksTilIdle < 5) || (s.rWe && s.clocksTilIdle ≤ 1)) then
    if s.rWe then .write else .read
  else if c.optFwdAddress && s.rPending && !s.fwdBankValid then
    if ready s (fwdBank s) && s.clocksTilIdle ≤ 1 then .aheadPrecharge
    else if s.bankActive.get (fwdBank s) == 0 then .aheadActivate
    else .ahead
  else .rest

def nextCmd : BitVec 4 :=
  match action c s with
  | .maintain => s.maintenanceCmd
  | .activate | .aheadActivate => cmdActivate
  | .precharge | .aheadPrecharge => cmdPrecharge
  | .write => BitVec.ofBool (!i.iWbCyc) ++ 0b100#3
  | .read => BitVec.ofBool (!i.iWbCyc) ++ 0b101#3
  | .rest | .ahead => 0b1111

/-- `{ bank, row }`, with bit 10 cleared when the bank is to be closed. -/
def rowAddr (b : Bool) (row : BitVec 11) : BitVec 12 :=
  if (s.bankActive.get b).getLsbD 0 then (BitVec.ofBool b ++ row) &&& 0xbff
  else BitVec.ofBool b ++ row

def nextRamAddr : BitVec 12 :=
  if s.maintenanceMode then s.maintenanceAddr
  else if s.rPending && !s.rBankValid then rowAddr s (rBank s) (rRow s)
  else if issued s i then BitVec.ofBool (rBank s) ++ (0#3 ++ rCol s)
  else if c.optFwdAddress && s.rPending && !s.fwdBankValid then
    rowAddr s (fwdBank s) (fwdRow s)
  else 0

/-- A bank stays as it is: the top bit is kept, and goes down the register. -/
def shifted (a : BitVec 5) : BitVec 5 := a.extractLsb' 4 1 ++ a.extractLsb' 1 4

def nextBankActive : Banks (BitVec 5) :=
  let kept := s.bankActive.map shifted
  match action c s with
  | .maintain => .both 0
  | .activate => kept.set (rBank s) (kept.get (rBank s) ||| 0b10000)
  | .aheadActivate => kept.set (fwdBank s) (kept.get (fwdBank s) ||| 0b10000)
  | .precharge => kept.set (rBank s) (kept.get (rBank s) &&& 0b00001)
  | .aheadPrecharge => kept.set (fwdBank s) (kept.get (fwdBank s) &&& 0b00001)
  | .write | .read | .rest | .ahead => kept

/-- The look-ahead writes the row of its bank whatever it then does with the bank. -/
def nextBankRow : Banks (BitVec 11) :=
  match action c s with
  | .activate => s.bankRow.set (rBank s) (rRow s)
  | .ahead | .aheadPrecharge | .aheadActivate => s.bankRow.set (fwdBank s) (fwdRow s)
  | .maintain | .precharge | .write | .read | .rest => s.bankRow

def nextClocksTilIdle : BitVec 3 :=
  match action c s with
  | .maintain => s.clocksTilIdle
  | .write => 2
  | .read => 5
  | _ => if s.clocksTilIdle != 0 then s.clocksTilIdle - 1 else s.clocksTilIdle

def nextBarrellAck : BitVec 6 :=
  if !i.iWbCyc then 0
  else match action c s with
    | .write => s.rBarrellAck >>> 1 ||| 0b000010
    | .read => s.rBarrellAck >>> 1 ||| 0b100000
    | _ => s.rBarrellAck >>> 1

def nextStall : Bool :=
  if s.maintenanceMode || s.refreshStall then true
  else match action c s with
    | .write | .read => false
    | _ => (s.rPending && s.oCmd != cmdRead && s.oCmd != cmdWrite) || busCyc s i

def nextPending : Bool :=
  if busCyc s i then true
  else if issued s i then false
  else if !i.iWbCyc then false
  else s.rPending

/-- The bank that an address goes to shows its row. -/
def shows (a : BitVec 19) : Bool :=
  (s.bankActive.get (bankOf a)).getLsbD 4 && s.bankRow.get (bankOf a) == rowOf a

def nextDqm : BitVec 2 :=
  if s.maintenanceMode then 0b11
  else if s.oCmd == cmdWrite then ~~~s.nxtSel
  else if !s.rWe then 0b00
  else if (s.bankActive.get (rBank s)).getLsbD 4 && s.rBankValid && s.clocksTilIdle ≤ 1 then
    ~~~(s.rSel.extractLsb' 2 2)
  else 0b00

@[simps]
def next : Wbsdram where
  bankActive := nextBankActive c s
  bankRow := nextBankRow c s
  rBarrellAck := nextBarrellAck c s i
  rPending := nextPending s i
  rWe := if busCyc s i then i.iWbWe else s.rWe
  rAddr := if busCyc s i then i.iWbAddr else s.rAddr
  rData := if busCyc s i then i.iWbData else s.rData
  rSel := if busCyc s i then i.iWbSel else s.rSel
  nxtSel := s.rSel.extractLsb' 0 2
  fwdAddr := if busCyc s i then i.iWbAddr + 12 else s.fwdAddr
  rBankValid := if busCyc s i then shows s i.iWbAddr else shows s s.rAddr
  fwdBankValid := shows s s.fwdAddr
  clocksTilIdle := nextClocksTilIdle c s
  nxtDmod := issued s i && s.rWe
  oCmd := nextCmd c s i
  oRamAddr := nextRamAddr c s i
  oRamDmod := if issued s i && s.rWe then true else s.nxtDmod
  oRamData :=
    if s.nxtDmod then s.rData.extractLsb' 0 16
    else if issued s i && s.rWe then s.rData.extractLsb' 16 16
    else 0
  oRamDqm := nextDqm s
  oWbStall := nextStall c s i
  oWbData := s.oWbData.extractLsb' 0 16 ++ i.iRamData
  maintenanceMode := s.resetActive || s.refreshActive
  maintenanceCmd :=
    if s.resetActive then s.resetController.oCmd.cmd
    else if s.refreshActive then s.refreshController.oCmd.cmd
    else cmdNoop
  maintenanceAddr :=
    if (if s.resetActive then s.resetController.oCmd.addr10 else true) then modeCommand ||| 0x400
    else modeCommand &&& 0xbff
  startupHold := s.startupIdle != 0
  startupIdle := s.startupIdle - 1
  resetController := Genuctrl.next resetProgram s.resetController s.startupHold
  refreshController :=
    Genuctrl.next (refreshProgram c.ckRemaining) s.refreshController s.resetActive

/-- At power up, as far as the source has `initial` values. -/
structure AtPowerUp : Prop where
  bankActive : s.bankActive = .both 0
  rBarrellAck : s.rBarrellAck = 0
  rPending : s.rPending = false
  rAddr : s.rAddr = 0
  nxtSel : s.nxtSel = 0b11
  fwdAddr : s.fwdAddr = 12
  fwdBankValid : s.fwdBankValid = false
  clocksTilIdle : s.clocksTilIdle = 0
  nxtDmod : s.nxtDmod = false
  oCmd : s.oCmd = cmdNoop
  oRamDmod : s.oRamDmod = false
  oRamDqm : s.oRamDqm = 0b11
  oWbStall : s.oWbStall = true
  maintenanceMode : s.maintenanceMode = true
  maintenanceCmd : s.maintenanceCmd = cmdNoop
  startupHold : s.startupHold = true
  startupIdle : s.startupIdle = c.startupIdle
  resetController : s.resetController = Genuctrl.init resetProgram
  refreshController : s.refreshController = Genuctrl.init (refreshProgram c.ckRemaining)

end Wbsdram

end ZipStormMX.Sdram
