/-
  `sdspi.v`: the controller of the SD card.

  A word written to the command register starts a command: the state machine hands its bytes to the
  shifter, waits for the card's response, and then moves a block between the card and one of two
  FIFOs.  The bus reads and writes these by the word, at an address that a command write clears, and
  the card's side goes through them by the byte.  Each of them is four memories of bytes, one for each
  byte of a word.

  The two FIFOs have the same registers (`SdFifo`), and the same blocks write them.
-/
import ZipStormMX.Sdcard.Llsdspi

namespace ZipStormMX.Sdcard

/-- The parameters.  The block limit has `LGFIFOLN` bits, and so at least one. -/
structure SdspiCfg extends LlCfg where
  lgfifoln : ℕ
  lgfifoln_pos : 0 < lgfifoln
  ckdivBits : ℕ
  initialClkdiv : BitVec 7

/-- The Wishbone side and the wires from the card. -/
structure SdspiIn where
  iWbStb : Bool
  iWbWe : Bool
  iWbAddr : BitVec 2
  iWbData : BitVec 32
  iMiso : Bool
  iBusGrant : Bool

/-! ## Addresses and states -/

def cmdAddress : BitVec 2 := 0
def datAddress : BitVec 2 := 1

/-- The address of a FIFO: the second one is FIFO B. -/
def fifoAddress (f : Bool) : BitVec 2 := bif f then 3 else 2

def expectR1 : BitVec 2 := 0b00
def expectR1b : BitVec 2 := 0b01

def rspNone : BitVec 3 := 0
def rspBsywait : BitVec 3 := 1
def rspGetword : BitVec 3 := 2
def rspGettoken : BitVec 3 := 4
def rspWaitWhileBusy : BitVec 3 := 5
def rspRdcomplete : BitVec 3 := 6
def rspWriting : BitVec 3 := 7

/-! ## A FIFO -/

scoped instance neZeroFour : NeZero 4 := ⟨by decide⟩

/-- The four memories of a FIFO, what their ports have read, and the write on its way to them. -/
structure SdFifo (lg : ℕ) where
  mem : Fin 4 → BitVec lg → BitVec 8
  reg : BitVec 32
  byte : BitVec 8
  preWr : Bool
  wr : Bool
  wrMask : BitVec 4
  wrAddr : BitVec lg
  wrData : BitVec 32

/-- Byte `k` of a word, from the right. -/
def lane (w : BitVec 32) (k : Fin 4) : BitVec 8 := w.extractLsb' (8 * k.val) 8

namespace SdFifo

variable {lg : ℕ} (m : SdFifo lg)

/-- What the memories hold on the next clock. -/
def nextMem (k : Fin 4) (a : BitVec lg) : BitVec 8 :=
  if m.wr && m.wrMask.getLsbD k && m.wrAddr == a then lane m.wrData k else m.mem k a

/-- The word that the bus reads: the first memory is on the left. -/
def word (a : BitVec lg) : BitVec 32 := m.mem 0 a ++ (m.mem 1 a ++ (m.mem 2 a ++ m.mem 3 a))

end SdFifo

/-- The part of an address of the card's side that finds the word. -/
def wordPart {lg : ℕ} (a : BitVec (lg + 2)) : BitVec lg := a.extractLsb' 2 lg

/-- The part that finds the memory. -/
def lanePart {lg : ℕ} (a : BitVec (lg + 2)) : Fin 4 := (a.extractLsb' 0 2).toFin

/-! ## The controller -/

structure Sdspi (lg : ℕ) where
  rWbStb : Bool
  rWriteStb : Bool
  rCmdStb : Bool
  rNewData : Bool
  rWbAddr : BitVec 2
  rWbData : BitVec 32
  oWbAck : Bool
  oWbData : BitVec 32
  rCmdBusy : Bool
  llCmdStb : Bool
  llCmdDat : BitVec 8
  preCmdState : Bool
  rCmdCrcStb : Bool
  rCmdState : BitVec 3
  rCmdSent : Bool
  rCmdResp : BitVec 2
  rCmdErr : Bool
  rUseFifo : Bool
  rFifoWr : Bool
  rFifoId : Bool
  rHaveResp : Bool
  rRspState : BitVec 3
  secondRspState : BitVec 3
  preRspState : Bool
  nonzeroOut : Bool
  rLastROne : BitVec 8
  rDataReg : BitVec 32
  rDataFil : BitVec 2
  readyForResponseToken : Bool
  rHaveDataResponseToken : Bool
  rDataResponseToken : BitVec 2
  rReadErrToken : BitVec 4
  rErrToken : Bool
  llFifoRd : Bool
  llFifoWr : Bool
  llFifoAddr : BitVec (lg + 2)
  preFifoAddrIncRd : Bool
  preFifoAddrIncWr : Bool
  rHaveStartToken : Bool
  lastFifoByte : Bool
  llFifoWrState : BitVec 2
  llFifoWrComplete : Bool
  preFifoCrcA : Bool
  preFifoCrcB : Bool
  clearFifoCrc : Bool
  fifoCrcErr : Bool
  llFifoPktState : BitVec 3
  llFifoRdComplete : Bool
  fifoByte : BitVec 8
  fifoWbAddr : BitVec lg
  fifoA : SdFifo lg
  fifoB : SdFifo lg
  rSdspiClk : BitVec 7
  rLgblklen : BitVec 4
  rBlklimit : BitVec lg
  fifoRdCrcStb : Bool
  fifoRdCrcCount : BitVec 4
  fifoRdCrcReg : BitVec 16
  fifoWrCrcStb : Bool
  fifoWrCrcCount : BitVec 4
  fifoWrCrcReg : BitVec 16
  rCmdCrc : BitVec 8
  rCmdCrcCnt : BitVec 4
  rCmdCrcFf : Bool
  rWatchdog : BitVec 26
  rWatchdogErr : Bool
  qBusy : Bool
  oInt : Bool
  lowlevel : Llsdspi

namespace Sdspi

variable (c : SdspiCfg) (s : Sdspi c.lgfifoln) (i : SdspiIn)

def fifo (f : Bool) : SdFifo c.lgfifoln := bif f then s.fifoB else s.fifoA

/-! ### Wires -/

/-- What the shifter sees. -/
def llIn : LlIn where
  iSpeed := s.rSdspiClk
  iCs := s.rCmdBusy
  iStb := s.llCmdStb
  iByte := s.llCmdDat
  iMiso := i.iMiso
  iBusGrant := i.iBusGrant

def llIdle : Bool := Llsdspi.oIdle c.toLlCfg s.lowlevel (llIn c s i)

def llOutStb : Bool := s.lowlevel.oStb

def llOutDat : BitVec 8 := s.lowlevel.oByte

/-- The shifter takes a byte. -/
def taken : Bool := s.llCmdStb && llIdle c s i

def newCmd : Bool := s.rCmdStb

/-- A command that is carried out: the controller is free, and the byte is a command. -/
def starts : Bool :=
  !s.preCmdState && !s.rCmdBusy && newCmd c s && s.rWbData.extractLsb' 6 2 == 0b01

def cmdCrc : BitVec 8 := s.rCmdCrc.extractLsb' 1 7 ++ 1#1

def maxLgblklen : BitVec 4 := BitVec.ofNat 4 c.lgfifoln

def wBlklimit : BitVec (c.lgfifoln + 2) := s.rBlklimit ++ 0b11#2

/-- The card's first response, with its top bit low. -/
def firstResponse : Bool :=
  s.preCmdState && s.preRspState && s.rRspState == rspNone && !(llOutDat c s).getLsbD 7

/-- The state machine sees a response in state `r`. -/
def responds (r : BitVec 3) : Bool := s.preCmdState && s.preRspState && s.rRspState == r

/-- The block from the card is complete, or the card has sent an error instead. -/
def writingDone : Bool := responds c s rspWriting && (s.llFifoWrComplete || s.rReadErrToken.getLsbD 0)

/-- A byte of a block from the card, or one in front of its start token. -/
def cardByte (f : Bool) : Bool :=
  s.llFifoWr && llOutStb c s && s.rFifoId == f && s.llFifoWrState == 0b00

/-! ### The command state machine -/

def nextHaveResp : Bool :=
  if firstResponse c s && s.rCmdResp == expectR1 then true
  else if responds c s rspBsywait && s.nonzeroOut then true
  else if !s.llCmdStb then false
  else s.rHaveResp

def nextLlFifoWr : Bool :=
  if firstResponse c s && s.rCmdResp == expectR1 then s.rUseFifo && !s.rFifoWr
  else if writingDone c s then false
  else if !s.llCmdStb then false
  else s.llFifoWr

def nextLlFifoRd : Bool :=
  if s.preCmdState && s.rCmdState == 5 && s.rHaveResp then s.rUseFifo && s.rFifoWr
  else if s.preCmdState && s.rCmdState == 6 && s.llFifoRdComplete then false
  else if !s.llCmdStb then false
  else s.llFifoRd

def nextCmdState : BitVec 3 :=
  if s.preCmdState && s.rCmdState < 5 then s.rCmdState + 1
  else if s.preCmdState && s.rCmdState == 5 && s.rHaveResp then if s.rUseFifo then 6 else 7
  else if s.preCmdState && s.rCmdState == 6 && s.llFifoRdComplete then 7
  else if !s.llCmdStb then 0
  else s.rCmdState

def nextUseFifo : Bool :=
  if starts c s then s.rWbData.getLsbD 11 else if !s.llCmdStb then false else s.rUseFifo

def nextCmdResp : BitVec 2 :=
  if starts c s then s.rWbData.extractLsb' 8 2 else if !s.llCmdStb then expectR1 else s.rCmdResp

def nextLlCmdDat : BitVec 8 :=
  if s.preCmdState then
    match s.rCmdState.toNat with
    | 0 => s.rDataReg.extractLsb' 24 8
    | 1 => s.rDataReg.extractLsb' 16 8
    | 2 => s.rDataReg.extractLsb' 8 8
    | 3 => s.rDataReg.extractLsb' 0 8
    | 4 => cmdCrc c s
    | 5 => if s.rHaveResp && s.rUseFifo && s.rFifoWr then 0xfe else 0xff
    | 6 => if !s.llFifoRdComplete && s.llFifoRd then s.fifoByte else 0xff
    | _ => 0xff
  else if !s.rCmdBusy && newCmd c s then s.rWbData.extractLsb' 0 8
  else s.llCmdDat

def nextLlCmdStb : Bool :=
  if s.preCmdState then
    if s.rWatchdogErr then false
    else if firstResponse c s && s.rCmdResp == expectR1 then s.rUseFifo
    else if responds c s rspBsywait then s.rUseFifo
    else if responds c s rspGetword && s.rDataFil == 0b11 then s.rUseFifo
    else if responds c s rspRdcomplete then false
    else if writingDone c s then false
    else s.llCmdStb
  else if starts c s then true
  else s.llCmdStb

def nextDataReg : BitVec 32 :=
  if s.preCmdState then
    if s.rUseFifo && llOutStb c s then
      0x3ffffff#26 ++ (s.rDataResponseToken ++ s.rReadErrToken)
    else if firstResponse c s && (s.rCmdResp == expectR1 || s.rCmdResp == expectR1b) then
      BitVec.allOnes 32
    else if responds c s rspGetword then s.rDataReg.extractLsb' 0 24 ++ llOutDat c s
    else s.rDataReg
  else if s.rCmdBusy then s.rDataReg
  else if newCmd c s then
    if s.rWbData.extractLsb' 6 2 != 0b01 && s.rWbData.getLsbD 7 then
      0#8 ++ (0#4 ++ (maxLgblklen c ++ (0#4 ++ (s.rLgblklen ++ (0#1 ++ s.rSdspiClk)))))
    else s.rDataReg
  else if s.rNewData then s.rWbData
  else s.rDataReg

def nextCmdErr : Bool :=
  if s.preCmdState then s.rCmdErr || s.fifoCrcErr || s.rWatchdogErr || s.rErrToken
  else if !s.rCmdBusy && newCmd c s then s.rCmdErr && !s.rWbData.getLsbD 15
  else s.rCmdErr

def nextCmdBusy : Bool :=
  if !s.preCmdState && s.rCmdBusy then s.llCmdStb || !llIdle c s i
  else if starts c s then true
  else s.rCmdBusy

def nextRspState : BitVec 3 :=
  if !s.rCmdSent then rspNone
  else if s.preRspState then
    if s.rRspState == rspNone && !(llOutDat c s).getLsbD 7 then s.secondRspState
    else if s.rRspState == rspBsywait then if s.nonzeroOut then rspRdcomplete else rspBsywait
    else if s.rRspState == rspGetword then if s.rDataFil == 0b11 then rspRdcomplete else rspGetword
    else if s.rRspState == rspGettoken then
      if s.rHaveDataResponseToken then rspWaitWhileBusy else rspGettoken
    else if s.rRspState == rspWaitWhileBusy then
      if s.nonzeroOut then rspRdcomplete else rspWaitWhileBusy
    else s.rRspState
  else s.rRspState

def nextErrToken : Bool :=
  if s.llFifoRd then s.rErrToken || s.rReadErrToken.getLsbD 0
  else if s.llFifoWr then
    s.rErrToken || (s.rDataResponseToken != 0 && s.rDataResponseToken.getLsbD 1)
  else if s.rCmdStb then s.rErrToken && !i.iWbData.getLsbD 16 && !i.iWbData.getLsbD 15
  else s.rErrToken

/-- The length of a block and the speed of the wires, as the data register has them. -/
def configures : Bool :=
  newCmd c s && s.rWbData.extractLsb' 6 2 == 0b11 && !s.rDataReg.getLsbD 7 &&
    s.rDataReg.extractLsb' 12 4 == 0

def nextLgblklen : BitVec 4 :=
  if maxLgblklen c < s.rLgblklen then maxLgblklen c
  else if configures c s && s.rDataReg.extractLsb' 8 4 != 0 then s.rDataReg.extractLsb' 8 4
  else s.rLgblklen

/-! ### The FIFOs -/

/-- A write to a FIFO, over the bus. -/
def busWrite (f : Bool) : Bool := s.rWriteStb && s.rWbAddr == fifoAddress f

/-- The write port and the memories of a FIFO. -/
def nextFifo (f : Bool) : SdFifo c.lgfifoln :=
  let m := fifo c s f
  { mem := m.nextMem
    reg := m.word s.fifoWbAddr
    byte := m.mem (lanePart s.llFifoAddr) (wordPart s.llFifoAddr)
    preWr := cardByte c s f
    wr := busWrite c s f || m.preWr
    wrMask :=
      if busWrite c s f then 0b1111
      else if m.preWr then BitVec.twoPow 4 (lanePart s.llFifoAddr) else m.wrMask
    wrAddr :=
      if busWrite c s f then s.fifoWbAddr
      else if m.preWr then wordPart s.llFifoAddr else m.wrAddr
    wrData :=
      if busWrite c s f then s.rWbData
      else llOutDat c s ++ (llOutDat c s ++ (llOutDat c s ++ llOutDat c s)) }

def nextFifoWbAddr : BitVec c.lgfifoln :=
  if s.rWriteStb && s.rWbAddr == cmdAddress then 0
  else if s.rWbStb && s.rWbAddr.getLsbD 1 then s.fifoWbAddr + 1
  else s.fifoWbAddr

def nextLlFifoAddr : BitVec (c.lgfifoln + 2) :=
  if !s.rCmdBusy then 0
  else if s.preFifoAddrIncWr || s.preFifoAddrIncRd then s.llFifoAddr + 1
  else s.llFifoAddr

def nextWrState : BitVec 2 :=
  if s.preFifoCrcA || s.preFifoCrcB then s.llFifoWrState + 1
  else if !s.rCmdBusy then 0b00
  else if s.fifoA.preWr || s.fifoB.preWr then if s.lastFifoByte then 0b01 else 0b00
  else s.llFifoWrState

def nextFifoCrcErr : Bool :=
  let first := s.preFifoCrcA && s.fifoWrCrcReg.extractLsb' 8 8 != llOutDat c s
  if s.preFifoCrcB then s.fifoCrcErr || s.fifoWrCrcReg.extractLsb' 0 8 != llOutDat c s
  else if s.clearFifoCrc then false
  else s.fifoCrcErr || first

/-- The shifter takes a byte of the block. -/
def takenFromFifo : Bool := s.llFifoRd && taken c s i

/-- The registers that put a block into a packet: `{ ll_fifo_pkt_state, ll_fifo_rd_complete,
    fifo_byte, fifo_rd_crc_stb }`. -/
def nextPacket : BitVec 3 × Bool × BitVec 8 × Bool :=
  if s.rCmdBusy then
    match s.llFifoPktState.toNat with
    | 0 =>
      (if takenFromFifo c s i then 1 else 0, s.llFifoRdComplete, s.fifoByte, false)
    | 1 =>
      if takenFromFifo c s i then
        (2, s.llFifoRdComplete, (fifo c s s.rFifoId).byte, true)
      else (1, s.llFifoRdComplete, s.fifoByte, false)
    | 2 =>
      (if s.llFifoAddr == 0 then 3 else 2, s.llFifoRdComplete,
        if takenFromFifo c s i then (fifo c s s.rFifoId).byte else s.fifoByte,
        takenFromFifo c s i)
    | 3 =>
      if takenFromFifo c s i then
        (4, s.llFifoRdComplete, s.fifoRdCrcReg.extractLsb' 8 8, false)
      else (3, s.llFifoRdComplete, s.fifoByte, false)
    | 4 =>
      if takenFromFifo c s i then
        (5, s.llFifoRdComplete, s.fifoRdCrcReg.extractLsb' 0 8, false)
      else (4, s.llFifoRdComplete, s.fifoByte, false)
    | _ =>
      if takenFromFifo c s i then (s.llFifoPktState, true, 0xff, false)
      else (s.llFifoPktState, s.llFifoRdComplete, s.fifoByte, false)
  else if s.rWriteStb && s.rWbAddr == cmdAddress then
    (0, false, (fifo c s (s.rWbData.getLsbD 12)).byte, true)
  else (7, true, s.fifoByte, false)

/-- A step of the CRC of a block. -/
def crcStep (r : BitVec 16) : BitVec 16 :=
  if r.getLsbD 15 then (r.extractLsb' 0 15 ++ 0#1) ^^^ 0x1021 else r.extractLsb' 0 15 ++ 0#1

/-- A byte enters the CRC of a block. -/
def crcEnter (r : BitVec 16) (b : BitVec 8) : BitVec 16 :=
  (r.extractLsb' 8 8 ^^^ b) ++ r.extractLsb' 0 8

def crcStepCmd (r : BitVec 8) : BitVec 8 :=
  if r.getLsbD 7 then (r.extractLsb' 0 7 ++ 0#1) ^^^ 0x12 else r.extractLsb' 0 7 ++ 0#1

/-- What the bus reads. -/
def nextWbData : BitVec 32 :=
  if s.rWbAddr == cmdAddress then
    0#14 ++ (BitVec.ofBool s.rErrToken ++ (BitVec.ofBool s.fifoCrcErr ++
      (BitVec.ofBool s.rCmdErr ++ (BitVec.ofBool s.rCmdBusy ++ (0#1 ++
      (BitVec.ofBool s.rFifoId ++ (BitVec.ofBool s.rUseFifo ++ (BitVec.ofBool s.rFifoWr ++
      (s.rCmdResp ++ s.rLastROne)))))))))
  else if s.rWbAddr == datAddress then s.rDataReg
  else (fifo c s (s.rWbAddr.getLsbD 0)).reg

@[simps]
def next : Sdspi c.lgfifoln where
  rWbStb := i.iWbStb
  rWriteStb := i.iWbStb && i.iWbWe
  rCmdStb := !s.rCmdBusy && i.iWbStb && i.iWbWe && i.iWbAddr == cmdAddress
  rNewData := i.iWbStb && i.iWbWe && i.iWbAddr == datAddress
  rWbAddr := i.iWbAddr
  rWbData := i.iWbData
  oWbAck := s.rWbStb
  oWbData := nextWbData c s
  rCmdBusy := nextCmdBusy c s i
  llCmdStb := nextLlCmdStb c s
  llCmdDat := nextLlCmdDat c s
  preCmdState := taken c s i
  rCmdCrcStb := (s.preCmdState && s.rCmdState < 4) || starts c s
  rCmdState := nextCmdState c s
  rCmdSent := s.llCmdStb && 5 ≤ s.rCmdState
  rCmdResp := nextCmdResp c s
  rCmdErr := nextCmdErr c s
  rUseFifo := nextUseFifo c s
  rFifoWr := if starts c s then s.rWbData.getLsbD 10 else s.rFifoWr
  rFifoId :=
    if !s.preCmdState && !s.rCmdBusy && newCmd c s then s.rWbData.getLsbD 12 else s.rFifoId
  rHaveResp := nextHaveResp c s
  rRspState := nextRspState c s
  secondRspState :=
    if s.rCmdResp == expectR1 then if s.rUseFifo && s.rFifoWr then rspGettoken else rspWriting
    else if s.rCmdResp == expectR1b then rspBsywait
    else rspGetword
  preRspState := llOutStb c s && s.rCmdSent
  nonzeroOut := if llOutStb c s then llOutDat c s != 0 else s.nonzeroOut
  rLastROne := if firstResponse c s then llOutDat c s else s.rLastROne
  rDataReg := nextDataReg c s
  rDataFil :=
    if responds c s rspGetword then s.rDataFil + 1 else if !s.llCmdStb then 0 else s.rDataFil
  readyForResponseToken := s.rCmdBusy && (s.llFifoRd || s.readyForResponseToken)
  rHaveDataResponseToken :=
    s.rCmdBusy && ((llOutStb c s && s.readyForResponseToken && !(llOutDat c s).getLsbD 4) ||
      s.rHaveDataResponseToken)
  rDataResponseToken :=
    if !s.rCmdBusy then 0
    else if s.readyForResponseToken && !(llOutDat c s).getLsbD 4 && (llOutDat c s).getLsbD 0 then
      (llOutDat c s).extractLsb' 2 2
    else s.rDataResponseToken
  rReadErrToken :=
    if !s.rCmdBusy then 0
    else if s.llFifoWr && llOutStb c s && !s.rHaveStartToken &&
        (llOutDat c s).extractLsb' 4 4 == 0 then (llOutDat c s).extractLsb' 0 4
    else s.rReadErrToken
  rErrToken := nextErrToken c s i
  llFifoRd := nextLlFifoRd c s
  llFifoWr := nextLlFifoWr c s
  llFifoAddr := nextLlFifoAddr c s
  preFifoAddrIncRd := takenFromFifo c s i
  preFifoAddrIncWr := s.llFifoWr && llOutStb c s && s.rHaveStartToken
  rHaveStartToken :=
    s.rCmdBusy && ((s.llFifoWr && llOutStb c s && llOutDat c s == 0xfe) || s.rHaveStartToken)
  lastFifoByte := s.llFifoWr && s.llFifoAddr == wBlklimit c s
  llFifoWrState := nextWrState c s
  llFifoWrComplete := s.preFifoCrcB || (s.rCmdBusy && s.llFifoWrComplete)
  preFifoCrcA := s.llFifoWr && llOutStb c s && s.llFifoWrState == 0b01
  preFifoCrcB := s.llFifoWr && llOutStb c s && s.llFifoWrState == 0b10
  clearFifoCrc := newCmd c s && s.rWbData.getLsbD 15
  fifoCrcErr := nextFifoCrcErr c s
  llFifoPktState := (nextPacket c s i).1
  llFifoRdComplete := (nextPacket c s i).2.1
  fifoByte := (nextPacket c s i).2.2.1
  fifoWbAddr := nextFifoWbAddr c s
  fifoA := nextFifo c s false
  fifoB := nextFifo c s true
  rSdspiClk :=
    if configures c s then BitVec.ofNat 7 (s.rDataReg.toNat % 2 ^ c.ckdivBits) else s.rSdspiClk
  rLgblklen := nextLgblklen c s
  rBlklimit := BitVec.ofNat c.lgfifoln (2 ^ s.rLgblklen.toNat - 1)
  fifoRdCrcStb := (nextPacket c s i).2.2.2
  fifoRdCrcCount :=
    if !s.rCmdBusy then 0
    else if s.fifoRdCrcStb then 8
    else if s.fifoRdCrcCount != 0 then s.fifoRdCrcCount - 1
    else s.fifoRdCrcCount
  fifoRdCrcReg :=
    if !s.rCmdBusy then 0
    else if s.fifoRdCrcStb then crcEnter s.fifoRdCrcReg s.fifoByte
    else if s.fifoRdCrcCount != 0 then crcStep s.fifoRdCrcReg
    else s.fifoRdCrcReg
  fifoWrCrcStb := s.llFifoWr && llOutStb c s && s.llFifoWrState == 0b00 && s.rHaveStartToken
  fifoWrCrcCount :=
    if !s.llFifoWr then s.fifoWrCrcCount
    else if s.fifoWrCrcStb then 8
    else if s.fifoWrCrcCount != 0 then s.fifoWrCrcCount - 1
    else s.fifoWrCrcCount
  fifoWrCrcReg :=
    if !s.llFifoWr then 0
    else if s.fifoWrCrcStb then crcEnter s.fifoWrCrcReg (llOutDat c s)
    else if s.fifoWrCrcCount != 0 then crcStep s.fifoWrCrcReg
    else s.fifoWrCrcReg
  rCmdCrc :=
    if !s.rCmdBusy then 0
    else if !s.rCmdCrcCnt.getLsbD 3 then crcStepCmd s.rCmdCrc
    else if s.rCmdCrcStb || s.rCmdCrcFf then s.rCmdCrc ^^^ s.llCmdDat
    else s.rCmdCrc
  rCmdCrcCnt :=
    if !s.rCmdBusy then 0xf
    else if !s.rCmdCrcCnt.getLsbD 3 then s.rCmdCrcCnt - 1
    else if s.rCmdCrcStb || s.rCmdCrcFf then 7
    else s.rCmdCrcCnt
  rCmdCrcFf :=
    if !s.rCmdBusy then false
    else if !s.rCmdCrcCnt.getLsbD 3 then s.rCmdCrcFf || s.rCmdCrcStb
    else if s.rCmdCrcStb || s.rCmdCrcFf then false
    else s.rCmdCrcFf
  rWatchdog :=
    if !s.rCmdBusy then 0x3fffff else if s.rWatchdog != 0 then s.rWatchdog - 1 else s.rWatchdog
  rWatchdogErr := s.rCmdBusy && (s.rWatchdog == 0 || s.rWatchdogErr)
  qBusy := s.rCmdBusy
  oInt := !s.rCmdBusy && s.qBusy
  lowlevel := Llsdspi.next c.toLlCfg s.lowlevel (llIn c s i)

/-- At power up, as far as the source has `initial` values. -/
structure AtPowerUp : Prop where
  rCmdBusy : s.rCmdBusy = false
  rDataReg : s.rDataReg = 0
  rLastROne : s.rLastROne = 0xff
  llCmdStb : s.llCmdStb = false
  llFifoRd : s.llFifoRd = false
  llFifoWr : s.llFifoWr = false
  rRspState : s.rRspState = 0
  rCmdState : s.rCmdState = 0
  rUseFifo : s.rUseFifo = false
  rDataFil : s.rDataFil = 0
  rLgblklen : s.rLgblklen = maxLgblklen c
  rCmdErr : s.rCmdErr = false
  rSdspiClk : s.rSdspiClk = c.initialClkdiv
  qBusy : s.qBusy = true
  preFifoAddrIncRd : s.preFifoAddrIncRd = false
  preFifoAddrIncWr : s.preFifoAddrIncWr = false
  rErrToken : s.rErrToken = false
  lastFifoByte : s.lastFifoByte = false
  fifoCrcErr : s.fifoCrcErr = false
  rCmdCrcFf : s.rCmdCrcFf = false
  rWatchdog : s.rWatchdog = 0x3ffffff
  rWatchdogErr : s.rWatchdogErr = false
  lowlevel : Llsdspi.AtPowerUp c.toLlCfg s.lowlevel

/-- A state to start from: what the source leaves open is low. -/
def poweredUp (c : SdspiCfg) : Sdspi c.lgfifoln where
  rWbStb := false
  rWriteStb := false
  rCmdStb := false
  rNewData := false
  rWbAddr := 0
  rWbData := 0
  oWbAck := false
  oWbData := 0
  rCmdBusy := false
  llCmdStb := false
  llCmdDat := 0
  preCmdState := false
  rCmdCrcStb := false
  rCmdState := 0
  rCmdSent := false
  rCmdResp := 0
  rCmdErr := false
  rUseFifo := false
  rFifoWr := false
  rFifoId := false
  rHaveResp := false
  rRspState := 0
  secondRspState := 0
  preRspState := false
  nonzeroOut := false
  rLastROne := 0xff
  rDataReg := 0
  rDataFil := 0
  readyForResponseToken := false
  rHaveDataResponseToken := false
  rDataResponseToken := 0
  rReadErrToken := 0
  rErrToken := false
  llFifoRd := false
  llFifoWr := false
  llFifoAddr := 0
  preFifoAddrIncRd := false
  preFifoAddrIncWr := false
  rHaveStartToken := false
  lastFifoByte := false
  llFifoWrState := 0
  llFifoWrComplete := false
  preFifoCrcA := false
  preFifoCrcB := false
  clearFifoCrc := false
  fifoCrcErr := false
  llFifoPktState := 0
  llFifoRdComplete := false
  fifoByte := 0
  fifoWbAddr := 0
  fifoA := ⟨fun _ _ => 0, 0, 0, false, false, 0, 0, 0⟩
  fifoB := ⟨fun _ _ => 0, 0, 0, false, false, 0, 0, 0⟩
  rSdspiClk := c.initialClkdiv
  rLgblklen := maxLgblklen c
  rBlklimit := 0
  fifoRdCrcStb := false
  fifoRdCrcCount := 0
  fifoRdCrcReg := 0
  fifoWrCrcStb := false
  fifoWrCrcCount := 0
  fifoWrCrcReg := 0
  rCmdCrc := 0
  rCmdCrcCnt := 0
  rCmdCrcFf := false
  rWatchdog := 0x3ffffff
  rWatchdogErr := false
  qBusy := true
  oInt := false
  lowlevel := Llsdspi.poweredUp c.toLlCfg

theorem atPowerUp_poweredUp (c : SdspiCfg) : AtPowerUp c (poweredUp c) := by
  refine ⟨rfl, rfl, rfl, rfl, rfl, rfl, rfl, rfl, rfl, rfl, rfl, rfl, rfl, rfl, rfl, rfl, rfl, rfl,
    rfl, rfl, rfl, rfl, ?_⟩
  exact Llsdspi.atPowerUp_poweredUp c.toLlCfg

end Sdspi

end ZipStormMX.Sdcard
