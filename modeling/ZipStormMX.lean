import ZipStormMX.Clocked
import ZipStormMX.Cpu.Memory
import ZipStormMX.Cpu.Memops
import ZipStormMX.Cpu.Pipemem
import ZipStormMX.Cpu.Wbdblpriarb
import ZipStormMX.Cpu.Dblfetch
import ZipStormMX.Cpu.Pfcache
import ZipStormMX.Cpu.Mpyop
import ZipStormMX.Cpu.Cpuops
import ZipStormMX.Cpu.Div
import ZipStormMX.Cpu.Idecode
import ZipStormMX.Cpu.Registers
import ZipStormMX.Cpu.Wires
import ZipStormMX.Cpu.Zipcpu
import ZipStormMX.Cpu.System
import ZipStormMX.Cpu.Zipbones
import ZipStormMX.Cpu.Board
import ZipStormMX.Cpu.Stall
import ZipStormMX.Cpu.Sleeper
import ZipStormMX.Cpu.LockedBus
import ZipStormMX.Cpu.BusLock
import ZipStormMX.Cpu.Units
import ZipStormMX.Cpu.Halted
import ZipStormMX.Cpu.DebugPort
import ZipStormMX.Cpu.DebugJump
import ZipStormMX.Cpu.DebugWrite
import ZipStormMX.Cpu.Decoded
import ZipStormMX.Cpu.Stages
import ZipStormMX.Cpu.SingleStep
import ZipStormMX.Cpu.DebugStep
import ZipStormMX.Cpu.MemQueue
import ZipStormMX.Hexbus.Command
import ZipStormMX.Hexbus.Hbconsole
import ZipStormMX.Hexbus.ConsoleChannel
import ZipStormMX.Hexbus.Host
import ZipStormMX.Hexbus.Responses
import ZipStormMX.Hexbus.BusErrors
import ZipStormMX.Hexbus.Encoder
import ZipStormMX.Hexbus.RoundTrip
import ZipStormMX.Cpu.PipeOrder
import ZipStormMX.Peripheral.Icontrol
import ZipStormMX.Peripheral.Wbdmac
import ZipStormMX.Peripheral.Zipsystem
import ZipStormMX.Peripheral.LocalBus
import ZipStormMX.Cpu.Delivery
import ZipStormMX.Cpu.Pipefetch
import ZipStormMX.Cpu.FetchChoice
import ZipStormMX.Hexbus.Executive
import ZipStormMX.Hexbus.Link
import ZipStormMX.Hexbus.Listening
import ZipStormMX.Hexbus.Calls
import ZipStormMX.Hexbus.Reading
import ZipStormMX.Hexbus.ReadError
import ZipStormMX.Hexbus.Writing
import ZipStormMX.Hexbus.AddressAgreement
import ZipStormMX.Zopcodes.Line
import ZipStormMX.Zopcodes.Instruction
import ZipStormMX.Zopcodes.Word
import ZipStormMX.Hexbus.Grammar
import ZipStormMX.Peripheral.Ufifo
import ZipStormMX.Peripheral.WakeUps
import ZipStormMX.Hexbus.Transactions
import ZipStormMX.Hexbus.ResponsePath
import ZipStormMX.Cpu.DblDelivery
import ZipStormMX.Sdram.Genuctrl
import ZipStormMX.Sdram.Maintenance
import ZipStormMX.Sdram.OpenRows
import ZipStormMX.Sdram.Requests
import ZipStormMX.Cpu.PfLines
import ZipStormMX.Cpu.PfDelivery
import ZipStormMX.Zopcodes.EarlyBranch
import ZipStormMX.Cpu.MemAgreement
import ZipStormMX.Arbitration
import ZipStormMX.Cpu.Arbiters
import ZipStormMX.Cpu.Busdelay
import ZipStormMX.Peripheral.Uartlite
import ZipStormMX.Peripheral.SerialLine
import ZipStormMX.Flash.Flashdrvr
import ZipStormMX.Flash.Programming
import ZipStormMX.Flash.Sectors
import ZipStormMX.Flash.Stored
import ZipStormMX.Cpu.Conditions
import ZipStormMX.Hexbus.IdleCharacters
import ZipStormMX.Hexbus.Interrupts
import ZipStormMX.Peripheral.UfifoStatus
import ZipStormMX.RunLength
import ZipStormMX.Scope.Wbscopc
import ZipStormMX.Zlib.Udiv
import ZipStormMX.Zlib.Division
import ZipStormMX.Cpu.Quotient
import ZipStormMX.Cpu.SlowProduct
import ZipStormMX.Cpu.Products
import ZipStormMX.Sdram.Schedule
import ZipStormMX.Peripheral.Transfer
import ZipStormMX.Peripheral.Copying
import ZipStormMX.Sdram.Phases
import ZipStormMX.Sdram.Timing
import ZipStormMX.Sdcard.Llsdspi
import ZipStormMX.Sdcard.Sdspi
import ZipStormMX.Sdcard.Blocks
import ZipStormMX.Sdcard.Outgoing
import ZipStormMX.Sdcard.ReadBack
import ZipStormMX.Sdcard.Errors
import ZipStormMX.Sdcard.Startup
import ZipStormMX.Sdcard.Exchange
import ZipStormMX.Flash.Verification
import ZipStormMX.Zlib.Crt0
import ZipStormMX.Scope.Capture
import ZipStormMX.Crc
import ZipStormMX.Sdcard.Pace
import ZipStormMX.Sdcard.Engines
import ZipStormMX.Sdcard.CommandCrc
import ZipStormMX.Sdcard.BlockCrc
import ZipStormMX.Sdcard.Answer
import ZipStormMX.Sdcard.Packet
import ZipStormMX.Sdcard.PacketOut
import ZipStormMX.Bus.Interconnect
import ZipStormMX.Cpu.BlockRam
import ZipStormMX.Flash.SerialRead
import ZipStormMX.Scope.Readout
import ZipStormMX.Scope.Scopecls
import ZipStormMX.Sdram.Chip
import ZipStormMX.Cpu.Completion
import ZipStormMX.Cpu.Execution
import ZipStormMX.Cpu.Progress
