import Tauos.Amd64.Ports
import Tauos.Rust.Fields

/-!
# The UART

`kernel/src/out/uart.rs`: the driver of a serial port. `UartPort::new` finds out which chip it has,
and gives every register a mask of the bits that this chip has. All later accesses go through these
masks, so that a client may treat every chip like the largest one.

The port at offset 0 and the one at offset 1 are two registers each, by the divisor latch access
bit of the line control register. A `UartCall` is one thing that a client can do with a port.
-/

namespace Tauos.Out

open Tauos.Rust Tauos.X86 Tauos.Amd64

/-- The base port of the first serial line. -/
def COM1 : Nat := 0x3f8

/-- Transmitter holding buffer. -/
def THBR_OFFSET : Nat := 0
/-- Receiver buffer. -/
def RBR_OFFSET : Nat := 0
/-- Divisor latch, low byte. -/
def DLL_OFFSET : Nat := 0
/-- Interrupt enable. -/
def IER_OFFSET : Nat := 1
/-- Divisor latch, high byte. -/
def DLH_OFFSET : Nat := 1
/-- Interrupt identification. -/
def IIR_OFFSET : Nat := 2
/-- FIFO control. -/
def FCR_OFFSET : Nat := 2
/-- Line control. -/
def LCR_OFFSET : Nat := 3
/-- Modem control. -/
def MCR_OFFSET : Nat := 4
/-- Line status. -/
def LSR_OFFSET : Nat := 5
/-- Modem status. -/
def MSR_OFFSET : Nat := 6
/-- Scratch. -/
def SCR_OFFSET : Nat := 7

/-- `UartChipVersion`. -/
inductive UartChipVersion
  | V8250
  | V16450
  | V16550
  | V16550A
  | V16750
  deriving DecidableEq, Repr

/-- The discriminant, which is what versions are compared by. -/
def UartChipVersion.discriminant : UartChipVersion → Nat
  | V8250 => 8250
  | V16450 => 16450
  | V16550 => 16550
  | V16550A => 16551
  | V16750 => 16750

instance : LE UartChipVersion := ⟨fun v w => v.discriminant ≤ w.discriminant⟩

instance (v w : UartChipVersion) : Decidable (v ≤ w) :=
  inferInstanceAs (Decidable (v.discriminant ≤ w.discriminant))

/-- `BaudRate`. -/
inductive BaudRate
  | BR50 | BR110 | BR220 | BR300 | BR600 | BR1200 | BR2400 | BR4800 | BR9600 | BR19200 | BR38400
  | BR57600 | BR115200
  deriving DecidableEq, Repr

/-- `baud_rate as u32`. -/
def BaudRate.discriminant : BaudRate → Nat
  | BR50 => 50
  | BR110 => 110
  | BR220 => 220
  | BR300 => 300
  | BR600 => 600
  | BR1200 => 1200
  | BR2400 => 2400
  | BR4800 => 4800
  | BR9600 => 9600
  | BR19200 => 19200
  | BR38400 => 38400
  | BR57600 => 57600
  | BR115200 => 115200

/-! ## Flags

The flags of each register that the driver uses, and all that are declared. -/

namespace IER
def ENABLE_SLEEP_MODE : BitVec 8 := 1 <<< 4
def ENABLE_LOW_POWER_MODE : BitVec 8 := 1 <<< 5
def all : BitVec 8 := 0b111111
end IER

namespace IIR
def FIFO_64_BYTES_ENABLED : BitVec 8 := 0b00100000
def all : BitVec 8 := 0b11101111
end IIR

namespace FCR
def ENABLE_FIFOS : BitVec 8 := 1 <<< 0
def CLEAR_RECEIVE_FIFO : BitVec 8 := 1 <<< 1
def CLEAR_TRANSMIT_FIFO : BitVec 8 := 1 <<< 2
def ENABLE_64_BYTE_FIFO : BitVec 8 := 1 <<< 5
def INTERRUPT_TRIGGER_LEVEL_8_32 : BitVec 8 := 0b10000000
def all : BitVec 8 := 0b11100111
end FCR

namespace LCR
def WORD_LENGTH_8_BITS : BitVec 8 := 0b00000011
def NO_PARITY : BitVec 8 := 0b00000000
def DIVISOR_LATCH_ACCESS_BIT : BitVec 8 := 1 <<< 7
def all : BitVec 8 := 0b11111111
end LCR

namespace MCR
def DATA_TERMINAL_READY : BitVec 8 := 1 <<< 0
def REQUEST_TO_SEND : BitVec 8 := 1 <<< 1
def AUXILLARY_OUTPUT_1 : BitVec 8 := 1 <<< 2
def AUXILLARY_OUTPUT_2 : BitVec 8 := 1 <<< 3
def LOOPBACK_ENABLED : BitVec 8 := 1 <<< 4
def AUTOFLOW_CONTROL_ENABLED : BitVec 8 := 1 <<< 5
def all : BitVec 8 := 0b111111
end MCR

namespace LSR
def DATA_READY : BitVec 8 := 1 <<< 0
def EMPTY_TRANSMITTER_HOLDING_REGISTER : BitVec 8 := 1 <<< 5
def all : BitVec 8 := 0b11111111
end LSR

namespace MSR
def all : BitVec 8 := 0b11111111
end MSR

/-- `contains` of a set of flags. -/
def containsFlags (flags f : BitVec 8) : Bool := flags &&& f == f

theorem containsFlags_or (flags f : BitVec 8) : containsFlags (flags ||| f) f = true := by
  unfold containsFlags
  rw [or_eq, and_mask_self BitVec.and_self]
  exact beq_self_eq_true f

/-! ## The driver -/

/-- `port + OFFSET`, on `u16`. -/
def portAdd (port offset : Nat) : Except Fault Nat :=
  if port + offset < 2 ^ 16 then .ok (port + offset) else .error .overflow

section Driver

variable {σ : Type} [Device σ]

/-- `identify_uart`. -/
def identifyUart (port : Nat) : PortM σ UartChipVersion := do
  out8 (← lift (portAdd port FCR_OFFSET)) 0xE7
  let iir ← in8 (← lift (portAdd port IIR_OFFSET))
  if iir &&& (1 : BitVec 8) <<< 6 ≠ 0 then
    if iir &&& (1 : BitVec 8) <<< 7 ≠ 0 then
      if iir &&& (1 : BitVec 8) <<< 5 ≠ 0 then return .V16750
      else return .V16550A
    else return .V16550
  else
    out8 (← lift (portAdd port SCR_OFFSET)) 0x2A
    let scr ← in8 (← lift (portAdd port SCR_OFFSET))
    if scr = 0x2A then return .V16450
    else return .V8250

/-- `UartPort`. -/
structure UartPort where
  thbr : IoPort
  rbr : IoPort
  dll : IoPort
  ier : IoPort
  dlh : IoPort
  iir : IoPort
  fcr : IoPort
  lcr : IoPort
  mcr : IoPort
  lsr : IoPort
  msr : IoPort
  scr : IoPort
  deriving DecidableEq, Repr

/-- The interrupt enable bits of a version. -/
def ierMask (ver : UartChipVersion) : BitVec 8 :=
  if UartChipVersion.V16750 ≤ ver then IER.all
  else IER.all &&& ~~~(IER.ENABLE_SLEEP_MODE ||| IER.ENABLE_LOW_POWER_MODE)

/-- The interrupt identification bits of a version. -/
def iirMask (ver : UartChipVersion) : BitVec 8 :=
  if UartChipVersion.V16750 ≤ ver then IIR.all else IIR.all &&& ~~~IIR.FIFO_64_BYTES_ENABLED

-- V16550's FIFO is broken, and cannot be safely used
def fcrMask (ver : UartChipVersion) : BitVec 8 :=
  if UartChipVersion.V16550A ≤ ver then FCR.all else 0

/-- The modem control bits of a version. -/
def mcrMask (ver : UartChipVersion) : BitVec 8 :=
  if UartChipVersion.V16750 ≤ ver then MCR.all else MCR.all &&& ~~~MCR.AUTOFLOW_CONTROL_ENABLED

/-- The ports of the registers, with their masks. -/
def UartPort.ports (portAddr : Nat) (ver : UartChipVersion) : Except Fault UartPort := do
  return {
    thbr := ⟨← portAdd portAddr THBR_OFFSET, 0xFF⟩
    rbr := ⟨← portAdd portAddr RBR_OFFSET, 0xFF⟩
    dll := ⟨← portAdd portAddr DLL_OFFSET, 0xFF⟩
    ier := ⟨← portAdd portAddr IER_OFFSET, ierMask ver⟩
    dlh := ⟨← portAdd portAddr DLH_OFFSET, 0xFF⟩
    iir := ⟨← portAdd portAddr IIR_OFFSET, iirMask ver⟩
    fcr := ⟨← portAdd portAddr FCR_OFFSET, fcrMask ver⟩
    lcr := ⟨← portAdd portAddr LCR_OFFSET, LCR.all⟩
    mcr := ⟨← portAdd portAddr MCR_OFFSET, mcrMask ver⟩
    lsr := ⟨← portAdd portAddr LSR_OFFSET, LSR.all⟩
    msr := ⟨← portAdd portAddr MSR_OFFSET, MSR.all⟩
    scr := ⟨← portAdd portAddr SCR_OFFSET, 0xFF⟩ }

/-- The rate of a divisor of 1. -/
def UART_FREQUENCY : Nat := 115200

/-- `set_baud_rate`. -/
def UartPort.setBaudRate (self : UartPort) (baudRate : BaudRate) : PortM σ Unit := do
  let devisorLatchValue : BitVec 16 := BitVec.ofNat 16 (UART_FREQUENCY / baudRate.discriminant)
  let lcr := (← self.lcr.read).1
  let _ ← self.lcr.write (lcr ||| LCR.DIVISOR_LATCH_ACCESS_BIT)
  let _ ← self.dll.write ((devisorLatchValue &&& 255).setWidth 8)
  let _ ← self.dlh.write ((devisorLatchValue >>> 8).setWidth 8)
  let _ ← self.lcr.write lcr

/-- `reset_to_default`. -/
def UartPort.resetToDefault (self : UartPort) : PortM σ Unit := do
  let _ ← self.ier.write 0 -- Disable all interrupts
  self.setBaudRate .BR115200
  let _ ← self.lcr.write (LCR.WORD_LENGTH_8_BITS ||| LCR.NO_PARITY)
  let _ ← self.fcr.write (FCR.ENABLE_FIFOS ||| FCR.CLEAR_RECEIVE_FIFO ||| FCR.CLEAR_TRANSMIT_FIFO
    ||| FCR.ENABLE_64_BYTE_FIFO ||| FCR.INTERRUPT_TRIGGER_LEVEL_8_32)
  let _ ← self.mcr.write (MCR.DATA_TERMINAL_READY ||| MCR.REQUEST_TO_SEND
    ||| MCR.AUXILLARY_OUTPUT_1 ||| MCR.AUXILLARY_OUTPUT_2)

/-- `UartPort::test`: it writes to `rbr` and reads `thbr`. -/
def UartPort.test (self : UartPort) : PortM σ (Except String Unit) := do
  let mcr := (← self.mcr.read).1
  -- enable loopback mode
  let _ ← self.mcr.write (mcr ||| MCR.LOOPBACK_ENABLED)
  let _ ← self.rbr.write 0x2B
  if (← self.thbr.read).1 ≠ 0x2B then
    return .error "Port R/W test failed!"
  else
    -- reset mcr to original value
    let _ ← self.mcr.write mcr
    return .ok ()

/-- The rest of `UartPort::new`, for the version that was found. -/
def UartPort.newOf (portAddr : Nat) (ver : UartChipVersion) :
    PortM σ (Except String (UartPort × UartChipVersion)) := do
  let uart ← lift (UartPort.ports portAddr ver)
  uart.resetToDefault
  match ← uart.test with
  | .error e => return .error e
  | .ok () => return .ok (uart, ver)

/-- `UartPort::new`. -/
def UartPort.new (portAddr : Nat) : PortM σ (Except String (UartPort × UartChipVersion)) := do
  UartPort.newOf portAddr (← identifyUart portAddr)

/-- `write_byte`. -/
def UartPort.writeByte (self : UartPort) (fuel : Nat) (byte : BitVec 8) : PortM σ Unit := do
  spin (do return containsFlags (← self.lsr.read).1 LSR.EMPTY_TRANSMITTER_HOLDING_REGISTER) fuel
  let _ ← self.thbr.write byte

/-- `read_byte`, which drops what it reads. -/
def UartPort.readByte (self : UartPort) (fuel : Nat) : PortM σ Unit := do
  spin (do return containsFlags (← self.lsr.read).1 LSR.DATA_READY) fuel
  let _ ← self.rbr.read

/-- `s.bytes()`. -/
def strBytes (s : String) : List (BitVec 8) := s.toUTF8.data.toList.map UInt8.toBitVec

/-- `write_str`. -/
def UartPort.writeStr (self : UartPort) (fuel : Nat) (s : String) : PortM σ Unit :=
  (strBytes s).forM (self.writeByte fuel)

/-- What a client does with a `UartPort`: its methods, and the registers that it may write and
read. -/
inductive UartCall
  | writeByte (byte : BitVec 8)
  | writeStr (s : String)
  | readByte
  | resetToDefault
  | writeThbr (data : BitVec 8)
  | writeIer (data : BitVec 8)
  | writeFcr (data : BitVec 8)
  | writeLcr (data : BitVec 8)
  | writeMcr (data : BitVec 8)
  | writeScr (data : BitVec 8)
  | readRbr
  | readIer
  | readIir
  | readLcr
  | readMcr
  | readLsr
  | readMsr
  | readScr
  deriving DecidableEq, Repr

/-- What a call does to the port. -/
def UartCall.run (self : UartPort) (fuel : Nat) : UartCall → PortM σ Unit
  | writeByte byte => self.writeByte fuel byte
  | writeStr s => self.writeStr fuel s
  | readByte => self.readByte fuel
  | resetToDefault => self.resetToDefault
  | writeThbr data => do let _ ← self.thbr.write data
  | writeIer data => do let _ ← self.ier.write data
  | writeFcr data => do let _ ← self.fcr.write data
  | writeLcr data => do let _ ← self.lcr.write data
  | writeMcr data => do let _ ← self.mcr.write data
  | writeScr data => do let _ ← self.scr.write data
  | readRbr => do let _ ← self.rbr.read
  | readIer => do let _ ← self.ier.read
  | readIir => do let _ ← self.iir.read
  | readLcr => do let _ ← self.lcr.read
  | readMcr => do let _ ← self.mcr.read
  | readLsr => do let _ ← self.lsr.read
  | readMsr => do let _ ← self.msr.read
  | readScr => do let _ ← self.scr.read

end Driver

end Tauos.Out
