import Mathlib.Data.List.Infix
import Tauos.Out.Uart

/-!
# A UART chip

The device that `uart.rs` drives: a chip of the 8250 family, in any of the five versions, at eight
ports. Bytes written to the transmitter wait in a queue, of one byte or of a FIFO, and leave for the
line one by one. When they leave is up to the chip: `leaves` says for each access whether the byte
in front is gone by then. In loopback mode a byte is received instead, at once.

The registers are those that the comments of `uart.rs` describe, with the bits that each version
has. A 16550 reports its FIFO as not functional. Nothing comes in from the line.
-/

namespace Tauos.Out

open Tauos.Rust Tauos.X86 Tauos.Amd64

/-- A chip, with what waits in it and what it has sent. -/
structure Chip where
  base : Nat
  version : UartChipVersion
  dll : BitVec 8
  dlh : BitVec 8
  ier : BitVec 8
  fcr : BitVec 8
  lcr : BitVec 8
  mcr : BitVec 8
  scr : BitVec 8
  received : BitVec 8
  dataReady : Bool
  queue : List (BitVec 8)
  sent : List (BitVec 8)
  leaves : Nat → Bool
  now : Nat

namespace Chip

/-- Divisor latch access bit. -/
def dlab (c : Chip) : Bool := containsFlags c.lcr LCR.DIVISOR_LATCH_ACCESS_BIT

/-- What is sent comes back as received. -/
def loopback (c : Chip) : Bool := containsFlags c.mcr MCR.LOOPBACK_ENABLED

/-- All that was given to the transmitter and is not lost, in order. -/
def line (c : Chip) : List (BitVec 8) := c.sent ++ c.queue

/-- How many bytes may wait. -/
def depth (c : Chip) : Nat :=
  if UartChipVersion.V16550A ≤ c.version ∧ containsFlags c.fcr FCR.ENABLE_FIFOS = true then
    if c.version = .V16750 ∧ containsFlags c.fcr FCR.ENABLE_64_BYTE_FIFO = true then 64 else 16
  else 1

/-- The bits of the interrupt identification register that tell the state of the FIFO. -/
def fifoState (c : Chip) : BitVec 8 :=
  if containsFlags c.fcr FCR.ENABLE_FIFOS = true then
    match c.version with
    | .V8250 | .V16450 => 0
    | .V16550 => 0b10000000
    | .V16550A => 0b11000000
    | .V16750 => if containsFlags c.fcr FCR.ENABLE_64_BYTE_FIFO = true then 0b11100000
        else 0b11000000
  else 0

/-- Time passes: the byte in front may leave. -/
def tick (c : Chip) : Chip :=
  let leaving := if c.leaves c.now = true then 1 else 0
  { c with
    now := c.now + 1
    sent := c.sent ++ c.queue.take leaving
    queue := c.queue.drop leaving }

/-- A byte for the transmitter. It is lost if there is no room for it. -/
def transmit (c : Chip) (data : BitVec 8) : Chip :=
  if c.loopback = true then { c with received := data, dataReady := true }
  else if c.queue.length < c.depth then { c with queue := c.queue ++ [data] }
  else c

/-- The register behind a port offset, and what reading it does to the chip. -/
def read (c : Chip) : Nat → BitVec 8 × Chip
  | 0 => if c.dlab = true then (c.dll, c) else (c.received, { c with dataReady := false })
  | 1 => (if c.dlab = true then c.dlh else c.ier, c)
  | 2 => (c.fifoState ||| 1, c)
  | 3 => (c.lcr, c)
  | 4 => (c.mcr, c)
  | 5 => ((if c.dataReady = true then LSR.DATA_READY else 0) |||
      (if c.queue = [] then LSR.EMPTY_TRANSMITTER_HOLDING_REGISTER else 0), c)
  | 7 => (if UartChipVersion.V16450 ≤ c.version then c.scr else 0xFF, c)
  | _ => (0, c)

/-- What writing a byte at a port offset does to the chip. -/
def write (c : Chip) (data : BitVec 8) : Nat → Chip
  | 0 => if c.dlab = true then { c with dll := data } else c.transmit data
  | 1 => if c.dlab = true then { c with dlh := data } else { c with ier := data &&& ierMask c.version }
  | 2 => if UartChipVersion.V16550 ≤ c.version then
      { c with
        fcr := data
        queue := if containsFlags data FCR.CLEAR_TRANSMIT_FIFO = true then [] else c.queue }
    else c
  | 3 => { c with lcr := data }
  | 4 => { c with mcr := data &&& mcrMask c.version }
  | 7 => if UartChipVersion.V16450 ≤ c.version then { c with scr := data } else c
  | _ => c

end Chip

instance : Device Chip where
  inp port c := if c.base ≤ port ∧ port < c.base + 8 then c.tick.read (port - c.base)
    else (0xFF, c)
  out port data c := if c.base ≤ port ∧ port < c.base + 8 then c.tick.write data (port - c.base)
    else c

/-- A 16550A at the first port. -/
def sampleChip : Chip where
  base := COM1
  version := .V16550A
  dll := 0
  dlh := 0
  ier := 0
  fcr := 0
  lcr := 0
  mcr := 0
  scr := 0
  received := 0
  dataReady := false
  queue := []
  sent := []
  leaves _ := true
  now := 0

/-! ## Accesses -/

section Accesses

variable (c : Chip) (data : BitVec 8)

theorem inp_chip {k : Nat} (hk : k < 8) : Device.inp (c.base + k) c = c.tick.read k := by
  show (if c.base ≤ c.base + k ∧ c.base + k < c.base + 8 then c.tick.read (c.base + k - c.base)
    else (0xFF, c)) = _
  rw [if_pos ⟨by omega, by omega⟩, Nat.add_sub_cancel_left]

theorem out_chip {k : Nat} (hk : k < 8) : Device.out (c.base + k) data c = c.tick.write data k := by
  show (if c.base ≤ c.base + k ∧ c.base + k < c.base + 8 then
    c.tick.write data (c.base + k - c.base) else c) = _
  rw [if_pos ⟨by omega, by omega⟩, Nat.add_sub_cancel_left]

variable {p : IoPort} {k : Nat}

/-- A read through the port of a register. -/
theorem IoPort.read_chip (hp : p.port = c.base + k) (hk : k < 8) :
    p.read c = .ok (((c.tick.read k).1 &&& p.mask, (c.tick.read k).1 &&& ~~~p.mask),
      (c.tick.read k).2) := by
  rw [IoPort.read_eq, hp, inp_chip c hk]

/-- A write through the port of a register. -/
theorem IoPort.write_chip (hp : p.port = c.base + k) (hk : k < 8) :
    p.write data c = .ok (data &&& ~~~p.mask, c.tick.write (data &&& p.mask) k) := by
  rw [IoPort.write_eq, hp, out_chip c _ hk]

/-- Time leaves all registers alone. -/
structure Chip.SameRegisters (c c' : Chip) : Prop where
  base : c'.base = c.base
  version : c'.version = c.version
  dll : c'.dll = c.dll
  dlh : c'.dlh = c.dlh
  ier : c'.ier = c.ier
  fcr : c'.fcr = c.fcr
  lcr : c'.lcr = c.lcr
  mcr : c'.mcr = c.mcr
  scr : c'.scr = c.scr
  leaves : c'.leaves = c.leaves

theorem Chip.SameRegisters.refl : c.SameRegisters c := by
  exact ⟨rfl, rfl, rfl, rfl, rfl, rfl, rfl, rfl, rfl, rfl⟩

variable {c} {c' c'' : Chip}

theorem Chip.SameRegisters.trans (h : c.SameRegisters c') (h' : c'.SameRegisters c'') :
    c.SameRegisters c'' := by
  exact ⟨h'.base.trans h.base, h'.version.trans h.version, h'.dll.trans h.dll, h'.dlh.trans h.dlh,
    h'.ier.trans h.ier, h'.fcr.trans h.fcr, h'.lcr.trans h.lcr, h'.mcr.trans h.mcr,
    h'.scr.trans h.scr, h'.leaves.trans h.leaves⟩

/-- Time passes: no register changes. -/
theorem tick_same : c.SameRegisters c.tick := by
  exact ⟨rfl, rfl, rfl, rfl, rfl, rfl, rfl, rfl, rfl, rfl⟩

@[simp] theorem tick_line : c.tick.line = c.line := by
  unfold Chip.tick Chip.line
  dsimp only
  rw [List.append_assoc, List.take_append_drop]

theorem tick_queue_nil (h : c.queue = []) : c.tick.queue = [] := by
  unfold Chip.tick
  rw [h]
  exact List.drop_nil

theorem Chip.SameRegisters.dlab (h : c.SameRegisters c') : c'.dlab = c.dlab := by
  unfold Chip.dlab
  rw [h.lcr]

theorem Chip.SameRegisters.loopback (h : c.SameRegisters c') : c'.loopback = c.loopback := by
  unfold Chip.loopback
  rw [h.mcr]

end Accesses

end Tauos.Out
