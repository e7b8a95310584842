import Tauos.X86.Ports

/-!
# `ports.rs`

`amd64/src/ports.rs`. An `IoPort` is the address of a port and a mask. Bits outside of the mask
are never written, and a read gives them apart. Every port of the kernel is read and written by
the byte.

The types that stand for the direction of a port are left out: they decide which methods there
are. `ReadOnlyPortAccess` and `WriteOnlyPortAccess` both implement `PortWriteAccessTrait`, and
that is what `read` and `write` ask for, so there are both of them for every port.
-/

namespace Tauos.Amd64

open Tauos.Rust Tauos.X86

/-- `IoPort<T, RW>`, with a `T` of 8 bits. -/
structure IoPort where
  port : Nat
  mask : BitVec 8
  deriving DecidableEq, Repr

variable {σ : Type} [Device σ]

/-- `u8::port_read`. -/
def portRead (port : Nat) (mask : BitVec 8) : PortM σ (BitVec 8 × BitVec 8) := do
  let value ← in8 port
  return (value &&& mask, value &&& ~~~mask)

/-- `u8::port_write`. -/
def portWrite (port : Nat) (data mask : BitVec 8) : PortM σ (BitVec 8) := do
  out8 port (data &&& mask)
  return data &&& ~~~mask

/-- `IoPort::read`. -/
def IoPort.read (self : IoPort) : PortM σ (BitVec 8 × BitVec 8) := portRead self.port self.mask

/-- `IoPort::write`. -/
def IoPort.write (self : IoPort) (data : BitVec 8) : PortM σ (BitVec 8) :=
  portWrite self.port data self.mask

/-- A read does not fail. -/
theorem IoPort.read_eq (p : IoPort) (s : σ) : p.read s =
    .ok (((Device.inp p.port s).1 &&& p.mask, (Device.inp p.port s).1 &&& ~~~p.mask),
      (Device.inp p.port s).2) := rfl

/-- Nor does a write. -/
theorem IoPort.write_eq (p : IoPort) (data : BitVec 8) (s : σ) : p.write data s =
    .ok (data &&& ~~~p.mask, Device.out p.port (data &&& p.mask) s) := rfl

/-- What a read leaves in the log. -/
theorem IoPort.read_spec {P : List Access → Prop} {Q : BitVec 8 × BitVec 8 → List Access → Prop}
    {p : IoPort}
    (h : ∀ log v, P log → Q (v &&& p.mask, v &&& ~~~p.mask) (.inp p.port v :: log)) :
    Spec (σ := Logged σ) (fun s => P s.log) p.read fun r s => Q r s.log :=
  Spec.bind (Spec.in8 h) fun _ => Spec.pure fun _ hs => hs

/-- What a write leaves in the log. -/
theorem IoPort.write_spec {P Q : List Access → Prop} {p : IoPort} {data : BitVec 8}
    (h : ∀ log, P log → Q (.out p.port (data &&& p.mask) :: log)) :
    Spec (σ := Logged σ) (fun s => P s.log) (p.write data) fun _ s => Q s.log :=
  Spec.bind (Spec.out8 h) fun _ => Spec.pure fun _ hs => hs

end Tauos.Amd64
