import Tauos.Amd64.Paging
import Tauos.Rust.Fields
import Tauos.Rust.Word
import Tauos.X86.Machine

/-!
# CR3

`amd64/src/registers.rs`. CR3 holds the address of the PML4 and, by `CR4::PCIDE`, either a process
context identifier or two flags. `CR3::write` moves to the one or the other mode, and clears the
identifier before it leaves the first.

> `cr3_write_read_iff`: when a value that was written is read back, with CR4 as it should be.

`PCID_MASK` is written in octal and has 9 bits of 12. The block of assembly that clears the
identifier goes through `rax` and does not say so, which breaks the contract of `asm!`. The
registers are those of one processor; what else a move to them does there is left out.
-/

namespace Tauos.Amd64

open Tauos.Rust

/-- The control registers that `CR3` is about. -/
structure ControlRegs where
  cr3 : BitVec 64
  cr4 : BitVec 64
  deriving DecidableEq, Repr

/-- Moves to control registers. -/
inductive ControlMove
  | movCr3 (v : BitVec 64)
  | movCr4 (v : BitVec 64)
  deriving DecidableEq, Repr

/-- One move. -/
def ControlMove.exec (r : ControlRegs) : ControlMove → ControlRegs
  | movCr3 v => { r with cr3 := v }
  | movCr4 v => { r with cr4 := v }

/-- A block of inline assembly: its moves to control registers, the general registers that its text
names as written, and those of them that its operands declare. -/
structure AsmBlock where
  moves : List ControlMove
  writes : List X86.Reg
  declared : List X86.Reg

/-- A register that is written has to be declared. Else the compiler goes on with what it keeps
there, and anything may be moved to CR3 later. -/
def AsmBlock.exec (block : AsmBlock) : Except Fault (List ControlMove) :=
  if block.writes ⊆ block.declared then .ok block.moves else .error .undefined

namespace CR4

/-- `CR4::PCIDE`: CR3 holds a process context identifier. -/
def PCIDE : BitVec 64 := 1#64 <<< 17

/-- `CR4::all()`: all flags that are declared, 0 to 14, 16 to 18 and 20 to 24. -/
def all : BitVec 64 := 0x1f77fff

/-- All bits of the flag are set. -/
def contains (cr4 flag : BitVec 64) : Bool := cr4 &&& flag == flag

/-- `!flags`: the flags that are declared and not set. -/
def complement (flags : BitVec 64) : BitVec 64 := ~~~flags &&& all

end CR4

namespace CR3Flags

/-- Page write-through, for the PML4. -/
def PWT : BitVec 64 := 1#64 <<< 3

/-- Page cache-disable, for the PML4. -/
def PCD : BitVec 64 := 1#64 <<< 4

end CR3Flags

/-- What the low bits of CR3 are used for. -/
inductive CR3Data
  | flags (flags : BitVec 64)
  | pcid (pcid : BitVec 64)
  deriving DecidableEq, Repr

/-- A value of CR3, with the address of the PML4. -/
structure CR3 where
  data : CR3Data
  paddr : BitVec 64
  deriving DecidableEq, Repr

namespace CR3

/-- `CR3::PCID_MASK`, in octal. -/
def PCID_MASK : BitVec 64 := 0o777

/-- `PTE::BASE_MASK`. -/
def paddrMask : BitVec 64 := BitVec.ofNat 64 PTE.BASE_MASK

/-- `CR3::read`. -/
def read (r : ControlRegs) : CR3 :=
  let pcide := CR4.contains r.cr4 CR4.PCIDE
  { data := if pcide then .pcid (r.cr3 &&& PCID_MASK) else .flags (r.cr3 &&& ~~~paddrMask)
    paddr := r.cr3 &&& paddrMask }

/-- The block that clears the PCID: `mov rax, cr3`, `and rax, {}`, `mov cr3, rax`. Its only operand
is the mask, and it is said to leave the flags alone, which `and` sets. -/
def clearPcid (r : ControlRegs) : AsmBlock :=
  ⟨[.movCr3 (r.cr3 &&& ~~~PCID_MASK)], [.rax], []⟩

/-- `CR3::write`: what it executes on a processor with these registers. -/
def write (self : CR3) (r : ControlRegs) : Except Fault (List ControlMove) := do
  let pcidEnabled := CR4.contains r.cr4 CR4.PCIDE
  match self.data with
  | .pcid pcid =>
    let cr3 := self.paddr ||| pcid &&& PCID_MASK
    -- enable PCIDE
    return (if pcidEnabled then [] else [.movCr4 (r.cr4 ||| CR4.PCIDE)]) ++ [.movCr3 cr3]
  | .flags flags =>
    let cr3 := self.paddr ||| flags
    if pcidEnabled then
      -- clear PCID, else #GP occurs on disable
      let cleared ← (clearPcid r).exec
      return cleared ++ [.movCr4 (r.cr4 &&& CR4.complement CR4.PCIDE), .movCr3 cr3]
    else
      return [.movCr3 cr3]

/-- The address of a page, and the flags or a PCID of 12 bits. -/
def Valid (self : CR3) : Prop :=
  PTE_SIZE ∣ self.paddr.toNat ∧ self.paddr.toNat < 2 ^ 52 ∧
    match self.data with
    | .flags flags => flags &&& (CR3Flags.PWT ||| CR3Flags.PCD) = flags
    | .pcid pcid => pcid.toNat < 2 ^ 12

instance : (self : CR3) → Decidable self.Valid
  | ⟨.flags _, _⟩ => inferInstanceAs (Decidable (_ ∧ _ ∧ _ = _))
  | ⟨.pcid _, _⟩ => inferInstanceAs (Decidable (_ ∧ _ ∧ _ < _))

end CR3

/-- The move takes PCIDE away. -/
def ControlMove.ClearsPcide (r : ControlRegs) (i : ControlMove) : Prop :=
  CR4.contains r.cr4 CR4.PCIDE = true ∧ CR4.contains (i.exec r).cr4 CR4.PCIDE = false

instance (r : ControlRegs) (i : ControlMove) : Decidable (i.ClearsPcide r) :=
  inferInstanceAs (Decidable (_ ∧ _))

/-- The low 12 bits of CR3 are zero whenever PCIDE is cleared. -/
def CR3.ClearsAtZero : ControlRegs → List ControlMove → Prop
  | _, [] => True
  | r, i :: is => (i.ClearsPcide r → r.cr3 &&& 0xfff = 0) ∧ CR3.ClearsAtZero (i.exec r) is

/-- What is expected of the moves of `CR3::write`. -/
structure CR3.Writes (v : CR3) (r : ControlRegs) (moves : List ControlMove) : Prop where
  read : CR3.read (moves.foldl ControlMove.exec r) = v
  pcide : CR4.contains (moves.foldl ControlMove.exec r).cr4 CR4.PCIDE = true ↔
    ∃ n, v.data = .pcid n
  others : (moves.foldl ControlMove.exec r).cr4 &&& ~~~CR4.PCIDE = r.cr4 &&& ~~~CR4.PCIDE
  clears : CR3.ClearsAtZero r moves

/-- `CR3::write` keeps to its contracts, and its moves do what they should. -/
def CR3.Written (v : CR3) (r : ControlRegs) : Prop :=
  ∃ moves, v.write r = .ok moves ∧ v.Writes r moves

/-- When it is so: for a PCID that the mask lets through, or outside the PCID mode. -/
def CR3.Fits (v : CR3) (r : ControlRegs) : Prop :=
  match v.data with
  | .pcid n => n.toNat < 512
  | .flags _ => CR4.contains r.cr4 CR4.PCIDE = false

instance : (v : CR3) → (r : ControlRegs) → Decidable (v.Fits r)
  | ⟨.flags _, _⟩, _ => inferInstanceAs (Decidable (_ = _))
  | ⟨.pcid _, _⟩, _ => inferInstanceAs (Decidable (_ < _))

/-- The address of a page is in the address field. -/
theorem paddr_under {p : BitVec 64} (hal : PTE_SIZE ∣ p.toNat) (hlt : p.toNat < 2 ^ 52) :
    p &&& CR3.paddrMask = p := by
  apply BitVec.eq_of_getLsbD_eq
  intro i hi
  rw [BitVec.getLsbD_and]
  cases hbit : p.getLsbD i with
  | false => rfl
  | true =>
    have hrange := paddr_testBit hal hlt hbit
    rw [CR3.paddrMask, BitVec.getLsbD_ofNat, testBit_BASE_MASK, decide_eq_true hi,
      decide_eq_true hrange]
    rfl

/-! ## Reading what was written -/

section Read

variable {p f n cr4 : BitVec 64}

/-- PCIDE is set. -/
theorem contains_or (cr4 : BitVec 64) : CR4.contains (cr4 ||| CR4.PCIDE) CR4.PCIDE = true := by
  rw [CR4.contains, or_eq, and_mask_self BitVec.and_self]
  exact beq_self_eq_true _

/-- In the PCID mode, the PCID is read back as far as the mask goes. -/
theorem read_pcid (hp : p &&& CR3.paddrMask = p) (h4 : CR4.contains cr4 CR4.PCIDE = true) :
    CR3.read ⟨p ||| n &&& CR3.PCID_MASK, cr4⟩ = ⟨.pcid (n &&& CR3.PCID_MASK), p⟩ := by
  have hpaddr : (p ||| n &&& CR3.PCID_MASK) &&& CR3.paddrMask = p := by
    rw [BitVec.and_or_distrib_right, hp, BitVec.and_assoc,
      show CR3.PCID_MASK &&& CR3.paddrMask = 0#64 by decide, BitVec.and_zero, BitVec.or_zero]
  have hdata : (p ||| n &&& CR3.PCID_MASK) &&& CR3.PCID_MASK = n &&& CR3.PCID_MASK := by
    rw [BitVec.and_or_distrib_right, and_eq_zero_of_under hp (by decide), BitVec.and_assoc,
      BitVec.and_self, BitVec.zero_or]
  unfold CR3.read
  rw [h4, hpaddr, hdata]
  rfl

/-- Outside of it, the flags are. -/
theorem read_flags (hp : p &&& CR3.paddrMask = p) (hf : f &&& (CR3Flags.PWT ||| CR3Flags.PCD) = f)
    (h4 : CR4.contains cr4 CR4.PCIDE = false) : CR3.read ⟨p ||| f, cr4⟩ = ⟨.flags f, p⟩ := by
  have hpaddr : (p ||| f) &&& CR3.paddrMask = p := by
    rw [BitVec.and_or_distrib_right, hp, and_eq_zero_of_under hf (by decide), BitVec.or_zero]
  have hdata : (p ||| f) &&& ~~~CR3.paddrMask = f := by
    rw [BitVec.and_or_distrib_right, and_not_eq_zero_iff.mpr hp, BitVec.zero_or,
      and_eq_self_of_under hf (by decide)]
  unfold CR3.read
  rw [h4, hpaddr, hdata]
  rfl

end Read

/-! ## The two modes -/

section Modes

variable {p f n : BitVec 64} {r : ControlRegs}

/-- A move to CR3 leaves the mode alone. -/
theorem not_clears_movCr3 (r : ControlRegs) (v : BitVec 64) :
    ¬ ControlMove.ClearsPcide r (.movCr3 v) := by
  rintro ⟨hon, hoff⟩
  exact absurd (hon.symm.trans hoff) (by decide)

/-- So it may come last. -/
theorem clearsAtZero_movCr3 (r : ControlRegs) (v : BitVec 64) : CR3.ClearsAtZero r [.movCr3 v] :=
  ⟨fun h => absurd h (not_clears_movCr3 r v), trivial⟩

/-- A PCID is written in the PCID mode, whichever was on before. -/
theorem write_pcid (n p : BitVec 64) (r : ControlRegs) :
    ∃ moves cr4, CR3.write ⟨.pcid n, p⟩ r = .ok moves ∧
      moves.foldl ControlMove.exec r = ⟨p ||| n &&& CR3.PCID_MASK, cr4⟩ ∧
      CR4.contains cr4 CR4.PCIDE = true ∧ cr4 &&& ~~~CR4.PCIDE = r.cr4 &&& ~~~CR4.PCIDE ∧
      CR3.ClearsAtZero r moves := by
  unfold CR3.write
  dsimp only
  cases hon : CR4.contains r.cr4 CR4.PCIDE with
  | true => exact ⟨_, r.cr4, rfl, rfl, hon, rfl, clearsAtZero_movCr3 r _⟩
  | false =>
    refine ⟨_, r.cr4 ||| CR4.PCIDE, rfl, rfl, contains_or r.cr4, ?_, ?_, clearsAtZero_movCr3 _ _⟩
    · rw [or_eq, and_mask_other BitVec.and_self (by decide)]
    · intro h
      exact absurd (h.2.symm.trans (contains_or r.cr4)) (by decide)

/-- It is read back if it has nine bits. -/
theorem written_pcid_iff (hp : p &&& CR3.paddrMask = p) :
    CR3.Written ⟨.pcid n, p⟩ r ↔ n.toNat < 512 := by
  have hnine : n &&& CR3.PCID_MASK = n ↔ n.toNat < 512 := and_ones_eq_self_iff (k := 9) (by decide)
  obtain ⟨moves, cr4, hwrite, hfinal, h4, hothers, hclears⟩ := write_pcid n p r
  rw [← hnine]
  constructor
  · rintro ⟨moves', hwrite', h⟩
    have hread := h.read
    rw [← Except.ok.inj (hwrite.symm.trans hwrite'), hfinal, read_pcid hp h4] at hread
    exact CR3Data.pcid.inj (congrArg CR3.data hread)
  · intro hn
    have hread := read_pcid (n := n) hp h4
    refine ⟨moves, hwrite, ?_, ?_, ?_, hclears⟩
    · rw [hfinal, hread, hn]
    · rw [hfinal]
      exact iff_of_true h4 ⟨n, rfl⟩
    · rw [hfinal]
      exact hothers

/-- Flags are written without changing the mode. -/
theorem written_flags (hp : p &&& CR3.paddrMask = p)
    (hf : f &&& (CR3Flags.PWT ||| CR3Flags.PCD) = f)
    (hoff : CR4.contains r.cr4 CR4.PCIDE = false) : CR3.Written ⟨.flags f, p⟩ r := by
  have hwrite : CR3.write ⟨.flags f, p⟩ r = .ok [.movCr3 (p ||| f)] := by
    unfold CR3.write
    rw [hoff]
    rfl
  have hno : ¬ ∃ n, CR3Data.flags f = .pcid n := fun ⟨_, he⟩ => CR3Data.noConfusion he
  refine ⟨_, hwrite, ?_, ?_, ?_, ?_⟩
  · exact read_flags hp hf hoff
  · exact iff_of_false (fun h => absurd (h.symm.trans hoff) (by decide)) hno
  · rfl
  · exact clearsAtZero_movCr3 r _

/-- The PCID mode is left through a register that is not declared. -/
theorem write_leaves_undefined (f p : BitVec 64) (hon : CR4.contains r.cr4 CR4.PCIDE = true) :
    CR3.write ⟨.flags f, p⟩ r = .error .undefined := by
  unfold CR3.write
  rw [hon]
  rfl

end Modes

/-- For every value and every state of the registers. -/
theorem cr3_write_read_iff {v : CR3} (hv : v.Valid) (r : ControlRegs) : v.Written r ↔ v.Fits r := by
  obtain ⟨data, p⟩ := v
  obtain ⟨hal, hlt, hdata⟩ := hv
  have hp := paddr_under hal hlt
  cases data with
  | pcid n => exact written_pcid_iff hp
  | flags f =>
    cases hon : CR4.contains r.cr4 CR4.PCIDE with
    | false => exact iff_of_true (written_flags hp hdata hon) hon
    | true =>
      refine iff_of_false ?_ fun h : CR4.contains r.cr4 CR4.PCIDE = false => ?_
      · rintro ⟨moves, hwrite, -⟩
        rw [write_leaves_undefined f p hon] at hwrite
        cases hwrite
      · exact absurd (h.symm.trans hon) (by decide)

/-- The largest PCID that is read back, written over flags; and flags over flags. -/
theorem cr3_write_read_pcid : CR3.Written ⟨.pcid 0x1ff, 0x1000⟩ ⟨0x2008, 0xa0⟩ ∧
    CR3.Written ⟨.flags CR3Flags.PCD, 0x1000⟩ ⟨0x2008, 0xa0⟩ :=
  ⟨(cr3_write_read_iff (by decide) _).mpr (by decide),
    (cr3_write_read_iff (by decide) _).mpr (by decide)⟩

/-- A PCID of 12 bits, and a PCID that is to be cleared. -/
theorem cr3_not_written : ¬ CR3.Written ⟨.pcid 0x200, 0x1000⟩ ⟨0, 0⟩ ∧
    ¬ CR3.Written ⟨.flags 0, 0x1000⟩ ⟨0x2200, 0x20000⟩ := by
  constructor
  · rintro ⟨moves, hwrite, h⟩
    have hread := h.read
    rw [← Except.ok.inj hwrite] at hread
    exact absurd hread (by decide)
  · rintro ⟨moves, hwrite, -⟩
    rw [write_leaves_undefined 0 0x1000 (by decide)] at hwrite
    cases hwrite

end Tauos.Amd64
