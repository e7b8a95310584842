import Mathlib.Data.List.Basic
import Tauos.Rust.Word

/-!
# Exceptions

How a processor in long mode gets from an exception to its handler: it reads the gate of the vector
in the table of `idtr`, and the code segment of the gate in the table of `gdtr`. An exception that
an instruction asks for (`int`, `int3`) has to be open to the level of the code. Memory is seen by
the 8-byte words at addresses of 48 bits, extended by their sign. There is no local descriptor
table.

> `deliver`: where the processor goes on, or why it does not.
-/

namespace Tauos.X86

/-- The addresses of a processor with 48 bits of them. -/
def CanonicalForm (a : BitVec 64) : Prop := a.toNat < 2 ^ 47 ∨ 2 ^ 64 - 2 ^ 47 ≤ a.toNat

instance (a : BitVec 64) : Decidable (CanonicalForm a) := inferInstanceAs (Decidable (_ ∨ _))

/-- An object of `size` bytes in memory, all of them at canonical addresses. -/
structure Object (size : Nat) where
  addr : BitVec 64
  canonical : addr.toNat + size ≤ 2 ^ 47 ∨ 2 ^ 64 - 2 ^ 47 ≤ addr.toNat ∧ addr.toNat + size ≤ 2 ^ 64

/-- The words in memory from an address on. -/
def Holds (mem : BitVec 64 → BitVec 64) (base : BitVec 64) (ws : List (BitVec 64)) : Prop :=
  ∀ k w, ws[k]? = some w → mem (base + BitVec.ofNat 64 (8 * k)) = w

/-- `gdtr` or `idtr`. -/
structure TableReg where
  limit : BitVec 16
  base : BitVec 64
  deriving DecidableEq, Repr

/-- The exception that a failed access to a table raises. -/
inductive Refused
  | generalProtection
  | notPresent
  deriving DecidableEq, Repr

/-- The processor reads a word. -/
def readWord (mem : BitVec 64 → BitVec 64) (a : BitVec 64) : Except Refused (BitVec 64) :=
  if CanonicalForm a ∧ CanonicalForm (a + 7) then .ok (mem a) else .error .generalProtection

/-- A gate of the table of `idtr`. -/
structure Gate where
  offset : BitVec 64
  selector : BitVec 16
  ist : BitVec 3
  type : BitVec 5
  /-- the lowest level that may ask for the exception -/
  dpl : BitVec 2
  present : Bool
  deriving DecidableEq, Repr

/-- A gate from its two words. -/
def Gate.decode (lo hi : BitVec 64) : Gate where
  offset := hi.extractLsb' 0 32 ++ lo.extractLsb' 48 16 ++ lo.extractLsb' 0 16
  selector := lo.extractLsb' 16 16
  ist := lo.extractLsb' 32 3
  type := lo.extractLsb' 40 5
  dpl := lo.extractLsb' 45 2
  present := lo.getLsbD 47

/-- A segment that code runs in. -/
structure CodeSegment where
  conforming : Bool
  dpl : BitVec 2
  present : Bool
  deriving DecidableEq, Repr

/-- The word of a descriptor, if the selector names one of the table. -/
def descriptor (mem : BitVec 64 → BitVec 64) (gdtr : TableReg) (selector : BitVec 16) (size : Nat) :
    Except Refused (BitVec 64) :=
  let index := (selector >>> 3).toNat
  if index = 0 ∨ selector.getLsbD 2 = true ∨ gdtr.limit.toNat < 8 * index + size - 1 then
    .error .generalProtection
  else readWord mem (gdtr.base + BitVec.ofNat 64 (8 * index))

/-- A code segment of 64-bit mode. -/
def codeSegment (mem : BitVec 64 → BitVec 64) (gdtr : TableReg) (selector : BitVec 16) :
    Except Refused CodeSegment := do
  let d ← descriptor mem gdtr selector 8
  if ¬ (d.getLsbD 44 = true ∧ d.getLsbD 43 = true ∧ d.getLsbD 53 = true ∧ d.getLsbD 54 = false) then
    .error .generalProtection
  else .ok ⟨d.getLsbD 42, d.extractLsb' 45 2, d.getLsbD 47⟩

/-- A task state segment. -/
structure TaskSegment where
  base : BitVec 64
  limit : BitVec 20
  deriving DecidableEq, Repr

/-- The segment that `ltr` loads, which must be available. -/
def taskSegment (mem : BitVec 64 → BitVec 64) (gdtr : TableReg) (selector : BitVec 16) :
    Except Refused TaskSegment := do
  let lo ← descriptor mem gdtr selector 16
  let hi ← readWord mem (gdtr.base + BitVec.ofNat 64 (8 * ((selector >>> 3).toNat + 1)))
  let base := hi.extractLsb' 0 32 ++ lo.extractLsb' 56 8 ++ lo.extractLsb' 32 8 ++
    lo.extractLsb' 16 16
  if lo.extractLsb' 40 5 ≠ 0b01001 then .error .generalProtection
  else if lo.getLsbD 47 = false then .error .notPresent
  else if ¬ CanonicalForm base then .error .generalProtection
  else .ok ⟨base, lo.extractLsb' 48 4 ++ lo.extractLsb' 0 16⟩

/-- Where the processor goes on: with interrupts masked or not, on the stack that it is on if `ist`
is 0 and the level stays the same. -/
structure Target where
  cs : BitVec 16
  rip : BitVec 64
  cpl : BitVec 2
  ist : BitVec 3
  masked : Bool
  deriving DecidableEq, Repr

/-- Through a gate, from the level `cpl`. `software` are the exceptions that an instruction asks
for; all others get through a gate of any level. -/
def Gate.enter (mem : BitVec 64 → BitVec 64) (gdtr : TableReg) (software : Bool) (cpl : BitVec 2)
    (gate : Gate) : Except Refused Target :=
  if ¬ (gate.type = 0b01110 ∨ gate.type = 0b01111) then .error .generalProtection
  else if software = true ∧ gate.dpl < cpl then .error .generalProtection
  else if gate.present = false then .error .notPresent
  else do
    let segment ← codeSegment mem gdtr gate.selector
    if cpl < segment.dpl then .error .generalProtection
    else if segment.present = false then .error .notPresent
    else if ¬ CanonicalForm gate.offset then .error .generalProtection
    else
      let cpl' := if segment.conforming = true then cpl else segment.dpl
      return ⟨gate.selector.extractLsb' 2 14 ++ cpl', gate.offset, cpl', gate.ist,
        decide (gate.type = 0b01110)⟩

/-- The exception of vector `v`, at the level `cpl`. -/
def deliver (mem : BitVec 64 → BitVec 64) (gdtr idtr : TableReg) (software : Bool) (cpl : BitVec 2)
    (v : BitVec 8) : Except Refused Target :=
  if idtr.limit.toNat < 16 * v.toNat + 15 then .error .generalProtection
  else do
    let lo ← readWord mem (idtr.base + BitVec.ofNat 64 (16 * v.toNat))
    let hi ← readWord mem (idtr.base + BitVec.ofNat 64 (16 * v.toNat + 8))
    (Gate.decode lo hi).enter mem gdtr software cpl

/-! ## Tables -/

variable {mem : BitVec 64 → BitVec 64} {gdtr idtr : TableReg} {size : Nat}

/-- All of an object can be read. -/
theorem Object.read (o : Object size) (mem : BitVec 64 → BitVec 64) {k : Nat} (hk : k + 8 ≤ size) :
    readWord mem (o.addr + BitVec.ofNat 64 k) = .ok (mem (o.addr + BitVec.ofNat 64 k)) := by
  have ho := o.canonical
  have hlo : CanonicalForm (o.addr + BitVec.ofNat 64 k) := by
    rw [CanonicalForm, BitVec.toNat_add, BitVec.toNat_ofNat]
    omega
  have hhi : CanonicalForm (o.addr + BitVec.ofNat 64 k + 7) := by
    rw [CanonicalForm, BitVec.toNat_add, BitVec.toNat_add, BitVec.toNat_ofNat]
    show (_ + 7) % _ < _ ∨ _ ≤ (_ + 7) % _
    omega
  exact if_pos ⟨hlo, hhi⟩

/-- And it starts at a canonical address. -/
theorem Object.addr_canonical (o : Object size) (hsize : 0 < size) : CanonicalForm o.addr := by
  have ho := o.canonical
  unfold CanonicalForm
  omega

/-- The words of a table of pairs. -/
def pairWords (entries : List (BitVec 64 × BitVec 64)) : List (BitVec 64) :=
  entries.flatMap fun e => [e.1, e.2]

/-- The words of a pair are at twice its index. -/
theorem pairWords_get : ∀ (entries : List (BitVec 64 × BitVec 64)) (v : Nat)
    {e : BitVec 64 × BitVec 64}, entries[v]? = some e →
      (pairWords entries)[2 * v]? = some e.1 ∧ (pairWords entries)[2 * v + 1]? = some e.2 := by
  intro entries
  induction entries with
  | nil =>
    intro v e h
    rw [List.getElem?_nil] at h
    cases h
  | cons e' entries ih =>
    intro v e h
    cases v with
    | zero =>
      cases h
      exact ⟨rfl, rfl⟩
    | succ v => exact ih v h

/-- Two words for each pair. -/
theorem pairWords_length : ∀ entries : List (BitVec 64 × BitVec 64),
    (pairWords entries).length = 2 * entries.length
  | [] => rfl
  | _ :: entries => by
    have ih := pairWords_length entries
    show (pairWords entries).length + 2 = 2 * (entries.length + 1)
    omega

/-- The gate of a vector. -/
theorem Holds.gate {base : BitVec 64} {entries : List (BitVec 64 × BitVec 64)}
    (h : Holds mem base (pairWords entries)) {v : Nat} {e : BitVec 64 × BitVec 64}
    (he : entries[v]? = some e) :
    mem (base + BitVec.ofNat 64 (16 * v)) = e.1 ∧
      mem (base + BitVec.ofNat 64 (16 * v + 8)) = e.2 := by
  obtain ⟨hlo, hhi⟩ := pairWords_get entries v he
  have h1 := h _ _ hlo
  have h2 := h _ _ hhi
  rw [show 8 * (2 * v) = 16 * v by omega] at h1
  rw [show 8 * (2 * v + 1) = 16 * v + 8 by omega] at h2
  exact ⟨h1, h2⟩

/-- The processor gets to a gate of the table. -/
theorem deliver_of_gate (software : Bool) (cpl : BitVec 2) {v : BitVec 8}
    {entries : List (BitVec 64 × BitVec 64)} {e : BitVec 64 × BitVec 64} {table : Object size}
    (hbase : idtr.base = table.addr) (hsize : 16 * v.toNat + 16 ≤ size)
    (h : Holds mem idtr.base (pairWords entries)) (hlimit : 16 * v.toNat + 15 ≤ idtr.limit.toNat)
    (he : entries[v.toNat]? = some e) :
    deliver mem gdtr idtr software cpl v = (Gate.decode e.1 e.2).enter mem gdtr software cpl := by
  obtain ⟨hlo, hhi⟩ := h.gate he
  rw [hbase] at hlo hhi
  unfold deliver
  rw [if_neg (Nat.not_lt.mpr hlimit), hbase, table.read mem (by omega), table.read mem (by omega),
    hlo, hhi]
  rfl

/-- A descriptor of the table. -/
theorem descriptor_of_get {selector : BitVec 16} {n : Nat} {ws : List (BitVec 64)} {w : BitVec 64}
    {table : Object size} (hbase : gdtr.base = table.addr)
    (hsize : 8 * (selector >>> 3).toNat + 8 ≤ size) (h : Holds mem gdtr.base ws)
    (hindex : (selector >>> 3).toNat ≠ 0) (hti : selector.getLsbD 2 = false)
    (hlimit : 8 * (selector >>> 3).toNat + n - 1 ≤ gdtr.limit.toNat)
    (hw : ws[(selector >>> 3).toNat]? = some w) : descriptor mem gdtr selector n = .ok w := by
  have hword := h _ _ hw
  rw [hbase] at hword
  unfold descriptor
  dsimp only
  rw [if_neg (fun hno => ?_), hbase, table.read mem hsize, hword]
  obtain hno | hno | hno := hno
  · exact hindex hno
  · rw [hti] at hno
    cases hno
  · omega

end Tauos.X86
