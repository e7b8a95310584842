import Mathlib.Tactic.IntervalCases
import Tauos.Amd64.Paging
import Tauos.Rust.Fields

/-!
# The page attribute table

`Pat` and `PatType` of `amd64/src/paging.rs`, and the model specific registers of `registers.rs`.
The register of the table has a byte for each index, and its processor takes the low three bits of
the byte for the memory type of a page with that index.

> `read_iff`: `Pat::read` returns a table exactly when `Pat::write` of it would change nothing.
-/

namespace Tauos.Amd64

open Tauos.Rust

/-! ## Model specific registers -/

/-- By what is in `ecx`. -/
abbrev Msrs := BitVec 32 → BitVec 64

/-- `rdmsr`: each half comes in a register of its own. -/
def rdmsr (msr : BitVec 64) (msrs : Msrs) : BitVec 64 :=
  let value := msrs (msr.setWidth 32)
  let low := (value.setWidth 32).setWidth 64
  let high := ((value >>> 32).setWidth 32).setWidth 64
  high <<< 32 ||| low

/-- `wrmsr`: the processor takes the low halves of `eax` and `edx`. -/
def wrmsr (msr data : BitVec 64) (msrs : Msrs) : Msrs :=
  let high := data >>> 32
  let low := data
  fun i => if i = msr.setWidth 32 then high.setWidth 32 ++ low.setWidth 32 else msrs i

/-- `rdmsr` reads the register. -/
theorem rdmsr_eq (msr : BitVec 64) (msrs : Msrs) : rdmsr msr msrs = msrs (msr.setWidth 32) := by
  apply BitVec.eq_of_getLsbD_eq
  intro j hj
  unfold rdmsr
  simp only [BitVec.getLsbD_or, BitVec.getLsbD_shiftLeft, BitVec.getLsbD_setWidth,
    BitVec.getLsbD_ushiftRight]
  rcases Nat.lt_or_ge j 32 with hlow | hhigh
  · simp [hlow, hj]
  · have hsub : 32 + (j - 32) = j := by omega
    have hlt : j - 32 < 32 := by omega
    have hlt' : j - 32 < 64 := by omega
    simp [Nat.not_lt.mpr hhigh, hsub, hlt, hlt', hj]

/-- `wrmsr` writes the register. -/
theorem wrmsr_self (msr data : BitVec 64) (msrs : Msrs) :
    wrmsr msr data msrs (msr.setWidth 32) = data := by
  refine (if_pos rfl).trans ?_
  exact (append_setWidth data 32 32).trans (BitVec.setWidth_eq data)

/-- And no other one. -/
theorem wrmsr_ne {msr : BitVec 64} {i : BitVec 32} (hi : i ≠ msr.setWidth 32) (data : BitVec 64)
    (msrs : Msrs) : wrmsr msr data msrs i = msrs i := if_neg hi

/-! ## The table -/

/-- The types of memory. -/
inductive PatType
  | uncacheable
  | writeCombining
  | writeThrough
  | writeProtect
  | writeBack
  | uncacheableMinus
  deriving DecidableEq, Repr

namespace PatType

/-- `PatType::to_bits`. -/
def toBits : PatType → BitVec 8
  | uncacheable => 0
  | writeCombining => 1
  | writeThrough => 4
  | writeProtect => 5
  | writeBack => 6
  | uncacheableMinus => 7

/-- `PatType::from_bits`. -/
def fromBits (code : BitVec 8) : Except Fault PatType :=
  if code = 0 then .ok uncacheable
  else if code = 1 then .ok writeCombining
  else if code = 4 then .ok writeThrough
  else if code = 5 then .ok writeProtect
  else if code = 6 then .ok writeBack
  else if code = 7 then .ok uncacheableMinus
  else .error .assertion

/-- A type survives its code. -/
theorem fromBits_toBits (t : PatType) : fromBits t.toBits = .ok t := by cases t <;> rfl

/-- A code that is read is that of the type. -/
theorem fromBits_ok {code : BitVec 8} {t : PatType} (h : fromBits code = .ok t) :
    code = t.toBits := by
  revert code
  cases t <;> decide

end PatType

/-- The types in order. -/
structure Pat where
  /-- the types where the PAT bit is clear -/
  stdTypes : Vector PatType 4
  /-- the types where it is set -/
  patTypes : Vector PatType 4

namespace Pat

def PAT_MSR : BitVec 64 := 0x277

/-- `Pat::read`. -/
def read (msrs : Msrs) : Except Fault Pat := do
  let patMsr := rdmsr PAT_MSR msrs
  return {
    stdTypes := #v[← PatType.fromBits ((patMsr >>> 0).setWidth 8),
      ← PatType.fromBits ((patMsr >>> 8).setWidth 8),
      ← PatType.fromBits ((patMsr >>> 16).setWidth 8),
      ← PatType.fromBits ((patMsr >>> 24).setWidth 8)]
    patTypes := #v[← PatType.fromBits ((patMsr >>> 32).setWidth 8),
      ← PatType.fromBits ((patMsr >>> 40).setWidth 8),
      ← PatType.fromBits ((patMsr >>> 48).setWidth 8),
      ← PatType.fromBits ((patMsr >>> 56).setWidth 8)] }

/-- The value that `Pat::write` puts together. -/
def bits (self : Pat) : BitVec 64 :=
  let pat := 0
  let pat := pat ||| self.stdTypes[0].toBits.setWidth 64 <<< 0
  let pat := pat ||| self.stdTypes[1].toBits.setWidth 64 <<< 8
  let pat := pat ||| self.stdTypes[2].toBits.setWidth 64 <<< 16
  let pat := pat ||| self.stdTypes[3].toBits.setWidth 64 <<< 24
  let pat := pat ||| self.patTypes[0].toBits.setWidth 64 <<< 32
  let pat := pat ||| self.patTypes[1].toBits.setWidth 64 <<< 40
  let pat := pat ||| self.patTypes[2].toBits.setWidth 64 <<< 48
  pat ||| self.patTypes[3].toBits.setWidth 64 <<< 56

/-- `Pat::write`. -/
def write (self : Pat) (msrs : Msrs) : Msrs := wrmsr PAT_MSR self.bits msrs

/-- The types by their indices. -/
def types (self : Pat) : Vector PatType 8 :=
  #v[self.stdTypes[0], self.stdTypes[1], self.stdTypes[2], self.stdTypes[3], self.patTypes[0],
    self.patTypes[1], self.patTypes[2], self.patTypes[3]]

end Pat

/-- The type that the processor gives a page with an index. -/
def memoryType (msrs : Msrs) (patIdx : Nat) : BitVec 3 := (msrs 0x277).extractLsb' (8 * patIdx) 3

/-- A byte of a word, of a byte that is shifted. -/
theorem byte_shifted (b : BitVec 8) {n m : Nat} (hn : 8 ∣ n) (hm : 8 ∣ m) (hlt : m < 64) :
    ((b.setWidth 64 <<< n) >>> m).setWidth 8 = if n = m then b else 0#8 := by
  obtain ⟨k, rfl⟩ := hn
  obtain ⟨i, rfl⟩ := hm
  apply BitVec.eq_of_getLsbD_eq
  intro j hj
  rw [BitVec.getLsbD_setWidth, BitVec.getLsbD_ushiftRight, BitVec.getLsbD_shiftLeft,
    BitVec.getLsbD_setWidth, decide_eq_true hj, decide_eq_true (show 8 * i + j < 64 by omega)]
  split
  next heq =>
    rw [decide_eq_false (by omega), decide_eq_true (show 8 * i + j - 8 * k < 64 by omega),
      show 8 * i + j - 8 * k = j by omega]
    rfl
  next hne =>
    rw [BitVec.getLsbD_zero]
    rcases Nat.lt_or_ge (8 * i + j) (8 * k) with hbelow | habove
    · rw [decide_eq_true hbelow]
      rfl
    · rw [BitVec.getLsbD_of_ge b _ (by omega), Bool.and_false, Bool.and_false, Bool.and_false]

/-- The byte of an index. -/
theorem bits_byte (pat : Pat) {i : Nat} (hi : i < 8) :
    (pat.bits >>> (8 * i)).setWidth 8 = pat.types[i].toBits := by
  have hlt : 8 * i < 64 := by omega
  unfold Pat.bits Pat.types
  simp (disch := omega) only [BitVec.ushiftRight_or_distrib, BitVec.setWidth_or, byte_shifted]
  interval_cases i
  all_goals simp

/-- What was written is read back. -/
theorem read_write (pat : Pat) (msrs : Msrs) : Pat.read (pat.write msrs) = .ok pat := by
  have hmsr : rdmsr Pat.PAT_MSR (pat.write msrs) = pat.bits :=
    (rdmsr_eq ..).trans (wrmsr_self ..)
  have hbyte : ∀ i (hi : i < 8), PatType.fromBits ((pat.bits >>> (8 * i)).setWidth 8)
      = .ok pat.types[i] := by
    intro i hi
    rw [bits_byte pat hi, PatType.fromBits_toBits]
  unfold Pat.read
  rw [hmsr]
  simp only [show PatType.fromBits ((pat.bits >>> 0).setWidth 8) = _ from hbyte 0 (by decide),
    show PatType.fromBits ((pat.bits >>> 8).setWidth 8) = _ from hbyte 1 (by decide),
    show PatType.fromBits ((pat.bits >>> 16).setWidth 8) = _ from hbyte 2 (by decide),
    show PatType.fromBits ((pat.bits >>> 24).setWidth 8) = _ from hbyte 3 (by decide),
    show PatType.fromBits ((pat.bits >>> 32).setWidth 8) = _ from hbyte 4 (by decide),
    show PatType.fromBits ((pat.bits >>> 40).setWidth 8) = _ from hbyte 5 (by decide),
    show PatType.fromBits ((pat.bits >>> 48).setWidth 8) = _ from hbyte 6 (by decide),
    show PatType.fromBits ((pat.bits >>> 56).setWidth 8) = _ from hbyte 7 (by decide), ok_bind]
  have hstd : #v[pat.types[0], pat.types[1], pat.types[2], pat.types[3]] = pat.stdTypes := by
    ext i hi
    interval_cases i
    all_goals rfl
  have hpat : #v[pat.types[4], pat.types[5], pat.types[6], pat.types[7]] = pat.patTypes := by
    ext i hi
    interval_cases i
    all_goals rfl
  rw [hstd, hpat]
  rfl

/-- A word is the bytes that it is put together from. -/
theorem eq_of_bytes {x y : BitVec 64}
    (h : ∀ i < 8, (x >>> (8 * i)).setWidth 8 = (y >>> (8 * i)).setWidth 8) : x = y := by
  apply BitVec.eq_of_getLsbD_eq
  intro j hj
  have hbyte := congrArg (BitVec.getLsbD · (j % 8)) (h (j / 8) (by omega))
  have hmod : j % 8 < 8 := Nat.mod_lt j (by decide)
  simp only [BitVec.getLsbD_setWidth, BitVec.getLsbD_ushiftRight, hmod, decide_true, Bool.true_and,
    Nat.div_add_mod] at hbyte
  exact hbyte

/-- What is read has the bytes of the register. -/
theorem read_bytes {pat : Pat} {msrs : Msrs} (h : Pat.read msrs = .ok pat) :
    ∀ i (hi : i < 8), (msrs 0x277 >>> (8 * i)).setWidth 8 = pat.types[i].toBits := by
  unfold Pat.read at h
  rw [rdmsr_eq] at h
  obtain ⟨t₀, h₀, h⟩ := bind_ok h
  obtain ⟨t₁, h₁, h⟩ := bind_ok h
  obtain ⟨t₂, h₂, h⟩ := bind_ok h
  obtain ⟨t₃, h₃, h⟩ := bind_ok h
  obtain ⟨t₄, h₄, h⟩ := bind_ok h
  obtain ⟨t₅, h₅, h⟩ := bind_ok h
  obtain ⟨t₆, h₆, h⟩ := bind_ok h
  obtain ⟨t₇, h₇, h⟩ := bind_ok h
  cases h
  intro i hi
  interval_cases i
  · exact PatType.fromBits_ok h₀
  · exact PatType.fromBits_ok h₁
  · exact PatType.fromBits_ok h₂
  · exact PatType.fromBits_ok h₃
  · exact PatType.fromBits_ok h₄
  · exact PatType.fromBits_ok h₅
  · exact PatType.fromBits_ok h₆
  · exact PatType.fromBits_ok h₇

/-- `Pat::read` returns a table exactly when `Pat::write` of it would change no register. -/
theorem read_iff (pat : Pat) (msrs : Msrs) : Pat.read msrs = .ok pat ↔ pat.write msrs = msrs := by
  constructor
  · intro h
    have hbits : pat.bits = msrs 0x277 := eq_of_bytes fun i hi =>
      (bits_byte pat hi).trans (read_bytes h i hi).symm
    funext i
    by_cases hi : i = 0x277
    · subst hi
      exact (wrmsr_self ..).trans hbits
    · exact wrmsr_ne hi _ _
  · intro h
    rw [← h]
    exact read_write pat msrs

/-- The processor has the type that was written for an index. -/
theorem memoryType_write (pat : Pat) (msrs : Msrs) {i : Nat} (hi : i < 8) :
    memoryType (pat.write msrs) i = pat.types[i].toBits.setWidth 3 := by
  have hmsr : pat.write msrs 0x277 = pat.bits := wrmsr_self ..
  unfold memoryType
  rw [hmsr, ← bits_byte pat hi, BitVec.setWidth_setWidth_of_le _ (by decide)]
  rfl

end Tauos.Amd64
