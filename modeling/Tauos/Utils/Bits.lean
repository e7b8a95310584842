import Tauos.Rust.Bytes

/-!
# `kernel/src/utils/mod.rs`: powers of two and bit copies

The three `fast_non0_*` helpers and `copy_slice_bits`. The helpers are stated
for the nonzero arguments their safety comments ask for.

`copySliceBits` follows the source byte for byte, including that
`dst_acme_ptr` is taken at `dst_index_base` and that `ONES >> BITS - n` with
`n = 0` shifts a `u8` by its own width, which panics. `Utils.CopyBits` says what
it copies.
-/

namespace Tauos.Utils

open Tauos.Rust

/-- `fast_non0_log2`: `usize::BITS - 1 ^ val.leading_zeros()`. -/
def fastNon0Log2 (val : Nat) : Nat := 63 ^^^ leadingZeros val

/-- `fast_non0_prev_pow2`. -/
def fastNon0PrevPow2 (val : Nat) : Nat := 1 <<< fastNon0Log2 val

/-- `fast_non0_next_pow2`: `1 << u64::BITS - (val - 1).leading_zeros()`. -/
def fastNon0NextPow2 (val : Nat) : Nat := 1 <<< (64 - leadingZeros (val - 1))

/-- It is the logarithm. -/
theorem fastNon0Log2_eq {val : Nat} (h0 : val ≠ 0) (h : val < 2 ^ 64) :
    fastNon0Log2 val = val.log2 := by
  have hl : val.log2 < 64 := (Nat.log2_lt h0).mpr h
  unfold fastNon0Log2 leadingZeros
  rw [if_neg h0]
  generalize val.log2 = l at hl
  revert l
  decide

theorem fastNon0Log2_two_pow {k : Nat} (hk : k < 64) : fastNon0Log2 (2 ^ k) = k := by
  rw [fastNon0Log2_eq (Nat.two_pow_pos k).ne' (Nat.pow_lt_pow_right (by norm_num) hk),
    Nat.log2_two_pow]

/-- It is the largest power of two that is not larger. -/
theorem fastNon0PrevPow2_eq {val : Nat} (h0 : val ≠ 0) (h : val < 2 ^ 64) :
    fastNon0PrevPow2 val = 2 ^ val.log2 := by
  unfold fastNon0PrevPow2
  rw [fastNon0Log2_eq h0 h, Nat.one_shiftLeft]

/-- The next power of two: exponent `0` for one, `log2 (val - 1) + 1` otherwise. -/
theorem fastNon0NextPow2_eq {val : Nat} (_h0 : val ≠ 0) (h : val ≤ 2 ^ 63) :
    ∃ c, fastNon0NextPow2 val = 2 ^ c ∧ val ≤ 2 ^ c ∧ c ≤ 63 ∧ ∀ m, val ≤ 2 ^ m → c ≤ m := by
  unfold fastNon0NextPow2 leadingZeros
  by_cases h1 : val - 1 = 0
  · exact ⟨0, by simp [h1], by omega, by omega, fun m _ => Nat.zero_le m⟩
  · have hl : (val - 1).log2 < 63 := (Nat.log2_lt h1).mpr (by omega)
    have hlo := Nat.lt_log2_self (n := val - 1)
    refine ⟨(val - 1).log2 + 1, ?_, by omega, by omega, fun m hm => ?_⟩
    · rw [if_neg h1, Nat.one_shiftLeft]
      congr 1
      omega
    · have : (val - 1).log2 < m := (Nat.log2_lt h1).mpr (by omega)
      omega

/-! ## `copy_slice_bits` -/

/-- `ONES >> n` on `u8`: the shift amount has to be below 8. -/
def onesShr (n : Nat) : Except Fault (BitVec 8) :=
  if n < 8 then .ok (BitVec.allOnes 8 >>> n) else .error .overflow

/-- The copy loop: `count` source bytes from `srcIndex` on, rotated into place
and joined with the carry of the byte before. -/
def copyLoop (src : List (BitVec 8)) (align : Nat) (mask : BitVec 8) :
    Nat → Nat → Nat → BitVec 8 → List (BitVec 8) →
      Except Fault (Nat × BitVec 8 × List (BitVec 8))
  | 0, _, dstIndex, carry, dst => .ok (dstIndex, carry, dst)
  | count + 1, srcIndex, dstIndex, carry, dst => do
    let rol := (← getByte src srcIndex).rotateLeft align
    let dst ← setByte dst dstIndex (rol &&& ~~~mask ||| carry)
    copyLoop src align mask count (srcIndex + 1) (dstIndex + 1) (rol &&& mask) dst

/-- `copy_slice_bits`. -/
def copySliceBits (dst src : List (BitVec 8)) (dstBitIndex srcBitIndex bitLen : Nat) :
    Except Fault (List (BitVec 8)) :=
  if bitLen = 0 then .ok dst else do
  let srcIndexBase := srcBitIndex / 8
  let srcIndexAcme := (srcBitIndex + bitLen - 1) / 8
  let dstIndexBase := dstBitIndex / 8
  let dstIndexAcme := (dstBitIndex + bitLen - 1) / 8
  ensure (srcIndexAcme < src.length)
  ensure (dstIndexAcme < dst.length)
  -- both pointers are taken at `dst_index_base`
  let dstFirst ← getByte dst dstIndexBase
  let lastMask ← onesShr (8 - (dstBitIndex + bitLen) % 8)
  let dstFirstExt := dstFirst &&& (1#8 <<< (dstBitIndex % 8)) - 1
  let dstLastExt := dstFirst &&& ~~~lastMask
  let diffWraps := decide (dstBitIndex % 8 < srcBitIndex % 8)
  let bitAlignOffset := (dstBitIndex % 8 + 8 - srcBitIndex % 8) % 8
  let bitCarryMask := (1#8 <<< bitAlignOffset) - 1
  let carry ← if diffWraps then
      (do return (← getByte src srcIndexBase).rotateLeft bitAlignOffset &&& bitCarryMask)
    else pure 0
  let srcIndex := if diffWraps then srcIndexBase + 1 else srcIndexBase
  let (dstIndex, carry, dst) ← copyLoop src bitAlignOffset bitCarryMask
    (srcIndexAcme + 1 - srcIndex) srcIndex dstIndexBase carry dst
  let dst ← if !(diffWraps ^^ decide (dstIndexAcme - dstIndexBase = srcIndexAcme - srcIndexBase)) then
      setByte dst dstIndex carry
    else pure dst
  let dst ← setByte dst dstIndexBase
    ((← getByte dst dstIndexBase) &&& (BitVec.allOnes 8 <<< (dstBitIndex % 8)) ||| dstFirstExt)
  setByte dst dstIndexBase ((← getByte dst dstIndexBase) &&& lastMask ||| dstLastExt)

end Tauos.Utils
