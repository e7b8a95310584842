import Tauos.Utils.Bits

/-!
# What `copy_slice_bits` copies

The loop rotates each source byte into place and joins it with the carry of the byte
before, so that every byte of the destination range is rewritten, from the first to the
last. Then the bits next to the range are restored, those in front of it as they should.
But the pointer to the last byte is taken at the index of the first one, and so the bits
behind the range are restored in the first byte.

> `copy_slice_bits_exact_iff`: the copies that are exact. A range that ends with its last
> byte shifts by 8 and panics; a range inside one byte is copied right; a range over several
> bytes only if the bits that are restored in the wrong place, and those that are not
> restored, happen to be right.
-/

namespace Tauos.Utils

open Tauos.Rust

/-! ## Masks and rotated bytes -/

/-- `(1 << k) - 1`: the bits below `k`. -/
theorem getLsbD_lowMask {k j : Nat} (hk : k < 8) (hj : j < 8) :
    ((1#8 <<< k) - 1).getLsbD j = decide (j < k) := by
  have : ∀ k j : Fin 8, ((1#8 <<< k.1) - 1).getLsbD j.1 = decide (j.1 < k.1) := by decide
  exact this ⟨k, hk⟩ ⟨j, hj⟩

/-- A mask of the low bits. -/
theorem getLsbD_onesShr {n j : Nat} (hn : n ≤ 8) :
    (BitVec.allOnes 8 >>> (8 - n)).getLsbD j = decide (j < n) := by
  rw [BitVec.getLsbD_ushiftRight, BitVec.getLsbD_allOnes]
  simp only [decide_eq_decide]
  omega

/-- A mask of the high bits. -/
theorem getLsbD_onesShl {n j : Nat} (hj : j < 8) :
    (BitVec.allOnes 8 <<< n).getLsbD j = decide (n ≤ j) := by
  rw [BitVec.getLsbD_shiftLeft, BitVec.getLsbD_allOnes, decide_eq_true hj, Bool.true_and]
  have : decide (j - n < 8) = true := decide_eq_true (by omega)
  rw [this, Bool.and_true, ← decide_not]
  simp only [decide_eq_decide]
  omega

/-- A rotation moves the bits up, around the end. -/
theorem getLsbD_rotated {S : BitVec 8} {a j : Nat} (ha : a < 8) (hj : j < 8) :
    (S.rotateLeft a).getLsbD j = S.getLsbD ((j + 8 - a) % 8) := by
  rw [BitVec.getLsbD_rotateLeft, Nat.mod_eq_of_lt ha]
  by_cases h : j < a
  · rw [decide_eq_true h, cond_true]
    congr 1
    omega
  · rw [decide_eq_false h, cond_false, decide_eq_true hj, Bool.true_and]
    congr 1
    omega

/-- The byte `copy_slice_bits` writes: `new` holds the rotated source bits, `old`
is the byte before; `first` and `last` cut out the destination range. -/
def joinByte (old new : BitVec 8) (first last : Nat) : BitVec 8 :=
  (new &&& (BitVec.allOnes 8 <<< first) ||| old &&& (1#8 <<< first) - 1)
    &&& BitVec.allOnes 8 >>> (8 - last) ||| old &&& ~~~(BitVec.allOnes 8 >>> (8 - last))

/-- Inside the range the bits are new, outside they are old. -/
theorem getLsbD_joinByte {old new : BitVec 8} {first last j : Nat} (hlast : last ≤ 8)
    (hfirst : first < 8) (hj : j < 8) :
    (joinByte old new first last).getLsbD j
      = if first ≤ j ∧ j < last then new.getLsbD j else old.getLsbD j := by
  unfold joinByte
  simp only [BitVec.getLsbD_or, BitVec.getLsbD_and, BitVec.getLsbD_not, getLsbD_onesShr hlast,
    getLsbD_onesShl hj, getLsbD_lowMask hfirst hj, decide_eq_true hj, Bool.true_and]
  by_cases h1 : first ≤ j <;> by_cases h2 : j < last
  · simp [h1, h2, Nat.not_lt.mpr h1]
  · simp [h1, h2]
  · simp [h1, h2, Nat.not_le.mp h1]
  · simp [h1, h2, Nat.not_le.mp h1]

/-! ## The loop -/

section Loop

variable {src : List (BitVec 8)} {align : Nat} {mask : BitVec 8}

/-- The carry into the byte `k` of the loop. -/
def carryAt (src : List (BitVec 8)) (align : Nat) (mask : BitVec 8) (srcIndex : Nat)
    (carry : BitVec 8)
    (k : Nat) : BitVec 8 :=
  if k = 0 then carry else (src.getD (srcIndex + k - 1) 0).rotateLeft align &&& mask

/-- The carry of a later pass is that of one pass less from the next byte on. -/
theorem carryAt_succ (srcIndex : Nat) (carry : BitVec 8) (k : Nat) :
    carryAt src align mask srcIndex carry (k + 1)
      = carryAt src align mask (srcIndex + 1)
      ((src.getD srcIndex 0).rotateLeft align &&& mask) k := by
  unfold carryAt
  rw [if_neg (by omega)]
  by_cases hk : k = 0
  · rw [if_pos hk, hk]
    rfl
  · rw [if_neg hk]
    congr 3
    omega

/-- The bytes that the loop writes, and the carry it leaves. -/
theorem copyLoop_run : ∀ (count : Nat) (srcIndex dstIndex : Nat) (carry : BitVec 8)
    (dst : List (BitVec 8)), srcIndex + count ≤ src.length → dstIndex + count ≤ dst.length →
    ∃ dst', copyLoop src align mask count srcIndex dstIndex carry dst =
        .ok (dstIndex + count, carryAt src align mask srcIndex carry count, dst') ∧
      dst'.length = dst.length ∧
      ∀ i, dst'.getD i 0 = if dstIndex ≤ i ∧ i < dstIndex + count then
          (src.getD (srcIndex + (i - dstIndex)) 0).rotateLeft align &&& ~~~mask |||
            carryAt src align mask srcIndex carry (i - dstIndex)
        else dst.getD i 0 := by
  intro count
  induction count with
  | zero =>
    intro srcIndex dstIndex carry dst _ _
    refine ⟨dst, rfl, rfl, fun i => ?_⟩
    rw [if_neg (by omega)]
  | succ count ih =>
    intro srcIndex dstIndex carry dst hsrc hdst
    have hs : srcIndex < src.length := by omega
    have hd : dstIndex < dst.length := by omega
    obtain ⟨dst', hrun, hlen, hbytes⟩ := ih (srcIndex + 1) (dstIndex + 1)
      ((src.getD srcIndex 0).rotateLeft align &&& mask)
      (dst.set dstIndex ((src.getD srcIndex 0).rotateLeft align &&& ~~~mask ||| carry))
      (by omega) (by rw [List.length_set]; omega)
    refine ⟨dst', ?_, ?_, fun i => ?_⟩
    · rw [copyLoop, getByte_of_lt hs, ok_bind]
      dsimp only
      rw [setByte_of_lt hd, ok_bind, hrun, carryAt_succ, Nat.add_assoc, Nat.add_comm 1 count]
    · rw [hlen, List.length_set]
    · rw [hbytes, getD_set hd]
      by_cases hi : i = dstIndex
      · -- the byte of this turn, which the later turns leave
        subst hi
        rw [if_neg (by omega), if_pos rfl, if_pos (by omega), Nat.sub_self]
        rfl
      · rw [if_neg (show ¬dstIndex = i by omega)]
        by_cases hin : dstIndex + 1 ≤ i ∧ i < dstIndex + 1 + count
        · rw [if_pos hin, if_pos (by omega), show i - dstIndex = i - (dstIndex + 1) + 1 by omega,
            carryAt_succ,
            show srcIndex + (i - (dstIndex + 1) + 1) = srcIndex + 1 + (i - (dstIndex + 1)) by omega]
        · rw [if_neg hin, if_neg (by omega)]

/-- The carry has the bits that the rotation moved around. -/
theorem getLsbD_carry {lo : BitVec 8} {j : Nat} (ha : align < 8) (hj : j < 8) :
    (lo.rotateLeft align &&& (1#8 <<< align) - 1).getLsbD j
      = if align ≤ j then false else lo.getLsbD (j + 8 - align) := by
  rw [BitVec.getLsbD_and, getLsbD_lowMask ha hj, getLsbD_rotated ha hj]
  by_cases h : align ≤ j
  · rw [if_pos h, decide_eq_false (Nat.not_lt.mpr h), Bool.and_false]
  · rw [if_neg h, decide_eq_true (Nat.not_le.mp h), Bool.and_true,
      Nat.mod_eq_of_lt (show j + 8 - align < 8 by omega)]

/-- A clear byte carries nothing. -/
theorem carry_zero (ha : align < 8) :
    (0 : BitVec 8).rotateLeft align &&& (1#8 <<< align) - 1 = 0 := by
  apply BitVec.eq_of_getLsbD_eq
  intro j hj
  rw [getLsbD_carry ha hj]
  split <;> simp

/-- A byte of two rotated ones: from `align` on the bits of the later byte, below it the
upper bits of the earlier one. -/
theorem getLsbD_aligned {hi lo : BitVec 8} {j : Nat} (ha : align < 8) (hj : j < 8) :
    (hi.rotateLeft align &&& ~~~((1#8 <<< align) - 1)
        ||| lo.rotateLeft align &&& (1#8 <<< align) - 1).getLsbD j
      = if align ≤ j then hi.getLsbD (j - align) else lo.getLsbD (j + 8 - align) := by
  rw [BitVec.getLsbD_or, getLsbD_carry ha hj, BitVec.getLsbD_and, BitVec.getLsbD_not,
    getLsbD_lowMask ha hj, getLsbD_rotated ha hj, decide_eq_true hj]
  by_cases h : align ≤ j
  · rw [if_pos h, if_pos h, decide_eq_false (Nat.not_lt.mpr h),
      show (j + 8 - align) % 8 = j - align by omega]
    simp
  · rw [if_neg h, if_neg h, decide_eq_true (Nat.not_le.mp h)]
    simp

/-- The carry of a pass comes from the byte before. -/
theorem carryAt_eq (srcIndex : Nat) (lo : BitVec 8) (k : Nat) :
    carryAt src align mask srcIndex (lo.rotateLeft align &&& mask) k
      = (if k = 0 then lo else src.getD (srcIndex + k - 1) 0).rotateLeft align &&& mask := by
  unfold carryAt
  split <;> rfl

end Loop

/-! ## The copy -/

/-- `r` is `dst` with the `len` bits from `dstBit` on taken from `src`, there from
`srcBit` on. -/
structure BitsCopied (dst src r : List (BitVec 8)) (dstBit srcBit len : Nat) : Prop where
  length : r.length = dst.length
  bits : ∀ i, getBit r i
    = if dstBit ≤ i ∧ i < dstBit + len then getBit src (i - dstBit + srcBit) else getBit dst i

/-- The rotation. -/
def alignOffset (dstBit srcBit : Nat) : Nat := (dstBit % 8 + 8 - srcBit % 8) % 8

/-- The shift is below a byte. -/
theorem alignOffset_lt (dstBit srcBit : Nat) : alignOffset dstBit srcBit < 8 :=
    Nat.mod_lt _ (by norm_num)

/-- The source byte that the loop starts with. -/
def srcStart (dstBit srcBit : Nat) : Nat :=
  if dstBit % 8 < srcBit % 8 then srcBit / 8 + 1 else srcBit / 8

section Phase

variable {dstBit srcBit len : Nat}

/-- Where the bit for the position `p` comes from, by bytes. -/
theorem srcBit_eq (srcBit : Nat) {p : Nat} (h : dstBit ≤ p) :
    p - dstBit + srcBit + alignOffset dstBit srcBit
      = 8 * (srcStart dstBit srcBit + (p / 8 - dstBit / 8)) + p % 8 := by
  unfold alignOffset srcStart
  split <;> omega

/-- The carry is appended if the loop stops one byte short of the last one. -/
theorem appends_iff (hlen : 0 < len) :
    (!(decide (dstBit % 8 < srcBit % 8) ^^ decide ((dstBit + len - 1) / 8 - dstBit / 8
        = (srcBit + len - 1) / 8 - srcBit / 8))) = true
      ↔ (dstBit + len - 1) / 8 - dstBit / 8
        = (srcBit + len - 1) / 8 + 1 - srcStart dstBit srcBit := by
  unfold srcStart
  by_cases hwrap : dstBit % 8 < srcBit % 8
  · simp only [hwrap, decide_true, if_true, Bool.true_xor, Bool.not_not, decide_eq_true_eq]
    omega
  · simp only [hwrap, decide_false, if_false, Bool.false_xor, Bool.not_eq_true',
      decide_eq_false_iff_not]
    omega

end Phase

/-- The bit that the loop and the carry behind it leave at the position `p` of the
destination: that of the source, if it is in a byte of the source range. -/
def writtenBit (src : List (BitVec 8)) (dstBit srcBit len p : Nat) : Bool :=
  decide ((p - dstBit + srcBit) / 8 ≤ (srcBit + len - 1) / 8) && getBit src (p - dstBit + srcBit)

theorem ite_bind {α β : Type} {c : Prop} [Decidable c] {x y : Except Fault α}
    {f : α → Except Fault β} :
    (if c then x else y) >>= f = if c then x >>= f else y >>= f := by
  split <;> rfl

section Run

variable {dst src : List (BitVec 8)} {dstBit srcBit len : Nat}

/-- The bits that the loop and the carry behind it leave in the bytes of the range. -/
structure Filled (dst src filled : List (BitVec 8)) (dstBit srcBit len : Nat) : Prop where
  length : filled.length = dst.length
  outside : ∀ i, ¬(dstBit / 8 ≤ i ∧ i ≤ (dstBit + len - 1) / 8) → filled.getD i 0 = dst.getD i 0
  inside : ∀ p, dstBit ≤ p → p / 8 ≤ (dstBit + len - 1) / 8 →
    getBit filled p = writtenBit src dstBit srcBit len p

/-- A bit below the rotation comes from the byte before. -/
theorem carry_bit {lo : BitVec 8} {p : Nat} (hp : dstBit ≤ p)
    (hlo : dstBit % 8 < srcBit % 8 → lo = src.getD (srcBit / 8) 0)
    (hj : p % 8 < alignOffset dstBit srcBit) :
    (if p / 8 - dstBit / 8 = 0 then lo
        else src.getD (srcStart dstBit srcBit + (p / 8 - dstBit / 8) - 1) 0).getLsbD
        (p % 8 + 8 - alignOffset dstBit srcBit)
      = getBit src (p - dstBit + srcBit) := by
  have hq := srcBit_eq srcBit hp
  have ha := alignOffset_lt dstBit srcBit
  unfold getBit
  rw [show p % 8 + 8 - alignOffset dstBit srcBit = (p - dstBit + srcBit) % 8 by omega]
  by_cases hk : p / 8 - dstBit / 8 = 0
  · -- without a wrap the rotation moves the first bit to where the range starts
    have hwrap : dstBit % 8 < srcBit % 8 := by
      unfold alignOffset at hj
      omega
    rw [if_pos hk, hlo hwrap, show (p - dstBit + srcBit) / 8 = srcBit / 8 by
      unfold srcStart at hq
      rw [if_pos hwrap] at hq
      omega]
  · rw [if_neg hk, show (p - dstBit + srcBit) / 8
      = srcStart dstBit srcBit + (p / 8 - dstBit / 8) - 1 by omega]

/-- A bit of the byte that the loop writes at `p / 8`. -/
theorem loopByte_bit {lo : BitVec 8} {p : Nat} (hp : dstBit ≤ p)
    (hlo : dstBit % 8 < srcBit % 8 → lo = src.getD (srcBit / 8) 0)
    (hk : srcStart dstBit srcBit + (p / 8 - dstBit / 8) ≤ (srcBit + len - 1) / 8) :
    ((src.getD (srcStart dstBit srcBit + (p / 8 - dstBit / 8)) 0).rotateLeft (alignOffset dstBit srcBit)
        &&& ~~~((1#8 <<< alignOffset dstBit srcBit) - 1)
      ||| carryAt src (alignOffset dstBit srcBit) ((1#8 <<< alignOffset dstBit srcBit) - 1)
        (srcStart dstBit srcBit) (lo.rotateLeft (alignOffset dstBit srcBit)
          &&& (1#8 <<< alignOffset dstBit srcBit) - 1) (p / 8 - dstBit / 8)).getLsbD (p % 8)
      = writtenBit src dstBit srcBit len p := by
  have hq := srcBit_eq srcBit hp
  have ha := alignOffset_lt dstBit srcBit
  rw [carryAt_eq, getLsbD_aligned ha (Nat.mod_lt _ (by norm_num))]
  unfold writtenBit
  rw [decide_eq_true (by omega), Bool.true_and]
  by_cases hj : alignOffset dstBit srcBit ≤ p % 8
  · rw [if_pos hj]
    unfold getBit
    congr 2
    · omega
    · omega
  · rw [if_neg hj, carry_bit hp hlo (Nat.not_le.mp hj)]

/-- A bit of the carry that is appended. -/
theorem carryByte_bit {lo : BitVec 8} {p : Nat} (hp : dstBit ≤ p)
    (hlo : dstBit % 8 < srcBit % 8 → lo = src.getD (srcBit / 8) 0)
    (hk : srcStart dstBit srcBit + (p / 8 - dstBit / 8) = (srcBit + len - 1) / 8 + 1) :
    (carryAt src (alignOffset dstBit srcBit) ((1#8 <<< alignOffset dstBit srcBit) - 1)
        (srcStart dstBit srcBit) (lo.rotateLeft (alignOffset dstBit srcBit)
          &&& (1#8 <<< alignOffset dstBit srcBit) - 1) (p / 8 - dstBit / 8)).getLsbD (p % 8)
      = writtenBit src dstBit srcBit len p := by
  have hq := srcBit_eq srcBit hp
  have ha := alignOffset_lt dstBit srcBit
  rw [carryAt_eq, getLsbD_carry ha (Nat.mod_lt _ (by norm_num))]
  unfold writtenBit
  by_cases hj : alignOffset dstBit srcBit ≤ p % 8
  · rw [if_pos hj, decide_eq_false (by omega), Bool.false_and]
  · rw [if_neg hj, carry_bit hp hlo (Nat.not_le.mp hj), decide_eq_true (by omega), Bool.true_and]

/-- The loop and the carry behind it. -/
theorem fill_run {lo : BitVec 8} (hlen : 0 < len) (hs : srcBit + len ≤ 8 * src.length)
    (hd : dstBit + len ≤ 8 * dst.length)
    (hlo : dstBit % 8 < srcBit % 8 → lo = src.getD (srcBit / 8) 0) :
    ∃ filled, (do
        let (dstIndex, carry, dst) ← copyLoop src (alignOffset dstBit srcBit)
          ((1#8 <<< alignOffset dstBit srcBit) - 1)
          ((srcBit + len - 1) / 8 + 1 - srcStart dstBit srcBit) (srcStart dstBit srcBit)
          (dstBit / 8)
          (lo.rotateLeft (alignOffset dstBit srcBit) &&& (1#8 <<< alignOffset dstBit srcBit) - 1)
          dst
        if !(decide (dstBit % 8 < srcBit % 8) ^^ decide ((dstBit + len - 1) / 8 - dstBit / 8
            = (srcBit + len - 1) / 8 - srcBit / 8)) then
          setByte dst dstIndex carry
        else pure dst) = .ok filled ∧ Filled dst src filled dstBit srcBit len := by
  have hlast := srcBit_eq srcBit (show dstBit ≤ dstBit + len - 1 by omega)
  have ha := alignOffset_lt dstBit srcBit
  have hstart : srcStart dstBit srcBit ≤ (srcBit + len - 1) / 8 + 1 := by
    unfold srcStart
    split <;> omega
  obtain ⟨dst', hrun, hlen', hbytes⟩ := @copyLoop_run src
    (alignOffset dstBit srcBit) ((1#8 <<< alignOffset dstBit srcBit) - 1)
    ((srcBit + len - 1) / 8 + 1 - srcStart dstBit srcBit) (srcStart dstBit srcBit) (dstBit / 8)
    (lo.rotateLeft (alignOffset dstBit srcBit) &&& (1#8 <<< alignOffset dstBit srcBit) - 1) dst
    (by omega) (by omega)
  rw [hrun, ok_bind]
  dsimp only
  -- the last byte is appended from the carry unless the loop has reached it
  by_cases happ : (dstBit + len - 1) / 8 - dstBit / 8
      = (srcBit + len - 1) / 8 + 1 - srcStart dstBit srcBit
  · rw [if_pos ((appends_iff hlen).mpr happ), setByte_of_lt (by omega)]
    refine ⟨_, rfl, ?_, fun i hi => ?_, fun p hp hpl => ?_⟩
    · rw [List.length_set, hlen']
    · rw [getD_set (by omega), if_neg (by omega), hbytes, if_neg (by omega)]
    · unfold getBit
      rw [getD_set (by omega), hbytes]
      by_cases hk : dstBit / 8 + ((srcBit + len - 1) / 8 + 1 - srcStart dstBit srcBit) = p / 8
      · rw [if_pos hk, show (srcBit + len - 1) / 8 + 1 - srcStart dstBit srcBit =
          p / 8 - dstBit / 8 by omega]
        exact carryByte_bit hp hlo (by omega)
      · rw [if_neg hk, if_pos (by omega)]
        exact loopByte_bit hp hlo (by omega)
  · rw [if_neg (fun h => happ ((appends_iff hlen).mp h))]
    refine ⟨_, rfl, hlen', fun i hi => ?_, fun p hp hpl => ?_⟩
    · rw [hbytes, if_neg (by omega)]
    · unfold getBit
      rw [hbytes, if_pos (by omega)]
      exact loopByte_bit hp hlo (by omega)

/-- What a copy does: the bytes of the range are filled, and in the first of them both the
bits in front of the range and those from its end on are put back. -/
theorem copySliceBits_run (hlen : 0 < len) (hend : (dstBit + len) % 8 ≠ 0)
    (hs : srcBit + len ≤ 8 * src.length) (hd : dstBit + len ≤ 8 * dst.length) :
    ∃ filled, Filled dst src filled dstBit srcBit len ∧
      copySliceBits dst src dstBit srcBit len = .ok (filled.set (dstBit / 8)
        (joinByte (dst.getD (dstBit / 8) 0) (filled.getD (dstBit / 8) 0)
          (dstBit % 8) ((dstBit + len) % 8))) := by
  have hs' : (srcBit + len - 1) / 8 < src.length := by omega
  have hd' : (dstBit + len - 1) / 8 < dst.length := by omega
  have hones : onesShr (8 - (dstBit + len) % 8) =
      .ok (BitVec.allOnes 8 >>> (8 - (dstBit + len) % 8)) :=
    if_pos (by omega)
  -- what the loop starts with
  have hcarry : (if dstBit % 8 < srcBit % 8 then
        (do return (← getByte src (srcBit / 8)).rotateLeft (alignOffset dstBit srcBit)
          &&& (1#8 <<< alignOffset dstBit srcBit) - 1)
      else pure 0 : Except Fault (BitVec 8))
      = .ok ((if dstBit % 8 < srcBit % 8 then src.getD (srcBit / 8) 0 else 0).rotateLeft
        (alignOffset dstBit srcBit) &&& (1#8 <<< alignOffset dstBit srcBit) - 1) := by
    by_cases hwrap : dstBit % 8 < srcBit % 8
    · rw [if_pos hwrap, if_pos hwrap, getByte_of_lt (by omega)]
      rfl
    · rw [if_neg hwrap, if_neg hwrap, carry_zero (alignOffset_lt dstBit srcBit)]
      rfl
  have hlo : dstBit % 8 < srcBit % 8 →
      (if dstBit % 8 < srcBit % 8 then src.getD (srcBit / 8) 0 else 0) = src.getD (srcBit / 8) 0 :=
    fun h => if_pos h
  -- the bytes as filled; only the first of them is put back, twice
  obtain ⟨filled, hfill, hfilled⟩ := fill_run hlen hs hd hlo
  obtain ⟨⟨dstIndex, carry, looped⟩, hloop, happend⟩ := bind_ok hfill
  have hf : dstBit / 8 < filled.length := by
    rw [hfilled.length]
    omega
  refine ⟨filled, hfilled, ?_⟩
  unfold copySliceBits
  rw [if_neg (Nat.pos_iff_ne_zero.mp hlen)]
  dsimp only
  rw [decide_eq_true hs', decide_eq_true hd', show ensure true = .ok () from rfl, ok_bind, ok_bind,
    getByte_of_lt (by omega), ok_bind, hones, ok_bind]
  unfold alignOffset at hloop hcarry
  unfold srcStart at hloop
  simp only [decide_eq_true_eq]
  rw [← ite_bind, hcarry, ok_bind, hloop, ok_bind]
  dsimp only at happend ⊢
  rw [← ite_bind, happend, ok_bind, getByte_of_lt hf, ok_bind, setByte_of_lt hf, ok_bind,
    getByte_of_lt (by rw [List.length_set]; exact hf), ok_bind,
    setByte_of_lt (by rw [List.length_set]; exact hf), List.set_set, getD_set hf, if_pos rfl]
  rfl

/-- The bits of the result: the range without the bits that are put back, up to the end of
the last byte. -/
theorem copySliceBits_bits (hlen : 0 < len) (hend : (dstBit + len) % 8 ≠ 0)
    (hs : srcBit + len ≤ 8 * src.length) (hd : dstBit + len ≤ 8 * dst.length) :
    ∃ r, copySliceBits dst src dstBit srcBit len = .ok r ∧ r.length = dst.length ∧
      ∀ p, getBit r p = if dstBit ≤ p ∧ p / 8 ≤ (dstBit + len - 1) / 8 ∧
          (p / 8 = dstBit / 8 → p % 8 < (dstBit + len) % 8)
        then writtenBit src dstBit srcBit len p else getBit dst p := by
  obtain ⟨filled, hfilled, hrun⟩ := copySliceBits_run hlen hend hs hd
  refine ⟨_, hrun, by rw [List.length_set, hfilled.length], fun p => ?_⟩
  have hbase : dstBit / 8 < filled.length := by
    rw [hfilled.length]
    omega
  have hmod : p % 8 < 8 := Nat.mod_lt _ (by norm_num)
  unfold getBit
  rw [getD_set hbase]
  by_cases hfirst : dstBit / 8 = p / 8
  · -- the first byte
    rw [if_pos hfirst, getLsbD_joinByte (by omega) (by omega) hmod, hfirst]
    by_cases hin : dstBit % 8 ≤ p % 8 ∧ p % 8 < (dstBit + len) % 8
    · rw [if_pos hin, if_pos (by omega)]
      exact hfilled.inside p (by omega) (by omega)
    · rw [if_neg hin, if_neg (by omega)]
  · rw [if_neg hfirst]
    by_cases hin : dstBit ≤ p ∧ p / 8 ≤ (dstBit + len - 1) / 8
    · rw [if_pos (by omega)]
      exact hfilled.inside p hin.1 hin.2
    · rw [if_neg (by omega), hfilled.outside _ (by omega)]

/-- Where the source goes on, it is the bit of the source. -/
theorem writtenBit_eq {p : Nat} (hp : (p - dstBit + srcBit) / 8 ≤ (srcBit + len - 1) / 8) :
    writtenBit src dstBit srcBit len p = getBit src (p - dstBit + srcBit) := by
  unfold writtenBit
  rw [decide_eq_true hp, Bool.true_and]

/-- A range that ends inside the byte it starts in is copied exactly. -/
theorem copySliceBits_inside (hlen : 0 < len) (hend : (dstBit + len) % 8 ≠ 0)
    (hone : (dstBit + len - 1) / 8 = dstBit / 8) (hs : srcBit + len ≤ 8 * src.length)
    (hd : dstBit + len ≤ 8 * dst.length) :
    ∃ r, copySliceBits dst src dstBit srcBit len = .ok r ∧
      BitsCopied dst src r dstBit srcBit len := by
  obtain ⟨r, hrun, hlength, hbits⟩ := copySliceBits_bits hlen hend hs hd
  refine ⟨r, hrun, hlength, fun p => ?_⟩
  rw [hbits]
  by_cases hin : dstBit ≤ p ∧ p < dstBit + len
  · rw [if_pos hin, if_pos (by omega), writtenBit_eq (by omega)]
  · rw [if_neg hin, if_neg (by omega)]

/-- A copy whose ranges each stay inside one byte, the destination ending before
the end of its byte, is exact. -/
theorem copySliceBits_single (hlen : 0 < len) (hsrc : srcBit % 8 + len ≤ 8)
    (hdst : dstBit % 8 + len < 8) (hs : srcBit / 8 < src.length) (hd : dstBit / 8 < dst.length) :
    ∃ r, copySliceBits dst src dstBit srcBit len = .ok r ∧ BitsCopied dst src r dstBit srcBit len :=
  copySliceBits_inside hlen (by omega) (by omega) (by omega) (by omega)

/-- A copy that ends flush with a destination byte shifts `ONES` by 8. -/
theorem copySliceBits_panics (hlen : 0 < len)
    (hend : (dstBit + len) % 8 = 0) (hs : (srcBit + len - 1) / 8 < src.length)
    (hd : (dstBit + len - 1) / 8 < dst.length) :
    copySliceBits dst src dstBit srcBit len = .error .overflow := by
  have hd' : dstBit / 8 < dst.length := by omega
  unfold copySliceBits
  rw [if_neg (Nat.pos_iff_ne_zero.mp hlen)]
  dsimp only
  simp only [ensure, hs, hd, decide_true, if_true]
  show (getByte dst (dstBit / 8) >>= _) = _
  rw [getByte_of_lt hd', hend]
  rfl

/-- A range over several bytes is copied exactly if the bits of the first byte that are put
back by mistake are those to be copied, and the bits that are written behind the range are
those that were there. -/
theorem bits_copied_across_iff {r : List (BitVec 8)} (hlen : 0 < len)
    (hacross : (dstBit + len - 1) / 8 ≠ dstBit / 8) (hlength : r.length = dst.length)
    (hbits : ∀ p, getBit r p = if dstBit ≤ p ∧ p / 8 ≤ (dstBit + len - 1) / 8 ∧
        (p / 8 = dstBit / 8 → p % 8 < (dstBit + len) % 8)
      then writtenBit src dstBit srcBit len p else getBit dst p) :
    BitsCopied dst src r dstBit srcBit len ↔
      (∀ p, dstBit ≤ p → p / 8 = dstBit / 8 → (dstBit + len) % 8 ≤ p % 8 →
        getBit dst p = getBit src (p - dstBit + srcBit)) ∧
      ∀ p, dstBit + len ≤ p → p / 8 = (dstBit + len - 1) / 8 →
        getBit dst p = writtenBit src dstBit srcBit len p := by
  refine ⟨fun h => ⟨fun p hp hbyte he => ?_, fun p hp hbyte => ?_⟩,
    fun h => ⟨hlength, fun p => ?_⟩⟩
  · have := h.bits p
    rw [hbits, if_neg (by omega), if_pos (by omega)] at this
    exact this
  · have := h.bits p
    rw [hbits, if_pos (by omega), if_neg (by omega)] at this
    exact this.symm
  · rw [hbits]
    by_cases hin : dstBit ≤ p ∧ p < dstBit + len
    · rw [if_pos hin]
      by_cases hback : p / 8 = dstBit / 8 ∧ (dstBit + len) % 8 ≤ p % 8
      · rw [if_neg (by omega), h.1 p hin.1 hback.1 hback.2]
      · rw [if_pos (by omega), writtenBit_eq (by omega)]
    · rw [if_neg hin]
      by_cases hbehind : dstBit + len ≤ p ∧ p / 8 = (dstBit + len - 1) / 8
      · rw [if_pos (by omega), h.2 p hbehind.1 hbehind.2]
      · rw [if_neg (by omega)]

/-- When `copy_slice_bits` returns and has copied the bits of the range and no others. -/
theorem copy_slice_bits_exact_iff (hs : srcBit + len ≤ 8 * src.length)
    (hd : dstBit + len ≤ 8 * dst.length) :
    (∃ r, copySliceBits dst src dstBit srcBit len = .ok r ∧
      BitsCopied dst src r dstBit srcBit len) ↔
      len = 0 ∨ (dstBit + len) % 8 ≠ 0 ∧ ((dstBit + len - 1) / 8 = dstBit / 8 ∨
        (∀ p, dstBit ≤ p → p / 8 = dstBit / 8 → (dstBit + len) % 8 ≤ p % 8 →
          getBit dst p = getBit src (p - dstBit + srcBit)) ∧
        ∀ p, dstBit + len ≤ p → p / 8 = (dstBit + len - 1) / 8 →
          getBit dst p = (decide ((p - dstBit + srcBit) / 8 ≤ (srcBit + len - 1) / 8)
            && getBit src (p - dstBit + srcBit))) := by
  by_cases hlen : len = 0
  · refine iff_of_true ⟨dst, if_pos hlen, rfl, fun p => ?_⟩ (.inl hlen)
    rw [if_neg (by omega)]
  by_cases hend : (dstBit + len) % 8 = 0
  · refine iff_of_false (fun ⟨r, hrun, _⟩ => ?_) (fun h => ?_)
    · rw [copySliceBits_panics (by omega) hend (by omega) (by omega)] at hrun
      cases hrun
    · exact h.elim hlen fun h => h.1 hend
  by_cases hone : (dstBit + len - 1) / 8 = dstBit / 8
  · exact iff_of_true (copySliceBits_inside (by omega) hend hone hs hd) (.inr ⟨hend, .inl hone⟩)
  obtain ⟨r, hrun, hlength, hbits⟩ := copySliceBits_bits (by omega) hend hs hd
  have hiff := bits_copied_across_iff (by omega) hone hlength hbits
  refine ⟨fun ⟨r', hrun', hcopied⟩ => ?_, fun h => ⟨r, hrun, hiff.mpr ?_⟩⟩
  · rw [hrun] at hrun'
    cases hrun'
    exact .inr ⟨hend, .inr (hiff.mp hcopied)⟩
  · exact ((h.resolve_left hlen).2).resolve_left hone

/-- Eleven bits across the end of a byte, onto bytes that have the next bits of the source where
they are overwritten. -/
theorem copy_slice_bits_exact_across :
    ∃ r, copySliceBits [0xC5#8, 0x40#8] [0xB4#8, 0x9B#8] 3 1 11 = .ok r ∧
      BitsCopied [0xC5#8, 0x40#8] [0xB4#8, 0x9B#8] r 3 1 11 := by
  have hfront : ∀ p < 8, 6 ≤ p % 8 →
      getBit [0xC5#8, 0x40#8] p = getBit [0xB4#8, 0x9B#8] (p - 3 + 1) := by decide
  have hbehind : ∀ p < 16, 14 ≤ p → getBit [0xC5#8, 0x40#8] p
      = (decide ((p - 3 + 1) / 8 ≤ (1 + 11 - 1) / 8) && getBit [0xB4#8, 0x9B#8] (p - 3 + 1)) := by
    decide
  exact (copy_slice_bits_exact_iff (by decide) (by decide)).mpr (.inr ⟨by decide, .inr
    ⟨fun p _ h2 h3 => hfront p (by omega) h3, fun p h1 h2 => hbehind p (by omega) h1⟩⟩)

/-- Twelve set bits over two clear bytes: the upper half of the first one is cleared again, and
the upper half of the second one is set. -/
theorem bits_copied_wrong :
    ¬∃ r, copySliceBits [0#8, 0#8] [0xFF#8, 0xFF#8] 0 0 12 = .ok r ∧
      BitsCopied [0#8, 0#8] [0xFF#8, 0xFF#8] r 0 0 12 := by
  rintro ⟨r, hrun, hcopied⟩
  have hr : r = [0x0F#8, 0xFF#8] := by
    have : copySliceBits [0#8, 0#8] [0xFF#8, 0xFF#8] 0 0 12 = .ok [0x0F#8, 0xFF#8] := by decide
    rw [this] at hrun
    cases hrun
    rfl
  have := hcopied.bits 4
  rw [hr] at this
  revert this
  decide

end Run

end Tauos.Utils
