import Mathlib.Data.Nat.Bitwise
import Tauos.Utils.Bits
import Tauos.Buddy.Dyadic

/-!
# The arena of a `Talloc` and its arithmetic

`kernel/src/memm/talloc.rs`: the four geometry fields of `Talloc`, the size and
index arithmetic on them (`block_granularity`, `bitmap_offset`,
`is_lower_buddy`, `layout_to_size`, `slice_bytes`, `req_free_mem`) and the
`Layout` type of `core`.

`Natural a K J` is an arena in its intended position: `arena_size_pow2 = 2 ^ K`,
`smlst_block = 2 ^ J`, the base a multiple of `2 ^ K` and the end not past
`isize::MAX`. There a block of granularity `g` has size `2 ^ (K - g)`, and the
bit of a buddy pair depends on the pair alone:

> `bitmapOffset_inj`: two blocks of the arena, below its full size, have the
> same bit exactly when they have the same size and the same parent.
-/

namespace Tauos.Memm

open Tauos.Rust Tauos.Utils Tauos.Buddy

/-- `core::alloc::Layout`. -/
structure Layout where
  size : Nat
  align : Nat
  deriving DecidableEq, Repr

/-- What `Layout` promises: a power-of-two alignment, and a size that does not
overflow `isize` when rounded up to it. -/
structure Layout.Valid (l : Layout) : Prop where
  align : ∃ a, l.align = 2 ^ a
  size : l.size + l.align ≤ 2 ^ 63

/-- A raw slice `*mut [u8]`: address and length in bytes. -/
structure Slice where
  ptr : Int
  len : Nat
  deriving DecidableEq, Repr

/-- The address `x` lies in the slice. -/
def Slice.Mem (s : Slice) (x : Int) : Prop := s.ptr ≤ x ∧ x < s.ptr + s.len

instance (s : Slice) (x : Int) : Decidable (s.Mem x) := inferInstanceAs (Decidable (_ ∧ _))

/-- The geometry fields of `Talloc`. -/
structure Arena where
  arenaBase : Int
  arenaSize : Nat
  arenaSizePow2 : Nat
  smlstBlock : Nat
  deriving DecidableEq, Repr

/-- `size_of::<LlistNode<()>>()`: two pointers. -/
def nodeSize : Nat := 16

/-- `is_lower_buddy`. -/
def isLowerBuddy (blockBase : Int) (size : Nat) : Bool := asUsize blockBase &&& size == 0

/-- `usize::is_power_of_two`. -/
def isPowerOfTwo (n : Nat) : Bool := n != 0 && (n &&& (n - 1)) == 0

namespace Arena

/-- `Talloc::block_granularity`: a subtraction of `u32` leading zero counts. -/
def blockGranularity (a : Arena) (size : Nat) : Except Fault Nat :=
  usizeSub (leadingZeros size) (leadingZeros a.arenaSizePow2)

/-- `Talloc::bitmap_offset`. -/
def bitmapOffset (a : Arena) (base : Int) (size : Nat) : Except Fault Nat := do
  let alignedArenaBase := maskDown a.arenaBase (size <<< 1)
  let fieldOffset := asUsize (← isizeSub base alignedArenaBase)
  return (← usizeAdd a.arenaSizePow2 fieldOffset) >>> (fastNon0Log2 size + 1)

/-- `Talloc::layout_to_size`. -/
def layoutToSize (a : Arena) (layout : Layout) : Nat :=
  fastNon0PrevPow2 (fastNon0NextPow2 layout.size ||| layout.align ||| a.smlstBlock)

end Arena

/-- `Talloc::validate_arena_args`. -/
def validateArenaArgs (arenaSize smallestBlock : Nat) : Except Fault Unit := do
  ensure (decide (1 <<< 6 ≤ arenaSize))
  ensure (decide (arenaSize ≤ 1 <<< 48))
  ensure (isPowerOfTwo smallestBlock)
  ensure (decide (nodeSize ≤ smallestBlock))

/-- `Talloc::slice_bytes`: the `llists` and `bitmap` lengths in bytes. -/
def sliceBytes (arenaSize smallestBlock : Nat) : Except Fault (Nat × Nat) := do
  validateArenaArgs arenaSize smallestBlock
  let llistsLen := (← usizeSub ((arenaSize - 1).log2 + 1) smallestBlock.log2) + 1
  let bitmapLen := 1 <<< llistsLen >>> 3
  return (llistsLen * nodeSize, if bitmapLen ≠ 0 then bitmapLen else 1)

/-- `Talloc::req_free_mem`. -/
def reqFreeMem (smlstBlock : Nat) (arenaBase : Int) (arenaSize : Nat) : Except Fault Nat := do
  let (llBytes, bmBytes) ← sliceBytes arenaSize smlstBlock
  return asUsize arenaBase % 16 + llBytes + bmBytes

/-! ## Sizes -/

/-- The logarithm of a disjunction is the larger one. -/
theorem log2_or {x y : Nat} (hx : x ≠ 0) (hy : y ≠ 0) :
    (x ||| y).log2 = max x.log2 y.log2 := by
  have hne : x ||| y ≠ 0 := fun h => hx (by
    have := Nat.left_le_or (n := x) (m := y)
    omega)
  rw [Nat.log2_eq_iff hne]
  constructor
  · rcases Nat.le_total x.log2 y.log2 with h | h
    · rw [Nat.max_eq_right h]
      exact Nat.le_trans (Nat.log2_self_le hy) Nat.right_le_or
    · rw [Nat.max_eq_left h]
      exact Nat.le_trans (Nat.log2_self_le hx) Nat.left_le_or
  · apply Nat.or_lt_two_pow
    · exact Nat.lt_of_lt_of_le Nat.lt_log2_self (Nat.pow_le_pow_right (by norm_num) (by omega))
    · exact Nat.lt_of_lt_of_le Nat.lt_log2_self (Nat.pow_le_pow_right (by norm_num) (by omega))

/-- The size of the blocks of a granularity. -/
theorem two_pow_shiftRight {K g : Nat} (hg : g ≤ K) : 2 ^ K >>> g = 2 ^ (K - g) := by
  rw [Nat.shiftRight_eq_div_pow, Nat.pow_div hg (by norm_num)]

/-- `layout_to_size` of three exponents is their maximum. -/
theorem layoutToSize_two_pow {a : Arena} {l : Layout} {c x J : Nat}
    (hc : fastNon0NextPow2 l.size = 2 ^ c) (hx : l.align = 2 ^ x) (hJ : a.smlstBlock = 2 ^ J)
    (hc' : c < 64) (hx' : x < 64) (hJ' : J < 64) :
    a.layoutToSize l = 2 ^ (max (max c x) J) := by
  have hpos : ∀ k, 2 ^ k ≠ 0 := fun k => (Nat.two_pow_pos k).ne'
  have hlt : ∀ k, k < 64 → 2 ^ k < 2 ^ 64 := fun k hk => Nat.pow_lt_pow_right (by norm_num) hk
  have hor : 2 ^ c ||| 2 ^ x ≠ 0 := fun h => hpos c (by
    have := Nat.left_le_or (n := 2 ^ c) (m := 2 ^ x)
    omega)
  have hor' : 2 ^ c ||| 2 ^ x ||| 2 ^ J ≠ 0 := fun h => hpos J (by
    have := Nat.right_le_or (n := 2 ^ c ||| 2 ^ x) (m := 2 ^ J)
    omega)
  unfold Arena.layoutToSize
  rw [hc, hx, hJ, fastNon0PrevPow2_eq hor'
    (Nat.or_lt_two_pow (Nat.or_lt_two_pow (hlt c hc') (hlt x hx')) (hlt J hJ')),
    log2_or hor (hpos J), log2_or (hpos c) (hpos x), Nat.log2_two_pow, Nat.log2_two_pow,
    Nat.log2_two_pow]

/-- The exponent of the block size, for any size and alignment. -/
theorem layoutToSize_max {a : Arena} {l : Layout} {J x : Nat} (hs : l.size ≤ 2 ^ 63)
    (h0 : l.size ≠ 0)
    (hx : l.align = 2 ^ x) (hx' : x < 64) (hJ : a.smlstBlock = 2 ^ J) (hJ' : J < 64) :
    ∃ c, a.layoutToSize l = 2 ^ (max (max c x) J) ∧ c ≤ 63 ∧ l.size ≤ 2 ^ c ∧
      ∀ m, l.size ≤ 2 ^ m → c ≤ m := by
  obtain ⟨c, hc, hcs, hc63, hmin⟩ := fastNon0NextPow2_eq h0 hs
  exact ⟨c, layoutToSize_two_pow hc hx hJ (by omega) hx' hJ', hc63, hcs, hmin⟩

/-- The exponent of the block size for a layout. -/
theorem layoutToSize_exp {a : Arena} {l : Layout} {J : Nat} (hl : l.Valid) (h0 : l.size ≠ 0)
    (hJ : a.smlstBlock = 2 ^ J) (hJ' : J < 64) :
    ∃ c x, a.layoutToSize l = 2 ^ (max (max c x) J) ∧ l.align = 2 ^ x ∧ x < 64 ∧ c ≤ 63 ∧
      l.size ≤ 2 ^ c ∧ ∀ m, l.size ≤ 2 ^ m → c ≤ m := by
  obtain ⟨x, hx⟩ := hl.align
  have hsz := hl.size
  have hx' : x < 64 := by
    by_contra hcon
    have : 2 ^ 64 ≤ 2 ^ x := Nat.pow_le_pow_right (by norm_num) (by omega)
    omega
  obtain ⟨c, heq, hc63, hcs, hmin⟩ :=
    layoutToSize_max (show l.size ≤ 2 ^ 63 by omega) h0 hx hx' hJ hJ'
  exact ⟨c, x, heq, hx, hx', hc63, hcs, hmin⟩

/-- The block size for a layout is a power of two that is large enough, aligned
enough and not below the smallest block. -/
theorem layoutToSize_spec {a : Arena} {l : Layout} {J : Nat} (hl : l.Valid) (h0 : l.size ≠ 0)
    (hJ : a.smlstBlock = 2 ^ J) (hJ' : J < 64) :
    ∃ m, a.layoutToSize l = 2 ^ m ∧ J ≤ m ∧ m < 64 ∧ l.size ≤ 2 ^ m ∧ l.align ∣ 2 ^ m := by
  obtain ⟨c, x, heq, hx, hx', hc63, hcs, _⟩ := layoutToSize_exp hl h0 hJ hJ'
  refine ⟨max (max c x) J, heq, by omega, by omega, ?_, ?_⟩
  · exact Nat.le_trans hcs (Nat.pow_le_pow_right (by norm_num) (by omega))
  · rw [hx]
    exact pow_dvd_pow 2 (by omega)

/-- It is the least such power of two. -/
theorem layoutToSize_le {a : Arena} {l : Layout} {J e : Nat} (hl : l.Valid) (h0 : l.size ≠ 0)
    (hJ : a.smlstBlock = 2 ^ J) (hJ' : J < 64) (hJe : J ≤ e) (hs : l.size ≤ 2 ^ e)
    (ha : l.align ≤ 2 ^ e) : a.layoutToSize l ≤ 2 ^ e := by
  obtain ⟨c, x, heq, hx, _, _, _, hmin⟩ := layoutToSize_exp hl h0 hJ hJ'
  have hce := hmin e hs
  have hxe : x ≤ e := by
    rw [hx] at ha
    exact (Nat.pow_le_pow_iff_right (by norm_num)).mp ha
  rw [heq]
  exact Nat.pow_le_pow_right (by norm_num) (by omega)

/-- `layout_to_size` of the layouts `release` makes up. -/
theorem layoutToSize_block {a : Arena} {m J : Nat} (hJ : a.smlstBlock = 2 ^ J) (hJm : J ≤ m)
    (hm : m < 64) : a.layoutToSize ⟨2 ^ m, 1⟩ = 2 ^ m := by
  have hle : 2 ^ m ≤ 2 ^ 63 := Nat.pow_le_pow_right (by norm_num) (by omega)
  obtain ⟨c, hc, hcs, hc63, hmin⟩ := fastNon0NextPow2_eq (Nat.two_pow_pos m).ne' hle
  have hcm : c = m := by
    apply Nat.le_antisymm (hmin m (Nat.le_refl _))
    by_contra hcon
    have : 2 ^ c < 2 ^ m := Nat.pow_lt_pow_right (by norm_num) (by omega)
    omega
  have := layoutToSize_two_pow (a := a) (l := ⟨2 ^ m, 1⟩) (x := 0) hc rfl hJ
    (by omega) (by omega) (by omega)
  rw [this]
  congr 1
  omega

/-- What `is_power_of_two` says. -/
theorem isPowerOfTwo_iff {n : Nat} : isPowerOfTwo n = true ↔ ∃ k, n = 2 ^ k := by
  have := Nat.ne_zero_and_sub_one_eq_zero_iff_isPowerOfTwo (n := n)
  unfold isPowerOfTwo
  rw [Nat.isPowerOfTwo] at this
  simpa using this

/-- What `validate_arena_args` lets through. -/
theorem validateArenaArgs_ok {n s : Nat} (h : validateArenaArgs n s = .ok ()) :
    64 ≤ n ∧ n ≤ 2 ^ 48 ∧ ∃ J, 4 ≤ J ∧ s = 2 ^ J := by
  unfold validateArenaArgs at h
  cases h1 : ensure (decide (1 <<< 6 ≤ n)) with
  | error f => rw [h1] at h; cases h
  | ok u1 =>
  cases h2 : ensure (decide (n ≤ 1 <<< 48)) with
  | error f => rw [h1, h2] at h; cases h
  | ok u2 =>
  cases h3 : ensure (isPowerOfTwo s) with
  | error f => rw [h1, h2, h3] at h; cases h
  | ok u3 =>
  rw [h1, h2, h3] at h
  have e1 : 64 ≤ n := by simpa using ensure_ok h1
  have e2 : n ≤ 2 ^ 48 := by simpa using ensure_ok h2
  have e4 : nodeSize ≤ s := by simpa using ensure_ok h
  obtain ⟨J, rfl⟩ := isPowerOfTwo_iff.mp (ensure_ok h3)
  refine ⟨e1, e2, J, ?_, rfl⟩
  by_contra hcon
  have : 2 ^ J ≤ 2 ^ 3 := Nat.pow_le_pow_right (by norm_num) (by omega)
  unfold nodeSize at e4
  omega

/-- Arguments that are accepted. -/
theorem validateArenaArgs_of {n J : Nat} (h1 : 64 ≤ n) (h2 : n ≤ 2 ^ 48) (hJ : 4 ≤ J) :
    validateArenaArgs n (2 ^ J) = .ok () := by
  have hp : isPowerOfTwo (2 ^ J) = true := isPowerOfTwo_iff.mpr ⟨J, rfl⟩
  have hs : nodeSize ≤ 2 ^ J := by
    have : 2 ^ 4 ≤ 2 ^ J := Nat.pow_le_pow_right (by norm_num) hJ
    unfold nodeSize
    omega
  unfold validateArenaArgs ensure
  have h2' : n ≤ 281474976710656 := by simpa using h2
  simp [hp, hs, h1, h2']
  rfl

/-- The lengths of the two status slices, for an arena of `2 ^ K` bytes rounded up. -/
theorem sliceBytes_of {n K J : Nat} (h1 : 64 ≤ n) (h2 : n ≤ 2 ^ 48) (hJ : 4 ≤ J)
    (hK : nextPowerOfTwo n = 2 ^ K) (hJK : J ≤ K) :
    sliceBytes n (2 ^ J) = .ok ((K - J + 1) * nodeSize, max (2 ^ (K - J + 1) / 8) 1) := by
  obtain ⟨k, hk, _, _, hlog⟩ := nextPowerOfTwo_spec (show 2 ≤ n by omega)
  have hkK : k = K := Nat.pow_right_injective (Nat.le_refl 2) (hk.symm.trans hK)
  subst hkK
  unfold sliceBytes
  rw [validateArenaArgs_of h1 h2 hJ, hlog, Nat.log2_two_pow, usizeSub_of_le hJK]
  have hshift : 1 <<< (k - J + 1) >>> 3 = 2 ^ (k - J + 1) / 8 := by
    rw [Nat.one_shiftLeft, Nat.shiftRight_eq_div_pow]
  show Except.ok ((k - J + 1) * nodeSize,
    if 1 <<< (k - J + 1) >>> 3 ≠ 0 then 1 <<< (k - J + 1) >>> 3 else 1) = _
  rw [hshift]
  generalize 2 ^ (k - J + 1) / 8 = n
  congr 2
  split <;> omega

/-- What `slice_bytes` accepts, and what it returns. -/
theorem sliceBytes_ok {n s : Nat} {r : Nat × Nat} (h : sliceBytes n s = .ok r) :
    ∃ K J, s = 2 ^ J ∧ nextPowerOfTwo n = 2 ^ K ∧ 4 ≤ J ∧ J ≤ K ∧ K ≤ 48 ∧ 64 ≤ n ∧ n ≤ 2 ^ K ∧
      r = ((K - J + 1) * nodeSize, max (2 ^ (K - J + 1) / 8) 1) := by
  have hval : validateArenaArgs n s = .ok () := by
    cases hv : validateArenaArgs n s with
    | ok u => rfl
    | error f =>
      unfold sliceBytes at h
      rw [hv] at h
      cases h
  obtain ⟨h1, h2, J, hJ, rfl⟩ := validateArenaArgs_ok hval
  obtain ⟨K, hK, hle, hlt, hlog⟩ := nextPowerOfTwo_spec (show 2 ≤ n by omega)
  have hK48 : K ≤ 48 := by
    by_contra hcon
    have : 2 ^ 49 ≤ 2 ^ K := Nat.pow_le_pow_right (by norm_num) (by omega)
    omega
  have hJK : J ≤ K := by
    by_contra hcon
    have hsub : usizeSub K J = .error .underflow := if_neg hcon
    unfold sliceBytes at h
    rw [hval, hlog, Nat.log2_two_pow, hsub] at h
    cases h
  rw [sliceBytes_of h1 h2 hJ hK hJK] at h
  cases h
  exact ⟨K, J, rfl, hK, hJ, hJK, hK48, h1, hle, rfl⟩

/-! ## Naturally aligned arenas -/

/-- An arena of size at most `2 ^ K`, smallest block `2 ^ J`, whose base is a
multiple of `2 ^ K` and whose end is an `isize`. -/
structure Natural (a : Arena) (K J : Nat) : Prop where
  pow2 : a.arenaSizePow2 = 2 ^ K
  smlst : a.smlstBlock = 2 ^ J
  hJ : 4 ≤ J
  hJK : J ≤ K
  hK : K ≤ 48
  size : a.arenaSize ≤ 2 ^ K
  base : Aligned K a.arenaBase
  lo : -2 ^ 63 ≤ a.arenaBase
  hi : a.arenaBase + a.arenaSize < 2 ^ 63

/-- The block of exponent `e` at `b` lies inside the arena. -/
def Arena.Holds (a : Arena) (e : Nat) (b : Int) : Prop :=
  a.arenaBase ≤ b ∧ b + 2 ^ e ≤ a.arenaBase + a.arenaSize

instance (a : Arena) (e : Nat) (b : Int) : Decidable (a.Holds e b) :=
  inferInstanceAs (Decidable (_ ∧ _))

/-- The arena lies in the canonical 48-bit address space. -/
def Arena.Low48 (a : Arena) : Prop := -2 ^ 47 ≤ a.arenaBase ∧ a.arenaBase + a.arenaSize ≤ 2 ^ 47

/-- The arena is no larger than its power of two. -/
theorem Natural.cast_pow {a : Arena} {K J : Nat} (h : Natural a K J) :
    (a.arenaSize : Int) ≤ 2 ^ K := by exact_mod_cast h.size

/-- Every address of the arena is an `isize`. -/
theorem Natural.inIsize {a : Arena} {K J : Nat} (h : Natural a K J) {x : Int}
    (h1 : a.arenaBase ≤ x) (h2 : x ≤ a.arenaBase + a.arenaSize) : InIsize x :=
  ⟨by linarith [h.lo], by linarith [h.hi]⟩

/-- The index of a block size of the arena. -/
theorem blockGranularity_of {a : Arena} {K e : Nat} (h : a.arenaSizePow2 = 2 ^ K) (hK : K < 64)
    (he : e ≤ K) :
    a.blockGranularity (2 ^ e) = .ok (K - e) := by
  unfold Arena.blockGranularity
  rw [h, leadingZeros_two_pow, leadingZeros_two_pow, usizeSub_of_le (by omega)]
  congr 1
  omega

/-- The granularity of a block counts down from the arena. -/
theorem Natural.blockGranularity {a : Arena} {K J e : Nat} (h : Natural a K J) (he : e ≤ K) :
    a.blockGranularity (2 ^ e) = .ok (K - e) := by
  have hK := h.hK
  exact blockGranularity_of h.pow2 (by omega) he

/-- A lower buddy is aligned like its parent. -/
theorem Natural.isLowerBuddy {e : Nat} {b : Int} (he : e < 64) (hb : Aligned e b) :
    isLowerBuddy b (2 ^ e) = true ↔ Aligned (e + 1) b := by
  have hbit : (asUsize b).testBit e = true ↔ ¬ Aligned (e + 1) b := by
    have hmod : asUsize b % 2 ^ e = 0 := by
      have := Int.emod_eq_zero_of_dvd hb
      rw [← asUsize_emod (by omega)] at this
      exact_mod_cast this
    have hiff : Aligned (e + 1) b ↔ asUsize b % 2 ^ (e + 1) = 0 := by
      unfold Aligned
      rw [Int.dvd_iff_emod_eq_zero, ← asUsize_emod (by omega)]
      exact_mod_cast Iff.rfl
    rw [hiff, Nat.testBit_eq_decide_div_mod_eq, decide_eq_true_iff, Nat.pow_succ,
      Nat.mod_mul, hmod]
    have := Nat.two_pow_pos e
    rcases Nat.mod_two_eq_zero_or_one (asUsize b / 2 ^ e) with h0 | h1
    · simp [h0]
    · simp [h1]
  have hand : (asUsize b &&& 2 ^ e == 0) = !(asUsize b).testBit e := by
    rw [Nat.and_two_pow]
    cases (asUsize b).testBit e <;> simp
  unfold Memm.isLowerBuddy
  rw [hand, Bool.not_eq_true', ← Bool.not_eq_true, hbit, not_not]

/-- The bit index of a block of a naturally aligned arena: the field of its size
starts at `2 ^ (K - 1 - e)` and has one bit for each pair. -/
def bitIndex (K : Nat) (base : Int) (e : Nat) (b : Int) : Nat :=
  2 ^ (K - 1 - e) + (b - base).toNat / 2 ^ (e + 1)

/-- `bitmap_offset`, when the distance to the rounded arena base is small. -/
theorem bitmapOffset_eq {a : Arena} {K e : Nat} {b : Int} (hpow : a.arenaSizePow2 = 2 ^ K)
    (hK : K ≤ 48) (he : e < K) (hbase : InIsize a.arenaBase)
    (h0 : floorBlock (e + 1) a.arenaBase ≤ b)
    (h1 : b - floorBlock (e + 1) a.arenaBase < 2 ^ 50) :
    a.bitmapOffset b (2 ^ e)
      = .ok (2 ^ (K - 1 - e) + (b - floorBlock (e + 1) a.arenaBase).toNat / 2 ^ (e + 1)) := by
  have hmask : maskDown a.arenaBase (2 ^ e <<< 1) = floorBlock (e + 1) a.arenaBase := by
    rw [Nat.shiftLeft_eq, ← Nat.pow_add]
    exact maskDown_two_pow hbase (by omega)
  have hpow48 : 2 ^ K ≤ 2 ^ 48 := Nat.pow_le_pow_right (by norm_num) hK
  have hfit : 2 ^ K + (b - floorBlock (e + 1) a.arenaBase).toNat < 2 ^ 64 := by omega
  dsimp only [Arena.bitmapOffset]
  rw [hmask, isizeSub_of_inIsize ⟨by omega, by omega⟩]
  show (usizeAdd a.arenaSizePow2 (asUsize (b - floorBlock (e + 1) a.arenaBase)) >>= _) = _
  rw [hpow, asUsize_of_nonneg (by omega) (by omega), usizeAdd_of_lt hfit]
  show Except.ok ((2 ^ K + _) >>> (fastNon0Log2 (2 ^ e) + 1)) = _
  have hK' : 2 ^ K = 2 ^ (K - 1 - e) * 2 ^ (e + 1) := by
    rw [← Nat.pow_add]
    congr 1
    omega
  rw [fastNon0Log2_two_pow (by omega), Nat.shiftRight_eq_div_pow, hK', Nat.add_comm,
    Nat.add_mul_div_right _ _ (Nat.two_pow_pos _), Nat.add_comm]

/-- In a naturally aligned arena the bit of a block of exponent `e < K`. -/
theorem Natural.bitmapOffset {a : Arena} {K J e : Nat} (h : Natural a K J) (he : e < K) {b : Int}
    (hb : a.arenaBase ≤ b) (hb' : b < a.arenaBase + 2 ^ K) :
    a.bitmapOffset b (2 ^ e) = .ok (bitIndex K a.arenaBase e b) := by
  have hK := h.hK
  have hlt : (2 : Int) ^ K ≤ 2 ^ 48 := pow_le_pow_right₀ (by norm_num) hK
  have hin : InIsize a.arenaBase := ⟨h.lo, by have := h.hi; omega⟩
  have hal : floorBlock (e + 1) a.arenaBase = a.arenaBase :=
    floorBlock_of_aligned (h.base.mono (show e + 1 ≤ K by omega))
  have := bitmapOffset_eq (b := b) h.pow2 hK he hin (by rw [hal]; exact hb) (by rw [hal]; omega)
  rw [hal] at this
  exact this

/-- Bit 0 is of no pair. -/
theorem bitIndex_ne_zero (K : Nat) (base : Int) (e : Nat) (b : Int) : bitIndex K base e b ≠ 0 := by
  have hpos := Nat.two_pow_pos (K - 1 - e)
  unfold bitIndex
  exact Nat.ne_of_gt (Nat.add_pos_left hpos _)

/-- The bits of a granularity are next to each other. -/
theorem bitIndex_bounds {K e : Nat} {base b : Int} (he : e < K) (hb : base ≤ b)
    (hb' : b < base + 2 ^ K) :
    2 ^ (K - 1 - e) ≤ bitIndex K base e b ∧ bitIndex K base e b < 2 ^ (K - e) := by
  unfold bitIndex
  refine ⟨Nat.le_add_right _ _, ?_⟩
  have hd : (b - base).toNat / 2 ^ (e + 1) < 2 ^ (K - 1 - e) := by
    rw [Nat.div_lt_iff_lt_mul (Nat.two_pow_pos _), ← Nat.pow_add,
      show K - 1 - e + (e + 1) = K by omega]
    have : ((b - base).toNat : Int) < 2 ^ K := by omega
    exact_mod_cast this
  have : 2 ^ (K - e) = 2 ^ (K - 1 - e) + 2 ^ (K - 1 - e) := by
    rw [show K - e = K - 1 - e + 1 by omega]
    ring
  omega

/-- One bit per buddy pair: equal indices mean equal size and equal parent. -/
theorem bitIndex_inj {K e e' : Nat} {base b b' : Int} (hbase : Aligned K base) (he : e < K)
    (he' : e' < K) (hb : base ≤ b) (hb2 : b < base + 2 ^ K) (hb' : base ≤ b')
    (hb2' : b' < base + 2 ^ K) :
    bitIndex K base e b = bitIndex K base e' b' ↔
      e = e' ∧ floorBlock (e + 1) b = floorBlock (e + 1) b' := by
  have key : ∀ {x : Int}, base ≤ x → ∀ {i : Nat}, i < K →
      (((x - base).toNat / 2 ^ (i + 1) : Nat) : Int) = x / 2 ^ (i + 1) - base / 2 ^ (i + 1) := by
    intro x hx i hi
    push_cast
    rw [Int.toNat_of_nonneg (by omega)]
    have hdvd : (2 ^ (i + 1) : Int) ∣ base := hbase.mono (show i + 1 ≤ K by omega)
    rw [Int.sub_ediv_of_dvd x hdvd]
  constructor
  · intro heq
    obtain ⟨h1, h2⟩ := bitIndex_bounds he hb hb2
    obtain ⟨h3, h4⟩ := bitIndex_bounds he' hb' hb2'
    -- the indices of each size are between two powers of two
    have hee : e = e' := by
      by_contra hne
      rcases Nat.lt_or_ge e e' with hlt | hge
      · have : 2 ^ (K - e') ≤ 2 ^ (K - 1 - e) := Nat.pow_le_pow_right (by norm_num) (by omega)
        omega
      · have : 2 ^ (K - e) ≤ 2 ^ (K - 1 - e') := Nat.pow_le_pow_right (by norm_num) (by omega)
        omega
    subst hee
    refine ⟨rfl, ?_⟩
    unfold bitIndex at heq
    have hd : (b - base).toNat / 2 ^ (e + 1) = (b' - base).toNat / 2 ^ (e + 1) := by omega
    have hd' := congrArg (Nat.cast (R := Int)) hd
    rw [key hb he, key hb' he] at hd'
    unfold floorBlock
    rw [show b / 2 ^ (e + 1) = b' / 2 ^ (e + 1) by omega]
  · rintro ⟨rfl, hfl⟩
    unfold bitIndex
    congr 1
    have hp := two_pow_pos (e + 1)
    have hq : b / 2 ^ (e + 1) = b' / 2 ^ (e + 1) := by
      unfold floorBlock at hfl
      exact Int.eq_of_mul_eq_mul_right (ne_of_gt hp) hfl
    have h1 := key hb he
    have h2 := key hb' he
    rw [hq, ← h2] at h1
    exact_mod_cast h1

/-- Blocks of a naturally aligned arena share a bit exactly when they are of one
size and of one buddy pair. -/
theorem Natural.bitmapOffset_inj {a : Arena} {K J e e' : Nat} (h : Natural a K J) (he : e < K)
    (he' : e' < K) {b b' : Int} (hb : a.arenaBase ≤ b) (hb2 : b < a.arenaBase + 2 ^ K)
    (hb' : a.arenaBase ≤ b') (hb2' : b' < a.arenaBase + 2 ^ K) :
    a.bitmapOffset b (2 ^ e) = a.bitmapOffset b' (2 ^ e') ↔
      e = e' ∧ floorBlock (e + 1) b = floorBlock (e + 1) b' := by
  rw [h.bitmapOffset he hb hb2, h.bitmapOffset he' hb' hb2', Except.ok.injEq]
  exact bitIndex_inj h.base he he' hb hb2 hb' hb2'

/-- A block in the arena starts below the end of the power-of-two span. -/
theorem Natural.lt_of_holds {a : Arena} {K J e : Nat} (h : Natural a K J) {b : Int}
    (hb : a.Holds e b) : b < a.arenaBase + 2 ^ K := by
  have := hb.2
  have := h.cast_pow
  have := two_pow_pos e
  omega

end Tauos.Memm
