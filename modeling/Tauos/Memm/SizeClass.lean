import Mathlib.Order.Bounds.Basic
import Tauos.Memm.Arena

/-!
# Size classes

The lists of a `Talloc` are indexed by `block_granularity`, without a bounds check, and their
number comes from `slice_bytes`. Three functions have to agree: `slice_bytes` on how many
sizes there are from `smallest_block` to the rounded arena, `layout_to_size` on which of
them a layout gets, and `block_granularity` on the index of that size.

They do, as soon as there is such a size. `validate_arena_args` lets arenas through that are
smaller than `smallest_block`, and `slice_bytes` subtracts the logarithms unchecked.

> `size_classes_iff`: every size class has a list exactly if the smallest block is not
> larger than the rounded arena.
-/

namespace Tauos.Memm

open Tauos.Rust Tauos.Utils

/-- The block sizes that serve a layout: powers of two. -/
def Serves (smallestBlock : Nat) (l : Layout) : Set Nat :=
  {n | (∃ m, n = 2 ^ m) ∧ l.size ≤ n ∧ l.align ≤ n ∧ smallestBlock ≤ n}

/-- The layouts `layout_to_size` is asked for: any `usize` power of two as the alignment. -/
structure Layout.Sized (l : Layout) : Prop where
  nonzero : l.size ≠ 0
  size : l.size < 2 ^ 63
  align : ∃ x < 64, l.align = 2 ^ x

/-- The arena of a `Talloc` with these arguments. -/
def arenaOf (arenaBase : Int) (arenaSize smallestBlock : Nat) : Arena :=
  ⟨arenaBase, arenaSize, nextPowerOfTwo arenaSize, smallestBlock⟩

/-- `slice_bytes` returns, with `lists` lists; the size of a layout is the least that serves it, and
indexes one of them. -/
structure SizeClasses (arenaSize smallestBlock lists : Nat) : Prop where
  bytes : ∃ bitmap, sliceBytes arenaSize smallestBlock = .ok (lists * nodeSize, bitmap)
  count : lists = (nextPowerOfTwo arenaSize / smallestBlock).log2 + 1
  least : ∀ arenaBase l, l.Sized →
    IsLeast (Serves smallestBlock l) ((arenaOf arenaBase arenaSize smallestBlock).layoutToSize l)
  index : ∀ arenaBase l, l.Sized →
    (arenaOf arenaBase arenaSize smallestBlock).layoutToSize l ≤ arenaSize →
    ∃ g, (arenaOf arenaBase arenaSize smallestBlock).blockGranularity
        ((arenaOf arenaBase arenaSize smallestBlock).layoutToSize l) = .ok g ∧
      g < lists ∧ nextPowerOfTwo arenaSize >>> g
        = (arenaOf arenaBase arenaSize smallestBlock).layoutToSize l

section Sizes

variable {a : Arena} {l : Layout} {J K : Nat}

/-- `layout_to_size` of any layout. -/
theorem layoutToSize_isLeast (hl : l.Sized) (hJ : a.smlstBlock = 2 ^ J) (hJ' : J < 64) :
    ∃ m, J ≤ m ∧ a.layoutToSize l = 2 ^ m ∧ IsLeast (Serves (2 ^ J) l) (2 ^ m) := by
  obtain ⟨x, hx', hx⟩ := hl.align
  have hsize := hl.size
  obtain ⟨c, heq, _, hcs, hmin⟩ :=
    layoutToSize_max (show l.size ≤ 2 ^ 63 by omega) hl.nonzero hx hx' hJ hJ'
  have hpow : ∀ {i j : Nat}, i ≤ j → 2 ^ i ≤ 2 ^ j := fun h => Nat.pow_le_pow_right (by norm_num) h
  refine ⟨max (max c x) J, by omega, heq, ⟨⟨_, rfl⟩, ?_, ?_, hpow (by omega)⟩, fun n hn => ?_⟩
  · exact hcs.trans (hpow (by omega))
  · rw [hx]
    exact hpow (by omega)
  · obtain ⟨⟨m, rfl⟩, h1, h2, h3⟩ := hn
    rw [hx] at h2
    have hc := hmin m h1
    have hxm : x ≤ m := (Nat.pow_le_pow_iff_right (by norm_num)).mp h2
    have hJm : J ≤ m := (Nat.pow_le_pow_iff_right (by norm_num)).mp h3
    exact hpow (by omega)

/-- The number of sizes from the smallest block to the rounded arena. -/
theorem log2_div_two_pow (h : J ≤ K) : (2 ^ K / 2 ^ J).log2 = K - J := by
  rw [Nat.pow_div h (by norm_num), Nat.log2_two_pow]

end Sizes

/-- Every size class has a list exactly if there is one. -/
theorem size_classes_iff {arenaSize smallestBlock : Nat}
    (h : validateArenaArgs arenaSize smallestBlock = .ok ()) (hs : smallestBlock < 2 ^ 64) :
    (∃ lists, SizeClasses arenaSize smallestBlock lists) ↔
      smallestBlock ≤ nextPowerOfTwo arenaSize := by
  obtain ⟨h64, h48, J, hJ, rfl⟩ := validateArenaArgs_ok h
  obtain ⟨K, hK, hle, hlt, _⟩ := nextPowerOfTwo_spec (show 2 ≤ arenaSize by omega)
  have hJ64 : J < 64 := (Nat.pow_lt_pow_iff_right (by norm_num)).mp hs
  have hK64 : K < 64 := by
    have : 2 ^ K < 2 ^ 64 := by omega
    exact (Nat.pow_lt_pow_iff_right (by norm_num)).mp this
  rw [hK, Nat.pow_le_pow_iff_right (by norm_num)]
  constructor
  · -- `slice_bytes` does not return if the subtraction of the logarithms underflows
    intro hex
    obtain ⟨lists, hclasses⟩ := hex
    obtain ⟨bitmap, hbytes⟩ := hclasses.bytes
    obtain ⟨K', J', hJeq, hKeq, _, hJK, _⟩ := sliceBytes_ok hbytes
    rw [Nat.pow_right_injective (Nat.le_refl 2) hJeq,
      Nat.pow_right_injective (Nat.le_refl 2) (hK.symm.trans hKeq)]
    exact hJK
  · intro hJK
    refine ⟨K - J + 1, ⟨_, sliceBytes_of h64 h48 hJ hK hJK⟩, ?_, fun base l hl => ?_,
      fun base l hl hfits => ?_⟩
    · rw [hK, log2_div_two_pow hJK]
    · obtain ⟨m, _, heq, hleast⟩ :=
        layoutToSize_isLeast (a := arenaOf base arenaSize (2 ^ J)) hl rfl hJ64
      rw [heq]
      exact hleast
    · obtain ⟨m, hJm, heq, _⟩ :=
        layoutToSize_isLeast (a := arenaOf base arenaSize (2 ^ J)) hl rfl hJ64
      rw [heq] at hfits ⊢
      have hmK : m ≤ K := by
        have : 2 ^ m ≤ 2 ^ K := hfits.trans hle
        exact (Nat.pow_le_pow_iff_right (by norm_num)).mp this
      refine ⟨K - m, blockGranularity_of hK hK64 hmK, by omega, ?_⟩
      rw [hK, two_pow_shiftRight (by omega), Nat.sub_sub_self hmK]

/-- An arena of 64 bytes with blocks of 16 bytes. -/
theorem size_classes_64 : validateArenaArgs 64 16 = .ok () ∧ ∃ lists, SizeClasses 64 16 lists := by
  have h : validateArenaArgs 64 16 = .ok () := by decide
  exact ⟨h, (size_classes_iff h (by decide)).mpr (by decide)⟩

/-- An arena of 64 bytes with blocks of 4096 bytes is let through. -/
theorem size_classes_underflow : validateArenaArgs 64 4096 = .ok () ∧
    sliceBytes 64 4096 = .error .underflow ∧ ¬ ∃ lists, SizeClasses 64 4096 lists := by
  have hfault : sliceBytes 64 4096 = .error .underflow := by decide
  refine ⟨by decide, hfault, fun h => ?_⟩
  obtain ⟨lists, hclasses⟩ := h
  obtain ⟨bitmap, hbytes⟩ := hclasses.bytes
  rw [hfault] at hbytes
  cases hbytes

end Tauos.Memm
