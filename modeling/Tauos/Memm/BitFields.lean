import Mathlib.Tactic.IntervalCases
import Tauos.Memm.Arena

/-!
# One bit for each buddy pair?

`bitmap_offset` packs one field for each block size into the bitmap, with no slack:
the field of exponent `e` takes the bits from `2 ^ (K - 1 - e)` up to
`2 ^ (K - e)`, one for each pair of an arena of `2 ^ K` bytes. The pairs are
counted from the arena base rounded down to a multiple of `2 ^ (e + 1)`. An
arena whose base is no such multiple can touch one pair more than the field has
bits, and the bit of that pair is then the first bit of the next field.

`bits_distinct_iff` says exactly which arenas are free of this: writing `s` for
the size of the larger blocks, two blocks share a bit if and only if

* the arena reaches a whole block of size `s` past its rounded base plus
  `arena_size_pow2`, and
* the first pair of blocks of size `s / 2` has a block inside the arena.

The second way to go wrong is an arena that runs over `isize::MAX`: the
subtraction in `bitmap_offset` overflows for the blocks beyond.
-/

namespace Tauos.Memm

open Tauos.Rust Tauos.Utils Tauos.Buddy

/-- A naturally aligned power-of-two block inside the arena, of a size that has a
bit. Addresses wrap around at the end of the address space. -/
structure Arena.Block (a : Arena) (b : Int) (size : Nat) : Prop where
  pow2 : isPowerOfTwo size = true
  lo : a.smlstBlock ≤ size
  hi : 2 * size ≤ a.arenaSizePow2
  aligned : (size : Int) ∣ b
  inside : ∃ off, off + size ≤ a.arenaSize ∧ b = wrappingAdd a.arenaBase off

/-- Blocks share a bit exactly when they are of one size and one buddy pair, and
every bit is inside the bitmap. -/
def Arena.BitsDistinct (a : Arena) : Prop :=
  ∀ b size b' size', a.Block b size → a.Block b' size' →
    ∃ i i', a.bitmapOffset b size = .ok i ∧ a.bitmapOffset b' size' = .ok i' ∧
      (i = i' ↔ size = size' ∧ b / (2 * size) = b' / (2 * size)) ∧
      ∃ ll bm, sliceBytes a.arenaSize a.smlstBlock = .ok (ll, bm) ∧ i < 8 * bm

/-- Blocks of size `2 ^ e` and `2 ^ (e - 1)` with one bit exist in the arena. -/
def Arena.FieldOverrun (a : Arena) (e : Nat) : Prop :=
  2 * a.smlstBlock ≤ 2 ^ e ∧ 2 * 2 ^ e ≤ a.arenaSizePow2 ∧
  (a.arenaSizePow2 - a.arenaSize + 2 ^ e : Int) ≤ a.arenaBase % (2 * 2 ^ e) ∧
  2 * (a.arenaBase % 2 ^ e) ≤ 2 ^ e

section Fields

variable {A u u' : Int} {K J e : Nat}

/-- The number of the pair of the block of exponent `e` at `u`, counted from the
rounded arena base. -/
def pairNo (A : Int) (e : Nat) (u : Int) : Nat := (u - floorBlock (e + 1) A).toNat / 2 ^ (e + 1)

theorem cast_two_pow (e : Nat) : ((2 ^ e : Nat) : Int) = 2 ^ e := by push_cast; rfl

/-- `2 ^ K` bytes are `2 ^ (K - 1 - e)` pairs. -/
theorem pairs_mul (he : e < K) : 2 ^ (K - 1 - e) * 2 ^ (e + 1) = 2 ^ K := by
  rw [← Nat.pow_add]
  congr 1
  omega

/-- Rounding down by the remainder. -/
theorem floorBlock_mod (e : Nat) (x : Int) : floorBlock e x = x - x % 2 ^ e := by
  have := Int.mul_ediv_add_emod x (2 ^ e)
  unfold floorBlock
  rw [mul_comm]
  omega

/-- An arena of at most `2 ^ K` bytes touches at most one pair too many. -/
theorem pairNo_le (he : e < K) (hA : A ≤ u) (hu : u + 2 ^ e ≤ A + 2 ^ K) :
    pairNo A e u ≤ 2 ^ (K - 1 - e) := by
  obtain ⟨h1, h2⟩ := within_floorBlock (e + 1) A
  have hpos := two_pow_pos e
  have hmul : (2 ^ (K - 1 - e) + 1) * 2 ^ (e + 1) = 2 ^ K + 2 ^ (e + 1) := by
    rw [Nat.add_mul, pairs_mul he, Nat.one_mul]
  have hK := cast_two_pow K
  have hE := cast_two_pow (e + 1)
  apply Nat.le_of_lt_succ
  unfold pairNo
  rw [Nat.div_lt_iff_lt_mul (Nat.two_pow_pos _), Nat.succ_eq_add_one, hmul]
  omega

/-- The pair too many starts `2 ^ K` bytes above the rounded base. -/
theorem pairNo_top (he : e < K) (h : 2 ^ (K - 1 - e) ≤ pairNo A e u) :
    floorBlock (e + 1) A + 2 ^ K ≤ u := by
  unfold pairNo at h
  rw [Nat.le_div_iff_mul_le (Nat.two_pow_pos _), pairs_mul he] at h
  have hK := cast_two_pow K
  have hpos := two_pow_pos K
  omega

/-- The first pair. -/
theorem pairNo_eq_zero (hA : A ≤ u) (h : pairNo A e u = 0) :
    u < floorBlock (e + 1) A + 2 ^ (e + 1) := by
  obtain ⟨h1, h2⟩ := within_floorBlock (e + 1) A
  unfold pairNo at h
  have hlt := (Nat.div_eq_zero_iff_lt (Nat.two_pow_pos _)).mp h
  have hE := cast_two_pow (e + 1)
  omega

/-- The number of a pair from the addresses. -/
theorem cast_pairNo (hA : A ≤ u) :
    ((pairNo A e u : Nat) : Int) = u / 2 ^ (e + 1) - A / 2 ^ (e + 1) := by
  obtain ⟨h1, _⟩ := within_floorBlock (e + 1) A
  unfold pairNo
  push_cast
  rw [Int.toNat_of_nonneg (by omega), Int.sub_ediv_of_dvd u (aligned_floorBlock (e + 1) A)]
  congr 1
  exact Int.mul_ediv_cancel _ (ne_of_gt (two_pow_pos (e + 1)))

/-- Two blocks are in one pair if they are in one block of twice the size. -/
theorem pairNo_eq_iff (hA : A ≤ u) (hA' : A ≤ u') :
    pairNo A e u = pairNo A e u' ↔ u / (2 * 2 ^ e) = u' / (2 * 2 ^ e) := by
  have h1 := cast_pairNo (e := e) hA
  have h2 := cast_pairNo (e := e) hA'
  have hs : (2 : Int) * 2 ^ e = 2 ^ (e + 1) := by ring
  rw [hs]
  omega

/-- A shared bit of different sizes is the first bit past the field of the larger
blocks, and the first bit of the field of the blocks half as large. -/
theorem shared_bit {e' : Nat} (he : e < K) (hlt : e' < e) (hA : A ≤ u) (hu : u + 2 ^ e ≤ A + 2 ^ K)
    (h : 2 ^ (K - 1 - e) + pairNo A e u = 2 ^ (K - 1 - e') + pairNo A e' u') :
    e' + 1 = e ∧ floorBlock (e + 1) A + 2 ^ K ≤ u ∧ pairNo A e' u' = 0 := by
  have hle := pairNo_le he hA hu
  have hdouble : 2 ^ (K - 1 - e) + 2 ^ (K - 1 - e) = 2 ^ (K - e) := by
    rw [← Nat.two_mul, ← Nat.pow_succ']
    congr 1
    omega
  have hfield : 2 ^ (K - e) ≤ 2 ^ (K - 1 - e') := Nat.pow_le_pow_right (by norm_num) (by omega)
  refine ⟨?_, pairNo_top he (by omega), by omega⟩
  -- a gap of two sizes would leave a whole field between the two bits
  by_contra hne
  have hgap : 2 ^ (K - e + 1) ≤ 2 ^ (K - 1 - e') := Nat.pow_le_pow_right (by norm_num) (by omega)
  have hpos := Nat.two_pow_pos (K - e)
  rw [Nat.pow_succ] at hgap
  omega

/-- The first pair of a field has a block behind the arena base only if the base
is not in the upper half of it. -/
theorem first_pair {e : Nat} (hal : Aligned e u) (hA : A ≤ u)
    (h : u < floorBlock (e + 1) A + 2 ^ (e + 1)) : 2 * (A % 2 ^ (e + 1)) ≤ 2 ^ (e + 1) := by
  have hs := two_pow_succ e
  have hpos := two_pow_pos e
  have hle : u + 2 ^ e ≤ floorBlock (e + 1) A + 2 ^ (e + 1) :=
    hal.add_le_of_lt ((aligned_floorBlock (e + 1) A).add.mono (Nat.le_succ e)) h
  have hfl := floorBlock_mod (e + 1) A
  omega

end Fields

/-- The arena runs over `isize::MAX` by less than a block, and no field overruns. -/
def Arena.FieldsFit (a : Arena) : Prop :=
  (2 * a.smlstBlock ≤ a.arenaSizePow2 → a.arenaBase + a.arenaSize < 2 ^ 63 + a.smlstBlock) ∧
  ∀ e, ¬ a.FieldOverrun e

/-- What `validate_arena_args` and `next_power_of_two` make of the arguments. -/
structure Arena.Sized (a : Arena) (K J : Nat) : Prop where
  base : InIsize a.arenaBase
  pow2 : a.arenaSizePow2 = 2 ^ K
  smlst : a.smlstBlock = 2 ^ J
  hJ : 4 ≤ J
  hK : K ≤ 48
  size : a.arenaSize ≤ 2 ^ K
  half : 2 ^ K < 2 * a.arenaSize
  min : 64 ≤ a.arenaSize
  next : nextPowerOfTwo a.arenaSize = 2 ^ K

section Sized

variable {a : Arena} {K J e : Nat} {u : Int}

/-- The arena is no larger than its power of two. -/
theorem Arena.Sized.cast_size (h : a.Sized K J) : (a.arenaSize : Int) ≤ 2 ^ K := by
  exact_mod_cast h.size

/-- The bit of a block, by its granularity and the number of its pair. -/
theorem Arena.Sized.offset (h : a.Sized K J) (he : e < K) (hA : a.arenaBase ≤ u)
    (hu : u + 2 ^ e ≤ a.arenaBase + a.arenaSize) :
    a.bitmapOffset u (2 ^ e) = .ok (2 ^ (K - 1 - e) + pairNo a.arenaBase e u) := by
  obtain ⟨h1, h2⟩ := within_floorBlock (e + 1) a.arenaBase
  have hpos := two_pow_pos e
  have hsz := h.cast_size
  have hK : (2 : Int) ^ K ≤ 2 ^ 48 := pow_le_pow_right₀ (by norm_num) h.hK
  have hE : (2 : Int) ^ (e + 1) ≤ 2 ^ 48 := pow_le_pow_right₀ (by norm_num) (by have := h.hK; omega)
  exact bitmapOffset_eq h.pow2 h.hK he h.base (by omega) (by omega)

/-- The exponent of a block, and its address when the arena does not run over
`isize::MAX` by a block. -/
theorem Arena.Sized.block (h : a.Sized K J)
    (hfit : 2 * a.smlstBlock ≤ a.arenaSizePow2 → a.arenaBase + a.arenaSize < 2 ^ 63 + a.smlstBlock)
    {b : Int} {size : Nat} (hb : a.Block b size) :
    ∃ e, size = 2 ^ e ∧ J ≤ e ∧ e < K ∧ Aligned e b ∧ a.arenaBase ≤ b ∧
      b + 2 ^ e ≤ a.arenaBase + a.arenaSize := by
  obtain ⟨e, rfl⟩ := isPowerOfTwo_iff.mp hb.pow2
  have hlo := hb.lo
  have hhi := hb.hi
  rw [h.smlst] at hlo
  rw [h.pow2, ← Nat.pow_succ'] at hhi
  have hJe : J ≤ e := (Nat.pow_le_pow_iff_right (by norm_num)).mp hlo
  have heK : e < K := (Nat.pow_le_pow_iff_right (by norm_num)).mp hhi
  have hal : Aligned e b := by
    have := hb.aligned
    rw [cast_two_pow] at this
    exact this
  obtain ⟨off, hoff, hbo⟩ := hb.inside
  have hK48 := h.hK
  have hJK : 2 * 2 ^ J ≤ 2 ^ K := by
    rw [← Nat.pow_succ']
    exact Nat.pow_le_pow_right (by norm_num) (by omega)
  rw [h.smlst, h.pow2, cast_two_pow] at hfit
  have hend := hfit hJK
  have hJE : (2 : Int) ^ J ≤ 2 ^ e := pow_le_pow_right₀ (by norm_num) hJe
  have hcast := cast_two_pow e
  obtain ⟨h1, h2⟩ := h.base
  -- an aligned block that ends past `isize::MAX` starts past it
  have hal63 : Aligned e (2 ^ 63) := pow_dvd_pow 2 (by omega)
  have halu : Aligned e (a.arenaBase + off) := by
    have hdvd : (2 ^ e : Int) ∣ 2 ^ 64 := pow_dvd_pow 2 (by omega)
    have hmod : (2 ^ e : Int) ∣ (a.arenaBase + off) - b := by
      rw [hbo]
      unfold wrappingAdd
      have := Int.dvd_self_sub_bmod (x := a.arenaBase + off) (m := 2 ^ 64)
      exact (by exact_mod_cast hdvd : (2 ^ e : Int) ∣ ((2 ^ 64 : Nat) : Int)).trans this
    have := dvd_add hmod hal
    rwa [sub_add_cancel] at this
  have hlt : a.arenaBase + off < 2 ^ 63 := by
    by_contra hcon
    omega
  have hbu : b = a.arenaBase + off := by
    rw [hbo]
    exact wrappingAdd_of_inIsize ⟨by omega, hlt⟩
  refine ⟨e, rfl, hJe, heK, hal, by omega, ?_⟩
  omega

/-- The bitmap has a bit for every index. -/
theorem Arena.Sized.index_lt (h : a.Sized K J) (hJe : J ≤ e) (he : e < K) (hA : a.arenaBase ≤ u)
    (hu : u + 2 ^ e ≤ a.arenaBase + a.arenaSize) :
    ∃ ll bm, sliceBytes a.arenaSize a.smlstBlock = .ok (ll, bm) ∧
      2 ^ (K - 1 - e) + pairNo a.arenaBase e u < 8 * bm := by
  have hsz := h.cast_size
  have hn : a.arenaSize ≤ 2 ^ 48 := h.size.trans (Nat.pow_le_pow_right (by norm_num) h.hK)
  have hle := pairNo_le he hA (hu.trans (by omega))
  refine ⟨_, _, by rw [h.smlst]; exact sliceBytes_of h.min hn h.hJ h.next (by omega), ?_⟩
  have hdouble : 2 ^ (K - 1 - e) + 2 ^ (K - 1 - e) = 2 ^ (K - e) := by
    rw [← Nat.two_mul, ← Nat.pow_succ']
    congr 1
    omega
  have hmono : 2 ^ (K - e) ≤ 2 ^ (K - J) := Nat.pow_le_pow_right (by norm_num) (by omega)
  have hlen : 2 ^ (K - J + 1) ≤ 8 * max (2 ^ (K - J + 1) / 8) 1 := by
    rcases Nat.lt_or_ge (K - J + 1) 3 with hs | hs
    · have : 2 ^ (K - J + 1) ≤ 2 ^ 2 := Nat.pow_le_pow_right (by norm_num) (by omega)
      omega
    · have : 2 ^ (K - J + 1) = 8 * 2 ^ (K - J + 1 - 3) := by
        rw [show (8 : Nat) = 2 ^ 3 by norm_num, ← Nat.pow_add]
        congr 1
        omega
      omega
  have hpos := Nat.two_pow_pos (K - J)
  rw [Nat.pow_succ] at hlen
  omega

/-- A shared bit of different sizes makes a field overrun. -/
theorem Arena.Sized.overrun (h : a.Sized K J) {e' : Nat} {u' : Int} (he : e < K) (hJe' : J ≤ e')
    (hlt : e' < e) (hA : a.arenaBase ≤ u) (hu : u + 2 ^ e ≤ a.arenaBase + a.arenaSize)
    (hA' : a.arenaBase ≤ u') (hal' : Aligned e' u')
    (heq : 2 ^ (K - 1 - e) + pairNo a.arenaBase e u = 2 ^ (K - 1 - e') + pairNo a.arenaBase e' u') :
    a.FieldOverrun e := by
  have hsz := h.cast_size
  obtain ⟨rfl, htop, hzero⟩ := shared_bit he hlt hA (hu.trans (by omega)) heq
  have hfirst := first_pair hal' hA' (pairNo_eq_zero hA' hzero)
  have hfl := floorBlock_mod (e' + 1 + 1) a.arenaBase
  refine ⟨?_, ?_, ?_, ?_⟩
  · rw [h.smlst, ← Nat.pow_succ']
    exact Nat.pow_le_pow_right (by norm_num) (by omega)
  · rw [h.pow2, ← Nat.pow_succ']
    exact Nat.pow_le_pow_right (by norm_num) he
  · rw [h.pow2, cast_two_pow, show (2 : Int) * 2 ^ (e' + 1) = 2 ^ (e' + 1 + 1) by ring]
    omega
  · exact hfirst

/-- The bits of different pairs differ if each granularity has enough of them. -/
theorem Arena.Sized.distinct_of_fit (h : a.Sized K J) (hfit : a.FieldsFit) : a.BitsDistinct := by
  intro b size b' size' hb hb'
  obtain ⟨e, rfl, hJe, he, hal, hlo, hhi⟩ := h.block hfit.1 hb
  obtain ⟨e', rfl, hJe', he', hal', hlo', hhi'⟩ := h.block hfit.1 hb'
  refine ⟨_, _, h.offset he hlo hhi, h.offset he' hlo' hhi', ?_, h.index_lt hJe he hlo hhi⟩
  rw [cast_two_pow]
  rcases Nat.lt_trichotomy e e' with hlt | rfl | hlt
  · have hne : 2 ^ e ≠ 2 ^ e' := Nat.ne_of_lt (Nat.pow_lt_pow_right (by norm_num) hlt)
    refine ⟨fun heq => ?_, fun hc => absurd hc.1 hne⟩
    exact absurd (h.overrun he' hJe hlt hlo' hhi' hlo hal heq.symm) (hfit.2 e')
  · rw [Nat.add_left_cancel_iff, pairNo_eq_iff hlo hlo']
    exact ⟨fun heq => ⟨rfl, heq⟩, And.right⟩
  · have hne : 2 ^ e ≠ 2 ^ e' := Nat.ne_of_gt (Nat.pow_lt_pow_right (by norm_num) hlt)
    refine ⟨fun heq => ?_, fun hc => absurd hc.1 hne⟩
    exact absurd (h.overrun he hJe' hlt hlo hhi hlo' hal' heq) (hfit.2 e)

/-- A block of the arena that needs no wrap-around. -/
theorem Arena.Sized.block_of (h : a.Sized K J) (hJe : J ≤ e) (he : e < K) (hal : Aligned e u)
    (hA : a.arenaBase ≤ u) (hu : u + 2 ^ e ≤ a.arenaBase + a.arenaSize) (hin : u < 2 ^ 63) :
    a.Block u (2 ^ e) := by
  have hpos := two_pow_pos e
  have hcast := cast_two_pow e
  refine ⟨isPowerOfTwo_iff.mpr ⟨e, rfl⟩, ?_, ?_, by rw [cast_two_pow]; exact hal,
    (u - a.arenaBase).toNat, by omega, ?_⟩
  · rw [h.smlst]
    exact Nat.pow_le_pow_right (by norm_num) hJe
  · rw [h.pow2, ← Nat.pow_succ']
    exact Nat.pow_le_pow_right (by norm_num) he
  · have hback : a.arenaBase + ((u - a.arenaBase).toNat : Int) = u := by omega
    rw [wrappingAdd_of_inIsize, hback]
    rw [hback]
    exact ⟨h.base.1.trans hA, hin⟩

/-- Past `isize::MAX` the subtraction of `bitmap_offset` overflows. -/
theorem Arena.Sized.not_distinct_of_over (h : a.Sized K J) (hJK : J < K)
    (hover : 2 ^ 63 + 2 ^ J ≤ a.arenaBase + a.arenaSize) : ¬ a.BitsDistinct := by
  obtain ⟨hb1, hb2⟩ := h.base
  have hsz := h.cast_size
  have hK48 := h.hK
  have hK : (2 : Int) ^ K ≤ 2 ^ 48 := pow_le_pow_right₀ (by norm_num) hK48
  have hJ48 : (2 : Int) ^ (J + 1) ≤ 2 ^ 48 := pow_le_pow_right₀ (by norm_num) (by omega)
  have hcast := cast_two_pow J
  have hwrap : wrappingAdd a.arenaBase (2 ^ 63 - a.arenaBase).toNat = -2 ^ 63 := by
    unfold wrappingAdd
    rw [Int.toNat_of_nonneg (by omega), add_sub_cancel]
    norm_num [Int.bmod]
  have hblock : a.Block (-2 ^ 63) (2 ^ J) := by
    refine ⟨isPowerOfTwo_iff.mpr ⟨J, rfl⟩, Nat.le_of_eq h.smlst, ?_, ?_,
      (2 ^ 63 - a.arenaBase).toNat, by omega, hwrap.symm⟩
    · rw [h.pow2, ← Nat.pow_succ']
      exact Nat.pow_le_pow_right (by norm_num) hJK
    · rw [cast_two_pow]
      exact Int.dvd_neg.mpr (pow_dvd_pow 2 (by omega))
  intro hdist
  obtain ⟨i, _, hoff, _⟩ := hdist _ _ _ _ hblock hblock
  obtain ⟨hf1, hf2⟩ := within_floorBlock (J + 1) a.arenaBase
  have hmask : maskDown a.arenaBase (2 ^ J <<< 1) = floorBlock (J + 1) a.arenaBase := by
    rw [Nat.shiftLeft_eq, ← Nat.pow_add]
    exact maskDown_two_pow h.base (by omega)
  have hsub : isizeSub (-2 ^ 63) (floorBlock (J + 1) a.arenaBase) = .error .overflow := by
    apply if_neg
    intro hin
    have := hin.1
    omega
  dsimp only [Arena.bitmapOffset] at hoff
  rw [hmask, hsub] at hoff
  cases hoff

/-- The last block of size `2 ^ e` and the first pair of the next size share a bit. -/
theorem Arena.Sized.not_distinct_of_overrun (h : a.Sized K J)
    (hend : a.arenaBase + a.arenaSize < 2 ^ 63 + 2 ^ J) (hover : a.FieldOverrun e) :
    ¬ a.BitsDistinct := by
  obtain ⟨hlo, hhi, htop, hfirst⟩ := hover
  rw [h.smlst, ← Nat.pow_succ'] at hlo
  rw [h.pow2, ← Nat.pow_succ'] at hhi
  have hJe : J + 1 ≤ e := (Nat.pow_le_pow_iff_right (by norm_num)).mp hlo
  have heK : e < K := (Nat.pow_le_pow_iff_right (by norm_num)).mp hhi
  obtain ⟨d, rfl⟩ : ∃ d, e = d + 1 := ⟨e - 1, by omega⟩
  rw [h.pow2, cast_two_pow, show (2 : Int) * 2 ^ (d + 1) = 2 ^ (d + 1 + 1) by ring] at htop
  have hfl := floorBlock_mod (d + 1 + 1) a.arenaBase
  have hfl' := floorBlock_mod (d + 1) a.arenaBase
  have hal := aligned_floorBlock (d + 1 + 1) a.arenaBase
  have hal' := aligned_floorBlock (d + 1) a.arenaBase
  obtain ⟨h1, h2⟩ := within_floorBlock (d + 1 + 1) a.arenaBase
  obtain ⟨h3, h4⟩ := within_floorBlock (d + 1) a.arenaBase
  have hs := two_pow_succ d
  have hs' := two_pow_succ (d + 1)
  have hpos := two_pow_pos d
  have hJd : (2 : Int) ^ J ≤ 2 ^ (d + 1) := pow_le_pow_right₀ (by norm_num) (by omega)
  have hKd : (2 : Int) ^ (d + 1 + 1) ≤ 2 ^ K := pow_le_pow_right₀ (by norm_num) (by omega)
  have hhalf : (2 : Int) ^ K < 2 * a.arenaSize := by exact_mod_cast h.half
  have hK48 := h.hK
  -- the large block, one pair past the field
  have halu : Aligned (d + 1) (floorBlock (d + 1 + 1) a.arenaBase + 2 ^ K) :=
    dvd_add (hal.mono (Nat.le_succ _)) (pow_dvd_pow 2 (by omega))
  have hu : floorBlock (d + 1 + 1) a.arenaBase + 2 ^ K + 2 ^ (d + 1) ≤
      a.arenaBase + a.arenaSize := by
    omega
  have hu63 : floorBlock (d + 1 + 1) a.arenaBase + 2 ^ K < 2 ^ 63 := by omega
  have hbig := h.block_of (by omega) heK halu (by omega) hu hu63
  -- the small block, in the first pair of its field
  have halu' : Aligned d (floorBlock (d + 1) a.arenaBase + 2 ^ d) :=
    hal'.add_of_le (Nat.le_succ d)
  have hroom : floorBlock (d + 1) a.arenaBase + 2 ^ (d + 1) ≤ 2 ^ 63 :=
    hal'.add_le_of_lt (show Aligned (d + 1) (2 ^ 63) from pow_dvd_pow 2 (by omega))
      (h3.trans_lt h.base.2)
  have hsmall := h.block_of (show J ≤ d by omega) (show d < K by omega) halu' (by omega) (by omega)
    (by omega)
  intro hdist
  obtain ⟨i, i', hi, hi', hiff, _⟩ := hdist _ _ _ _ hbig hsmall
  rw [h.offset heK (by omega) hu] at hi
  rw [h.offset (show d < K by omega) (by omega) (by omega)] at hi'
  have hp : pairNo a.arenaBase (d + 1) (floorBlock (d + 1 + 1) a.arenaBase + 2 ^ K)
      = 2 ^ (K - 1 - (d + 1)) := by
    unfold pairNo
    rw [add_sub_cancel_left, show ((2 : Int) ^ K).toNat = 2 ^ K by
      rw [← cast_two_pow, Int.toNat_natCast], ← pairs_mul heK]
    exact Nat.mul_div_cancel _ (Nat.two_pow_pos _)
  have hp' : pairNo a.arenaBase d (floorBlock (d + 1) a.arenaBase + 2 ^ d) = 0 := by
    unfold pairNo
    rw [add_sub_cancel_left, show ((2 : Int) ^ d).toNat = 2 ^ d by
      rw [← cast_two_pow, Int.toNat_natCast]]
    exact Nat.div_eq_of_lt (Nat.pow_lt_pow_right (by norm_num) (Nat.lt_succ_self d))
  have hfield : 2 ^ (K - 1 - (d + 1)) + 2 ^ (K - 1 - (d + 1)) = 2 ^ (K - 1 - d) + 0 := by
    rw [← Nat.two_mul, ← Nat.pow_succ']
    congr 1
    omega
  have hsame : i = i' := by
    rw [hp] at hi
    rw [hp', ← hfield] at hi'
    exact Except.ok.inj (hi.symm.trans hi')
  have hne : (2 : Nat) ^ (d + 1) ≠ 2 ^ d :=
    Nat.ne_of_gt (Nat.pow_lt_pow_right (by norm_num) (Nat.lt_succ_self d))
  exact hne (hiff.mp hsame).1

end Sized

/-- The bits of an arena are one for each pair exactly when its fields fit. -/
theorem bits_distinct_iff {arenaBase : Int} {arenaSize smallestBlock : Nat}
    (hbase : InIsize arenaBase)
    (hargs : validateArenaArgs arenaSize smallestBlock = .ok ()) :
    Arena.BitsDistinct ⟨arenaBase, arenaSize, nextPowerOfTwo arenaSize, smallestBlock⟩ ↔
      Arena.FieldsFit ⟨arenaBase, arenaSize, nextPowerOfTwo arenaSize, smallestBlock⟩ := by
  obtain ⟨h64, h48, J, hJ, rfl⟩ := validateArenaArgs_ok hargs
  obtain ⟨K, hK, hle, hlt, _⟩ := nextPowerOfTwo_spec (show 2 ≤ arenaSize by omega)
  have hK48 : K ≤ 48 := by
    by_contra hcon
    have : 2 ^ 49 ≤ 2 ^ K := Nat.pow_le_pow_right (by norm_num) (by omega)
    omega
  have h : Arena.Sized ⟨arenaBase, arenaSize, nextPowerOfTwo arenaSize, 2 ^ J⟩ K J :=
    ⟨hbase, hK, rfl, hJ, hK48, hle, hlt, h64, hK⟩
  refine ⟨fun hdist => ?_, h.distinct_of_fit⟩
  have hend : 2 * 2 ^ J ≤ nextPowerOfTwo arenaSize →
      arenaBase + arenaSize < 2 ^ 63 + (2 ^ J : Nat) := by
    intro hsmall
    by_contra hcon
    rw [hK, ← Nat.pow_succ'] at hsmall
    have hJK : J < K := (Nat.pow_le_pow_iff_right (by norm_num)).mp hsmall
    refine h.not_distinct_of_over hJK ?_ hdist
    rw [cast_two_pow] at hcon
    exact not_lt.mp hcon
  refine ⟨hend, fun e hover => ?_⟩
  refine h.not_distinct_of_overrun ?_ hover hdist
  rw [← cast_two_pow]
  exact hend (by have h1 := hover.1; have h2 := hover.2.1; dsimp only at h1 h2; omega)

/-- 64 bytes at address 0x1020: the block of 32 bytes at 0x1040 and the one of 16
bytes at 0x1020 both have bit 2. -/
theorem bits_shared_unaligned : validateArenaArgs 64 16 = .ok () ∧
    ¬ Arena.BitsDistinct ⟨0x1020, 64, nextPowerOfTwo 64, 16⟩ := by
  refine ⟨by decide, fun hdist => ?_⟩
  have hbig : Arena.Block ⟨0x1020, 64, nextPowerOfTwo 64, 16⟩ 0x1040 32 :=
    ⟨by decide, by decide, by decide, by decide, 32, by decide, by decide⟩
  have hsmall : Arena.Block ⟨0x1020, 64, nextPowerOfTwo 64, 16⟩ 0x1020 16 :=
    ⟨by decide, by decide, by decide, by decide, 0, by decide, by decide⟩
  obtain ⟨i, i', hi, hi', hiff, _⟩ := hdist _ _ _ _ hbig hsmall
  have h1 : Arena.bitmapOffset ⟨0x1020, 64, nextPowerOfTwo 64, 16⟩ 0x1040 32 = .ok 2 := by
    decide +kernel
  have h2 : Arena.bitmapOffset ⟨0x1020, 64, nextPowerOfTwo 64, 16⟩ 0x1020 16 = .ok 2 := by
    decide +kernel
  rw [h1] at hi
  rw [h2] at hi'
  cases hi
  cases hi'
  exact absurd (hiff.mp rfl).1 (by decide)

/-- The naturally aligned arena of the same size is fine. -/
theorem bits_distinct_aligned :
    validateArenaArgs 64 16 = .ok () ∧ Arena.BitsDistinct ⟨0x1000, 64, nextPowerOfTwo 64, 16⟩ := by
  refine ⟨by decide, (bits_distinct_iff (by decide) (by decide)).mpr ⟨fun _ => by decide, ?_⟩⟩
  intro e hover
  obtain ⟨h1, h2, h3, _⟩ := hover
  have hpow : nextPowerOfTwo 64 = 2 ^ 6 := by decide
  dsimp only at h1 h2 h3
  rw [hpow, ← Nat.pow_succ'] at h2
  have he : e ≤ 5 := Nat.le_of_succ_le_succ ((Nat.pow_le_pow_iff_right (by norm_num)).mp h2)
  rw [hpow] at h3
  interval_cases e <;> omega

end Tauos.Memm
