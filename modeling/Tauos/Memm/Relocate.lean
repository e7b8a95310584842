import Mathlib.Tactic.IntervalCases
import Tauos.Memm.Construct
import Tauos.Memm.Flip
import Tauos.Utils.CopyBits

/-!
# Moving the status data

`extend` builds a larger status record and moves the old one into it: the lists
are renumbered by `gra_diff`, `avails` is shifted, and the bitmap is copied field
by field. `Grows K J K' t n` is an extension on the same base from `2 ^ K` to
`2 ^ K'` bytes (rounded up), so `gra_diff = K' - K`.

The field of granularity `g ≥ 1` moves from bit `2 ^ (g - 1)` to bit
`2 ^ (K' - K + g - 1)` and keeps its meaning (`copyFields_bits`). Two fields do
not come out as they should:

* `g = 0`, which has no bits of its own, is treated as one bit at offset 1: the
  bit of granularity 1 is also copied to bit `2 ^ (K' - K - 1)`, which belongs
  to the old arena and its neighbour as a pair (`staleBit`);
* `g = 3` with `gra_diff = 0` ends flush with the first byte, and
  `copy_slice_bits` panics (`copyFields_panics`).

`relocate_spec` puts this together: the moved record satisfies the invariant of
the larger arena up to the stale bit.
-/

namespace Tauos.Memm.Talloc

open Tauos.Rust Tauos.Utils Tauos.Buddy

/-! ## Byte copies -/

/-- The bytes after a copy. -/
theorem getD_splice {dst src : List (BitVec 8)} {di si n : Nat} (hs : si + n ≤ src.length)
    (hd : di + n ≤ dst.length) (k : Nat) :
    (dst.take di ++ ((src.drop si).take n ++ dst.drop (di + n))).getD k 0
      = if di ≤ k ∧ k < di + n then src.getD (k - di + si) 0 else dst.getD k 0 := by
  have htake : (dst.take di).length = di := by rw [List.length_take]; omega
  have hmid : ((src.drop si).take n).length = n := by rw [List.length_take, List.length_drop]; omega
  simp only [List.getD_eq_getElem?_getD]
  rcases Nat.lt_or_ge k di with hk | hk
  · rw [List.getElem?_append_left (by omega), List.getElem?_take, if_pos hk, if_neg (by omega)]
  · rw [List.getElem?_append_right (by omega), htake]
    rcases Nat.lt_or_ge k (di + n) with hk' | hk'
    · rw [List.getElem?_append_left (by omega), List.getElem?_take, if_pos (by omega),
        List.getElem?_drop, if_pos ⟨hk, hk'⟩, Nat.add_comm]
    · rw [List.getElem?_append_right (by omega), hmid, List.getElem?_drop, if_neg (by omega)]
      congr 2
      omega

/-- `copy_from_nonoverlapping` as a copy of bits. -/
theorem copyBytes_bits {dst src : List (BitVec 8)} {di si n : Nat} (hs : si + n ≤ src.length)
    (hd : di + n ≤ dst.length) :
    ∃ r, copyBytes dst src di si n = .ok r ∧ BitsCopied dst src r (8 * di) (8 * si) (8 * n) := by
  refine ⟨_, if_pos ⟨hs, hd⟩, ?_, fun i => ?_⟩
  · simp only [List.length_append, List.length_take, List.length_drop]
    omega
  · unfold getBit
    rw [getD_splice hs hd]
    by_cases hin : 8 * di ≤ i ∧ i < 8 * di + 8 * n
    · rw [if_pos hin, if_pos (by omega)]
      rw [show (i - 8 * di + 8 * si) / 8 = i / 8 - di + si by omega,
        show (i - 8 * di + 8 * si) % 8 = i % 8 by omega]
    · rw [if_neg hin, if_neg (by omega)]

/-! ## The bitmap loop -/

/-- The larger arena of an extension on the same base. -/
def grown (t : Talloc FreeLists) (arenaSize : Nat) : Arena :=
  ⟨t.arenaBase, arenaSize, nextPowerOfTwo arenaSize, t.smlstBlock⟩

/-- An extension on the same base, both arenas naturally aligned. -/
structure Grows (K J K' : Nat) (t : Talloc FreeLists) (arenaSize : Nat) : Prop where
  inv : Inv K J t
  nat : Natural (t.grown arenaSize) K' J
  le : K ≤ K'
  size : t.arenaSize ≤ arenaSize
  min : 64 ≤ arenaSize

variable {K J K' arenaSize : Nat} {t : Talloc FreeLists}

/-- Length of the bitmap for `2 ^ K` bytes in blocks of `2 ^ J`. -/
def bitmapBytes (K J : Nat) : Nat := max (2 ^ (K - J + 1) / 8) 1

/-- The fields are in the bitmap. -/
theorem two_pow_div_lt {k K J : Nat} (hk : k ≤ K - J) : 2 ^ k / 8 < bitmapBytes K J := by
  have h1 : 2 ^ k < 2 ^ (K - J + 1) := Nat.pow_lt_pow_right (by norm_num) (by omega)
  unfold bitmapBytes
  rcases Nat.lt_or_ge (K - J + 1) 3 with h2 | h2
  · have : 2 ^ (K - J + 1) ≤ 2 ^ 2 := Nat.pow_le_pow_right (by norm_num) (by omega)
    omega
  · have : 2 ^ (K - J + 1) = 8 * 2 ^ (K - J + 1 - 3) := by
      rw [show (8 : Nat) = 2 ^ 3 by norm_num, ← Nat.pow_add]
      congr 1
      omega
    omega

/-- Where the field of old granularity `g` starts in the new bitmap. -/
theorem Grows.newOffset (h : Grows K J K' t arenaSize) {g : Nat} (hg : g ≤ K)
    (hd : K < K' ∨ 1 ≤ g) :
    (t.grown arenaSize).bitmapOffset t.arenaBase (t.arenaSizePow2 >>> g)
      = .ok (2 ^ (K' - K + g - 1)) := by
  have hle := h.le
  have hsize : t.arenaSizePow2 >>> g = 2 ^ (K - g) := by
    rw [h.inv.nat.pow2, two_pow_shiftRight hg]
  have hbase : t.arenaBase = (t.grown arenaSize).arenaBase := rfl
  rw [hsize, h.nat.bitmapOffset (by omega) (le_of_eq hbase.symm)
    (by rw [hbase]; linarith [two_pow_pos K'])]
  unfold bitIndex
  rw [hbase, sub_self, Int.toNat_zero, Nat.zero_div, Nat.add_zero]
  congr 2
  omega

/-- The length of a field. -/
theorem max_shift {g : Nat} (hg : 1 ≤ g) : max (1 <<< g >>> 1) 1 = 2 ^ (g - 1) := by
  obtain ⟨k, rfl⟩ : ∃ k, g = k + 1 := ⟨g - 1, by omega⟩
  rw [Nat.one_shiftLeft, Nat.shiftRight_eq_div_pow, Nat.pow_one, Nat.pow_succ,
    Nat.mul_div_cancel _ (by norm_num), Nat.add_sub_cancel]
  exact Nat.max_eq_left (Nat.two_pow_pos k)

/-- From eight bits on, a field is of whole bytes. -/
theorem two_pow_mod_eight {k : Nat} (hk : 3 ≤ k) : 2 ^ k % 8 = 0 := by
  obtain ⟨m, rfl⟩ := Nat.exists_eq_add_of_le hk
  rw [Nat.pow_add]
  exact Nat.mul_mod_right 8 _

/-- The destination range of a small field ends inside its byte. -/
theorem small_field {d g : Nat} (h1 : 1 ≤ g) (h4 : g < 4) (hd : 1 ≤ d ∨ g ≤ 2) :
    2 ^ (d + g - 1) % 8 + 2 ^ (g - 1) < 8 := by
  rcases Nat.lt_or_ge (d + g - 1) 3 with hs | hs
  · have hd3 : d < 3 := by omega
    interval_cases g <;> interval_cases d <;> omega
  · rw [two_pow_mod_eight hs]
    interval_cases g <;> omega

/-- A field of granularity at least 1 is copied exactly. -/
theorem Grows.copyField_spec (h : Grows K J K' t arenaSize) {g : Nat} {bitmap : List (BitVec 8)}
    (hg : 1 ≤ g) (hgJ : g ≤ K - J) (hd : K < K' ∨ g ≤ 2) (hlen : bitmap.length = bitmapBytes K' J) :
    ∃ r, copyField t (t.grown arenaSize) g bitmap = .ok r ∧
      BitsCopied bitmap t.store.bitmap r (2 ^ (K' - K + g - 1)) (2 ^ (g - 1)) (2 ^ (g - 1)) := by
  have hle := h.le
  have hJK := h.inv.nat.hJK
  have hold : t.store.bitmap.length = bitmapBytes K J := h.inv.sblen.trans h.inv.blen
  have hsrc : 2 ^ (g - 1) / 8 < t.store.bitmap.length := by
    rw [hold]
    exact two_pow_div_lt (by omega)
  have hdst : 2 ^ (K' - K + g - 1) / 8 < bitmap.length := by
    rw [hlen]
    exact two_pow_div_lt (by omega)
  unfold copyField
  rw [h.newOffset (by omega) (Or.inr hg), max_shift hg]
  show ∃ r, (if g < 4 then _ else _) = _ ∧ _
  by_cases h4 : g < 4
  · rw [if_pos h4]
    refine copySliceBits_single (Nat.two_pow_pos _) ?_
      (small_field hg h4 (hd.imp (fun hlt => by omega) id)) hsrc hdst
    interval_cases g <;> decide
  · rw [if_neg h4]
    -- from granularity 4 on, fields are whole bytes
    have hbytes : ∀ {k : Nat}, 3 ≤ k → 8 * (2 ^ k / 8) = 2 ^ k := fun hk =>
      Nat.mul_div_cancel' (Nat.dvd_of_mod_eq_zero (two_pow_mod_eight hk))
    have hfit : ∀ {k K J : Nat}, 3 ≤ k → k < K - J + 1 →
        2 ^ k / 8 + 2 ^ k / 8 ≤ bitmapBytes K J := by
      intro k K J hk hkK
      have h1 : 2 ^ (k + 1) ≤ 2 ^ (K - J + 1) := Nat.pow_le_pow_right (by norm_num) hkK
      have h2 := hbytes hk
      have h3 : 2 ^ (k + 1) / 8 ≤ 2 ^ (K - J + 1) / 8 := Nat.div_le_div_right h1
      rw [Nat.pow_succ] at h3
      unfold bitmapBytes
      omega
    have hmono : 2 ^ (g - 1) / 8 ≤ 2 ^ (K' - K + g - 1) / 8 :=
      Nat.div_le_div_right (Nat.pow_le_pow_right (by norm_num) (by omega))
    have := hfit (k := K' - K + g - 1) (show 3 ≤ K' - K + g - 1 by omega)
      (show K' - K + g - 1 < K' - J + 1 by omega)
    have hsfit : 2 ^ (g - 1) / 8 + 2 ^ (g - 1) / 8 ≤ t.store.bitmap.length := by
      rw [hold]
      exact hfit (by omega) (by omega)
    have hdfit : 2 ^ (K' - K + g - 1) / 8 + 2 ^ (g - 1) / 8 ≤ bitmap.length := by
      rw [hlen]
      omega
    have hcopy := copyBytes_bits hsfit hdfit
    rw [hbytes (show 3 ≤ g - 1 by omega), hbytes (show 3 ≤ K' - K + g - 1 by omega)] at hcopy
    exact hcopy

/-- Bit `i` is in the new field of old granularity `g`. -/
def InField (d g i : Nat) : Prop := 2 ^ (d + g - 1) ≤ i ∧ i < 2 ^ (d + g - 1) + 2 ^ (g - 1)

/-- A field ends before the next one starts. -/
theorem InField.lt {d g i : Nat} (hg : 1 ≤ g) (h : InField d g i) : i < 2 ^ (d + g) := by
  obtain ⟨_, h2⟩ := h
  have h3 : 2 ^ (g - 1) ≤ 2 ^ (d + g - 1) := Nat.pow_le_pow_right (by norm_num) (by omega)
  have h4 : 2 ^ (d + g) = 2 ^ (d + g - 1) + 2 ^ (d + g - 1) := by
    rw [← Nat.two_mul, ← Nat.pow_succ']
    congr 1
    omega
  omega

/-- The fields do not overlap. -/
theorem InField.unique {d g g' i : Nat} (hg : 1 ≤ g) (hg' : 1 ≤ g') (h : InField d g i)
    (h' : InField d g' i) : g = g' := by
  have h1 := h.lt hg
  have h2 := h'.lt hg'
  have key : ∀ {a b : Nat}, 1 ≤ a → a < b → i < 2 ^ (d + a) → InField d b i → False := by
    intro a b ha hab hi hb
    have : 2 ^ (d + a) ≤ 2 ^ (d + b - 1) := Nat.pow_le_pow_right (by norm_num) (by omega)
    have := hb.1
    omega
  rcases Nat.lt_trichotomy g g' with hlt | heq | hlt
  · exact (key hg hlt h1 h').elim
  · exact heq
  · exact (key hg' hlt h2 h).elim

/-- `r` holds the fields of the granularities from `g` on, and is `bitmap` elsewhere. -/
structure FieldsCopied (K J K' : Nat) (t : Talloc FreeLists) (g : Nat)
    (bitmap r : List (BitVec 8)) : Prop where
  length : r.length = bitmap.length
  field : ∀ g' i, g ≤ g' → g' ≤ K - J → InField (K' - K) g' i →
    getBit r i = getBit t.store.bitmap (i - 2 ^ (K' - K + g' - 1) + 2 ^ (g' - 1))
  rest : ∀ i, (∀ g', g ≤ g' → g' ≤ K - J → ¬ InField (K' - K) g' i) → getBit r i = getBit bitmap i

/-- The bitmap loop from granularity `g ≥ 1` on. -/
theorem Grows.copyFields_bits (h : Grows K J K' t arenaSize) (hd : K < K' ∨ K - J ≤ 2) :
    ∀ (count g : Nat) (bitmap : List (BitVec 8)), 1 ≤ g → g + count = K - J + 1 →
      bitmap.length = bitmapBytes K' J →
      ∃ r, copyFields t (t.grown arenaSize) count g bitmap = .ok r ∧
        FieldsCopied K J K' t g bitmap r := by
  intro count
  induction count with
  | zero =>
    intro g bitmap hg hcount hlen
    refine ⟨bitmap, rfl, rfl, fun g' i h1 h2 _ => ?_, fun i _ => rfl⟩
    omega
  | succ count ih =>
    intro g bitmap hg hcount hlen
    obtain ⟨b₁, hstep, hcopied⟩ :=
      h.copyField_spec hg (by omega) (hd.imp id (fun _ => by omega)) hlen
    obtain ⟨r, hrun, hrest⟩ := ih (g + 1) b₁ (by omega) (by omega) (hcopied.length.trans hlen)
    refine ⟨r, ?_, hrest.length.trans hcopied.length, ?_, ?_⟩
    · dsimp only [copyFields]
      rw [hstep]
      exact hrun
    · intro g' i h1 h2 hin
      rcases Nat.eq_or_lt_of_le h1 with rfl | hlt
      · -- the field written first, untouched by the later ones
        rw [hrest.rest i (fun g'' h3 _ hin' => by
          have := hin.unique hg (by omega) hin'
          omega), hcopied.bits]
        exact if_pos hin
      · exact hrest.field g' i hlt h2 hin
    · intro i hout
      rw [hrest.rest i (fun g' h1 h2 => hout g' (by omega) h2), hcopied.bits]
      exact if_neg (hout g (Nat.le_refl g) (by omega))

/-- With `gra_diff = 0` and four lists or more the bitmap loop panics. -/
theorem Grows.copyFields_panics (h : Grows K J K t arenaSize) (hn : 3 ≤ K - J) :
    ∀ (count g : Nat) (bitmap : List (BitVec 8)), 1 ≤ g → g ≤ 3 → g + count = K - J + 1 →
      bitmap.length = bitmapBytes K J →
      copyFields t (t.grown arenaSize) count g bitmap = .error .overflow := by
  intro count
  induction count with
  | zero =>
    intro g bitmap _ _ hcount _
    omega
  | succ count ih =>
    intro g bitmap hg hg3 hcount hlen
    dsimp only [copyFields]
    rcases Nat.eq_or_lt_of_le hg3 with rfl | hlt
    · have hold : t.store.bitmap.length = bitmapBytes K J := h.inv.sblen.trans h.inv.blen
      have hpos : 0 < bitmapBytes K J := by
        unfold bitmapBytes
        omega
      have hstep : copyField t (t.grown arenaSize) 3 bitmap = .error .overflow := by
        unfold copyField
        rw [h.newOffset (by omega) (Or.inr hg), Nat.sub_self]
        show copySliceBits bitmap t.store.bitmap 4 4 4 = _
        exact copySliceBits_panics (by decide) (by decide) (by rw [hold]; exact hpos)
          (by rw [hlen]; exact hpos)
      rw [hstep]
      rfl
    · obtain ⟨b₁, hstep, hcopied⟩ := h.copyField_spec hg (by omega) (Or.inr (by omega)) hlen
      rw [hstep]
      exact ih (g + 1) b₁ (by omega) (by omega) (by omega) (hcopied.length.trans hlen)

/-- The bit that the turn `g = 0` of the loop writes. -/
theorem Grows.staleOffset (h : Grows K J K' t arenaSize) :
    ∃ i, (t.grown arenaSize).bitmapOffset t.arenaBase (t.arenaSizePow2 >>> 0) = .ok i ∧
      (K < K' → i = 2 ^ (K' - K - 1)) ∧ (K = K' → i ≤ 1) := by
  rcases Nat.eq_or_lt_of_le h.le with rfl | hlt
  · -- the block of the whole arena has no field, and the sum stays below two pairs
    have hK := h.nat.hK
    have hin : InIsize t.arenaBase := h.nat.inIsize (x := t.arenaBase) (le_refl _) (by
      show t.arenaBase ≤ t.arenaBase + _
      omega)
    obtain ⟨hf1, hf2⟩ := within_floorBlock (K + 1) t.arenaBase
    have hmask : maskDown t.arenaBase (2 ^ K <<< 1) = floorBlock (K + 1) t.arenaBase := by
      rw [Nat.shiftLeft_eq, ← Nat.pow_add]
      exact maskDown_two_pow hin (by omega)
    have hp : (2 : Int) ^ (K + 1) ≤ 2 ^ 49 := pow_le_pow_right₀ (by norm_num) (by omega)
    have hpn : 2 ^ K ≤ 2 ^ 48 := Nat.pow_le_pow_right (by norm_num) hK
    have hsub : InIsize (t.arenaBase - floorBlock (K + 1) t.arenaBase) := ⟨by omega, by omega⟩
    have hus := asUsize_of_nonneg (x := t.arenaBase - floorBlock (K + 1) t.arenaBase) (by omega)
      (by omega)
    have hadd : usizeAdd (2 ^ K) (t.arenaBase - floorBlock (K + 1) t.arenaBase).toNat
        = .ok (2 ^ K + (t.arenaBase - floorBlock (K + 1) t.arenaBase).toNat) :=
      usizeAdd_of_lt (by omega)
    refine ⟨(2 ^ K + (t.arenaBase - floorBlock (K + 1) t.arenaBase).toNat) >>> (K + 1), ?_,
      fun hc => absurd hc (Nat.lt_irrefl K), fun _ => ?_⟩
    · have hpow : (t.grown arenaSize).arenaSizePow2 = 2 ^ K := h.nat.pow2
      dsimp only [Arena.bitmapOffset]
      rw [Nat.shiftRight_zero, h.inv.nat.pow2]
      show (isizeSub t.arenaBase (maskDown t.arenaBase (2 ^ K <<< 1)) >>= _) = _
      rw [hmask, isizeSub_of_inIsize hsub]
      show (usizeAdd (t.grown arenaSize).arenaSizePow2
        (asUsize (t.arenaBase - floorBlock (K + 1) t.arenaBase)) >>= _) = _
      rw [hpow, hus, hadd]
      show Except.ok (_ >>> (fastNon0Log2 (2 ^ K) + 1)) = _
      rw [fastNon0Log2_two_pow (by omega)]
    · rw [Nat.shiftRight_eq_div_pow]
      apply Nat.le_of_lt_succ
      have hcast : ((2 ^ (K + 1) : Nat) : Int) = 2 ^ (K + 1) := by push_cast; rfl
      rw [Nat.div_lt_iff_lt_mul (Nat.two_pow_pos _), Nat.pow_succ]
      rw [Nat.pow_succ] at hcast
      omega
  · refine ⟨_, h.newOffset (Nat.zero_le K) (Or.inl hlt), fun _ => by rw [Nat.add_zero],
      fun hc => absurd hlt (by omega)⟩

/-- The turn `g = 0` of the bitmap loop copies bit 1 to where the pair of the old
arena would be. -/
theorem Grows.copyField_zero (h : Grows K J K' t arenaSize) :
    ∃ i₀ b₀, (K < K' → i₀ = 2 ^ (K' - K - 1)) ∧ (K = K' → i₀ ≤ 1) ∧
      copyField t (t.grown arenaSize) 0 (List.replicate (bitmapBytes K' J) 0) = .ok b₀ ∧
      BitsCopied (List.replicate (bitmapBytes K' J) 0) t.store.bitmap b₀ i₀ 1 1 := by
  obtain ⟨i₀, hoff, hlt, heq⟩ := h.staleOffset
  have hJ := h.inv.nat.hJK
  have hold : t.store.bitmap.length = bitmapBytes K J := h.inv.sblen.trans h.inv.blen
  have hpos : ∀ K, 0 < bitmapBytes K J := fun K => by
    unfold bitmapBytes
    omega
  have hi₀ : i₀ / 8 < bitmapBytes K' J ∧ i₀ % 8 + 1 < 8 := by
    rcases Nat.eq_or_lt_of_le h.le with hk | hk
    · have h1 := heq hk
      have h2 := hpos K'
      exact ⟨by omega, by omega⟩
    · rw [hlt hk]
      refine ⟨two_pow_div_lt (by omega), ?_⟩
      rcases Nat.lt_or_ge (K' - K - 1) 3 with hs | hs
      · interval_cases K' - K - 1 <;> decide
      · rw [two_pow_mod_eight hs]
        decide
  have hcopy : ∃ b₀, copySliceBits (List.replicate (bitmapBytes K' J) 0) t.store.bitmap i₀ 1 1 =
    .ok b₀ ∧
      BitsCopied (List.replicate (bitmapBytes K' J) 0) t.store.bitmap b₀ i₀ 1 1 :=
    copySliceBits_single (by decide) (by decide) hi₀.2 (by rw [hold]; exact hpos K)
      (by rw [List.length_replicate]; exact hi₀.1)
  obtain ⟨b₀, hstep, hcopied⟩ := hcopy
  refine ⟨i₀, b₀, hlt, heq, ?_, hcopied⟩
  unfold copyField
  rw [hoff]
  exact hstep

/-- The whole bitmap loop: the fields from granularity 1 on, and a copy of bit 1 at
the offset of the turn `g = 0` unless a field is there. -/
theorem Grows.copyFields_all (h : Grows K J K' t arenaSize) (hd : K < K' ∨ K - J ≤ 2) :
    ∃ i₀ r, (K < K' → i₀ = 2 ^ (K' - K - 1)) ∧ (K = K' → i₀ ≤ 1) ∧
      copyFields t (t.grown arenaSize) t.llistsLen 0 (List.replicate (bitmapBytes K' J) 0) = .ok r ∧
      r.length = bitmapBytes K' J ∧
      (∀ g i, 1 ≤ g → g ≤ K - J → InField (K' - K) g i →
        getBit r i = getBit t.store.bitmap (i - 2 ^ (K' - K + g - 1) + 2 ^ (g - 1))) ∧
      ∀ i, (∀ g, 1 ≤ g → g ≤ K - J → ¬ InField (K' - K) g i) →
        getBit r i = (decide (i = i₀) && getBit t.store.bitmap 1) := by
  obtain ⟨i₀, b₀, hlt, heq, hstep, hcopied⟩ := h.copyField_zero
  have hzlen : (List.replicate (bitmapBytes K' J) (0 : BitVec 8)).length = bitmapBytes K' J :=
    List.length_replicate
  obtain ⟨r, hrun, hfields⟩ := h.copyFields_bits hd (K - J) 1 b₀ (Nat.le_refl 1) (by omega)
    (hcopied.length.trans hzlen)
  refine ⟨i₀, r, hlt, heq, ?_, hfields.length.trans (hcopied.length.trans hzlen), hfields.field, ?_⟩
  · rw [h.inv.llen]
    dsimp only [copyFields]
    rw [hstep]
    exact hrun
  · intro i hout
    rw [hfields.rest i hout, hcopied.bits, getBit_replicate_zero]
    by_cases hi : i = i₀
    · subst hi
      simp
    · rw [if_neg (by omega)]
      simp [hi]

/-! ## The moved record -/

/-- The new instance of `extend` with the given bitmap. -/
def moved (t : Talloc FreeLists) (arenaSize K J K' : Nat) (freeMem : Slice)
    (bitmap : List (BitVec 8)) : Talloc FreeLists where
  toArena := t.grown arenaSize
  avails := t.avails <<< (K' - K)
  llistsPtr := freeMem.ptr + llAlignOffset freeMem
  llistsLen := K' - J + 1
  bitmapPtr := freeMem.ptr + (llAlignOffset freeMem + (K' - J + 1) * nodeSize : Nat)
  bitmapLen := bitmapBytes K' J
  store := ⟨moveLists t.store.llists (K' - K) (K' - J + 1), bitmap⟩

section Moved

variable {freeMem : Slice} {bitmap : List (BitVec 8)}

/-- The lists are moved up. -/
theorem Grows.list_moved (h : Grows K J K' t arenaSize) (g : Nat) :
    (t.moved arenaSize K J K' freeMem bitmap).list g
      = if g < K' - K then [] else t.list (g - (K' - K)) := by
  have hle := h.le
  have hJ := h.inv.nat.hJK
  unfold list moved moveLists
  simp only [List.getD_eq_getElem?_getD, List.getElem?_map]
  rcases Nat.lt_or_ge g (K' - J + 1) with hg | hg
  · rw [List.getElem?_range hg]
    rfl
  · rw [List.getElem?_eq_none (by rw [List.length_range]; exact hg), if_neg (by omega),
      List.getElem?_eq_none (by rw [h.inv.slen]; omega)]
    rfl

/-- The free blocks are the same, at the granularities of the new arena. -/
theorem Grows.freeBlock_moved (h : Grows K J K' t arenaSize) (e : Nat) (b : Int) :
    (t.moved arenaSize K J K' freeMem bitmap).FreeBlock K' e b ↔ t.FreeBlock K e b := by
  have hle := h.le
  unfold FreeBlock
  rw [h.list_moved]
  rcases Nat.lt_or_ge K e with he | he
  · constructor
    · intro hb
      rw [if_pos (by omega)] at hb
      cases hb.2
    · intro hb
      omega
  · rw [if_neg (by omega), show K' - e - (K' - K) = K - e by omega]
    exact ⟨fun hb => ⟨he, hb.2⟩, fun hb => ⟨by omega, hb.2⟩⟩

/-- The bits of a bitmap are the right ones for the moved lists. -/
structure GoodBits (K J K' : Nat) (t : Talloc FreeLists) (bitmap : List (BitVec 8)) : Prop where
  length : bitmap.length = bitmapBytes K' J
  field : ∀ g i, 1 ≤ g → g ≤ K - J → InField (K' - K) g i →
    getBit bitmap i = getBit t.store.bitmap (i - 2 ^ (K' - K + g - 1) + 2 ^ (g - 1))
  clear : ∀ i, i ≠ 0 → (∀ g, 1 ≤ g → g ≤ K - J → ¬ InField (K' - K) g i) → getBit bitmap i = false

/-- The pair number of a block inside the old arena. -/
theorem Grows.pair_lt (h : Grows K J K' t arenaSize) {e : Nat} {b : Int} (hF : t.FreeBlock K e b) :
    (b - t.arenaBase).toNat / 2 ^ (e + 1) < 2 ^ (K - 1 - e) := by
  have he := h.inv.exp_lt hF
  have hh := h.inv.holds hF
  obtain ⟨_, hlt⟩ := bitIndex_bounds he hh.1 (h.inv.nat.lt_of_holds hh)
  have hpow : 2 ^ (K - e) = 2 ^ (K - 1 - e) + 2 ^ (K - 1 - e) := by
    rw [← Nat.two_mul, ← Nat.pow_succ']
    congr 1
    omega
  unfold bitIndex at hlt
  omega

/-- The bits after the move are those of the free blocks. -/
theorem Grows.moved_bits (h : Grows K J K' t arenaSize) (hb : GoodBits K J K' t bitmap) (i : Nat)
    (hi : i ≠ 0) : getBit bitmap i = true ↔
      ∃ e b, e < K' ∧ t.FreeBlock K e b ∧ i = bitIndex K' t.arenaBase e b := by
  have hle := h.le
  constructor
  · intro hbit
    -- a set bit is in some field, and there it was set before
    have hfield : ∃ g, 1 ≤ g ∧ g ≤ K - J ∧ InField (K' - K) g i := by
      by_contra hcon
      have hclear := hb.clear i hi (fun g h1 h2 h3 => hcon ⟨g, h1, h2, h3⟩)
      rw [hclear] at hbit
      cases hbit
    obtain ⟨g, h1, h2, hin⟩ := hfield
    have hpos := Nat.two_pow_pos (g - 1)
    rw [hb.field g i h1 h2 hin, h.inv.bits _ (by omega)] at hbit
    obtain ⟨e, b, he, hF, hidx⟩ := hbit
    have hh := h.inv.holds hF
    obtain ⟨hlo, hhi⟩ := bitIndex_bounds he hh.1 (h.inv.nat.lt_of_holds hh)
    rw [← hidx] at hlo hhi
    have hdouble : 2 ^ g = 2 ^ (g - 1) + 2 ^ (g - 1) := by
      rw [← Nat.two_mul, ← Nat.pow_succ']
      congr 1
      omega
    obtain ⟨hin1, hin2⟩ := hin
    have hge : e = K - g := by
      rcases Nat.lt_trichotomy e (K - g) with hlt | heq | hlt
      · have : 2 ^ g ≤ 2 ^ (K - 1 - e) := Nat.pow_le_pow_right (by norm_num) (by omega)
        omega
      · exact heq
      · have : 2 ^ (K - e) ≤ 2 ^ (g - 1) := Nat.pow_le_pow_right (by norm_num) (by omega)
        omega
    refine ⟨e, b, by omega, hF, ?_⟩
    unfold bitIndex at hidx ⊢
    rw [show K - 1 - e = g - 1 by omega] at hidx
    rw [show K' - 1 - e = K' - K + g - 1 by omega]
    omega
  · rintro ⟨e, b, _, hF, hidx⟩
    have he := h.inv.exp_lt hF
    have hJe := h.inv.le_exp hF
    have hpair := h.pair_lt hF
    have hin : InField (K' - K) (K - e) i := by
      unfold InField bitIndex at *
      generalize (b - t.arenaBase).toNat / 2 ^ (e + 1) = q at *
      rw [show K' - K + (K - e) - 1 = K' - 1 - e by omega, show K - e - 1 = K - 1 - e by omega]
      omega
    rw [hb.field (K - e) i (by omega) (by omega) hin]
    have hold : i - 2 ^ (K' - K + (K - e) - 1) + 2 ^ (K - e - 1) = bitIndex K t.arenaBase e b := by
      unfold bitIndex at hidx ⊢
      generalize (b - t.arenaBase).toNat / 2 ^ (e + 1) = q at *
      rw [show K' - K + (K - e) - 1 = K' - 1 - e by omega, show K - e - 1 = K - 1 - e by omega]
      omega
    rw [hold, h.inv.bits _ (bitIndex_ne_zero _ _ _ _)]
    exact ⟨e, b, he, hF, rfl⟩

/-- Moving the status data keeps the invariant, given the right bits. -/
theorem Grows.moved_inv (h : Grows K J K' t arenaSize) (hb : GoodBits K J K' t bitmap) :
    Inv K' J (t.moved arenaSize K J K' freeMem bitmap) := by
  have hle := h.le
  have hsz : (t.arenaSize : Int) ≤ arenaSize := by exact_mod_cast h.size
  have hfb : ∀ e b, (t.moved arenaSize K J K' freeMem bitmap).FreeBlock K' e b ↔
      t.FreeBlock K e b :=
    h.freeBlock_moved
  -- field by field: the lists are those from before, further up
  refine ⟨h.nat, rfl, ?_, rfl, hb.length, ?_, ?_, ?_, ?_, ?_, ?_⟩
  · simp [moved, moveLists]
  · intro g
    rw [h.list_moved]
    split
    · exact List.nodup_nil
    · exact h.inv.nodup _
  · intro e b hF
    obtain ⟨h1, h2⟩ := h.inv.holds ((hfb e b).mp hF)
    exact ⟨h1, h2.trans (by
      show t.arenaBase + t.arenaSize ≤ t.arenaBase + arenaSize
      omega)⟩
  · exact h.inv.canon.mono fun e b hF => (hfb e b).mp hF
  · rw [h.list_moved]
    split
    · rfl
    · rw [Nat.zero_sub]
      exact h.inv.top
  · intro g
    show (t.avails <<< (K' - K)).testBit g = true ↔ _
    rw [h.list_moved, Nat.testBit_shiftLeft]
    by_cases hg : g < K' - K
    · simp [hg, Nat.not_le.mpr hg]
    · rw [if_neg hg, ← h.inv.avail]
      simp [Nat.not_lt.mp hg]
  · intro i hi
    rw [show (t.moved arenaSize K J K' freeMem bitmap).store.bitmap = bitmap from rfl,
      h.moved_bits hb i hi]
    exact exists_congr fun e => exists_congr fun b => by
      rw [hfb e b]
      exact Iff.rfl

/-- The stale bit: the bit of granularity 1 is set and there is a place for its copy. -/
def Stale (K K' : Nat) (t : Talloc FreeLists) : Prop := K < K' ∧ getBit t.store.bitmap 1 = true

instance (K K' : Nat) (t : Talloc FreeLists) : Decidable (Stale K K' t) :=
  inferInstanceAs (Decidable (_ ∧ _))

/-- `relocate` once the bitmap loop has run. -/
theorem Grows.relocate_eq (h : Grows K J K' t arenaSize)
    (hsite : Site t.arenaBase arenaSize (2 ^ J) freeMem) :
    t.relocate t.arenaBase arenaSize freeMem
      = (copyFields t (t.grown arenaSize) t.llistsLen 0 (List.replicate (bitmapBytes K' J) 0)).map
          (t.moved arenaSize K J K' freeMem) := by
  have hle := h.le
  have hJK := h.inv.nat.hJK
  have hn : (K' - J + 1) * nodeSize / nodeSize = K' - J + 1 := Nat.mul_div_cancel _ (by decide)
  have hs : sliceBytes arenaSize (2 ^ J)
      = .ok ((K' - J + 1) * nodeSize, max (2 ^ (K' - J + 1) / 8) 1) :=
    sliceBytes_of h.min (h.nat.size.trans (Nat.pow_le_pow_right (by norm_num) h.nat.hK)) h.nat.hJ
      h.nat.pow2 (by omega)
  obtain ⟨c, _, hc1, hc2⟩ := hsite.place.room_le hs
  obtain ⟨h1, h2, _⟩ := hsite.place.addresses (K := K') (by omega)
  have hblen : t.bitmapLen ≠ 0 := by
    rw [h.inv.blen]
    omega
  unfold relocate
  rw [h.inv.nat.smlst, hs]
  dsimp only [bind, Except.bind]
  rw [hn, h2, h1, h.inv.llen, usizeSub_of_le (by omega),
    show K' - J + 1 - (K - J + 1) = K' - K by omega]
  dsimp only
  rw [if_pos hblen]
  have harena : (⟨t.arenaBase, arenaSize, nextPowerOfTwo arenaSize, 2 ^ J⟩ : Arena) =
      t.grown arenaSize := by
    unfold grown
    rw [h.inv.nat.smlst]
  rw [harena, show max (2 ^ (K' - J + 1) / 8) 1 = bitmapBytes K' J from rfl]
  have hgrown : t.grown arenaSize = ⟨t.arenaBase, arenaSize, nextPowerOfTwo arenaSize, 2 ^ J⟩ :=
    harena.symm
  cases copyFields t (t.grown arenaSize) (K - J + 1) 0 (List.replicate (bitmapBytes K' J) 0) with
  | error f => rfl
  | ok bitmap =>
    show Except.ok _ = Except.ok (t.moved arenaSize K J K' freeMem bitmap)
    unfold moved
    rw [hgrown]

/-- With `gra_diff = 0` and four lists or more the move panics. -/
theorem Grows.relocate_panics (h : Grows K J K t arenaSize)
    (hsite : Site t.arenaBase arenaSize (2 ^ J) freeMem) (hn : 3 ≤ K - J) :
    t.relocate t.arenaBase arenaSize freeMem = .error .overflow := by
  obtain ⟨i₀, b₀, _, _, hstep, hcopied⟩ := h.copyField_zero
  rw [h.relocate_eq hsite, h.inv.llen]
  dsimp only [copyFields]
  rw [hstep]
  show Except.map _ (copyFields t (t.grown arenaSize) (K - J) 1 b₀) = _
  rw [h.copyFields_panics hn (K - J) 1 b₀ (Nat.le_refl 1) (by decide) (by omega)
    (hcopied.length.trans List.length_replicate)]
  rfl

/-- The status data moves as it should, up to the stale bit. -/
theorem Grows.relocate_spec (h : Grows K J K' t arenaSize)
    (hsite : Site t.arenaBase arenaSize (2 ^ J) freeMem) (hd : K < K' ∨ K - J ≤ 2) :
    ∃ good, GoodBits K J K' t good ∧ t.relocate t.arenaBase arenaSize freeMem
      = .ok (if Stale K K' t then (t.moved arenaSize K J K' freeMem good).flipBit (2 ^ (K' - K - 1))
          else t.moved arenaSize K J K' freeMem good) := by
  have hJK := h.inv.nat.hJK
  obtain ⟨i₀, r, hlt, heq, hrun, hlen, hfield, hrest⟩ := h.copyFields_all hd
  rw [h.relocate_eq hsite, hrun]
  by_cases hst : Stale K K' t
  · obtain ⟨hKK, hbit⟩ := hst
    have hi := hlt hKK
    subst hi
    have hr8 : 2 ^ (K' - K - 1) / 8 < r.length := by
      rw [hlen]
      exact two_pow_div_lt (by omega)
    -- the stale bit is outside all fields: they start at `2 ^ (K' - K)`
    have hout : ∀ g, 1 ≤ g → ¬ InField (K' - K) g (2 ^ (K' - K - 1)) := by
      intro g hg hin
      have h1 : 2 ^ (K' - K - 1) < 2 ^ (K' - K + g - 1) :=
        Nat.pow_lt_pow_right (by norm_num) (by omega)
      exact absurd hin.1 (by omega)
    refine ⟨r.set (2 ^ (K' - K - 1) / 8)
      (r.getD (2 ^ (K' - K - 1) / 8) 0 ^^^ (1#8 <<< (2 ^ (K' - K - 1) % 8))), ?_, ?_⟩
    · refine ⟨(List.length_set ..).trans hlen, fun g i h1 h2 hin => ?_, fun i _ hclear => ?_⟩
      · have hne : 2 ^ (K' - K - 1) ≠ i := fun hc => hout g h1 (hc ▸ hin)
        rw [getBit_toggle hr8, hfield g i h1 h2 hin]
        simp [hne]
      · rw [getBit_toggle hr8, hrest i hclear, hbit, Bool.and_true]
        by_cases hi : i = 2 ^ (K' - K - 1)
        · simp [hi]
        · simp [hi, Ne.symm hi]
    · rw [if_pos ⟨hKK, hbit⟩]
      show Except.ok _ = Except.ok _
      congr 1
      exact (flipBit_flipBit (t := t.moved arenaSize K J K' freeMem r) hr8).symm
  · refine ⟨r, ⟨hlen, hfield, fun i hi0 hclear => ?_⟩, by rw [if_neg hst]; rfl⟩
    rw [hrest i hclear]
    by_cases hi : i = i₀
    · have hclear1 : getBit t.store.bitmap 1 = false := by
        rcases Nat.eq_or_lt_of_le h.le with hk | hk
        · -- bit 1 is the field of granularity 1, so there is no such granularity
          have h1 : i = 1 := by have := heq hk; omega
          subst h1
          have hJ : K - J = 0 := by
            by_contra hcon
            refine hclear 1 (Nat.le_refl 1) (by omega) ?_
            rw [hk, Nat.sub_self]
            exact ⟨Nat.le_refl 1, by decide⟩
          rw [← Bool.not_eq_true, h.inv.bits 1 (by decide)]
          rintro ⟨e, b, he, hF, _⟩
          have := h.inv.le_exp hF
          omega
        · exact Bool.not_eq_true _ ▸ fun hc => hst ⟨hk, hc⟩
      rw [hclear1, Bool.and_false]
    · simp [hi]

end Moved

end Tauos.Memm.Talloc
