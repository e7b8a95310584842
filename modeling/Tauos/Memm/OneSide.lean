import Tauos.Memm.BitFields
import Tauos.Memm.Conserve

/-!
# One side of address 0

An arena that wraps around the address space lies on both sides of address 0, and
its base is no multiple of its power of two. Its fields can overrun
(`bits_distinct_iff`), but never on one side of 0: of two blocks that share a bit
the larger starts at or above 0 and the smaller ends at or below it
(`Framed.pair_eq`).

So `dealloc` keeps lists and bitmap in step on the side of its block, whatever that
does to the other side. `SideInv` is the invariant for one side, and
`Framed.mergeRule` makes it an instance of the rule for the merging loop. A naturally
aligned arena has one side only, and the same rule covers it.
-/

namespace Tauos.Memm

open Tauos.Rust Tauos.Utils Tauos.Buddy

/-- An arena of at most `2 ^ K` bytes with smallest block `2 ^ J`, naturally aligned
or with address 0 inside. -/
structure Framed (a : Arena) (K J : Nat) : Prop where
  pow2 : a.arenaSizePow2 = 2 ^ K
  smlst : a.smlstBlock = 2 ^ J
  hJ : 4 ≤ J
  hJK : J ≤ K
  hK : K ≤ 48
  size : a.arenaSize ≤ 2 ^ K
  lo : -2 ^ 63 ≤ a.arenaBase
  hi : a.arenaBase + a.arenaSize < 2 ^ 63
  place : Aligned K a.arenaBase ∨ (a.arenaBase < 0 ∧ 0 < a.arenaBase + a.arenaSize)

/-- The block is in the arena and does not reach over address 0. -/
def Arena.OnSide (a : Arena) (pos : Bool) (e : Nat) (b : Int) : Prop :=
  a.Holds e b ∧ if pos = true then 0 ≤ b else b + 2 ^ e ≤ 0

/-- The bit of a block, counted from the arena base rounded to its pair. -/
def pairBit (K : Nat) (base : Int) (e : Nat) (b : Int) : Nat := 2 ^ (K - 1 - e) + pairNo base e b

section Side

variable {a : Arena} {K J e e' : Nat} {b b' : Int} {pos : Bool}

/-- A naturally aligned arena is framed. -/
theorem Natural.framed (h : Natural a K J) : Framed a K J :=
  ⟨h.pow2, h.smlst, h.hJ, h.hJK, h.hK, h.size, h.lo, h.hi, Or.inl h.base⟩

/-- The arena is no larger than its power of two. -/
theorem Framed.cast_size (h : Framed a K J) : (a.arenaSize : Int) ≤ 2 ^ K := by
  exact_mod_cast h.size

/-- The bit of a block. -/
theorem Framed.offset (h : Framed a K J) (he : e < K) (hb : a.Holds e b) :
    a.bitmapOffset b (2 ^ e) = .ok (pairBit K a.arenaBase e b) := by
  obtain ⟨h1, h2⟩ := within_floorBlock (e + 1) a.arenaBase
  obtain ⟨h3, h4⟩ := hb
  have hpos := two_pow_pos e
  have hsz := h.cast_size
  have hlo := h.lo
  have hhi := h.hi
  have hK : (2 : Int) ^ K ≤ 2 ^ 48 := pow_le_pow_right₀ (by norm_num) h.hK
  have hE : (2 : Int) ^ (e + 1) ≤ 2 ^ 48 := pow_le_pow_right₀ (by norm_num) (by have := h.hK; omega)
  exact bitmapOffset_eq h.pow2 h.hK he ⟨by omega, by omega⟩ (by omega) (by omega)

/-- Bit 0 is of no pair. -/
theorem pairBit_ne_zero (K : Nat) (base : Int) (e : Nat) (b : Int) : pairBit K base e b ≠ 0 := by
  have hpos := Nat.two_pow_pos (K - 1 - e)
  unfold pairBit
  omega

/-- The bitmap has a bit for every block of the arena. -/
theorem Framed.bit_lt (h : Framed a K J) (hJe : J ≤ e) (he : e < K) (hb : a.Holds e b) :
    pairBit K a.arenaBase e b / 8 < max (2 ^ (K - J + 1) / 8) 1 := by
  have hsz := h.cast_size
  have hle := pairNo_le he hb.1 (hb.2.trans (by omega))
  have hdouble : 2 ^ (K - 1 - e) + 2 ^ (K - 1 - e) = 2 ^ (K - e) := by
    rw [← Nat.two_mul, ← Nat.pow_succ']
    congr 1
    omega
  have hmono : 2 ^ (K - e) ≤ 2 ^ (K - J) := Nat.pow_le_pow_right (by norm_num) (by omega)
  have hpos := Nat.two_pow_pos (K - J)
  have hsucc : 2 ^ (K - J + 1) = 2 ^ (K - J) + 2 ^ (K - J) := by
    rw [Nat.pow_succ]
    omega
  unfold pairBit
  rcases Nat.lt_or_ge (K - J + 1) 3 with hs | hs
  · have : 2 ^ (K - J + 1) ≤ 2 ^ 2 := Nat.pow_le_pow_right (by norm_num) (by omega)
    omega
  · have : 2 ^ (K - J + 1) = 8 * 2 ^ (K - J + 1 - 3) := by
      rw [show (8 : Nat) = 2 ^ 3 by norm_num, ← Nat.pow_add]
      congr 1
      omega
    omega

/-- The buddy of a block is on its side, and so is the parent. -/
theorem Arena.OnSide.pair (h : a.OnSide pos e b) (ha : Aligned e b) (hbud : a.Holds e (buddy e b)) :
    a.OnSide pos e (buddy e b) ∧ a.OnSide pos (e + 1) (parent e b) := by
  obtain ⟨⟨h1, h2⟩, hside⟩ := h
  obtain ⟨h3, h4⟩ := hbud
  have hs := two_pow_succ e
  have hpos := two_pow_pos e
  by_cases hal : Aligned (e + 1) b
  · have hneg : b < 0 → b + 2 ^ (e + 1) ≤ 0 := hal.add_le_of_lt (dvd_zero _)
    unfold Arena.OnSide Arena.Holds
    rw [buddy, if_pos hal] at h3 h4 ⊢
    rw [parent, if_pos hal]
    cases pos with
    | false =>
      simp only [Bool.false_eq_true, if_false] at hside ⊢
      have := hneg (by omega)
      omega
    | true =>
      simp only [if_true] at hside ⊢
      omega
  · have hne : b ≠ 0 := fun hc => hal (hc ▸ dvd_zero _)
    have hge : 0 < b → 0 + 2 ^ e ≤ b := Aligned.add_le_of_lt (dvd_zero _) ha
    unfold Arena.OnSide Arena.Holds
    rw [buddy, if_neg hal] at h3 h4 ⊢
    rw [parent, if_neg hal]
    cases pos with
    | false =>
      simp only [Bool.false_eq_true, if_false] at hside ⊢
      omega
    | true =>
      simp only [if_true] at hside ⊢
      have := hge (by omega)
      omega

/-- On one side of 0 no two sizes share a bit. -/
theorem Framed.size_eq (h : Framed a K J) (he : e < K) (hb : a.OnSide pos e b)
    (hb' : a.OnSide pos e' b')
    (heq : pairBit K a.arenaBase e b = pairBit K a.arenaBase e' b') : ¬ e' < e := by
  intro hlt
  obtain ⟨⟨h1, h2⟩, hside⟩ := hb
  obtain ⟨⟨h1', h2'⟩, hside'⟩ := hb'
  have hsz := h.cast_size
  have hpos := two_pow_pos e
  obtain ⟨_, htop, hzero⟩ := shared_bit he hlt h1 (h2.trans (by omega)) heq
  have hfirst := pairNo_eq_zero h1' hzero
  rcases h.place with hal | ⟨hneg, hend⟩
  · rw [floorBlock_of_aligned (hal.mono he)] at htop
    omega
  · have hlow : -2 ^ K ≤ floorBlock (e + 1) a.arenaBase :=
      (le_floorBlock (dvd_neg.mpr (pow_dvd_pow 2 he))).mpr (by omega)
    have hhigh : floorBlock (e' + 1) a.arenaBase + 2 ^ (e' + 1) ≤ 0 :=
      (aligned_floorBlock _ _).add_le_of_lt (dvd_zero _)
        ((within_floorBlock (e' + 1) a.arenaBase).1.trans_lt hneg)
    have hpos' := two_pow_pos e'
    cases pos with
    | false =>
      simp only [Bool.false_eq_true, if_false] at hside
      omega
    | true =>
      simp only [if_true] at hside'
      omega

/-- On one side of 0 a bit belongs to one pair. -/
theorem Framed.pair_eq (h : Framed a K J) (he : e < K) (he' : e' < K) (ha : Aligned e b)
    (ha' : Aligned e' b') (hb : a.OnSide pos e b) (hb' : a.OnSide pos e' b')
    (heq : pairBit K a.arenaBase e b = pairBit K a.arenaBase e' b') :
    e' = e ∧ (b' = b ∨ b' = buddy e b) := by
  have hle := h.size_eq he hb hb' heq
  have hge := h.size_eq he' hb' hb heq.symm
  obtain rfl : e' = e := by omega
  refine ⟨rfl, ?_⟩
  unfold pairBit at heq
  rw [Nat.add_left_cancel_iff, pairNo_eq_iff hb.1.1 hb'.1.1] at heq
  have hfl : parent e' b = parent e' b' := by
    rw [parent_eq_floorBlock ha, parent_eq_floorBlock ha']
    unfold floorBlock
    rw [show (2 : Int) ^ (e' + 1) = 2 * 2 ^ e' by ring, heq]
  exact eq_or_eq_buddy hfl.symm

/-- The bit of a block is the bit of its buddy. -/
theorem Framed.bit_buddy (_h : Framed a K J) (ha : Aligned e b) (hb : a.Holds e b)
    (hbud : a.Holds e (buddy e b)) :
    pairBit K a.arenaBase e (buddy e b) = pairBit K a.arenaBase e b := by
  have hfl : parent e (buddy e b) = parent e b := parent_buddy ha
  rw [parent_eq_floorBlock ha, parent_eq_floorBlock (aligned_buddy ha)] at hfl
  unfold pairBit
  rw [Nat.add_left_cancel_iff, pairNo_eq_iff hbud.1 hb.1,
    show (2 : Int) * 2 ^ e = 2 ^ (e + 1) by ring]
  exact Int.eq_of_mul_eq_mul_right (ne_of_gt (two_pow_pos (e + 1))) hfl

end Side

/-! ## The invariant of one side -/

/-- Lists and bitmap agree on the pairs of one side of address 0. -/
structure SideInv (a : Arena) (K J : Nat) (pos : Bool) (t : Talloc FreeLists) : Prop where
  arena : t.toArena = a
  slen : t.store.llists.length = K - J + 1
  sblen : t.store.bitmap.length = max (2 ^ (K - J + 1) / 8) 1
  nodup : ∀ g, (t.list g).Nodup
  holds : ∀ {e b}, t.FreeBlock K e b → a.Holds e b
  canon : Canonical (t.FreeBlock K)
  bits : ∀ {e b}, J ≤ e → e < K → Aligned e b → a.OnSide pos e b →
    (getBit t.store.bitmap (pairBit K a.arenaBase e b) = true ↔
      t.FreeBlock K e b ∨ t.FreeBlock K e (buddy e b))

section SideInv

variable {a : Arena} {K J e : Nat} {b : Int} {pos : Bool} {t : Talloc FreeLists}

/-- Each size has its list. -/
theorem SideInv.slot (h : SideInv a K J pos t) (hJ : J ≤ e) : K - e < t.store.llists.length := by
  have := h.slen
  omega

/-- Each pair has its bit. -/
theorem SideInv.bit_lt (h : SideInv a K J pos t) (hf : Framed a K J) (hJ : J ≤ e) (he : e < K)
    (hb : a.OnSide pos e b) : pairBit K a.arenaBase e b / 8 < t.store.bitmap.length := by
  rw [h.sblen]
  exact hf.bit_lt hJ he hb.1

/-- A block becomes free whose buddy is not. -/
theorem SideInv.added (h : SideInv a K J pos t) (hf : Framed a K J) (hJ : J ≤ e) (he : e < K)
    (ha : Aligned e b) (hb : a.OnSide pos e b)
    (hfree : ∀ x, Within e b x → ¬ Covers (t.FreeBlock K) x)
    (hbud : ¬ t.FreeBlock K e (buddy e b)) :
    SideInv a K J pos (t.added (K - e) (pairBit K a.arenaBase e b) b) := by
  have hg := h.slot hJ
  have hi := h.bit_lt hf hJ he hb
  have hnot : ¬ t.FreeBlock K e b := fun hF => hfree b (within_base e b) ⟨e, b, hF, within_base e b⟩
  have hfb := Talloc.freeBlock_added (t := t) (i := pairBit K a.arenaBase e b) (b := b)
    (Nat.le_of_lt he) hg
  -- field by field, the bits last
  refine ⟨h.arena, ?_, ?_, ?_, ?_, ?_, ?_⟩
  · exact (List.length_set ..).trans h.slen
  · exact (List.length_set ..).trans h.sblen
  · intro g
    rw [Talloc.list_added hg]
    split
    · exact List.nodup_cons.mpr ⟨fun hm => hnot ⟨Nat.le_of_lt he, hm⟩, h.nodup _⟩
    · exact h.nodup g
  · intro e' b' hF
    rcases (hfb e' b').mp hF with ⟨rfl, rfl⟩ | hF
    · exact hb.1
    · exact h.holds hF
  · exact (h.canon.insert ha hfree hbud).mono (fun e' b' hF => (hfb e' b').mp hF)
  · intro e' b' hJ' he' ha' hb'
    rw [Talloc.getBit_added hi, hfb, hfb]
    by_cases hidx : pairBit K a.arenaBase e b = pairBit K a.arenaBase e' b'
    · -- the pair of the block, with neither half listed before
      obtain ⟨rfl, hbb⟩ := hf.pair_eq he he' ha ha' hb hb' hidx
      have hclear : getBit t.store.bitmap (pairBit K a.arenaBase e' b) = false := by
        rw [← Bool.not_eq_true, h.bits hJ he ha hb]
        exact fun hc => hc.elim hnot hbud
      rw [← hidx, hclear]
      simp only [decide_true, Bool.bne_true, Bool.not_false, true_iff]
      rcases hbb with rfl | rfl
      · exact Or.inl (Or.inl ⟨trivial, rfl⟩)
      · exact Or.inr (Or.inl ⟨trivial, buddy_buddy ha⟩)
    · have hne : ¬ (e' = e ∧ b' = b) := by
        intro hc
        obtain ⟨rfl, rfl⟩ := hc
        exact hidx rfl
      have hne' : ¬ (e' = e ∧ buddy e' b' = b) := by
        intro hc
        obtain ⟨rfl, rfl⟩ := hc
        exact hidx (hf.bit_buddy ha' hb'.1 hb.1)
      simp only [hidx, decide_false, Bool.bne_false, hne, hne', false_or]
      exact h.bits hJ' he' ha' hb'

/-- The buddy of a block is unlinked. -/
theorem SideInv.removed (h : SideInv a K J pos t) (hf : Framed a K J) (hJ : J ≤ e) (he : e < K)
    (ha : Aligned e b) (hb : a.OnSide pos e b) (hF : t.FreeBlock K e (buddy e b)) :
    SideInv a K J pos (t.removed (K - e) (pairBit K a.arenaBase e b) (buddy e b)) := by
  have hg := hF.lt_length
  have hi := h.bit_lt hf hJ he hb
  have hfb := Talloc.freeBlock_removed (i := pairBit K a.arenaBase e b) hF (h.nodup _)
  have hshape : t.removed (K - e) (pairBit K a.arenaBase e b) (buddy e b) = _ := Talloc.removed_eq
  have hnot : ¬ t.FreeBlock K e b := fun hc => h.canon.noBuddy hc hF
  have hbudne := buddy_ne e b
  refine ⟨?_, ?_, ?_, ?_, ?_, ?_, ?_⟩
  · rw [hshape]; exact h.arena
  · rw [hshape]; exact (List.length_set ..).trans h.slen
  · rw [hshape]; exact (List.length_set ..).trans h.sblen
  · intro g
    rw [Talloc.list_removed hg]
    split
    · exact (h.nodup _).erase _
    · exact h.nodup g
  · intro e' b' hF'
    exact h.holds ((hfb e' b').mp hF').1
  · exact h.canon.mono (fun e' b' hF' => ((hfb e' b').mp hF').1)
  · intro e' b' hJ' he' ha' hb'
    rw [Talloc.getBit_removed hi, hfb, hfb]
    by_cases hidx : pairBit K a.arenaBase e b = pairBit K a.arenaBase e' b'
    · obtain ⟨rfl, hbb⟩ := hf.pair_eq he he' ha ha' hb hb' hidx
      have hset : getBit t.store.bitmap (pairBit K a.arenaBase e' b) = true :=
        (h.bits hJ he ha hb).mpr (Or.inr hF)
      rw [← hidx, hset]
      simp only [decide_true, Bool.bne_true, Bool.not_true, Bool.false_eq_true, false_iff]
      rcases hbb with rfl | rfl
      · exact fun hc => hc.elim (fun hc => hnot hc.1) (fun hc => hc.2 ⟨trivial, rfl⟩)
      · rw [buddy_buddy ha]
        exact fun hc => hc.elim (fun hc => hc.2 ⟨trivial, rfl⟩) (fun hc => hnot hc.1)
    · have hne : ¬ (e' = e ∧ b' = buddy e b) := by
        intro hc
        obtain ⟨rfl, rfl⟩ := hc
        exact hidx (hf.bit_buddy ha hb.1 hb'.1).symm
      have hne' : ¬ (e' = e ∧ buddy e' b' = buddy e b) := by
        intro hc
        obtain ⟨rfl, hc⟩ := hc
        have : b' = b := by rw [← buddy_buddy ha', hc, buddy_buddy ha]
        exact hidx (by rw [this])
      simp only [hidx, decide_false, Bool.bne_false, hne, hne', not_false_eq_true, and_true]
      exact h.bits hJ' he' ha' hb'

/-- The merging loop on one side of address 0. -/
theorem Framed.mergeRule (hf : Framed a K J) {y : Int} (hy : Within K a.arenaBase y) :
    Talloc.MergeRule K J y (SideInv a K J pos) (a.OnSide pos) (pairBit K a.arenaBase) where
  hK := by
    have := hf.hK
    omega
  whole {b} hb := by
    have hsz := hf.cast_size
    obtain ⟨⟨h1, h2⟩, _⟩ := hb
    obtain ⟨h3, h4⟩ := hy
    exact ⟨by omega, by omega⟩
  nodup h := h.nodup
  canon h := h.canon
  slots h hJ := h.slot hJ
  offset {t e b} h hJ he hb := by
    refine ⟨?_, h.bit_lt hf hJ he hb, pairBit_ne_zero _ _ _ _⟩
    rw [h.arena]
    exact hf.offset he hb.1
  bit h hJ he ha hb := h.bits hJ he ha hb
  parent {t e b} h he ha hb hF := by
    have hbud := h.holds hF
    have hpos := two_pow_pos e
    have hlo := hf.lo
    have hhi := hf.hi
    refine ⟨(hb.pair ha hbud).2, ?_, ?_⟩
    · exact hlo.trans hbud.1
    · have := hbud.2
      omega
  removed h hJ he ha hb hF := h.removed hf hJ he ha hb hF
  added h hJ he ha hb hfree hbud := h.added hf hJ he ha hb hfree hbud

/-- `dealloc` on one side of address 0. -/
theorem SideInv.dealloc (h : SideInv a K J pos t) (hf : Framed a K J) {y : Int} {l : Layout}
    (hl : a.layoutToSize l = 2 ^ e) (hJ : J ≤ e) (heK : e ≤ K) (ha : Aligned e b)
    (hb : a.OnSide pos e b) (hfree : ∀ x, Within e b x → ¬ Covers (t.FreeBlock K) x)
    (hy : Within K a.arenaBase y) (hny : ¬ Within e b y) (hyf : ¬ Covers (t.FreeBlock K) y) :
    ∃ t', t.dealloc b l = .ok t' ∧ SideInv a K J pos t' ∧ Talloc.SameShape t t' ∧
      ∀ x, Covers (t'.FreeBlock K) x ↔ Within e b x ∨ Covers (t.FreeBlock K) x := by
  have hgran : a.blockGranularity (2 ^ e) = .ok (K - e) := by
    have hK := hf.hK
    unfold Arena.blockGranularity
    rw [hf.pow2, leadingZeros_two_pow, leadingZeros_two_pow, usizeSub_of_le (by omega)]
    congr 1
    omega
  have hrun : t.dealloc b l = Talloc.deallocLoop (K - e) b (2 ^ e) t := by
    dsimp only [Talloc.dealloc]
    rw [h.arena, hl, hgran]
    rfl
  rw [hrun]
  obtain ⟨t', hok, hinv, hsh, hcov, _⟩ := Talloc.deallocLoop_rule (hf.mergeRule hy) (K - e) h hJ heK
    rfl ha hb hfree hny hyf
  exact ⟨t', hok, hinv, hsh, hcov⟩

end SideInv

end Tauos.Memm
