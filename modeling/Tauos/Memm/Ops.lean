import Tauos.Memm.Invariant

/-!
# What each operation does to the free addresses

One specification per operation of `Talloc` on a naturally aligned arena, in
terms of `Covers (t.FreeBlock K)`:

* `dealloc_spec` adds the block, whatever it merges with on the way;
* `breakDown_spec` adds the upper part of a block, which is all `shrink` does
  and what is left to do in `alloc`;
* `removeBlockNext_spec` and `split_spec` take one block out of the free
  addresses, the two ways in which `alloc` does it;
* `release_spec` adds the whole span, except the null block.

Coalescing stops before granularity 0 because some address of the arena (a byte
of the status data) stays reserved: `deallocLoop_spec` takes such a `y`.
-/

namespace Tauos.Memm.Talloc

open Tauos.Rust Tauos.Utils Tauos.Buddy

variable {K J : Nat} {t : Talloc FreeLists}

/-- Every block of `t'` starts where a block of `t` started, or at `b`. -/
def BasesFrom (K : Nat) (t t' : Talloc FreeLists) (P : Int → Prop) : Prop :=
  ∀ {e b}, t'.FreeBlock K e b → (∃ e', t.FreeBlock K e' b) ∨ P b

/-- Buddies share a bit. -/
theorem Inv.bitIndex_buddy (h : Inv K J t) {e : Nat} {b : Int} (he : e < K) (ha : Aligned e b)
    (hb : t.Holds e b) (hbud : t.Holds e (buddy e b)) :
    bitIndex K t.arenaBase e (buddy e b) = bitIndex K t.arenaBase e b := by
  rw [bitIndex_inj h.nat.base he he hbud.1 (h.nat.lt_of_holds hbud) hb.1 (h.nat.lt_of_holds hb)]
  refine ⟨rfl, ?_⟩
  rw [← parent_eq_floorBlock (aligned_buddy ha), ← parent_eq_floorBlock ha, parent_buddy ha]

/-- The two pointers of a merge are the buddy and the parent. -/
theorem merge_ptrs {e : Nat} {b : Int} (he : e < 64) (ha : Aligned e b)
    (hin : InIsize (buddy e b)) :
    (if isLowerBuddy b (2 ^ e) then (wrappingAdd b (2 ^ e), b)
      else (wrappingSub b (2 ^ e), wrappingSub b (2 ^ e))) = (buddy e b, parent e b) := by
  have hlow := Natural.isLowerBuddy he ha
  by_cases hal : Aligned (e + 1) b
  · have hb2 : buddy e b = b + ((2 ^ e : Nat) : Int) := by
      rw [buddy, if_pos hal]
      push_cast
      rfl
    rw [if_pos (hlow.mpr hal), parent, if_pos hal,
      wrappingAdd_of_inIsize (by rw [← hb2]; exact hin),
      ← hb2]
  · have hb2 : buddy e b = b - ((2 ^ e : Nat) : Int) := by
      rw [buddy, if_neg hal]
      push_cast
      rfl
    rw [if_neg (fun hc => hal (hlow.mp hc)), parent, if_neg hal,
      wrappingSub_of_inIsize (by rw [← hb2]; exact hin), ← hb2]
    rw [buddy, if_neg hal]

/-- A merge with a listed buddy. -/
theorem takeBuddy_eq {e i : Nat} {b : Int} (he : e < 64) (ha : Aligned e b)
    (hin : InIsize (buddy e b)) (hF : t.FreeBlock K e (buddy e b))
    (hi : i / 8 < t.store.bitmap.length) :
    t.takeBuddy (K - e) i b (2 ^ e) = .ok (parent e b, t.removed (K - e) i (buddy e b)) := by
  unfold takeBuddy
  rw [merge_ptrs he ha hin]
  show (t.removeBlock _ _ (buddy e b) >>= _) = _
  rw [removeBlock_eq hF.2 hi]
  rfl

/-- A free buddy is taken out, and the parent is next. -/
theorem Inv.takeBuddy_eq (h : Inv K J t) {e : Nat} {b : Int} (he : e < K) (ha : Aligned e b)
    (hb : t.Holds e b) (hF : t.FreeBlock K e (buddy e b)) :
    t.takeBuddy (K - e) (bitIndex K t.arenaBase e b) b (2 ^ e)
      = .ok (parent e b, t.removed (K - e) (bitIndex K t.arenaBase e b) (buddy e b)) := by
  have hK := h.nat.hK
  obtain ⟨hlo, hhi⟩ := h.holds hF
  have hpos := two_pow_pos e
  exact Talloc.takeBuddy_eq (by omega) ha (h.nat.inIsize hlo (by omega)) hF
    (h.bit_lt (h.le_exp hF) he hb)

/-- The parent of two blocks of the arena is inside the arena. -/
theorem Inv.holds_parent (_h : Inv K J t) {e : Nat} {b : Int} (hb : t.Holds e b)
    (hbud : t.Holds e (buddy e b)) : t.Holds (e + 1) (parent e b) := by
  have hs := two_pow_succ e
  obtain ⟨h1, h2⟩ := hb
  obtain ⟨h3, h4⟩ := hbud
  unfold Arena.Holds
  unfold buddy at h3 h4
  unfold parent
  split at h3 <;> rename_i hal
  · rw [if_pos hal] at h4 ⊢
    exact ⟨h1, by omega⟩
  · rw [if_neg hal] at h4 ⊢
    exact ⟨h3, by omega⟩

/-- A reserved address outside the block rules out the block of the whole arena. -/
theorem Inv.exp_lt_of_reserved (h : Inv K J t) {e : Nat} {b y : Int} (he : e ≤ K)
    (hb : t.Holds e b) (hy : Within K t.arenaBase y) (hny : ¬ Within e b y) : e < K := by
  by_contra hcon
  obtain rfl : e = K := by omega
  have hsz := h.nat.cast_pow
  obtain ⟨h1, h2⟩ := hb
  obtain ⟨h3, h4⟩ := hy
  exact hny ⟨by omega, by omega⟩

/-- The rule for the merging loop of `dealloc`. `I` is what is kept of the allocator,
`B e b` says that the block of exponent `e` at `b` may be freed, `idx e b` is its bit,
and `y` an address that stays reserved. -/
structure MergeRule (K J : Nat) (y : Int) (I : Talloc FreeLists → Prop) (B : Nat → Int → Prop)
    (idx : Nat → Int → Nat) : Prop where
  hK : K < 64
  whole : ∀ {b}, B K b → Within K b y
  nodup : ∀ {t}, I t → ∀ g, (t.list g).Nodup
  canon : ∀ {t}, I t → Canonical (t.FreeBlock K)
  slots : ∀ {t e}, I t → J ≤ e → K - e < t.store.llists.length
  offset : ∀ {t e b}, I t → J ≤ e → e < K → B e b →
    t.bitmapOffset b (2 ^ e) = .ok (idx e b) ∧ idx e b / 8 < t.store.bitmap.length ∧ idx e b ≠ 0
  bit : ∀ {t e b}, I t → J ≤ e → e < K → Aligned e b → B e b →
    (getBit t.store.bitmap (idx e b) = true ↔ t.FreeBlock K e b ∨ t.FreeBlock K e (buddy e b))
  parent : ∀ {t e b}, I t → e < K → Aligned e b → B e b → t.FreeBlock K e (buddy e b) →
    B (e + 1) (parent e b) ∧ InIsize (buddy e b)
  removed : ∀ {t e b}, I t → J ≤ e → e < K → Aligned e b → B e b → t.FreeBlock K e (buddy e b) →
    I (t.removed (K - e) (idx e b) (buddy e b))
  added : ∀ {t e b}, I t → J ≤ e → e < K → Aligned e b → B e b →
    (∀ x, Within e b x → ¬ Covers (t.FreeBlock K) x) → ¬ t.FreeBlock K e (buddy e b) →
    I (t.added (K - e) (idx e b) b)

/-- The loop frees the block it is given. -/
theorem deallocLoop_rule {y : Int} {I : Talloc FreeLists → Prop} {B : Nat → Int → Prop}
    {idx : Nat → Int → Nat} (hR : MergeRule K J y I B idx) :
    ∀ (g : Nat) {t : Talloc FreeLists} {e : Nat} {b : Int},
    I t → J ≤ e → e ≤ K → K - e = g → Aligned e b → B e b →
    (∀ x, Within e b x → ¬ Covers (t.FreeBlock K) x) →
    ¬ Within e b y → ¬ Covers (t.FreeBlock K) y →
    ∃ t', deallocLoop g b (2 ^ e) t = .ok t' ∧ I t' ∧ SameShape t t' ∧
      (∀ x, Covers (t'.FreeBlock K) x ↔ Within e b x ∨ Covers (t.FreeBlock K) x) ∧
      BasesFrom K t t' (· = b) := by
  intro g
  induction g with
  | zero =>
    intro t e b _ _ heK hg _ hb _ hny _
    obtain rfl : e = K := by omega
    exact absurd (hR.whole hb) hny
  | succ g ih =>
    intro t e b h hJ heK hg ha hb hfree hny hyf
    have he : e < K := by omega
    have hK := hR.hK
    obtain ⟨hoff, hi, hi0⟩ := hR.offset h hJ he hb
    have hbitiff := hR.bit h hJ he ha hb
    unfold deallocLoop
    rw [hoff, ok_bind, readBitflag_eq hi, ok_bind]
    by_cases hbit : getBit t.store.bitmap (idx e b) = true
    · -- the buddy is listed: unlink it and go on with the parent
      have hF : t.FreeBlock K e (buddy e b) := by
        rcases hbitiff.mp hbit with hF | hF
        · exact absurd ⟨e, b, hF, within_base e b⟩ (hfree b (within_base e b))
        · exact hF
      obtain ⟨hpar, hin⟩ := hR.parent h he ha hb hF
      have hcov := covers_removed_of (i := idx e b) (hR.nodup h) (hR.canon h) hF
      have hfbr := freeBlock_removed (i := idx e b) hF (hR.nodup h _)
      have hsh := removed_shape (t := t) hi hi0 (K - e) (buddy e b)
      have hstep := takeBuddy_eq (show e < 64 by omega) ha hin hF hi
      obtain ⟨t', hrun, hinv', hsh', hcov', hbase'⟩ := ih (hR.removed h hJ he ha hb hF)
        (show J ≤ e + 1 by omega) (by omega) (by omega) (aligned_parent ha) hpar
        (fun x => not_covers_parent hfree hcov) (not_within_parent hny hF hyf)
          (fun hc => hyf ((hcov y).mp hc).1)
      refine ⟨t', ?_, hinv', hsh.trans hsh', ?_, ?_⟩
      · rw [if_pos hbit, ← hg, hstep, ok_bind]
        dsimp only
        rw [Nat.shiftLeft_eq, ← Nat.pow_add]
        exact hrun
      · intro x
        rw [hcov', within_parent, hcov]
        constructor
        · rintro ((hx | hx) | ⟨hx, _⟩)
          · exact Or.inl hx
          · exact Or.inr ⟨e, buddy e b, hF, hx⟩
          · exact Or.inr hx
        · rintro (hx | hx)
          · exact Or.inl (Or.inl hx)
          · by_cases hxb : Within e (buddy e b) x
            · exact Or.inl (Or.inr hxb)
            · exact Or.inr ⟨hx, hxb⟩
      · intro e' b' hF'
        rcases hbase' hF' with ⟨e'', hF''⟩ | rfl
        · exact Or.inl ⟨e'', ((hfbr e'' b').mp hF'').1⟩
        · -- the parent starts at one of the two halves
          by_cases hal : Aligned (e + 1) b
          · exact Or.inr (if_pos hal)
          · refine Or.inl ⟨e, ?_⟩
            rw [show parent e b = buddy e b by rw [parent, buddy, if_neg hal, if_neg hal]]
            exact hF
    · -- the buddy is not listed: the block becomes a free block
      have hbud : ¬ t.FreeBlock K e (buddy e b) := fun hc => hbit (hbitiff.mpr (Or.inr hc))
      have hgl := hR.slots h hJ
      refine ⟨t.added (K - e) (idx e b) b, ?_, hR.added h hJ he ha hb hfree hbud,
        added_shape hi hi0 _ _, covers_added (Nat.le_of_lt he) hgl, ?_⟩
      · rw [if_neg hbit, ← hg]
        exact addBlockNext_eq hgl hi b
      · intro e' b' hF'
        rcases (freeBlock_added (Nat.le_of_lt he) hgl e' b').mp hF' with ⟨_, hbb⟩ | hF'
        · exact Or.inr hbb
        · exact Or.inl ⟨e', hF'⟩

/-- The blocks of a naturally aligned arena. -/
theorem Natural.mergeRule {a : Arena} {y : Int} (ha : Natural a K J) (hy : Within K a.arenaBase y) :
    MergeRule K J y (fun t => Inv K J t ∧ t.toArena = a) a.Holds (bitIndex K a.arenaBase) where
  hK := by
    have := ha.hK
    omega
  whole {b} hb := by
    have hsz := ha.cast_pow
    obtain ⟨h1, h2⟩ := hb
    obtain ⟨h3, h4⟩ := hy
    exact ⟨by omega, by omega⟩
  nodup h := h.1.nodup
  canon h := h.1.canon
  slots h hJ := h.1.idx_lt hJ
  offset {t e b} h hJ he hb := by
    obtain ⟨h, rfl⟩ := h
    exact ⟨h.offset he hb, h.bit_lt hJ he hb, bitIndex_ne_zero _ _ _ _⟩
  bit {t e b} h hJ he hal hb := by
    obtain ⟨h, rfl⟩ := h
    exact h.bit_iff he hal hb.1 (h.nat.lt_of_holds hb)
  parent {t e b} h he hal hb hF := by
    obtain ⟨h, rfl⟩ := h
    have hbud := h.holds hF
    have hpos := two_pow_pos e
    exact ⟨h.holds_parent hb hbud, h.nat.inIsize hbud.1 (by have := hbud.2; omega)⟩
  removed {t e b} h hJ he hal hb hF := by
    obtain ⟨h, rfl⟩ := h
    have hbud := h.holds hF
    have hidx := h.bitIndex_buddy he hal hb hbud
    have hinv := removed_inv h hF
    have hsh := removed_shape (t := t) (h.bit_lt hJ he hbud) (bitIndex_ne_zero _ _ _ _) (K - e)
      (buddy e b)
    rw [hidx] at hinv hsh
    exact ⟨hinv, hsh.arena⟩
  added {t e b} h hJ he hal hb hfree hbud := by
    obtain ⟨h, rfl⟩ := h
    exact ⟨added_inv h hJ he hal hb hfree hbud, rfl⟩

/-- `dealloc`'s loop frees the block it is given. -/
theorem deallocLoop_spec (g : Nat) {t : Talloc FreeLists} {e : Nat} {b y : Int} (h : Inv K J t)
    (hJ : J ≤ e) (heK : e ≤ K) (hg : K - e = g) (ha : Aligned e b) (hb : t.Holds e b)
    (hfree : ∀ x, Within e b x → ¬ Covers (t.FreeBlock K) x)
    (hy : Within K t.arenaBase y) (hny : ¬ Within e b y) (hyf : ¬ Covers (t.FreeBlock K) y) :
    ∃ t', deallocLoop g b (2 ^ e) t = .ok t' ∧ Inv K J t' ∧ SameShape t t' ∧
      (∀ x, Covers (t'.FreeBlock K) x ↔ Within e b x ∨ Covers (t.FreeBlock K) x) ∧
      BasesFrom K t t' (· = b) := by
  obtain ⟨t', hrun, hinv, hrest⟩ :=
    deallocLoop_rule (Natural.mergeRule h.nat hy) g ⟨h, rfl⟩ hJ heK hg ha hb
    hfree hny hyf
  exact ⟨t', hrun, hinv.1, hrest⟩

/-- `dealloc` frees the block of its layout. -/
theorem dealloc_spec {e : Nat} {b y : Int} {l : Layout} (h : Inv K J t)
    (hl : t.layoutToSize l = 2 ^ e) (hJ : J ≤ e) (heK : e ≤ K) (ha : Aligned e b)
    (hb : t.Holds e b) (hfree : ∀ x, Within e b x → ¬ Covers (t.FreeBlock K) x)
    (hy : Within K t.arenaBase y) (hny : ¬ Within e b y) (hyf : ¬ Covers (t.FreeBlock K) y) :
    ∃ t', t.dealloc b l = .ok t' ∧ Inv K J t' ∧ SameShape t t' ∧
      (∀ x, Covers (t'.FreeBlock K) x ↔ Within e b x ∨ Covers (t.FreeBlock K) x) ∧
      BasesFrom K t t' (· = b) := by
  have hrun : t.dealloc b l = deallocLoop (K - e) b (2 ^ e) t := by
    dsimp only [dealloc]
    rw [hl, h.nat.blockGranularity heK]
    rfl
  rw [hrun]
  exact deallocLoop_spec (K - e) h hJ heK rfl ha hb hfree hy hny hyf

/-! ## The lists after a step that returned -/

/-- A flip leaves the lists alone. -/
theorem toggleBitflag_list {t' : Talloc FreeLists} {i : Nat} (h : t.toggleBitflag i = .ok t')
    (g : Nat) : t'.list g = t.list g := by
  obtain ⟨v, _, h⟩ := bind_ok h
  obtain ⟨s, hw, h⟩ := bind_ok h
  obtain ⟨bitmap, _, hw⟩ := bind_ok hw
  cases hw
  cases h
  rfl

/-- `add_block_next` puts the block at the head of its list. -/
theorem addBlockNext_list {t' : Talloc FreeLists} {g i : Nat} {node : Int}
    (h : t.addBlockNext g i node = .ok t') (g' : Nat) :
    t'.list g' = if g' = g then node :: t.list g else t.list g' := by
  obtain ⟨store, hins, h⟩ := bind_ok h
  have hg : g < t.store.llists.length := by
    by_contra hcon
    obtain ⟨l, hl, _⟩ := bind_ok hins
    unfold FreeLists.get at hl
    rw [List.getElem?_eq_none (Nat.not_lt.mp hcon)] at hl
    cases hl
  rw [insertNext_eq (t := { t with avails := t.avails ||| (1 <<< g) }) hg] at hins
  cases hins
  rw [toggleBitflag_list h]
  exact list_setList (t := { t with avails := t.avails ||| (1 <<< g) }) hg _ g'

/-- `remove_block` only takes something out. -/
theorem removeBlock_list {t' : Talloc FreeLists} {g i : Nat} {node : Int}
    (h : t.removeBlock g i node = .ok t') {g' : Nat} {x : Int} (hx : x ∈ t'.list g') :
    x ∈ t.list g' := by
  by_cases hmem : node ∈ t.list g
  · have hg := lt_of_mem_list hmem
    unfold removeBlock at h
    rw [nodeSole_eq hmem, ok_bind] at h
    obtain ⟨store, hun, h⟩ := bind_ok h
    rw [toggleBitflag_list h] at hx
    have hstore : store = (t.setList g ((t.list g).erase node)).store := by
      by_cases hl : (t.list g).length ≤ 1
      · rw [decide_eq_true hl, if_pos rfl, unlink_eq (t := t.clearAvail g) hmem] at hun
        exact (Except.ok.inj hun).symm
      · rw [decide_eq_false hl, if_neg (by simp), unlink_eq hmem] at hun
        exact (Except.ok.inj hun).symm
    subst hstore
    have hx' : x ∈ (t.setList g ((t.list g).erase node)).list g' := hx
    rw [list_setList hg] at hx'
    split at hx'
    next hgg =>
      rw [hgg]
      exact List.mem_of_mem_erase hx'
    next => exact hx'
  · rw [removeBlock_of_not_mem hmem] at h
    cases h

/-! ## Breaking blocks down -/

/-- The upper half of an aligned block, and that its buddy is the lower half. -/
theorem upper_half {d : Nat} {b : Int} (ha : Aligned (d + 1) b) :
    Aligned d (b + 2 ^ d) ∧ buddy d (b + 2 ^ d) = b := by
  refine ⟨ha.add_of_le (Nat.le_succ d), ?_⟩
  rw [buddy, if_neg (not_aligned_add ha)]
  ring

/-- Breaking `count` upper halves off a block of exponent `e` frees all of it but
the lowest block of exponent `e - count`. -/
theorem breakDown_spec {b : Int} : ∀ (count : Nat) {t : Talloc FreeLists} {e : Nat},
    Inv K J t → e ≤ K → J + count ≤ e → Aligned e b → t.Holds e b →
    (∀ x, Within e b x → ¬ Covers (t.FreeBlock K) x) →
    ∃ t', breakDown b count (K - e + 1) (2 ^ e >>> 1) t = .ok t' ∧ Inv K J t' ∧ SameShape t t' ∧
      (∀ x, Covers (t'.FreeBlock K) x ↔
        (Within e b x ∧ ¬ Within (e - count) b x) ∨ Covers (t.FreeBlock K) x) := by
  intro count
  induction count with
  | zero =>
    intro t e h _ _ _ _ _
    refine ⟨t, rfl, h, SameShape.refl t, fun x => ?_⟩
    constructor
    · exact Or.inr
    · rintro (⟨hx, hnx⟩ | hx)
      · exact absurd hx hnx
      · exact hx
  | succ count ih =>
    intro t e h heK hJ ha hb hfree
    obtain ⟨d, rfl⟩ : ∃ d, e = d + 1 := ⟨e - 1, by omega⟩
    have hs := two_pow_succ d
    have hpos := two_pow_pos d
    obtain ⟨hau, hbudu⟩ := upper_half ha
    obtain ⟨hb1, hb2⟩ := hb
    have hbu : t.Holds d (b + 2 ^ d) := ⟨by omega, by omega⟩
    have hin : InIsize (b + ((2 ^ d : Nat) : Int)) := by
      push_cast
      exact h.nat.inIsize (by omega) (by omega)
    -- the upper half becomes free, as its buddy is not
    have hfreeu : ∀ x, Within d (b + 2 ^ d) x → ¬ Covers (t.FreeBlock K) x := by
      intro x hx
      exact hfree x ⟨by have := hx.1; omega, by have := hx.2; omega⟩
    have hnb : ¬ t.FreeBlock K d (buddy d (b + 2 ^ d)) := by
      rw [hbudu]
      exact fun hF => hfree b (within_base _ b) ⟨d, b, hF, within_base d b⟩
    have hgl := h.idx_lt (show J ≤ d by omega)
    have hi := h.bit_lt (show J ≤ d by omega) (by omega) hbu
    have hcov := covers_added (t := t) (i := bitIndex K t.arenaBase d (b + 2 ^ d)) (b := b + 2 ^ d)
      (show d ≤ K by omega) hgl
    have hinv := added_inv h (show J ≤ d by omega) (by omega) hau hbu hfreeu hnb
    have hsh := added_shape (t := t) hi (bitIndex_ne_zero _ _ _ _) (K - d) (b + 2 ^ d)
    have hstep : t.addBlockNext (K - d) (bitIndex K t.arenaBase d (b + 2 ^ d)) (b + 2 ^ d)
        = .ok (t.added (K - d) (bitIndex K t.arenaBase d (b + 2 ^ d)) (b + 2 ^ d)) :=
      addBlockNext_eq hgl hi _
    generalize t.added (K - d) (bitIndex K t.arenaBase d (b + 2 ^ d)) (b + 2 ^ d) = t₁ at *
    -- the rest is broken down from the lower half
    obtain ⟨t', hrun, hinv', hsh', hcov'⟩ := ih (t := t₁) (e := d) hinv (by omega) (by omega)
      (ha.mono (Nat.le_succ d)) (by rw [hsh.arena]; exact ⟨hb1, by omega⟩)
      (fun x hx hc => by
        rcases (hcov x).mp hc with hc | hc
        · have := hc.1
          have := hx.2
          omega
        · exact hfree x ⟨hx.1, by have := hx.2; omega⟩ hc)
    refine ⟨t', ?_, hinv', hsh.trans hsh', fun x => ?_⟩
    · have hbase : wrappingAdd b (2 ^ d) = b + 2 ^ d := by
        rw [wrappingAdd_of_inIsize hin]
        push_cast
        rfl
      have hhalf : 2 ^ (d + 1) >>> 1 = 2 ^ d := two_pow_shiftRight (Nat.succ_pos d)
      dsimp only [breakDown]
      rw [hhalf, hbase, h.offset (show d < K by omega) hbu, show K - (d + 1) + 1 = K - d by omega]
      show (t.addBlockNext _ _ _ >>= _) = _
      rw [hstep]
      exact hrun
    · rw [hcov', hcov, show d + 1 - (count + 1) = d - count by omega]
      have hsmall : (2 : Int) ^ (d - count) ≤ 2 ^ d :=
        pow_le_pow_right₀ (by norm_num) (by omega)
      -- an address of the block is in one of its halves
      unfold Within
      constructor
      · rintro (⟨hx, hnx⟩ | hx | hx)
        · exact Or.inl ⟨⟨hx.1, by omega⟩, hnx⟩
        · exact Or.inl ⟨⟨by omega, by omega⟩, by omega⟩
        · exact Or.inr hx
      · rintro (⟨hx, hnx⟩ | hx)
        · rcases Int.lt_or_le x (b + 2 ^ d) with hlt | hge
          · exact Or.inl ⟨⟨hx.1, hlt⟩, hnx⟩
          · exact Or.inr (Or.inl ⟨hge, by omega⟩)
        · exact Or.inr (Or.inr hx)

/-- `shrink` frees the upper part of the block. -/
theorem shrink_spec {e e' : Nat} {b : Int} {old new : Layout} (h : Inv K J t)
    (hold : t.layoutToSize old = 2 ^ e) (hnew : t.layoutToSize new = 2 ^ e') (hJ : J ≤ e')
    (hle : e' ≤ e) (heK : e ≤ K) (ha : Aligned e b) (hb : t.Holds e b)
    (hfree : ∀ x, Within e b x → ¬ Covers (t.FreeBlock K) x) :
    ∃ t', t.shrink b old new = .ok t' ∧ Inv K J t' ∧ SameShape t t' ∧
      (∀ x, Covers (t'.FreeBlock K) x ↔
        (Within e b x ∧ ¬ Within e' b x) ∨ Covers (t.FreeBlock K) x) := by
  rcases Nat.eq_or_lt_of_le hle with rfl | hlt
  · refine ⟨t, ?_, h, SameShape.refl t, fun x => ?_⟩
    · dsimp only [shrink]
      rw [hold, hnew, if_pos rfl]
      rfl
    · constructor
      · exact Or.inr
      · rintro (⟨hx, hnx⟩ | hx)
        · exact absurd hx hnx
        · exact hx
  · obtain ⟨t', hrun, hinv, hsh, hcov⟩ := breakDown_spec (e - e') h heK (by omega) ha hb hfree
    refine ⟨t', ?_, hinv, hsh, ?_⟩
    · have hne : (2 : Nat) ^ e ≠ 2 ^ e' := by
        have : 2 ^ e' < 2 ^ e := Nat.pow_lt_pow_right (by norm_num) hlt
        omega
      dsimp only [shrink]
      rw [hold, hnew, if_neg hne, h.nat.blockGranularity heK,
        h.nat.blockGranularity (show e' ≤ K by omega)]
      show breakDown b (K - e' - (K - e)) (K - e + 1) (2 ^ e >>> 1) t = _
      rw [show K - e' - (K - e) = e - e' by omega]
      exact hrun
    · rw [show e - (e - e') = e' by omega] at hcov
      exact hcov

/-! ## Taking blocks -/

/-- `t'` is `t` with the free block of exponent `m` at `p` handed out. -/
structure Taken (K J m : Nat) (t : Talloc FreeLists) (p : Int) (t' : Talloc FreeLists) : Prop where
  inv : Inv K J t'
  shape : SameShape t t'
  aligned : Aligned m p
  holds : t.Holds m p
  apart : ∀ x, Within m p x → ¬ Covers (t'.FreeBlock K) x
  covers : ∀ x, Covers (t.FreeBlock K) x ↔ Within m p x ∨ Covers (t'.FreeBlock K) x

/-- `remove_block_next` hands out the first block of a list that is not empty. -/
theorem removeBlockNext_spec {m : Nat} (h : Inv K J t) (hmK : m ≤ K) (hne : t.list (K - m) ≠ []) :
    ∃ p, t.FreeBlock K m p ∧
      t.removeBlockNext (K - m) (2 ^ m)
        = .ok (p, t.removed (K - m) (bitIndex K t.arenaBase m p) p) ∧
      Taken K J m t p (t.removed (K - m) (bitIndex K t.arenaBase m p) p) := by
  rcases hl : t.list (K - m) with _ | ⟨p, l⟩
  · exact absurd hl hne
  have hF : t.FreeBlock K m p := ⟨hmK, by rw [hl]; exact List.mem_cons_self ..⟩
  have hh := h.holds hF
  have hm := h.exp_lt hF
  have hcov := covers_removed h (i := bitIndex K t.arenaBase m p) hF
  have hi := h.bit_lt (h.le_exp hF) hm hh
  refine ⟨p, hF, ?_, removed_inv h hF, removed_shape hi (bitIndex_ne_zero _ _ _ _) _ _,
    h.canon.aligned hF, hh, ?_, fun x => ?_⟩
  · exact removeBlockNext_eq hl (h.offset hm hh) hi
  · exact fun x hx hc => ((hcov x).mp hc).2 hx
  · rw [hcov]
    constructor
    · intro hx
      by_cases hw : Within m p x
      · exact Or.inl hw
      · exact Or.inr ⟨hx, hw⟩
    · rintro (hx | hx)
      · exact ⟨m, p, hF, hx⟩
      · exact hx.1

/-- The highest bit of the larger available granularities names a list that is
not empty and whose blocks are larger than asked for. -/
theorem Inv.larger (h : Inv K J t) {m : Nat} (hne : t.avails &&& ((1 <<< (K - m)) - 1) ≠ 0) :
    ∃ e, m < e ∧ e ≤ K ∧ fastNon0Log2 (t.avails &&& ((1 <<< (K - m)) - 1)) = K - e ∧
      t.list (K - e) ≠ [] := by
  have hK := h.nat.hK
  rw [Nat.one_shiftLeft, Nat.and_two_pow_sub_one_eq_mod] at hne ⊢
  have hlt : t.avails % 2 ^ (K - m) < 2 ^ (K - m) := Nat.mod_lt _ (Nat.two_pow_pos _)
  have hlog := (Nat.log2_lt hne).mpr hlt
  have hbit := Nat.testBit_log2 hne
  rw [Nat.testBit_mod_two_pow, Bool.and_eq_true] at hbit
  have h64 : t.avails % 2 ^ (K - m) < 2 ^ 64 :=
    Nat.lt_of_lt_of_le hlt (Nat.pow_le_pow_right (by norm_num) (by omega))
  refine ⟨K - (t.avails % 2 ^ (K - m)).log2, by omega, by omega, ?_, ?_⟩
  · rw [fastNon0Log2_eq hne h64]
    omega
  · rw [show K - (K - (t.avails % 2 ^ (K - m)).log2) = (t.avails % 2 ^ (K - m)).log2 by omega]
    exact (h.avail _).mp hbit.2

/-- Splitting a larger block hands out its lowest part. -/
theorem split_spec {m e : Nat} (h : Inv K J t) (hJ : J ≤ m) (hme : m < e) (heK : e ≤ K)
    (hne : t.list (K - e) ≠ []) :
    ∃ p t₁ t', t.removeBlockNext (K - e) (t.arenaSizePow2 >>> (K - e)) = .ok (p, t₁) ∧
      breakDown p (K - m - (K - e)) (K - e + 1) (t.arenaSizePow2 >>> (K - e) >>> 1) t₁ = .ok t' ∧
      Taken K J m t p t' := by
  have hsize : t.arenaSizePow2 >>> (K - e) = 2 ^ e := by
    rw [h.nat.pow2, two_pow_shiftRight (by omega), Nat.sub_sub_self heK]
  obtain ⟨p, hF, hrem, htk⟩ := removeBlockNext_spec h heK hne
  generalize t.removed (K - e) (bitIndex K t.arenaBase e p) p = t₁ at *
  have harena := htk.shape.arena
  obtain ⟨t', hbr, hinv, hsh, hcov⟩ := breakDown_spec (b := p) (e - m) htk.inv heK (by omega)
    htk.aligned (by rw [harena]; exact htk.holds) htk.apart
  rw [show e - (e - m) = m by omega] at hcov
  -- what is left of the larger block is its lower end
  have hsub : ∀ x, Within m p x → Within e p x := by
    intro x hx
    have : (2 : Int) ^ m ≤ 2 ^ e := pow_le_pow_right₀ (by norm_num) (by omega)
    exact ⟨hx.1, by have := hx.2; omega⟩
  refine ⟨p, t₁, t', by rw [hsize]; exact hrem, ?_, hinv, htk.shape.trans hsh,
    htk.aligned.mono (Nat.le_of_lt hme), ?_, ?_, fun x => ?_⟩
  · rw [hsize, show K - m - (K - e) = e - m by omega]
    exact hbr
  · obtain ⟨h1, h2⟩ := htk.holds
    have : (2 : Int) ^ m ≤ 2 ^ e := pow_le_pow_right₀ (by norm_num) (by omega)
    exact ⟨h1, by omega⟩
  · intro x hx hc
    rcases (hcov x).mp hc with ⟨_, hnx⟩ | hc
    · exact hnx hx
    · exact htk.apart x (hsub x hx) hc
  · rw [htk.covers, hcov]
    constructor
    · rintro (hx | hx)
      · by_cases hw : Within m p x
        · exact Or.inl hw
        · exact Or.inr (Or.inl ⟨hx, hw⟩)
      · exact Or.inr (Or.inr hx)
    · rintro (hx | ⟨hx, _⟩ | hx)
      · exact Or.inl (hsub x hx)
      · exact Or.inl hx
      · exact Or.inr hx

/-! ## Releasing spans -/

/-- A span of whole smallest blocks in the arena, all of it on one side of address 0. -/
structure Span (a : Arena) (K J : Nat) (p acme : Int) : Prop where
  nat : Natural a K J
  lo : a.arenaBase ≤ p
  hi : acme ≤ a.arenaBase + a.arenaSize
  alignedBase : Aligned J p
  alignedAcme : Aligned J acme
  le : p ≤ acme
  null : 0 < p ∨ acme ≤ 0

/-- The same without the arena: all the block loop of `release` relies on. -/
structure Stretch (a : Arena) (J : Nat) (p acme : Int) : Prop where
  smlst : a.smlstBlock = 2 ^ J
  lo : -2 ^ 63 ≤ p
  hi : acme < 2 ^ 63
  len : acme - p ≤ 2 ^ 48
  alignedBase : Aligned J p
  alignedAcme : Aligned J acme
  le : p ≤ acme
  null : 0 < p ∨ acme ≤ 0

/-- Aligned blocks, none below the smallest, that follow each other from `p` to `q`. -/
inductive Tiles (J : Nat) (q : Int) : Int → List (Int × Nat) → Prop
  | nil : Tiles J q q []
  | cons {p : Int} {k : Nat} {blocks : List (Int × Nat)} : J ≤ k → Aligned k p →
      Tiles J q (p + 2 ^ k) blocks → Tiles J q p ((p, k) :: blocks)

/-- `dealloc` of one block after the other. -/
def deallocAll {σ : Type} [Store σ] : List (Int × Nat) → Talloc σ → Except Fault (Talloc σ)
  | [], u => .ok u
  | (p, k) :: blocks, u => do
    let u ← u.dealloc p ⟨2 ^ k, 1⟩
    deallocAll blocks u

/-- Free the blocks, then end as `r` says. -/
def deallocThen {σ : Type} [Store σ] (blocks : List (Int × Nat)) (r : Except Fault Unit)
    (u : Talloc σ) : Except Fault (Talloc σ) := do
  let u ← deallocAll blocks u
  let () ← r
  return u

/-- The rule for freeing blocks in a row: a turn that frees an aligned block at `p`
takes `S p` to `S` behind the block, or faults as `E` says. -/
structure Keeps {σ : Type} [Store σ] (J : Nat) (acme : Int)
    (S : Int → Talloc σ → Prop) (E : Fault → Prop) : Prop where
  turn : ∀ {p u k}, S p u → J ≤ k → Aligned k p → p + 2 ^ k ≤ acme →
    (∃ u', u.dealloc p ⟨2 ^ k, 1⟩ = .ok u' ∧ S (p + 2 ^ k) u') ∨
    ∃ f, u.dealloc p ⟨2 ^ k, 1⟩ = .error f ∧ E f

section Blocks

variable {σ : Type} [Store σ] {acme : Int} {S : Int → Talloc σ → Prop} {E : Fault → Prop}

/-- Blocks that tile a span go up. -/
theorem Tiles.le {p q : Int} {blocks : List (Int × Nat)} (h : Tiles J q p blocks) : p ≤ q := by
  induction h with
  | nil => exact le_refl _
  | @cons p k _ _ _ _ ih =>
    have := two_pow_pos k
    omega

/-- When the search for blocks ended well, it is the blocks alone. -/
theorem deallocThen_ok (blocks : List (Int × Nat)) (u : Talloc σ) :
    deallocThen blocks (.ok ()) u = deallocAll blocks u := by
  unfold deallocThen
  cases deallocAll blocks u <;> rfl

/-- What each block keeps, all of them do. -/
theorem Keeps.all (hS : Keeps J acme S E) {p q : Int} {blocks : List (Int × Nat)}
    (h : Tiles J q p blocks) (hq : q ≤ acme) : ∀ {u : Talloc σ}, S p u →
    (∃ u', deallocAll blocks u = .ok u' ∧ S q u') ∨
    ∃ f, deallocAll blocks u = .error f ∧ E f := by
  induction h with
  | nil =>
    intro u hu
    exact Or.inl ⟨u, rfl, hu⟩
  | cons hJk hak hrest ih =>
    intro u hu
    dsimp only [deallocAll]
    rcases hS.turn hu hJk hak (hrest.le.trans hq) with ⟨u₁, hd, hu₁⟩ | ⟨f, hd, hf⟩
    · rw [hd]
      exact ih hu₁
    · rw [hd]
      exact Or.inr ⟨f, rfl, hf⟩

end Blocks

section ReleaseLoop

variable {a : Arena} {acme : Int}

/-- A span in the arena is a stretch of addresses. -/
theorem Span.stretch {p : Int} (h : Span a K J p acme) : Stretch a J p acme := by
  have h1 := h.nat.cast_pow
  have h2 : (2 : Int) ^ K ≤ 2 ^ 48 := pow_le_pow_right₀ (by norm_num) h.nat.hK
  have h3 := h.lo
  have h4 := h.hi
  have h5 := h.nat.lo
  have h6 := h.nat.hi
  exact ⟨h.nat.smlst, by omega, by omega, by omega, h.alignedBase, h.alignedAcme, h.le, h.null⟩

/-- A block in it is no larger than the address space. -/
theorem Stretch.exp_le {p : Int} (h : Stretch a J p acme) {k : Nat} (hpk : p + 2 ^ k ≤ acme) :
    k ≤ 48 := by
  by_contra hcon
  have h1 : (2 : Int) ^ 49 ≤ 2 ^ k := pow_le_pow_right₀ (by norm_num) (by omega)
  have h2 := h.len
  omega

/-- It does not hold address 0. -/
theorem Stretch.nonNull {p : Int} (h : Stretch a J p acme) (hlt : p < acme) :
    nonNull p = .ok p := by
  have := h.null
  exact if_neg (by omega)

/-- What is left of a span behind its first block. -/
theorem Stretch.next {p : Int} (h : Stretch a J p acme) {k : Nat} (hJk : J ≤ k)
    (hpk : p + 2 ^ k ≤ acme) : Stretch a J (p + 2 ^ k) acme := by
  have hpos := two_pow_pos k
  have hlo := h.lo
  have hlen := h.len
  have hnull := h.null
  exact ⟨h.smlst, by omega, h.hi, by omega, dvd_add h.alignedBase (pow_dvd_pow 2 hJk),
    h.alignedAcme, hpk, by omega⟩

/-- The size of a block is the same as a signed number. -/
theorem asIsize_two_pow {k : Nat} (hk : k < 63) : asIsize (2 ^ k) = 2 ^ k := by
  rw [asIsize_of_lt (Nat.pow_lt_pow_right (by norm_num) hk)]
  push_cast
  rfl

/-- The end of a block in it is computed. -/
theorem Stretch.isizeAdd {p : Int} (h : Stretch a J p acme) {k : Nat} (hpk : p + 2 ^ k ≤ acme) :
    Rust.isizeAdd p (asIsize (2 ^ k)) = .ok (p + 2 ^ k) := by
  have hk := h.exp_le hpk
  have hpos := two_pow_pos k
  have hlo := h.lo
  have hhi := h.hi
  rw [asIsize_two_pow (by omega), isizeAdd_of_inIsize ⟨by omega, by omega⟩]

/-- The descending half: the length left is below the alignment `m` of `p`. -/
theorem releaseLoop_desc : ∀ (fuel : Nat) {p : Int} {m : Nat}, Stretch a J p acme → Aligned m p →
    acme - p < 2 ^ m → (acme - p).toNat + 1 ≤ fuel →
    ∃ blocks, Tiles J acme p blocks ∧ ∀ {σ : Type} [Store σ] (u : Talloc σ), u.smlstBlock = 2 ^ J →
      releaseLoop acme fuel false p u = deallocAll blocks u := by
  intro fuel
  induction fuel with
  | zero => intro p m _ _ _ hfuel; omega
  | succ fuel ih =>
    intro p m h ham hm hfuel
    have hpa := h.le
    have hlt := h.len
    have hsub : InIsize (acme - p) := ⟨by omega, by omega⟩
    have hdelta : asUsize (acme - p) = (acme - p).toNat := asUsize_of_nonneg (by omega) (by omega)
    by_cases hle : 2 ^ J ≤ (acme - p).toNat
    · have hne0 : (acme - p).toNat ≠ 0 := by
        have := Nat.two_pow_pos J
        omega
      have hlog1 := Nat.log2_self_le hne0
      have hlog2 := Nat.lt_log2_self (n := (acme - p).toNat)
      have hJk : J ≤ (acme - p).toNat.log2 := (Nat.le_log2 hne0).mpr hle
      have hprev := fastNon0PrevPow2_eq hne0 (show (acme - p).toNat < 2 ^ 64 by omega)
      generalize (acme - p).toNat.log2 = k at *
      have hk1 : (2 : Int) ^ k ≤ acme - p := by
        have : ((2 ^ k : Nat) : Int) ≤ ((acme - p).toNat : Int) := by exact_mod_cast hlog1
        push_cast at this
        omega
      have hk2 : acme - p < 2 ^ k + 2 ^ k := by
        have : ((acme - p).toNat : Int) < ((2 ^ (k + 1) : Nat) : Int) := by exact_mod_cast hlog2
        push_cast at this
        rw [two_pow_succ] at this
        omega
      -- the largest block that fits is no larger than the alignment at `p`
      have hkm : k < m := by
        by_contra hcon
        have : (2 : Int) ^ m ≤ 2 ^ k := pow_le_pow_right₀ (by norm_num) (by omega)
        omega
      have hak : Aligned k p := ham.mono (Nat.le_of_lt hkm)
      have hpos := two_pow_pos k
      have hpk : p + 2 ^ k ≤ acme := by omega
      obtain ⟨blocks, htiles, hrun⟩ := ih (h.next hJk hpk) hak.add (by omega) (by omega)
      refine ⟨(p, k) :: blocks, Tiles.cons hJk hak htiles, fun u hu => ?_⟩
      dsimp only [releaseLoop, deallocAll]
      rw [isizeSub_of_inIsize hsub]
      show (if u.smlstBlock ≤ asUsize (acme - p) then _ else _) = _
      rw [hdelta, hu, if_pos hle, hprev, h.nonNull (by omega)]
      show (u.dealloc p _ >>= _) = _
      cases hd : u.dealloc p ⟨2 ^ k, 1⟩ with
      | error f => rfl
      | ok u₁ =>
        show (isizeAdd p (asIsize (2 ^ k)) >>= _) = deallocAll blocks u₁
        rw [h.isizeAdd hpk]
        exact hrun u₁ ((congrArg Arena.smlstBlock (dealloc_arena hd)).trans hu)
    · -- less than one smallest block is left, so nothing is
      have hend : p = acme := by
        obtain ⟨c, hc⟩ : (2 ^ J : Int) ∣ acme - p := dvd_sub h.alignedAcme h.alignedBase
        have hpJ := two_pow_pos J
        have hltJ : acme - p < 2 ^ J := by
          have : ((acme - p).toNat : Int) < ((2 ^ J : Nat) : Int) := by
            exact_mod_cast Nat.not_le.mp hle
          push_cast at this
          omega
        have hc1 : c < 1 := by
          by_contra hcon
          nlinarith
        have hc0 : 0 ≤ c := by
          by_contra hcon
          nlinarith
        obtain rfl : c = 0 := by omega
        omega
      subst hend
      refine ⟨[], Tiles.nil, fun u hu => ?_⟩
      dsimp only [releaseLoop]
      rw [isizeSub_of_inIsize hsub]
      show (if u.smlstBlock ≤ asUsize (p - p) then _ else _) = _
      rw [hdelta, hu, if_neg hle]
      rfl

/-- Well inside the address space the aligned block at `p` ends at an `isize`. -/
theorem inIsize_add_lowbit {p : Int} {k : Nat} (h0 : p ≠ 0) (hkd : (2 ^ k : Int) ∣ p)
    (hlo : -2 ^ 60 ≤ p) (hhi : p ≤ 2 ^ 60) : k < 63 ∧ InIsize (p + 2 ^ k) := by
  have hle : (2 : Int) ^ k ≤ 2 ^ 60 := by
    have hn := Nat.le_of_dvd (Int.natAbs_pos.mpr h0) (Int.natAbs_dvd_natAbs.mpr hkd)
    rw [Int.natAbs_pow] at hn
    have hz : (2 : Int) ^ k ≤ (p.natAbs : Int) := by exact_mod_cast hn
    omega
  have hpos := two_pow_pos k
  refine ⟨?_, by omega, by omega⟩
  by_contra hcon
  have : (2 : Int) ^ 63 ≤ 2 ^ k := pow_le_pow_right₀ (by norm_num) (by omega)
  omega

/-- A block base below 0 has its next larger block end at 0 or below. -/
theorem add_le_zero_of_dvd {p : Int} {k : Nat} (hkd : (2 ^ k : Int) ∣ p) (hp : p < 0) :
    p + 2 ^ k ≤ 0 :=
  Aligned.add_le_of_lt hkd (dvd_zero _) hp

/-- The block loop of `release` frees blocks from `p` to `acme`, or stops at an
overflow: it reaches address 0 because `acme = 0`, or it adds past the
canonical address space. It always overflows when `acme = 0`. -/
theorem releaseLoop_stretch : ∀ (fuel : Nat) {p : Int}, Stretch a J p acme →
    (acme - p).toNat + 2 ≤ fuel →
    ∃ q blocks r, Tiles J q p blocks ∧ q ≤ acme ∧
      ((r = .ok () ∧ q = acme ∧ acme ≠ 0) ∨
        (r = .error .overflow ∧ (acme = 0 ∨ ¬ (-2 ^ 47 ≤ p ∧ acme ≤ 2 ^ 47)))) ∧
      ∀ {σ : Type} [Store σ] (u : Talloc σ), u.smlstBlock = 2 ^ J →
        releaseLoop acme fuel true p u = deallocThen blocks r u := by
  intro fuel
  induction fuel with
  | zero => intro p _ hfuel; omega
  | succ fuel ih =>
    intro p h hfuel
    have hpa := h.le
    have hin : InIsize p := ⟨h.lo, hpa.trans_lt h.hi⟩
    by_cases hp0 : p = 0
    · -- `1 << 0isize.trailing_zeros()`
      have hacme : acme = 0 := by
        have := h.null
        omega
      refine ⟨p, [], .error .overflow, Tiles.nil, hpa, Or.inr ⟨rfl, Or.inl hacme⟩, fun u _ => ?_⟩
      subst hp0
      rfl
    obtain ⟨hk64, hkd, hknd⟩ := trailingZeros_spec hin hp0
    have hJk : J ≤ trailingZeros p := by
      by_contra hcon
      exact hknd (h.alignedBase.mono (by omega))
    have hshl : usizeShl (trailingZeros p) = .ok (2 ^ trailingZeros p) := if_pos hk64
    dsimp only [releaseLoop]
    rw [hshl]
    generalize trailingZeros p = k at *
    -- the block at `p` is as large as its alignment; its end may not be an `isize`
    by_cases hadd : k < 63 ∧ InIsize (p + 2 ^ k)
    · obtain ⟨hk, hadd⟩ := hadd
      have hsum : isizeAdd p (asIsize (2 ^ k)) = .ok (p + 2 ^ k) := by
        rw [asIsize_two_pow hk, isizeAdd_of_inIsize hadd]
      -- while it fits the sizes ascend, then they descend
      by_cases hle : p + 2 ^ k ≤ acme
      · have hpos := two_pow_pos k
        obtain ⟨q, blocks, r, htiles, hq, hr, hrun⟩ := ih (h.next hJk hle) (by omega)
        refine ⟨q, (p, k) :: blocks, r, Tiles.cons hJk hkd htiles, hq,
          hr.imp_right fun hr => ⟨hr.1, hr.2.imp_right (by omega)⟩, fun u hu => ?_⟩
        show (isizeAdd p (asIsize (2 ^ k)) >>= _) = _
        rw [hsum]
        show (if p + 2 ^ k ≤ acme then _ else _) = _
        rw [if_pos hle, h.nonNull (by omega)]
        show (u.dealloc p _ >>= _) = ((u.dealloc p _ >>= _) >>= _)
        cases hd : u.dealloc p ⟨2 ^ k, 1⟩ with
        | error f => rfl
        | ok u₁ => exact hrun u₁ ((congrArg Arena.smlstBlock (dealloc_arena hd)).trans hu)
      · have hne : acme ≠ 0 := by
          rintro rfl
          exact hle (add_le_zero_of_dvd hkd (by omega))
        obtain ⟨blocks, htiles, hrun⟩ :=
          releaseLoop_desc fuel h hkd (show acme - p < 2 ^ k by omega) (by omega)
        refine ⟨acme, blocks, .ok (), htiles, le_refl _, Or.inl ⟨rfl, rfl, hne⟩, fun u hu => ?_⟩
        show (isizeAdd p (asIsize (2 ^ k)) >>= _) = _
        rw [hsum]
        show (if p + 2 ^ k ≤ acme then _ else _) = _
        rw [if_neg hle, hrun u hu, deallocThen_ok]
    · refine ⟨p, [], .error .overflow, Tiles.nil, hpa, Or.inr ⟨rfl, Or.inr fun h48 =>
        hadd (inIsize_add_lowbit hp0 hkd (by omega) (by omega))⟩, fun u _ => ?_⟩
      have hbad : ¬ InIsize (p + asIsize (2 ^ k)) := by
        intro hc
        rcases Nat.lt_or_ge k 63 with hk | hk
        · rw [asIsize_two_pow hk] at hc
          exact hadd ⟨hk, hc⟩
        · -- `p` is `isize::MIN` and so is `2 ^ 63 as isize`
          obtain rfl : k = 63 := by omega
          obtain ⟨h1, h2⟩ := hin
          obtain ⟨c, hcc⟩ := hkd
          have hcast : asIsize (2 ^ 63) = -2 ^ 63 := by
            unfold asIsize
            norm_num [Int.bmod]
          rw [hcast] at hc
          obtain ⟨h3, h4⟩ := hc
          omega
      show (isizeAdd p (asIsize (2 ^ k)) >>= _) = _
      unfold isizeAdd
      rw [if_neg hbad]
      rfl

/-- The loop of `release` gives back blocks that tile the span, up to its end or to an overflow. -/
theorem releaseLoop_blocks (fuel : Nat) {p : Int} (h : Span a K J p acme)
    (hfuel : (acme - p).toNat + 2 ≤ fuel) :
    ∃ q blocks r, Tiles J q p blocks ∧ q ≤ acme ∧
      ((r = .ok () ∧ q = acme ∧ acme ≠ 0) ∨ (r = .error .overflow ∧ (acme = 0 ∨ ¬ a.Low48))) ∧
      ∀ {σ : Type} [Store σ] (u : Talloc σ), u.toArena = a →
        releaseLoop acme fuel true p u = deallocThen blocks r u := by
  obtain ⟨q, blocks, r, htiles, hq, hr, hrun⟩ := releaseLoop_stretch fuel h.stretch hfuel
  refine ⟨q, blocks, r, htiles, hq, hr.imp_right fun hr => ⟨hr.1, hr.2.imp_right ?_⟩, fun u hu =>
    hrun u ((congrArg Arena.smlstBlock hu).trans h.nat.smlst)⟩
  rintro hc ⟨h1, h2⟩
  have h3 := h.lo
  have h4 := h.hi
  exact hc ⟨by omega, by omega⟩

end ReleaseLoop

/-! ## `release` -/

/-- `base` of `release`: the start of the slice, rounded up to the smallest block. -/
def spanBase (J : Nat) (m : Slice) : Int := floorBlock J (m.ptr + (2 ^ J - 1))

/-- `acme` of `release`: the end of the slice, rounded down. -/
def spanAcme (J : Nat) (m : Slice) : Int := floorBlock J (m.ptr + m.len)

/-- Where `release` starts to free: behind the null block, should the span begin with it. -/
def spanFirst (J : Nat) (m : Slice) : Int :=
  if spanBase J m ≤ 0 ∧ 0 < spanAcme J m then 2 ^ J else spanBase J m

/-- The base is rounded up. -/
theorem spanBase_bounds (J : Nat) (m : Slice) :
    m.ptr ≤ spanBase J m ∧ spanBase J m < m.ptr + 2 ^ J := by
  obtain ⟨h1, h2⟩ := within_floorBlock J (m.ptr + (2 ^ J - 1))
  unfold spanBase
  constructor <;> omega

/-- The end is rounded down. -/
theorem spanAcme_bounds (J : Nat) (m : Slice) :
    spanAcme J m ≤ m.ptr + m.len ∧ m.ptr + m.len < spanAcme J m + 2 ^ J :=
  within_floorBlock J (m.ptr + m.len)

/-- What `release` frees of a slice lies in the slice. -/
theorem le_of_spanFirst_le {J : Nat} {m : Slice} {x : Int} (h : spanFirst J m ≤ x) : m.ptr ≤ x := by
  have hb := (spanBase_bounds J m).1
  have hpos := two_pow_pos J
  unfold spanFirst at h
  split at h <;> omega

/-- An aligned slice is released from end to end. -/
theorem spanBase_of_aligned {J : Nat} {m : Slice} (h : Aligned J m.ptr) : spanBase J m = m.ptr := by
  have hpos := two_pow_pos J
  exact (aligned_floorBlock J _).eq_of_within h (within_floorBlock J (m.ptr + (2 ^ J - 1)))
    ⟨by omega, by omega⟩

/-- An aligned end stays. -/
theorem spanAcme_of_aligned {J : Nat} {m : Slice} (h : Aligned J m.ptr) (hlen : 2 ^ J ∣ m.len) :
    spanAcme J m = m.ptr + m.len := by
  apply floorBlock_of_aligned
  apply dvd_add h
  exact_mod_cast hlen

theorem isizeSub_one {J : Nat} (hJ : J < 63) :
    isizeSub ((2 ^ J : Nat) : Int) 1 = .ok (2 ^ J - 1) := by
  have h1 : (2 : Int) ^ J < 2 ^ 63 := pow_lt_pow_right₀ (by norm_num) hJ
  have h2 := two_pow_pos J
  have hin : InIsize (2 ^ J - 1) := ⟨by omega, by omega⟩
  push_cast
  exact isizeSub_of_inIsize hin

/-- A slice of the arena that `release` can round to a span. -/
structure Inside (a : Arena) (K J : Nat) (m : Slice) : Prop where
  nat : Natural a K J
  lo : a.arenaBase ≤ m.ptr
  hi : spanAcme J m ≤ a.arenaBase + a.arenaSize
  le : spanBase J m ≤ spanAcme J m

section Release

variable {σ : Type} [Store σ] {a : Arena} {m : Slice} {u : Talloc σ} {S : Int → Talloc σ → Prop}
  {E : Fault → Prop}

/-- The memory is no larger than the arena, and blocks are smaller than the address space. -/
theorem Inside.arena_lt (h : Inside a K J m) : (m.len : Int) ≤ 2 ^ 49 ∧ J < 63 := by
  have h1 := h.nat.cast_pow
  have h2 : (2 : Int) ^ K ≤ 2 ^ 48 := pow_le_pow_right₀ (by norm_num) h.nat.hK
  have h3 := h.lo
  have h4 := h.hi
  have h5 := h.nat.hK
  have h6 := h.nat.hJK
  have h7 : (2 : Int) ^ J ≤ 2 ^ 48 := pow_le_pow_right₀ (by norm_num) (by omega)
  have h8 := (spanAcme_bounds J m).2
  exact ⟨by omega, by omega⟩

/-- The head of `release`, up to the comparison of `base` and `acme`. -/
theorem releaseRec_head (hsm : u.smlstBlock = 2 ^ J) (hJ : J < 63)
    (hin1 : InIsize (m.ptr + (2 ^ J - 1))) (hin2 : InIsize (m.ptr + m.len)) (hlen : m.len < 2 ^ 63)
    (hlo : u.arenaBase ≤ spanBase J m) (hhi : spanAcme J m ≤ u.arenaBase + u.arenaSize)
    (hin3 : InIsize (u.arenaBase + u.arenaSize)) (depth : Nat) :
    releaseRec (depth + 1) u m =
      if spanBase J m = spanAcme J m then .ok u
      else if spanBase J m ≤ 0 ∧ 0 < spanAcme J m then do
        let u ← releaseRec depth u (← m.take (0 - spanBase J m).toNat)
        releaseRec depth u (← m.drop (u.smlstBlock - spanBase J m).toNat)
      else releaseLoop (spanAcme J m)
      ((spanAcme J m - spanBase J m).toNat + 2) true (spanBase J m) u := by
  have hsub : isizeSub (u.smlstBlock : Int) 1 = .ok (2 ^ J - 1) := by
    rw [hsm]
    exact isizeSub_one hJ
  have hmask1 : maskDown (m.ptr + (2 ^ J - 1)) u.smlstBlock = spanBase J m := by
    rw [hsm, maskDown_two_pow hin1 (by omega)]
    rfl
  have hmask2 : maskDown (m.ptr + m.len) u.smlstBlock = spanAcme J m := by
    rw [hsm, maskDown_two_pow hin2 (by omega)]
    rfl
  have hens1 : ensure (decide (u.arenaBase ≤ spanBase J m)) = .ok () := by
    unfold ensure
    rw [decide_eq_true hlo]
    rfl
  have hens2 : ensure (decide (spanAcme J m ≤ u.arenaBase + u.arenaSize)) = .ok () := by
    unfold ensure
    rw [decide_eq_true hhi]
    rfl
  dsimp only [releaseRec]
  rw [hsub]
  show (isizeAdd m.ptr (2 ^ J - 1) >>= _) = _
  rw [isizeAdd_of_inIsize hin1]
  show (isizeAdd m.ptr (asIsize m.len) >>= _) = _
  rw [asIsize_of_lt hlen, isizeAdd_of_inIsize hin2]
  show (ensure (decide (u.arenaBase ≤ maskDown (m.ptr + (2 ^ J - 1)) u.smlstBlock)) >>= _) = _
  rw [hmask1, hens1]
  show (isizeAdd u.arenaBase u.arenaSize >>= _) = _
  rw [isizeAdd_of_inIsize hin3]
  show (ensure (decide (maskDown (m.ptr + m.len) u.smlstBlock ≤ u.arenaBase + u.arenaSize)) >>= _) =
    _
  rw [hmask2, hens2]
  rfl

/-- The sums at the head of `release`. -/
theorem Inside.bounds (h : Inside a K J m) :
    J < 63 ∧ InIsize (m.ptr + (2 ^ J - 1)) ∧ InIsize (m.ptr + m.len) ∧ m.len < 2 ^ 63 := by
  obtain ⟨hlen, hJ⟩ := h.arena_lt
  obtain ⟨hb1, hb2⟩ := spanBase_bounds J m
  obtain ⟨ha1, ha2⟩ := spanAcme_bounds J m
  have hlo := h.lo
  have hhi := h.hi
  have hle := h.le
  have hend := h.nat.hi
  have hstart := h.nat.lo
  have hpos := two_pow_pos J
  have hroom : spanAcme J m + 2 ^ J ≤ 2 ^ 63 :=
    (aligned_floorBlock J _).add_le_of_lt (show Aligned J (2 ^ 63) from pow_dvd_pow 2 (by omega))
      (by unfold spanAcme at hhi; omega)
  exact ⟨hJ, ⟨by omega, by omega⟩, ⟨by omega, by omega⟩, by omega⟩

/-- The first steps of `release`. -/
theorem Inside.head (h : Inside a K J m) (hu : u.toArena = a) (depth : Nat) :
    releaseRec (depth + 1) u m =
      if spanBase J m = spanAcme J m then .ok u
      else if spanBase J m ≤ 0 ∧ 0 < spanAcme J m then do
        let u ← releaseRec depth u (← m.take (0 - spanBase J m).toNat)
        releaseRec depth u (← m.drop (u.smlstBlock - spanBase J m).toNat)
      else releaseLoop (spanAcme J m)
      ((spanAcme J m - spanBase J m).toNat + 2) true (spanBase J m) u := by
  obtain ⟨hJ, hin1, hin2, hlen⟩ := h.bounds
  obtain ⟨hb1, _⟩ := spanBase_bounds J m
  subst hu
  have hlo := h.lo
  have hhi := h.hi
  have hle := h.le
  have hend := h.nat.hi
  have hstart := h.nat.lo
  exact releaseRec_head h.nat.smlst hJ hin1 hin2 hlen (hlo.trans hb1) hhi ⟨by omega, by omega⟩ depth

/-- `release` of the slice is `dealloc` of blocks from `p` on, up to the end of the
span or to an overflow, on any store. -/
def Cut (a : Arena) (J depth : Nat) (m : Slice) (p : Int) : Prop :=
  ∃ q blocks r, Tiles J q p blocks ∧ q ≤ spanAcme J m ∧
    ((r = .ok () ∧ q = spanAcme J m ∧ (spanAcme J m = 0 → spanBase J m = 0)) ∨
      (r = .error .overflow ∧ spanBase J m < spanAcme J m ∧ (spanAcme J m = 0 ∨ ¬ a.Low48))) ∧
    ∀ {σ : Type} [Store σ] (u : Talloc σ), u.toArena = a →
      releaseRec depth u m = deallocThen blocks r u

/-- A span that does not begin with the null block. -/
theorem Inside.nonnull (h : Inside a K J m) (hnull : ¬ (spanBase J m ≤ 0 ∧ 0 < spanAcme J m))
    (depth : Nat) : Cut a J (depth + 1) m (spanBase J m) := by
  obtain ⟨hb1, _⟩ := spanBase_bounds J m
  obtain ⟨ha1, _⟩ := spanAcme_bounds J m
  have hlo := h.lo
  have hhi := h.hi
  have hle := h.le
  by_cases heq : spanBase J m = spanAcme J m
  · refine ⟨spanAcme J m, [], .ok (), ?_, le_refl _, Or.inl ⟨rfl, rfl, fun h0 => heq.trans h0⟩,
      fun u hu => ?_⟩
    · rw [heq]
      exact Tiles.nil
    · rw [h.head hu, if_pos heq]
      rfl
  · have hspan : Span a K J (spanBase J m) (spanAcme J m) := ⟨h.nat, by omega, by omega,
      aligned_floorBlock J _, aligned_floorBlock J _, hle, by omega⟩
    obtain ⟨q, blocks, r, htiles, hq, hr, hrun⟩ := releaseLoop_blocks _ hspan (Nat.le_refl _)
    refine ⟨q, blocks, r, htiles, hq, ?_, fun u hu => ?_⟩
    · rcases hr with ⟨hr, hq', hne⟩ | ⟨hr, hedge⟩
      · exact Or.inl ⟨hr, hq', fun h0 => absurd h0 hne⟩
      · exact Or.inr ⟨hr, by omega, hedge⟩
    · rw [h.head hu, if_neg heq, if_neg hnull]
      exact hrun u hu

/-- `release` frees the whole blocks of the slice except the null block. -/
theorem Inside.release_blocks (h : Inside a K J m) : Cut a J 2 m (spanFirst J m) := by
  unfold spanFirst
  by_cases hnull : spanBase J m ≤ 0 ∧ 0 < spanAcme J m
  · rw [if_pos hnull]
    obtain ⟨h0, h0'⟩ := hnull
    obtain ⟨hlen, hJ⟩ := h.arena_lt
    obtain ⟨hb1, hb2⟩ := spanBase_bounds J m
    obtain ⟨ha1, ha2⟩ := spanAcme_bounds J m
    have hlo := h.lo
    have hhi := h.hi
    have hsz := h.nat.cast_pow
    have hpos := two_pow_pos J
    -- a naturally aligned arena that holds address 0 starts there
    have hbase0 : a.arenaBase = 0 :=
      h.nat.base.eq_of_within (x := 0) (dvd_zero _) ⟨by omega, by omega⟩ (within_base K 0)
    have hptr : m.ptr = 0 := by omega
    have hb0 : spanBase J m = 0 := by omega
    have hacme : 2 ^ J ≤ spanAcme J m := by
      have := Aligned.add_le_of_lt (dvd_zero _) (aligned_floorBlock J (m.ptr + m.len)) h0'
      unfold spanAcme
      omega
    have htake : m.take (0 - spanBase J m).toNat = .ok ⟨0, 0⟩ := by
      rw [hb0, Slice.take, if_pos (show (0 - 0 : Int).toNat ≤ m.len from Nat.zero_le _), hptr]
      rfl
    have hle' : 2 ^ J ≤ m.len := by
      have : ((2 ^ J : Nat) : Int) ≤ m.len := by
        push_cast
        omega
      exact_mod_cast this
    have hdrop : m.drop (2 ^ J) = .ok ⟨2 ^ J, m.len - 2 ^ J⟩ := by
      unfold Slice.drop
      rw [if_pos hle', hptr, wrappingAdd_of_inIsize]
      · push_cast
        rw [zero_add]
      · push_cast
        exact ⟨by omega, by omega⟩
    have hsb1 : spanBase J ⟨0, 0⟩ = 0 := spanBase_of_aligned (dvd_zero _)
    have hsa1 : spanAcme J ⟨0, 0⟩ = 0 := floorBlock_of_aligned (dvd_zero _)
    have hal : Aligned J (2 ^ J) := dvd_refl _
    have hsb2 : spanBase J ⟨2 ^ J, m.len - 2 ^ J⟩ = 2 ^ J := spanBase_of_aligned hal
    have hsa2 : spanAcme J ⟨2 ^ J, m.len - 2 ^ J⟩ = spanAcme J m := by
      unfold spanAcme
      congr 1
      show (2 : Int) ^ J + ((m.len - 2 ^ J : Nat) : Int) = m.ptr + m.len
      rw [hptr, Nat.cast_sub hle']
      push_cast
      ring
    have hrest : Inside a K J ⟨2 ^ J, m.len - 2 ^ J⟩ := by
      refine ⟨h.nat, ?_, ?_, ?_⟩
      · show a.arenaBase ≤ 2 ^ J
        omega
      · rw [hsa2]
        exact hhi
      · rw [hsb2, hsa2]
        exact hacme
    have hcut := hrest.nonnull (by rw [hsb2, hsa2]; omega) 0
    unfold Cut at hcut
    rw [hsb2, hsa2] at hcut
    obtain ⟨q, blocks, r, htiles, hq, hr, hrun⟩ := hcut
    refine ⟨q, blocks, r, htiles, hq, ?_, fun u hu => ?_⟩
    · rcases hr with ⟨hr, hq', _⟩ | ⟨hr, _, hedge⟩
      · exact Or.inl ⟨hr, hq', fun hc => by omega⟩
      · exact Or.inr ⟨hr, by omega, hedge⟩
    · have hdropn : ((u.smlstBlock : Int) - spanBase J m).toNat = 2 ^ J := by
        rw [hb0, hu, h.nat.smlst, Int.sub_zero, Int.toNat_natCast]
      have hfirst : releaseRec 1 u ⟨0, 0⟩ = .ok u := by
        have hz : Inside a K J ⟨0, 0⟩ := ⟨h.nat, by rw [hbase0], by rw [hsa1]; omega, by
          rw [hsb1, hsa1]⟩
        rw [hz.head hu, hsb1, hsa1]
        rfl
      rw [h.head hu, if_neg (by omega), if_pos ⟨h0, h0'⟩, htake]
      show (releaseRec 1 u ⟨0, 0⟩ >>= _) = _
      rw [hfirst]
      show (m.drop ((u.smlstBlock : Int) - spanBase J m).toNat >>= _) = _
      rw [hdropn, hdrop]
      exact hrun u hu
  · rw [if_neg hnull]
    exact h.nonnull hnull 1

/-- The rule for `release`. -/
theorem Inside.release_rule (h : Inside a K J m) (hS : Keeps J (spanAcme J m) S E)
    (hu : S (spanFirst J m) u) (harena : u.toArena = a) :
    (∃ u', u.release m = .ok u' ∧ S (spanAcme J m) u' ∧
      (spanAcme J m = 0 → spanBase J m = 0)) ∨
    (∃ f, u.release m = .error f ∧ E f) ∨
    (u.release m = .error .overflow ∧ spanBase J m < spanAcme J m ∧
      (spanAcme J m = 0 ∨ ¬ a.Low48)) := by
  obtain ⟨q, blocks, r, htiles, hq, hr, hrun⟩ := h.release_blocks
  unfold release
  rw [hrun u harena]
  unfold deallocThen
  rcases hS.all htiles hq hu with ⟨u', hd, hu'⟩ | ⟨f, hd, hf⟩
  · rw [hd]
    rcases hr with ⟨rfl, rfl, hz⟩ | ⟨rfl, hedge⟩
    · exact Or.inl ⟨u', rfl, hu', hz⟩
    · exact Or.inr (Or.inr ⟨rfl, hedge⟩)
  · rw [hd]
    exact Or.inr (Or.inl ⟨f, rfl, hf⟩)

end Release

/-- A slice of reserved memory, some address `y` of the arena elsewhere also reserved. -/
structure Releasable (K J : Nat) (y : Int) (m : Slice) (t : Talloc FreeLists) : Prop where
  inv : Inv K J t
  lo : t.arenaBase ≤ m.ptr
  hi : spanAcme J m ≤ t.arenaBase + t.arenaSize
  le : spanBase J m ≤ spanAcme J m
  reserved : ∀ x, spanBase J m ≤ x → x < spanAcme J m → ¬ Covers (t.FreeBlock K) x
  other : Within K t.arenaBase y
  otherOut : ¬ (spanBase J m ≤ y ∧ y < spanAcme J m)
  otherReserved : ¬ Covers (t.FreeBlock K) y

/-- `t'` is `t` with `[p, q)` freed. -/
structure Released (K J : Nat) (p q : Int) (t t' : Talloc FreeLists) : Prop where
  inv : Inv K J t'
  shape : SameShape t t'
  covers : ∀ x, Covers (t'.FreeBlock K) x ↔ (p ≤ x ∧ x < q) ∨ Covers (t.FreeBlock K) x
  bases : BasesFrom K t t' (fun b => p ≤ b ∧ b < q)

/-- At first nothing is released. -/
theorem Released.refl (h : Inv K J t) (p : Int) : Released K J p p t t where
  inv := h
  shape := SameShape.refl t
  covers x := ⟨Or.inr, fun hx => hx.elim (fun hx => absurd hx (by omega)) id⟩
  bases hF := Or.inl ⟨_, hF⟩

section Reserved

variable {y : Int} {m : Slice}

/-- What can be released is in the arena. -/
theorem Releasable.inside (h : Releasable K J y m t) : Inside t.toArena K J m :=
  ⟨h.inv.nat, h.lo, h.hi, h.le⟩

/-- Where the loop starts. -/
theorem Releasable.first_bounds (h : Releasable K J y m t) :
    spanBase J m ≤ spanFirst J m ∧ spanFirst J m ≤ spanAcme J m := by
  have hle := h.le
  unfold spanFirst
  split
  next hnull =>
    have hpos := two_pow_pos J
    have := Aligned.add_le_of_lt (dvd_zero _) (aligned_floorBlock J (m.ptr + m.len)) hnull.2
    unfold spanAcme
    exact ⟨by omega, by omega⟩
  next => exact ⟨le_refl _, hle⟩

/-- What `dealloc` needs to know of the next block of the slice. -/
theorem Releasable.turn_pre (h : Releasable K J y m t) {p : Int} {u : Talloc FreeLists} {k : Nat}
    (hu : Released K J (spanFirst J m) p t u) (hp : spanFirst J m ≤ p)
    (hpk : p + 2 ^ k ≤ spanAcme J m) :
    k ≤ K ∧ u.Holds k p ∧ (∀ x, Within k p x → ¬ Covers (u.FreeBlock K) x) ∧ ¬ Within k p y ∧
      ¬ Covers (u.FreeBlock K) y := by
  obtain ⟨hf1, hf2⟩ := h.first_bounds
  obtain ⟨hb1, _⟩ := spanBase_bounds J m
  have hpos := two_pow_pos k
  have hlo := h.lo
  have hhi := h.hi
  have hout := h.otherOut
  refine ⟨?_, ?_, fun x hx => ?_, fun hc => ?_, ?_⟩
  · have hsz := h.inv.nat.cast_pow
    by_contra hcon
    have h1 : (2 : Int) ^ (K + 1) ≤ 2 ^ k := pow_le_pow_right₀ (by norm_num) (by omega)
    have h2 := two_pow_succ K
    have h3 := two_pow_pos K
    omega
  · rw [hu.shape.arena]
    exact ⟨by omega, by omega⟩
  · obtain ⟨hx1, hx2⟩ := hx
    rw [hu.covers]
    rintro (hc | hc)
    · omega
    · exact h.reserved x (by omega) (by omega) hc
  · obtain ⟨hc1, hc2⟩ := hc
    omega
  · rw [hu.covers]
    rintro (hc | hc)
    · omega
    · exact h.otherReserved hc

/-- Freeing one more block of the slice. -/
theorem Releasable.turn (h : Releasable K J y m t) {p : Int} {u : Talloc FreeLists} {k : Nat}
    (hu : Released K J (spanFirst J m) p t u) (hp : spanFirst J m ≤ p) (hJk : J ≤ k)
    (hak : Aligned k p) (hpk : p + 2 ^ k ≤ spanAcme J m) :
    ∃ u', u.dealloc p ⟨2 ^ k, 1⟩ = .ok u' ∧ Released K J (spanFirst J m) (p + 2 ^ k) t u' := by
  obtain ⟨hkK, hin, hfree, hyp, hyf⟩ := h.turn_pre hu hp hpk
  have hK := h.inv.nat.hK
  have hpos := two_pow_pos k
  obtain ⟨u', hd, hinv, hsh, hcov, hbase⟩ := dealloc_spec (y := y) hu.inv
    (layoutToSize_block hu.inv.nat.smlst hJk (by omega)) hJk hkK hak hin hfree
    (by rw [hu.shape.arena]; exact h.other) hyp hyf
  refine ⟨u', hd, hinv, hu.shape.trans hsh, fun x => ?_, fun hF => ?_⟩
  · rw [hcov, hu.covers, ← or_assoc]
    apply or_congr_left
    unfold Within
    omega
  · rcases hbase hF with ⟨e, hF'⟩ | rfl
    · rcases hu.bases hF' with hF'' | ⟨h1, h2⟩
      · exact Or.inl hF''
      · exact Or.inr ⟨h1, by omega⟩
    · exact Or.inr ⟨hp, by omega⟩

/-- Each block keeps what is released so far. -/
theorem Releasable.keeps (h : Releasable K J y m t) :
    Keeps J (spanAcme J m)
      (fun p u => spanFirst J m ≤ p ∧ Released K J (spanFirst J m) p t u) (fun _ => False) where
  turn {p u k} hu hJk hak hpk := by
    have hpos := two_pow_pos k
    obtain ⟨u', hd, hu'⟩ := h.turn hu.2 hu.1 hJk hak hpk
    exact Or.inl ⟨u', hd, by have := hu.1; omega, hu'⟩

/-- How `release` ends: with the whole blocks of the slice free, except the null
block, or at an overflow. A span that ends at address 0 always overflows. -/
theorem release_cases (h : Releasable K J y m t) :
    (t.release m = .error .overflow ∧ spanBase J m < spanAcme J m ∧
      (spanAcme J m = 0 ∨ ¬ t.Low48)) ∨
    ∃ t', t.release m = .ok t' ∧ Released K J (spanFirst J m) (spanAcme J m) t t' ∧
      (spanAcme J m = 0 → spanBase J m = 0) := by
  rcases h.inside.release_rule h.keeps ⟨le_refl _, Released.refl h.inv _⟩ rfl with
    ⟨t', hrun, hu, hz⟩ | ⟨_, _, hf⟩ | hedge
  · exact Or.inr ⟨t', hrun, hu.2, hz⟩
  · exact hf.elim
  · exact Or.inl hedge

/-- `release` frees the whole blocks of the slice, except the null block. It
overflows only when the span ends at address 0 or leaves the canonical addresses. -/
theorem release_spec (h : Releasable K J y m t) :
    (t.release m = .error .overflow ∧ (spanAcme J m = 0 ∨ ¬ t.Low48)) ∨
    ∃ t', t.release m = .ok t' ∧ Released K J (spanFirst J m) (spanAcme J m) t t' := by
  rcases release_cases h with ⟨herr, _, hedge⟩ | ⟨t', hrun, hdone, _⟩
  · exact Or.inl ⟨herr, hedge⟩
  · exact Or.inr ⟨t', hrun, hdone⟩

end Reserved

end Tauos.Memm.Talloc
