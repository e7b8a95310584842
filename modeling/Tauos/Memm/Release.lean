import Tauos.Memm.Exhaustion
import Tauos.Memm.OneSide

/-!
# What `release` frees

`release` should free the smallest blocks that lie wholly in the slice it is given,
except the one at address 0, for slices of any place and length and for arenas that
wrap around the address space. `release_frees_iff` says for which slices it does,
with `base` and `acme` the ends of the slice rounded inwards. It goes wrong

* for slices strictly inside one smallest block: `base` is then above `acme`, and the
  distance of the two becomes a huge block size (`Fits.short`);
* for whole blocks that end at address 0: the loop takes the trailing zeros of 0
  (`Fits.toNull`);
* for slices that start below address 0 and reach above it: the part below is cut
  off by a distance from `base`, counted from the start of the slice. If the slice
  starts on a block, the part ends at address 0; if not, it ends too early, and the
  last block below 0 is lost.
-/

namespace Tauos.Memm

open Tauos.Rust Tauos.Utils Tauos.Buddy

/-- A slice of the arena, in the canonical address space. -/
structure Fits (a : Arena) (m : Slice) : Prop where
  lo : a.arenaBase ≤ m.ptr
  hi : m.ptr + m.len ≤ a.arenaBase + a.arenaSize
  low : -2 ^ 47 ≤ m.ptr
  high : m.ptr + m.len ≤ 2 ^ 47

section Fits

variable {σ : Type} [Store σ] {a : Arena} {K J : Nat} {m : Slice}

/-- A smallest block is no larger than the canonical addresses. -/
theorem Framed.pow_le (h : Framed a K J) : (2 : Int) ^ J ≤ 2 ^ 48 :=
  pow_le_pow_right₀ (by norm_num) (h.hJK.trans h.hK)

/-- Rounding inwards crosses the ends of a slice by no more than one smallest block. -/
theorem spanBase_eq_of_lt (hlt : Talloc.spanAcme J m < Talloc.spanBase J m) :
    Talloc.spanBase J m = Talloc.spanAcme J m + 2 ^ J := by
  obtain ⟨h1, h2⟩ := Talloc.spanBase_bounds J m
  obtain ⟨h3, h4⟩ := Talloc.spanAcme_bounds J m
  have hb : Aligned J (Talloc.spanBase J m) := aligned_floorBlock J _
  have ha : Aligned J (Talloc.spanAcme J m) := aligned_floorBlock J _
  have hge := ha.add_le_of_lt hb hlt
  have hle := hb.add_le_of_lt ha.add.add (by omega)
  omega

/-- The first steps of `release`. -/
theorem Fits.head (hf : Framed a K J) (h : Fits a m) {u : Talloc σ} (hu : u.toArena = a)
    (depth : Nat) :
    Talloc.releaseRec (depth + 1) u m =
      if Talloc.spanBase J m = Talloc.spanAcme J m then .ok u
      else if Talloc.spanBase J m ≤ 0 ∧ 0 < Talloc.spanAcme J m then do
        let u ← Talloc.releaseRec depth u (← m.take (0 - Talloc.spanBase J m).toNat)
        Talloc.releaseRec depth u (← m.drop (u.smlstBlock - Talloc.spanBase J m).toNat)
      else Talloc.releaseLoop (Talloc.spanAcme J m)
        ((Talloc.spanAcme J m - Talloc.spanBase J m).toNat + 2) true (Talloc.spanBase J m) u := by
  subst hu
  obtain ⟨h1, h2⟩ := Talloc.spanBase_bounds J m
  obtain ⟨h3, h4⟩ := Talloc.spanAcme_bounds J m
  have hJ := hf.hJK.trans hf.hK
  have hpow := hf.pow_le
  have hpos := two_pow_pos J
  have hlo := h.lo
  have hhi := h.hi
  have hlow := h.low
  have hhigh := h.high
  have hend := hf.hi
  have hstart := hf.lo
  exact Talloc.releaseRec_head hf.smlst (by omega) ⟨by omega, by omega⟩ ⟨by omega, by omega⟩
    (by omega) (by omega) (by omega) ⟨by omega, by omega⟩ depth

/-- A slice strictly inside a smallest block: `dealloc` is asked for half the address
space. -/
theorem Fits.short (hf : Framed a K J) (h : Fits a m) {u : Talloc σ} (hu : u.toArena = a)
    (hlt : Talloc.spanAcme J m < Talloc.spanBase J m) (depth : Nat) :
    ∃ f, Talloc.releaseRec (depth + 1) u m = .error f := by
  have heq := spanBase_eq_of_lt hlt
  have hpos := two_pow_pos J
  have hpow := hf.pow_le
  have hlow := h.low
  have hhigh := h.high
  have hJ := hf.hJK.trans hf.hK
  obtain ⟨h1, h2⟩ := Talloc.spanBase_bounds J m
  obtain ⟨h3, h4⟩ := Talloc.spanAcme_bounds J m
  have hal : Aligned J (Talloc.spanBase J m) := aligned_floorBlock J _
  rw [h.head hf hu, if_neg (by omega), if_neg (by omega)]
  generalize Talloc.spanBase J m = base at *
  generalize Talloc.spanAcme J m = acme at *
  have hfuel : (acme - base).toNat + 2 = 2 := by omega
  rw [hfuel]
  by_cases h0 : base = 0
  · subst h0
    exact ⟨.overflow, rfl⟩
  obtain ⟨hk64, hkd, _⟩ := trailingZeros_spec (show InIsize base from ⟨by omega, by omega⟩) h0
  obtain ⟨hk, hin⟩ := Talloc.inIsize_add_lowbit h0 hkd (by omega) (by omega)
  have hkpos := two_pow_pos (trailingZeros base)
  have hnat : (2 : Nat) ^ J ≤ 2 ^ 48 := Nat.pow_le_pow_right (by norm_num) hJ
  have hcast := cast_two_pow J
  -- `acme` is one block below `base`, so the difference wraps
  have hdelta : asUsize (acme - base) = 2 ^ 64 - 2 ^ J := by
    unfold asUsize
    omega
  have hprev : fastNon0PrevPow2 (2 ^ 64 - 2 ^ J) = 2 ^ 63 := by
    have hne : (2 : Nat) ^ 64 - 2 ^ J ≠ 0 := by omega
    have hlog : (2 ^ 64 - 2 ^ J).log2 = 63 := by
      rw [Nat.log2_eq_iff hne]
      omega
    rw [fastNon0PrevPow2_eq hne (by have := Nat.two_pow_pos J; omega), hlog]
  have hK := hf.hK
  -- and a block of 2⁶³ bytes is larger than any arena
  have hgran : a.blockGranularity (2 ^ 63) = .error .underflow := by
    unfold Arena.blockGranularity
    rw [hf.pow2, leadingZeros_two_pow, leadingZeros_two_pow]
    exact if_neg (by omega)
  refine ⟨.underflow, ?_⟩
  dsimp only [Talloc.releaseLoop]
  rw [show usizeShl (trailingZeros base) = .ok (2 ^ trailingZeros base) from if_pos hk64, ok_bind,
    Talloc.asIsize_two_pow hk, isizeAdd_of_inIsize hin, ok_bind, if_neg (by omega),
    isizeSub_of_inIsize ⟨by omega, by omega⟩, ok_bind, hdelta, hu, hf.smlst, if_pos (by omega),
    hprev, show nonNull base = .ok base from if_neg h0, ok_bind]
  dsimp only [Talloc.dealloc]
  rw [hu, layoutToSize_block hf.smlst (by omega) (by norm_num), hgran]
  rfl

/-- A span that does not cross address 0 is a stretch. -/
theorem Fits.stretch (hf : Framed a K J) (h : Fits a m)
    (hle : Talloc.spanBase J m ≤ Talloc.spanAcme J m)
    (hnull : 0 < Talloc.spanBase J m ∨ Talloc.spanAcme J m ≤ 0) :
    Talloc.Stretch a J (Talloc.spanBase J m) (Talloc.spanAcme J m) := by
  obtain ⟨h1, _⟩ := Talloc.spanBase_bounds J m
  obtain ⟨h3, _⟩ := Talloc.spanAcme_bounds J m
  have hlow := h.low
  have hhigh := h.high
  exact ⟨hf.smlst, by omega, by omega, by omega, aligned_floorBlock J _, aligned_floorBlock J _,
    hle, hnull⟩

/-- What the block loop comes to on a slice of whole blocks on one side of 0. -/
theorem Fits.loop (hf : Framed a K J) (h : Fits a m)
    (hlt : Talloc.spanBase J m < Talloc.spanAcme J m)
    (hnull : 0 < Talloc.spanBase J m ∨ Talloc.spanAcme J m ≤ 0) (depth : Nat) :
    ∃ q blocks r, Talloc.Tiles J q (Talloc.spanBase J m) blocks ∧
      ((r = .ok () ∧ q = Talloc.spanAcme J m ∧ Talloc.spanAcme J m ≠ 0) ∨
        (r = .error .overflow ∧ Talloc.spanAcme J m = 0)) ∧
      ∀ {σ : Type} [Store σ] (u : Talloc σ), u.toArena = a →
        Talloc.releaseRec (depth + 1) u m = Talloc.deallocThen blocks r u := by
  obtain ⟨h1, _⟩ := Talloc.spanBase_bounds J m
  obtain ⟨h3, _⟩ := Talloc.spanAcme_bounds J m
  have hlow := h.low
  have hhigh := h.high
  obtain ⟨q, blocks, r, htiles, hq, hr, hrun⟩ := Talloc.releaseLoop_stretch _
    (h.stretch hf (Int.le_of_lt hlt) hnull) (Nat.le_refl _)
  refine ⟨q, blocks, r, htiles, ?_, fun u hu => ?_⟩
  · rcases hr with hr | ⟨hr, h0 | hcan⟩
    · exact Or.inl hr
    · exact Or.inr ⟨hr, h0⟩
    · omega
  · rw [h.head hf hu, if_neg (by omega), if_neg (by omega)]
    exact hrun u ((congrArg Arena.smlstBlock hu).trans hf.smlst)

/-- Whole blocks up to address 0. -/
theorem Fits.toNull (hf : Framed a K J) (h : Fits a m) {u : Talloc σ} (hu : u.toArena = a)
    (hlt : Talloc.spanBase J m < 0) (h0 : Talloc.spanAcme J m = 0) (depth : Nat) (t' : Talloc σ) :
    Talloc.releaseRec (depth + 1) u m ≠ .ok t' := by
  intro hok
  obtain ⟨q, blocks, r, _, hr, hrun⟩ := h.loop hf (by omega) (by omega) depth
  rw [hrun u hu] at hok
  obtain ⟨u₁, _, hok⟩ := bind_ok hok
  obtain ⟨_, hr', _⟩ := bind_ok hok
  rcases hr with ⟨_, _, hne⟩ | ⟨rfl, _⟩
  · exact hne h0
  · cases hr'

/-- `u` is `t` with `[p, q)` freed, as far as one side of address 0 is concerned. -/
structure SideReleased (a : Arena) (K J : Nat) (pos : Bool) (p q : Int) (t u : Talloc FreeLists) :
    Prop where
  inv : SideInv a K J pos u
  shape : Talloc.SameShape t u
  le : p ≤ q
  covers : ∀ x, Covers (u.FreeBlock K) x ↔ (p ≤ x ∧ x < q) ∨ Covers (t.FreeBlock K) x

/-- Whole blocks on one side of address 0 are freed one after the other. -/
theorem Fits.side (hf : Framed a K J) (h : Fits a m) {t : Talloc FreeLists} {pos : Bool} {y : Int}
    (hinv : SideInv a K J pos t)
    (hlt : Talloc.spanBase J m < Talloc.spanAcme J m)
    (hside : if pos = true then 0 < Talloc.spanBase J m else Talloc.spanAcme J m < 0)
    (hres : ∀ x, m.Mem x → ¬ Covers (t.FreeBlock K) x)
    (hy : Within K a.arenaBase y) (hym : ¬ m.Mem y) (hyf : ¬ Covers (t.FreeBlock K) y)
    (depth : Nat) :
    ∃ t', Talloc.releaseRec (depth + 1) t m = .ok t' ∧
      SideReleased a K J pos (Talloc.spanBase J m) (Talloc.spanAcme J m) t t' := by
  obtain ⟨h1, _⟩ := Talloc.spanBase_bounds J m
  obtain ⟨h3, _⟩ := Talloc.spanAcme_bounds J m
  have hlo := h.lo
  have hhi := h.hi
  have hsz := hf.cast_size
  have hne : Talloc.spanAcme J m ≠ 0 := by
    cases pos with
    | false => simp only [Bool.false_eq_true, if_false] at hside; omega
    | true => simp only [if_true] at hside; omega
  have hnull : 0 < Talloc.spanBase J m ∨ Talloc.spanAcme J m ≤ 0 := by
    cases pos with
    | false => simp only [Bool.false_eq_true, if_false] at hside; omega
    | true => simp only [if_true] at hside; omega
  obtain ⟨q, blocks, r, htiles, hr, hrun⟩ := h.loop hf hlt hnull depth
  rcases hr with ⟨rfl, rfl, _⟩ | ⟨_, h0⟩
  swap
  · exact absurd h0 hne
  -- one block of the span after the other is given back
  have hkeeps : Talloc.Keeps J (Talloc.spanAcme J m)
      (SideReleased a K J pos (Talloc.spanBase J m) · t) (fun _ => False) := by
    refine ⟨fun {p u k} hu hJk hak hpk => Or.inl ?_⟩
    have hpos := two_pow_pos k
    have hle := hu.le
    have hkK : k ≤ K := by
      by_contra hcon
      have h4 : (2 : Int) ^ (K + 1) ≤ 2 ^ k := pow_le_pow_right₀ (by norm_num) (by omega)
      have h5 := two_pow_succ K
      have h6 := two_pow_pos K
      omega
    -- it is on the side of the span, inside it, and not free yet
    have hon : a.OnSide pos k p := by
      refine ⟨⟨by omega, by omega⟩, ?_⟩
      cases pos with
      | false => simp only [Bool.false_eq_true, if_false] at hside ⊢; omega
      | true => simp only [if_true] at hside ⊢; omega
    have hmem : ∀ {x}, Within k p x → m.Mem x := by
      intro x hx
      obtain ⟨hx1, hx2⟩ := hx
      exact ⟨by omega, by omega⟩
    have hfree : ∀ x, Within k p x → ¬ Covers (u.FreeBlock K) x := by
      intro x hx hc
      rcases (hu.covers x).mp hc with hc | hc
      · have := hx.1
        omega
      · exact hres x (hmem hx) hc
    have hyu : ¬ Covers (u.FreeBlock K) y := by
      intro hc
      rcases (hu.covers y).mp hc with hc | hc
      · exact hym ⟨by omega, by omega⟩
      · exact hyf hc
    have hK := hf.hK
    obtain ⟨u', hd, hinv', hsh, hcov⟩ :=
      hu.inv.dealloc hf (layoutToSize_block hf.smlst hJk (by omega))
      hJk hkK hak hon hfree hy (fun hc => hym (hmem hc)) hyu
    refine ⟨u', hd, hinv', hu.shape.trans hsh, by omega, fun x => ?_⟩
    rw [hcov, hu.covers, ← or_assoc]
    apply or_congr_left
    unfold Within
    omega
  have hstart : SideReleased a K J pos (Talloc.spanBase J m) (Talloc.spanBase J m) t t :=
    ⟨hinv, Talloc.SameShape.refl t, le_refl _, fun x =>
      ⟨Or.inr, fun hx => hx.elim (fun hc => absurd hc (by omega)) id⟩⟩
  rcases hkeeps.all htiles (le_refl _) hstart with ⟨t', hd, hdone⟩ | ⟨_, _, hf⟩
  · refine ⟨t', ?_, hdone⟩
    rw [hrun t hinv.arena, Talloc.deallocThen_ok]
    exact hd
  · exact hf.elim

end Fits

/-! ## Nothing below 0 is freed from above -/

section Above

variable {a : Arena} {K J : Nat}

/-- What a call that returned has taken. -/
theorem takeBuddy_ok {t t₁ : Talloc FreeLists} {g i size : Nat} {b next : Int}
    (h : t.takeBuddy g i b size = .ok (next, t₁)) :
    next = (if isLowerBuddy b size = true then b else wrappingSub b size) ∧
      ∃ c, t.removeBlock g i c = .ok t₁ := by
  unfold Talloc.takeBuddy at h
  cases hl : isLowerBuddy b size with
  | true =>
    rw [hl] at h
    obtain ⟨t₂, hrem, h⟩ := bind_ok h
    cases h
    exact ⟨rfl, _, hrem⟩
  | false =>
    rw [hl] at h
    obtain ⟨t₂, hrem, h⟩ := bind_ok h
    cases h
    exact ⟨rfl, _, hrem⟩

/-- Freeing a block at or above address 0 lists nothing below 0. -/
theorem deallocLoop_above : ∀ (g : Nat) {e : Nat} {b : Int} {t t' : Talloc FreeLists},
    e + g < 64 → 0 ≤ b → b < 2 ^ 63 → Aligned e b → Talloc.deallocLoop g b (2 ^ e) t = .ok t' →
    ∀ {g' x}, x ∈ t'.list g' → x < 0 → x ∈ t.list g' := by
  have hadd : ∀ {g i : Nat} {b : Int} {t t' : Talloc FreeLists}, 0 ≤ b →
      t.addBlockNext g i b = .ok t' → ∀ {g' x}, x ∈ t'.list g' → x < 0 → x ∈ t.list g' := by
    intro g i b t t' hb h g' x hx hneg
    rw [Talloc.addBlockNext_list h] at hx
    split at hx
    next hg =>
      subst hg
      rcases List.mem_cons.mp hx with rfl | hx
      · omega
      · exact hx
    next => exact hx
  intro g
  induction g with
  | zero =>
    intro e b t t' _ hb _ _ h
    obtain ⟨i, _, h⟩ := bind_ok h
    obtain ⟨set, _, h⟩ := bind_ok h
    cases set with
    | true =>
      obtain ⟨_, _, h⟩ := bind_ok h
      cases h
    | false => exact hadd hb h
  | succ g ih =>
    intro e b t t' he hb hhi ha h g' x hx hneg
    obtain ⟨i, _, h⟩ := bind_ok h
    obtain ⟨set, _, h⟩ := bind_ok h
    cases set with
    | false => exact hadd hb h hx hneg
    | true =>
      obtain ⟨⟨next, t₁⟩, hr, h⟩ := bind_ok h
      obtain ⟨hnext, c, hrem⟩ := takeBuddy_ok hr
      have hpos := two_pow_pos e
      have hcast := cast_two_pow e
      have hlow := Natural.isLowerBuddy (by omega) ha
      -- the merged block starts at the lower of the two, which is not below 0
      have hplace : 0 ≤ next ∧ next < 2 ^ 63 ∧ Aligned (e + 1) next := by
        by_cases hal : Aligned (e + 1) b
        · rw [hnext, if_pos (hlow.mpr hal)]
          exact ⟨hb, hhi, hal⟩
        · have hge : 0 + 2 ^ e ≤ b := Aligned.add_le_of_lt (dvd_zero _) ha
            (lt_of_le_of_ne hb fun hc => hal (hc ▸ dvd_zero _))
          rw [hnext, if_neg (fun hc => hal (hlow.mp hc)),
            wrappingSub_of_inIsize ⟨by omega, by omega⟩, hcast]
          exact ⟨by omega, by omega, aligned_sub_of_not ha hal⟩
      obtain ⟨hc0, hc1, hcal⟩ := hplace
      dsimp only at h
      rw [Nat.shiftLeft_eq, ← Nat.pow_add] at h
      exact Talloc.removeBlock_list hrem (ih (by omega) hc0 hc1 hcal h hx hneg)

/-- The granularity of a size. -/
theorem Framed.granularity (hf : Framed a K J) {k g : Nat}
    (h : a.blockGranularity (2 ^ k) = .ok g) : k ≤ 63 → k + g = K := by
  intro hk
  have hK := hf.hK
  unfold Arena.blockGranularity at h
  rw [hf.pow2, leadingZeros_two_pow, leadingZeros_two_pow] at h
  unfold usizeSub at h
  split at h
  · cases h
    omega
  · cases h

/-- Blocks above address 0 do not change what is free below. -/
theorem deallocAll_above (hf : Framed a K J) {p q : Int} {blocks : List (Int × Nat)}
    (h : Talloc.Tiles J q p blocks) : 0 ≤ p → q ≤ 2 ^ 47 → ∀ {t t' : Talloc FreeLists},
    t.toArena = a → Talloc.deallocAll blocks t = .ok t' →
    t'.toArena = a ∧ ∀ {g x}, x ∈ t'.list g → x < 0 → x ∈ t.list g := by
  induction h with
  | nil =>
    intro _ _ t t' ht hrun
    cases hrun
    exact ⟨ht, fun hx _ => hx⟩
  | @cons p k blocks hJk hak hrest ih =>
    intro hp hq t t' ht hrun
    have hpos := two_pow_pos k
    have hle := hrest.le
    have hk : k < 48 := by
      by_contra hcon
      have : (2 : Int) ^ 48 ≤ 2 ^ k := pow_le_pow_right₀ (by norm_num) (by omega)
      omega
    obtain ⟨t₁, hd, hrun⟩ := bind_ok hrun
    obtain ⟨harena, hlist⟩ := ih (by omega) hq ((Talloc.dealloc_arena hd).trans ht) hrun
    refine ⟨harena, fun hx hneg => ?_⟩
    obtain ⟨g₁, hg₁, hd⟩ := bind_ok hd
    rw [ht, layoutToSize_block hf.smlst hJk (by omega)] at hg₁ hd
    have hsum := hf.granularity hg₁ (by omega)
    have hK := hf.hK
    exact deallocLoop_above g₁ (by omega) hp (by omega) hak hd (hlist hx hneg) hneg

/-- A slice above address 0 lists nothing below 0. -/
theorem Fits.above (hf : Framed a K J) {m : Slice} (h : Fits a m) (hb : 0 < Talloc.spanBase J m)
    {t t' : Talloc FreeLists} (ht : t.toArena = a) {depth : Nat}
    (hrun : Talloc.releaseRec (depth + 1) t m = .ok t') :
    t'.toArena = a ∧ ∀ {g x}, x ∈ t'.list g → x < 0 → x ∈ t.list g := by
  obtain ⟨h3, _⟩ := Talloc.spanAcme_bounds J m
  have hhigh := h.high
  rcases Int.lt_trichotomy (Talloc.spanBase J m) (Talloc.spanAcme J m) with hlt | heq | hgt
  · obtain ⟨q, blocks, r, htiles, hr, hloop⟩ := h.loop hf hlt (Or.inl hb) depth
    rw [hloop t ht] at hrun
    rcases hr with ⟨rfl, rfl, _⟩ | ⟨_, h0⟩
    · rw [Talloc.deallocThen_ok] at hrun
      exact deallocAll_above hf htiles (Int.le_of_lt hb) (by omega) ht hrun
    · omega
  · rw [h.head hf ht, if_pos heq] at hrun
    cases hrun
    exact ⟨ht, fun hx _ => hx⟩
  · obtain ⟨f, herr⟩ := h.short hf ht hgt depth
    rw [herr] at hrun
    cases hrun

end Above

/-! ## The slices that `release` frees -/

/-- A valid `Talloc`, on a naturally aligned arena or one with address 0 inside: lists
and bitmap agree, the null block and the status data are not free. -/
structure Talloc.InOrder (K J : Nat) (t : Talloc FreeLists) : Prop where
  framed : Framed t.toArena K J
  slen : t.store.llists.length = K - J + 1
  sblen : t.store.bitmap.length = max (2 ^ (K - J + 1) / 8) 1
  nodup : ∀ g, (t.list g).Nodup
  holds : ∀ {e b}, t.FreeBlock K e b → t.Holds e b
  canon : Canonical (t.FreeBlock K)
  bits : ∀ {e b}, J ≤ e → e < K → Aligned e b → t.Holds e b →
    ∃ i, t.bitmapOffset b (2 ^ e) = .ok i ∧
      (getBit t.store.bitmap i = true ↔ t.FreeBlock K e b ∨ t.FreeBlock K e (buddy e b))
  null : ¬ t.Free 0
  statusIn : Within K t.arenaBase t.llistsPtr
  status : ¬ t.Free t.llistsPtr

/-- The slice is in the arena and reserved, and holds no status data. -/
structure Talloc.Reserves (t : Talloc FreeLists) (m : Slice) : Prop extends Fits t.toArena m where
  reserved : ∀ x, m.Mem x → ¬ t.Free x
  status : ¬ m.Mem t.llistsPtr

/-- No address is in two listed blocks. -/
def Talloc.ListedOnce (t : Talloc FreeLists) : Prop :=
  (∀ g, (t.list g).Nodup) ∧
  ∀ g b g' b' x, b ∈ t.list g → b' ∈ t.list g' → b ≤ x → x < b + (t.arenaSizePow2 >>> g : Nat) →
    b' ≤ x → x < b' + (t.arenaSizePow2 >>> g' : Nat) → g = g' ∧ b = b'

/-- `release` returns, and has freed the smallest blocks that lie wholly in the slice,
except the null block, each of them once. -/
def FreesExactly (t : Talloc FreeLists) (m : Slice) : Prop :=
  ∃ t', t.release m = .ok t' ∧ t'.ListedOnce ∧
    ∀ s, (t.smlstBlock : Int) ∣ s → (t'.BlockFree s ↔
      t.BlockFree s ∨ (m.ptr ≤ s ∧ s + t.smlstBlock ≤ m.ptr + m.len ∧ s ≠ 0))

/-- The slice reaches a block boundary, and if it holds whole blocks then these are on
one side of address 0 and do not end there, or the slice starts at address 0. -/
def ReleaseMeets (t : Talloc FreeLists) (m : Slice) : Prop :=
  let base := roundUp t.smlstBlock m.ptr
  let acme := (m.ptr + m.len) / t.smlstBlock * t.smlstBlock
  base ≤ acme ∧ (base = acme ∨ 0 < base ∨ acme < 0 ∨ m.ptr = 0)

section Iff

variable {K J : Nat} {t t' : Talloc FreeLists} {m : Slice} {pos : Bool}

/-- Free addresses are those of the free blocks. -/
theorem Talloc.InOrder.free_iff (h : t.InOrder K J) (x : Int) :
    t.Free x ↔ Covers (t.FreeBlock K) x :=
  free_iff_covers h.framed.pow2 (by have := h.slen; omega) x

/-- A state in order is so on each side of address 0. -/
theorem Talloc.InOrder.side (h : t.InOrder K J) (pos : Bool) : SideInv t.toArena K J pos t where
  arena := rfl
  slen := h.slen
  sblen := h.sblen
  nodup := h.nodup
  holds := h.holds
  canon := h.canon
  bits {e b} hJ he ha hb := by
    obtain ⟨i, hi, hbit⟩ := h.bits hJ he ha hb.1
    rw [h.framed.offset he hb.1] at hi
    cases hi
    exact hbit

/-- Free addresses are those of the free blocks. -/
theorem SideInv.free_iff (h : SideInv t.toArena K J pos t') (hf : Framed t.toArena K J) (x : Int) :
    t'.Free x ↔ Covers (t'.FreeBlock K) x := by
  refine free_iff_covers ?_ (by have := h.slen; omega) x
  rw [h.arena]
  exact hf.pow2

/-- No block is listed twice. -/
theorem SideInv.listedOnce (h : SideInv t.toArena K J pos t') (hf : Framed t.toArena K J) :
    t'.ListedOnce := by
  refine ⟨h.nodup, fun g b g' b' x hb hb' h1 h2 h3 h4 => ?_⟩
  have hg := Talloc.lt_of_mem_list hb
  have hg' := Talloc.lt_of_mem_list hb'
  have hlen := h.slen
  have hJK := hf.hJK
  have hsize : ∀ g, g ≤ K → ((t'.arenaSizePow2 >>> g : Nat) : Int) = 2 ^ (K - g) := fun g hg => by
    rw [h.arena, hf.pow2, two_pow_shiftRight hg, cast_two_pow]
  have hblock : ∀ {g b}, g ≤ K → b ∈ t'.list g → t'.FreeBlock K (K - g) b := by
    intro g b hg hb
    refine ⟨by omega, ?_⟩
    rw [show K - (K - g) = g by omega]
    exact hb
  rw [hsize g (by omega)] at h2
  rw [hsize g' (by omega)] at h4
  obtain ⟨hgg, hbb⟩ := h.canon.apart (hblock (by omega) hb)
    (hblock (by omega) hb') ⟨h1, h2⟩ ⟨h3, h4⟩
  exact ⟨by omega, hbb⟩

/-- A span of whole smallest blocks is freed block by block. -/
theorem blockFree_of_span (hsm : t.smlstBlock = 2 ^ J) (hsm' : t'.smlstBlock = 2 ^ J) {p q : Int}
    (hp : Aligned J p) (hq : Aligned J q) (hfree : ∀ x, t'.Free x ↔ (p ≤ x ∧ x < q) ∨ t.Free x)
    {s : Int} (hs : Aligned J s) :
    t'.BlockFree s ↔ t.BlockFree s ∨ (p ≤ s ∧ s + 2 ^ J ≤ q) := by
  have hpos := two_pow_pos J
  have hcast := cast_two_pow J
  unfold Talloc.BlockFree
  rw [hsm, hsm', hcast]
  by_cases hin : p ≤ s ∧ s < q
  · have hle := hs.add_le_of_lt hq hin.2
    refine ⟨fun _ => Or.inr ⟨hin.1, hle⟩, fun _ x h1 h2 => (hfree x).mpr (Or.inl ⟨?_, ?_⟩)⟩
    · omega
    · omega
  · -- a block outside the span has no address in it
    have hout : ∀ x, s ≤ x → x < s + 2 ^ J → ¬ (p ≤ x ∧ x < q) := by
      intro x h1 h2 hc
      rcases Int.lt_or_le s p with hlt | hge
      · have := hs.add_le_of_lt hp hlt
        omega
      · omega
    constructor
    · intro h
      refine Or.inl fun x h1 h2 => ?_
      exact ((hfree x).mp (h x h1 h2)).resolve_left (hout x h1 h2)
    · intro h x h1 h2
      rcases h with h | h
      · exact (hfree x).mpr (Or.inr (h x h1 h2))
      · exact absurd ⟨h.1, by omega⟩ hin

/-- The whole blocks of a slice, from its rounded ends. -/
theorem block_in_slice_iff {s : Int} (hs : Aligned J s) :
    (m.ptr ≤ s ∧ s + 2 ^ J ≤ m.ptr + m.len) ↔
      (Talloc.spanBase J m ≤ s ∧ s + 2 ^ J ≤ Talloc.spanAcme J m) := by
  obtain ⟨h1, h2⟩ := Talloc.spanBase_bounds J m
  have hacme : s + 2 ^ J ≤ Talloc.spanAcme J m ↔ s + 2 ^ J ≤ m.ptr + m.len := le_floorBlock hs.add
  have hbase : m.ptr ≤ s ↔ Talloc.spanBase J m ≤ s := by
    refine ⟨fun h => ?_, fun h => h1.trans h⟩
    by_contra hcon
    have := hs.add_le_of_lt (aligned_floorBlock J (m.ptr + (2 ^ J - 1))) (not_le.mp hcon)
    unfold Talloc.spanBase at h2
    omega
  rw [hacme, hbase]

/-- The condition by the ends of the span. -/
theorem releaseMeets_iff (hsm : t.smlstBlock = 2 ^ J) : ReleaseMeets t m ↔
    Talloc.spanBase J m ≤ Talloc.spanAcme J m ∧ (Talloc.spanBase J m = Talloc.spanAcme J m ∨
      0 < Talloc.spanBase J m ∨ Talloc.spanAcme J m < 0 ∨ m.ptr = 0) := by
  have hbase : roundUp t.smlstBlock m.ptr = Talloc.spanBase J m := by
    rw [hsm]
    exact roundUp_eq J m.ptr
  have hacme : (m.ptr + m.len) / t.smlstBlock * t.smlstBlock = Talloc.spanAcme J m := by
    rw [hsm, cast_two_pow]
    rfl
  unfold ReleaseMeets
  dsimp only
  rw [hbase, hacme]

/-- What is left to show when a span was freed. -/
theorem Talloc.InOrder.frees (h : t.InOrder K J) {p q : Int} (hrun : t.release m = .ok t')
    (hinv : SideInv t.toArena K J pos t') (hp : Aligned J p) (hq : Aligned J q)
    (hcov : ∀ x, Covers (t'.FreeBlock K) x ↔ (p ≤ x ∧ x < q) ∨ Covers (t.FreeBlock K) x)
    (hspan : ∀ s, Aligned J s → ((p ≤ s ∧ s + 2 ^ J ≤ q) ↔
      (m.ptr ≤ s ∧ s + 2 ^ J ≤ m.ptr + m.len) ∧ s ≠ 0)) : FreesExactly t m := by
  have hsm := h.framed.smlst
  refine ⟨t', hrun, hinv.listedOnce h.framed, fun s hs => ?_⟩
  rw [hsm, cast_two_pow] at hs ⊢
  have hfree : ∀ x, t'.Free x ↔ (p ≤ x ∧ x < q) ∨ t.Free x := by
    intro x
    rw [hinv.free_iff h.framed, h.free_iff, hcov]
  rw [blockFree_of_span hsm (by rw [hinv.arena]; exact hsm) hp hq hfree hs, hspan s hs, and_assoc]

/-- No whole block in the slice, and an end on a block boundary. -/
theorem Talloc.InOrder.release_empty (h : t.InOrder K J) (hm : t.Reserves m)
    (heq : Talloc.spanBase J m = Talloc.spanAcme J m) : FreesExactly t m := by
  have hpos := two_pow_pos J
  have hrun : t.release m = .ok t := by
    unfold Talloc.release
    rw [hm.toFits.head h.framed rfl, if_pos heq]
  refine h.frees (p := 0) (q := 0) hrun (h.side true) (dvd_zero _) (dvd_zero _) (fun x => ?_) ?_
  · exact ⟨Or.inr, fun hx => hx.elim (fun hc => absurd hc (by omega)) id⟩
  · intro s hs
    rw [block_in_slice_iff hs]
    omega

/-- Whole blocks on one side of address 0. -/
theorem Talloc.InOrder.release_side (pos : Bool) (h : t.InOrder K J) (hm : t.Reserves m)
    (hlt : Talloc.spanBase J m < Talloc.spanAcme J m)
    (hside : if pos = true then 0 < Talloc.spanBase J m else Talloc.spanAcme J m < 0) :
    FreesExactly t m := by
  have hpos := two_pow_pos J
  have hres : ∀ x, m.Mem x → ¬ Covers (t.FreeBlock K) x := fun x hx hc =>
    hm.reserved x hx ((h.free_iff x).mpr hc)
  obtain ⟨t', hrun, hdone⟩ :=
    hm.toFits.side h.framed (h.side pos) hlt hside hres h.statusIn hm.status
    (fun hc => h.status ((h.free_iff _).mpr hc)) 1
  refine h.frees (p := Talloc.spanBase J m) (q := Talloc.spanAcme J m) hrun hdone.inv
    (aligned_floorBlock J _) (aligned_floorBlock J _) hdone.covers ?_
  intro s hs
  rw [block_in_slice_iff hs]
  refine ⟨fun hc => ⟨hc, ?_⟩, And.left⟩
  cases pos with
  | false => simp only [Bool.false_eq_true, if_false] at hside; omega
  | true => simp only [if_true] at hside; omega

/-- The part of a slice that starts at address 0 behind the null block. -/
theorem slice_behind_null (hptr : m.ptr = 0) (hacme : 0 < Talloc.spanAcme J m) :
    2 ^ J ≤ m.len ∧ Talloc.spanBase J ⟨2 ^ J, m.len - 2 ^ J⟩ = 2 ^ J ∧
      Talloc.spanAcme J ⟨2 ^ J, m.len - 2 ^ J⟩ = Talloc.spanAcme J m := by
  have hle := Aligned.add_le_of_lt (dvd_zero _) (aligned_floorBlock J (m.ptr + m.len)) hacme
  obtain ⟨h3, _⟩ := Talloc.spanAcme_bounds J m
  have hlen : 2 ^ J ≤ m.len := by
    have : ((2 ^ J : Nat) : Int) ≤ m.len := by
      rw [cast_two_pow]
      unfold Talloc.spanAcme at h3
      omega
    exact_mod_cast this
  refine ⟨hlen, Talloc.spanBase_of_aligned (dvd_refl _), ?_⟩
  unfold Talloc.spanAcme
  congr 1
  dsimp only
  rw [hptr, Nat.cast_sub hlen, cast_two_pow]
  ring

/-- A slice that starts at address 0: the null block is left out. -/
theorem Talloc.InOrder.release_from_null (h : t.InOrder K J) (hm : t.Reserves m)
    (hptr : m.ptr = 0) (hacme : 0 < Talloc.spanAcme J m) : FreesExactly t m := by
  have hf := h.framed
  have hpos := two_pow_pos J
  have hlo := hm.lo
  have hhi := hm.hi
  have hhigh := hm.high
  have hb0 : Talloc.spanBase J m = 0 := (Talloc.spanBase_of_aligned (hptr ▸ dvd_zero _)).trans hptr
  obtain ⟨hlen, hsb, hsa⟩ := slice_behind_null hptr hacme
  have hcast := cast_two_pow J
  have hrest : ((m.len - 2 ^ J : Nat) : Int) = m.len - 2 ^ J := by
    rw [Nat.cast_sub hlen, hcast]
  have hpow := hf.pow_le
  have hnone : Fits t.toArena ⟨0, 0⟩ :=
    ⟨by dsimp only; omega, by dsimp only; omega, by norm_num, by norm_num⟩
  have htail : Fits t.toArena ⟨2 ^ J, m.len - 2 ^ J⟩ :=
    ⟨by dsimp only; omega, by dsimp only; omega, by dsimp only; omega, by dsimp only; omega⟩
  have hfirst : Talloc.releaseRec 1 t ⟨0, 0⟩ = .ok t := by
    rw [hnone.head hf rfl, Talloc.spanBase_of_aligned (dvd_zero _),
      Talloc.spanAcme_of_aligned (dvd_zero _) (dvd_zero _)]
    rfl
  have hrec : t.release m = Talloc.releaseRec 1 t ⟨2 ^ J, m.len - 2 ^ J⟩ := by
    have htake : m.take (0 - Talloc.spanBase J m).toNat = .ok ⟨0, 0⟩ := by
      rw [hb0, Slice.take, if_pos (show (0 - 0 : Int).toNat ≤ m.len from Nat.zero_le _), hptr]
      rfl
    have hdrop : m.drop ((t.smlstBlock : Int) - Talloc.spanBase J m).toNat
        = .ok ⟨2 ^ J, m.len - 2 ^ J⟩ := by
      rw [hb0, hf.smlst, Int.sub_zero, Int.toNat_natCast]
      unfold Slice.drop
      rw [if_pos hlen, hptr, wrappingAdd_of_inIsize ⟨by omega, by omega⟩, zero_add, hcast]
    unfold Talloc.release
    rw [hm.toFits.head hf rfl, if_neg (by omega), if_pos ⟨by omega, hacme⟩, htake, ok_bind, hfirst,
      ok_bind, hdrop, ok_bind]
  -- the blocks of the slice are those behind the null block
  have hspan : ∀ s, Aligned J s → ((2 ^ J ≤ s ∧ s + 2 ^ J ≤ Talloc.spanAcme J m) ↔
      (m.ptr ≤ s ∧ s + 2 ^ J ≤ m.ptr + m.len) ∧ s ≠ 0) := by
    intro s hs
    rw [block_in_slice_iff hs, hb0]
    have hge : 0 < s → 0 + 2 ^ J ≤ s := Aligned.add_le_of_lt (dvd_zero _) hs
    omega
  by_cases heq : 2 ^ J = Talloc.spanAcme J m
  · have hrun : t.release m = .ok t := by rw [hrec, htail.head hf rfl, hsb, hsa, if_pos heq]
    refine h.frees (p := 2 ^ J) (q := Talloc.spanAcme J m) hrun (h.side true) (dvd_refl _)
      (aligned_floorBlock J _) (fun x => ?_) hspan
    · exact ⟨Or.inr, fun hx => hx.elim (fun hc => absurd hc (by omega)) id⟩
  · have hge := Aligned.add_le_of_lt (dvd_zero _) (aligned_floorBlock J (m.ptr + m.len)) hacme
    have hmem : ∀ {x}, (⟨2 ^ J, m.len - 2 ^ J⟩ : Slice).Mem x → m.Mem x := by
      intro x hx
      obtain ⟨h1, h2⟩ := hx
      dsimp only at h1 h2
      exact ⟨by omega, by omega⟩
    obtain ⟨t', hrun, hdone⟩ := htail.side hf (h.side true) (y := t.llistsPtr)
      (by rw [hsb, hsa]; unfold Talloc.spanAcme at *; omega) (by rw [hsb]; simp)
      (fun x hx hc => hm.reserved x (hmem hx) ((h.free_iff x).mpr hc)) h.statusIn
      (fun hc => hm.status (hmem hc)) (fun hc => h.status ((h.free_iff _).mpr hc)) 0
    rw [← hrec] at hrun
    have hcov := hdone.covers
    rw [hsb, hsa] at hcov
    exact h.frees hrun hdone.inv (dvd_refl _) (aligned_floorBlock J _) hcov hspan

/-- A first part that was taken. -/
theorem Slice.take_ok {n : Nat} {s : Slice} (h : m.take n = .ok s) :
    n ≤ m.len ∧ s = ⟨m.ptr, n⟩ := by
  unfold Slice.take at h
  split at h
  · cases h
    exact ⟨‹_›, rfl⟩
  · cases h

/-- A rest that was left. -/
theorem Slice.drop_ok {n : Nat} {s : Slice} (h : m.drop n = .ok s) :
    n ≤ m.len ∧ s = ⟨wrappingAdd m.ptr n, m.len - n⟩ := by
  unfold Slice.drop at h
  split at h
  · cases h
    exact ⟨‹_›, rfl⟩
  · cases h

/-- The lower part of a slice across address 0 never has its last block freed. -/
theorem Talloc.InOrder.lower_part (h : t.InOrder K J) (hm : t.Reserves m) (hneg : m.ptr < 0)
    (hb : Talloc.spanBase J m ≤ 0) (ha : 0 < Talloc.spanAcme J m) {u : Talloc FreeLists}
    (hrun : Talloc.releaseRec 1 t ⟨m.ptr, (0 - Talloc.spanBase J m).toNat⟩ = .ok u) :
    u.toArena = t.toArena ∧ Talloc.spanBase J m ≤ -2 ^ J ∧ ¬ u.Free (-2 ^ J) := by
  obtain ⟨h1, h2⟩ := Talloc.spanBase_bounds J m
  obtain ⟨h3, h4⟩ := Talloc.spanAcme_bounds J m
  have hf := h.framed
  have hpos := two_pow_pos J
  have hlo := hm.lo
  have hhi := hm.hi
  have hlow := hm.low
  have hhigh := hm.high
  have hlen : (((0 - Talloc.spanBase J m).toNat : Nat) : Int) = - Talloc.spanBase J m := by omega
  have hfit : Fits t.toArena ⟨m.ptr, (0 - Talloc.spanBase J m).toNat⟩ :=
    ⟨hlo, by dsimp only; omega, hlow, by dsimp only; omega⟩
  have hal : Aligned J (Talloc.spanBase J m) := aligned_floorBlock J _
  have hbase : Talloc.spanBase J ⟨m.ptr, (0 - Talloc.spanBase J m).toNat⟩ = Talloc.spanBase J m :=
    rfl
  have hacme : Talloc.spanAcme J ⟨m.ptr, (0 - Talloc.spanBase J m).toNat⟩
      = floorBlock J (m.ptr - Talloc.spanBase J m) := by
    unfold Talloc.spanAcme
    dsimp only
    rw [hlen]
    rfl
  rcases Int.lt_or_le m.ptr (Talloc.spanBase J m) with hlt | hge
  · -- the part ends inside the last block below 0
    have hend : floorBlock J (m.ptr - Talloc.spanBase J m) = -2 ^ J :=
      (aligned_floorBlock J _).eq_of_within (dvd_neg.mpr (dvd_refl _)) (within_floorBlock J _)
        ⟨by omega, by omega⟩
    rw [hend] at hacme
    have hout : Talloc.spanBase J m ≤ -2 ^ J → ¬ Covers (t.FreeBlock K) (-2 ^ J) := fun hle hc =>
      hm.reserved (-2 ^ J) ⟨by omega, by omega⟩ ((h.free_iff _).mpr hc)
    rcases Int.lt_trichotomy (Talloc.spanBase J m) (-2 ^ J) with hlt' | heq | hgt
    · have hmem : ∀ {x}, (⟨m.ptr, (0 - Talloc.spanBase J m).toNat⟩ : Slice).Mem x → m.Mem x := by
        intro x hx
        obtain ⟨hx1, hx2⟩ := hx
        dsimp only at hx1 hx2
        exact ⟨hx1, by omega⟩
      obtain ⟨u', hrun', hdone⟩ := hfit.side hf (h.side false) (y := t.llistsPtr)
        (by rw [hbase, hacme]; exact hlt') (by rw [hacme]; simp)
        (fun x hx hc => hm.reserved x (hmem hx) ((h.free_iff x).mpr hc)) h.statusIn
        (fun hc => hm.status (hmem hc)) (fun hc => h.status ((h.free_iff _).mpr hc)) 0
      rw [hrun] at hrun'
      cases hrun'
      refine ⟨hdone.inv.arena, Int.le_of_lt hlt', ?_⟩
      rw [hdone.inv.free_iff hf, hdone.covers, hacme]
      intro hc
      rcases hc with hc | hc
      · omega
      · exact hout (Int.le_of_lt hlt') hc
    · rw [hfit.head hf rfl, if_pos (hbase.trans (heq.trans hacme.symm))] at hrun
      cases hrun
      refine ⟨rfl, Int.le_of_eq heq, ?_⟩
      rw [h.free_iff]
      exact hout (Int.le_of_eq heq)
    · obtain ⟨f, herr⟩ := hfit.short hf (u := t) rfl (by rw [hbase, hacme]; exact hgt) 0
      rw [herr] at hrun
      cases hrun
  · -- the slice starts on a block, and the part ends at 0
    have hend : floorBlock J (m.ptr - Talloc.spanBase J m) = 0 := by
      rw [show m.ptr - Talloc.spanBase J m = 0 by omega]
      exact floorBlock_of_aligned (dvd_zero _)
    exact absurd hrun (hfit.toNull hf rfl (by rw [hbase]; omega) (hacme.trans hend) 0 u)

/-- A slice that starts below address 0 and reaches above it. -/
theorem Talloc.InOrder.release_across (h : t.InOrder K J) (hm : t.Reserves m) (hneg : m.ptr < 0)
    (hb : Talloc.spanBase J m ≤ 0) (ha : 0 < Talloc.spanAcme J m) : ¬ FreesExactly t m := by
  intro hfrees
  obtain ⟨t', hrun, _, hblocks⟩ := hfrees
  obtain ⟨h1, h2⟩ := Talloc.spanBase_bounds J m
  obtain ⟨h3, h4⟩ := Talloc.spanAcme_bounds J m
  have hf := h.framed
  have hpos := two_pow_pos J
  have hcast := cast_two_pow J
  have hlo := hm.lo
  have hhi := hm.hi
  have hlow := hm.low
  have hhigh := hm.high
  unfold Talloc.release at hrun
  rw [hm.toFits.head hf rfl, if_neg (by omega), if_pos ⟨hb, ha⟩] at hrun
  obtain ⟨lower, hlower, hrun⟩ := bind_ok hrun
  obtain ⟨_, rfl⟩ := Slice.take_ok hlower
  obtain ⟨u, hu, hrun⟩ := bind_ok hrun
  obtain ⟨upper, hupper, hrun⟩ := bind_ok hrun
  obtain ⟨hn, rfl⟩ := Slice.drop_ok hupper
  obtain ⟨harena, hle, hout⟩ := h.lower_part hm hneg hb ha hu
  -- the upper part starts above 0
  have hsm : u.smlstBlock = 2 ^ J := by
    rw [harena]
    exact hf.smlst
  rw [hsm, hcast] at hn hrun
  have hstep : (((2 ^ J - Talloc.spanBase J m).toNat : Nat) : Int) =
      2 ^ J - Talloc.spanBase J m := by
    omega
  have hpow := hf.pow_le
  rw [wrappingAdd_of_inIsize ⟨by omega, by omega⟩, hstep] at hrun
  have hfit : Fits t.toArena ⟨m.ptr + (2 ^ J - Talloc.spanBase J m),
      m.len - (2 ^ J - Talloc.spanBase J m).toNat⟩ :=
    ⟨by dsimp only; omega, by dsimp only; omega, by dsimp only; omega, by dsimp only; omega⟩
  have hub := (Talloc.spanBase_bounds J ⟨m.ptr + (2 ^ J - Talloc.spanBase J m),
    m.len - (2 ^ J - Talloc.spanBase J m).toNat⟩).1
  dsimp only at hub
  obtain ⟨harena', hlist⟩ := hfit.above hf (by omega) harena hrun
  -- so the last block below 0 is not listed
  have hneed := (hblocks (-2 ^ J) (by rw [hf.smlst, hcast]; exact dvd_neg.mpr (dvd_refl _))).mpr
    (Or.inr ⟨by omega, by rw [hf.smlst, hcast]; omega, by omega⟩)
  have hsm' : t'.smlstBlock = 2 ^ J := by
    rw [harena']
    exact hf.smlst
  obtain ⟨g, b, hmem, hb1, hb2⟩ := hneed (-2 ^ J) (le_refl _) (by rw [hsm', hcast]; omega)
  refine hout ⟨g, b, hlist hmem (by omega), hb1, ?_⟩
  rw [harena', ← harena] at hb2
  exact hb2

/-- `release` frees exactly the whole blocks of the slice but the null block, exactly
when the slice reaches a block boundary and its whole blocks, if any, lie on one side
of address 0 without ending there, or the slice starts at address 0. -/
theorem release_frees_iff (h : t.InOrder K J) (hm : t.Reserves m) :
    FreesExactly t m ↔ ReleaseMeets t m := by
  have hf := h.framed
  obtain ⟨h1, h2⟩ := Talloc.spanBase_bounds J m
  rw [releaseMeets_iff hf.smlst]
  rcases Int.lt_trichotomy (Talloc.spanBase J m) (Talloc.spanAcme J m) with hlt | heq | hgt
  · rcases Int.lt_or_le 0 (Talloc.spanBase J m) with hb | hb
    · exact iff_of_true (h.release_side true hm hlt (by simpa using hb))
        ⟨Int.le_of_lt hlt, Or.inr (Or.inl hb)⟩
    · rcases Int.lt_trichotomy (Talloc.spanAcme J m) 0 with ha | ha | ha
      · exact iff_of_true (h.release_side false hm hlt (by simpa using ha))
          ⟨Int.le_of_lt hlt, Or.inr (Or.inr (Or.inl ha))⟩
      · refine iff_of_false ?_ (by omega)
        intro hfrees
        obtain ⟨t', hrun, _⟩ := hfrees
        exact hm.toFits.toNull hf rfl (by omega) ha 1 t' hrun
      · rcases Int.lt_trichotomy m.ptr 0 with hp | hp | hp
        · exact iff_of_false (h.release_across hm hp hb ha) (by omega)
        · exact iff_of_true (h.release_from_null hm hp ha)
            ⟨Int.le_of_lt hlt, Or.inr (Or.inr (Or.inr hp))⟩
        · omega
  · exact iff_of_true (h.release_empty hm heq) ⟨Int.le_of_eq heq, Or.inl heq⟩
  · refine iff_of_false ?_ (by omega)
    intro hfrees
    obtain ⟨t', hrun, _⟩ := hfrees
    obtain ⟨f, herr⟩ := hm.toFits.short hf (u := t) rfl hgt 1
    unfold Talloc.release at hrun
    rw [herr] at hrun
    cases hrun

end Iff

/-! ## On the sample heap

All of it is taken, and parts of the block at 4224 are released.
-/

/-- The states of a run are in order. -/
theorem Accounted.inOrder {K J : Nat} {L : Ledger} {t : Talloc FreeLists} (h : Accounted K J L t) :
    t.InOrder K J where
  framed := h.inv.nat.framed
  slen := h.inv.slen
  sblen := h.inv.sblen.trans h.inv.blen
  nodup := h.inv.nodup
  holds := h.inv.holds
  canon := h.inv.canon
  bits hJ he ha hb :=
    ⟨_, h.inv.offset he hb, h.inv.bit_iff he ha hb.1 (h.inv.nat.lt_of_holds hb)⟩
  null hc := by
    have hgiven := (h.account 0).mp (Or.inl ((h.inv.free_iff 0).mp hc))
    exact hgiven.not_null (within_base J 0)
  statusIn := h.statusIn
  status hc := h.status_out.1 ((h.inv.free_iff _).mp hc)

/-- Memory of the full sample heap is reserved. -/
theorem sampleFull_reserves {m : Slice} (hfit : Fits sampleFull.toArena m)
    (hst : ¬ m.Mem sampleFull.llistsPtr) : sampleFull.Reserves m := by
  refine ⟨hfit, fun x _ hc => ?_, hst⟩
  obtain ⟨g, b, hb, _⟩ := hc
  have hall : ∀ g < 6, sampleFull.list g = [] := by decide
  rw [hall g (Talloc.lt_of_mem_list hb)] at hb
  cases hb

/-- A slice that is not aligned: the blocks inside are freed. -/
theorem release_frees_sample :
    sampleFull.Reserves ⟨4225, 120⟩ ∧ FreesExactly sampleFull ⟨4225, 120⟩ := by
  obtain ⟨K, J, hacc, _⟩ := sampleFull_run.accounted
  have hm : sampleFull.Reserves ⟨4225, 120⟩ :=
    sampleFull_reserves ⟨by decide, by decide, by decide, by decide⟩ (by decide)
  refine ⟨hm, (release_frees_iff hacc.inOrder hm).mpr ?_⟩
  unfold ReleaseMeets
  decide

/-- Three bytes in the middle of a block: `release` panics. -/
theorem release_short_panics : (∃ K J, sampleFull.InOrder K J) ∧ sampleFull.Reserves ⟨4225, 3⟩ ∧
    sampleFull.release ⟨4225, 3⟩ = .error .underflow ∧ ¬ FreesExactly sampleFull ⟨4225, 3⟩ := by
  obtain ⟨K, J, hacc, _⟩ := sampleFull_run.accounted
  have hrun : sampleFull.release ⟨4225, 3⟩ = .error .underflow := by decide +kernel
  refine ⟨⟨K, J, hacc.inOrder⟩,
    sampleFull_reserves ⟨by decide, by decide, by decide, by decide⟩ (by decide), hrun,
      fun hfrees => ?_⟩
  obtain ⟨t', hok, _⟩ := hfrees
  rw [hrun] at hok
  cases hok

end Tauos.Memm
