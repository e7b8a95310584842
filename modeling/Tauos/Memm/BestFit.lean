import Tauos.Memm.Exhaustion

/-!
# `alloc` under the refusing handler

`mapper_oom_handler` always refuses, so `alloc` has to do with what is free.
`alloc_best_fit`: it returns a block exactly when some list holds one that is large
enough; it takes a smallest such block, and the lists afterwards are the lists before
with that block gone and the upper halves of its repeated halving put back.

The lists are followed step by step (`addBlockNext_list`, `breakDown_list`), the
choice of the block is the highest bit of `avails` below the granularity
(`Inv.bestFit_larger`).
-/

namespace Tauos.Memm

open Tauos.Rust Tauos.Utils Tauos.Buddy

/-- `mapper_oom_handler`. -/
def mapperOomHandler {ω σ : Type} : OomHandler ω σ := fun w t _ => .ok (false, w, t)

namespace Talloc

variable {K J e : Nat} {t t' : Talloc FreeLists}

/-- Breaking a block down puts one upper half into each list passed. -/
theorem breakDown_list {b : Int} : ∀ (count : Nat) {t : Talloc FreeLists} {g size : Nat},
    breakDown b count g size t = .ok t' → ∀ g', t'.list g' =
      if g ≤ g' ∧ g' < g + count then wrappingAdd b (size >>> (g' - g)) :: t.list g'
      else t.list g' := by
  intro count
  induction count with
  | zero =>
    intro t g size h g'
    cases h
    rw [if_neg (by omega)]
  | succ count ih =>
    intro t g size h g'
    obtain ⟨i, _, h⟩ := bind_ok h
    obtain ⟨t₁, hadd, h⟩ := bind_ok h
    have hlist := addBlockNext_list hadd g'
    rw [ih h g', hlist]
    by_cases hg : g' = g
    · subst hg
      rw [if_neg (by omega), if_pos rfl, if_pos (by omega), Nat.sub_self]
      rfl
    · rw [if_neg hg]
      by_cases hin : g + 1 ≤ g' ∧ g' < g + 1 + count
      · rw [if_pos hin, if_pos (by omega), ← Nat.shiftRight_add,
          show 1 + (g' - (g + 1)) = g' - g by omega]
      · rw [if_neg hin, if_neg (by omega)]

/-- `alloc` has taken the block at `p` out of the list of granularity `g`: a smallest
block of at least `size` bytes. What it has put back are the upper halves of the block
and of its lower halves, down to `size`. -/
structure BestFit (size g : Nat) (p : Int) (t t' : Talloc FreeLists) : Prop where
  mem : p ∈ t.list g
  fits : size ≤ t.arenaSizePow2 >>> g
  least : ∀ g' b, b ∈ t.list g' → size ≤ t.arenaSizePow2 >>> g' →
    t.arenaSizePow2 >>> g ≤ t.arenaSizePow2 >>> g'
  lists : ∀ g', t'.list g' =
    if g' = g then (t.list g).erase p
    else if g < g' ∧ size ≤ t.arenaSizePow2 >>> g' then
      (p + (t.arenaSizePow2 >>> g' : Nat)) :: t.list g'
    else t.list g'

/-- A block of exactly the size is taken whole. -/
theorem Inv.bestFit_exact (h : Inv K J t) (heK : e ≤ K) (hne : t.list (K - e) ≠ []) :
    ∃ p t', t.removeBlockNext (K - e) (2 ^ e) = .ok (p, t') ∧ BestFit (2 ^ e) (K - e) p t t' ∧
      Taken K J e t p t' := by
  obtain ⟨p, hF, hrem, htk⟩ := removeBlockNext_spec h heK hne
  have hsize : t.arenaSizePow2 >>> (K - e) = 2 ^ e := by
    rw [h.soundAt.blockSize (by omega), show K - (K - e) = e by omega]
  refine ⟨p, _, hrem, ⟨hF.2, by rw [hsize], fun g' b _ hle => by rw [hsize]; exact hle, ?_⟩, htk⟩
  intro g'
  rw [list_removed (lt_of_mem_list hF.2)]
  by_cases hg : g' = K - e
  · rw [if_pos hg, if_pos hg]
  · have hiff := h.soundAt.le_blockSize_iff (e := e) (g := g')
    rw [if_neg hg, if_neg hg, if_neg (by rw [hiff]; omega)]

/-- The highest bit of `avails` below the granularity names the list of the smallest
larger blocks, of which one is split. -/
theorem Inv.bestFit_larger (h : Inv K J t) (hJe : J ≤ e) (heK : e ≤ K) (hno : t.list (K - e) = [])
    (hne : t.avails &&& ((1 <<< (K - e)) - 1) ≠ 0) :
    ∃ g p t₁ t', fastNon0Log2 (t.avails &&& ((1 <<< (K - e)) - 1)) = g ∧
      t.removeBlockNext g (t.arenaSizePow2 >>> g) = .ok (p, t₁) ∧
      breakDown p (K - e - g) (g + 1) (t.arenaSizePow2 >>> g >>> 1) t₁ = .ok t' ∧
      BestFit (2 ^ e) g p t t' ∧ Taken K J e t p t' := by
  obtain ⟨e', hlt, he'K, hlog, hne'⟩ := h.larger hne
  obtain ⟨p, t₁, t', hrem, hbr, htk⟩ := split_spec h hJe hlt he'K hne'
  obtain ⟨q, hF, hrem', _⟩ := removeBlockNext_spec h he'K hne'
  have hsizes : ∀ {g}, g ≤ K → t.arenaSizePow2 >>> g = 2 ^ (K - g) := h.soundAt.blockSize
  have hsize : t.arenaSizePow2 >>> (K - e') = 2 ^ e' := by
    rw [hsizes (by omega), show K - (K - e') = e' by omega]
  -- the block removed is the first of its list
  have heq : (p, t₁) = (q, t.removed (K - e') (bitIndex K t.arenaBase e' q) q) := by
    rw [hsize] at hrem
    exact Except.ok.inj (hrem.symm.trans hrem')
  obtain ⟨rfl, rfl⟩ := Prod.mk.inj heq
  have hsmall : ∀ {k}, k ≤ e' → (2 : Nat) ^ k ≤ 2 ^ e' := fun hk =>
    Nat.pow_le_pow_right (by norm_num) hk
  refine ⟨K - e', p, _, t', hlog, hrem, hbr, ⟨hF.2, ?_, fun g' b hb hle => ?_, fun g' => ?_⟩, htk⟩
  · rw [hsize]
    exact hsmall (Nat.le_of_lt hlt)
  · -- no list between the two granularities is occupied
    obtain ⟨hg', _⟩ := h.freeBlock_of_mem hb
    rw [h.soundAt.le_blockSize_iff] at hle
    have hbit := (h.avail g').mpr (List.ne_nil_of_mem hb)
    have hg'e : g' ≠ K - e := by
      rintro rfl
      rw [hno] at hb
      cases hb
    have hmask : (t.avails &&& ((1 <<< (K - e)) - 1)).testBit g' = true := by
      rw [Nat.one_shiftLeft, Nat.and_two_pow_sub_one_eq_mod, Nat.testBit_mod_two_pow, hbit,
        decide_eq_true (show g' < K - e by omega)]
      rfl
    have hlog2 := (Nat.le_log2 hne).mpr (Nat.ge_two_pow_of_testBit hmask)
    have h64 : t.avails &&& ((1 <<< (K - e)) - 1) < 2 ^ 64 := by
      have hK := h.nat.hK
      rw [Nat.one_shiftLeft, Nat.and_two_pow_sub_one_eq_mod]
      exact Nat.lt_of_lt_of_le (Nat.mod_lt _ (Nat.two_pow_pos _))
        (Nat.pow_le_pow_right (by norm_num) (by omega))
    rw [fastNon0Log2_eq hne h64] at hlog
    rw [hsize, h.soundAt.le_blockSize_iff]
    omega
  · obtain ⟨hb1, hb2⟩ := h.holds hF
    rw [breakDown_list _ hbr, list_removed (lt_of_mem_list hF.2)]
    by_cases hg : g' = K - e'
    · rw [if_neg (by omega), if_pos hg, if_pos hg]
    · rw [if_neg hg, if_neg hg]
      by_cases hin : K - e' + 1 ≤ g' ∧ g' < K - e' + 1 + (K - e - (K - e'))
      · have hsize' := hsizes (show g' ≤ K by omega)
        have hin' : K - e' < g' ∧ 2 ^ e ≤ t.arenaSizePow2 >>> g' := by
          rw [h.soundAt.le_blockSize_iff]
          omega
        rw [if_pos hin, if_pos hin', ← Nat.shiftRight_add, ← Nat.shiftRight_add,
          show K - e' + (1 + (g' - (K - e' + 1))) = g' by omega, wrappingAdd_of_inIsize]
        have hupper : ((2 ^ (K - g') : Nat) : Int) ≤ ((2 ^ e' : Nat) : Int) := by
          exact_mod_cast hsmall (show K - g' ≤ e' by omega)
        rw [hsize']
        push_cast at hupper ⊢
        have hpos := two_pow_pos (K - g')
        exact h.nat.inIsize (by omega) (by omega)
      · have hiff := h.soundAt.le_blockSize_iff (e := e) (g := g')
        rw [if_neg hin, if_neg (by rw [hiff]; omega)]

/-- The block is not at address 0. -/
theorem BestFit.nonNull {size g : Nat} {p : Int} (h : BestFit size g p t t') (hpos : 0 < size)
    (hnull : ¬ t.Free 0) : nonNull p = .ok p := by
  refine if_neg fun hp => hnull ⟨g, p, h.mem, ?_, ?_⟩
  · omega
  · have := h.fits
    omega

end Talloc

/-- The second loop under the refusing handler. -/
theorem findLoop_refusing {ω σ : Type} {t : Talloc σ} {l : Layout} (w : ω) (size fuel g : Nat) :
    Talloc.findLoop mapperOomHandler l size (fuel + 1) g w t =
      if t.avails &&& ((1 <<< g) - 1) = 0 then .ok (none, w, t)
      else .ok (some (g, t.avails &&& ((1 <<< g) - 1)), w, t) := by
  dsimp only [Talloc.findLoop]
  split <;> rfl

/-- `alloc` under the refusing handler takes a best fit, or there is none. -/
theorem alloc_refusing {ω : Type} {K J e : Nat} {t : Talloc FreeLists} {l : Layout}
    (h : Talloc.Inv K J t) (hnull : ¬ t.Free 0) (hsize : t.layoutToSize l = 2 ^ e) (hJe : J ≤ e)
    (w : ω) (fuel : Nat) :
    (Talloc.alloc mapperOomHandler (fuel + 1) w t l = .ok (none, w, t) ∧ ¬ t.Offers (2 ^ e)) ∨
    ∃ p g t', Talloc.alloc mapperOomHandler (fuel + 1) w t l = .ok (some p, w, t') ∧
      Talloc.BestFit (2 ^ e) g p t t' ∧ Talloc.Taken K J e t p t' ∧ e ≤ K := by
  have hs := h.soundAt
  -- more than the arena: `grow` is asked, and refuses
  by_cases hlt : t.arenaSize < 2 ^ e
  · refine Or.inl ⟨?_, ?_⟩
    · dsimp only [Talloc.alloc, Talloc.growLoop]
      rw [hsize, if_pos hlt]
      rfl
    · rintro ⟨g, b, hb, hle⟩
      obtain ⟨hg, hfit⟩ := hs.fits hb
      rw [hs.blockSize hg] at hle
      omega
  obtain ⟨heK, hg⟩ := hs.granularity (Nat.not_lt.mp hlt)
  have halloc : Talloc.alloc mapperOomHandler (fuel + 1) w t l
      = Talloc.allocBlock mapperOomHandler l (2 ^ e) (fuel + 1) w t := by
    dsimp only [Talloc.alloc, Talloc.growLoop]
    rw [hsize, if_neg hlt]
    rfl
  rw [halloc]
  unfold Talloc.allocBlock
  rw [hg, ok_bind]
  have hexact := hs.exact_iff heK
  -- a block of the size itself is the best fit
  by_cases hex : t.avails &&& (1 <<< (K - e)) ≠ 0
  · have hne : t.list (K - e) ≠ [] := (hs.list_ne_nil_iff heK).mpr (hexact.mp hex)
    obtain ⟨p, t', hrem, hbest, htk⟩ := h.bestFit_exact heK hne
    refine Or.inr ⟨p, K - e, t', ?_, hbest, htk, heK⟩
    rw [if_pos hex, hrem, ok_bind]
    dsimp only
    rw [hbest.nonNull (Nat.two_pow_pos e) hnull]
    rfl
  · rw [if_neg hex, findLoop_refusing]
    -- otherwise the lowest bit above is the smallest larger block
    by_cases hz : t.avails &&& ((1 <<< (K - e)) - 1) = 0
    · refine Or.inl ⟨?_, ?_⟩
      · rw [if_pos hz]
        rfl
      · rintro ⟨g, b, hb, hle⟩
        rcases Nat.eq_or_lt_of_le hle with heq | hgt
        · exact hex (hexact.mpr ⟨g, b, hb, heq.symm⟩)
        · exact (hs.larger_iff heK).mp hz ⟨g, b, hb, hgt⟩
    · have hno : t.list (K - e) = [] := by
        by_contra hcon
        exact hex (hexact.mpr ((hs.list_ne_nil_iff heK).mp hcon))
      obtain ⟨g, p, t₁, t', rfl, hrem, hbr, hbest, htk⟩ := h.bestFit_larger hJe heK hno hz
      refine Or.inr ⟨p, _, t', ?_, hbest, htk, heK⟩
      rw [if_neg hz, ok_bind]
      dsimp only
      rw [hrem, ok_bind]
      dsimp only
      rw [hbr, ok_bind, hbest.nonNull (Nat.two_pow_pos e) hnull]
      rfl

/-- With a handler that refuses, `alloc` succeeds exactly when some free block is large
enough. It then takes a smallest such block and puts back the halves it does not need;
otherwise nothing changes. -/
theorem alloc_best_fit {ω : Type} {K J : Nat} {t : Talloc FreeLists} {l : Layout}
    (h : Talloc.Inv K J t) (hnull : ¬ t.Free 0) (hl : l.Valid) (h0 : l.size ≠ 0) (w : ω)
    (fuel : Nat) :
    ∃ r t', Talloc.alloc mapperOomHandler (fuel + 1) w t l = .ok (r, w, t') ∧
      (r.isSome = true ↔ t.Offers (t.layoutToSize l)) ∧
      (r = none → t' = t) ∧
      ∀ p, r = some p → ∃ g, Talloc.BestFit (t.layoutToSize l) g p t t' ∧ Talloc.Inv K J t' := by
  have hs := h.soundAt
  obtain ⟨e, hsize, hJe, _⟩ := layoutToSize_spec (a := t.toArena) hl h0 hs.smlst hs.hJ
  rw [hsize]
  rcases alloc_refusing h hnull hsize hJe w fuel with ⟨hrun, hoff⟩ | ⟨p, g, t', hrun, hbest, htk, _⟩
  · refine ⟨none, t, hrun, ?_, fun _ => rfl, fun p hp => by cases hp⟩
    simp [hoff]
  · refine ⟨some p, t', hrun, ?_, (fun hc => by cases hc), fun q hq => ?_⟩
    · exact ⟨fun _ => ⟨g, p, hbest.mem, hbest.fits⟩, fun _ => rfl⟩
    · cases hq
      exact ⟨g, hbest, htk.inv⟩

/-- Forty bytes of the sample heap. -/
theorem alloc_best_fit_sample : ∃ K J r t',
    Talloc.alloc mapperOomHandler 1 () sampleNew ⟨40, 8⟩ = .ok (r, (), t') ∧
      (r.isSome = true ↔ sampleNew.Offers (sampleNew.layoutToSize ⟨40, 8⟩)) ∧
      (r = none → t' = sampleNew) ∧
      ∀ p, r = some p → ∃ g, Talloc.BestFit (sampleNew.layoutToSize ⟨40, 8⟩) g p sampleNew t' ∧
        Talloc.Inv K J t' := by
  obtain ⟨K, J, hacc, _⟩ := sample_run.accounted
  have hnull : ¬ sampleNew.Free 0 := by decide +kernel
  exact ⟨K, J, alloc_best_fit hacc.inv hnull ⟨⟨3, rfl⟩, by decide⟩ (by decide) () 0⟩

end Tauos.Memm
