import Mathlib.Tactic.IntervalCases
import Tauos.Init.Heap
import Tauos.Memm.Construct
import Tauos.Memm.Halting

/-!
# The growth of a heap

`oom_handler` computes the size to grow to, asks `req_free_mem` how much of the growth the
new status data needs, and calls `extend`, which computes for itself where the status data
goes.

* The two computations do not agree. `req_free_mem` counts the padding from `arena_base`,
  and 0 for an aligned one; `extend` counts it from `free_mem`, and 16 for an aligned one.
  `status_data_fits_iff` says when the status data fits all the same.
* Every growth makes the arena larger, and the limit stays a limit. So `alloc` asks for
  more memory only so many times (`alloc_terminates`).
-/

namespace Tauos.Init

open Tauos.Rust Tauos.Amd64 Tauos.Memm

/-! ## Room for the status data -/

/-- `inner` is a part of `outer`. -/
def Within (inner outer : Slice) : Prop :=
  outer.ptr ≤ inner.ptr ∧ inner.ptr + inner.len ≤ outer.ptr + outer.len

instance (inner outer : Slice) : Decidable (Within inner outer) :=
  inferInstanceAs (Decidable (_ ∧ _))

/-- `extend` has `llists` and `bitmap` inside of `free_mem`, and the slice that it releases is the
rest of `free_mem`. -/
def StatusFits (smlstBlock arenaSize : Nat) (freeMem : Slice) : Prop :=
  ∃ llBytes bmBytes, sliceBytes arenaSize smlstBlock = .ok (llBytes, bmBytes) ∧
    Within ⟨wrappingAdd freeMem.ptr (Talloc.llAlignOffset freeMem), llBytes⟩ freeMem ∧
    Within ⟨wrappingAdd (wrappingAdd freeMem.ptr (Talloc.llAlignOffset freeMem)) llBytes, bmBytes⟩
      freeMem ∧
    ∃ rest, freeMem.drop (Talloc.llAlignOffset freeMem + llBytes + bmBytes) = .ok rest ∧
      Within rest freeMem

/-- The padding in front of `llists` is no more than `req_free_mem` counts, and what `free_mem` has
over what `req_free_mem` asks for. -/
def PaddingFits (smlstBlock : Nat) (arenaBase : Int) (arenaSize : Nat) (freeMem : Slice) : Prop :=
  ∀ {req}, reqFreeMem smlstBlock arenaBase arenaSize = .ok req →
    16 - asUsize freeMem.ptr % 16 ≤ asUsize arenaBase % 16 + (freeMem.len - req)

variable {smlstBlock arenaSize req : Nat} {arenaBase : Int} {freeMem : Slice}

theorem statusFits_iff (hreq : reqFreeMem smlstBlock arenaBase arenaSize = .ok req)
    (hlen : req ≤ freeMem.len) (hlo : -2 ^ 63 ≤ freeMem.ptr)
    (hhi : freeMem.ptr + freeMem.len < 2 ^ 63) :
    StatusFits smlstBlock arenaSize freeMem ↔
      PaddingFits smlstBlock arenaBase arenaSize freeMem := by
  obtain ⟨⟨ll, bm⟩, hs, hret⟩ := bind_ok hreq
  have hval : asUsize arenaBase % 16 + ll + bm = req := Except.ok.inj hret
  have hoff : Talloc.llAlignOffset freeMem = 16 - asUsize freeMem.ptr % 16 := rfl
  have hbm : 1 ≤ bm := by
    obtain ⟨K, J, _, _, _, _, _, _, _, hr⟩ := sliceBytes_ok hs
    cases hr
    exact Nat.le_max_right _ _
  -- the sizes of the status data are those that `req_free_mem` adds up
  have hfits : PaddingFits smlstBlock arenaBase arenaSize freeMem ↔
      Talloc.llAlignOffset freeMem + ll + bm ≤ freeMem.len := by
    constructor
    · intro h
      have hle := h hreq
      omega
    · intro h req' hreq'
      rw [hreq] at hreq'
      cases hreq'
      omega
  rw [hfits]
  constructor
  · intro h
    obtain ⟨ll', bm', hs', _, _, rest, hdrop, _⟩ := h
    rw [hs] at hs'
    cases hs'
    unfold Slice.drop at hdrop
    split at hdrop
    next hle => exact hle
    next => cases hdrop
  · intro h
    -- no pointer to it wraps
    have h1 := wrappingAdd_of_inIsize (p := freeMem.ptr) (n := Talloc.llAlignOffset freeMem)
      ⟨by omega, by omega⟩
    have h2 := wrappingAdd_of_inIsize (p := freeMem.ptr + Talloc.llAlignOffset freeMem) (n := ll)
      ⟨by omega, by omega⟩
    have h3 := wrappingAdd_of_inIsize (p := freeMem.ptr)
      (n := Talloc.llAlignOffset freeMem + ll + bm)
      ⟨by omega, by omega⟩
    refine ⟨ll, bm, hs, ?_, ?_, _, if_pos h, ?_⟩
    · unfold Within
      dsimp only
      rw [h1]
      omega
    · unfold Within
      dsimp only
      rw [h1, h2]
      omega
    · unfold Within
      dsimp only
      rw [h3]
      omega

/-- The memory that a growth to `lgr` bytes adds. -/
def addedMem (a : Arena) (lgr : Nat) : Slice := ⟨a.arenaBase + a.arenaSize, lgr - a.arenaSize⟩

/-- The guard of `oom_handler`. -/
theorem lgrSize_guard {cfg : Cfg} {a : Arena} {lgr : Nat} (h : lgrSize cfg a = .ok (some lgr)) :
    ∃ req, reqFreeMem a.smlstBlock a.arenaBase lgr = .ok req ∧ a.arenaSize + req < lgr := by
  obtain ⟨double, _, h⟩ := bind_ok h
  obtain ⟨limit, _, h⟩ := bind_ok h
  obtain ⟨req, hreq, h⟩ := bind_ok h
  obtain ⟨rest, hrest, h⟩ := bind_ok h
  obtain ⟨_, rfl⟩ := usizeSub_ok hrest
  split at h
  next hguard =>
    cases h
    exact ⟨req, hreq, by omega⟩
  next => cases h

/-- With a `free_mem` in the arena that is as long as `req_free_mem` asks for, and likewise in a
growth that `oom_handler` lets through, the status data fits if and only if its padding does. -/
theorem status_data_fits_iff (hreq : reqFreeMem smlstBlock arenaBase arenaSize = .ok req)
    (hlo : -2 ^ 63 ≤ arenaBase) (hhi : arenaBase + arenaSize < 2 ^ 63)
    (hin : Within freeMem ⟨arenaBase, arenaSize⟩) (hlen : req ≤ freeMem.len) :
    (StatusFits smlstBlock arenaSize freeMem ↔ PaddingFits smlstBlock arenaBase arenaSize freeMem) ∧
    ∀ {cfg : Cfg} {a : Arena} {lgr : Nat}, lgrSize cfg a = .ok (some lgr) → -2 ^ 63 ≤ a.arenaBase →
      a.arenaBase + lgr < 2 ^ 63 →
      (StatusFits a.smlstBlock lgr (addedMem a lgr) ↔
        PaddingFits a.smlstBlock a.arenaBase lgr (addedMem a lgr)) := by
  obtain ⟨h1, h2⟩ := hin
  dsimp only at h1 h2
  refine ⟨statusFits_iff hreq hlen (by omega) (by omega), fun {cfg a lgr} hgrown hlo' hhi' => ?_⟩
  obtain ⟨req', hreq', hguard⟩ := lgrSize_guard hgrown
  refine statusFits_iff hreq' ?_ ?_ ?_
  · show req' ≤ lgr - a.arenaSize
    omega
  · show -2 ^ 63 ≤ a.arenaBase + a.arenaSize
    omega
  · show a.arenaBase + a.arenaSize + (lgr - a.arenaSize : Nat) < 2 ^ 63
    omega

/-- An aligned arena, with just the memory that `req_free_mem` asks for, and a heap of 96 bytes that
grows. -/
theorem status_data_overruns :
    (reqFreeMem 16 0x10000 256 = .ok 84 ∧ Within ⟨0x10000, 84⟩ ⟨0x10000, 256⟩ ∧
      ¬ StatusFits 16 256 ⟨0x10000, 84⟩) ∧
    lgrSize ⟨0x7ff000, 0x60, 0x10⟩ ⟨-0x80000000, 96, 128, 16⟩ = .ok (some 192) ∧
      ¬ StatusFits 16 192 (addedMem ⟨-0x80000000, 96, 128, 16⟩ 192) := by
  have hreq : reqFreeMem 16 0x10000 256 = .ok 84 := by decide +kernel
  have hgrown : lgrSize ⟨0x7ff000, 0x60, 0x10⟩ ⟨-0x80000000, 96, 128, 16⟩ = .ok (some 192) := by
    decide +kernel
  have hreq' : reqFreeMem 16 (-0x80000000) 192 = .ok 84 := by decide +kernel
  refine ⟨⟨hreq, by decide, fun h => ?_⟩, hgrown, fun h => ?_⟩
  · have hpad := (statusFits_iff hreq (by decide) (by decide) (by decide)).mp h hreq
    revert hpad
    decide
  · have hpad := (statusFits_iff hreq' (by decide) (by decide) (by decide)).mp h hreq'
    revert hpad
    decide +kernel

theorem status_data_fits_room : reqFreeMem 16 0x10000 256 = .ok 84 ∧
    StatusFits 16 256 ⟨0x10000, 100⟩ := by
  have hreq : reqFreeMem 16 0x10000 256 = .ok 84 := by decide +kernel
  refine ⟨hreq,
    (status_data_fits_iff hreq (by decide) (by decide) (by decide) (by decide)).1.mpr ?_⟩
  intro req' hreq'
  rw [hreq] at hreq'
  cases hreq'
  decide

/-! ## Growing comes to an end -/

section Terminates

variable {cfg : Cfg} {limit threadTicket : Nat} {a : Arena} {calls : List MapCall}
  {t : Talloc FreeLists}

/-- The arena is one that `slice_bytes` accepts, at a base that needs no padding and below the
limit. -/
structure Growing (limit : Nat) (a : Arena) : Prop where
  aligned : asUsize a.arenaBase % 16 = 0
  size : a.arenaSize ≤ limit
  valid : ∃ r, sliceBytes a.arenaSize a.smlstBlock = .ok r

/-- The status data takes at most half of an arena, but for the smallest arenas. -/
theorem status_le {d K : Nat} (hd : d + 3 ≤ K) :
    d * nodeSize + max (2 ^ d / 8) 1 ≤ max 66 (2 ^ (K - 1)) := by
  rcases Nat.lt_or_ge d 5 with hsmall | hlarge
  · refine Nat.le_trans ?_ (Nat.le_max_left _ _)
    interval_cases d <;> decide
  · obtain ⟨e, rfl⟩ := Nat.exists_eq_add_of_le' (show 3 ≤ d by omega)
    have hdiv : 2 ^ (e + 3) / 8 = 2 ^ e := by
      rw [Nat.pow_add]
      exact Nat.mul_div_cancel _ (by norm_num)
    have hlt : e < 2 ^ e := Nat.lt_two_pow_self
    have hfour : 2 ^ 2 ≤ 2 ^ e := Nat.pow_le_pow_right (by norm_num) (by omega)
    have hpow : 2 ^ (e + 5) = 2 ^ e * 32 := Nat.pow_add 2 e 5
    have hhalf : 2 ^ (e + 5) ≤ 2 ^ (K - 1) := Nat.pow_le_pow_right (by norm_num) (by omega)
    have hnode : nodeSize = 16 := rfl
    refine Nat.le_trans ?_ (Nat.le_max_right _ _)
    rw [hdiv, Nat.max_eq_left (by omega), hnode]
    omega

theorem le_limit (hlimit : maxArenaSize cfg = .ok limit) (hstack : cfg.stackSize ≤ 2 ^ 29) :
    2 ^ 29 - 4096 ≤ limit := by
  obtain ⟨n, hn, hlimit⟩ := bind_ok hlimit
  obtain ⟨_, hn⟩ := usizeSub_ok hn
  obtain ⟨_, hlimit⟩ := usizeSub_ok hlimit
  have hpage : PTE_SIZE = 4096 := rfl
  have hsize : PDPTE_SIZE = 1073741824 := rfl
  rw [hsize] at hn
  rw [hpage] at hlimit
  omega

/-- `oom_handler` comes to its guard without a fault, and an arena that it lets grow does. -/
theorem Growing.lgrSize (h : Growing limit a) (hlimit : maxArenaSize cfg = .ok limit)
    (hstack : cfg.stackSize ≤ 2 ^ 29) : ∃ grown, lgrSize cfg a = .ok grown ∧
      ∀ {lgr}, grown = some lgr → a.arenaSize < lgr ∧
        Growing limit ⟨a.arenaBase, lgr, nextPowerOfTwo lgr, a.smlstBlock⟩ := by
  obtain ⟨haligned, hsize, r, hr⟩ := h
  obtain ⟨K₀, J, hJ, hK₀, hJ4, hJK₀, _, h64, hn, _⟩ := sliceBytes_ok hr
  have hle := maxArenaSize_le hlimit
  have hge := le_limit hlimit hstack
  generalize hlgr : min (a.arenaSize * 2) limit = lgr
  obtain ⟨K, hK, hlo, hhi, _⟩ := nextPowerOfTwo_spec (show 2 ≤ lgr by omega)
  obtain ⟨k, hk, _, hhi₀, _⟩ := nextPowerOfTwo_spec (show 2 ≤ a.arenaSize by omega)
  have hkK₀ : k = K₀ := Nat.pow_right_injective (Nat.le_refl 2) (hk.symm.trans hK₀)
  subst hkK₀
  -- no smaller power of two, so the status data has its sizes
  have hmono : k ≤ K := by
    by_contra hcon
    have hpow : 2 ^ (K + 1) ≤ 2 ^ k := Nat.pow_le_pow_right (by norm_num) (by omega)
    rw [Nat.pow_succ] at hpow
    omega
  have hs := sliceBytes_of (show 64 ≤ lgr by omega) (by omega) hJ4 hK (by omega)
  -- the base is aligned, so `req_free_mem` adds no padding
  have hreq : reqFreeMem a.smlstBlock a.arenaBase lgr =
      .ok ((K - J + 1) * nodeSize + max (2 ^ (K - J + 1) / 8) 1) := by
    unfold reqFreeMem
    rw [hJ, hs, haligned]
    show Except.ok _ = _
    rw [Nat.zero_add]
  have hfits : (K - J + 1) * nodeSize + max (2 ^ (K - J + 1) / 8) 1 ≤ lgr := by
    have hstatus := status_le (d := K - J + 1) (K := K) (by omega)
    have hhalf : 2 ^ (K - 1) * 2 = 2 ^ K := by
      rw [← Nat.pow_succ]
      congr 1
      omega
    omega
  refine ⟨if a.arenaSize < lgr - ((K - J + 1) * nodeSize + max (2 ^ (K - J + 1) / 8) 1)
      then some lgr else none, ?_, fun {lgr'} hgrown => ?_⟩
  · unfold Init.lgrSize
    rw [usizeMul_of_lt (by omega), ok_bind, hlimit, ok_bind, hlgr]
    dsimp only
    rw [hreq, ok_bind, usizeSub_of_le hfits]
    rfl
  · split at hgrown
    next hguard =>
      cases hgrown
      exact ⟨by omega, haligned, by show lgr ≤ limit; omega, _, by rw [hJ]; exact hs⟩
    next => cases hgrown

theorem oomHandler_ok {μ : Type} {map : μ → Int → Nat → Except Fault μ} {m m' : μ}
    {t' : Talloc FreeLists} {layout : Layout}
    (h : oomHandler cfg map m t layout = .ok (true, m', t')) :
    ∃ lgr, lgrSize cfg t.toArena = .ok (some lgr) ∧
      t'.toArena = ⟨t.arenaBase, lgr, nextPowerOfTwo lgr, t.smlstBlock⟩ := by
  obtain ⟨grown, hgrown, h⟩ := bind_ok h
  cases grown with
  | none => cases h
  | some lgr =>
    obtain ⟨acme, _, h⟩ := bind_ok h
    obtain ⟨n, _, h⟩ := bind_ok h
    obtain ⟨m₁, _, h⟩ := bind_ok h
    obtain ⟨t₁, hextend, h⟩ := bind_ok h
    cases h
    exact ⟨lgr, hgrown, Talloc.extend_arena hextend⟩

theorem Growing.grow (h : Growing limit t.toArena) (hlimit : maxArenaSize cfg = .ok limit)
    (hstack : cfg.stackSize ≤ 2 ^ 29) {μ : Type} {map : μ → Int → Nat → Except Fault μ} {m m' : μ}
    {t' : Talloc FreeLists} {layout : Layout}
    (hoom : oomHandler cfg map m t layout = .ok (true, m', t')) :
    Growing limit t'.toArena ∧ t.arenaSize < t'.arenaSize := by
  obtain ⟨lgr, hlgr, harena⟩ := oomHandler_ok hoom
  obtain ⟨grown, hgrown, hgrows⟩ := h.lgrSize hlimit hstack
  rw [hgrown] at hlgr
  cases hlgr
  obtain ⟨hlt, hgrowing⟩ := hgrows rfl
  rw [harena]
  exact ⟨hgrowing, hlt⟩

/-- `oom_handler` is a handler with which `alloc` ends. -/
theorem progress (hlimit : maxArenaSize cfg = .ok limit) (hstack : cfg.stackSize ≤ 2 ^ 29)
    {μ : Type}
    {map : μ → Int → Nat → Except Fault μ} (hmap : ∀ m base size, Halts (map m base size)) :
    Talloc.Progress (oomHandler cfg map) (Growing limit) limit where
  halts {m t layout} h := by
    obtain ⟨grown, hgrown, _⟩ := h.lgrSize hlimit hstack
    simp only [oomHandler, hgrown, ok_bind]
    cases grown with
    | none => exact halts_ok _
    | some lgr =>
      simp only [halts_bind]
      exact ⟨halts_isizeAdd _ _, fun _ _ => ⟨halts_usizeSub _ _, fun _ _ => ⟨hmap _ _ _, fun _ _ =>
        ⟨Talloc.extend_halts _ _ _ _, fun _ _ => halts_ok _⟩⟩⟩⟩
  grows h hoom := h.grow hlimit hstack hoom
  bound h := h.size

theorem HeapRun.growing (hlimit : maxArenaSize cfg = .ok limit) (hstack : cfg.stackSize ≤ 2 ^ 29)
    (hinit : cfg.heapInitSize ≤ limit) (h : HeapRun cfg threadTicket calls t) :
    Growing limit t.toArena := by
  have hkeeps : Talloc.HandlerKeeps (oomHandler cfg recordMap) fun _ a => Growing limit a := by
    intro calls calls' t t' layout ok hoom hgrowing
    cases ok with
    | true => exact (hgrowing.grow hlimit hstack hoom).1
    | false =>
      rcases oomHandler_cases hoom with ⟨_, rfl⟩ | ⟨lgr, c, hgrown, _, _, harena⟩
      · exact hgrowing
      · obtain ⟨grown, hgrown', hgrows⟩ := hgrowing.lgrSize hlimit hstack
        rw [hgrown] at hgrown'
        cases hgrown'
        rw [harena]
        exact (hgrows rfl).2
  induction h with
  | @setup calls t hsetup =>
    have hinv := HeapInv.setup hlimit hinit hsetup
    refine ⟨?_, hinv.size, ?_⟩
    · obtain ⟨c, hc⟩ := hinv.aligned
      have hmod := asUsize_emod (x := t.arenaBase) (k := 4) (by norm_num)
      norm_num at hmod
      omega
    · obtain ⟨base, _, hsetup⟩ := bind_ok hsetup
      obtain ⟨m, _, hsetup⟩ := bind_ok hsetup
      obtain ⟨t₁, hnew, hsetup⟩ := bind_ok hsetup
      cases hsetup
      obtain ⟨r, hr, _⟩ := bind_ok hnew
      rw [Talloc.extend_arena hnew]
      exact ⟨r, hr⟩
  | step _ hstep ih => exact hstep.keeps (I := fun _ a => Growing limit a) hkeeps ih

/-- From any state of a heap, every `Ok` of `oom_handler` enlarges the arena and stays below the
limit, none of its subtractions underflows, and the loops of `alloc` make no more turns than bytes
are left to the limit. -/
theorem alloc_terminates (hstack : cfg.stackSize ≤ 2 ^ 29) (hlimit : maxArenaSize cfg = .ok limit)
    (hinit : cfg.heapInitSize ≤ limit) (h : HeapRun cfg threadTicket calls t) :
    t.arenaSize ≤ limit ∧
    (∃ grown, lgrSize cfg t.toArena = .ok grown ∧
      ∀ {lgr}, grown = some lgr → t.arenaSize < lgr ∧ lgr ≤ limit) ∧
    ∀ {μ : Type} {map : μ → Int → Nat → Except Fault μ}, (∀ m base size, Halts (map m base size)) →
      ∀ (m : μ) (layout : Layout),
      (∀ {m' t'}, oomHandler cfg map m t layout = .ok (true, m', t') →
        t.arenaSize < t'.arenaSize ∧ t'.arenaSize ≤ limit) ∧
      ∀ {fuel}, limit - t.arenaSize < fuel →
        Halts (Talloc.alloc (oomHandler cfg map) fuel m t layout) := by
  have hgrowing := h.growing hlimit hstack hinit
  refine ⟨hgrowing.size, ?_,
    fun {μ map} hmap m layout => ⟨fun {m' t'} hoom => ?_, fun {fuel} hfuel => ?_⟩⟩
  · obtain ⟨grown, hgrown, hgrows⟩ := hgrowing.lgrSize hlimit hstack
    refine ⟨grown, hgrown, fun {lgr} hlgr => ?_⟩
    obtain ⟨hlt, hnext⟩ := hgrows hlgr
    exact ⟨hlt, hnext.size⟩
  · obtain ⟨hnext, hlt⟩ := hgrowing.grow hlimit hstack hoom
    exact ⟨hlt, hnext.size⟩
  · exact Talloc.alloc_halts (progress hlimit hstack hmap) layout hgrowing hfuel

end Terminates

theorem halts_recordMap (calls : List MapCall) (base : Int) (size : Nat) :
    Halts (recordMap calls base size) := by
  simp [recordMap, mapCall, Mapper.roundUpPage, halts_bind]

/-- A heap of one page that has grown to two. -/
theorem alloc_terminates_page : ∃ calls t, HeapRun ⟨0x7ff000, 0x1000, 0x20⟩ 0 calls t ∧
    ∀ layout, Halts (Talloc.alloc (oomHandler ⟨0x7ff000, 0x1000, 0x20⟩ recordMap) (2 ^ 30)
    calls t layout) := by
  obtain ⟨t, hrun⟩ := sample_growth ⟨0x7ff000, 0x1000, 0x20⟩
    [⟨-0x7ffff000, -0x7ffff000, -0x7fffe000⟩, ⟨-0x80000000, -0x80000000, -0x7ffff000⟩]
    (by decide +kernel)
  have hlimit : maxArenaSize ⟨0x7ff000, 0x1000, 0x20⟩ = .ok 0x3f800000 := by decide
  obtain ⟨_, _, hends⟩ := alloc_terminates (by decide) hlimit (by decide) hrun
  exact ⟨_, t, hrun, fun layout => (hends halts_recordMap _ layout).2 (by omega)⟩

end Tauos.Init
