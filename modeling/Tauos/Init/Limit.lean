import Tauos.Init.Heap
import Tauos.Memm.Growth

/-!
# A heap at its limit

The heap of the first CPU, with the default settings, can be grown until
`oom_handler` refuses: 16 MiB, doubled five times, and then 1016 MiB.

`extend` copies the bitmap correctly only while list 1 is empty
(`Talloc.Stale`), and on a new heap it is not: the upper half is free. Once a
client takes that half, list 1 stays empty through all growths:

> `Seat K size t`: no released memory reaches down to the base of the arena, and
> the upper half of its power of two is not all free.

The new status data always lies in the upper half, and the lowest block of the
heap is never released.
-/

namespace Tauos.Init

open Tauos.Rust Tauos.Memm Tauos.Buddy

/-- `heap_base` of the first CPU. -/
def firstBase : Int := -0x80000000

/-- The first heap, at `size` bytes, in a state that can be extended. -/
structure Seat (K size : Nat) (t : Talloc FreeLists) (P : Int) (L : Ledger) : Prop where
  valid : Valid K 5 P L t
  arena : t.toArena = ⟨firstBase, size, 2 ^ K, 32⟩
  above : ∀ m ∈ L.given, firstBase < m.ptr
  list : t.list 1 = []

section Seat

variable {K size lgr : Nat} {t : Talloc FreeLists} {P : Int} {L : Ledger}

/-- The lowest block is not free. -/
theorem not_covers_base (hacc : Accounted K 5 L t) (habove : ∀ m ∈ L.given, firstBase < m.ptr) :
    ¬ Covers (t.FreeBlock K) firstBase := by
  intro hc
  obtain ⟨m, hm, hx, _⟩ := (hacc.account firstBase).mp (Or.inl hc)
  have hle := Talloc.le_of_spanFirst_le hx
  have hlt := habove m hm
  omega

/-- A block of list 1 is a half of the arena. -/
theorem half_cases (hacc : Accounted (K + 1) 5 L t) (hbase : t.arenaBase = firstBase) {b : Int}
    (hF : t.FreeBlock (K + 1) K b) : b = firstBase ∨ b = firstBase + 2 ^ K := by
  have hal : Aligned K b := hacc.inv.canon.aligned hF
  obtain ⟨hlo, hhi⟩ := hacc.inv.holds hF
  have hlow : Aligned K firstBase := by
    rw [← hbase]
    exact hacc.inv.nat.base.mono (Nat.le_succ K)
  have hsize := hacc.inv.nat.cast_pow
  have hs := two_pow_succ K
  have hpos := two_pow_pos K
  rcases Int.lt_or_le b (firstBase + 2 ^ K) with hlt | hge
  · exact Or.inl (hal.eq_of_within hlow (within_base K b) ⟨by omega, hlt⟩)
  · exact Or.inr (hal.eq_of_within hlow.add (within_base K b) ⟨hge, by omega⟩)

/-- The lower half is not free, and the upper one is not if a byte of it is not. -/
theorem list_one_eq_nil (hacc : Accounted (K + 1) 5 L t) (hbase : t.arenaBase = firstBase)
    (habove : ∀ m ∈ L.given, firstBase < m.ptr)
    {y : Int} (hy : Buddy.Within K (firstBase + 2 ^ K) y)
    (hfree : ¬ Covers (t.FreeBlock (K + 1)) y) : t.list 1 = [] := by
  by_contra hne
  obtain ⟨b, hb⟩ := List.exists_mem_of_ne_nil _ hne
  have hF : t.FreeBlock (K + 1) K b := ⟨by omega, by rw [show K + 1 - K = 1 by omega]; exact hb⟩
  rcases half_cases hacc hbase hF with rfl | rfl
  · exact not_covers_base hacc habove ⟨K, _, hF, within_base K _⟩
  · exact hfree ⟨K, _, hF, hy⟩

theorem growth_bounds (h24 : 24 ≤ K) (hK : K < 30) (hlt : 2 ^ K < lgr)
    (hpow : nextPowerOfTwo lgr = 2 ^ (K + 1)) : 2 ^ 24 ≤ 2 ^ K ∧ lgr ≤ 2 ^ 30 := by
  have hbound : 2 ^ (K + 1) ≤ 2 ^ 30 := Nat.pow_le_pow_right (by norm_num) hK
  have h24 : 2 ^ 24 ≤ 2 ^ K := Nat.pow_le_pow_right (by norm_num) h24
  obtain ⟨k, hk, hle, _⟩ := nextPowerOfTwo_spec (show 2 ≤ lgr by omega)
  rw [← hk, hpow] at hle
  exact ⟨h24, hle.trans hbound⟩

/-- The site of the next growth. -/
theorem growth_site (h24 : 24 ≤ K) (hK : K < 30) (hlt : 2 ^ K < lgr)
    (hpow : nextPowerOfTwo lgr = 2 ^ (K + 1)) (hroom : 2 ^ (K - 6) + 1024 ≤ lgr - 2 ^ K) :
    Site firstBase lgr (2 ^ 5) ⟨firstBase + (2 ^ K : Nat), lgr - 2 ^ K⟩ := by
  obtain ⟨hmin, hle⟩ := growth_bounds h24 hK hlt hpow
  refine Site.of_room ?_ (by decide) ?_ ?_ ?_ fun ll bm hs => ?_
  · rw [hpow]
    push_cast
    exact (pow_dvd_pow 2 (show K + 1 ≤ 31 by omega)).trans (by decide)
  · unfold firstBase
    omega
  · show firstBase ≤ firstBase + ((2 ^ K : Nat) : Int)
    omega
  · show firstBase + ((2 ^ K : Nat) : Int) + ((lgr - 2 ^ K : Nat) : Int) ≤ _
    omega
  · rw [sliceBytes_of (by omega) (by omega) (by norm_num) hpow (by omega)] at hs
    cases hs
    have hbytes : 2 ^ (K + 1 - 5 + 1) / 8 = 2 ^ (K - 6) := by
      rw [show K + 1 - 5 + 1 = K - 6 + 3 by omega, pow_add]
      exact Nat.mul_div_cancel _ (by norm_num)
    have hone : 1 ≤ 2 ^ (K - 6) := Nat.one_le_two_pow
    have hoff := llAlignOffset_bounds ⟨firstBase + (2 ^ K : Nat), lgr - 2 ^ K⟩
    rw [hbytes, Nat.max_eq_left hone]
    show _ + (K + 1 - 5 + 1) * 16 + 2 ^ (K - 6) + 2 ^ 5 ≤ lgr - 2 ^ K
    omega

/-- A growth that needs one list more. -/
theorem Seat.grow (h : Seat K (2 ^ K) t P L) (h24 : 24 ≤ K) (hK : K < 30) (hlt : 2 ^ K < lgr)
    (hpow : nextPowerOfTwo lgr = 2 ^ (K + 1)) (hroom : 2 ^ (K - 6) + 1024 ≤ lgr - 2 ^ K) :
    ∃ t' P' L', t.extend firstBase lgr ⟨firstBase + (2 ^ K : Nat), lgr - 2 ^ K⟩ = .ok t' ∧
      Seat (K + 1) lgr t' P' L' := by
  have hsite := growth_site h24 hK hlt hpow hroom
  obtain ⟨hmin, hle⟩ := growth_bounds h24 hK hlt hpow
  have hbottom : firstBase = -2 ^ 31 := rfl
  have hbase : t.arenaBase = firstBase := by rw [h.arena]
  have hsize : t.arenaSize = 2 ^ K := by rw [h.arena]
  have hsmlst : t.smlstBlock = 32 := by rw [h.arena]
  have hext := h.valid.extension_above (show t.arenaSize < lgr by rw [hsize]; exact hlt)
  rw [hbase, hsize, hsmlst] at hext
  have hlow : (t.grown lgr).Low48 := by
    show -2 ^ 47 ≤ t.arenaBase ∧ t.arenaBase + (lgr : Int) ≤ 2 ^ 47
    omega
  replace hext := hext hsite hlow
  obtain ⟨K', hK', hex⟩ := hext.extending h.valid.toAccounted h.valid.seated
  obtain rfl : K' = K + 1 := Nat.pow_right_injective (Nat.le_refl 2) (hK'.symm.trans hpow)
  -- `extend` meets none of the cases in which it goes wrong
  have hnull : ¬ TailAtNull (K + 1) 5 ⟨firstBase + (2 ^ K : Nat), lgr - 2 ^ K⟩ := by
    rw [hex.tailAtNull_iff]
    intro hz
    have h0 : firstBase + ((2 ^ K : Nat) : Int) + ((lgr - 2 ^ K : Nat) : Int) = 0 := hz.1
    omega
  have hfresh : ¬ Talloc.Stale K (K + 1) t := fun hst => (hex.stale_iff.mp hst).2 h.list
  rcases hex.cases with ⟨_, hwhy⟩ | ⟨r, hr, hok, _⟩
  · rcases hwhy with ⟨heq, _⟩ | hwhy | hwhy
    · omega
    · exact absurd hwhy hnull
    · exact absurd hwhy.1 hfresh
  · rw [if_neg hfresh, hbase] at hok
    -- all that was given is above the base, so the first block stays taken
    have habove : ∀ m ∈ tailOf (K + 1) 5 ⟨firstBase + (2 ^ K : Nat), lgr - 2 ^ K⟩ :: t.oldStatus ::
        L.given, firstBase < m.ptr := by
      intro m hm
      have hpos : 0 < 2 ^ K := Nat.two_pow_pos K
      rcases List.mem_cons.mp hm with rfl | hm
      · show firstBase < firstBase + ((2 ^ K : Nat) : Int) + _
        omega
      rcases List.mem_cons.mp hm with rfl | hm
      · show firstBase < t.llistsPtr
        rw [h.valid.ptr]
        have hoff := llAlignOffset_bounds ⟨P, 0⟩
        have hlo := h.valid.lo
        omega
      · exact h.above m hm
    refine ⟨r, _, _, hok, hr.valid hex, ?_, habove, ?_⟩
    · rw [hr.arena]
      unfold Talloc.grown
      rw [hbase, hsmlst, hpow]
    · -- the new status data is in the upper half
      have hacc := hr.accounted hex
      refine list_one_eq_nil hacc ?_ habove (y := r.llistsPtr) ?_ ?_
      · rw [hr.arena]
        exact hbase
      · rw [hr.llistsPtr]
        have hoff := llAlignOffset_bounds ⟨firstBase + (2 ^ K : Nat), lgr - 2 ^ K⟩
        have hcast : ((2 ^ K : Nat) : Int) = 2 ^ K := by push_cast; rfl
        unfold Buddy.Within
        dsimp only
        rw [← hcast]
        exact ⟨by omega, by omega⟩
      · exact fun hc => hacc.statusFree ((hacc.account _).mp (Or.inl hc)) hacc.statusSome

end Seat

/-! ## The run to the limit -/

/-- A heap that stands at `size` and can be extended is reached. -/
def Stands (K size : Nat) : Prop :=
  ∃ calls t P L, HeapRun Cfg.default 0 calls t ∧ Seat K size t P L

theorem mapCall_of (base : Int) {size : Nat} (h0 : size ≠ 0) (hsize : size ≤ 2 ^ 30) :
    ∃ c, mapCall base size = .ok c := by
  unfold mapCall
  rw [decide_eq_true h0, Mapper.roundUpPage_of (by unfold Amd64.PTE_SIZE; omega)]
  exact ⟨_, rfl⟩

/-- `oom_handler` when all it calls returns. -/
theorem oomHandler_of {cfg : Cfg} {calls : List MapCall} {t t' : Talloc FreeLists} {lgr : Nat}
    {c : MapCall} (layout : Layout) (hlgr : lgrSize cfg t.toArena = .ok (some lgr))
    (hacme : InIsize (t.arenaBase + t.arenaSize)) (hle : t.arenaSize ≤ lgr)
    (hc : mapCall (t.arenaBase + t.arenaSize) (lgr - t.arenaSize) = .ok c)
    (hext : t.extend t.arenaBase lgr ⟨t.arenaBase + t.arenaSize, lgr - t.arenaSize⟩ = .ok t') :
    oomHandler cfg recordMap calls t layout = .ok (true, c :: calls, t') := by
  unfold oomHandler recordMap
  rw [hlgr, ok_bind]
  dsimp only
  rw [isizeAdd_of_inIsize hacme, ok_bind, usizeSub_of_le hle, ok_bind, hc, ok_bind]
  dsimp only [pure, Except.pure]
  rw [ok_bind, hext]
  rfl

theorem Stands.grow {K lgr : Nat} (h : Stands K (2 ^ K)) (h24 : 24 ≤ K) (hK : K < 30)
    (hlgr : lgrSize Cfg.default ⟨firstBase, 2 ^ K, 2 ^ K, 32⟩ = .ok (some lgr))
    (hpow : nextPowerOfTwo lgr = 2 ^ (K + 1)) (hroom : 2 ^ (K - 6) + 1024 ≤ lgr - 2 ^ K) :
    Stands (K + 1) lgr := by
  obtain ⟨calls, t, P, L, hrun, hseat⟩ := h
  have hpos : 1 ≤ 2 ^ (K - 6) := Nat.one_le_two_pow
  have hlt : 2 ^ K < lgr := by omega
  obtain ⟨hmin, hle⟩ := growth_bounds h24 hK hlt hpow
  obtain ⟨t', P', L', hext, hseat'⟩ := hseat.grow h24 hK hlt hpow hroom
  have hbase : t.arenaBase = firstBase := by rw [hseat.arena]
  have hsize : t.arenaSize = 2 ^ K := by rw [hseat.arena]
  have hbottom : firstBase = -2 ^ 31 := rfl
  obtain ⟨c, hc⟩ := mapCall_of (firstBase + (2 ^ K : Nat)) (show lgr - 2 ^ K ≠ 0 by omega)
    (by omega)
  have hstep : oomHandler Cfg.default recordMap calls t ⟨8, 8⟩ = .ok (true, c :: calls, t') := by
    refine oomHandler_of ⟨8, 8⟩ (by rw [hseat.arena]; exact hlgr) ?_ (by omega) ?_ ?_
    · rw [hbase, hsize]
      exact ⟨by omega, by omega⟩
    · rw [hbase, hsize]
      exact hc
    · rw [hbase, hsize]
      exact hext
  exact ⟨_, t', P', L', hrun.step (HeapStep.grow hstep), hseat'⟩

/-- The heap of `allocator_setup`, all in one piece behind its status data. -/
theorem first_setup : ∃ calls t, HeapRun Cfg.default 0 calls t ∧
    ∃ L, Valid 24 5 firstBase L t ∧ t.toArena = ⟨firstBase, 2 ^ 24, 2 ^ 24, 32⟩ ∧
      ∀ m ∈ L.given, firstBase < m.ptr := by
  have hbase : heapBase 0 = .ok firstBase := by decide
  have hpow : nextPowerOfTwo (2 ^ 24) = 2 ^ 24 := by decide
  have hsite : Site firstBase (2 ^ 24) (2 ^ 5) ⟨firstBase, 2 ^ 24⟩ := by
    refine Site.of_room (by decide) (by decide) (by decide) (le_refl _)
      (le_refl _) fun ll bm hs => ?_
    rw [sliceBytes_of (by norm_num) (by norm_num) (by norm_num) hpow (by norm_num)] at hs
    cases hs
    decide
  -- the arena is far from address 0 and from the end of the address space
  obtain ⟨t, hnew⟩ : ∃ t, Talloc.new firstBase (2 ^ 24) (2 ^ 5) ⟨firstBase, 2 ^ 24⟩ = .ok t := by
    rcases new_spec hsite hpow (by norm_num) (by norm_num) (by norm_num) (by norm_num)
      (le_refl _) with
      ⟨_, hedge⟩ | ⟨t, hnew, _⟩
    · exfalso
      rcases hedge with h0 | hlow
      · revert h0
        decide
      · exact hlow ⟨by decide, by decide⟩
    · exact ⟨t, hnew⟩
  have harena : t.toArena = ⟨firstBase, 2 ^ 24, 2 ^ 24, 32⟩ := by
    rw [Talloc.extend_arena hnew, hpow]
    rfl
  have hrun : Run firstBase (2 ^ 24) (2 ^ 5) ⟨firstBase, 2 ^ 24⟩
      ⟨[], [t.behind ⟨firstBase, 2 ^ 24⟩]⟩ t := ⟨hsite, t, hnew, Calls.refl⟩
  obtain ⟨K, J, hv⟩ := hrun.valid
  replace hv : Valid K J firstBase ⟨[], [t.behind ⟨firstBase, 2 ^ 24⟩]⟩ t := hv
  have hK : 2 ^ K = 2 ^ 24 := by rw [← hv.inv.nat.pow2, harena]
  have hJ : 2 ^ J = 2 ^ 5 := by rw [← hv.inv.nat.smlst, harena]; rfl
  obtain rfl : K = 24 := Nat.pow_right_injective (Nat.le_refl 2) hK
  obtain rfl : J = 5 := Nat.pow_right_injective (Nat.le_refl 2) hJ
  obtain ⟨c, hc⟩ := mapCall_of firstBase (show 2 ^ 24 ≠ 0 by norm_num) (by norm_num)
  refine ⟨[c], t, HeapRun.setup ?_, _, hv, harena, fun m hm => ?_⟩
  · have hinit : Cfg.default.heapInitSize = 2 ^ 24 := by decide
    have hsmlst : Cfg.default.heapSmlstBlock = 2 ^ 5 := by decide
    unfold allocatorSetup recordMap
    rw [hinit, hsmlst, hbase, ok_bind, hc, ok_bind]
    dsimp only [pure, Except.pure]
    rw [ok_bind, hnew]
    rfl
  · obtain rfl := List.mem_singleton.mp hm
    show firstBase < t.bitmapPtr + t.bitmapLen
    rw [hv.layout, hv.ptr]
    have hoff := llAlignOffset_bounds ⟨firstBase, 0⟩
    omega

/-- A block that is listed is handed out by `alloc`, whatever the handler. -/
theorem alloc_listed {ω : Type} (oom : OomHandler ω FreeLists) (w : ω) {K J e : Nat} {L : Ledger}
    {t : Talloc FreeLists} {l : Layout} (hacc : Accounted K J L t) (hl : t.layoutToSize l = 2 ^ e)
    (hsize : 2 ^ e ≤ t.arenaSize) (heK : e ≤ K) (hne : t.list (K - e) ≠ []) :
    ∃ p t', t.FreeBlock K e p ∧ Talloc.alloc oom 1 w t l = .ok (some p, w, t') ∧
      Talloc.Taken K J e t p t' := by
  obtain ⟨p, t', hF, hrun, htk⟩ := hacc.allocBlock_listed oom l 1 w heK hne
  refine ⟨p, t', hF, ?_, htk⟩
  unfold Talloc.alloc
  dsimp only [Talloc.growLoop]
  rw [hl, if_neg (by omega)]
  exact hrun

/-- With its upper half taken, the first heap can be extended. -/
theorem stands_first : Stands 24 (2 ^ 24) := by
  obtain ⟨calls, t, hrun, L, hv, harena, habove⟩ := first_setup
  have hbase : t.arenaBase = firstBase := by rw [harena]
  by_cases hlist : t.list 1 = []
  · exact ⟨calls, t, firstBase, L, hrun, hv, harena, habove, hlist⟩
  · have hl : t.layoutToSize ⟨2 ^ 23, 8⟩ = 2 ^ 23 := by
      rw [harena]
      decide
    obtain ⟨p, t', hF, halloc, htk⟩ := alloc_listed (oomHandler Cfg.default recordMap) calls
      hv.toAccounted hl (by rw [harena]; decide) (by norm_num) hlist
    have hacc := hv.toAccounted.take hl (by norm_num) (by norm_num) (by norm_num) (by decide) htk
    have hsh := htk.shape
    have harena' : t'.toArena = ⟨firstBase, 2 ^ 24, 2 ^ 24, 32⟩ := hsh.arena.trans harena
    -- the block taken is the upper half
    have hp : p = firstBase + 2 ^ 23 := by
      refine (half_cases (K := 23) hv.toAccounted hbase hF).resolve_left ?_
      intro hlow
      subst hlow
      exact not_covers_base hv.toAccounted habove ⟨23, _, hF, within_base 23 _⟩
    refine ⟨calls, t', firstBase, _, hrun.step (HeapStep.alloc halloc),
      ⟨hacc, hsh.seated hv.seated, ?_, ?_⟩, harena', habove, ?_⟩
    · rw [hsh.llistsPtr]
      exact hv.ptr
    · rw [hsh.arena]
      exact hv.lo
    · refine list_one_eq_nil (K := 23) hacc (by rw [harena']) habove (y := p) ?_
        (htk.apart p (within_base 23 p))
      rw [hp]
      exact within_base 23 _

/-- The first heap can be grown to the limit. -/
theorem first_heap_at_limit : ∃ calls t, HeapRun Cfg.default 0 calls t ∧
    t.arenaBase = firstBase ∧ t.arenaSize = 0x3f800000 := by
  have h25 : Stands 25 (2 ^ 25) := stands_first.grow (by norm_num) (by norm_num)
    (by decide +kernel) (by decide) (by norm_num)
  have h26 : Stands 26 (2 ^ 26) := h25.grow (by norm_num) (by norm_num)
    (by decide +kernel) (by decide) (by norm_num)
  have h27 : Stands 27 (2 ^ 27) := h26.grow (by norm_num) (by norm_num)
    (by decide +kernel) (by decide) (by norm_num)
  have h28 : Stands 28 (2 ^ 28) := h27.grow (by norm_num) (by norm_num)
    (by decide +kernel) (by decide) (by norm_num)
  have h29 : Stands 29 (2 ^ 29) := h28.grow (by norm_num) (by norm_num)
    (by decide +kernel) (by decide) (by norm_num)
  have h30 : Stands 30 0x3f800000 := h29.grow (by norm_num) (by norm_num)
    (by decide +kernel) (by decide) (by norm_num)
  obtain ⟨calls, t, _, _, hrun, hseat⟩ := h30
  exact ⟨calls, t, hrun, by rw [hseat.arena], by rw [hseat.arena]⟩

end Tauos.Init
