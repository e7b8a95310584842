import Tauos.Memm.Heap

/-!
# What a running allocator writes

`InMemory … m₀ L t m`: the calls of a run, made in memory from `m₀` on, leave
the memory `m`, while on free lists they lead to `t`. The two runs go in step
(`run_in_memory`): every call returns the same pointer in both, `m` keeps
holding the lists and the bitmap of `t`, and each call writes only

* to the sentinels and the bitmap,
* to the nodes of blocks that are free before or after the call, and
* for `release`, to the slice that is released.

So no byte of an allocation that is outstanding during the call changes. While
`alloc` asks the `oom_handler`, the calls of the handler are calls of their own,
each with its own blocks before and after (`ActsIn`); `alloc` itself writes
nothing before the handler has returned for the last time.
-/

namespace Tauos.Memm

open Tauos.Rust Tauos.Utils Tauos.Buddy

namespace Talloc

variable {K J : Nat} {t t' : Talloc FreeLists} {m : Mem}

/-- Free blocks that are apart from the status data have their nodes apart. -/
theorem Inv.sep (h : Inv K J t)
    (hlayout : t.bitmapPtr = t.llistsPtr + (t.llistsLen * nodeSize : Nat))
    (hout : ∀ x, Covers (t.FreeBlock K) x → ¬ t.Status x) : Sep t := by
  have hcell : ∀ {g b x}, b ∈ t.list g → Llist.Cell b x → Within (K - g) b x := by
    intro g b x hb hx
    have he := h.le_exp (h.freeBlock_of_mem hb).2
    have hJ := h.nat.hJ
    have : (2 : Int) ^ 4 ≤ 2 ^ (K - g) := pow_le_pow_right₀ (by norm_num) (by omega)
    obtain ⟨h1, h2⟩ := hx
    exact ⟨h1, by omega⟩
  refine ⟨h.slen.trans h.llen.symm, h.sblen, hlayout, h.nodup, fun {g b} hb => ?_,
    fun {g b} hb => ?_, fun {g g' b b'} hb hb' => ?_⟩
  · have hh := h.holds (h.freeBlock_of_mem hb).2
    have hpos := two_pow_pos (K - g)
    exact h.nat.inIsize hh.1 ((le_add_of_nonneg_right hpos.le).trans hh.2)
  · by_contra hcon
    have hblen := h.blen
    -- an address that the node and the status data would share
    have hx : Llist.Cell b (max b t.llistsPtr) := ⟨by omega, by omega⟩
    exact hout _ ⟨K - g, b, (h.freeBlock_of_mem hb).2, hcell hb hx⟩ ⟨by omega, by omega⟩
  · obtain ⟨hg, hF⟩ := h.freeBlock_of_mem hb
    obtain ⟨hg', hF'⟩ := h.freeBlock_of_mem hb'
    by_cases hap : Llist.Apart b b'
    · exact Or.inr hap
    · unfold Llist.Apart at hap
      have hx : Llist.Cell b (max b b') := ⟨by omega, by omega⟩
      have hx' : Llist.Cell b' (max b b') := ⟨by omega, by omega⟩
      obtain ⟨he, hbb⟩ := h.canon.apart hF hF' (hcell hb hx) (hcell hb' hx')
      exact Or.inl ⟨by omega, hbb⟩

/-! ## `release` in memory -/

section Release

variable {y : Int} {s : Slice}

/-- What a `release` may write: the records, and the span it frees. -/
def Freeing (J : Nat) (t : Talloc FreeLists) (s : Slice) (x : Int) : Prop :=
  t.Books x ∨ (spanFirst J s ≤ x ∧ x < spanAcme J s)

/-- The status data stays outside of what is released. -/
structure Clean (J : Nat) (t : Talloc FreeLists) (s : Slice) : Prop where
  layout : t.bitmapPtr = t.llistsPtr + (t.llistsLen * nodeSize : Nat)
  out : ∀ x, t.Status x → ¬ (spanFirst J s ≤ x ∧ x < spanAcme J s)

/-- While memory is released, the status data is apart from the free blocks. -/
theorem Released.sep {u : Talloc FreeLists} {p : Int} (hu : Released K J (spanFirst J s) p t u)
    (hc : Clean J t s) (hfree : ∀ x, Covers (t.FreeBlock K) x → ¬ t.Status x)
    (hp : p ≤ spanAcme J s) : Sep u := by
  have hsh := hu.shape
  refine hu.inv.sep ?_ fun x hx hst => ?_
  · rw [hsh.bitmapPtr, hsh.llistsPtr, hsh.llistsLen]
    exact hc.layout
  · have hst' := (hsh.status x).mp hst
    rcases (hu.covers x).mp hx with ⟨h1, h2⟩ | hx
    · exact hc.out x hst' ⟨h1, by omega⟩
    · exact hfree x hx hst'

/-- On the way through a slice, the records are the old ones and nodes in the slice. -/
theorem Released.books {u : Talloc FreeLists} {p : Int} (hu : Released K J (spanFirst J s) p t u)
    (hp : p ≤ spanAcme J s) {x : Int} (hx : u.Books x) : Freeing J t s x := by
  rcases hx with hx | ⟨g, b, hb, hx⟩
  · exact Or.inl (Or.inl ((hu.shape.status x).mp hx))
  · obtain ⟨_, hF⟩ := hu.inv.freeBlock_of_mem hb
    rcases hu.bases hF with ⟨e, hF'⟩ | ⟨h1, h2⟩
    · exact Or.inl (Or.inr ⟨K - e, b, hF'.2, hx⟩)
    · -- a block boundary below `acme` is at least one block below it
      have hal := (hu.inv.canon.aligned hF).mono (hu.inv.le_exp hF)
      have hend := hal.add_le_of_lt (aligned_floorBlock J (s.ptr + s.len))
        (show b < floorBlock J (s.ptr + s.len) by unfold spanAcme at hp; omega)
      have h16 : (2 : Int) ^ 4 ≤ 2 ^ J := pow_le_pow_right₀ (by norm_num) hu.inv.nat.hJ
      obtain ⟨hx1, hx2⟩ := hx
      refine Or.inr ⟨by omega, ?_⟩
      unfold spanAcme
      omega

/-- The blocks of a span are given back in memory. -/
theorem deallocAll_sim (h : Releasable K J y s t) (hc : Clean J t s)
    (hfree : ∀ x, Covers (t.FreeBlock K) x → ¬ t.Status x) {p q : Int} {blocks : List (Int × Nat)}
    (htiles : Tiles J q p blocks) (hq : q ≤ spanAcme J s) :
    ∀ {u u' : Talloc FreeLists} {m : Mem}, spanFirst J s ≤ p → Released K J (spanFirst J s) p t u →
      u.Rep m → deallocAll blocks u = .ok u' →
      ∃ m', deallocAll blocks (u.on m) = .ok (u'.on m') ∧ u'.Rep m' ∧
        Only (Freeing J t s) m m' := by
  induction htiles with
  | nil =>
    intro u u' m _ _ hr hrun
    cases hrun
    exact ⟨m, rfl, hr, Only.refl _ m⟩
  | @cons p k blocks hJk hak hrest ih =>
    intro u u' m hp hu hr hrun
    have hpos := two_pow_pos k
    have hend := hrest.le.trans hq
    obtain ⟨u₁, hd, hu₁⟩ := h.turn hu hp hJk hak hend
    obtain ⟨u₂, hd₂, hrun⟩ := bind_ok hrun
    rw [hd] at hd₂
    cases hd₂
    obtain ⟨m₁, hrun₁, hr₁, honly₁⟩ := dealloc_sim hd hr (hu.sep hc hfree (by omega))
      (hu₁.sep hc hfree hend)
    obtain ⟨m', hrun', hr', honly'⟩ := ih (by omega) hu₁ hr₁ hrun
    refine ⟨m', ?_, hr', (honly₁.mono fun x hx => ?_).trans honly'⟩
    · simp only [deallocAll, hrun₁, ok_bind]
      exact hrun'
    · exact hx.elim (hu.books (by omega)) (hu₁.books hend)

/-- `release` in memory. -/
theorem release_sim (h : Releasable K J y s t) (hc : Clean J t s)
    (hfree : ∀ x, Covers (t.FreeBlock K) x → ¬ t.Status x) (hr : t.Rep m)
    (hrun : t.release s = .ok t') :
    ∃ m', (t.on m).release s = .ok (t'.on m') ∧ t'.Rep m' ∧ Only (Freeing J t s) m m' := by
  obtain ⟨q, blocks, r, htiles, hq, _, hcut⟩ := h.inside.release_blocks
  have hrun' := hrun
  unfold release at hrun'
  rw [hcut t rfl] at hrun'
  obtain ⟨u, hall, hend⟩ := bind_ok hrun'
  obtain ⟨⟨⟩, rfl, hend⟩ := bind_ok hend
  cases hend
  obtain ⟨m', hrun, hr', honly⟩ := deallocAll_sim h hc hfree htiles hq (le_refl _)
    (Released.refl h.inv _) hr hall
  refine ⟨m', ?_, hr', honly⟩
  unfold release
  rw [hcut (t.on m) rfl, deallocThen_ok]
  exact hrun

end Release

end Talloc

/-! ## Single calls -/

section Calls

variable {K J : Nat} {L L' : Ledger} {t t' : Talloc FreeLists} {m m' : Mem}

/-- Free memory holds no status data. -/
theorem Accounted.not_status (h : Accounted K J L t) {x : Int} (hx : Covers (t.FreeBlock K) x) :
    ¬ t.Status x :=
  h.statusFree ((h.account x).mp (Or.inl hx))

/-- The status data is apart from the free blocks. -/
theorem Accounted.sep (h : Accounted K J L t) : t.Sep :=
  h.inv.sep h.layout fun _ => h.not_status

/-- The records lie outside of every outstanding allocation. -/
theorem Accounted.live_not_books (h : Accounted K J L t) {x : Int} (hx : L.Live t.toArena x) :
    ¬ t.Books x := by
  intro hb
  rcases hb with hb | ⟨g, b, hb, hc⟩
  · exact h.statusFree ((h.account x).mp (Or.inr hx)) hb
  · obtain ⟨_, hF⟩ := h.inv.freeBlock_of_mem hb
    have he := h.inv.le_exp hF
    have hJ := h.inv.nat.hJ
    have : (2 : Int) ^ 4 ≤ 2 ^ (K - g) := pow_le_pow_right₀ (by norm_num) (by omega)
    obtain ⟨h1, h2⟩ := hc
    exact h.reserved hx ⟨K - g, b, hF, h1, by omega⟩

/-- What a call may write: the records before and after it, and what it releases. -/
def Act.Touches (t t' : Talloc FreeLists) : Act → Int → Prop
  | .release mem, x => t.Books x ∨ t'.Books x ∨ mem.Mem x
  | _, x => t.Books x ∨ t'.Books x

/-- A call that writes to nothing else, and to no allocation that is outstanding after it. -/
structure Act.Writes (a : Act) (t : Talloc FreeLists) (m : Mem) (L' : Ledger)
    (t' : Talloc FreeLists) (m' : Mem) : Prop where
  only : Talloc.Only (a.Touches t t') m m'
  kept : ∀ q ∈ L'.live, ∀ x, t'.Owns q x → m' x = m x

/-- A call hands out nothing. -/
theorem Act.live_of_live {a : Act} (ha : a.Allowed L t) (hrun : a.run L t = .ok (L', t')) {x : Int}
    (hx : L'.Live t.toArena x) : L.Live t.toArena x := by
  obtain ⟨q, hq, hx⟩ := hx
  cases a with
  | dealloc ptr layout =>
    obtain ⟨u, _, hrun⟩ := bind_ok hrun
    cases hrun
    exact ⟨q, List.mem_of_mem_erase hq, hx⟩
  | shrink ptr oldLayout newLayout =>
    obtain ⟨hold, _, _, hle⟩ := ha
    obtain ⟨u, _, hrun⟩ := bind_ok hrun
    cases hrun
    rcases List.mem_cons.mp hq with rfl | hq
    · obtain ⟨h1, h2⟩ := hx
      refine ⟨_, hold, h1, ?_⟩
      show x < ptr + (t.layoutToSize oldLayout : Nat)
      have : x < ptr + (t.layoutToSize newLayout : Nat) := h2
      omega
    · exact ⟨q, List.mem_of_mem_erase hq, hx⟩
  | release mem =>
    obtain ⟨u, _, hrun⟩ := bind_ok hrun
    cases hrun
    exact ⟨q, hq, hx⟩

/-- A call in memory. -/
theorem Act.run_sim {a : Act} (h : Accounted K J L t) (ha : a.Allowed L t) (hr : t.Rep m)
    (hrun : a.run L t = .ok (L', t')) :
    ∃ m', a.run L (t.on m) = .ok (L', t'.on m') ∧ t'.Rep m' ∧ a.Writes t m L' t' m' ∧
      Accounted K J L' t' := by
  obtain ⟨hacc, hsh⟩ := Act.accounted h ha hrun
  -- in all three cases it is enough to know what was written
  have hkept : ∀ {m'}, Talloc.Only (a.Touches t t') m m' →
      ∀ q ∈ L'.live, ∀ x, t'.Owns q x → m' x = m x := by
    intro m' honly q hq x hx
    have hlive' : L'.Live t'.toArena x := ⟨q, hq, hx⟩
    have hlive : L.Live t.toArena x := by
      rw [hsh.arena] at hlive'
      exact Act.live_of_live ha hrun hlive'
    have h1 := h.live_not_books hlive
    have h2 := hacc.live_not_books hlive'
    refine honly x fun hc => ?_
    cases a with
    | dealloc _ _ => exact hc.elim h1 h2
    | shrink _ _ _ => exact hc.elim h1 h2
    | release mem => exact hc.elim h1 fun hc => hc.elim h2 fun hc => (ha.reserved x hc).2.1 hlive
  have hdone : ∀ {m'}, a.run L (t.on m) = .ok (L', t'.on m') → t'.Rep m' →
      Talloc.Only (a.Touches t t') m m' → ∃ m', a.run L (t.on m) = .ok (L', t'.on m') ∧ t'.Rep m' ∧
        a.Writes t m L' t' m' ∧ Accounted K J L' t' :=
    fun hok hr' honly => ⟨_, hok, hr', ⟨honly, hkept honly⟩, hacc⟩
  cases a with
  | dealloc ptr layout =>
    obtain ⟨u, hd, hend⟩ := bind_ok hrun
    cases hend
    obtain ⟨m', hok, hr', honly⟩ := Talloc.dealloc_sim hd hr h.sep hacc.sep
    refine hdone ?_ hr' honly
    simp only [Act.run, hok, ok_bind]
    rfl
  | shrink ptr oldLayout newLayout =>
    obtain ⟨u, hd, hend⟩ := bind_ok hrun
    cases hend
    obtain ⟨m', hok, hr', honly⟩ := Talloc.shrink_sim hd hr hacc.sep
    refine hdone ?_ hr' (honly.mono fun x => Or.inr)
    simp only [Act.run, hok, ok_bind]
    rfl
  | release mem =>
    obtain ⟨u, hd, hend⟩ := bind_ok hrun
    cases hend
    obtain ⟨_, hacme⟩ := ReleaseAllowed.span h ha
    have hin : ∀ x, Talloc.spanFirst J mem ≤ x ∧ x < Talloc.spanAcme J mem → mem.Mem x := by
      intro x hx
      rw [hacme] at hx
      exact ⟨Talloc.le_of_spanFirst_le hx.1, hx.2⟩
    obtain ⟨m', hok, hr', honly⟩ := Talloc.release_sim (ReleaseAllowed.releasable h ha)
      ⟨h.layout, fun x hst hx => (ha.reserved x (hin x hx)).2.2 hst⟩ (fun _ => h.not_status) hr hd
    refine hdone ?_ hr' (honly.mono fun x hx => ?_)
    · simp only [Act.run, hok, ok_bind]
      rfl
    · exact hx.elim Or.inl fun hx => Or.inr (Or.inr (hin x hx))

/-- Calls one after the other, on free lists and in memory. -/
inductive ActsIn : List Act → Ledger → Talloc FreeLists → Mem →
    Ledger → Talloc FreeLists → Mem → Prop
  | nil {L : Ledger} {t : Talloc FreeLists} {m : Mem} : ActsIn [] L t m L t m
  | cons {a : Act} {acts : List Act} {L L₁ L' : Ledger} {t t₁ t' : Talloc FreeLists}
      {m m₁ m' : Mem} : a.run L t = .ok (L₁, t₁) → a.run L (t.on m) = .ok (L₁, t₁.on m₁) →
      a.Writes t m L₁ t₁ m₁ → ActsIn acts L₁ t₁ m₁ L' t' m' → ActsIn (a :: acts) L t m L' t' m'

/-- Calls after calls in memory. -/
theorem ActsIn.append {acts acts' : List Act} {L₁ : Ledger} {t₁ : Talloc FreeLists} {m₁ : Mem}
    (h : ActsIn acts L t m L₁ t₁ m₁) (h' : ActsIn acts' L₁ t₁ m₁ L' t' m') :
    ActsIn (acts ++ acts') L t m L' t' m' := by
  induction h with
  | nil => exact h'
  | cons hrun hmem hw _ ih => exact ActsIn.cons hrun hmem hw (ih h')

/-- Calls in memory, one after the other. -/
theorem runActs_sim : ∀ (acts : List Act) {L L' : Ledger} {t t' : Talloc FreeLists} {m : Mem},
    Accounted K J L t → ActsAllowed acts L t → t.Rep m → runActs acts L t = .ok (L', t') →
    ∃ m', runActs acts L (t.on m) = .ok (L', t'.on m') ∧ t'.Rep m' ∧
      ActsIn acts L t m L' t' m' := by
  intro acts
  induction acts with
  | nil =>
    intro L L' t t' m _ _ hr hrun
    cases hrun
    exact ⟨m, rfl, hr, ActsIn.nil⟩
  | cons a acts ih =>
    intro L L' t t' m h ha hr hrun
    obtain ⟨⟨L₁, t₁⟩, hact, hrun⟩ := bind_ok hrun
    obtain ⟨m₁, hmem, hr₁, hw, hacc⟩ := Act.run_sim h ha.1 hr hact
    obtain ⟨m', hmem', hr', hacts⟩ := ih hacc (ha.2 L₁ t₁ hact) hr₁ hrun
    refine ⟨m', ?_, hr', ActsIn.cons hact hmem hw hacts⟩
    simp only [runActs, hmem, ok_bind]
    exact hmem'

end Calls

/-! ## `alloc` in memory -/

namespace Talloc

section Alloc

variable {ω : Type} {oom : OomHandler ω FreeLists} {oomMem : OomHandler ω Mem}
  {R : ω → Talloc FreeLists → Mem → Prop}

/-- The handler does in memory what it does on free lists, and keeps `R`. -/
def Follows (oom : OomHandler ω FreeLists) (oomMem : OomHandler ω Mem)
    (R : ω → Talloc FreeLists → Mem → Prop) : Prop :=
  ∀ {w w' : ω} {t t' : Talloc FreeLists} {m : Mem} {l : Layout} {ok : Bool}, R w t m →
    oom w t l = .ok (ok, w', t') → ∃ m', oomMem w (t.on m) l = .ok (ok, w', t'.on m') ∧ R w' t' m'

/-- The first loop of `alloc` in memory. -/
theorem growLoop_sim (hF : Follows oom oomMem R) {l : Layout} {size : Nat} : ∀ (fuel : Nat)
    {w w' : ω} {t t' : Talloc FreeLists} {m : Mem} {ok : Bool}, R w t m →
    growLoop oom l size fuel w t = .ok (ok, w', t') →
    ∃ m', growLoop oomMem l size fuel w (t.on m) = .ok (ok, w', t'.on m') ∧ R w' t' m' := by
  intro fuel
  induction fuel with
  | zero =>
    intro w w' t t' m ok _ hrun
    cases hrun
  | succ fuel ih =>
    intro w w' t t' m ok hR hrun
    simp only [growLoop] at hrun ⊢
    by_cases hsize : t.arenaSize < size
    · rw [if_pos hsize] at hrun
      rw [show (t.on m).arenaSize = t.arenaSize from rfl, if_pos hsize]
      obtain ⟨⟨b, w₁, t₁⟩, hoom, hrun⟩ := bind_ok hrun
      obtain ⟨m₁, hoom', hR₁⟩ := hF hR hoom
      rw [hoom', ok_bind]
      cases b with
      | true => exact ih hR₁ hrun
      | false =>
        cases hrun
        exact ⟨m₁, rfl, hR₁⟩
    · rw [if_neg hsize] at hrun
      rw [show (t.on m).arenaSize = t.arenaSize from rfl, if_neg hsize]
      cases hrun
      exact ⟨m, rfl, hR⟩

/-- The second one. -/
theorem findLoop_sim (hF : Follows oom oomMem R) {l : Layout} {size : Nat} : ∀ (fuel : Nat)
    {g : Nat} {w w' : ω} {t t' : Talloc FreeLists} {m : Mem} {found : Option (Nat × Nat)},
    R w t m → findLoop oom l size fuel g w t = .ok (found, w', t') →
    ∃ m', findLoop oomMem l size fuel g w (t.on m) = .ok (found, w', t'.on m') ∧ R w' t' m' := by
  intro fuel
  induction fuel with
  | zero =>
    intro g w w' t t' m found _ hrun
    cases hrun
  | succ fuel ih =>
    intro g w w' t t' m found hR hrun
    simp only [findLoop] at hrun ⊢
    rw [show (t.on m).avails = t.avails from rfl]
    by_cases hz : t.avails &&& ((1 <<< g) - 1) = 0
    · rw [if_pos hz] at hrun ⊢
      obtain ⟨⟨b, w₁, t₁⟩, hoom, hrun⟩ := bind_ok hrun
      obtain ⟨m₁, hoom', hR₁⟩ := hF hR hoom
      rw [hoom', ok_bind]
      cases b with
      | true =>
        obtain ⟨g₁, hg, hrun⟩ := bind_ok hrun
        obtain ⟨m', hrun', hR'⟩ := ih hR₁ hrun
        refine ⟨m', ?_, hR'⟩
        show (t₁.blockGranularity size >>= _) = _
        rw [hg]
        exact hrun'
      | false =>
        cases hrun
        exact ⟨m₁, rfl, hR₁⟩
    · rw [if_neg hz] at hrun ⊢
      cases hrun
      exact ⟨m, rfl, hR⟩

/-- `alloc` in memory once the arena is large enough: after the handler, whose
last state is `t₁`, the block is taken from the lists and split. -/
theorem allocBlock_sim (hF : Follows oom oomMem R) (hR : ∀ {w t m}, R w t m → t.Sep ∧ t.Rep m)
    {l : Layout} {size fuel : Nat} {w w' : ω} {t t' : Talloc FreeLists} {m : Mem}
    {ptr : Option Int} (h : R w t m) (hs' : t'.Sep)
    (hrun : allocBlock oom l size fuel w t = .ok (ptr, w', t')) :
    ∃ t₁ m₁ m', R w' t₁ m₁ ∧ allocBlock oomMem l size fuel w (t.on m) = .ok (ptr, w', t'.on m') ∧
      t'.Rep m' ∧ Only (fun x => t₁.Books x ∨ t'.Books x) m₁ m' := by
  unfold allocBlock at hrun ⊢
  obtain ⟨g, hg, hrun⟩ := bind_ok hrun
  rw [show (t.on m).blockGranularity size = .ok g from hg, ok_bind,
    show (t.on m).avails = t.avails from rfl]
  by_cases hav : t.avails &&& (1 <<< g) ≠ 0
  · rw [if_pos hav] at hrun ⊢
    obtain ⟨⟨node, t₂⟩, hrem, hrun⟩ := bind_ok hrun
    obtain ⟨p, hp, hrun⟩ := bind_ok hrun
    cases hrun
    obtain ⟨b, tail, i, hl, hoff, hi, heq⟩ := removeBlockNext_ok hrem
    cases heq
    obtain ⟨hs, hr⟩ := hR h
    obtain ⟨m', hrun', hr', honly⟩ := removeBlockNext_sim hr hs hl hoff hi
    refine ⟨t, m, m', h, ?_, hr', honly.mono fun x => Or.inl⟩
    rw [hrun', ok_bind]
    dsimp only
    rw [hp]
    rfl
  · rw [if_neg hav] at hrun ⊢
    obtain ⟨⟨found, w₁, t₁⟩, hfind, hrun⟩ := bind_ok hrun
    obtain ⟨m₁, hfind', h₁⟩ := findLoop_sim hF fuel h hfind
    rw [hfind', ok_bind]
    obtain ⟨hs₁, hr₁⟩ := hR h₁
    -- the handler may have moved the status data, so the rest is over its memory
    cases found with
    | none =>
      cases hrun
      exact ⟨t', m₁, m₁, h₁, rfl, hr₁, Only.refl _ m₁⟩
    | some r =>
      obtain ⟨g', larger⟩ := r
      obtain ⟨⟨base, t₂⟩, hrem, hrun⟩ := bind_ok hrun
      obtain ⟨t₃, hbr, hrun⟩ := bind_ok hrun
      obtain ⟨p, hp, hrun⟩ := bind_ok hrun
      cases hrun
      obtain ⟨b, tail, i, hl, hoff, hi, heq⟩ := removeBlockNext_ok hrem
      cases heq
      obtain ⟨m₂, hrem', hr₂, honly₂⟩ := removeBlockNext_sim hr₁ hs₁ hl hoff hi
      obtain ⟨m', hbr', hr', honly'⟩ := breakDown_sim _ hbr hr₂ hs'
      refine ⟨t₁, m₁, m', h₁, ?_, hr', (honly₂.mono fun x => Or.inl).trans
        (honly'.mono fun x => Or.inr)⟩
      dsimp only
      rw [show (t₁.on m₁).arenaSizePow2 = t₁.arenaSizePow2 from rfl, hrem', ok_bind]
      dsimp only
      rw [hbr', ok_bind, hp]
      rfl

/-- `alloc` in memory. -/
theorem alloc_sim (hF : Follows oom oomMem R) (hR : ∀ {w t m}, R w t m → t.Sep ∧ t.Rep m)
    {l : Layout} {fuel : Nat} {w w' : ω} {t t' : Talloc FreeLists} {m : Mem}
    {ptr : Option Int} (h : R w t m) (hs' : t'.Sep)
    (hrun : alloc oom fuel w t l = .ok (ptr, w', t')) :
    ∃ t₁ m₁ m', R w' t₁ m₁ ∧ alloc oomMem fuel w (t.on m) l = .ok (ptr, w', t'.on m') ∧
      t'.Rep m' ∧ Only (fun x => t₁.Books x ∨ t'.Books x) m₁ m' := by
  unfold alloc at hrun ⊢
  obtain ⟨⟨ok, w₁, t₁⟩, hgrow, hrun⟩ := bind_ok hrun
  obtain ⟨m₁, hgrow', h₁⟩ := growLoop_sim hF fuel h hgrow
  dsimp only at hrun ⊢
  rw [show (t.on m).layoutToSize l = t.layoutToSize l from rfl, hgrow', ok_bind]
  cases ok with
  | true => exact allocBlock_sim (R := R) hF hR h₁ hs' hrun
  | false =>
    cases hrun
    exact ⟨t', m₁, m₁, h₁, rfl, (hR h₁).2, Only.refl _ m₁⟩

end Alloc

end Talloc

/-! ## Operations in memory -/

section Ops

variable {K J : Nat} {L L' : Ledger} {t t' : Talloc FreeLists} {m m' : Mem}

/-- What an operation writes. `alloc` lets the handler make some of the calls of
its script, and then writes to the records before and after its own part. -/
def Op.Writes (L : Ledger) (t : Talloc FreeLists) (m : Mem) (L' : Ledger) (t' : Talloc FreeLists)
    (m' : Mem) : Op → Prop
  | .act a => a.Writes t m L' t' m'
  | .alloc _ script => ∃ used rest L₁ t₁ m₁, script = used ++ rest ∧
      ActsIn (used.flatMap Answer.acts) L t m L₁ t₁ m₁ ∧
      Talloc.Only (fun x => t₁.Books x ∨ t'.Books x) m₁ m' ∧
      ∀ q ∈ L₁.live, ∀ x, t₁.Owns q x → m' x = m₁ x

/-- What holds while the handler is asked: the accounting, and the calls so far. -/
structure Asked (K J : Nat) (script : List Answer) (L₀ : Ledger) (t₀ : Talloc FreeLists) (m₀ : Mem)
    (w : Ledger × List Answer) (t : Talloc FreeLists) (m : Mem) : Prop where
  acc : Accounted K J w.1 t
  allowed : ScriptAllowed w.2 w.1 t
  rep : t.Rep m
  arena : t.toArena = t₀.toArena
  acts : ∃ used, script = used ++ w.2 ∧ ActsIn (used.flatMap Answer.acts) L₀ t₀ m₀ w.1 t m

/-- A script runs in memory as it does on lists. -/
theorem scripted_follows {script : List Answer} {L₀ : Ledger} {t₀ : Talloc FreeLists} {m₀ : Mem} :
    Talloc.Follows scripted scripted (Asked K J script L₀ t₀ m₀) := by
  intro w w' t t' m l ok hw hrun
  obtain ⟨L, rest⟩ := w
  cases rest with
  | nil =>
    cases hrun
    exact ⟨m, rfl, hw⟩
  | cons answer rest =>
    obtain ⟨⟨L₁, t₁⟩, hacts, hend⟩ := bind_ok hrun
    cases hend
    obtain ⟨m', hmem, hr', hin⟩ := runActs_sim answer.acts hw.acc hw.allowed.1 hw.rep hacts
    obtain ⟨hacc, hsh⟩ := runActs_accounted hw.acc hw.allowed.1 hacts
    refine ⟨m', ?_, hacc, hw.allowed.2 _ _ hacts, hr', hsh.arena.trans hw.arena, ?_⟩
    · simp only [scripted, hmem, ok_bind]
      rfl
    · obtain ⟨used, hused, hin₀⟩ := hw.acts
      refine ⟨used ++ [answer], ?_, ?_⟩
      · rw [hused]
        simp
      · rw [List.flatMap_append, List.flatMap_singleton]
        exact hin₀.append hin

/-- An operation in memory. -/
theorem Op.run_sim {op : Op} {ptr : Option Int} (h : Accounted K J L t) (ha : op.Allowed L t)
    (hr : t.Rep m) (hrun : op.run L t = .ok (ptr, L', t')) :
    ∃ m', op.run L (t.on m) = .ok (ptr, L', t'.on m') ∧ t'.Rep m' ∧ op.Writes L t m L' t' m' ∧
      Accounted K J L' t' := by
  obtain ⟨hacc', hsh, _⟩ := Op.accounted h ha hrun
  cases op with
  | act a =>
    obtain ⟨⟨L₁, t₁⟩, hact, hend⟩ := bind_ok hrun
    cases hend
    obtain ⟨m', hmem, hr', hw, _⟩ := Act.run_sim h ha hr hact
    refine ⟨m', ?_, hr', hw, hacc'⟩
    simp only [Op.run, hmem, ok_bind]
    rfl
  | alloc layout script =>
    obtain ⟨hv, h0, hsc⟩ := ha
    obtain ⟨⟨ptr₁, ⟨L₁, rest⟩, t₂⟩, halloc, hend⟩ := bind_ok hrun
    -- the final state and ledger, by whether a block was handed out
    have hfin : t₂ = t' ∧ ptr₁ = ptr ∧
        L' = match ptr with
          | none => L₁
          | some p => { L₁ with live := (p, layout) :: L₁.live } := by
      cases ptr₁ with
      | none => cases hend; exact ⟨rfl, rfl, rfl⟩
      | some p => cases hend; exact ⟨rfl, rfl, rfl⟩
    obtain ⟨rfl, rfl, hL'⟩ := hfin
    have hstart : Asked K J script L t m (L, script) t m :=
      ⟨h, hsc, hr, rfl, [], rfl, ActsIn.nil⟩
    obtain ⟨t₁, m₁, m', hasked, hmem, hr', honly⟩ :=
      Talloc.alloc_sim (R := Asked K J script L t m) scripted_follows
        (fun hw => ⟨hw.acc.sep, hw.rep⟩) hstart hacc'.sep halloc
    obtain ⟨used, hused, hin⟩ := hasked.acts
    refine ⟨m', ?_, hr', ⟨used, rest, L₁, t₁, m₁, hused, hin, honly, fun q hq x hx => ?_⟩, hacc'⟩
    · simp only [Op.run, hmem, ok_bind]
      cases ptr₁ with
      | none => rw [hL']; rfl
      | some p => rw [hL']; rfl
    · have hq' : q ∈ L'.live := by
        rw [hL']
        cases ptr₁ with
        | none => exact hq
        | some p => exact List.mem_cons_of_mem _ hq
      have hlive : L'.Live t₂.toArena x := by
        rw [hsh.arena, ← hasked.arena]
        exact ⟨q, hq', hx⟩
      exact honly x fun hc => hc.elim (hasked.acc.live_not_books ⟨q, hq, hx⟩)
        (hacc'.live_not_books hlive)

end Ops

/-! ## Runs in memory -/

section New

variable {arenaBase : Int} {arenaSize K J : Nat} {freeMem : Slice} {m : Mem}

/-- Each new list is a ring without nodes. -/
theorem Talloc.ring_newLlists {p : Int} : ∀ (n : Nat) {g : Nat},
    (∀ i, i < n → InIsize (p + (i * nodeSize : Nat))) → g < n →
    Llist.Ring (newLlists m p n) (p + (g * nodeSize : Nat)) [] := by
  intro n
  induction n with
  | zero => intro g _ hg; omega
  | succ n ih =>
    intro g hin hg
    by_cases hgn : g = n
    · subst hgn
      exact Llist.ring_newLlist (hin g (Nat.lt_succ_self g))
    · refine (ih (fun i hi => hin i (Nat.lt_succ_of_lt hi)) (by omega)).frame fun s hs x hx => ?_
      rw [List.mem_singleton.mp hs] at hx
      refine Llist.newLlist_of_not_cell fun hc => ?_
      unfold Llist.Cell nodeSize at hx hc
      omega

/-- The memory in which `new` starts to release. -/
def Talloc.blank (m : Mem) (K J : Nat) (freeMem : Slice) : Mem :=
  let llistsPtr := freeMem.ptr + llAlignOffset freeMem
  zeroBytes (newLlists m llistsPtr (K - J + 1))
    (freeMem.ptr + (llAlignOffset freeMem + (K - J + 1) * nodeSize : Nat))
    (max (2 ^ (K - J + 1) / 8) 1)

/-- The memory that `new` prepares holds the empty lists. -/
theorem Talloc.fresh_rep (h : Site arenaBase arenaSize (2 ^ J) freeMem)
    (hroom : statusBytes K J freeMem ≤ freeMem.len) :
    (fresh arenaBase arenaSize K J freeMem).Rep (blank m K J freeMem) := by
  have hin : ∀ i, i < K - J + 1 →
      InIsize (freeMem.ptr + llAlignOffset freeMem + (i * nodeSize : Nat)) := by
    intro i hi
    have hle : llAlignOffset freeMem + i * nodeSize ≤ freeMem.len := by
      have : i * nodeSize ≤ (K - J + 1) * nodeSize := Nat.mul_le_mul_right _ hi.le
      unfold statusBytes at hroom
      omega
    have := h.place.inIsize hle
    push_cast at this ⊢
    rw [add_assoc]
    exact this
  refine ⟨fun {g} hg => ?_, fun {i} hi => ?_⟩
  · rw [list_moveLists_nil rfl]
    refine (ring_newLlists (m := m) (K - J + 1) hin hg).frame fun s hs x hx => if_neg ?_
    -- the bitmap starts behind the last sentinel
    rw [List.mem_singleton.mp hs] at hx
    have hg' : g < K - J + 1 := hg
    unfold Llist.Cell nodeSize at hx
    unfold nodeSize
    push_cast at hx ⊢
    omega
  · have hi' : i < max (2 ^ (K - J + 1) / 8) 1 := hi
    have hzero : (List.replicate (max (2 ^ (K - J + 1) / 8) 1) (0 : BitVec 8)).getD i 0 = 0 := by
      simp [List.getD_eq_getElem?_getD, hi']
    refine Eq.trans (if_pos ?_) hzero.symm
    constructor
    · exact le_add_of_nonneg_right (Int.natCast_nonneg i)
    · exact add_lt_add_right (Int.ofNat_lt.mpr hi') _

/-- `new` in memory is the `release` of the rest of `free_mem`. -/
theorem Talloc.newIn_eq (h : Site arenaBase arenaSize (2 ^ J) freeMem)
    (hs : sliceBytes arenaSize (2 ^ J) = .ok ((K - J + 1) * nodeSize, max (2 ^ (K - J + 1) / 8) 1))
    (hroom : statusBytes K J freeMem ≤ freeMem.len) :
    newIn m arenaBase arenaSize (2 ^ J) freeMem
      = ((fresh arenaBase arenaSize K J freeMem).on (blank m K J freeMem)).release
        (tailOf K J freeMem) := by
  obtain ⟨h1, h2, h3⟩ := h.place.addresses hroom
  have hcheck := h.place.checkExtend (t := newInvalid (2 ^ J)) rfl
  have hn : (K - J + 1) * nodeSize / nodeSize = K - J + 1 := Nat.mul_div_cancel _ (by decide)
  rw [h1] at h2
  unfold newIn fresh blank on
  simp only [hs, ok_bind, hcheck, h3, hn, h2, h1]

/-- `new` in memory does what it does on free lists. -/
theorem Talloc.new_sim {smallestBlock : Nat} {t : Talloc FreeLists}
    (h : Site arenaBase arenaSize smallestBlock freeMem)
    (hnew : new arenaBase arenaSize smallestBlock freeMem = .ok t) (m₀ : Mem) :
    ∃ m, newIn m₀ arenaBase arenaSize smallestBlock freeMem = .ok (t.on m) ∧ t.Rep m := by
  obtain ⟨⟨ll, bm⟩, hs, _⟩ := bind_ok hnew
  obtain ⟨K, J, hJ2, hK, hJ, hJK, hK48, h64, hn, hlen⟩ := sliceBytes_ok hs
  cases hlen
  have hsm : (newInvalid smallestBlock).smlstBlock = smallestBlock := rfl
  rw [hsm] at hJ2 hs
  subst hJ2
  have hnat := h.natural hK hJ hJK hK48 hn
  have hrel := h.releasable hs hnat
  obtain ⟨c, _, hc1, hc2⟩ := h.place.room_le hs
  have hroom : statusBytes K J freeMem ≤ freeMem.len := by omega
  rw [new_eq h.place hs] at hnew
  have hclean : Clean J (fresh arenaBase arenaSize K J freeMem) (tailOf K J freeMem) := by
    refine ⟨?_, fun x hst hx => ?_⟩
    · show freeMem.ptr + (llAlignOffset freeMem + (K - J + 1) * nodeSize : Nat)
        = freeMem.ptr + llAlignOffset freeMem + ((K - J + 1) * nodeSize : Nat)
      push_cast
      ring
    · have h1 := le_of_spanFirst_le hx.1
      have h2 : x < _ := hst.2
      rw [fresh_end] at h2
      exact absurd h1 (not_le.mpr h2)
  obtain ⟨m, hrun, hr, _⟩ := release_sim hrel hclean (fun x hx => absurd hx (fresh_not_free x))
    (fresh_rep (m := m₀) h hroom) hnew
  exact ⟨m, (newIn_eq h hs hroom).trans hrun, hr⟩

end New

/-- The memory after a run: the calls that lead to `t` on free lists, made in memory
from `m₀` on. -/
inductive InMemory (arenaBase : Int) (arenaSize smallestBlock : Nat) (freeMem : Slice) (m₀ : Mem) :
    Ledger → Talloc FreeLists → Mem → Prop
  | new {t : Talloc FreeLists} {m : Mem} :
      Talloc.new arenaBase arenaSize smallestBlock freeMem = .ok t →
      Talloc.newIn m₀ arenaBase arenaSize smallestBlock freeMem = .ok (t.on m) →
      InMemory arenaBase arenaSize smallestBlock freeMem m₀ ⟨[], [t.behind freeMem]⟩ t m
  | call {L L' : Ledger} {t t' : Talloc FreeLists} {m m' : Mem} {op : Op} {ptr : Option Int} :
      InMemory arenaBase arenaSize smallestBlock freeMem m₀ L t m → op.Allowed L t →
      op.run L t = .ok (ptr, L', t') → op.run L (t.on m) = .ok (ptr, L', t'.on m') →
      InMemory arenaBase arenaSize smallestBlock freeMem m₀ L' t' m'

section InMemory

variable {arenaBase : Int} {arenaSize smallestBlock : Nat} {freeMem : Slice} {m₀ m : Mem}
  {L : Ledger} {t : Talloc FreeLists}

/-- The memory is part of the state. -/
theorem Talloc.on_injective {t : Talloc FreeLists} {m m' : Mem} (h : t.on m = t.on m') : m = m' :=
  congrArg Talloc.store h

/-- The memory of a run holds its lists and its bitmap. -/
theorem InMemory.rep (hsite : Site arenaBase arenaSize smallestBlock freeMem)
    (h : InMemory arenaBase arenaSize smallestBlock freeMem m₀ L t m) :
    Run arenaBase arenaSize smallestBlock freeMem L t ∧ t.Rep m := by
  induction h with
  | new hnew hmem =>
    obtain ⟨m₁, hmem₁, hr⟩ := Talloc.new_sim hsite hnew m₀
    rw [hmem] at hmem₁
    rw [Talloc.on_injective (Except.ok.inj hmem₁)]
    exact ⟨⟨hsite, _, hnew, Calls.refl⟩, hr⟩
  | call _ ha hrun hmem ih =>
    obtain ⟨hR, hr⟩ := ih
    obtain ⟨K, J, hacc, _⟩ := hR.accounted
    obtain ⟨m₁, hmem₁, hr₁, _⟩ := Op.run_sim hacc ha hr hrun
    rw [hmem] at hmem₁
    have hm : _ = m₁ := Talloc.on_injective (congrArg (fun r => r.2.2) (Except.ok.inj hmem₁))
    rw [hm]
    obtain ⟨_, t₀, hnew, hcalls⟩ := hR
    exact ⟨⟨hsite, t₀, hnew, Calls.call hcalls trivial ha hrun⟩, hr₁⟩

/-- The runs in memory and on free lists go in step, and each operation writes to
sentinels, bitmap bytes and nodes of free blocks only, or to the slice it releases. -/
theorem run_in_memory (h : Run arenaBase arenaSize smallestBlock freeMem L t) (m₀ : Mem) :
    (∃ m, InMemory arenaBase arenaSize smallestBlock freeMem m₀ L t m) ∧
    ∀ m, InMemory arenaBase arenaSize smallestBlock freeMem m₀ L t m → t.Rep m ∧
      ∀ (op : Op) (ptr : Option Int) (L' : Ledger) (t' : Talloc FreeLists), op.Allowed L t →
        op.run L t = .ok (ptr, L', t') →
        ∃ m', op.run L (t.on m) = .ok (ptr, L', t'.on m') ∧ t'.Rep m' ∧
          op.Writes L t m L' t' m' := by
  have hsite := h.1
  constructor
  · obtain ⟨_, t₀, hnew, hcalls⟩ := h
    induction hcalls with
    | refl =>
      obtain ⟨m, hmem, _⟩ := Talloc.new_sim hsite hnew m₀
      exact ⟨m, InMemory.new hnew hmem⟩
    | call _ _ ha hrun ih =>
      obtain ⟨m, hin⟩ := ih
      obtain ⟨hR, hr⟩ := hin.rep hsite
      obtain ⟨K, J, hacc, _⟩ := hR.accounted
      obtain ⟨m', hmem, _⟩ := Op.run_sim hacc ha hr hrun
      exact ⟨m', InMemory.call hin ha hrun hmem⟩
  · intro m hin
    obtain ⟨hR, hr⟩ := hin.rep hsite
    obtain ⟨K, J, hacc, _⟩ := hR.accounted
    refine ⟨hr, fun op ptr L' t' ha hrun => ?_⟩
    obtain ⟨m', hmem, hr', hw, _⟩ := Op.run_sim hacc ha hr hrun
    exact ⟨m', hmem, hr', hw⟩

/-- An allocation in a memory that was cleared. -/
theorem run_in_memory_sample : ∃ m m', sampleNew.Rep m ∧
    (Op.alloc ⟨40, 8⟩ []).run (sampleLedger []) (sampleNew.on m)
      = .ok (some 4224, sampleLedger [(4224, ⟨40, 8⟩)], sampleTaken.on m') ∧ sampleTaken.Rep m' ∧
    (Op.alloc ⟨40, 8⟩ []).Writes (sampleLedger []) sampleNew m (sampleLedger [(4224, ⟨40, 8⟩)])
      sampleTaken m' := by
  obtain ⟨⟨m, hin⟩, hall⟩ := run_in_memory sample_run fun _ => 0
  obtain ⟨hr, hstep⟩ := hall m hin
  obtain ⟨m', hmem, hr', hw⟩ := hstep _ _ _ _ sample_alloc_allowed sample_alloc
  exact ⟨m, m', hr, hmem, hr', hw⟩

end InMemory

end Tauos.Memm
