import Tauos.Memm.BestFit
import Tauos.Memm.Footprint
import Tauos.Memm.Tallock

/-!
# `Tallock::realloc`

Growth is `alloc`, a copy and `dealloc`; anything else is `shrink` in place. The bytes of
the block have to survive the records that the calls write: `alloc` writes to nodes while
the old block is outstanding, `dealloc` while the new one is, and neither is ever a node.

> `realloc_keeps`: from every state in which the ledger accounts for the arena and the
> memory holds the records, under the handler that refuses. Either the null pointer is
> returned and nothing has changed, or the contents have moved, the ledger has the new
> layout in place of the old one, and what is left of the old block is free.
-/

namespace Tauos.Memm

open Tauos.Rust Tauos.Utils Tauos.Buddy

/-- `ptr::null_mut()`. -/
def null : Int := 0

namespace Tallock

/-- `GlobalAlloc::dealloc`. -/
def dealloc {σ : Type} [Store σ] (t : Talloc σ) (ptr : Int) (layout : Layout) :
    Except Fault (Talloc σ) := do
  t.dealloc (← nonNull ptr) layout

/-- `GlobalAlloc::realloc`. -/
def realloc {ω : Type} (oom : OomHandler ω Mem) (fuel : Nat) (w : ω) (t : Talloc Mem) (ptr : Int)
    (oldLayout : Layout) (newSize : Nat) : Except Fault (Int × ω × Talloc Mem) := do
  if oldLayout.size < newSize then
    let (allocation, w, t) ← Talloc.alloc oom fuel w t ⟨newSize, oldLayout.align⟩
    match allocation with
    | some allocdPtr =>
      let store ← copyNonoverlapping t.store ptr allocdPtr oldLayout.size
      let t ← dealloc { t with store } ptr oldLayout
      return (allocdPtr, w, t)
    | none => return (null, w, t)
  else
    let t ← t.shrink (← nonNull ptr) oldLayout ⟨newSize, oldLayout.align⟩
    return (ptr, w, t)

end Tallock

/-! ## The refusing handler in memory -/

section Refusing

variable {ω σ : Type} {w w' : ω} {l : Layout} {fuel : Nat}

/-- The first loop of `alloc` asks once. -/
theorem growLoop_refusing {t : Talloc σ} (w : ω) (size fuel : Nat) :
    Talloc.growLoop mapperOomHandler l size (fuel + 1) w t
      = .ok (!decide (t.arenaSize < size), w, t) := by
  unfold Talloc.growLoop
  by_cases hlt : t.arenaSize < size
  · rw [if_pos hlt, decide_eq_true hlt]
    rfl
  · rw [if_neg hlt, decide_eq_false hlt]
    rfl

/-- An `alloc` that is refused has changed nothing, whatever the store. -/
theorem alloc_refused [Store σ] {t t' : Talloc σ}
    (h : Talloc.alloc mapperOomHandler (fuel + 1) w t l = .ok (none, w', t')) : t' = t := by
  dsimp only [Talloc.alloc] at h
  rw [growLoop_refusing, ok_bind] at h
  by_cases hlt : t.arenaSize < t.layoutToSize l
  · rw [decide_eq_true hlt] at h
    cases h
    rfl
  · rw [decide_eq_false hlt] at h
    dsimp only at h
    rw [Bool.not_false, if_pos rfl] at h
    unfold Talloc.allocBlock at h
    obtain ⟨g, _, h⟩ := bind_ok h
    by_cases hav : t.avails &&& (1 <<< g) ≠ 0
    · rw [if_pos hav] at h
      obtain ⟨⟨node, t₁⟩, _, h⟩ := bind_ok h
      obtain ⟨p, _, h⟩ := bind_ok h
      cases h
    · rw [if_neg hav, findLoop_refusing] at h
      split at h
      · cases h
        rfl
      · rw [ok_bind] at h
        obtain ⟨⟨base, t₁⟩, _, h⟩ := bind_ok h
        obtain ⟨t₂, _, h⟩ := bind_ok h
        obtain ⟨p, _, h⟩ := bind_ok h
        cases h

end Refusing

/-! ## The steps of `realloc` -/

section Steps

variable {ω : Type} {K J : Nat} {L : Ledger} {t : Talloc FreeLists} {m m' : Mem} {q : Int × Layout}

/-- The records survive what is written elsewhere. -/
theorem Talloc.Rep.frame (hr : t.Rep m) (hs : t.Sep) (hsame : ∀ x, t.Books x → m' x = m x) :
    t.Rep m' := by
  refine ⟨fun hg => ?_, fun {i} hi => ?_⟩
  · exact (hr.rings hg).frame fun n hn x hx => hsame x (hs.cell_books hg hn hx)
  · rw [hsame, hr.bytes hi]
    have hlayout := hs.layout
    refine Or.inl ⟨?_, ?_⟩
    · omega
    · omega

/-- No allocation is at address 0. -/
theorem Accounted.ptr_ne_null (h : Accounted K J L t) (hq : q ∈ L.live) : q.1 ≠ 0 := by
  intro hnull
  have hgiven : L.Given J q.1 := (h.account q.1).mp (Or.inr ⟨q, hq, h.owns_ptr hq⟩)
  refine hgiven.not_null ?_
  rw [hnull]
  exact within_base J 0

/-- So its pointer is taken. -/
theorem Accounted.nonNull_ptr (h : Accounted K J L t) (hq : q ∈ L.live) :
    Memm.nonNull q.1 = .ok q.1 :=
  if_neg (h.ptr_ne_null hq)

/-- Address 0 is not free. -/
theorem Accounted.null_not_free (h : Accounted K J L t) : ¬ t.Free 0 := by
  intro hfree
  have := h.nonNull ((h.inv.free_iff 0).mp hfree)
  cases this

/-- The bytes of the layout are in the block. -/
theorem Accounted.owns_range (h : Accounted K J L t) (hq : q ∈ L.live) {x : Int} (hlo : q.1 ≤ x)
    (hhi : x < q.1 + q.2.size) : t.Owns q x := by
  obtain ⟨e, hsize, _, _, _, _, hfit, _⟩ := h.blocks hq
  unfold Arena.Owns
  rw [hsize]
  omega

/-- The first bytes of two outstanding allocations. -/
theorem Accounted.bytes_apart {q' : Int × Layout} {live : List (Int × Layout)} {given : List Slice}
    (h : Accounted K J ⟨q' :: live, given⟩ t) (hq : q ∈ live) (hle : q.2.size ≤ q'.2.size) :
    q.1 + q.2.size ≤ q'.1 ∨ q'.1 + q.2.size ≤ q.1 := by
  have hapart := (List.pairwise_cons.mp h.apart).1 q hq
  have hq' := List.mem_cons_of_mem q' hq
  by_contra hcon
  by_cases hcmp : q'.1 ≤ q.1
  · exact hapart q.1 (h.owns_range (List.mem_cons_self ..) hcmp (by omega)) (h.owns_ptr hq')
  · exact hapart q'.1 (h.owns_ptr (List.mem_cons_self ..)) (h.owns_range hq' (by omega) (by omega))

/-- `alloc` in memory under the refusing handler: no free block is large enough and nothing
changes, or one is handed out and no outstanding byte is written. -/
theorem Accounted.alloc_refusing_mem (h : Accounted K J L t) (hr : t.Rep m) {l : Layout}
    (hl : l.Valid) (h0 : l.size ≠ 0) (w : ω) (fuel : Nat) :
    (Talloc.alloc mapperOomHandler (fuel + 1) w (t.on m) l = .ok (none, w, t.on m) ∧
      ¬ t.Offers (t.layoutToSize l)) ∨
    ∃ p t₁ m₁, Talloc.alloc mapperOomHandler (fuel + 1) w (t.on m) l = .ok (some p, w, t₁.on m₁) ∧
      t.Offers (t.layoutToSize l) ∧
      Accounted K J ⟨(p, l) :: L.live, L.given⟩ t₁ ∧ t₁.Rep m₁ ∧ Talloc.SameShape t t₁ ∧
      ∀ x, L.Live t.toArena x → m₁ x = m x := by
  have hK := h.inv.nat.hK
  have hJK := h.inv.nat.hJK
  obtain ⟨e, hsize, hJe, _, hsz, hal⟩ := layoutToSize_spec (a := t.toArena) hl h0 h.inv.nat.smlst
    (by omega)
  -- the handler is asked in the first state only
  let R : ω → Talloc FreeLists → Mem → Prop := fun w' t' m' => w' = w ∧ t' = t ∧ m' = m
  have hfollows : Talloc.Follows mapperOomHandler mapperOomHandler R := by
    intro w₁ w₂ t₁ t₂ m₁ l' ok hR hrun
    cases hrun
    exact ⟨m₁, rfl, hR⟩
  have hrep : ∀ {w' : ω} {t' : Talloc FreeLists} {m' : Mem}, R w' t' m' → t'.Sep ∧ t'.Rep m' := by
    intro w' t' m' hR
    obtain ⟨_, rfl, rfl⟩ := hR
    exact ⟨h.sep, hr⟩
  rcases alloc_refusing h.inv h.null_not_free hsize hJe w fuel with
    ⟨hrun, hoff⟩ | ⟨p, g, t₁, hrun, hbest, htk, heK⟩
  · obtain ⟨_, _, m₁, _, hmem, _⟩ :=
      Talloc.alloc_sim (R := R) hfollows hrep ⟨rfl, rfl, rfl⟩ h.sep hrun
    have heq := alloc_refused hmem
    rw [heq] at hmem
    rw [show t.layoutToSize l = 2 ^ e from hsize]
    exact Or.inl ⟨hmem, hoff⟩
  · have hacc := h.take hsize hJe heK hsz hal htk
    have hoffers : t.Offers (t.layoutToSize l) := by
      rw [show t.layoutToSize l = 2 ^ e from hsize]
      exact ⟨g, p, hbest.mem, hbest.fits⟩
    obtain ⟨t₀, m₀, m₁, ⟨_, rfl, rfl⟩, hmem, hr₁, honly⟩ :=
      Talloc.alloc_sim (R := R) hfollows hrep ⟨rfl, rfl, rfl⟩ hacc.sep hrun
    refine Or.inr ⟨p, t₁, m₁, hmem, hoffers, hacc, hr₁, htk.shape, fun x hx => honly x fun hc => ?_⟩
    refine hc.elim (h.live_not_books hx) (hacc.live_not_books ?_)
    rw [Ledger.live_cons, htk.shape.arena]
    exact Or.inr hx

/-- The allocation `(ptr, old)` has become `(p, new)`. -/
structure Reallocated (K J : Nat) (L : Ledger) (t : Talloc FreeLists) (m : Mem) (ptr : Int)
    (old new : Layout) (p : Int) (t' : Talloc FreeLists) (m' : Mem) : Prop where
  contents : ∀ i : Nat, i < min old.size new.size → m' (p + i) = m (ptr + i)
  outstanding : Accounted K J ⟨(p, new) :: L.live.erase (ptr, old), L.given⟩ t'
  rep : t'.Rep m'
  arena : t'.toArena = t.toArena
  rest : ∀ x, t.Owns (ptr, old) x → ¬ t'.Owns (p, new) x → t'.Free x
  grown : old.size < new.size → ∀ x, t.Owns (ptr, old) x → t'.Free x
  others : ∀ q ∈ L.live.erase (ptr, old), ∀ x, t.Owns q x → m' x = m x

/-- What the old block does not share with the new one is free. -/
theorem Accounted.free_of_erased {t' : Talloc FreeLists} {p ptr : Int} {old new : Layout} {x : Int}
    (h : Accounted K J L t) (hq : (ptr, old) ∈ L.live)
    (hacc : Accounted K J ⟨(p, new) :: L.live.erase (ptr, old), L.given⟩ t')
    (harena : t'.toArena = t.toArena) (hx : t.Owns (ptr, old) x) (hnew : ¬ t'.Owns (p, new) x) :
    t'.Free x := by
  obtain ⟨_, hhead, _⟩ := h.live_erase hq
  refine (hacc.free_iff x).mpr ⟨(h.account x).mp (Or.inr ⟨_, hq, hx⟩), fun hlive => ?_⟩
  rcases Ledger.live_cons.mp hlive with hlive | ⟨q', hq', hx'⟩
  · exact hnew hlive
  · rw [harena] at hx'
    exact hhead q' hq' x hx hx'

/-- Growth, after the new block was handed out. -/
theorem Accounted.move {t₁ : Talloc FreeLists} {m₁ : Mem} {p ptr : Int} {old new : Layout}
    (h : Accounted K J L t) (hq : (ptr, old) ∈ L.live) (hlt : old.size < new.size)
    (hacc : Accounted K J ⟨(p, new) :: L.live, L.given⟩ t₁) (hr : t₁.Rep m₁)
    (hsh : Talloc.SameShape t t₁) (hkept : ∀ x, L.Live t.toArena x → m₁ x = m x) :
    ∃ m₂ t' m', copyNonoverlapping m₁ ptr p old.size = .ok m₂ ∧
      Tallock.dealloc (t₁.on m₂) ptr old = .ok (t'.on m') ∧
      Reallocated K J L t m ptr old new p t' m' := by
  have hnew : (p, new) ∈ (p, new) :: L.live := List.mem_cons_self ..
  have hold : (ptr, old) ∈ (p, new) :: L.live := List.mem_cons_of_mem _ hq
  have hapart := (List.pairwise_cons.mp hacc.apart).1
  have herase : ((p, new) :: L.live).erase (ptr, old) = (p, new) :: L.live.erase (ptr, old) := by
    refine List.erase_cons_tail ?_
    rw [beq_iff_eq]
    intro heq
    exact hacc.ptr_ne hq (congrArg Prod.fst heq).symm
  have hcopy : copyNonoverlapping m₁ ptr p old.size = .ok fun x =>
      if p ≤ x ∧ x < p + old.size then m₁ (x - p + ptr) else m₁ x :=
    if_pos (hacc.bytes_apart hq (Nat.le_of_lt hlt))
  -- the copy writes into the new block, which holds no records
  have hr₂ : t₁.Rep fun x => if p ≤ x ∧ x < p + old.size then m₁ (x - p + ptr) else m₁ x := by
    refine hr.frame hacc.sep fun x hx => if_neg fun hc => ?_
    have hin : t₁.Owns (p, new) x := hacc.owns_range hnew hc.1 (hc.2.trans (by dsimp only; omega))
    exact hacc.live_not_books ⟨_, hnew, hin⟩ hx
  obtain ⟨t', hrun, hacc', hsh', _⟩ := hacc.dealloc hold
  have hact : (Act.dealloc ptr old).run ⟨(p, new) :: L.live, L.given⟩ t₁
      = .ok (⟨((p, new) :: L.live).erase (ptr, old), L.given⟩, t') := by
    dsimp only [Act.run]
    rw [hrun]
    rfl
  obtain ⟨m', hmem, hr', hwrites, _⟩ := Act.run_sim (a := .dealloc ptr old) hacc hold hr₂ hact
  obtain ⟨u, hdealloc, hend⟩ := bind_ok hmem
  cases hend
  rw [herase] at hacc' hwrites
  have harena' : t'.toArena = t.toArena := hsh'.arena.trans hsh.arena
  have hmove : ∀ x, t.Owns (ptr, old) x → ¬ t'.Owns (p, new) x := by
    intro x hx hx'
    rw [hsh'.arena] at hx'
    rw [← hsh.arena] at hx
    exact hapart (ptr, old) hq x hx' hx
  refine ⟨_, t', m', hcopy, ?_,
    ⟨fun i hi => ?_, hacc', hr', harena', ?_, ?_, fun q' hq' x hx => ?_⟩⟩
  · dsimp only [Tallock.dealloc]
    rw [hacc.nonNull_ptr hold]
    exact hdealloc
  · have hi' : i < old.size := lt_of_lt_of_le hi (min_le_left _ _)
    have hin : t'.Owns (p, new) (p + i) :=
      hacc'.owns_range (List.mem_cons_self ..) (by dsimp only; omega) (by dsimp only; omega)
    rw [hwrites.kept _ (List.mem_cons_self ..) _ hin, if_pos (by omega),
      show p + (i : Int) - p + ptr = ptr + i by omega]
    exact hkept _ ⟨_, hq, h.owns_range hq (by dsimp only; omega) (by dsimp only; omega)⟩
  · exact fun x => h.free_of_erased hq hacc' harena'
  · exact fun _ x hx => h.free_of_erased hq hacc' harena' hx (hmove x hx)
  · have hlive : q' ∈ L.live := List.mem_of_mem_erase hq'
    have hx' : t'.Owns q' x := by
      rw [harena']
      exact hx
    have hout : ¬ (p ≤ x ∧ x < p + old.size) := by
      intro hc
      rw [← hsh.arena] at hx
      exact hapart q' hlive x (hacc.owns_range hnew hc.1 (hc.2.trans (by dsimp only; omega))) hx
    rw [hwrites.kept q' (List.mem_cons_of_mem _ hq') x hx', if_neg hout]
    exact hkept x ⟨q', hlive, hx⟩

/-- A block that does not grow is shrunk in place. -/
theorem Accounted.shrink_in_place {ptr : Int} {old new : Layout} (h : Accounted K J L t)
    (hr : t.Rep m) (hq : (ptr, old) ∈ L.live) (hv : new.Valid) (h0 : new.size ≠ 0)
    (hle : new.size ≤ old.size) (halign : new.align = old.align) :
    ∃ t' m', (t.on m).shrink ptr old new = .ok (t'.on m') ∧
      Reallocated K J L t m ptr old new ptr t' m' := by
  obtain ⟨e, hsize, hJe, heK, _, _, hfit, hdvd⟩ := h.blocks hq
  have hK := h.inv.nat.hK
  -- the contract of `shrink`: no larger block is asked for
  have hblock : t.layoutToSize new ≤ t.layoutToSize old := by
    rw [show t.layoutToSize old = 2 ^ e from hsize]
    refine layoutToSize_le hv h0 h.inv.nat.smlst (by omega) hJe (hle.trans hfit) ?_
    rw [halign]
    exact Nat.le_of_dvd (Nat.two_pow_pos e) hdvd
  obtain ⟨t', hrun, hacc, hsh⟩ := h.shrink hq hv h0 hblock
  have hact : (Act.shrink ptr old new).run L t
      = .ok (⟨(ptr, new) :: L.live.erase (ptr, old), L.given⟩, t') := by
    dsimp only [Act.run]
    rw [hrun]
    rfl
  obtain ⟨m', hmem, hr', hwrites, _⟩ :=
    Act.run_sim (a := .shrink ptr old new) h ⟨hq, hv, h0, hblock⟩ hr hact
  obtain ⟨u, hshrink, hend⟩ := bind_ok hmem
  cases hend
  refine ⟨t', m', hshrink,
    ⟨fun i hi => ?_, hacc, hr', hsh.arena, ?_, fun hlt => ?_, fun q' hq' x hx => ?_⟩⟩
  · have hi' : i < new.size := lt_of_lt_of_le hi (min_le_right _ _)
    exact hwrites.kept _ (List.mem_cons_self ..) _
      (hacc.owns_range (List.mem_cons_self ..) (by dsimp only; omega) (by dsimp only; omega))
  · exact fun x => h.free_of_erased hq hacc hsh.arena
  · omega
  · refine hwrites.kept q' (List.mem_cons_of_mem _ hq') x ?_
    rw [hsh.arena]
    exact hx

/-- `realloc` under the refusing handler: null and nothing has changed, or the contents are
kept, the result is outstanding for the new layout in place of the old one, what the old
block has left is free, and no other allocation has changed. It is null exactly when the
block has to grow and no free block is large enough. -/
theorem realloc_keeps {ptr : Int} {old : Layout} {newSize : Nat} (h : Accounted K J L t)
    (hr : t.Rep m) (hq : (ptr, old) ∈ L.live) (hv : (Layout.mk newSize old.align).Valid)
    (h0 : newSize ≠ 0) (w : ω) (fuel : Nat) :
    ∃ p t' m', Tallock.realloc mapperOomHandler (fuel + 1) w (t.on m) ptr old newSize
        = .ok (p, w, t'.on m') ∧
      (p ≠ null → Reallocated K J L t m ptr old ⟨newSize, old.align⟩ p t' m') ∧
      (p = null → t' = t ∧ m' = m) ∧
      (p = null ↔ old.size < newSize ∧ ¬ t.Offers (t.layoutToSize ⟨newSize, old.align⟩)) := by
  unfold Tallock.realloc
  -- a larger block is allocated and copied to; otherwise the block shrinks where it is
  by_cases hlt : old.size < newSize
  · rw [if_pos hlt]
    rcases h.alloc_refusing_mem hr hv h0 w fuel with
      ⟨hrun, hoff⟩ | ⟨p, t₁, m₁, hrun, hoffers, hacc, hr₁, hsh, hkept⟩
    · rw [hrun]
      exact ⟨null, t, m, rfl, fun hne => absurd rfl hne, fun _ => ⟨rfl, rfl⟩,
        iff_of_true rfl ⟨hlt, hoff⟩⟩
    · have hne : p ≠ null := hacc.ptr_ne_null (List.mem_cons_self ..)
      obtain ⟨m₂, t', m', hcopy, hdealloc, hdone⟩ := h.move hq hlt hacc hr₁ hsh hkept
      refine ⟨p, t', m', ?_, fun _ => hdone, fun hnull => absurd hnull hne,
        iff_of_false hne fun hc => hc.2 hoffers⟩
      rw [hrun, ok_bind]
      dsimp only
      rw [show (t₁.on m₁).store = m₁ from rfl, hcopy, ok_bind]
      show (Tallock.dealloc (t₁.on m₂) ptr old >>= _) = _
      rw [hdealloc]
      rfl
  · obtain ⟨t', m', hshrink, hdone⟩ := h.shrink_in_place hr hq hv h0 (Nat.not_lt.mp hlt) rfl
    have hne : ptr ≠ null := h.ptr_ne_null hq
    refine ⟨ptr, t', m', ?_, fun _ => hdone, fun hnull => absurd hnull hne,
      iff_of_false hne fun hc => hlt hc.1⟩
    rw [if_neg hlt, h.nonNull_ptr hq, ok_bind, hshrink]
    rfl

/-- Forty bytes of the sample heap become a hundred: they are copied to another block, and the
block where they were is free. -/
theorem realloc_keeps_sample : ∃ (m m' : Mem) (p : Int) (t' : Talloc FreeLists),
    sampleTaken.Rep m ∧
    Tallock.realloc mapperOomHandler 1 () (sampleTaken.on m) 4224 ⟨40, 8⟩ 100
      = .ok (p, (), t'.on m') ∧ p ≠ null ∧
      (∀ i : Nat, i < 40 → m' (p + i) = m (4224 + i)) ∧
      ∀ x : Int, 4224 ≤ x → x < 4288 → t'.Free x := by
  obtain ⟨K, J, hacc₀, _⟩ := sample_run.accounted
  have hnew : Talloc.new 4096 1024 32 ⟨4096, 1024⟩ = .ok sampleNew := by decide +kernel
  obtain ⟨m₀, _, hr₀⟩ := Talloc.new_sim sample_site hnew fun _ => 0
  obtain ⟨m, _, hr, _, hacc⟩ := Op.run_sim hacc₀ sample_alloc_allowed hr₀ sample_alloc
  have hv : (Layout.mk 100 (Layout.mk 40 8).align).Valid := ⟨⟨3, rfl⟩, by decide⟩
  obtain ⟨p, t', m', hrun, hdone, _, hnull⟩ :=
    realloc_keeps hacc hr (List.mem_singleton.mpr rfl) hv (by decide) () 0
  -- the block at 4352 is large enough
  have hoffers : sampleTaken.Offers (sampleTaken.layoutToSize ⟨100, 8⟩) :=
    ⟨2, 4352, by decide, by decide⟩
  have hne : p ≠ null := fun hc => (hnull.mp hc).2 hoffers
  have hdone := hdone hne
  refine ⟨m, m', p, t', hr, hrun, hne, fun i hi => hdone.contents i ?_, fun x h1 h2 => ?_⟩
  · exact lt_min hi (hi.trans (by decide))
  · refine hdone.grown (by decide) x ⟨h1, ?_⟩
    rwa [show sampleTaken.layoutToSize (Layout.mk 40 8) = 64 by decide]

end Steps

end Tauos.Memm
