import Tauos.Memm.Run

/-!
# `Tallock`

The `Allocator` implementation over a locked `Talloc`. Every call holds the lock
from its first to its last step, so a call is a function of the `Talloc` behind
it.

What a pointer owns is not recorded anywhere in the allocator. `Custody` records
it from the outside, by watching which bytes are free: a pointer is handed the
bytes that were free when the handler last returned and are not free when
`allocate` returns, and it loses the bytes that are free after a `shrink`.

The `Allocator` contract of `shrink` only bounds the new size by the old one. The
new alignment may be larger, and `layout_to_size` takes the maximum of the two,
so the block of the new layout may be larger than the block there is. `shrink`
then gives nothing back and reports success.

> `tallock_honours`: in a run whose shrinks ask for no more alignment than the
> old block has bytes, every pointer is aligned for its layout and owns exactly
> the block that `deallocate` gives back. The first `shrink` that asks for more
> breaks this.
-/

namespace Tauos.Memm

open Tauos.Rust Tauos.Utils Tauos.Buddy

/-! ## The calls -/

/-- `NonNull::<u8>::dangling()`. -/
def dangling : Int := 1

namespace Tallock

variable {σ ω : Type} [Store σ]

/-- `Allocator::allocate`; `none` is `Err(AllocError)`. -/
def allocate (oom : OomHandler ω σ) (fuel : Nat) (w : ω) (t : Talloc σ) (layout : Layout) :
    Except Fault (Option Slice × ω × Talloc σ) := do
  if layout.size ≠ 0 then
    let (ptr, w, t) ← Talloc.alloc oom fuel w t layout
    return (ptr.map fun nn => ⟨nn, layout.size⟩, w, t)
  else return (some ⟨dangling, 0⟩, w, t)

/-- `Allocator::deallocate`. -/
def deallocate (t : Talloc σ) (ptr : Int) (layout : Layout) : Except Fault (Talloc σ) :=
  if ptr ≠ dangling then t.dealloc ptr layout else return t

/-- `Allocator::shrink`. -/
def shrink (t : Talloc σ) (ptr : Int) (oldLayout newLayout : Layout) :
    Except Fault (Slice × Talloc σ) := do
  if newLayout.size ≠ 0 then
    let t ← t.shrink ptr oldLayout newLayout
    return (⟨ptr, newLayout.size⟩, t)
  else
    let t ← deallocate t ptr oldLayout
    return (⟨dangling, 0⟩, t)

end Tallock

/-! ## Who owns what -/

/-- The ledger, and the bytes each outstanding pointer owns. -/
structure Custody extends Ledger where
  owned : Int → Int → Prop

/-- The owned bytes after a call made by the handler, which left `t` behind. -/
def Act.owned (owned : Int → Int → Prop) (t : Talloc FreeLists) : Act → Int → Int → Prop
  | .shrink ptr _ _ => Function.update owned ptr fun x => owned ptr x ∧ ¬ t.Free x
  | _ => owned

/-- A call by the handler, with the owners of the bytes. -/
def Act.runKept (C : Custody) (t : Talloc FreeLists) (a : Act) :
    Except Fault (Custody × Talloc FreeLists) := do
  let (L, t) ← a.run C.toLedger t
  return (⟨L, a.owned C.owned t⟩, t)

/-- The calls one after the other. -/
def runKept : List Act → Custody → Talloc FreeLists → Except Fault (Custody × Talloc FreeLists)
  | [], C, t => .ok (C, t)
  | a :: acts, C, t => do
    let (C, t) ← a.runKept C t
    runKept acts C t

/-- What is watched during an `allocate`: the custody, the bytes that were free when
the handler last returned, and what is left of its script. -/
structure Watch where
  custody : Custody
  free : Int → Prop
  script : List Answer

/-- The scripted handler, watched. -/
def watched : OomHandler Watch FreeLists
  | ⟨C, _, []⟩, t, _ => .ok (false, ⟨C, t.Free, []⟩, t)
  | ⟨C, _, answer :: script⟩, t, _ => do
    let (C, t) ← runKept answer.acts C t
    return (answer.ok, ⟨C, t.Free, script⟩, t)

/-- A call through `Tallock`. -/
inductive Call
  | allocate (layout : Layout) (script : List Answer)
  | deallocate (ptr : Int) (layout : Layout)
  | shrink (ptr : Int) (oldLayout newLayout : Layout)
  | release (mem : Slice)
  deriving DecidableEq, Repr

/-- A call of the trait, with the owners of the bytes. -/
def Call.run (C : Custody) (t : Talloc FreeLists) :
    Call → Except Fault (Custody × Talloc FreeLists)
  | .allocate layout script => do
    let (mem, w, t) ← Tallock.allocate watched (script.length + 1) ⟨C, t.Free, script⟩ t layout
    match mem with
    | none => return (w.custody, t)
    | some mem => return (⟨⟨(mem.ptr, layout) :: w.custody.live, w.custody.given⟩,
        Function.update w.custody.owned mem.ptr fun x => w.free x ∧ ¬ t.Free x⟩, t)
  | .deallocate ptr layout => do
    let t ← Tallock.deallocate t ptr layout
    return (⟨⟨C.live.erase (ptr, layout), C.given⟩, C.owned⟩, t)
  | .shrink ptr oldLayout newLayout => do
    let (mem, t) ← Tallock.shrink t ptr oldLayout newLayout
    return (⟨⟨(mem.ptr, newLayout) :: C.live.erase (ptr, oldLayout), C.given⟩,
      Function.update C.owned mem.ptr fun x => C.owned ptr x ∧ ¬ t.Free x⟩, t)
  | .release mem => do
    let t ← t.release mem
    return (⟨⟨C.live, mem :: C.given⟩, C.owned⟩, t)

/-- The contract of the `Allocator` trait for layouts of non-zero size: `shrink`
bounds the new size by the old one, and says nothing about the alignments. -/
def Call.Allowed (C : Custody) (t : Talloc FreeLists) : Call → Prop
  | .allocate layout script => layout.Valid ∧ layout.size ≠ 0 ∧ ScriptAllowed script C.toLedger t
  | .deallocate ptr layout => (ptr, layout) ∈ C.live
  | .shrink ptr oldLayout newLayout => (ptr, oldLayout) ∈ C.live ∧ newLayout.Valid ∧
      newLayout.size ≠ 0 ∧ newLayout.size ≤ oldLayout.size
  | .release mem => ReleaseAllowed C.toLedger t mem

/-- A `shrink` asks for no more alignment than the block of the old layout has bytes. -/
def Call.Fitting (a : Arena) : Call → Prop
  | .shrink _ oldLayout newLayout => newLayout.align ≤ a.layoutToSize oldLayout
  | _ => True

/-- Every outstanding pointer is aligned for its layout and owns the block of its
layout, and deallocating it frees the bytes it owns and no others. -/
structure Custody.Honours (C : Custody) (t : Talloc FreeLists) : Prop where
  aligned : ∀ q ∈ C.live, (q.2.align : Int) ∣ q.1
  block : ∀ q ∈ C.live, ∀ x, C.owned q.1 x ↔ q.1 ≤ x ∧ x < q.1 + (t.layoutToSize q.2 : Nat)
  reserved : ∀ q ∈ C.live, ∀ x, C.owned q.1 x → ¬ t.Free x
  frees : ∀ q ∈ C.live, ∃ t', Tallock.deallocate t q.1 q.2 = .ok t' ∧
    ∀ x, t'.Free x ↔ t.Free x ∨ C.owned q.1 x

/-- A sequence of calls, each within its contract and of the kind `P`, that returned. -/
inductive Session (P : Arena → Call → Prop) (C₀ : Custody) (t₀ : Talloc FreeLists) :
    Custody → Talloc FreeLists → Prop
  | refl : Session P C₀ t₀ C₀ t₀
  | call {C C' : Custody} {t t' : Talloc FreeLists} {c : Call} :
      Session P C₀ t₀ C t → c.Allowed C t → P t.toArena c → c.run C t = .ok (C', t') →
      Session P C₀ t₀ C' t'

/-- Sessions from `Talloc::new` on a site, where the arena is naturally aligned. -/
def TallockRun (P : Arena → Call → Prop) (arenaBase : Int) (arenaSize smallestBlock : Nat)
    (freeMem : Slice) (C : Custody) (t : Talloc FreeLists) : Prop :=
  Site arenaBase arenaSize smallestBlock freeMem ∧
  ∃ t₀, Talloc.new arenaBase arenaSize smallestBlock freeMem = .ok t₀ ∧
    Session P ⟨⟨[], [t₀.behind freeMem]⟩, fun _ _ => False⟩ t₀ C t

/-! ## Following a handler -/

section Follows

variable {ω ω' σ : Type} {oom : OomHandler ω σ} {oom' : OomHandler ω' σ}
  {R : ω → ω' → Talloc σ → Prop} {l : Layout} {size : Nat}

/-- `oom'` gives the answers of `oom`, and `R` keeps holding between what the two
leave behind. -/
structure Follows (oom : OomHandler ω σ) (oom' : OomHandler ω' σ) (R : ω → ω' → Talloc σ → Prop) :
    Prop where
  step : ∀ {w : ω} {w' : ω'} {t : Talloc σ} {l : Layout} {ok : Bool} {w₁ : ω} {t₁ : Talloc σ},
    R w w' t → oom w t l = .ok (ok, w₁, t₁) →
    ∃ w₁', oom' w' t l = .ok (ok, w₁', t₁) ∧ R w₁ w₁' t₁

/-- The first loop of `alloc` under the other handler. -/
theorem Follows.growLoop (h : Follows oom oom' R) : ∀ (fuel : Nat) {w : ω} {w' : ω'}
    {t : Talloc σ} {ok : Bool} {w₁ : ω} {t₁ : Talloc σ}, R w w' t →
    Talloc.growLoop oom l size fuel w t = .ok (ok, w₁, t₁) →
    ∃ w₁', Talloc.growLoop oom' l size fuel w' t = .ok (ok, w₁', t₁) ∧ R w₁ w₁' t₁ := by
  intro fuel
  induction fuel with
  | zero =>
    intro w w' t ok w₁ t₁ _ hrun
    cases hrun
  | succ fuel ih =>
    intro w w' t ok w₁ t₁ hR hrun
    unfold Talloc.growLoop at hrun ⊢
    by_cases hlt : t.arenaSize < size
    · rw [if_pos hlt] at hrun ⊢
      obtain ⟨⟨ok₂, w₂, t₂⟩, hoom, hrest⟩ := bind_ok hrun
      obtain ⟨w₂', hoom', hR'⟩ := h.step hR hoom
      rw [hoom', ok_bind]
      cases ok₂ with
      | true => exact ih hR' hrest
      | false =>
        cases hrest
        exact ⟨w₂', rfl, hR'⟩
    · rw [if_neg hlt] at hrun ⊢
      cases hrun
      exact ⟨w', rfl, hR⟩

/-- The second one. -/
theorem Follows.findLoop (h : Follows oom oom' R) : ∀ (fuel : Nat) {g : Nat} {w : ω} {w' : ω'}
    {t : Talloc σ} {found : Option (Nat × Nat)} {w₁ : ω} {t₁ : Talloc σ}, R w w' t →
    Talloc.findLoop oom l size fuel g w t = .ok (found, w₁, t₁) →
    ∃ w₁', Talloc.findLoop oom' l size fuel g w' t = .ok (found, w₁', t₁) ∧ R w₁ w₁' t₁ := by
  intro fuel
  induction fuel with
  | zero =>
    intro g w w' t found w₁ t₁ _ hrun
    cases hrun
  | succ fuel ih =>
    intro g w w' t found w₁ t₁ hR hrun
    unfold Talloc.findLoop at hrun ⊢
    dsimp only at hrun ⊢
    by_cases hav : t.avails &&& ((1 <<< g) - 1) = 0
    · rw [if_pos hav] at hrun ⊢
      obtain ⟨⟨ok₂, w₂, t₂⟩, hoom, hrest⟩ := bind_ok hrun
      obtain ⟨w₂', hoom', hR'⟩ := h.step hR hoom
      rw [hoom', ok_bind]
      cases ok₂ with
      | true =>
        obtain ⟨g', hg', hloop⟩ := bind_ok hrest
        obtain ⟨w₁', hloop', hR₁⟩ := ih hR' hloop
        refine ⟨w₁', ?_, hR₁⟩
        rw [if_pos rfl, hg']
        exact hloop'
      | false =>
        cases hrest
        exact ⟨w₂', rfl, hR'⟩
    · rw [if_neg hav] at hrun ⊢
      cases hrun
      exact ⟨w', rfl, hR⟩

variable [Store σ]

/-- `R` holds where the handler last returned, before the block is taken. -/
theorem Follows.allocBlock (h : Follows oom oom' R) {fuel : Nat} {w : ω} {w' : ω'} {t : Talloc σ}
    {ptr : Option Int} {w₁ : ω} {t₁ : Talloc σ} (hR : R w w' t)
    (hrun : Talloc.allocBlock oom l size fuel w t = .ok (ptr, w₁, t₁)) :
    ∃ w₁' t₀, Talloc.allocBlock oom' l size fuel w' t = .ok (ptr, w₁', t₁) ∧ R w₁ w₁' t₀ := by
  unfold Talloc.allocBlock at hrun ⊢
  obtain ⟨g, hg, hrest⟩ := bind_ok hrun
  rw [hg, ok_bind]
  dsimp only at hrest ⊢
  -- the handler is only called if no block of the size is free
  by_cases hav : t.avails &&& (1 <<< g) ≠ 0
  · rw [if_pos hav] at hrest ⊢
    obtain ⟨⟨node, t₂⟩, hrem, hrest⟩ := bind_ok hrest
    obtain ⟨p, hp, hrest⟩ := bind_ok hrest
    cases hrest
    refine ⟨w', t, ?_, hR⟩
    rw [hrem, ok_bind]
    dsimp only
    rw [hp]
    rfl
  · rw [if_neg hav] at hrest ⊢
    obtain ⟨⟨found, w₂, t₂⟩, hfind, hrest⟩ := bind_ok hrest
    obtain ⟨w₂', hfind', hR'⟩ := h.findLoop fuel hR hfind
    rw [hfind', ok_bind]
    cases found with
    | none =>
      cases hrest
      exact ⟨w₂', _, rfl, hR'⟩
    | some r =>
      obtain ⟨g', larger⟩ := r
      dsimp only at hrest ⊢
      obtain ⟨⟨base, t₃⟩, hrem, hrest⟩ := bind_ok hrest
      obtain ⟨t₄, hbreak, hrest⟩ := bind_ok hrest
      obtain ⟨p, hp, hrest⟩ := bind_ok hrest
      cases hrest
      refine ⟨w₂', t₂, ?_, hR'⟩
      dsimp only at hbreak hp
      rw [hrem, ok_bind]
      dsimp only
      rw [hbreak, ok_bind, hp]
      rfl

/-- `alloc` under the other handler. -/
theorem Follows.alloc (h : Follows oom oom' R) {fuel : Nat} {w : ω} {t : Talloc σ}
    {ptr : Option Int} {w₁ : ω} {t₁ : Talloc σ} (w' : ω') (hR : R w w' t)
    (hrun : Talloc.alloc oom fuel w t l = .ok (ptr, w₁, t₁)) :
    ∃ w₁' t₀, Talloc.alloc oom' fuel w' t l = .ok (ptr, w₁', t₁) ∧ R w₁ w₁' t₀ := by
  unfold Talloc.alloc at hrun ⊢
  obtain ⟨⟨ok, w₂, t₂⟩, hgrow, hrest⟩ := bind_ok hrun
  obtain ⟨w₂', hgrow', hR'⟩ := h.growLoop fuel hR hgrow
  dsimp only
  rw [hgrow', ok_bind]
  cases ok with
  | true => exact h.allocBlock hR' hrest
  | false =>
    cases hrest
    exact ⟨w₂', _, rfl, hR'⟩

end Follows

/-! ## The invariant -/

section Kept

variable {K J : Nat} {L : Ledger} {C C' : Custody} {t t' : Talloc FreeLists}

/-- The accounting holds, and every outstanding pointer owns the block of its layout. -/
structure Kept (K J : Nat) (C : Custody) (t : Talloc FreeLists) : Prop
    extends Accounted K J C.toLedger t where
  owned : ∀ {q : Int × Layout}, q ∈ C.live → ∀ x, C.owned q.1 x ↔ t.Owns q x

/-- An allocation owns its first byte. -/
theorem Accounted.owns_ptr (h : Accounted K J L t) {q : Int × Layout} (hq : q ∈ L.live) :
    t.Owns q q.1 := by
  obtain ⟨e, hsize, _⟩ := h.blocks hq
  exact (owns_iff hsize q.1).mpr (within_base e q.1)

/-- Two outstanding allocations have different pointers. -/
theorem Accounted.ptr_ne {q q' : Int × Layout} {live : List (Int × Layout)} {given : List Slice}
    (h : Accounted K J ⟨q :: live, given⟩ t) (hq' : q' ∈ live) : q'.1 ≠ q.1 := by
  intro heq
  have hapart := (List.pairwise_cons.mp h.apart).1 q' hq'
  have hown := h.owns_ptr (q := q') (List.mem_cons_of_mem _ hq')
  rw [heq] at hown
  exact hapart q.1 (h.owns_ptr (List.mem_cons_self ..)) hown

/-- A ledger with one allocation more, or with one allocation replaced. -/
theorem Kept.cons {q : Int × Layout} {live : List (Int × Layout)} {given : List Slice}
    {owned : Int → Int → Prop} {own : Int → Prop} (hacc : Accounted K J ⟨q :: live, given⟩ t)
    (hrest : ∀ {q' : Int × Layout}, q' ∈ live → ∀ x, owned q'.1 x ↔ t.Owns q' x)
    (hown : ∀ x, own x ↔ t.Owns q x) :
    Kept K J ⟨⟨q :: live, given⟩, Function.update owned q.1 own⟩ t := by
  refine ⟨hacc, fun {q'} hq' x => ?_⟩
  rcases List.mem_cons.mp hq' with rfl | hq'
  · dsimp only
    rw [Function.update_self]
    exact hown x
  · dsimp only
    rw [Function.update_of_ne (hacc.ptr_ne hq')]
    exact hrest hq' x

/-- A `shrink` leaves the pointer the block of the new layout. -/
theorem Kept.owned_shrink (h : Kept K J C t) {p : Int} {old new : Layout} (hq : (p, old) ∈ C.live)
    (hle : t.layoutToSize new ≤ t.layoutToSize old)
    (hacc : Accounted K J ⟨(p, new) :: C.live.erase (p, old), C.given⟩ t')
    (hsh : Talloc.SameShape t t') (x : Int) :
    C.owned p x ∧ ¬ t'.Free x ↔ t'.Owns (p, new) x := by
  obtain ⟨_, hhead, _⟩ := h.live_erase hq
  have hgiven : t.Owns (p, old) x → C.Given J x := fun hx => (h.account x).mp (Or.inr ⟨_, hq, hx⟩)
  have hsub : t.Owns (p, new) x → t.Owns (p, old) x := by
    intro hx
    obtain ⟨h1, h2⟩ := hx
    refine ⟨h1, ?_⟩
    dsimp only at h2 ⊢
    omega
  have hrest : t.Owns (p, old) x →
      ¬ Ledger.Live ⟨C.live.erase (p, old), C.given⟩ t.toArena x := by
    intro hx hlive
    obtain ⟨q', hq', hx'⟩ := hlive
    exact hhead q' hq' x hx hx'
  rw [h.owned hq, hacc.free_iff, Ledger.live_cons, hsh.arena]
  show t.Owns (p, old) x ∧ ¬ (C.Given J x ∧ _) ↔ _
  tauto

/-- A call of the handler keeps the custody. -/
theorem Kept.act (h : Kept K J C t) {a : Act} (ha : a.Allowed C.toLedger t)
    (hrun : a.runKept C t = .ok (C', t')) :
    Kept K J C' t' ∧ Talloc.SameShape t t' ∧ a.run C.toLedger t = .ok (C'.toLedger, t') := by
  obtain ⟨⟨L', t₁⟩, hact, hret⟩ := bind_ok hrun
  cases hret
  obtain ⟨hacc, hsh⟩ := Act.accounted h.toAccounted ha hact
  have hkeep : ∀ {q : Int × Layout}, q ∈ C.live → ∀ x, C.owned q.1 x ↔ t'.Owns q x := by
    intro q hq x
    rw [hsh.arena]
    exact h.owned hq x
  refine ⟨?_, hsh, hact⟩
  cases a with
  | dealloc ptr layout =>
    obtain ⟨t₂, _, hret⟩ := bind_ok hact
    cases hret
    exact ⟨hacc, fun hq => hkeep (List.mem_of_mem_erase hq)⟩
  | shrink ptr oldLayout newLayout =>
    obtain ⟨t₂, _, hret⟩ := bind_ok hact
    cases hret
    exact Kept.cons hacc (fun hq => hkeep (List.mem_of_mem_erase hq))
      (h.owned_shrink ha.1 ha.2.2.2 hacc hsh)
  | release mem =>
    obtain ⟨t₂, _, hret⟩ := bind_ok hact
    cases hret
    exact ⟨hacc, hkeep⟩

/-- The calls of the handler keep the invariant. -/
theorem Kept.acts : ∀ (acts : List Act) {C : Custody} {t : Talloc FreeLists}, Kept K J C t →
    ActsAllowed acts C.toLedger t → runKept acts C t = .ok (C', t') →
    Kept K J C' t' ∧ Talloc.SameShape t t' ∧ runActs acts C.toLedger t = .ok (C'.toLedger, t') := by
  intro acts
  induction acts with
  | nil =>
    intro C t h _ hrun
    cases hrun
    exact ⟨h, Talloc.SameShape.refl _, rfl⟩
  | cons a acts ih =>
    intro C t h ha hrun
    obtain ⟨⟨C₁, t₁⟩, hact, hrest⟩ := bind_ok hrun
    obtain ⟨h₁, hsh₁, hrun₁⟩ := h.act ha.1 hact
    obtain ⟨h', hsh', hrun'⟩ := ih h₁ (ha.2 _ _ hrun₁) hrest
    refine ⟨h', hsh₁.trans hsh', ?_⟩
    dsimp only [runActs]
    rw [hrun₁]
    exact hrun'

/-- The watch agrees with the ledger and the script it was set on. -/
structure Tracks (K J : Nat) (a : Arena) (W : Watch) (w : Ledger × List Answer)
    (t : Talloc FreeLists) : Prop where
  state : w = (W.custody.toLedger, W.script)
  kept : Kept K J W.custody t
  allowed : ScriptAllowed W.script W.custody.toLedger t
  arena : t.toArena = a
  free : ∀ x, W.free x ↔ t.Free x

/-- Watching does not change what the script does. -/
theorem watched_follows (a : Arena) : Follows watched scripted (Tracks K J a) := by
  refine ⟨fun {W w t l ok W₁ t₁} hR hrun => ?_⟩
  obtain ⟨C, free, script⟩ := W
  obtain ⟨rfl, hkept, hall, harena, _⟩ := hR
  cases script with
  | nil =>
    cases hrun
    exact ⟨_, rfl, rfl, hkept, trivial, harena, fun _ => Iff.rfl⟩
  | cons answer script =>
    obtain ⟨⟨C₁, t₂⟩, hacts, hret⟩ := bind_ok hrun
    cases hret
    obtain ⟨hkept', hsh, hrun'⟩ := hkept.acts answer.acts hall.1 hacts
    refine ⟨(C₁.toLedger, script), ?_, rfl, hkept', hall.2 _ _ hrun', hsh.arena.trans harena,
      fun _ => Iff.rfl⟩
    dsimp only [scripted]
    rw [hrun']
    rfl

/-- `allocate` hands the new pointer the block of its layout. -/
theorem Kept.allocate (h : Kept K J C t) {l : Layout} {script : List Answer}
    (ha : (Call.allocate l script).Allowed C t)
    (hrun : (Call.allocate l script).run C t = .ok (C', t')) :
    Kept K J C' t' ∧ Talloc.SameShape t t' := by
  obtain ⟨hv, h0, hs⟩ := ha
  dsimp only [Call.run, Tallock.allocate] at hrun
  rw [if_pos h0] at hrun
  obtain ⟨⟨mem, W, t₁⟩, hmem, hret⟩ := bind_ok hrun
  obtain ⟨⟨ptr, W', t₂⟩, halloc, hmap⟩ := bind_ok hmem
  cases hmap
  obtain ⟨w, t₀, halloc', hR⟩ := Follows.alloc (watched_follows (K := K) (J := J) t.toArena)
    (C.toLedger, script) ⟨rfl, h, hs, rfl, fun _ => Iff.rfl⟩ halloc
  rcases alloc_spec h.toAccounted hv h0 hs with ⟨herr, _⟩ | ⟨ptr', L', s', t₃, t₄, hok, hcon,
    hserved⟩
  · rw [halloc'] at herr
    cases herr
  rw [halloc'] at hok
  cases hok
  obtain ⟨hstate, hkept, _, harena, hfree⟩ := hR
  obtain ⟨rfl, rfl⟩ := Prod.mk.inj hstate
  rcases hserved with ⟨rfl, rfl⟩ | ⟨p, e, rfl, _, _, _, _, _, htaken, hacc⟩
  · cases hret
    refine ⟨⟨hcon.acc, fun hq x => ?_⟩, hcon.shape⟩
    rw [hcon.shape.arena, ← harena]
    exact hkept.owned hq x
  · cases hret
    have hsh := hcon.shape.trans htaken.shape
    have harena' : t₂.toArena = t₀.toArena := hsh.arena.trans harena.symm
    refine ⟨Kept.cons hacc (fun hq x => ?_) (fun x => ?_), hsh⟩
    · rw [harena']
      exact hkept.owned hq x
    -- the block was free, and is apart from all other blocks
    · have hgiven : t₂.Owns (p, l) x → W'.custody.Given J x := fun hx =>
        (hacc.account x).mp (Or.inr ⟨_, List.mem_cons_self .., hx⟩)
      have hrest : t₂.Owns (p, l) x → ¬ W'.custody.Live t₂.toArena x := by
        intro hx hlive
        obtain ⟨q', hq', hx'⟩ := hlive
        exact (List.pairwise_cons.mp hacc.apart).1 q' hq' x hx hx'
      rw [hfree, hkept.free_iff, hacc.free_iff, Ledger.live_cons, ← harena']
      show _ ∧ ¬ (W'.custody.Given J x ∧ ¬ (_ ∨ W'.custody.Live t₂.toArena x)) ↔ _
      tauto

/-- An outstanding pointer is not the dangling one. -/
theorem Accounted.deallocate_eq (h : Accounted K J L t) {q : Int × Layout} (hq : q ∈ L.live) :
    Tallock.deallocate t q.1 q.2 = t.dealloc q.1 q.2 := by
  obtain ⟨e, _, hJe, _, hal, _⟩ := h.blocks hq
  have hJ := h.inv.nat.hJ
  refine if_pos fun heq => ?_
  obtain ⟨k, hk⟩ := hal.mono (show 4 ≤ e by omega)
  unfold dangling at heq
  omega

/-- A fitting `shrink` is within the contract of `Talloc::shrink`. -/
theorem Kept.shrink_allowed (h : Kept K J C t) {p : Int} {old new : Layout}
    (ha : (Call.shrink p old new).Allowed C t) (hfit : (Call.shrink p old new).Fitting t.toArena) :
    (Act.shrink p old new).Allowed C.toLedger t := by
  obtain ⟨hq, hv, h0, hle⟩ := ha
  obtain ⟨e, hsize, hJe, heK, _, _, hsz, _⟩ := h.blocks hq
  have hK := h.inv.nat.hK
  refine ⟨hq, hv, h0, ?_⟩
  have hfit' : new.align ≤ 2 ^ e := by
    rw [← hsize]
    exact hfit
  rw [show t.layoutToSize old = 2 ^ e from hsize]
  exact layoutToSize_le hv h0 h.inv.nat.smlst (by omega) hJe (hle.trans hsz) hfit'

/-- One fitting call keeps the custody. -/
theorem Kept.call (h : Kept K J C t) {c : Call} (ha : c.Allowed C t) (hfit : c.Fitting t.toArena)
    (hrun : c.run C t = .ok (C', t')) : Kept K J C' t' ∧ Talloc.SameShape t t' := by
  cases c with
  | allocate layout script => exact h.allocate ha hrun
  | deallocate ptr layout =>
    have heq : (Call.deallocate ptr layout).run C t = (Act.dealloc ptr layout).runKept C t := by
      dsimp only [Call.run, Act.runKept, Act.run]
      rw [h.deallocate_eq (q := (ptr, layout)) ha]
      cases t.dealloc ptr layout <;> rfl
    rw [heq] at hrun
    obtain ⟨h', hsh, _⟩ := h.act (a := .dealloc ptr layout) ha hrun
    exact ⟨h', hsh⟩
  | shrink ptr oldLayout newLayout =>
    have heq : (Call.shrink ptr oldLayout newLayout).run C t
        = (Act.shrink ptr oldLayout newLayout).runKept C t := by
      dsimp only [Call.run, Tallock.shrink, Act.runKept, Act.run]
      rw [if_pos ha.2.2.1]
      cases t.shrink ptr oldLayout newLayout <;> rfl
    rw [heq] at hrun
    obtain ⟨h', hsh, _⟩ := h.act (h.shrink_allowed ha hfit) hrun
    exact ⟨h', hsh⟩
  | release mem =>
    have heq : (Call.release mem).run C t = (Act.release mem).runKept C t := by
      dsimp only [Call.run, Act.runKept, Act.run]
      cases t.release mem <;> rfl
    rw [heq] at hrun
    obtain ⟨h', hsh, _⟩ := h.act (a := .release mem) ha hrun
    exact ⟨h', hsh⟩

/-- The custody gives every pointer what its layout asks for. -/
theorem Kept.honours (h : Kept K J C t) : C.Honours t := by
  refine ⟨fun q hq => ?_, fun q hq => h.owned hq, fun q hq x hx hfree => ?_, fun q hq => ?_⟩
  · obtain ⟨e, _, _, _, hal, _, _, hdvd⟩ := h.blocks hq
    have hcast : (q.2.align : Int) ∣ 2 ^ e := by exact_mod_cast hdvd
    exact hcast.trans hal
  · obtain ⟨_, hlive⟩ := (h.free_iff x).mp hfree
    exact hlive ⟨q, hq, (h.owned hq x).mp hx⟩
  · obtain ⟨t', hrun, hacc, hsh, _⟩ := h.dealloc hq
    obtain ⟨_, hhead, hlive⟩ := h.live_erase hq
    refine ⟨t', (h.deallocate_eq hq).trans hrun, fun x => ?_⟩
    have hgiven : t.Owns q x → C.Given J x := fun hx => (h.account x).mp (Or.inr ⟨q, hq, hx⟩)
    have hrest : t.Owns q x → ¬ Ledger.Live ⟨C.live.erase q, C.given⟩ t.toArena x := by
      intro hx hlive'
      obtain ⟨q', hq', hx'⟩ := hlive'
      exact hhead q' hq' x hx hx'
    rw [h.owned hq, hacc.free_iff, h.free_iff, hlive, hsh.arena]
    show C.Given J x ∧ ¬ Ledger.Live ⟨C.live.erase q, C.given⟩ t.toArena x ↔ _
    tauto

/-- A `shrink` to a larger block gives nothing back: its loop is empty. -/
theorem Talloc.Inv.shrink_larger (h : Talloc.Inv K J t) {p : Int} {old new : Layout} {e e' : Nat}
    (hold : t.layoutToSize old = 2 ^ e) (hnew : t.layoutToSize new = 2 ^ e') (heK : e ≤ K)
    (hlt : e < e') (hrun : t.shrink p old new = .ok t') : t' = t := by
  have hne : 2 ^ e ≠ 2 ^ e' := (Nat.pow_lt_pow_right (by norm_num) hlt).ne
  dsimp only [Talloc.shrink] at hrun
  rw [hold, hnew, if_neg hne, h.nat.blockGranularity heK, ok_bind] at hrun
  obtain ⟨g, hg, hbreak⟩ := bind_ok hrun
  have hcount : g - (K - e) = 0 := by
    have hK := h.nat.hK
    unfold Arena.blockGranularity usizeSub at hg
    rw [h.nat.pow2, leadingZeros_two_pow, leadingZeros_two_pow] at hg
    split at hg
    · cases hg
      omega
    · cases hg
  rw [hcount] at hbreak
  cases hbreak
  rfl

/-- A `shrink` that does not fit leaves its pointer with less than the block of the new
layout. -/
theorem Kept.not_honours (h : Kept K J C t) {c : Call} (ha : c.Allowed C t)
    (hfit : ¬ c.Fitting t.toArena) (hrun : c.run C t = .ok (C', t')) : ¬ C'.Honours t' := by
  cases c with
  | allocate layout script => exact absurd trivial hfit
  | deallocate ptr layout => exact absurd trivial hfit
  | release mem => exact absurd trivial hfit
  | shrink p old new =>
    obtain ⟨hq, hv, h0, hle⟩ := ha
    obtain ⟨e, hsize, hJe, heK, _⟩ := h.blocks hq
    have hK := h.inv.nat.hK
    obtain ⟨e', hsize', _, _, _, hdvd⟩ := layoutToSize_spec (a := t.toArena) hv h0 h.inv.nat.smlst
      (by omega)
    have hlt : 2 ^ e < 2 ^ e' := by
      have halign : 2 ^ e < new.align := by
        rw [← hsize]
        exact Nat.not_le.mp hfit
      exact halign.trans_le (Nat.le_of_dvd (Nat.two_pow_pos e') hdvd)
    dsimp only [Call.run, Tallock.shrink] at hrun
    rw [if_pos h0] at hrun
    obtain ⟨⟨mem, t₁⟩, hmem, hret⟩ := bind_ok hrun
    obtain ⟨t₂, hshrink, hmem⟩ := bind_ok hmem
    cases hmem
    cases hret
    have heq := h.inv.shrink_larger hsize hsize' heK
      ((Nat.pow_lt_pow_iff_right (by norm_num)).mp hlt) hshrink
    subst heq
    intro hon
    -- the first byte behind the old block
    have hx := hon.block (p, new) (List.mem_cons_self ..) (p + (2 ^ e : Nat))
    dsimp only at hx
    rw [Function.update_self, hsize', h.owned hq, owns_iff hsize] at hx
    obtain ⟨⟨_, hcon⟩, _⟩ := hx.mpr ⟨by omega, by omega⟩
    push_cast at hcon
    omega

end Kept

/-! ## Sessions -/

section Session

variable {K J : Nat} {C₀ C : Custody} {t₀ t : Talloc FreeLists} {arenaBase : Int}
  {arenaSize smallestBlock : Nat} {freeMem : Slice}

/-- A session keeps the invariant. -/
theorem Session.kept (h₀ : Kept K J C₀ t₀) (h : Session Call.Fitting C₀ t₀ C t) : Kept K J C t := by
  induction h with
  | refl => exact h₀
  | call _ hall hfit hrun ih => exact (ih.call hall hfit hrun).1

/-- So it holds in every run. -/
theorem TallockRun.kept
    (h : TallockRun Call.Fitting arenaBase arenaSize smallestBlock freeMem C t) :
    ∃ K J, Kept K J C t := by
  obtain ⟨hsite, t₀, hnew, hsession⟩ := h
  obtain ⟨K, J, hacc, _⟩ := Run.accounted ⟨hsite, t₀, hnew, Calls.refl⟩
  exact ⟨K, J, hsession.kept ⟨hacc, fun hq => absurd hq (List.not_mem_nil)⟩⟩

/-- In a run whose shrinks fit, every pointer is honoured in every state reached; and
the next call keeps it so exactly when it fits. -/
theorem tallock_honours
    (h : TallockRun Call.Fitting arenaBase arenaSize smallestBlock freeMem C t) :
    C.Honours t ∧ ∀ (c : Call) (C' : Custody) (t' : Talloc FreeLists), c.Allowed C t →
      c.run C t = .ok (C', t') → (C'.Honours t' ↔ c.Fitting t.toArena) := by
  obtain ⟨K, J, hkept⟩ := h.kept
  refine ⟨hkept.honours, fun c C' t' hall hrun => ⟨fun hon => ?_, fun hfit => ?_⟩⟩
  · by_contra hfit
    exact hkept.not_honours hall hfit hrun hon
  · exact (hkept.call hall hfit hrun).1.honours

end Session

/-! ### Shrinking to a larger alignment

The sample heap with 40 bytes allocated: a block of 64 bytes at 4224, which is not
a multiple of 256.
-/

/-- The refusing handler, watched. -/
theorem refusing_follows (C : Custody) : Follows (scripted (σ := FreeLists)) watched
    (fun w W _ => w = (C.toLedger, []) ∧ W.custody = C ∧ W.script = []) := by
  refine ⟨fun {w W t l ok w₁ t₁} hR hrun => ?_⟩
  obtain ⟨C', free, script⟩ := W
  obtain ⟨rfl, rfl, rfl⟩ := hR
  cases hrun
  exact ⟨⟨C', t.Free, []⟩, rfl, rfl, rfl, rfl⟩

/-- Forty bytes are allocated. -/
theorem sample_allocate {P : Arena → Call → Prop}
    (hP : P sampleNew.toArena (.allocate ⟨40, 8⟩ [])) :
    ∃ owned, Session P ⟨sampleLedger [], fun _ _ => False⟩ sampleNew
      ⟨sampleLedger [(4224, ⟨40, 8⟩)], owned⟩ sampleTaken := by
  have hrun : Talloc.alloc scripted 1 (sampleLedger [], []) sampleNew ⟨40, 8⟩
      = .ok (some 4224, (sampleLedger [], []), sampleTaken) := by decide +kernel
  obtain ⟨W, t₀, hwatched, _, hC, _⟩ := (refusing_follows ⟨sampleLedger [], fun _ _ => False⟩).alloc
    ⟨⟨sampleLedger [], fun _ _ => False⟩, sampleNew.Free, []⟩ ⟨rfl, rfl, rfl⟩ hrun
  have hcall : (Call.allocate ⟨40, 8⟩ []).run ⟨sampleLedger [], fun _ _ => False⟩ sampleNew
      = .ok (⟨sampleLedger [(4224, ⟨40, 8⟩)], Function.update (fun _ _ => False) 4224 fun x =>
        W.free x ∧ ¬ sampleTaken.Free x⟩, sampleTaken) := by
    dsimp only [Call.run, Tallock.allocate]
    rw [if_pos (by decide)]
    show (Talloc.alloc watched 1 _ sampleNew ⟨40, 8⟩ >>= _) >>= _ = _
    rw [hwatched]
    show Except.ok (Custody.mk ⟨_, W.custody.given⟩ _, sampleTaken) = _
    rw [hC]
    rfl
  exact ⟨_, Session.call (c := .allocate ⟨40, 8⟩ []) Session.refl sample_alloc_allowed hP hcall⟩

/-- The 40 bytes shrunk to another layout of the same block size, or of a larger one. -/
theorem sample_shrink {P : Arena → Call → Prop} (new : Layout) (hnew : new.Valid)
    (h0 : new.size ≠ 0) (hle : new.size ≤ 40) (halloc : P sampleNew.toArena (.allocate ⟨40, 8⟩ []))
    (hshrink : P sampleTaken.toArena (.shrink 4224 ⟨40, 8⟩ new))
    (hrun : sampleTaken.shrink 4224 ⟨40, 8⟩ new = .ok sampleTaken) :
    ∃ C, TallockRun P 4096 1024 32 ⟨4096, 1024⟩ C sampleTaken ∧ C.live = [(4224, new)] := by
  obtain ⟨owned, hsession⟩ := sample_allocate halloc
  have hcall : (Call.shrink 4224 ⟨40, 8⟩ new).run ⟨sampleLedger [(4224, ⟨40, 8⟩)], owned⟩
    sampleTaken
      = .ok (⟨sampleLedger [(4224, new)], Function.update owned 4224 fun x =>
        owned 4224 x ∧ ¬ sampleTaken.Free x⟩, sampleTaken) := by
    dsimp only [Call.run, Tallock.shrink]
    rw [if_pos h0, hrun]
    rfl
  exact ⟨_, ⟨sample_site, sampleNew, by decide +kernel,
    hsession.call (c := .shrink 4224 ⟨40, 8⟩ new) ⟨List.mem_cons_self .., hnew, h0, hle⟩
      hshrink hcall⟩,
    rfl⟩

/-- Shrunk to 32 bytes at alignment 256: the pointer stays, and is not aligned. -/
theorem shrink_misaligned :
    ∃ C, TallockRun (fun _ _ => True) 4096 1024 32 ⟨4096, 1024⟩ C sampleTaken ∧
    (4224, ⟨32, 256⟩) ∈ C.live ∧ ¬ C.Honours sampleTaken := by
  obtain ⟨C, hrun, hlive⟩ := sample_shrink (P := fun _ _ => True) ⟨32, 256⟩
    ⟨⟨8, rfl⟩, by decide⟩ (by decide) (by decide) trivial trivial (by decide +kernel)
  have hmem : ((4224, ⟨32, 256⟩) : Int × Layout) ∈ C.live := by
    rw [hlive]
    exact List.mem_cons_self ..
  refine ⟨C, hrun, hmem, fun hon => ?_⟩
  have hdvd := hon.aligned _ hmem
  revert hdvd
  decide

/-- Shrunk to 32 bytes at alignment 64, the size of the block. -/
theorem tallock_honours_sample : ∃ C,
    TallockRun Call.Fitting 4096 1024 32 ⟨4096, 1024⟩ C sampleTaken ∧
    (4224, ⟨32, 64⟩) ∈ C.live ∧ C.Honours sampleTaken := by
  obtain ⟨C, hrun, hlive⟩ := sample_shrink (P := Call.Fitting) ⟨32, 64⟩
    ⟨⟨6, rfl⟩, by decide⟩ (by decide) (by decide) trivial
    (show 64 ≤ sampleTaken.layoutToSize ⟨40, 8⟩ by decide +kernel) (by decide +kernel)
  refine ⟨C, hrun, ?_, (tallock_honours hrun).1⟩
  rw [hlive]
  exact List.mem_cons_self ..

end Tauos.Memm
