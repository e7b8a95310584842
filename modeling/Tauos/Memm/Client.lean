import Tauos.Memm.Ops

/-!
# Clients of a `Talloc`

The safety contracts of `alloc`, `dealloc`, `shrink` and `release` speak of
things no field of `Talloc` records: which allocations are outstanding, and
which memory was ever released into the arena. `Ledger` is that ghost record,
and `Op.run` runs one call and keeps the ledger.

`alloc` may call the `oom_handler`, which may itself free memory through the
allocator. Here the handler follows a script: each answer is a list of calls
(`Act`) it makes before it returns, and at the end of the script it returns
`Err`. The empty script is the handler that always refuses. The contracts
(`Op.Allowed`) cover the calls of the handler as well.

> `Accounted K J L t`: `Inv K J t`, and the free and the outstanding addresses
> together are exactly the released ones, without overlap; the status data is
> outside all of them.

`Op.run_spec` is the step lemma: a call within its contract keeps `Accounted`,
or it is a `release` that overflows at the edge of the address space.
-/

namespace Tauos.Memm

open Tauos.Rust Tauos.Utils Tauos.Buddy

/-! ## The ledger -/

/-- What the clients of an allocator know: the outstanding allocations, and the
slices given to `release`. -/
structure Ledger where
  live : List (Int × Layout)
  given : List Slice
  deriving DecidableEq, Repr

/-- `x` is in the block behind the allocation `q`. -/
def Arena.Owns (a : Arena) (q : Int × Layout) (x : Int) : Prop :=
  q.1 ≤ x ∧ x < q.1 + (a.layoutToSize q.2 : Nat)

/-- `x` is in an outstanding allocation. -/
def Ledger.Live (L : Ledger) (a : Arena) (x : Int) : Prop := ∃ q ∈ L.live, a.Owns q x

instance (a : Arena) (q : Int × Layout) (x : Int) : Decidable (a.Owns q x) :=
  inferInstanceAs (Decidable (_ ∧ _))

instance (L : Ledger) (a : Arena) (x : Int) : Decidable (L.Live a x) :=
  inferInstanceAs (Decidable (∃ q ∈ L.live, a.Owns q x))

/-- `x` is in a released slice, in a block that `release` makes available. -/
def Ledger.Given (L : Ledger) (J : Nat) (x : Int) : Prop :=
  ∃ m ∈ L.given, Talloc.spanFirst J m ≤ x ∧ x < Talloc.spanAcme J m

/-- One more allocation. -/
theorem Ledger.live_cons {a : Arena} {q : Int × Layout} {live : List (Int × Layout)}
    {given : List Slice} {x : Int} :
    Ledger.Live ⟨q :: live, given⟩ a x ↔ a.Owns q x ∨ Ledger.Live ⟨live, given⟩ a x := by
  simp [Ledger.Live]

/-- One more span of released memory. -/
theorem Ledger.given_cons {J : Nat} {m : Slice} {live : List (Int × Layout)} {given : List Slice}
    {x : Int} : Ledger.Given ⟨live, m :: given⟩ J x ↔
      (Talloc.spanFirst J m ≤ x ∧ x < Talloc.spanAcme J m) ∨ Ledger.Given ⟨live, given⟩ J x := by
  simp [Ledger.Given]

namespace Talloc

/-- `x` is in a block of some free list. -/
def Free (t : Talloc FreeLists) (x : Int) : Prop :=
  ∃ g b, b ∈ t.list g ∧ b ≤ x ∧ x < b + (t.arenaSizePow2 >>> g : Nat)

instance (t : Talloc FreeLists) (x : Int) : Decidable (t.Free x) :=
  decidable_of_iff (∃ g ∈ List.range t.store.llists.length, ∃ b ∈ t.list g,
      b ≤ x ∧ x < b + (t.arenaSizePow2 >>> g : Nat)) <| by
    constructor
    · intro h
      obtain ⟨g, _, b, hb, hx⟩ := h
      exact ⟨g, b, hb, hx⟩
    · intro h
      obtain ⟨g, b, hb, hx⟩ := h
      exact ⟨g, List.mem_range.mpr (lt_of_mem_list hb), b, hb, hx⟩

/-- `x` is in the memory of `llists` or `bitmap`. -/
def Status {σ : Type} (t : Talloc σ) (x : Int) : Prop :=
  t.llistsPtr ≤ x ∧ x < t.bitmapPtr + t.bitmapLen

end Talloc

/-! ## Calls -/

/-- The calls that return nothing. -/
inductive Act
  | dealloc (ptr : Int) (layout : Layout)
  | shrink (ptr : Int) (oldLayout newLayout : Layout)
  | release (mem : Slice)
  deriving DecidableEq, Repr

/-- One answer of the handler: the calls it makes, and whether it returns `Ok`. -/
structure Answer where
  acts : List Act
  ok : Bool
  deriving DecidableEq, Repr

/-- A call by a client. -/
inductive Op
  | act (a : Act)
  | alloc (layout : Layout) (script : List Answer)
  deriving DecidableEq, Repr

section Run

variable {σ : Type} [Store σ]

/-- One call, with what it does to the ledger. -/
def Act.run (L : Ledger) (t : Talloc σ) : Act → Except Fault (Ledger × Talloc σ)
  | .dealloc ptr layout => do
    let t ← t.dealloc ptr layout
    return ({ L with live := L.live.erase (ptr, layout) }, t)
  | .shrink ptr oldLayout newLayout => do
    let t ← t.shrink ptr oldLayout newLayout
    return ({ L with live := (ptr, newLayout) :: L.live.erase (ptr, oldLayout) }, t)
  | .release mem => do
    let t ← t.release mem
    return ({ L with given := mem :: L.given }, t)

/-- The calls one after the other. -/
def runActs : List Act → Ledger → Talloc σ → Except Fault (Ledger × Talloc σ)
  | [], L, t => .ok (L, t)
  | a :: acts, L, t => do
    let (L, t) ← a.run L t
    runActs acts L t

/-- The handler that follows a script and refuses at its end. -/
def scripted : OomHandler (Ledger × List Answer) σ
  | (L, []), t, _ => .ok (false, (L, []), t)
  | (L, answer :: script), t, _ => do
    let (L, t) ← runActs answer.acts L t
    return (answer.ok, (L, script), t)

/-- One call, with the pointer it returns. -/
def Op.run (L : Ledger) (t : Talloc σ) : Op → Except Fault (Option Int × Ledger × Talloc σ)
  | .act a => do
    let (L, t) ← a.run L t
    return (none, L, t)
  | .alloc layout script => do
    let (ptr, (L, _), t) ← Talloc.alloc scripted (script.length + 1) (L, script) t layout
    match ptr with
    | none => return (none, L, t)
    | some ptr => return (some ptr, { L with live := (ptr, layout) :: L.live }, t)

end Run

/-! ## Contracts -/

/-- The safety contract of `release` on aligned spans: the memory is reserved, and
reserved for the caller. -/
structure ReleaseAllowed (L : Ledger) (t : Talloc FreeLists) (m : Slice) : Prop where
  ptr : (t.smlstBlock : Int) ∣ m.ptr
  len : t.smlstBlock ∣ m.len
  lo : t.arenaBase ≤ m.ptr
  hi : m.ptr + m.len ≤ t.arenaBase + t.arenaSize
  reserved : ∀ x, m.Mem x → ¬ t.Free x ∧ ¬ L.Live t.toArena x ∧ ¬ t.Status x

/-- The safety contract of a call. -/
def Act.Allowed (L : Ledger) (t : Talloc FreeLists) : Act → Prop
  | .dealloc ptr layout => (ptr, layout) ∈ L.live
  | .shrink ptr oldLayout newLayout => (ptr, oldLayout) ∈ L.live ∧ newLayout.Valid ∧
      newLayout.size ≠ 0 ∧ t.layoutToSize newLayout ≤ t.layoutToSize oldLayout
  | .release mem => ReleaseAllowed L t mem

/-- Every call of the list is within its contract when it is made. -/
def ActsAllowed : List Act → Ledger → Talloc FreeLists → Prop
  | [], _, _ => True
  | a :: acts, L, t => a.Allowed L t ∧
      ∀ L' t', a.run L t = .ok (L', t') → ActsAllowed acts L' t'

/-- Every call that the script makes is within its contract. -/
def ScriptAllowed : List Answer → Ledger → Talloc FreeLists → Prop
  | [], _, _ => True
  | answer :: script, L, t => ActsAllowed answer.acts L t ∧
      ∀ L' t', runActs answer.acts L t = .ok (L', t') → ScriptAllowed script L' t'

/-- The contract of a call by a client. -/
def Op.Allowed (L : Ledger) (t : Talloc FreeLists) : Op → Prop
  | .act a => a.Allowed L t
  | .alloc layout script => layout.Valid ∧ layout.size ≠ 0 ∧ ScriptAllowed script L t

/-- `release` runs into the end of the address space: the span ends at address 0, or
the arena leaves the canonical addresses. -/
def Act.AtEdge (a : Arena) : Act → Prop
  | .release mem => mem.ptr + mem.len = 0 ∨ ¬ a.Low48
  | _ => False

/-- The calls made during an operation. -/
def Op.acts : Op → List Act
  | .act a => [a]
  | .alloc _ script => script.flatMap Answer.acts

/-- The calls release nothing into the arena. -/
def NoRelease (acts : List Act) : Prop := ∀ m, Act.release m ∉ acts

/-! ## Accounting -/

/-- The block behind the allocation `q` is a block of the arena that fits its layout. -/
def Arena.Backs (a : Arena) (K J : Nat) (q : Int × Layout) : Prop :=
  ∃ e, a.layoutToSize q.2 = 2 ^ e ∧ J ≤ e ∧ e ≤ K ∧ Aligned e q.1 ∧ a.Holds e q.1 ∧
    q.2.size ≤ 2 ^ e ∧ q.2.align ∣ 2 ^ e

/-- No two allocations share an address. -/
def Arena.Apart (a : Arena) (live : List (Int × Layout)) : Prop :=
  live.Pairwise fun q q' => ∀ x, a.Owns q x → ¬ a.Owns q' x

/-- The free and the outstanding addresses are the released ones. -/
structure Accounted (K J : Nat) (L : Ledger) (t : Talloc FreeLists) : Prop where
  inv : Talloc.Inv K J t
  blocks : ∀ {q : Int × Layout}, q ∈ L.live → t.Backs K J q
  apart : t.Apart L.live
  reserved : ∀ {x}, L.Live t.toArena x → ¬ Covers (t.FreeBlock K) x
  account : ∀ x, Covers (t.FreeBlock K) x ∨ L.Live t.toArena x ↔ L.Given J x
  statusFree : ∀ {x}, L.Given J x → ¬ t.Status x
  layout : t.bitmapPtr = t.llistsPtr + (t.llistsLen * nodeSize : Nat)
  statusIn : Within K t.arenaBase t.llistsPtr

section Accounted

variable {K J : Nat} {L : Ledger} {t : Talloc FreeLists}

/-- `Free` is `Covers` in the units of the source, wherever the arena lies. -/
theorem free_iff_covers (hpow : t.arenaSizePow2 = 2 ^ K) (hlen : t.store.llists.length ≤ K + 1)
    (x : Int) : t.Free x ↔ Covers (t.FreeBlock K) x := by
  have hsize : ∀ g, g ≤ K → ((t.arenaSizePow2 >>> g : Nat) : Int) = 2 ^ (K - g) := by
    intro g hg
    rw [hpow, two_pow_shiftRight hg]
    push_cast
    rfl
  constructor
  · intro h
    obtain ⟨g, b, hb, h1, h2⟩ := h
    have hg := Talloc.lt_of_mem_list hb
    rw [hsize g (by omega)] at h2
    refine ⟨K - g, b, ⟨by omega, ?_⟩, h1, h2⟩
    rw [show K - (K - g) = g by omega]
    exact hb
  · intro h
    obtain ⟨e, b, ⟨he, hb⟩, h1, h2⟩ := h
    refine ⟨K - e, b, hb, h1, ?_⟩
    rw [hsize _ (by omega), show K - (K - e) = e by omega]
    exact h2

/-- Free addresses are those of the free blocks. -/
theorem Talloc.Inv.free_iff (h : Talloc.Inv K J t) (x : Int) :
    t.Free x ↔ Covers (t.FreeBlock K) x :=
  free_iff_covers h.nat.pow2 (by have := h.slen; omega) x

/-- What is free was released and is not outstanding. -/
theorem Accounted.free_iff (h : Accounted K J L t) (x : Int) :
    t.Free x ↔ L.Given J x ∧ ¬ L.Live t.toArena x := by
  rw [h.inv.free_iff, ← h.account]
  exact ⟨fun hc => ⟨Or.inl hc, fun hl => h.reserved hl hc⟩, fun ⟨hor, hl⟩ => hor.resolve_right hl⟩

/-- An allocation owns its block. -/
theorem owns_iff {a : Arena} {q : Int × Layout} {e : Nat} (h : a.layoutToSize q.2 = 2 ^ e)
    (x : Int) :
    a.Owns q x ↔ Within e q.1 x := by
  unfold Arena.Owns Within
  rw [h]
  push_cast
  exact Iff.rfl

/-- Taking one allocation out of the ledger takes exactly its block out of the
outstanding addresses. -/
theorem Accounted.live_erase (h : Accounted K J L t) {q : Int × Layout} (hq : q ∈ L.live) :
    t.Apart (L.live.erase q) ∧
    (∀ q' ∈ L.live.erase q, ∀ x, t.Owns q x → ¬ t.Owns q' x) ∧
    ∀ x, L.Live t.toArena x ↔
      t.Owns q x ∨ Ledger.Live { L with live := L.live.erase q } t.toArena x := by
  have hperm := List.perm_cons_erase hq
  have hsymm : ∀ {q q' : Int × Layout}, (∀ x, t.Owns q x → ¬ t.Owns q' x) →
      ∀ x, t.Owns q' x → ¬ t.Owns q x := fun hqq x h1 h2 => hqq x h2 h1
  obtain ⟨hhead, htail⟩ := List.pairwise_cons.mp ((hperm.pairwise_iff hsymm).mp h.apart)
  refine ⟨htail, hhead, fun x => ?_⟩
  constructor
  · rintro ⟨q', hq', hx⟩
    rcases List.mem_cons.mp (hperm.mem_iff.mp hq') with rfl | hq'
    · exact Or.inl hx
    · exact Or.inr ⟨q', hq', hx⟩
  · rintro (hx | ⟨q', hq', hx⟩)
    · exact ⟨q, hq, hx⟩
    · exact ⟨q', List.mem_of_mem_erase hq', hx⟩

/-- The null block is never released. -/
theorem Ledger.Given.not_null {x : Int} (h : L.Given J x) : ¬ Within J 0 x := by
  obtain ⟨m, _, h1, h2⟩ := h
  have ha := aligned_floorBlock J (m.ptr + (2 ^ J - 1))
  have hb := aligned_floorBlock J (m.ptr + m.len)
  rintro ⟨h3, h4⟩
  rw [zero_add] at h4
  unfold Talloc.spanFirst at h1
  split at h1
  · omega
  next hcon =>
    -- the span starts above 0, so at a multiple of the smallest block above 0
    rcases Int.lt_or_le 0 (Talloc.spanBase J m) with hpos | hneg
    · have := Aligned.add_le_of_lt (dvd_zero (2 ^ J : Int)) ha hpos
      unfold Talloc.spanBase at h1
      omega
    · exact hcon ⟨hneg, by omega⟩

/-- The status data stays where it is. -/
theorem Talloc.SameShape.status {t' : Talloc FreeLists} (h : Talloc.SameShape t t') (x : Int) :
    t'.Status x ↔ t.Status x := by
  unfold Talloc.Status
  rw [h.llistsPtr, h.bitmapPtr, h.bitmapLen]

/-- What is left to show of `Accounted` after a call that keeps the shape. -/
theorem Accounted.of_shape {L' : Ledger} {t' : Talloc FreeLists} (h : Accounted K J L t)
    (hinv : Talloc.Inv K J t') (hsh : Talloc.SameShape t t')
    (hblocks : ∀ {q : Int × Layout}, q ∈ L'.live → t.Backs K J q) (hapart : t.Apart L'.live)
    (hres : ∀ {x}, L'.Live t.toArena x → ¬ Covers (t'.FreeBlock K) x)
    (hacc : ∀ x, Covers (t'.FreeBlock K) x ∨ L'.Live t.toArena x ↔ L'.Given J x)
    (hst : ∀ {x}, L'.Given J x → ¬ t.Status x) : Accounted K J L' t' := by
  have harena := hsh.arena
  refine ⟨hinv, ?_, ?_, ?_, ?_, ?_, ?_, ?_⟩
  · rw [harena]; exact hblocks
  · rw [harena]; exact hapart
  · rw [harena]; exact hres
  · rw [harena]; exact hacc
  · intro x hx
    rw [hsh.status]
    exact hst hx
  · rw [hsh.bitmapPtr, hsh.llistsPtr, hsh.llistsLen]
    exact h.layout
  · rw [harena, hsh.llistsPtr]
    exact h.statusIn

/-- There is status data: the first sentinel. -/
theorem Accounted.statusSome (h : Accounted K J L t) : t.Status t.llistsPtr := by
  have h1 := h.layout
  have h2 := h.inv.blen
  unfold Talloc.Status
  omega

/-- The first sentinel is neither free nor outstanding. -/
theorem Accounted.status_out (h : Accounted K J L t) :
    ¬ Covers (t.FreeBlock K) t.llistsPtr ∧ ¬ L.Live t.toArena t.llistsPtr := by
  have hng : ¬ L.Given J t.llistsPtr := fun hc => h.statusFree hc h.statusSome
  rw [← h.account] at hng
  exact not_or.mp hng

/-- `dealloc` of an outstanding allocation. -/
theorem Accounted.dealloc (h : Accounted K J L t) {q : Int × Layout} (hq : q ∈ L.live) :
    ∃ t', t.dealloc q.1 q.2 = .ok t' ∧ Accounted K J { L with live := L.live.erase q } t' ∧
      Talloc.SameShape t t' ∧ Talloc.BasesFrom K t t' (· = q.1) := by
  obtain ⟨e, hsize, hJe, heK, hal, hin, hfit⟩ := h.blocks hq
  have howns := owns_iff (a := t.toArena) (q := q) hsize
  obtain ⟨hap, hhead, hlive⟩ := h.live_erase hq
  obtain ⟨hyf, hyl⟩ := h.status_out
  obtain ⟨t', hrun, hinv, hsh, hcov, hbase⟩ := Talloc.dealloc_spec (y := t.llistsPtr) h.inv hsize
    hJe heK hal hin (fun x hx => h.reserved ⟨q, hq, (howns x).mpr hx⟩) h.statusIn
    (fun hc => hyl ⟨q, hq, (howns _).mpr hc⟩) hyf
  refine ⟨t', hrun, ?_, hsh, hbase⟩
  refine h.of_shape hinv hsh (fun hq' => h.blocks (List.mem_of_mem_erase hq'))
    hap ?_ ?_ h.statusFree
  · rintro x ⟨q', hq', hx⟩ hc
    rcases (hcov x).mp hc with hc | hc
    · exact hhead q' hq' x ((howns x).mpr hc) hx
    · exact h.reserved ⟨q', List.mem_of_mem_erase hq', hx⟩ hc
  · intro x
    show _ ↔ L.Given J x
    rw [← h.account, hcov, ← howns, hlive, or_assoc, or_left_comm]

/-- `shrink` of an outstanding allocation. -/
theorem Accounted.shrink (h : Accounted K J L t) {p : Int} {old new : Layout}
    (hq : (p, old) ∈ L.live) (hnew : new.Valid) (h0 : new.size ≠ 0)
    (hle : t.layoutToSize new ≤ t.layoutToSize old) :
    ∃ t', t.shrink p old new = .ok t' ∧
      Accounted K J { L with live := (p, new) :: L.live.erase (p, old) } t' ∧
      Talloc.SameShape t t' := by
  obtain ⟨e, hsize, hJe, heK, hal, hin, _⟩ := h.blocks hq
  have hK := h.inv.nat.hK
  obtain ⟨e', hsize', hJe', _, hfit⟩ := layoutToSize_spec (a := t.toArena) hnew h0 h.inv.nat.smlst
    (by omega)
  have hee : e' ≤ e := by
    rw [hsize', hsize] at hle
    exact (Nat.pow_le_pow_iff_right (by norm_num)).mp hle
  have howns := owns_iff (a := t.toArena) (q := (p, old)) hsize
  have howns' := owns_iff (a := t.toArena) (q := (p, new)) hsize'
  obtain ⟨hap, hhead, hlive⟩ := h.live_erase hq
  have hpow : (2 : Int) ^ e' ≤ 2 ^ e := pow_le_pow_right₀ (by norm_num) hee
  -- what is kept is a part of the old block, and the rest becomes free
  have hsub : ∀ x, Within e' p x → Within e p x := fun x hx => ⟨hx.1, by have := hx.2; omega⟩
  obtain ⟨t', hrun, hinv, hsh, hcov⟩ := Talloc.shrink_spec h.inv hsize hsize' hJe' hee heK hal hin
    (fun x hx => h.reserved ⟨_, hq, (howns x).mpr hx⟩)
  refine ⟨t', hrun, ?_, hsh⟩
  refine h.of_shape hinv hsh ?_ ?_ ?_ ?_ h.statusFree
  · intro q' hq'
    rcases List.mem_cons.mp hq' with rfl | hq'
    · obtain ⟨h1, h2⟩ := hin
      exact ⟨e', hsize', hJe', by omega, hal.mono hee, ⟨h1, by omega⟩, hfit⟩
    · exact h.blocks (List.mem_of_mem_erase hq')
  · refine List.pairwise_cons.mpr ⟨fun q' hq' x hx => ?_, hap⟩
    exact hhead q' hq' x ((howns x).mpr (hsub x ((howns' x).mp hx)))
  · rintro x ⟨q', hq', hx⟩ hc
    rcases List.mem_cons.mp hq' with rfl | hq'
    · have hx' := (howns' x).mp hx
      rcases (hcov x).mp hc with hc | hc
      · exact hc.2 hx'
      · exact h.reserved ⟨_, hq, (howns x).mpr (hsub x hx')⟩ hc
    · rcases (hcov x).mp hc with hc | hc
      · exact hhead q' hq' x ((howns x).mpr hc.1) hx
      · exact h.reserved ⟨q', List.mem_of_mem_erase hq', hx⟩ hc
  · intro x
    show _ ↔ L.Given J x
    rw [← h.account, hcov, Ledger.live_cons, howns', hlive, howns]
    have := hsub x
    generalize Ledger.Live _ t.toArena x = rest
    tauto

/-- An aligned span is released from end to end. -/
theorem ReleaseAllowed.span (h : Accounted K J L t) {m : Slice} (hm : ReleaseAllowed L t m) :
    Talloc.spanBase J m = m.ptr ∧ Talloc.spanAcme J m = m.ptr + m.len := by
  have hptr : Aligned J m.ptr := by
    have := hm.ptr
    rw [h.inv.nat.smlst] at this
    push_cast at this
    exact this
  have hlen : 2 ^ J ∣ m.len := by
    have := hm.len
    rwa [h.inv.nat.smlst] at this
  exact ⟨Talloc.spanBase_of_aligned hptr, Talloc.spanAcme_of_aligned hptr hlen⟩

/-- The contract of `release` is what its proof needs. -/
theorem ReleaseAllowed.releasable (h : Accounted K J L t) {m : Slice} (hm : ReleaseAllowed L t m) :
    Talloc.Releasable K J t.llistsPtr m t := by
  obtain ⟨hb, ha⟩ := hm.span h
  obtain ⟨hyf, _⟩ := h.status_out
  refine ⟨h.inv, hm.lo, by rw [ha]; exact hm.hi, by rw [hb, ha]; omega, ?_, h.statusIn, ?_, hyf⟩
  · rw [hb, ha]
    intro x h1 h2
    rw [← h.inv.free_iff]
    exact (hm.reserved x ⟨h1, h2⟩).1
  · rw [hb, ha]
    exact fun hc => (hm.reserved _ hc).2.2 h.statusSome

/-- `release` of an aligned span. -/
theorem Accounted.release (h : Accounted K J L t) {m : Slice} (hm : ReleaseAllowed L t m) :
    (t.release m = .error .overflow ∧ (m.ptr + m.len = 0 ∨ ¬ t.Low48)) ∨
    ∃ t', t.release m = .ok t' ∧ Accounted K J { L with given := m :: L.given } t' ∧
      Talloc.SameShape t t' ∧ Talloc.BasesFrom K t t' m.Mem := by
  obtain ⟨hb, ha⟩ := hm.span h
  have hrel := hm.releasable h
  have hfirst : ∀ x, Talloc.spanFirst J m ≤ x → m.ptr ≤ x :=
    fun x hx => Talloc.le_of_spanFirst_le hx
  rcases Talloc.release_spec hrel with ⟨herr, hedge⟩ | ⟨t', hrun, hdone⟩
  · rw [ha] at hedge
    exact Or.inl ⟨herr, hedge⟩
  · refine Or.inr ⟨t', hrun, ?_, hdone.shape, ?_⟩
    · refine h.of_shape hdone.inv hdone.shape h.blocks h.apart ?_ ?_ ?_
      · intro x hx hc
        rcases (hdone.covers x).mp hc with ⟨h1, h2⟩ | hc
        · rw [ha] at h2
          exact (hm.reserved x ⟨hfirst x h1, h2⟩).2.1 hx
        · exact h.reserved hx hc
      · intro x
        rw [Ledger.given_cons, hdone.covers, or_assoc]
        exact or_congr_right (h.account x)
      · rintro x ⟨m', hm', h1, h2⟩
        rcases List.mem_cons.mp hm' with rfl | hm'
        · rw [ha] at h2
          exact (hm.reserved x ⟨hfirst x h1, h2⟩).2.2
        · exact h.statusFree ⟨m', hm', h1, h2⟩
    · intro e b hF
      rcases hdone.bases hF with hF | ⟨h1, h2⟩
      · exact Or.inl hF
      · rw [ha] at h2
        exact Or.inr ⟨hfirst b h1, h2⟩

/-- Handing out a free block. -/
theorem Accounted.take (h : Accounted K J L t) {p : Int} {l : Layout} {e : Nat}
    {t' : Talloc FreeLists} (hl : t.layoutToSize l = 2 ^ e) (hJe : J ≤ e) (heK : e ≤ K)
    (hsz : l.size ≤ 2 ^ e) (hal : l.align ∣ 2 ^ e) (ht : Talloc.Taken K J e t p t') :
    Accounted K J { L with live := (p, l) :: L.live } t' := by
  have howns := owns_iff (a := t.toArena) (q := (p, l)) hl
  refine h.of_shape ht.inv ht.shape ?_ ?_ ?_ ?_ h.statusFree
  · intro q hq
    rcases List.mem_cons.mp hq with rfl | hq
    · exact ⟨e, hl, hJe, heK, ht.aligned, ht.holds, hsz, hal⟩
    · exact h.blocks hq
  · refine List.pairwise_cons.mpr ⟨fun q hq x hx hx' => ?_, h.apart⟩
    exact h.reserved ⟨q, hq, hx'⟩ ((ht.covers x).mpr (Or.inl ((howns x).mp hx)))
  · rintro x ⟨q, hq, hx⟩ hc
    rcases List.mem_cons.mp hq with rfl | hq
    · exact ht.apart x ((howns x).mp hx) hc
    · exact h.reserved ⟨q, hq, hx⟩ ((ht.covers x).mpr (Or.inr hc))
  · intro x
    show _ ↔ L.Given J x
    rw [← h.account, Ledger.live_cons, howns, ht.covers, or_left_comm, or_assoc]

/-- No free block starts at address 0. -/
theorem Accounted.nonNull (h : Accounted K J L t) {p : Int} (hp : Covers (t.FreeBlock K) p) :
    nonNull p = .ok p := by
  apply if_neg
  rintro rfl
  exact ((h.account 0).mp (Or.inl hp)).not_null (within_base J 0)

/-- A call within its contract. -/
theorem Act.run_spec (h : Accounted K J L t) {a : Act} (ha : a.Allowed L t) :
    (a.run L t = .error .overflow ∧ a.AtEdge t.toArena) ∨
    ∃ L' t', a.run L t = .ok (L', t') ∧ Accounted K J L' t' ∧ Talloc.SameShape t t' := by
  cases a with
  | dealloc ptr layout =>
    obtain ⟨t', hrun, hacc, hsh, _⟩ := h.dealloc (q := (ptr, layout)) ha
    refine Or.inr ⟨_, t', ?_, hacc, hsh⟩
    dsimp only [Act.run]
    rw [hrun]
    rfl
  | shrink ptr oldLayout newLayout =>
    obtain ⟨hq, hv, h0, hle⟩ := ha
    obtain ⟨t', hrun, hacc, hsh⟩ := h.shrink hq hv h0 hle
    refine Or.inr ⟨_, t', ?_, hacc, hsh⟩
    dsimp only [Act.run]
    rw [hrun]
    rfl
  | release mem =>
    dsimp only [Act.run]
    rcases h.release ha with ⟨herr, hedge⟩ | ⟨t', hrun, hacc, hsh, _⟩
    · rw [herr]
      exact Or.inl ⟨rfl, hedge⟩
    · rw [hrun]
      exact Or.inr ⟨_, t', rfl, hacc, hsh⟩

/-- A call keeps the accounting. -/
theorem Act.accounted {a : Act} {L' : Ledger} {t' : Talloc FreeLists} (h : Accounted K J L t)
    (ha : a.Allowed L t) (hrun : a.run L t = .ok (L', t')) :
    Accounted K J L' t' ∧ Talloc.SameShape t t' := by
  rcases Act.run_spec h ha with ⟨herr, _⟩ | ⟨_, _, hok, hacc⟩
  · rw [hrun] at herr
    cases herr
  · rw [hrun] at hok
    cases hok
    exact hacc

/-- Calls that release nothing leave the released memory as it is. -/
theorem runActs_given : ∀ (acts : List Act) {L L' : Ledger} {t t' : Talloc FreeLists},
    NoRelease acts → runActs acts L t = .ok (L', t') → L'.given = L.given := by
  intro acts
  induction acts with
  | nil =>
    intro L L' t t' _ hrun
    cases hrun
    rfl
  | cons a acts ih =>
    intro L L' t t' hno hrun
    have hrest : NoRelease acts := fun m hm => hno m (List.mem_cons_of_mem _ hm)
    dsimp only [runActs] at hrun
    cases ha : a.run L t with
    | error f => rw [ha] at hrun; cases hrun
    | ok r =>
      obtain ⟨L₁, t₁⟩ := r
      rw [ha] at hrun
      rw [ih hrest hrun]
      cases a with
      | dealloc ptr layout =>
        dsimp only [Act.run] at ha
        cases hd : t.dealloc ptr layout with
        | error f => rw [hd] at ha; cases ha
        | ok t₂ => rw [hd] at ha; cases ha; rfl
      | shrink ptr oldLayout newLayout =>
        dsimp only [Act.run] at ha
        cases hd : t.shrink ptr oldLayout newLayout with
        | error f => rw [hd] at ha; cases ha
        | ok t₂ => rw [hd] at ha; cases ha; rfl
      | release m => exact absurd (List.mem_cons_self ..) (hno m)

/-- Calls within their contracts return, or a `release` among them is at the edge. -/
theorem runActs_spec : ∀ (acts : List Act) {L : Ledger} {t : Talloc FreeLists},
    Accounted K J L t → ActsAllowed acts L t →
    (runActs acts L t = .error .overflow ∧ ∃ a ∈ acts, a.AtEdge t.toArena) ∨
    ∃ L' t', runActs acts L t = .ok (L', t') ∧ Accounted K J L' t' ∧ Talloc.SameShape t t' := by
  intro acts
  induction acts with
  | nil =>
    intro L t h _
    exact Or.inr ⟨L, t, rfl, h, Talloc.SameShape.refl t⟩
  | cons a acts ih =>
    intro L t h ha
    dsimp only [runActs]
    rcases Act.run_spec h ha.1 with ⟨herr, hedge⟩ | ⟨L₁, t₁, hrun, hacc, hsh⟩
    · rw [herr]
      exact Or.inl ⟨rfl, a, List.mem_cons_self .., hedge⟩
    · rw [hrun]
      rcases ih hacc (ha.2 L₁ t₁ hrun) with ⟨herr, a', ha', hedge⟩ | ⟨L', t', hrun', hacc', hsh'⟩
      · rw [hsh.arena] at hedge
        exact Or.inl ⟨herr, a', List.mem_cons_of_mem _ ha', hedge⟩
      · exact Or.inr ⟨L', t', hrun', hacc', hsh.trans hsh'⟩

/-- They keep the accounting. -/
theorem runActs_accounted {acts : List Act} {L' : Ledger} {t' : Talloc FreeLists}
    (h : Accounted K J L t) (ha : ActsAllowed acts L t) (hrun : runActs acts L t = .ok (L', t')) :
    Accounted K J L' t' ∧ Talloc.SameShape t t' := by
  rcases runActs_spec acts h ha with ⟨herr, _⟩ | ⟨_, _, hok, hacc⟩
  · rw [hrun] at herr
    cases herr
  · rw [hrun] at hok
    cases hok
    exact hacc

/-! ## `alloc` with a scripted handler -/

/-- What is left of a script after some of its answers: the accounting holds, the
rest is still allowed, and nothing is left that was not there. -/
structure Consumed (K J : Nat) (L : Ledger) (script : List Answer) (t : Talloc FreeLists)
    (L' : Ledger) (script' : List Answer) (t' : Talloc FreeLists) : Prop where
  acc : Accounted K J L' t'
  allowed : ScriptAllowed script' L' t'
  shape : Talloc.SameShape t t'
  suffix : script' <:+ script
  given : NoRelease (script.flatMap Answer.acts) → L'.given = L.given

/-- What is left of a script without `release` has none. -/
theorem NoRelease.suffix {s s' : List Answer} (h : NoRelease (s.flatMap Answer.acts))
    (hs : s' <:+ s) :
    NoRelease (s'.flatMap Answer.acts) := by
  intro m hm
  obtain ⟨answer, ha, hmem⟩ := List.mem_flatMap.mp hm
  exact h m (List.mem_flatMap.mpr ⟨answer, hs.subset ha, hmem⟩)

/-- Nothing of the script is used up. -/
theorem Consumed.refl {script : List Answer} (h : Accounted K J L t)
    (hs : ScriptAllowed script L t) :
    Consumed K J L script t L script t :=
  ⟨h, hs, Talloc.SameShape.refl t, List.suffix_refl _, fun _ => rfl⟩

/-- Two parts of a script, one after the other. -/
theorem Consumed.trans {L₁ L₂ : Ledger} {t₁ t₂ : Talloc FreeLists} {s s₁ s₂ : List Answer}
    (h₁ : Consumed K J L s t L₁ s₁ t₁) (h₂ : Consumed K J L₁ s₁ t₁ L₂ s₂ t₂) :
    Consumed K J L s t L₂ s₂ t₂ :=
  ⟨h₂.acc, h₂.allowed, h₁.shape.trans h₂.shape, h₂.suffix.trans h₁.suffix,
    fun hno => (h₂.given (hno.suffix h₁.suffix)).trans (h₁.given hno)⟩

/-- Some call of the script runs into the end of the address space. -/
def ScriptAtEdge (a : Arena) (script : List Answer) : Prop :=
  ∃ act ∈ script.flatMap Answer.acts, act.AtEdge a

/-- A script is at the edge if what is left of it is. -/
theorem ScriptAtEdge.mono {a : Arena} {s s' : List Answer} (h : ScriptAtEdge a s') (hs : s' <:+ s) :
    ScriptAtEdge a s := by
  obtain ⟨act, hact, hedge⟩ := h
  obtain ⟨answer, ha, hmem⟩ := List.mem_flatMap.mp hact
  exact ⟨act, List.mem_flatMap.mpr ⟨answer, hs.subset ha, hmem⟩, hedge⟩

/-- One call of the handler. An `Ok` uses up an answer. -/
theorem scripted_spec {script : List Answer} (h : Accounted K J L t) (hs : ScriptAllowed script L t)
    (l : Layout) :
    (scripted (L, script) t l = .error .overflow ∧ ScriptAtEdge t.toArena script) ∨
    ∃ ok L' script' t', scripted (L, script) t l = .ok (ok, (L', script'), t') ∧
      Consumed K J L script t L' script' t' ∧ (ok = true → script'.length < script.length) := by
  cases script with
  | nil =>
    exact Or.inr ⟨false, L, [], t, rfl, Consumed.refl h trivial, fun hc => by cases hc⟩
  | cons answer script =>
    dsimp only [scripted]
    rcases runActs_spec answer.acts h hs.1 with ⟨herr, a, ha, hedge⟩ | ⟨L', t', hrun, hacc, hsh⟩
    · rw [herr]
      refine Or.inl ⟨rfl, a, ?_, hedge⟩
      rw [List.flatMap_cons]
      exact List.mem_append_left _ ha
    · rw [hrun]
      refine Or.inr ⟨answer.ok, L', script, t', rfl,
        ⟨hacc, hs.2 L' t' hrun, hsh, List.suffix_cons _ _, fun hno => ?_⟩,
          fun _ => Nat.lt_succ_self _⟩
      rw [List.flatMap_cons] at hno
      exact runActs_given answer.acts (fun m hm => hno m (List.mem_append_left _ hm)) hrun

/-- The first loop of `alloc` ends with the size inside the arena or a refusal. -/
theorem growLoop_spec (l : Layout) (size : Nat) : ∀ (fuel : Nat) {script : List Answer} {L : Ledger}
    {t : Talloc FreeLists}, Accounted K J L t → ScriptAllowed script L t → script.length < fuel →
    (Talloc.growLoop scripted l size fuel (L, script) t = .error .overflow ∧
      ScriptAtEdge t.toArena script) ∨
    ∃ ok L' script' t', Talloc.growLoop scripted l size fuel (L, script) t
        = .ok (ok, (L', script'), t') ∧
      Consumed K J L script t L' script' t' ∧ (ok = true → size ≤ t'.arenaSize) := by
  intro fuel
  induction fuel with
  | zero => intro script L t _ _ hfuel; omega
  | succ fuel ih =>
    intro script L t h hs hfuel
    dsimp only [Talloc.growLoop]
    by_cases hsize : t.arenaSize < size
    · rw [if_pos hsize]
      rcases scripted_spec h hs l with ⟨herr, hedge⟩ | ⟨ok, L₁, s₁, t₁, hrun, hcon, hlt⟩
      · rw [herr]
        exact Or.inl ⟨rfl, hedge⟩
      · rw [hrun]
        cases ok with
        | false => exact Or.inr ⟨false, L₁, s₁, t₁, rfl, hcon, fun hc => by cases hc⟩
        | true =>
          rcases ih hcon.acc hcon.allowed (by have := hlt rfl; omega) with
            ⟨herr, hedge⟩ | ⟨ok, L', s', t', hrun', hcon', hle⟩
          · rw [hcon.shape.arena] at hedge
            exact Or.inl ⟨herr, hedge.mono hcon.suffix⟩
          · exact Or.inr ⟨ok, L', s', t', hrun', hcon.trans hcon', hle⟩
    · rw [if_neg hsize]
      exact Or.inr ⟨true, L, script, t, rfl, Consumed.refl h hs, fun _ => Nat.not_lt.mp hsize⟩

/-- The second loop of `alloc` ends with a larger block or a refusal. -/
theorem findLoop_spec {l : Layout} {e : Nat} (heK : e ≤ K) : ∀ (fuel : Nat) {script : List Answer}
    {L : Ledger} {t : Talloc FreeLists}, Accounted K J L t → ScriptAllowed script L t →
    script.length < fuel →
    (Talloc.findLoop scripted l (2 ^ e) fuel (K - e) (L, script) t = .error .overflow ∧
      ScriptAtEdge t.toArena script) ∨
    ∃ found L' script' t', Talloc.findLoop scripted l (2 ^ e) fuel (K - e) (L, script) t
        = .ok (found, (L', script'), t') ∧ Consumed K J L script t L' script' t' ∧
      (found = none ∨ t'.avails &&& ((1 <<< (K - e)) - 1) ≠ 0 ∧
        found = some (K - e, t'.avails &&& ((1 <<< (K - e)) - 1))) := by
  intro fuel
  induction fuel with
  | zero => intro script L t _ _ hfuel; omega
  | succ fuel ih =>
    intro script L t h hs hfuel
    dsimp only [Talloc.findLoop]
    by_cases hz : t.avails &&& ((1 <<< (K - e)) - 1) = 0
    · rw [if_pos hz]
      rcases scripted_spec h hs l with ⟨herr, hedge⟩ | ⟨ok, L₁, s₁, t₁, hrun, hcon, hlt⟩
      · rw [herr]
        exact Or.inl ⟨rfl, hedge⟩
      · rw [hrun]
        cases ok with
        | false => exact Or.inr ⟨none, L₁, s₁, t₁, rfl, hcon, Or.inl rfl⟩
        | true =>
          -- the arena is as large as before, so the search goes on for the same size
          have hg : t₁.blockGranularity (2 ^ e) = .ok (K - e) :=
            hcon.acc.inv.nat.blockGranularity heK
          have hstep : (do
              let granularity ← t₁.blockGranularity (2 ^ e)
              Talloc.findLoop scripted l (2 ^ e) fuel granularity (L₁, s₁) t₁)
              = Talloc.findLoop scripted l (2 ^ e) fuel (K - e) (L₁, s₁) t₁ := by
            rw [hg]
            rfl
          rcases ih hcon.acc hcon.allowed (by have := hlt rfl; omega) with
            ⟨herr, hedge⟩ | ⟨found, L', s', t', hrun', hcon', hf⟩
          · rw [hcon.shape.arena] at hedge
            exact Or.inl ⟨hstep.trans herr, hedge.mono hcon.suffix⟩
          · exact Or.inr ⟨found, L', s', t', hstep.trans hrun', hcon.trans hcon', hf⟩
    · rw [if_neg hz]
      exact Or.inr ⟨_, L, script, t, rfl, Consumed.refl h hs, Or.inr ⟨hz, rfl⟩⟩

/-- A result of `alloc`: refused, or a block handed out from a state `t₁` that the
handler left behind. -/
def Served (K J : Nat) (L : Ledger) (l : Layout) (t₁ : Talloc FreeLists) (ptr : Option Int)
    (t' : Talloc FreeLists) : Prop :=
  (ptr = none ∧ t' = t₁) ∨ ∃ p e, ptr = some p ∧ t₁.layoutToSize l = 2 ^ e ∧ J ≤ e ∧ e ≤ K ∧
    l.size ≤ 2 ^ e ∧ l.align ∣ 2 ^ e ∧ Talloc.Taken K J e t₁ p t' ∧
    Accounted K J { L with live := (p, l) :: L.live } t'

/-- A block of the size is listed: it is handed out, and the handler is not asked. -/
theorem Accounted.allocBlock_listed {ω : Type} (oom : OomHandler ω FreeLists) (l : Layout)
    (fuel : Nat) (w : ω) {e : Nat} (h : Accounted K J L t) (heK : e ≤ K)
    (hne : t.list (K - e) ≠ []) :
    ∃ p t', t.FreeBlock K e p ∧
      Talloc.allocBlock oom l (2 ^ e) fuel w t = .ok (some p, w, t') ∧
        Talloc.Taken K J e t p t' := by
  obtain ⟨p, hF, hrem, htk⟩ := Talloc.removeBlockNext_spec h.inv heK hne
  have hnn : Memm.nonNull p = .ok p := h.nonNull ((htk.covers p).mpr (Or.inl (within_base e p)))
  have hav : t.avails &&& (1 <<< (K - e)) ≠ 0 := by
    rw [Nat.one_shiftLeft, Nat.and_two_pow, (h.inv.avail (K - e)).mpr hne]
    simp
  refine ⟨p, _, hF, ?_, htk⟩
  unfold Talloc.allocBlock
  rw [h.inv.nat.blockGranularity heK]
  show (if t.avails &&& (1 <<< (K - e)) ≠ 0 then _ else _) = _
  rw [if_pos hav, hrem]
  show (Memm.nonNull p >>= _) = _
  rw [hnn]
  rfl

/-- `alloc` after its first loop. -/
theorem allocBlock_spec {l : Layout} {script : List Answer} {e fuel : Nat} (h : Accounted K J L t)
    (hs : ScriptAllowed script L t) (hfuel : script.length < fuel)
    (hsize : t.layoutToSize l = 2 ^ e) (hJe : J ≤ e) (heK : e ≤ K) (hsz : l.size ≤ 2 ^ e)
    (hal : l.align ∣ 2 ^ e) :
    (Talloc.allocBlock scripted l (2 ^ e) fuel (L, script) t = .error .overflow ∧
      ScriptAtEdge t.toArena script) ∨
    ∃ ptr L' script' t₁ t', Talloc.allocBlock scripted l (2 ^ e) fuel (L, script) t
        = .ok (ptr, (L', script'), t') ∧
      Consumed K J L script t L' script' t₁ ∧ Served K J L' l t₁ ptr t' := by
  -- a block that was taken serves the call
  have hserve : ∀ {L' : Ledger} {t₁ t' : Talloc FreeLists} {p : Int}, Accounted K J L' t₁ →
      Talloc.SameShape t t₁ → Talloc.Taken K J e t₁ p t' →
      nonNull p = .ok p ∧ Served K J L' l t₁ (some p) t' := by
    intro L' t₁ t' p hacc hsh htk
    have hsize₁ : t₁.layoutToSize l = 2 ^ e := by
      rw [hsh.arena]
      exact hsize
    exact ⟨hacc.nonNull ((htk.covers p).mpr (Or.inl (within_base e p))),
      Or.inr ⟨p, e, rfl, hsize₁, hJe, heK, hsz, hal, htk, hacc.take hsize₁ hJe heK hsz hal htk⟩⟩
  by_cases hlist : t.list (K - e) ≠ []
  · obtain ⟨p, t', _, hrun, htk⟩ := h.allocBlock_listed scripted l fuel (L, script) heK hlist
    obtain ⟨_, hsv⟩ := hserve h (Talloc.SameShape.refl t) htk
    exact Or.inr ⟨some p, L, script, t, t', hrun, Consumed.refl h hs, hsv⟩
  · have hav : ¬ t.avails &&& (1 <<< (K - e)) ≠ 0 := by
      rw [← h.inv.avail, Bool.not_eq_true] at hlist
      rw [Nat.one_shiftLeft, Nat.and_two_pow, hlist]
      simp
    unfold Talloc.allocBlock
    rw [h.inv.nat.blockGranularity heK]
    show ((if t.avails &&& (1 <<< (K - e)) ≠ 0 then _ else _) = _ ∧ _) ∨
      ∃ ptr L' script' t₁ t', (if t.avails &&& (1 <<< (K - e)) ≠ 0 then _ else _) = _ ∧ _
    rw [if_neg hav]
    rcases findLoop_spec (l := l) heK fuel h hs hfuel with
      ⟨herr, hedge⟩ | ⟨found, L', s', t₁, hrun, hcon, rfl | ⟨hnz, rfl⟩⟩
    · rw [herr]
      exact Or.inl ⟨rfl, hedge⟩
    · rw [hrun]
      exact Or.inr ⟨none, L', s', t₁, t₁, rfl, hcon, Or.inl ⟨rfl, rfl⟩⟩
    · -- split the smallest larger block
      obtain ⟨e', hlt, he'K, hlog, hne⟩ := hcon.acc.inv.larger hnz
      obtain ⟨p, t₂, t', hrem, hbr, htk⟩ := Talloc.split_spec hcon.acc.inv hJe hlt he'K hne
      obtain ⟨hnn, hsv⟩ := hserve hcon.acc hcon.shape htk
      refine Or.inr ⟨some p, L', s', t₁, t', ?_, hcon, hsv⟩
      rw [hrun]
      show (t₁.removeBlockNext (fastNon0Log2 _) (t₁.arenaSizePow2 >>> fastNon0Log2 _) >>= _) = _
      rw [hlog, hrem]
      show (Talloc.breakDown p _ _ _ t₂ >>= _) = _
      rw [hbr]
      show (nonNull p >>= _) = _
      rw [hnn]
      rfl

/-- `alloc` within its contract: it refuses, or hands out a block of the size and
alignment of the layout. -/
theorem alloc_spec {l : Layout} {script : List Answer} (h : Accounted K J L t) (hl : l.Valid)
    (h0 : l.size ≠ 0) (hs : ScriptAllowed script L t) :
    (Talloc.alloc scripted (script.length + 1) (L, script) t l = .error .overflow ∧
      ScriptAtEdge t.toArena script) ∨
    ∃ ptr L' script' t₁ t', Talloc.alloc scripted (script.length + 1) (L, script) t l
        = .ok (ptr, (L', script'), t') ∧
      Consumed K J L script t L' script' t₁ ∧ Served K J L' l t₁ ptr t' := by
  have hK := h.inv.nat.hK
  have hJK := h.inv.nat.hJK
  obtain ⟨e, hsize, hJe, _, hsz, hal⟩ := layoutToSize_spec (a := t.toArena) hl h0 h.inv.nat.smlst
    (by omega)
  dsimp only [Talloc.alloc]
  rw [hsize]
  rcases growLoop_spec l (2 ^ e) (script.length + 1) h hs (Nat.lt_succ_self _) with
    ⟨herr, hedge⟩ | ⟨ok, L₁, s₁, t₁, hrun, hcon, hle⟩
  · rw [herr]
    exact Or.inl ⟨rfl, hedge⟩
  · rw [hrun]
    cases ok with
    | false => exact Or.inr ⟨none, L₁, s₁, t₁, t₁, rfl, hcon, Or.inl ⟨rfl, rfl⟩⟩
    | true =>
      have heK : e ≤ K := by
        have h1 := (hle rfl).trans hcon.acc.inv.nat.size
        exact (Nat.pow_le_pow_iff_right (by norm_num)).mp h1
      have hlen : s₁.length < script.length + 1 := Nat.lt_succ_of_le hcon.suffix.length_le
      have hsize₁ : t₁.layoutToSize l = 2 ^ e := by
        rw [hcon.shape.arena]
        exact hsize
      rcases allocBlock_spec hcon.acc hcon.allowed hlen hsize₁ hJe heK hsz hal with
        ⟨herr, hedge⟩ | ⟨ptr, L', s', t₂, t', hrun', hcon', hsv⟩
      · rw [hcon.shape.arena] at hedge
        exact Or.inl ⟨herr, hedge.mono hcon.suffix⟩
      · exact Or.inr ⟨ptr, L', s', t₂, t', hrun', hcon.trans hcon', hsv⟩

/-- One call within its contract keeps the accounting, or is stopped at the edge
of the address space. -/
theorem Op.run_spec (h : Accounted K J L t) {op : Op} (ha : op.Allowed L t) :
    (op.run L t = .error .overflow ∧ ∃ a ∈ op.acts, a.AtEdge t.toArena) ∨
    ∃ ptr L' t', op.run L t = .ok (ptr, L', t') ∧ Accounted K J L' t' ∧ Talloc.SameShape t t' ∧
      (NoRelease op.acts → L'.given = L.given) := by
  cases op with
  | act a =>
    dsimp only [Op.run]
    rcases Act.run_spec h (a := a) ha with ⟨herr, hedge⟩ | ⟨L', t', hrun, hacc, hsh⟩
    · rw [herr]
      exact Or.inl ⟨rfl, a, List.mem_singleton.mpr rfl, hedge⟩
    · rw [hrun]
      refine Or.inr ⟨none, L', t', rfl, hacc, hsh, fun hno => ?_⟩
      have hacts : runActs [a] L t = .ok (L', t') := by
        dsimp only [runActs]
        rw [hrun]
        rfl
      exact runActs_given [a] hno hacts
  | alloc layout script =>
    obtain ⟨hv, h0, hs⟩ := ha
    dsimp only [Op.run]
    rcases alloc_spec h hv h0 hs with ⟨herr, hedge⟩ | ⟨ptr, L', s', t₁, t', hrun, hcon, hsv⟩
    · rw [herr]
      exact Or.inl ⟨rfl, hedge⟩
    · rw [hrun]
      rcases hsv with ⟨rfl, rfl⟩ | ⟨p, e, rfl, _, _, _, _, _, htk, hacc⟩
      · exact Or.inr ⟨none, L', t', rfl, hcon.acc, hcon.shape, hcon.given⟩
      · exact Or.inr ⟨some p, _, t', rfl, hacc, hcon.shape.trans htk.shape, hcon.given⟩

/-- A call by a client keeps the accounting. -/
theorem Op.accounted {op : Op} {ptr : Option Int} {L' : Ledger} {t' : Talloc FreeLists}
    (h : Accounted K J L t) (ha : op.Allowed L t) (hrun : op.run L t = .ok (ptr, L', t')) :
    Accounted K J L' t' ∧ Talloc.SameShape t t' ∧ (NoRelease op.acts → L'.given = L.given) := by
  rcases Op.run_spec h ha with ⟨herr, _⟩ | ⟨_, _, _, hok, hacc⟩
  · rw [hrun] at herr
    cases herr
  · rw [hrun] at hok
    cases hok
    exact hacc

end Accounted

end Tauos.Memm
