import Tauos.Memm.Client

/-!
# Building a `Talloc`

`Site` is a place for an allocator: a naturally aligned arena and, inside it,
`free_mem` with room for the status data. What is left behind the status data
has to reach a block boundary (one more smallest block is enough,
`Site.of_room`): `release` rounds the start of a slice up and its end down, and
a start above the end makes it panic. On a site the addresses `extend` computes
do not wrap, the status data is in front of what `extend` releases, and `new`
starts the accounting:

> `new_spec`: on a `Site`, `new` overflows because its span ends at the edge of
> the address space, or returns a state whose free addresses are the whole
> blocks of `free_mem` behind the status data.
-/

namespace Tauos.Memm

open Tauos.Rust Tauos.Utils Tauos.Buddy

/-- A naturally aligned arena, and `free_mem` inside it with room for the status
data and a block boundary behind it. -/
structure Site (arenaBase : Int) (arenaSize smallestBlock : Nat) (freeMem : Slice) : Prop where
  aligned : (nextPowerOfTwo arenaSize : Int) ∣ arenaBase
  lo : -2 ^ 63 ≤ arenaBase
  hi : arenaBase + arenaSize < 2 ^ 63
  memLo : arenaBase ≤ freeMem.ptr
  memHi : freeMem.ptr + freeMem.len ≤ arenaBase + arenaSize
  room : ∀ ll bm, sliceBytes arenaSize smallestBlock = .ok (ll, bm) → ∃ c : Int,
    (smallestBlock : Int) ∣ c ∧ c ≤ freeMem.ptr + freeMem.len ∧
      freeMem.ptr + (Talloc.llAlignOffset freeMem + ll + bm : Nat) ≤ c

/-- A site up to the alignment of its arena: `free_mem` is where `extend` wants it. -/
structure Place (arenaBase : Int) (arenaSize smallestBlock : Nat) (freeMem : Slice) : Prop where
  lo : -2 ^ 63 ≤ arenaBase
  hi : arenaBase + arenaSize < 2 ^ 63
  memLo : arenaBase ≤ freeMem.ptr
  memHi : freeMem.ptr + freeMem.len ≤ arenaBase + arenaSize
  room : ∀ ll bm, sliceBytes arenaSize smallestBlock = .ok (ll, bm) → ∃ c : Int,
    (smallestBlock : Int) ∣ c ∧ c ≤ freeMem.ptr + freeMem.len ∧
      freeMem.ptr + (Talloc.llAlignOffset freeMem + ll + bm : Nat) ≤ c

/-- A site is a place for the status data. -/
theorem Site.place {arenaBase : Int} {arenaSize smallestBlock : Nat} {freeMem : Slice}
    (h : Site arenaBase arenaSize smallestBlock freeMem) :
    Place arenaBase arenaSize smallestBlock freeMem :=
  ⟨h.lo, h.hi, h.memLo, h.memHi, h.room⟩

/-- Bytes in front of what `extend` releases of `free_mem`: padding, `llists`, `bitmap`. -/
def statusBytes (K J : Nat) (freeMem : Slice) : Nat :=
  Talloc.llAlignOffset freeMem + (K - J + 1) * nodeSize + max (2 ^ (K - J + 1) / 8) 1

/-- The part of `free_mem` behind the status data. -/
def tailOf (K J : Nat) (freeMem : Slice) : Slice :=
  ⟨freeMem.ptr + statusBytes K J freeMem, freeMem.len - statusBytes K J freeMem⟩

section Site

variable {arenaBase : Int} {arenaSize K J : Nat} {freeMem : Slice}

/-- The span starts at the first boundary. -/
theorem spanBase_le {m : Slice} {c : Int} (hc : Aligned J c) (h : m.ptr ≤ c) :
    Talloc.spanBase J m ≤ c := by
  by_contra hcon
  have h1 := hc.add_le_of_lt (aligned_floorBlock J (m.ptr + (2 ^ J - 1))) (not_le.mp hcon)
  have h2 := (Talloc.spanBase_bounds J m).2
  unfold Talloc.spanBase at h2
  omega

/-- It ends at the last one. -/
theorem le_spanAcme {m : Slice} {c : Int} (hc : Aligned J c) (h : c ≤ m.ptr + m.len) :
    c ≤ Talloc.spanAcme J m := by
  by_contra hcon
  have h1 := (aligned_floorBlock J (m.ptr + m.len)).add_le_of_lt hc (not_le.mp hcon)
  have h2 := (Talloc.spanAcme_bounds J m).2
  unfold Talloc.spanAcme at h2
  omega

/-- The lists start at most 16 bytes behind the memory. -/
theorem llAlignOffset_bounds (m : Slice) :
    1 ≤ Talloc.llAlignOffset m ∧ Talloc.llAlignOffset m ≤ 16 := by
  unfold Talloc.llAlignOffset nodeSize
  omega

/-- One smallest block behind the status data holds a block boundary. -/
theorem Site.of_room (aligned : (nextPowerOfTwo arenaSize : Int) ∣ arenaBase)
    (lo : -2 ^ 63 ≤ arenaBase) (hi : arenaBase + arenaSize < 2 ^ 63)
    (memLo : arenaBase ≤ freeMem.ptr) (memHi : freeMem.ptr + freeMem.len ≤ arenaBase + arenaSize)
    (room : ∀ ll bm, sliceBytes arenaSize (2 ^ J) = .ok (ll, bm) →
      Talloc.llAlignOffset freeMem + ll + bm + 2 ^ J ≤ freeMem.len) :
    Site arenaBase arenaSize (2 ^ J) freeMem := by
  refine ⟨aligned, lo, hi, memLo, memHi, fun ll bm hs => ?_⟩
  have hle := room ll bm hs
  have hcast : ((2 ^ J : Nat) : Int) = 2 ^ J := by push_cast; rfl
  obtain ⟨h1, h2⟩ := Talloc.spanAcme_bounds J freeMem
  refine ⟨Talloc.spanAcme J freeMem, ?_, h1, by omega⟩
  rw [hcast]
  exact aligned_floorBlock J _

/-- The status data ends in front of a boundary in the memory. -/
theorem Place.room_le (h : Place arenaBase arenaSize (2 ^ J) freeMem)
    (hs : sliceBytes arenaSize (2 ^ J) =
      .ok ((K - J + 1) * nodeSize, max (2 ^ (K - J + 1) / 8) 1)) :
    ∃ c, Aligned J c ∧ c ≤ freeMem.ptr + freeMem.len ∧
      freeMem.ptr + statusBytes K J freeMem ≤ c := by
  obtain ⟨c, hc, h1, h2⟩ := h.room _ _ hs
  push_cast at hc
  exact ⟨c, hc, h1, h2⟩

/-- Addresses in the memory are in range. -/
theorem Place.inIsize (h : Place arenaBase arenaSize (2 ^ J) freeMem) {n : Nat}
    (hn : n ≤ freeMem.len) : InIsize (freeMem.ptr + n) := by
  have h1 := h.lo
  have h2 := h.hi
  have h3 := h.memLo
  have h4 := h.memHi
  constructor <;> omega

/-- The addresses `extend` computes on a site. -/
theorem Place.addresses (h : Place arenaBase arenaSize (2 ^ J) freeMem)
    (hroom : statusBytes K J freeMem ≤ freeMem.len) :
    wrappingAdd freeMem.ptr (Talloc.llAlignOffset freeMem)
        = freeMem.ptr + Talloc.llAlignOffset freeMem ∧
    wrappingAdd (wrappingAdd freeMem.ptr (Talloc.llAlignOffset freeMem)) ((K - J + 1) * nodeSize)
        = freeMem.ptr + (Talloc.llAlignOffset freeMem + (K - J + 1) * nodeSize : Nat) ∧
    freeMem.drop
        (Talloc.llAlignOffset freeMem + (K - J + 1) * nodeSize + max (2 ^ (K - J + 1) / 8) 1)
        = .ok (tailOf K J freeMem) := by
  have hsum : statusBytes K J freeMem =
    Talloc.llAlignOffset freeMem + (K - J + 1) * nodeSize + max (2 ^ (K - J + 1) / 8) 1 := rfl
  have h1 := wrappingAdd_of_inIsize (h.inIsize (n := Talloc.llAlignOffset freeMem) (by omega))
  have h2 := h.inIsize (n := Talloc.llAlignOffset freeMem + (K - J + 1) * nodeSize) (by omega)
  have h3 := wrappingAdd_of_inIsize (h.inIsize (n := statusBytes K J freeMem) (by omega))
  refine ⟨h1, ?_, ?_⟩
  · rw [h1]
    push_cast at h2 ⊢
    rw [← add_assoc] at h2 ⊢
    rw [wrappingAdd_of_inIsize (by push_cast; exact h2)]
    push_cast
    rfl
  · rw [← hsum, Slice.drop, if_pos (by omega), h3]
    rfl

/-- The first `extend` passes its checks. -/
theorem Place.checkExtend (h : Place arenaBase arenaSize (2 ^ J) freeMem) {t : Talloc FreeLists}
    (ht : t.bitmapLen = 0) : t.checkExtend arenaBase arenaSize freeMem = .ok () := by
  have hacme : InIsize (arenaBase + arenaSize) := ⟨by have := h.lo; omega, h.hi⟩
  have hlen := wrappingAdd_of_inIsize (h.inIsize (Nat.le_refl _))
  unfold Talloc.checkExtend ensure
  rw [isizeAdd_of_inIsize hacme]
  dsimp only [bind, Except.bind]
  rw [decide_eq_true h.memLo, hlen, decide_eq_true h.memHi, ht]
  rfl

/-- A site has a natural arena. -/
theorem Site.natural (h : Site arenaBase arenaSize (2 ^ J) freeMem)
    (hK : nextPowerOfTwo arenaSize = 2 ^ K) (hJ : 4 ≤ J) (hJK : J ≤ K) (hK48 : K ≤ 48)
    (hn : arenaSize ≤ 2 ^ K) :
    Natural ⟨arenaBase, arenaSize, nextPowerOfTwo arenaSize, 2 ^ J⟩ K J where
  pow2 := hK
  smlst := rfl
  hJ := hJ
  hJK := hJK
  hK := hK48
  size := hn
  base := by
    have := h.aligned
    rw [hK] at this
    push_cast at this
    exact this
  lo := h.lo
  hi := h.hi

end Site

/-! ## `new` -/

namespace Talloc

/-- Empty lists with a clear bitmap are a valid state. -/
theorem Inv.of_empty {t : Talloc FreeLists} {K J : Nat} (hnat : Natural t.toArena K J)
    (hllen : t.llistsLen = K - J + 1) (hslen : t.store.llists.length = K - J + 1)
    (hblen : t.bitmapLen = max (2 ^ (K - J + 1) / 8) 1) (hempty : ∀ g, t.list g = [])
    (hav : t.avails = 0) (hbm : t.store.bitmap = List.replicate t.bitmapLen 0) : Inv K J t := by
  have hnone : ∀ {e b}, ¬ t.FreeBlock K e b := by
    rintro e b ⟨_, hb⟩
    rw [hempty] at hb
    cases hb
  refine ⟨hnat, hllen, hslen, hblen, ?_, ?_, fun hF => absurd hF hnone, ?_, hempty 0, ?_, ?_⟩
  · rw [hbm, List.length_replicate]
  · intro g
    rw [hempty]
    exact List.nodup_nil
  · exact ⟨fun hF => absurd hF hnone, fun hF => absurd hF hnone, fun hF => absurd hF hnone⟩
  · intro g
    rw [hav, hempty, Nat.zero_testBit]
    simp
  · intro i _
    rw [hbm, getBit_replicate_zero]
    constructor
    · intro hc
      cases hc
    · rintro ⟨e, b, _, hF, _⟩
      exact absurd hF hnone

/-- There are no free blocks to move. -/
theorem list_moveLists_nil {t : Talloc FreeLists} {d n : Nat}
    (ht : t.store.llists = moveLists [] d n)
    (g : Nat) : t.list g = [] := by
  unfold list moveLists at *
  rw [ht, List.getD_eq_getElem?_getD, List.getElem?_map]
  cases (List.range n)[g]? with
  | none => rfl
  | some i => simp

/-- The state `new` starts from: the status data in place, nothing free. -/
def fresh (arenaBase : Int) (arenaSize K J : Nat) (freeMem : Slice) : Talloc FreeLists where
  toArena := ⟨arenaBase, arenaSize, nextPowerOfTwo arenaSize, 2 ^ J⟩
  avails := 0
  llistsPtr := freeMem.ptr + llAlignOffset freeMem
  llistsLen := K - J + 1
  bitmapPtr := freeMem.ptr + (llAlignOffset freeMem + (K - J + 1) * nodeSize : Nat)
  bitmapLen := max (2 ^ (K - J + 1) / 8) 1
  store := ⟨moveLists [] (K - J + 1) (K - J + 1), List.replicate (max (2 ^ (K - J + 1) / 8) 1) 0⟩

/-- The invariant holds before anything is released. -/
theorem fresh_inv {arenaBase : Int} {arenaSize K J : Nat} {freeMem : Slice}
    (hnat : Natural ⟨arenaBase, arenaSize, nextPowerOfTwo arenaSize, 2 ^ J⟩ K J) :
    Inv K J (fresh arenaBase arenaSize K J freeMem) :=
  Inv.of_empty hnat rfl (by simp [fresh, moveLists]) rfl (list_moveLists_nil rfl) rfl rfl

/-- Where the status data of a new allocator ends. -/
theorem fresh_end (arenaBase : Int) (arenaSize K J : Nat) (freeMem : Slice) :
    (fresh arenaBase arenaSize K J freeMem).bitmapPtr
        + (fresh arenaBase arenaSize K J freeMem).bitmapLen
      = freeMem.ptr + statusBytes K J freeMem := by
  show freeMem.ptr + (llAlignOffset freeMem + (K - J + 1) * nodeSize : Nat)
    + (max (2 ^ (K - J + 1) / 8) 1 : Nat) = _
  unfold statusBytes
  push_cast
  rw [add_assoc]

/-- `new` puts the status data in place and releases the rest of `free_mem`. -/
theorem new_eq {arenaBase : Int} {arenaSize K J : Nat} {freeMem : Slice}
    (h : Place arenaBase arenaSize (2 ^ J) freeMem)
    (hs : sliceBytes arenaSize (2 ^ J) =
      .ok ((K - J + 1) * nodeSize, max (2 ^ (K - J + 1) / 8) 1)) :
    new arenaBase arenaSize (2 ^ J) freeMem
      = (fresh arenaBase arenaSize K J freeMem).release (tailOf K J freeMem) := by
  obtain ⟨c, _, hc1, hc2⟩ := h.room_le hs
  obtain ⟨h1, h2, h3⟩ := h.addresses (K := K) (by omega)
  have hcheck := h.checkExtend (t := newInvalid (2 ^ J)) rfl
  have hn : (K - J + 1) * nodeSize / nodeSize = K - J + 1 :=
    Nat.mul_div_cancel _ (by decide)
  have hrel : (newInvalid (2 ^ J)).relocate arenaBase arenaSize freeMem
      = .ok (fresh arenaBase arenaSize K J freeMem) := by
    unfold relocate fresh
    rw [show (newInvalid (2 ^ J)).smlstBlock = 2 ^ J from rfl, hs]
    dsimp only [bind, Except.bind]
    rw [hn, h2, h1]
    rw [show (newInvalid (2 ^ J)).llistsLen = 0 from rfl, usizeSub_of_le (Nat.zero_le _)]
    show Except.ok _ = Except.ok _
    rw [show (newInvalid (2 ^ J)).avails = 0 from rfl, Nat.zero_shiftLeft]
    rfl
  unfold new extend
  rw [show (newInvalid (2 ^ J)).smlstBlock = 2 ^ J from rfl, hs]
  dsimp only [bind, Except.bind]
  rw [hcheck]
  dsimp only
  rw [hrel]
  dsimp only
  rw [h3]
  rfl

/-- A slice that was released starts in the arena, up to the next block. -/
theorem release_ok {t t' : Talloc FreeLists} {mem : Slice} (h : t.release mem = .ok t') :
    t.arenaBase ≤ maskDown (mem.ptr + (t.smlstBlock - 1)) t.smlstBlock := by
  obtain ⟨sbm1, hsbm1, h⟩ := bind_ok h
  obtain ⟨p, hp, h⟩ := bind_ok h
  obtain ⟨q, _, h⟩ := bind_ok h
  obtain ⟨_, hensure, _⟩ := bind_ok h
  obtain ⟨rfl, _⟩ := isizeSub_ok hsbm1
  obtain ⟨rfl, _⟩ := isizeAdd_ok hp
  exact of_decide_eq_true (ensure_ok hensure)

/-- `free_mem` had room for the status data. -/
theorem new_ok {arenaBase : Int} {arenaSize smallestBlock : Nat} {freeMem : Slice}
    {t : Talloc FreeLists} (h : new arenaBase arenaSize smallestBlock freeMem = .ok t) :
    t.arenaBase = arenaBase ∧ t.smlstBlock = smallestBlock ∧
    ∃ ll bm, sliceBytes arenaSize smallestBlock = .ok (ll, bm) ∧
      llAlignOffset freeMem + ll + bm ≤ freeMem.len := by
  obtain ⟨⟨ll, bm⟩, hs, h⟩ := bind_ok h
  obtain ⟨_, _, h⟩ := bind_ok h
  obtain ⟨t₁, hrel, h⟩ := bind_ok h
  obtain ⟨t₂, hold, h⟩ := bind_ok h
  obtain ⟨tail, htail, h⟩ := bind_ok h
  obtain ⟨⟨_, _⟩, _, hrel⟩ := bind_ok hrel
  obtain ⟨_, _, hrel⟩ := bind_ok hrel
  obtain ⟨_, _, hrel⟩ := bind_ok hrel
  cases hrel
  cases hold
  have harena := release_arena h
  refine ⟨by rw [harena], by rw [harena]; rfl, ll, bm, hs, ?_⟩
  unfold Slice.drop at htail
  split at htail
  next hle => exact hle
  next => cases htail

end Talloc

/-- Nothing is free before the first `release`. -/
theorem Talloc.fresh_not_free {arenaBase : Int} {arenaSize K J : Nat} {freeMem : Slice} (x : Int) :
    ¬ Covers ((fresh arenaBase arenaSize K J freeMem).FreeBlock K) x := by
  intro h
  obtain ⟨e, b, ⟨_, hF⟩, _⟩ := h
  rw [list_moveLists_nil rfl] at hF
  cases hF

/-- `new` may release what is behind the status data. -/
theorem Site.releasable {arenaBase : Int} {arenaSize K J : Nat} {freeMem : Slice}
    (h : Site arenaBase arenaSize (2 ^ J) freeMem)
    (hs : sliceBytes arenaSize (2 ^ J) = .ok ((K - J + 1) * nodeSize, max (2 ^ (K - J + 1) / 8) 1))
    (hnat : Natural ⟨arenaBase, arenaSize, nextPowerOfTwo arenaSize, 2 ^ J⟩ K J) :
    Talloc.Releasable K J (freeMem.ptr + Talloc.llAlignOffset freeMem) (tailOf K J freeMem)
      (Talloc.fresh arenaBase arenaSize K J freeMem) := by
  obtain ⟨c, hcJ, hc1, hc2⟩ := h.place.room_le hs
  have hpos := two_pow_pos J
  have hlo := h.memLo
  have hhi := h.memHi
  have hoff := llAlignOffset_bounds freeMem
  have hcastK : (arenaSize : Int) ≤ 2 ^ K := hnat.cast_pow
  have hstat : Talloc.llAlignOffset freeMem < statusBytes K J freeMem := by
    unfold statusBytes
    have : 1 ≤ max (2 ^ (K - J + 1) / 8) 1 := le_max_right _ _
    omega
  have hmp : (tailOf K J freeMem).ptr = freeMem.ptr + statusBytes K J freeMem := rfl
  have hml : ((tailOf K J freeMem).len : Int) = freeMem.len - statusBytes K J freeMem := by
    show ((freeMem.len - statusBytes K J freeMem : Nat) : Int) = _
    omega
  obtain ⟨hb1, hb2⟩ := Talloc.spanBase_bounds J (tailOf K J freeMem)
  obtain ⟨ha1, ha2⟩ := Talloc.spanAcme_bounds J (tailOf K J freeMem)
  refine ⟨Talloc.fresh_inv hnat, ?_, ?_, ?_, fun x _ _ => Talloc.fresh_not_free x, ?_, ?_,
    Talloc.fresh_not_free _⟩
  · show arenaBase ≤ (tailOf K J freeMem).ptr
    omega
  · show Talloc.spanAcme J (tailOf K J freeMem) ≤ arenaBase + arenaSize
    omega
  · exact (spanBase_le hcJ hc2).trans (le_spanAcme hcJ (by omega))
  · constructor
    · show arenaBase ≤ _
      omega
    · show _ < arenaBase + 2 ^ K
      omega
  · omega

/-- The free addresses of a new allocator, and what it reserves. -/
theorem new_spec {arenaBase : Int} {arenaSize K J : Nat} {freeMem : Slice}
    (h : Site arenaBase arenaSize (2 ^ J) freeMem) (hK : nextPowerOfTwo arenaSize = 2 ^ K)
    (hJ : 4 ≤ J) (hJK : J ≤ K) (hK48 : K ≤ 48) (h64 : 64 ≤ arenaSize) (hn : arenaSize ≤ 2 ^ K) :
    (Talloc.new arenaBase arenaSize (2 ^ J) freeMem = .error .overflow ∧
      (Talloc.spanAcme J (tailOf K J freeMem) = 0 ∨
        ¬ Arena.Low48 ⟨arenaBase, arenaSize, nextPowerOfTwo arenaSize, 2 ^ J⟩)) ∨
    ∃ t, Talloc.new arenaBase arenaSize (2 ^ J) freeMem = .ok t ∧
      Talloc.SameShape (Talloc.fresh arenaBase arenaSize K J freeMem) t ∧
      Accounted K J ⟨[], [tailOf K J freeMem]⟩ t := by
  have hn48 : arenaSize ≤ 2 ^ 48 := hn.trans (Nat.pow_le_pow_right (by norm_num) hK48)
  have hs := sliceBytes_of h64 hn48 hJ hK hJK
  have hrel := h.releasable hs (h.natural hK hJ hJK hK48 hn)
  have hempty : ∀ x, ¬ Covers ((Talloc.fresh arenaBase arenaSize K J freeMem).FreeBlock K) x :=
    Talloc.fresh_not_free
  rw [Talloc.new_eq h.place hs]
  set m := tailOf K J freeMem with hm
  have hmp : m.ptr = freeMem.ptr + statusBytes K J freeMem := rfl
  rcases Talloc.release_spec hrel with herr | ⟨t, hrun, hdone⟩
  · exact Or.inl herr
  · refine Or.inr ⟨t, hrun, hdone.shape, ?_⟩
    have hsh := hdone.shape
    -- the status data is what `new` has kept from `release`
    have hstatus : ∀ x, t.Status x ↔
        (freeMem.ptr + Talloc.llAlignOffset freeMem ≤ x ∧ x < m.ptr) := by
      intro x
      rw [hsh.status, hmp, ← Talloc.fresh_end arenaBase arenaSize]
      rfl
    refine ⟨hdone.inv, fun hq => (by cases hq), List.Pairwise.nil, ?_, ?_, ?_, ?_, ?_⟩
    · rintro x ⟨q, hq, _⟩
      cases hq
    · intro x
      rw [Ledger.given_cons, hdone.covers]
      have h1 := hempty x
      simp [Ledger.Live, Ledger.Given, h1]
    · intro x hx
      rw [Ledger.given_cons] at hx
      rw [hstatus]
      rcases hx with ⟨hx, _⟩ | ⟨m', hm', _⟩
      · have := Talloc.le_of_spanFirst_le hx
        omega
      · cases hm'
    · rw [hsh.bitmapPtr, hsh.llistsPtr, hsh.llistsLen]
      show freeMem.ptr + (Talloc.llAlignOffset freeMem + (K - J + 1) * nodeSize : Nat)
        = freeMem.ptr + Talloc.llAlignOffset freeMem + ((K - J + 1) * nodeSize : Nat)
      push_cast
      ring
    · rw [hsh.arena, hsh.llistsPtr]
      exact hrel.other

end Tauos.Memm
