import Tauos.Memm.Relocate
import Tauos.Memm.Run

/-!
# Extending a `Talloc`

`extend` on the same base: the status data moves to `free_mem`
(`Tauos.Memm.Relocate`), the blocks of the old status data are released, and
then what is left of `free_mem`.

`extend_cases` says how every such call ends: with the free addresses of before,
the blocks of the old status data and the whole blocks behind the new one; with
a panic, in the bitmap loop or at the end of the address space; or where the
stale bit of the move is read. From it come the exact conditions under which
`extend` keeps the records in agreement and under which it conserves memory.
-/

namespace Tauos.Memm

open Tauos.Rust Tauos.Utils Tauos.Buddy

/-! ## The blocks of the status data -/

/-- `x` is in a smallest block that holds status data. -/
def Talloc.StatusBlock (t : Talloc FreeLists) (x : Int) : Prop :=
  ∃ z, t.Status z ∧ z / t.smlstBlock = x / t.smlstBlock

/-- What `new` and `extend` leave besides the accounting: `arena_size_pow2` is the
one of `arena_size`, and behind the status data, inside the arena, is a block
boundary. -/
structure Talloc.Seated (t : Talloc FreeLists) : Prop where
  min : 64 ≤ t.arenaSize
  pow2 : t.arenaSizePow2 = nextPowerOfTwo t.arenaSize
  room : ∃ c : Int, (t.smlstBlock : Int) ∣ c ∧ t.bitmapPtr + t.bitmapLen ≤ c ∧
    c ≤ t.arenaBase + t.arenaSize

section Status

variable {K J : Nat} {L : Ledger} {t : Talloc FreeLists}

/-- A span starts at a boundary. -/
theorem aligned_spanFirst (J : Nat) (m : Slice) : Aligned J (Talloc.spanFirst J m) := by
  unfold Talloc.spanFirst
  split
  · exact dvd_refl _
  · exact aligned_floorBlock J _

/-- Released addresses come in whole smallest blocks. -/
theorem Ledger.Given.congr {x z : Int} (h : L.Given J x) (hxz : floorBlock J z = floorBlock J x) :
    L.Given J z := by
  obtain ⟨m, hm, h1, h2⟩ := h
  refine ⟨m, hm, ?_, ?_⟩
  · rw [← le_floorBlock (aligned_spanFirst J m), hxz, le_floorBlock (aligned_spanFirst J m)]
    exact h1
  · have ha : Aligned J (Talloc.spanAcme J m) := aligned_floorBlock J _
    rw [← floorBlock_lt ha, hxz, floorBlock_lt ha]
    exact h2

/-- A smallest block with a byte of status data in it. -/
theorem Accounted.statusBlock_iff (h : Accounted K J L t) (x : Int) :
    t.StatusBlock x ↔ ∃ z, t.Status z ∧ floorBlock J z = floorBlock J x := by
  unfold Talloc.StatusBlock floorBlock
  rw [h.inv.nat.smlst]
  push_cast
  refine exists_congr fun z => and_congr_right fun _ => ⟨fun hd => by rw [hd], fun hd => ?_⟩
  exact Int.eq_of_mul_eq_mul_right (ne_of_gt (two_pow_pos J)) hd

/-- It is not released. -/
theorem Accounted.not_given_of_statusBlock (h : Accounted K J L t) {x : Int}
    (hx : t.StatusBlock x) : ¬ L.Given J x := by
  obtain ⟨z, hz, hxz⟩ := (h.statusBlock_iff x).mp hx
  exact fun hc => h.statusFree (hc.congr hxz) hz

/-- Bytes of the status data. -/
def Talloc.statusSize (t : Talloc FreeLists) : Nat := t.llistsLen * nodeSize + t.bitmapLen

/-- The status data by its size. -/
theorem Accounted.status_iff (h : Accounted K J L t) (x : Int) :
    t.Status x ↔ t.llistsPtr ≤ x ∧ x < t.llistsPtr + t.statusSize := by
  unfold Talloc.Status Talloc.statusSize
  rw [h.layout]
  push_cast
  rw [add_assoc]

/-- There is some. -/
theorem Accounted.statusSize_pos (h : Accounted K J L t) : 0 < t.statusSize := by
  have h1 := h.inv.blen
  unfold Talloc.statusSize
  omega

/-- What `extend` releases of the old status data. -/
theorem Accounted.oldStatus_eq (h : Accounted K J L t) :
    t.oldStatus.ptr = t.llistsPtr ∧ (t.oldStatus.len : Int) = ceilBlock J t.statusSize := by
  refine ⟨rfl, ?_⟩
  have hK := h.inv.nat.hK
  have hJK := h.inv.nat.hJK
  have hpos := Nat.two_pow_pos J
  have hJ48 : 2 ^ J ≤ 2 ^ 48 := Nat.pow_le_pow_right (by norm_num) (by omega)
  have hlen : t.statusSize ≤ 2 ^ 50 := by
    have h1 := h.inv.llen
    have h2 := h.inv.blen
    have h3 : 2 ^ (K - J + 1) ≤ 2 ^ 49 := Nat.pow_le_pow_right (by norm_num) (by omega)
    unfold Talloc.statusSize nodeSize
    omega
  have hcast : ((t.statusSize + 2 ^ J - 1 : Nat) : Int) = t.statusSize + (2 ^ J - 1) := by
    rw [Nat.cast_sub (by omega)]
    push_cast
    ring
  have hin : InIsize (((t.statusSize + 2 ^ J - 1 : Nat)) : Int) := ⟨by omega, by omega⟩
  obtain ⟨hc, _⟩ := ceilBlock_bounds J t.statusSize
  show (((maskDown ((t.statusSize + t.smlstBlock - 1 : Nat) : Int) t.smlstBlock).toNat : Nat) : Int)
    = _
  rw [h.inv.nat.smlst, maskDown_two_pow hin (by omega), hcast]
  show ((ceilBlock J t.statusSize).toNat : Int) = _
  rw [Int.toNat_of_nonneg (by omega)]

/-- What `extend` releases of the old status data. -/
theorem Accounted.oldStatus_span (h : Accounted K J L t) :
    Talloc.spanBase J t.oldStatus = ceilBlock J t.llistsPtr ∧
    Talloc.spanAcme J t.oldStatus = floorBlock J t.llistsPtr + ceilBlock J t.statusSize := by
  obtain ⟨h1, h2⟩ := h.oldStatus_eq
  unfold Talloc.spanBase Talloc.spanAcme
  rw [h1, h2, floorBlock_add (aligned_ceilBlock J _)]
  exact ⟨rfl, rfl⟩

/-- The span is one of blocks that hold status data, in order and inside the arena. -/
theorem Accounted.oldStatus_inside (h : Accounted K J L t) (hs : t.Seated) :
    Talloc.spanBase J t.oldStatus ≤ Talloc.spanAcme J t.oldStatus ∧
    Talloc.spanAcme J t.oldStatus ≤ t.arenaBase + t.arenaSize ∧
    ∀ x, Talloc.spanBase J t.oldStatus ≤ x → x < Talloc.spanAcme J t.oldStatus →
      t.StatusBlock x := by
  obtain ⟨h1, h2⟩ := h.oldStatus_span
  obtain ⟨hf1, hf2⟩ := within_floorBlock J t.llistsPtr
  obtain ⟨hc1, hc2⟩ := ceilBlock_bounds J t.statusSize
  obtain ⟨hb1, hb2⟩ := ceilBlock_bounds J t.llistsPtr
  have hpos := two_pow_pos J
  have hsz := h.statusSize_pos
  have hceil : 2 ^ J ≤ ceilBlock J t.statusSize := by
    have := Aligned.add_le_of_lt (dvd_zero _) (aligned_ceilBlock J t.statusSize) (by omega)
    omega
  have hend : t.bitmapPtr + t.bitmapLen = t.llistsPtr + t.statusSize := by
    unfold Talloc.statusSize
    rw [h.layout]
    push_cast
    ring
  rw [h1, h2]
  refine ⟨?_, ?_, fun x hx1 hx2 =>
    (h.statusBlock_iff x).mpr ⟨floorBlock J x, ?_, floorBlock_floorBlock J x⟩⟩
  · have := (aligned_ceilBlock J t.llistsPtr).add_le_of_lt
      ((aligned_floorBlock J t.llistsPtr).add.add (e := J)) (by omega)
    omega
  · obtain ⟨c, hc, hc3, hc4⟩ := hs.room
    rw [h.inv.nat.smlst] at hc
    push_cast at hc
    replace hc : Aligned J c := hc
    by_contra hcon
    have := hc.add_le_of_lt (dvd_add (aligned_floorBlock J t.llistsPtr)
      (aligned_ceilBlock J t.statusSize)) (show c < _ by omega)
    omega
  · -- the block starts behind the first sentinel and before the end of the bitmap
    rw [h.status_iff]
    have hlo := (le_floorBlock (aligned_ceilBlock J t.llistsPtr)).mpr hx1
    have hhi := (floorBlock_lt (x := x) (dvd_add (aligned_floorBlock J t.llistsPtr)
      (aligned_ceilBlock J t.statusSize))).mpr hx2
    have := (aligned_floorBlock J x).add_le_of_lt (dvd_add (aligned_floorBlock J t.llistsPtr)
      (aligned_ceilBlock J t.statusSize)) hhi
    exact ⟨by omega, by omega⟩

end Status

/-! ## The contract of an extension -/

/-- The contract of `extend` on the same base: a larger arena, and in it `free_mem`,
mapped (so at canonical addresses), in nobody's use and large enough. -/
structure Extension (L : Ledger) (t : Talloc FreeLists) (arenaSize : Nat) (freeMem : Slice) :
    Prop where
  larger : t.arenaSize < arenaSize
  site : Site t.arenaBase arenaSize t.smlstBlock freeMem
  canonical : (t.grown arenaSize).Low48
  reserved : ∀ x, freeMem.Mem x → ¬ t.Free x ∧ ¬ L.Live t.toArena x ∧ ¬ t.StatusBlock x

/-- An extension of a valid state, with the exponents of its arenas. -/
structure Extending (K J K' : Nat) (L : Ledger) (t : Talloc FreeLists) (arenaSize : Nat)
    (freeMem : Slice) : Prop where
  acc : Accounted K J L t
  seated : t.Seated
  ext : Extension L t arenaSize freeMem
  grows : Talloc.Grows K J K' t arenaSize
  half : 2 ^ K' < 2 * arenaSize

section Extending

variable {K J K' arenaSize : Nat} {L : Ledger} {t : Talloc FreeLists} {freeMem : Slice}

/-- An allowed extension in the terms of the proof. -/
theorem Extension.extending (h : Extension L t arenaSize freeMem) (hacc : Accounted K J L t)
    (hs : t.Seated) :
    ∃ K', nextPowerOfTwo arenaSize = 2 ^ K' ∧ Extending K J K' L t arenaSize freeMem := by
  have hlarger := h.larger
  have hmin := hs.min
  obtain ⟨K', hK', hle, hlt, _⟩ := nextPowerOfTwo_spec (show 2 ≤ arenaSize by omega)
  obtain ⟨k, hk, _, hklt, _⟩ := nextPowerOfTwo_spec (show 2 ≤ t.arenaSize by omega)
  have hkK : k = K := by
    apply Nat.pow_right_injective (Nat.le_refl 2)
    show 2 ^ k = 2 ^ K
    rw [← hk, ← hs.pow2, hacc.inv.nat.pow2]
  subst hkK
  have hKK : k ≤ K' := by
    have hpow : 2 ^ k < 2 ^ (K' + 1) := by
      rw [Nat.pow_succ]
      omega
    have := (Nat.pow_lt_pow_iff_right (show 1 < 2 by norm_num)).mp hpow
    omega
  have h48 : arenaSize ≤ 2 ^ 48 := by
    obtain ⟨h1, h2⟩ := h.canonical
    have h3 : (t.arenaBase : Int) + arenaSize ≤ 2 ^ 47 := h2
    have h4 : -2 ^ 47 ≤ t.arenaBase := h1
    omega
  have hK48 : K' ≤ 48 := by
    by_contra hcon
    have : 2 ^ 49 ≤ 2 ^ K' := Nat.pow_le_pow_right (by norm_num) (by omega)
    omega
  have hJK := hacc.inv.nat.hJK
  have hsite := h.site
  rw [hacc.inv.nat.smlst] at hsite
  have hnat := hsite.natural hK' hacc.inv.nat.hJ (by omega) hK48 hle
  refine ⟨K', hK', hacc, hs, h, ⟨hacc.inv, ?_, hKK, Nat.le_of_lt hlarger, by omega⟩, hlt⟩
  unfold Talloc.grown
  rw [hacc.inv.nat.smlst]
  exact hnat

/-- The new status data has a site. -/
theorem Extending.site (h : Extending K J K' L t arenaSize freeMem) :
    Site t.arenaBase arenaSize (2 ^ J) freeMem := by
  have := h.ext.site
  rwa [h.acc.inv.nat.smlst] at this

/-- Its size. -/
theorem Extending.sliceBytes_eq (h : Extending K J K' L t arenaSize freeMem) :
    sliceBytes arenaSize (2 ^ J) = .ok ((K' - J + 1) * nodeSize, max (2 ^ (K' - J + 1) / 8) 1) := by
  have hnat := h.grows.nat
  exact sliceBytes_of h.grows.min
    (hnat.size.trans (Nat.pow_le_pow_right (by norm_num) hnat.hK)) hnat.hJ hnat.pow2 hnat.hJK

/-- The status data fits in front of a block boundary of `free_mem`. -/
theorem Extending.room (h : Extending K J K' L t arenaSize freeMem) :
    ∃ c, Aligned J c ∧ c ≤ freeMem.ptr + freeMem.len ∧
      freeMem.ptr + statusBytes K' J freeMem ≤ c :=
  h.site.place.room_le h.sliceBytes_eq

/-- `extend` is the move and the two releases. -/
theorem Extending.extend_eq (h : Extending K J K' L t arenaSize freeMem) :
    t.extend t.arenaBase arenaSize freeMem = (do
      let talloc ← t.relocate t.arenaBase arenaSize freeMem
      let talloc ← talloc.release t.oldStatus
      talloc.release (tailOf K' J freeMem)) := by
  obtain ⟨c, _, hc1, hc2⟩ := h.room
  obtain ⟨_, _, h3⟩ := h.site.place.addresses (K := K') (by omega)
  have hblen : t.bitmapLen ≠ 0 := by
    rw [h.acc.inv.blen]
    omega
  have hlarger := h.ext.larger
  have hlo := h.site.lo
  have hhi := h.site.hi
  have hin : InIsize (t.arenaBase + arenaSize) := ⟨by omega, hhi⟩
  have hin' : InIsize (t.arenaBase + t.arenaSize) := ⟨by omega, by omega⟩
  have hlen := wrappingAdd_of_inIsize (h.site.place.inIsize (Nat.le_refl _))
  -- the assertions of `extend`
  have hcheck : t.checkExtend t.arenaBase arenaSize freeMem = .ok () := by
    unfold Talloc.checkExtend ensure
    rw [isizeAdd_of_inIsize hin, isizeAdd_of_inIsize hin']
    dsimp only [bind, Except.bind]
    rw [decide_eq_true h.site.memLo, hlen, decide_eq_true h.site.memHi, if_pos hblen,
      decide_eq_true (le_refl t.arenaBase),
      decide_eq_true (show t.arenaBase + (t.arenaSize : Int) ≤ t.arenaBase + arenaSize by omega)]
    rfl
  unfold Talloc.extend
  rw [h.acc.inv.nat.smlst, h.sliceBytes_eq]
  show (t.checkExtend t.arenaBase arenaSize freeMem >>= _) = _
  rw [hcheck]
  show (t.relocate t.arenaBase arenaSize freeMem >>= _) = _
  cases t.relocate t.arenaBase arenaSize freeMem with
  | error f => rfl
  | ok u =>
    show (if t.bitmapLen ≠ 0 then _ else _) = (u.release t.oldStatus >>= _)
    rw [if_pos hblen]
    cases u.release t.oldStatus with
    | error f => rfl
    | ok v =>
      show (freeMem.drop _ >>= _) = _
      rw [h3]
      rfl

/-! ## The two releases -/

/-- The addresses `release` frees of a slice. -/
def spanOf (J : Nat) (m : Slice) (x : Int) : Prop :=
  Talloc.spanFirst J m ≤ x ∧ x < Talloc.spanAcme J m

/-- The free addresses after an extension: those of before, the blocks of the old
status data, and the whole blocks behind the new one. -/
def extendedFree (K J K' : Nat) (t : Talloc FreeLists) (freeMem : Slice) (x : Int) : Prop :=
  Covers (t.FreeBlock K) x ∨ spanOf J t.oldStatus x ∨ spanOf J (tailOf K' J freeMem) x

/-- `r` is an allocator for the larger arena with the right free addresses. -/
structure Extended (K J K' : Nat) (t : Talloc FreeLists) (arenaSize : Nat) (freeMem : Slice)
    (r : Talloc FreeLists) : Prop where
  inv : Talloc.Inv K' J r
  arena : r.toArena = t.grown arenaSize
  llistsPtr : r.llistsPtr = freeMem.ptr + Talloc.llAlignOffset freeMem
  layout : r.bitmapPtr = r.llistsPtr + (r.llistsLen * nodeSize : Nat)
  statusEnd : r.bitmapPtr + r.bitmapLen = freeMem.ptr + statusBytes K' J freeMem
  covers : ∀ x, Covers (r.FreeBlock K') x ↔ extendedFree K J K' t freeMem x

/-- A span is between its ends. -/
theorem spanOf_bounds {J : Nat} {m : Slice} {x : Int} (h : spanOf J m x) :
    Talloc.spanBase J m ≤ x ∧ x < Talloc.spanAcme J m := by
  obtain ⟨h1, h2⟩ := h
  have hpos := two_pow_pos J
  refine ⟨?_, h2⟩
  unfold Talloc.spanFirst at h1
  split at h1 <;> omega

/-- What is released of `free_mem` is in it, behind the new status data. -/
theorem Extending.tail_inside (h : Extending K J K' L t arenaSize freeMem) :
    Talloc.spanBase J (tailOf K' J freeMem) ≤ Talloc.spanAcme J (tailOf K' J freeMem) ∧
    Talloc.spanAcme J (tailOf K' J freeMem) ≤ freeMem.ptr + freeMem.len ∧
    freeMem.ptr + statusBytes K' J freeMem ≤ Talloc.spanBase J (tailOf K' J freeMem) := by
  obtain ⟨c, hc, hc1, hc2⟩ := h.room
  have hptr : (tailOf K' J freeMem).ptr = freeMem.ptr + statusBytes K' J freeMem := rfl
  have hlen : ((tailOf K' J freeMem).len : Int) = freeMem.len - statusBytes K' J freeMem := by
    show ((freeMem.len - statusBytes K' J freeMem : Nat) : Int) = _
    omega
  obtain ⟨hb, _⟩ := Talloc.spanBase_bounds J (tailOf K' J freeMem)
  obtain ⟨ha, _⟩ := Talloc.spanAcme_bounds J (tailOf K' J freeMem)
  exact ⟨(spanBase_le hc (by omega)).trans (le_spanAcme hc (by omega)), by omega, by omega⟩

/-- The first new sentinel. -/
theorem Extending.sentinel (h : Extending K J K' L t arenaSize freeMem) :
    freeMem.Mem (freeMem.ptr + Talloc.llAlignOffset freeMem) ∧
    Talloc.llAlignOffset freeMem < statusBytes K' J freeMem := by
  have hoff := llAlignOffset_bounds freeMem
  have hstat : Talloc.llAlignOffset freeMem < statusBytes K' J freeMem := by
    unfold statusBytes
    have : 1 ≤ max (2 ^ (K' - J + 1) / 8) 1 := le_max_right _ _
    omega
  obtain ⟨c, _, hc1, hc2⟩ := h.room
  exact ⟨⟨by omega, by omega⟩, hstat⟩

/-- The new memory is neither free nor released yet. -/
theorem Extending.free_out (h : Extending K J K' L t arenaSize freeMem) {x : Int}
    (hx : freeMem.Mem x) : ¬ Covers (t.FreeBlock K) x ∧ ¬ spanOf J t.oldStatus x := by
  obtain ⟨hfree, _, hst⟩ := h.ext.reserved x hx
  refine ⟨?_, fun hc => hst ?_⟩
  · rwa [h.acc.inv.free_iff] at hfree
  · obtain ⟨h1, h2⟩ := spanOf_bounds hc
    exact (h.acc.oldStatus_inside h.seated).2.2 x h1 h2

/-- The old status data can be released into the moved record. -/
theorem Extending.releasable_old (h : Extending K J K' L t arenaSize freeMem)
    {good : List (BitVec 8)} (hg : Talloc.GoodBits K J K' t good) :
    Talloc.Releasable K' J (freeMem.ptr + Talloc.llAlignOffset freeMem) t.oldStatus
      (t.moved arenaSize K J K' freeMem good) := by
  obtain ⟨hle, hend, hblock⟩ := h.acc.oldStatus_inside h.seated
  obtain ⟨hmem, _⟩ := h.sentinel
  obtain ⟨hyf, _⟩ := h.free_out hmem
  have hcov : ∀ x, Covers ((t.moved arenaSize K J K' freeMem good).FreeBlock K') x ↔
      Covers (t.FreeBlock K) x := fun x => exists_congr fun e => exists_congr fun b => by
    rw [h.grows.freeBlock_moved]
  have hlarger := h.ext.larger
  have hin := h.acc.statusIn.1
  have hsz := h.grows.nat.cast_pow
  have hlo := h.site.memLo
  have hhi := h.site.memHi
  have hptr : t.oldStatus.ptr = t.llistsPtr := rfl
  refine ⟨h.grows.moved_inv hg, ?_, ?_, hle, fun x h1 h2 hc => ?_, ?_, fun hc => ?_, ?_⟩
  · show t.arenaBase ≤ t.oldStatus.ptr
    omega
  · show Talloc.spanAcme J t.oldStatus ≤ t.arenaBase + arenaSize
    omega
  · rw [hcov] at hc
    exact h.acc.not_given_of_statusBlock (hblock x h1 h2) ((h.acc.account x).mp (Or.inl hc))
  · obtain ⟨h1, h2⟩ := hmem
    have hsz' : (arenaSize : Int) ≤ 2 ^ K' := hsz
    show Within K' t.arenaBase _
    exact ⟨by omega, by omega⟩
  · exact (h.ext.reserved _ hmem).2.2 (hblock _ hc.1 hc.2)
  · rw [hcov]
    exact hyf

/-- The record after the release of the old status data. -/
abbrev OldReleased (K J K' : Nat) (t : Talloc FreeLists) (arenaSize : Nat) (freeMem : Slice)
    (good : List (BitVec 8)) (u : Talloc FreeLists) : Prop :=
  Talloc.Released K' J (Talloc.spanFirst J t.oldStatus) (Talloc.spanAcme J t.oldStatus)
    (t.moved arenaSize K J K' freeMem good) u

/-- What is free after the old status data is released. -/
theorem Extending.covers_old (h : Extending K J K' L t arenaSize freeMem) {good : List (BitVec 8)}
    {u : Talloc FreeLists} (hu : OldReleased K J K' t arenaSize freeMem good u) (x : Int) :
    Covers (u.FreeBlock K') x ↔ spanOf J t.oldStatus x ∨ Covers (t.FreeBlock K) x := by
  rw [hu.covers]
  refine or_congr_right (exists_congr fun e => exists_congr fun b => ?_)
  rw [h.grows.freeBlock_moved]

/-- The rest of `free_mem` can be released into the record after that. -/
theorem Extending.releasable_tail (h : Extending K J K' L t arenaSize freeMem)
    {good : List (BitVec 8)} {u : Talloc FreeLists}
    (hu : OldReleased K J K' t arenaSize freeMem good u) :
    Talloc.Releasable K' J (freeMem.ptr + Talloc.llAlignOffset freeMem)
    (tailOf K' J freeMem) u := by
  obtain ⟨hle, hend, hstart⟩ := h.tail_inside
  obtain ⟨hmem, hoff⟩ := h.sentinel
  have harena : u.toArena = t.grown arenaSize := hu.shape.arena
  have hlo := h.site.memLo
  have hhi := h.site.memHi
  have hsz : (arenaSize : Int) ≤ 2 ^ K' := h.grows.nat.cast_pow
  have hout : ∀ x, freeMem.Mem x → ¬ Covers (u.FreeBlock K') x := fun x hx hc => by
    obtain ⟨h1, h2⟩ := h.free_out hx
    rcases (h.covers_old hu x).mp hc with hc | hc
    · exact h2 hc
    · exact h1 hc
  refine ⟨hu.inv, ?_, ?_, hle, fun x h1 h2 => hout x ⟨by omega, by omega⟩, ?_, by omega,
    hout _ hmem⟩
  · rw [harena]
    show t.arenaBase ≤ freeMem.ptr + statusBytes K' J freeMem
    omega
  · rw [harena]
    show _ ≤ t.arenaBase + arenaSize
    omega
  · rw [harena]
    obtain ⟨h1, h2⟩ := hmem
    show Within K' t.arenaBase _
    exact ⟨by omega, by omega⟩

/-- The two releases make the extended heap. -/
theorem Extending.extended (h : Extending K J K' L t arenaSize freeMem) {good : List (BitVec 8)}
    {u r : Talloc FreeLists} (hu : OldReleased K J K' t arenaSize freeMem good u)
    (hr : Talloc.Released K' J (Talloc.spanFirst J (tailOf K' J freeMem))
      (Talloc.spanAcme J (tailOf K' J freeMem)) u r) :
    Extended K J K' t arenaSize freeMem r := by
  have hsh := hu.shape.trans hr.shape
  have hll : r.llistsPtr = freeMem.ptr + Talloc.llAlignOffset freeMem := hsh.llistsPtr
  have hbm : r.bitmapPtr
      = freeMem.ptr + (Talloc.llAlignOffset freeMem + (K' - J + 1) * nodeSize : Nat) :=
        hsh.bitmapPtr
  have hbl : r.bitmapLen = max (2 ^ (K' - J + 1) / 8) 1 := hsh.bitmapLen
  have hln : r.llistsLen = K' - J + 1 := hsh.llistsLen
  refine ⟨hr.inv, hsh.arena, hll, ?_, ?_, fun x => ?_⟩
  · rw [hbm, hll, hln]
    push_cast
    ring
  · rw [hbm, hbl]
    unfold statusBytes
    push_cast
    ring
  · rw [hr.covers, h.covers_old hu]
    exact or_rotate.trans or_left_comm

/-- Where the old status data ends, address 0 is not. -/
theorem Extending.old_acme_ne_zero (h : Extending K J K' L t arenaSize freeMem) :
    Talloc.spanAcme J t.oldStatus ≠ 0 := by
  obtain ⟨_, hend, _⟩ := h.acc.oldStatus_inside h.seated
  obtain ⟨_, hspan⟩ := h.acc.oldStatus_span
  have hlarger := h.ext.larger
  have hsz : (arenaSize : Int) ≤ 2 ^ K' := h.grows.nat.cast_pow
  have hbase : Aligned K' t.arenaBase := h.grows.nat.base
  have hin := h.acc.statusIn.1
  intro h0
  rcases Int.lt_or_le t.arenaBase 0 with hneg | hnn
  · -- an aligned arena below 0 ends at 0 at the latest
    have := hbase.add_le_of_lt (dvd_zero _) hneg
    omega
  · have hsize := h.acc.statusSize_pos
    have h1 := Aligned.add_le_of_lt (dvd_zero _) (aligned_ceilBlock J t.statusSize)
      (by have := (ceilBlock_bounds J t.statusSize).1; omega)
    have h2 := (le_floorBlock (e := J) (x := t.llistsPtr) (dvd_zero _)).mpr (by omega)
    have hpos := two_pow_pos J
    omega

/-- The rest of `free_mem` ends at address 0 and is not empty. -/
def TailAtNull (K' J : Nat) (freeMem : Slice) : Prop :=
  Talloc.spanAcme J (tailOf K' J freeMem) = 0 ∧ Talloc.spanBase J (tailOf K' J freeMem) < 0

/-- The pair of the stale bit: the old power-of-two span and its neighbour. -/
theorem Extending.pair (h : Extending K J K' L t arenaSize freeMem) (hlt : K < K') :
    Talloc.Pair (t.grown arenaSize) K' J K t.arenaBase := by
  have hbase : Aligned K' t.arenaBase := h.grows.nat.base
  refine ⟨h.grows.nat, hlt, h.acc.inv.nat.hJK, hbase.mono hlt, le_refl _, ?_⟩
  have hhalf := h.half
  have hpow : 2 ^ (K + 1) ≤ 2 ^ K' := Nat.pow_le_pow_right (by norm_num) hlt
  rw [Nat.pow_succ] at hpow
  have hnat : 2 ^ K ≤ arenaSize := by omega
  have hcast : ((2 ^ K : Nat) : Int) ≤ arenaSize := by exact_mod_cast hnat
  push_cast at hcast
  show t.arenaBase + 2 ^ K ≤ t.arenaBase + arenaSize
  omega

/-- The bit of the old arena in the larger one. -/
theorem staleBit_eq {base : Int} (hlt : K < K') : bitIndex K' base K base = 2 ^ (K' - K - 1) := by
  unfold bitIndex
  rw [sub_self, Int.toNat_zero, Nat.zero_div, Nat.add_zero]
  congr 1
  omega

/-- How an extension without the stale bit ends. -/
theorem Extending.run_good (h : Extending K J K' L t arenaSize freeMem) {good : List (BitVec 8)}
    (hg : Talloc.GoodBits K J K' t good)
    (hrel : t.relocate t.arenaBase arenaSize freeMem
      = .ok (t.moved arenaSize K J K' freeMem good)) :
    (∃ r, Extended K J K' t arenaSize freeMem r ∧
      t.extend t.arenaBase arenaSize freeMem = .ok r ∧ ¬ TailAtNull K' J freeMem) ∨
    ((∃ f, t.extend t.arenaBase arenaSize freeMem = .error f) ∧ TailAtNull K' J freeMem) := by
  rw [h.extend_eq, hrel]
  show (∃ r, _ ∧ (Talloc.release _ t.oldStatus >>= _) = _ ∧ _) ∨
    (∃ f, (Talloc.release _ t.oldStatus >>= _) = _) ∧ _
  have hlow : (t.moved arenaSize K J K' freeMem good).Low48 := h.ext.canonical
  rcases Talloc.release_cases (h.releasable_old hg) with ⟨_, _, hedge⟩ | ⟨u, hrun, hu, _⟩
  · rcases hedge with hedge | hedge
    · exact absurd hedge h.old_acme_ne_zero
    · exact absurd hlow hedge
  rw [hrun]
  show (∃ r, _ ∧ u.release _ = _ ∧ _) ∨ (∃ f, u.release _ = _) ∧ _
  have hlow' : u.Low48 := by
    rw [show u.toArena = t.grown arenaSize from hu.shape.arena]
    exact h.ext.canonical
  rcases Talloc.release_cases (h.releasable_tail hu) with ⟨herr, hlt, hedge⟩ | ⟨r, hrun', hr, hz⟩
  · rcases hedge with hedge | hedge
    · exact Or.inr ⟨⟨_, herr⟩, hedge, by omega⟩
    · exact absurd hlow' hedge
  · refine Or.inl ⟨r, h.extended hu hr, hrun', fun hnull => ?_⟩
    have := hz hnull.1
    have := hnull.2
    omega

/-- How an extension with the stale bit ends: the old arena and its neighbour are
the pair whose bit is wrong. -/
theorem Extending.run_stale (h : Extending K J K' L t arenaSize freeMem) (hlt : K < K')
    {good : List (BitVec 8)} (hg : Talloc.GoodBits K J K' t good)
    (hrel : t.relocate t.arenaBase arenaSize freeMem
      = .ok ((t.moved arenaSize K J K' freeMem good).flipBit (2 ^ (K' - K - 1)))) :
    (∃ r, Extended K J K' t arenaSize freeMem r ∧ Talloc.Clear K' K t.arenaBase r ∧
      t.extend t.arenaBase arenaSize freeMem = .ok (r.flipBit (2 ^ (K' - K - 1))) ∧
      ¬ TailAtNull K' J freeMem) ∨
    ((∃ f, t.extend t.arenaBase arenaSize freeMem = .error f) ∧
      (Talloc.HalfIn K t.arenaBase (extendedFree K J K' t freeMem) ∨ TailAtNull K' J freeMem)) := by
  have hpair := h.pair hlt
  have hbit : bitIndex K' t.arenaBase K t.arenaBase = 2 ^ (K' - K - 1) := staleBit_eq hlt
  have hlow : (t.moved arenaSize K J K' freeMem good).Low48 := h.ext.canonical
  have hs := two_pow_succ K
  have hpos := two_pow_pos K
  -- no block of before is as large as a half of the pair
  have hclear : Talloc.Clear K' K t.arenaBase (t.moved arenaSize K J K' freeMem good) := by
    intro e b hF hle
    rw [h.grows.freeBlock_moved] at hF
    have := h.acc.inv.exp_lt hF
    omega
  have hcov : ∀ x, Covers ((t.moved arenaSize K J K' freeMem good).FreeBlock K') x ↔
      Covers (t.FreeBlock K) x := fun x => exists_congr fun e => exists_congr fun b => by
    rw [h.grows.freeBlock_moved]
  have hold : ¬ (Talloc.spanFirst J t.oldStatus ≤ t.arenaBase + 2 ^ K ∧
      t.arenaBase + 2 ^ K < Talloc.spanAcme J t.oldStatus) := by
    obtain ⟨_, hend, _⟩ := h.acc.oldStatus_inside h.seated
    have := h.acc.inv.nat.cast_pow
    omega
  have htail : ¬ (Talloc.spanFirst J (tailOf K' J freeMem) ≤ t.llistsPtr ∧
      t.llistsPtr < Talloc.spanAcme J (tailOf K' J freeMem)) := by
    intro hc
    obtain ⟨h1, h2⟩ := spanOf_bounds hc
    obtain ⟨_, hend, hstart⟩ := h.tail_inside
    exact (h.ext.reserved t.llistsPtr ⟨by omega, by omega⟩).2.2 ⟨_, h.acc.statusSome, rfl⟩
  rw [h.extend_eq, hrel, ← hbit]
  show (∃ r, _ ∧ _ ∧ (Talloc.release _ t.oldStatus >>= _) = _ ∧ _) ∨
    (∃ f, (Talloc.release _ t.oldStatus >>= _) = _) ∧ _
  rcases Talloc.release_flip (h.releasable_old hg) hpair hclear (z := t.arenaBase + 2 ^ K)
    ⟨by omega, by omega⟩ hold with ⟨u, hrun, hu, hcu, _⟩ | ⟨herr, hhalf⟩ | ⟨_, _, hedge⟩
  · have hrun' : ((t.moved arenaSize K J K' freeMem good).flipBit
        (bitIndex K' t.arenaBase K t.arenaBase)).release t.oldStatus
        = .ok (u.flipBit (bitIndex K' t.arenaBase K t.arenaBase)) := hrun
    rw [hrun']
    show (∃ r, _ ∧ _ ∧ Talloc.release _ _ = _ ∧ _) ∨ (∃ f, Talloc.release _ _ = _) ∧ _
    have harena : u.toArena = t.grown arenaSize := hu.shape.arena
    have hlow' : u.Low48 := by
      rw [harena]
      exact h.ext.canonical
    have hin := h.acc.statusIn
    have hflip := Talloc.release_flip (h.releasable_tail hu) (by rw [harena]; exact hpair) hcu
      (z := t.llistsPtr) ⟨hin.1, by have := hin.2; omega⟩ htail
    rw [harena] at hflip
    rcases hflip with ⟨r, hr, hrel', hcr, hz⟩ | ⟨herr, hhalf⟩ | ⟨herr, hne, hedge⟩
    · refine Or.inl ⟨r, h.extended hu hrel', hcr, hr, fun hnull => ?_⟩
      have := hz hnull.1
      have := hnull.2
      omega
    · refine Or.inr ⟨⟨_, herr⟩, Or.inl (hhalf.mono fun x hx => ?_)⟩
      rw [h.covers_old hu] at hx
      exact (or_rotate.trans or_left_comm).mp hx
    · rcases hedge with hedge | hedge
      · exact Or.inr ⟨⟨_, herr⟩, Or.inr ⟨hedge, by omega⟩⟩
      · exact absurd (harena ▸ hlow') hedge
  · have herr' : ((t.moved arenaSize K J K' freeMem good).flipBit
        (bitIndex K' t.arenaBase K t.arenaBase)).release t.oldStatus = .error .undefined := herr
    rw [herr']
    refine Or.inr ⟨⟨_, rfl⟩, Or.inl (hhalf.mono fun x hx => ?_)⟩
    rw [hcov] at hx
    exact hx.elim (fun hold => Or.inr (Or.inl hold)) Or.inl
  · rcases hedge with hedge | hedge
    · exact absurd hedge h.old_acme_ne_zero
    · exact absurd hlow hedge

/-- How every extension ends. -/
theorem Extending.cases (h : Extending K J K' L t arenaSize freeMem) :
    ((∃ f, t.extend t.arenaBase arenaSize freeMem = .error f) ∧
      (K = K' ∧ 3 ≤ K - J ∨ TailAtNull K' J freeMem ∨
        Talloc.Stale K K' t ∧ Talloc.HalfIn K t.arenaBase (extendedFree K J K' t freeMem))) ∨
    ∃ r, Extended K J K' t arenaSize freeMem r ∧
      t.extend t.arenaBase arenaSize freeMem
        = .ok (if Talloc.Stale K K' t then r.flipBit (2 ^ (K' - K - 1)) else r) ∧
      (Talloc.Stale K K' t → Talloc.Clear K' K t.arenaBase r) ∧
      (K < K' ∨ K - J ≤ 2) ∧ ¬ TailAtNull K' J freeMem := by
  have hle := h.grows.le
  rcases Nat.lt_or_ge K K' with hlt | hge
  · obtain ⟨good, hg, hrel⟩ := h.grows.relocate_spec h.site (Or.inl hlt)
    by_cases hst : Talloc.Stale K K' t
    · rw [if_pos hst] at hrel
      rcases h.run_stale hlt hg hrel with ⟨r, hr, hc, hrun, hnull⟩ | ⟨herr, hwhy⟩
      · exact Or.inr ⟨r, hr, by rw [if_pos hst]; exact hrun, fun _ => hc, Or.inl hlt, hnull⟩
      · refine Or.inl ⟨herr, Or.inr ?_⟩
        exact hwhy.symm.imp_right fun hh => ⟨hst, hh⟩
    · rw [if_neg hst] at hrel
      rcases h.run_good hg hrel with ⟨r, hr, hrun, hnull⟩ | ⟨herr, hnull⟩
      · exact Or.inr ⟨r, hr, by rw [if_neg hst]; exact hrun, fun hc => absurd hc hst, Or.inl hlt,
          hnull⟩
      · exact Or.inl ⟨herr, Or.inr (Or.inl hnull)⟩
  · obtain rfl : K = K' := Nat.le_antisymm hle hge
    have hst : ¬ Talloc.Stale K K t := fun hc => absurd hc.1 (Nat.lt_irrefl K)
    rcases Nat.lt_or_ge 2 (K - J) with h3 | h2
    · refine Or.inl ⟨⟨.overflow, ?_⟩, Or.inl ⟨rfl, h3⟩⟩
      rw [h.extend_eq, h.grows.relocate_panics h.site h3]
      rfl
    · obtain ⟨good, hg, hrel⟩ := h.grows.relocate_spec h.site (Or.inr h2)
      rw [if_neg hst] at hrel
      rcases h.run_good hg hrel with ⟨r, hr, hrun, hnull⟩ | ⟨herr, hnull⟩
      · exact Or.inr ⟨r, hr, by rw [if_neg hst]; exact hrun, fun hc => absurd hc hst, Or.inr h2,
          hnull⟩
      · exact Or.inl ⟨herr, Or.inr (Or.inl hnull)⟩

end Extending

end Tauos.Memm
