import Tauos.Memm.Construct

/-!
# An arena that starts one block late

The arena of the physical memory manager starts one page behind the offset of physical
memory, and is as long as physical memory reaches. So its base is not aligned. But the base
only enters `bitmap_offset`, which rounds it down to twice the size of the block, and the
assertions of `release`. Apart from these assertions `dealloc`, `release` and `new` do there
what they do in the arena that starts at the offset itself (`release_rebased`,
`new_rebased`).
-/

namespace Tauos.Memm

open Tauos.Rust Tauos.Utils Tauos.Buddy

namespace Talloc

/-- The same allocator with another `arena_base`. -/
def rebased {σ : Type} (t : Talloc σ) (base : Int) : Talloc σ :=
  { t with arenaBase := base }

section Rebased

variable {K J : Nat} {t t' : Talloc FreeLists} {base p : Int} {g i : Nat}

/-- A flip at another base. -/
theorem toggleBitflag_rebased (h : t.toggleBitflag i = .ok t') :
    (t.rebased base).toggleBitflag i = .ok (t'.rebased base) := by
  obtain ⟨data, hread, h⟩ := bind_ok h
  obtain ⟨store, hwrite, h⟩ := bind_ok h
  cases h
  unfold toggleBitflag
  rw [show Store.readByte (t.rebased base) (i >>> 3) = .ok data from hread, ok_bind,
    show Store.writeByte (t.rebased base) (i >>> 3) _ = .ok store from hwrite]
  rfl

/-- A block is added at another base. -/
theorem addBlockNext_rebased (h : t.addBlockNext g i p = .ok t') :
    (t.rebased base).addBlockNext g i p = .ok (t'.rebased base) := by
  obtain ⟨store, hinsert, h⟩ := bind_ok h
  unfold addBlockNext
  dsimp only
  rw [show Store.insertNext { t.rebased base with avails := (t.rebased base).avails ||| (1 <<< g) }
    g p
    = .ok store from hinsert, ok_bind]
  exact toggleBitflag_rebased h

/-- A block is removed at another base. -/
theorem removeBlock_rebased (h : t.removeBlock g i p = .ok t') :
    (t.rebased base).removeBlock g i p = .ok (t'.rebased base) := by
  obtain ⟨sole, hsole, h⟩ := bind_ok h
  unfold removeBlock
  rw [show Store.nodeSole (t.rebased base) g p = .ok sole from hsole, ok_bind]
  dsimp only at h ⊢
  cases sole with
  | true =>
    obtain ⟨store, hunlink, h⟩ := bind_ok h
    rw [show Store.unlink (if true = true then (t.rebased base).clearAvail g else t.rebased base)
      g p
      = .ok store from hunlink, ok_bind]
    exact toggleBitflag_rebased h
  | false =>
    obtain ⟨store, hunlink, h⟩ := bind_ok h
    rw [show Store.unlink (if false = true then (t.rebased base).clearAvail g else t.rebased base)
      g p
      = .ok store from hunlink, ok_bind]
    exact toggleBitflag_rebased h

/-- A buddy is taken at another base. -/
theorem takeBuddy_rebased {size : Nat} {r : Int × Talloc FreeLists}
    (h : t.takeBuddy g i p size = .ok r) :
    (t.rebased base).takeBuddy g i p size = .ok (r.1, r.2.rebased base) := by
  unfold takeBuddy at h ⊢
  dsimp only at h ⊢
  generalize (if isLowerBuddy p size = true then (wrappingAdd p size, p)
    else (wrappingSub p size, wrappingSub p size)) = ptrs at h ⊢
  obtain ⟨t₁, hremove, h⟩ := bind_ok h
  cases h
  rw [removeBlock_rebased hremove]
  rfl

/-- The two bases are rounded down alike for all block sizes. -/
def SameOffsets (a : Arena) (J K : Nat) (base : Int) : Prop :=
  ∀ e, J ≤ e → e ≤ K → ∀ b, Arena.bitmapOffset { a with arenaBase := base } b (2 ^ e)
    = a.bitmapOffset b (2 ^ e)

/-- The loop of `dealloc` at another base. -/
theorem deallocLoop_rebased : ∀ (g : Nat) {p : Int} {e : Nat} {t : Talloc FreeLists},
    SameOffsets t.toArena J K base → J ≤ e → e + g ≤ K → deallocLoop g p (2 ^ e) t = .ok t' →
    deallocLoop g p (2 ^ e) (t.rebased base) = .ok (t'.rebased base) := by
  intro g
  induction g with
  | zero =>
    intro p e t hoff hJ hK h
    obtain ⟨i, hi, h⟩ := bind_ok h
    obtain ⟨flag, hflag, h⟩ := bind_ok h
    unfold deallocLoop
    rw [show (t.rebased base).bitmapOffset p (2 ^ e) = .ok i from (hoff e hJ (by omega) p).trans hi,
      ok_bind, show (t.rebased base).readBitflag i = .ok flag from hflag, ok_bind]
    cases flag with
    | true =>
      obtain ⟨_, _, h⟩ := bind_ok h
      cases h
    | false => exact addBlockNext_rebased h
  | succ g ih =>
    intro p e t hoff hJ hK h
    obtain ⟨i, hi, h⟩ := bind_ok h
    obtain ⟨flag, hflag, h⟩ := bind_ok h
    unfold deallocLoop
    rw [show (t.rebased base).bitmapOffset p (2 ^ e) = .ok i from (hoff e hJ (by omega) p).trans hi,
      ok_bind, show (t.rebased base).readBitflag i = .ok flag from hflag, ok_bind]
    cases flag with
    | true =>
      obtain ⟨⟨next, t₁⟩, htake, h⟩ := bind_ok h
      dsimp only at h
      rw [if_pos rfl, takeBuddy_rebased htake, ok_bind]
      dsimp only
      have harena : t₁.toArena = t.toArena := takeBuddy_arena htake
      have hsize : 2 ^ e <<< 1 = 2 ^ (e + 1) := by
        rw [Nat.shiftLeft_eq, pow_one, Nat.pow_succ]
      rw [hsize] at h ⊢
      exact ih (by rw [harena]; exact hoff) (by omega) (by omega) h
    | false => exact addBlockNext_rebased h

/-- `dealloc` at another base. -/
theorem dealloc_rebased {k : Nat} (hoff : SameOffsets t.toArena J K base)
    (hnat : Natural t.toArena K J)
    (hJk : J ≤ k) (hkK : k ≤ K) (h : t.dealloc p ⟨2 ^ k, 1⟩ = .ok t') :
    (t.rebased base).dealloc p ⟨2 ^ k, 1⟩ = .ok (t'.rebased base) := by
  have hK := hnat.hK
  have hsize : t.layoutToSize ⟨2 ^ k, 1⟩ = 2 ^ k := layoutToSize_block hnat.smlst hJk (by omega)
  have hgran := hnat.blockGranularity hkK
  unfold dealloc at h ⊢
  dsimp only at h ⊢
  rw [hsize, hgran, ok_bind] at h
  rw [show (t.rebased base).layoutToSize ⟨2 ^ k, 1⟩ = 2 ^ k from hsize,
    show (t.rebased base).blockGranularity (2 ^ k) = .ok (K - k) from hgran, ok_bind]
  exact deallocLoop_rebased _ hoff hJk (by omega) h

/-- The blocks of a span at another base. -/
theorem deallocAll_rebased {q : Int} {blocks : List (Int × Nat)} (htiles : Tiles J q p blocks) :
    ∀ {t : Talloc FreeLists}, SameOffsets t.toArena J K base → Natural t.toArena K J →
    q - p ≤ 2 ^ K → deallocAll blocks t = .ok t' →
    deallocAll blocks (t.rebased base) = .ok (t'.rebased base) := by
  induction htiles with
  | nil =>
    intro t _ _ _ h
    cases h
    rfl
  | @cons p k blocks hJk hak hrest ih =>
    intro t hoff hnat hlen h
    obtain ⟨t₁, hdealloc, h⟩ := bind_ok h
    have harena := dealloc_arena hdealloc
    have hle := hrest.le
    have hpos := two_pow_pos k
    have hkK : k ≤ K := by
      by_contra hcon
      have : (2 : Int) ^ (K + 1) ≤ 2 ^ k := pow_le_pow_right₀ (by norm_num) (by omega)
      have h2 := two_pow_succ K
      have h3 := two_pow_pos K
      omega
    dsimp only [deallocAll]
    rw [dealloc_rebased hoff hnat hJk hkK hdealloc, ok_bind]
    exact ih (by rw [harena]; exact hoff) (by rw [harena]; exact hnat) (by omega) h

/-- `release` where both arenas let the span through, below address 0. -/
theorem release_rebased {m : Slice} (hoff : SameOffsets t.toArena J K base)
    (hin : Inside t.toArena K J m)
    (hlo : -2 ^ 47 ≤ base) (hbase : base ≤ spanBase J m) (hhi : spanAcme J m ≤ base + t.arenaSize)
    (hneg : spanAcme J m < 0) (h : t.release m = .ok t') :
    (t.rebased base).release m = .ok (t'.rebased base) := by
  obtain ⟨hJ, hin1, hin2, hlen⟩ := hin.bounds
  obtain ⟨hb1, _⟩ := spanBase_bounds J m
  have hsz := hin.nat.cast_pow
  have hK : (2 : Int) ^ K ≤ 2 ^ 48 := pow_le_pow_right₀ (by norm_num) hin.nat.hK
  have hle := hin.le
  have hlo' := hin.lo
  have hhi' := hin.hi
  have hin3 : InIsize (base + t.arenaSize) := ⟨by omega, by omega⟩
  have hnull : ¬ (spanBase J m ≤ 0 ∧ 0 < spanAcme J m) := by omega
  have hhead : (t.rebased base).release m = _ :=
    releaseRec_head (u := t.rebased base) hin.nat.smlst hJ hin1 hin2 hlen hbase hhi hin3 1
  have hheadt : t.release m = _ := hin.head (u := t) rfl 1
  rw [hheadt] at h
  rw [hhead]
  by_cases heq : spanBase J m = spanAcme J m
  · rw [if_pos heq] at h ⊢
    cases h
    rfl
  · rw [if_neg heq, if_neg hnull] at h ⊢
    have hspan : Span t.toArena K J (spanBase J m) (spanAcme J m) := ⟨hin.nat, by omega, by omega,
      aligned_floorBlock J _, aligned_floorBlock J _, hle, Or.inr (by omega)⟩
    obtain ⟨q, blocks, r, htiles, hq, hr, hrun⟩ :=
      releaseLoop_stretch _ hspan.stretch (Nat.le_refl _)
    rw [hrun t hin.nat.smlst] at h
    rw [hrun (t.rebased base) hin.nat.smlst]
    rcases hr with ⟨rfl, rfl, _⟩ | ⟨rfl, _⟩
    · rw [deallocThen_ok] at h ⊢
      exact deallocAll_rebased htiles hoff hin.nat (by omega) h
    · obtain ⟨_, _, h⟩ := bind_ok h
      cases h

/-- A base that is one smallest block behind an aligned one. -/
theorem sameOffsets_late {a : Arena} (ha : Aligned (K + 1) a.arenaBase) (hK : K < 63)
    (hin : InIsize a.arenaBase) (hin' : InIsize (a.arenaBase + 2 ^ J)) :
    SameOffsets a J K (a.arenaBase + 2 ^ J) := by
  intro e hJe heK b
  have hsize : 2 ^ e <<< 1 = 2 ^ (e + 1) := by
    rw [Nat.shiftLeft_eq, pow_one, Nat.pow_succ]
  have hal : Aligned (e + 1) a.arenaBase := ha.mono (by omega)
  have hlt : (2 : Int) ^ J < 2 ^ (e + 1) := pow_lt_pow_right₀ (by norm_num) (by omega)
  have hpos := two_pow_pos J
  have hfloor : floorBlock (e + 1) (a.arenaBase + 2 ^ J) = a.arenaBase :=
    (aligned_floorBlock _ _).eq_of_within hal (within_floorBlock _ _) ⟨by omega, by omega⟩
  have hmask' : maskDown (a.arenaBase + 2 ^ J) (2 ^ (e + 1)) = a.arenaBase :=
    (maskDown_two_pow hin' (by omega)).trans hfloor
  have hmask : maskDown a.arenaBase (2 ^ (e + 1)) = a.arenaBase :=
    (maskDown_two_pow hin (by omega)).trans (floorBlock_of_aligned hal)
  unfold Arena.bitmapOffset
  dsimp only
  rw [hsize, hmask', hmask]

/-- `new` in the late arena. -/
theorem new_rebased {arenaBase : Int} {arenaSize : Nat} {freeMem : Slice}
    (h : Site arenaBase arenaSize (2 ^ J) freeMem) (hp : Place base arenaSize (2 ^ J) freeMem)
    (hs : sliceBytes arenaSize (2 ^ J) = .ok ((K - J + 1) * nodeSize, max (2 ^ (K - J + 1) / 8) 1))
    (hnat : Natural ⟨arenaBase, arenaSize, nextPowerOfTwo arenaSize, 2 ^ J⟩ K J)
    (hoff : SameOffsets ⟨arenaBase, arenaSize, nextPowerOfTwo arenaSize, 2 ^ J⟩ J K base)
    (hlo : -2 ^ 47 ≤ base) (hneg : freeMem.ptr + freeMem.len < 0)
    (hnew : new arenaBase arenaSize (2 ^ J) freeMem = .ok t) :
    new base arenaSize (2 ^ J) freeMem = .ok (t.rebased base) := by
  obtain ⟨c, _, hc1, hc2⟩ := hp.room_le hs
  have hmp : (tailOf K J freeMem).ptr = freeMem.ptr + statusBytes K J freeMem := rfl
  have hml : ((tailOf K J freeMem).len : Int) = freeMem.len - statusBytes K J freeMem := by
    show ((freeMem.len - statusBytes K J freeMem : Nat) : Int) = _
    omega
  have hb := (spanBase_bounds J (tailOf K J freeMem)).1
  have ha := (spanAcme_bounds J (tailOf K J freeMem)).1
  have hmemLo := hp.memLo
  have hmemHi := hp.memHi
  have hin : Inside (fresh arenaBase arenaSize K J freeMem).toArena K J (tailOf K J freeMem) :=
    (h.releasable hs hnat).inside
  rw [new_eq h.place hs] at hnew
  rw [new_eq hp hs]
  refine release_rebased (t := fresh arenaBase arenaSize K J freeMem) hoff hin hlo ?_ ?_ ?_ hnew
  · omega
  · show _ ≤ base + arenaSize
    omega
  · omega

end Rebased

end Talloc

end Tauos.Memm
