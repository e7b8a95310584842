import Tauos.Memm.Extend

/-!
# Heaps that grow

`Reached P L t`: the allocator `t`, with ledger `L` and status data in the
`free_mem` at `P`, is reached from `new` by calls within their contracts and by
extensions after which its records agree. All of these states are `Valid`.

> `extend_agrees_iff`: the exact condition under which, after one more
> extension, the lists, `avails` and the bitmap of the larger arena agree,
> nothing in use is free and nothing free is lost.

It fails when the bitmap loop panics (same power of two, four lists or more),
when the bit of granularity 1 is set (it is copied once too often), and at the
end of the address space.
-/

namespace Tauos.Memm

open Tauos.Rust Tauos.Utils Tauos.Buddy

/-! ## Valid states -/

/-- An allocator whose status data is in the `free_mem` at `P`. -/
structure Valid (K J : Nat) (P : Int) (L : Ledger) (t : Talloc FreeLists) : Prop
    extends Accounted K J L t where
  seated : t.Seated
  ptr : t.llistsPtr = P + Talloc.llAlignOffset ⟨P, 0⟩
  lo : t.arenaBase ≤ P

/-- The states reached by `new`, calls within their contracts, and extensions on the
same base that keep the records in agreement. -/
inductive Reached : Int → Ledger → Talloc FreeLists → Prop
  | run {arenaBase : Int} {arenaSize smallestBlock : Nat} {freeMem : Slice} {L : Ledger}
      {t : Talloc FreeLists} :
      Run arenaBase arenaSize smallestBlock freeMem L t → Reached freeMem.ptr L t
  | call {P : Int} {L L' : Ledger} {t t' : Talloc FreeLists} {op : Op} {ptr : Option Int} :
      Reached P L t → op.Allowed L t → op.run L t = .ok (ptr, L', t') → Reached P L' t'
  | extend {P : Int} {L : Ledger} {t t' : Talloc FreeLists} {arenaSize : Nat} {freeMem : Slice} :
      Reached P L t → Extension L t arenaSize freeMem →
      t.extend t.arenaBase arenaSize freeMem = .ok t' → t'.Agrees →
      Reached freeMem.ptr ⟨L.live, t'.behind freeMem :: t.oldStatus :: L.given⟩ t'

section Extended

variable {K J K' arenaSize : Nat} {P : Int} {L : Ledger} {t r : Talloc FreeLists} {freeMem : Slice}

/-- The new status data is in `free_mem`. -/
theorem Extended.status_mem (h : Extending K J K' L t arenaSize freeMem)
    (hr : Extended K J K' t arenaSize freeMem r) {x : Int} (hx : r.Status x) :
    freeMem.Mem x ∧ x < freeMem.ptr + statusBytes K' J freeMem := by
  obtain ⟨h1, h2⟩ := hx
  rw [hr.llistsPtr] at h1
  rw [hr.statusEnd] at h2
  obtain ⟨c, _, hc1, hc2⟩ := h.room
  exact ⟨⟨by omega, by omega⟩, h2⟩

/-- The blocks of the tail are behind the new status data, in `free_mem`. -/
theorem Extending.tail_mem (h : Extending K J K' L t arenaSize freeMem) {x : Int}
    (hx : spanOf J (tailOf K' J freeMem) x) :
    freeMem.Mem x ∧ freeMem.ptr + statusBytes K' J freeMem ≤ x := by
  obtain ⟨h1, h2⟩ := spanOf_bounds hx
  obtain ⟨_, hend, hstart⟩ := h.tail_inside
  exact ⟨⟨by omega, by omega⟩, by omega⟩

/-- The memory behind the new status data. -/
theorem Extended.behind (h : Extending K J K' L t arenaSize freeMem)
    (hr : Extended K J K' t arenaSize freeMem r) : r.behind freeMem = tailOf K' J freeMem := by
  obtain ⟨c, _, hc1, hc2⟩ := h.room
  unfold Talloc.behind tailOf
  rw [hr.statusEnd]
  congr 1
  omega

/-- Released memory is not in `free_mem`. -/
theorem Extending.given_out (h : Extending K J K' L t arenaSize freeMem) {x : Int}
    (hx : freeMem.Mem x) : ¬ L.Given J x := by
  obtain ⟨hfree, hlive, _⟩ := h.ext.reserved x hx
  exact fun hgiven => hfree ((h.acc.free_iff x).mpr ⟨hgiven, hlive⟩)

/-- The accounting of the larger allocator. -/
theorem Extended.accounted (h : Extending K J K' L t arenaSize freeMem)
    (hr : Extended K J K' t arenaSize freeMem r) :
    Accounted K' J ⟨L.live, tailOf K' J freeMem :: t.oldStatus :: L.given⟩ r := by
  have hlarger := h.ext.larger
  have hle := h.grows.le
  -- sizes depend on the smallest block only
  have howns : ∀ q x, r.Owns q x ↔ t.Owns q x := fun q x => by
    rw [hr.arena]
    exact Iff.rfl
  have hlive : ∀ x, Ledger.Live ⟨L.live, tailOf K' J freeMem :: t.oldStatus :: L.given⟩
    r.toArena x ↔
      L.Live t.toArena x := fun x => by
    unfold Ledger.Live
    exact exists_congr fun q => and_congr_right fun _ => howns q x
  have hgiven : ∀ x, Ledger.Given ⟨L.live, tailOf K' J freeMem :: t.oldStatus :: L.given⟩ J x ↔
      spanOf J (tailOf K' J freeMem) x ∨ spanOf J t.oldStatus x ∨ L.Given J x := fun x => by
    rw [Ledger.given_cons, Ledger.given_cons]
    exact Iff.rfl
  have hold : ∀ {x}, spanOf J t.oldStatus x → t.StatusBlock x := fun {x} hx => by
    obtain ⟨h1, h2⟩ := spanOf_bounds hx
    exact (h.acc.oldStatus_inside h.seated).2.2 x h1 h2
  have hout : ∀ {x}, freeMem.Mem x → ¬ spanOf J t.oldStatus x ∧ ¬ L.Given J x := fun {x} hx =>
    ⟨(h.free_out hx).2, h.given_out hx⟩
  refine ⟨hr.inv, fun {q} hq => ?_, ?_, fun {x} hx hc => ?_, fun x => ?_, fun {x} hx hs => ?_,
    hr.layout, ?_⟩
  · obtain ⟨e, hsize, hJe, heK, hal, ⟨h1, h2⟩, hfit⟩ := h.acc.blocks hq
    rw [hr.arena]
    refine ⟨e, hsize, hJe, by omega, hal, ⟨h1, ?_⟩, hfit⟩
    show _ ≤ t.arenaBase + (arenaSize : Int)
    omega
  · refine h.acc.apart.imp fun {q q'} hqq x h1 h2 => ?_
    rw [howns] at h1 h2
    exact hqq x h1 h2
  · rw [hlive] at hx
    have hg := (h.acc.account x).mp (Or.inr hx)
    rcases (hr.covers x).mp hc with hc | hc | hc
    · exact h.acc.reserved hx hc
    · exact h.acc.not_given_of_statusBlock (hold hc) hg
    · exact h.given_out (h.tail_mem hc).1 hg
  · rw [hr.covers, hlive, hgiven, ← h.acc.account]
    unfold extendedFree
    tauto
  · obtain ⟨hmem, hlt⟩ := hr.status_mem h hs
    rcases (hgiven x).mp hx with hx | hx | hx
    · have := (h.tail_mem hx).2
      omega
    · exact (hout hmem).1 hx
    · exact (hout hmem).2 hx
  · rw [hr.arena, hr.llistsPtr]
    obtain ⟨⟨h1, h2⟩, _⟩ := h.sentinel
    have hsz : (arenaSize : Int) ≤ 2 ^ K' := h.grows.nat.cast_pow
    have hlo := h.site.memLo
    have hhi := h.site.memHi
    show Within K' t.arenaBase _
    exact ⟨by omega, by omega⟩

/-- The larger allocator is valid, with its status data in the new `free_mem`. -/
theorem Extended.valid (h : Extending K J K' L t arenaSize freeMem)
    (hr : Extended K J K' t arenaSize freeMem r) :
    Valid K' J freeMem.ptr ⟨L.live, tailOf K' J freeMem :: t.oldStatus :: L.given⟩ r := by
  have hsize : r.arenaSize = arenaSize := by rw [hr.arena]; rfl
  have hbase : r.arenaBase = t.arenaBase := by rw [hr.arena]; rfl
  obtain ⟨c, hc, hc1, hc2⟩ := h.room
  have hhi := h.site.memHi
  refine ⟨hr.accounted h, ⟨?_, ?_, c, ?_, ?_, ?_⟩, hr.llistsPtr, ?_⟩
  · rw [hsize]
    exact h.grows.min
  · rw [hr.arena]
    rfl
  · rw [hr.inv.nat.smlst]
    push_cast
    exact hc
  · rw [hr.statusEnd]
    exact hc2
  · rw [hbase, hsize]
    omega
  · rw [hbase]
    exact h.site.memLo

/-- A wrong bit keeps the records from agreeing. -/
theorem Extended.not_agrees_flip (h : Extending K J K' L t arenaSize freeMem)
    (hr : Extended K J K' t arenaSize freeMem r) (hlt : K < K') :
    ¬ (r.flipBit (2 ^ (K' - K - 1))).Agrees := by
  intro hc
  have hJK := h.acc.inv.nat.hJK
  have hlen : r.llistsLen = K' - J + 1 := hr.inv.llen
  have hsize : r.arenaSizePow2 >>> (K' - K) = 2 ^ K := by
    rw [hr.inv.nat.pow2, two_pow_shiftRight (by omega), Nat.sub_sub_self (Nat.le_of_lt hlt)]
  have hpos := two_pow_pos K'
  have hbase : Aligned K r.arenaBase := hr.inv.nat.base.mono (Nat.le_of_lt hlt)
  have hdvd : ((r.arenaSizePow2 >>> (K' - K) : Nat) : Int) ∣ r.arenaBase := by
    rw [hsize]
    push_cast
    exact hbase
  have hhi : r.arenaBase < r.arenaBase + r.arenaSizePow2 := by
    rw [hr.inv.nat.pow2]
    push_cast
    omega
  have hoff : r.bitmapOffset r.arenaBase (r.arenaSizePow2 >>> (K' - K))
      = .ok (2 ^ (K' - K - 1)) := by
    rw [hsize, hr.inv.nat.bitmapOffset hlt (le_refl _) (by omega), staleBit_eq hlt]
  have hi : 2 ^ (K' - K - 1) / 8 < r.store.bitmap.length := by
    have := hr.inv.bit_lt_of_span hJK hlt (le_refl r.arenaBase) (by omega)
    rwa [staleBit_eq hlt] at this
  have h1 := (hr.inv.agrees.bits (K' - K) (by omega) (by omega) r.arenaBase hdvd (le_refl _) hhi).1
  have h2 := (hc.bits (K' - K) (by omega)
    (show K' - K < r.llistsLen by omega) r.arenaBase hdvd (le_refl _) hhi).1
  have hoff' : (r.flipBit (2 ^ (K' - K - 1))).bitmapOffset r.arenaBase
    (r.arenaSizePow2 >>> (K' - K))
      = .ok (2 ^ (K' - K - 1)) := hoff
  rw [hoff] at h1
  rw [show (r.flipBit (2 ^ (K' - K - 1))).arenaSizePow2 = r.arenaSizePow2 from rfl, hoff'] at h2
  have h1' : r.readBitflag (2 ^ (K' - K - 1)) = _ := h1
  have h2' : (r.flipBit (2 ^ (K' - K - 1))).readBitflag (2 ^ (K' - K - 1)) = _ := h2
  have hi' : 2 ^ (K' - K - 1) / 8 < (r.flipBit (2 ^ (K' - K - 1))).store.bitmap.length := by
    rw [show (r.flipBit (2 ^ (K' - K - 1))).store.bitmap.length = r.store.bitmap.length from
      List.length_set ..]
    exact hi
  -- both states read the same lists, but different bits
  rw [Talloc.readBitflag_eq hi] at h1'
  rw [Talloc.readBitflag_eq hi', Talloc.getBit_flipBit hi] at h2'
  have hsame := h1'.trans h2'.symm
  rw [Except.ok.injEq, decide_eq_true rfl] at hsame
  revert hsame
  cases getBit r.store.bitmap (2 ^ (K' - K - 1)) <;> decide

end Extended

section Reached

variable {P : Int} {L : Ledger} {t : Talloc FreeLists}

/-- The status data stays in its block. -/
theorem Talloc.SameShape.seated {t' : Talloc FreeLists} (h : Talloc.SameShape t t')
    (hs : t.Seated) : t'.Seated := by
  obtain ⟨h1, h2, h3⟩ := hs
  refine ⟨?_, ?_, ?_⟩
  · rw [h.arena]; exact h1
  · rw [h.arena]; exact h2
  · rw [h.arena, h.bitmapPtr, h.bitmapLen]; exact h3

/-- A run leaves a valid state. -/
theorem Run.valid {arenaBase : Int} {arenaSize smallestBlock : Nat} {freeMem : Slice}
    (h : Run arenaBase arenaSize smallestBlock freeMem L t) : ∃ K J, Valid K J freeMem.ptr L t := by
  obtain ⟨K, J, hacc, rfl, hK, h64, hs, hsh⟩ := h.start
  obtain ⟨c, hc, hc1, hc2⟩ := h.1.place.room_le hs
  have hhi := h.1.memHi
  have hseated : (Talloc.fresh arenaBase arenaSize K J freeMem).Seated := by
    refine ⟨h64, rfl, c, ?_, ?_, ?_⟩
    · show ((2 ^ J : Nat) : Int) ∣ c
      push_cast
      exact hc
    · rw [Talloc.fresh_end]
      exact hc2
    · show c ≤ arenaBase + arenaSize
      omega
  refine ⟨K, J, hacc, hsh.seated hseated, hsh.llistsPtr, ?_⟩
  rw [hsh.arena]
  exact h.1.memLo

/-- Every state reached is valid, and the records of a valid state agree. -/
theorem Reached.valid (h : Reached P L t) : ∃ K J, Valid K J P L t := by
  induction h with
  | run h => exact h.valid
  | call _ hall hrun ih =>
    obtain ⟨K, J, hv⟩ := ih
    obtain ⟨hacc, hsh, _⟩ := Op.accounted hv.toAccounted hall hrun
    refine ⟨K, J, hacc, hsh.seated hv.seated, ?_, ?_⟩
    · rw [hsh.llistsPtr]; exact hv.ptr
    · rw [hsh.arena]; exact hv.lo
  | @extend P L t t' arenaSize freeMem _ hext hrun hagrees ih =>
    obtain ⟨K, J, hv⟩ := ih
    obtain ⟨K', _, h⟩ := hext.extending hv.toAccounted hv.seated
    rcases h.cases with ⟨⟨f, herr⟩, _⟩ | ⟨r, hr, hok, _⟩
    · rw [hrun] at herr
      cases herr
    · rw [hrun] at hok
      cases hok
      by_cases hst : Talloc.Stale K K' t
      · rw [if_pos hst] at hagrees
        exact absurd hagrees (hr.not_agrees_flip h hst.1)
      · rw [if_neg hst, hr.behind h]
        exact ⟨K', J, hr.valid h⟩

end Reached

/-- Memory above the arena is in nobody's use: the contract of the extensions that
`oom_handler` makes. -/
theorem Valid.extension_above {K J arenaSize : Nat} {P : Int} {L : Ledger} {t : Talloc FreeLists}
    (h : Valid K J P L t) (hlarger : t.arenaSize < arenaSize)
    (hsite : Site t.arenaBase arenaSize t.smlstBlock
      ⟨t.arenaBase + t.arenaSize, arenaSize - t.arenaSize⟩)
    (hcan : (t.grown arenaSize).Low48) :
    Extension L t arenaSize ⟨t.arenaBase + t.arenaSize, arenaSize - t.arenaSize⟩ := by
  refine ⟨hlarger, hsite, hcan, fun x hx => ?_⟩
  have hx1 : t.arenaBase + t.arenaSize ≤ x := hx.1
  refine ⟨fun hf => ?_, fun hl => ?_, fun hst => ?_⟩
  · rw [h.inv.free_iff] at hf
    obtain ⟨e, b, hF, hw⟩ := hf
    have := (h.inv.holds hF).2
    have := hw.2
    omega
  · obtain ⟨q, hq, hown⟩ := hl
    obtain ⟨e, hsize, _, _, _, hin, _⟩ := h.blocks hq
    have := ((owns_iff hsize x).mp hown).2
    have := hin.2
    omega
  · obtain ⟨z, hz, hzx⟩ := (h.toAccounted.statusBlock_iff x).mp hst
    obtain ⟨c, hc, hc1, hc2⟩ := h.seated.room
    rw [h.inv.nat.smlst] at hc
    push_cast at hc
    replace hc : Aligned J c := hc
    have hlt := (floorBlock_lt (x := z) hc).mpr (by have := hz.2; omega)
    rw [hzx, floorBlock_lt hc] at hlt
    omega

/-! ## The condition of an extension -/

/-- Where the status data of an extension ends: `free_mem.ptr + mem_offset`. -/
def Talloc.newStatusEnd (t : Talloc FreeLists) (arenaSize : Nat) (freeMem : Slice) : Int :=
  match sliceBytes arenaSize t.smlstBlock with
  | .ok (ll, bm) => freeMem.ptr + (Talloc.llAlignOffset freeMem + ll + bm : Nat)
  | .error _ => freeMem.ptr

section Conditions

variable {K J K' arenaSize : Nat} {L : Ledger} {t : Talloc FreeLists} {freeMem : Slice}

/-- Where the new status data ends. -/
theorem Extending.newStatusEnd_eq (h : Extending K J K' L t arenaSize freeMem) :
    t.newStatusEnd arenaSize freeMem = freeMem.ptr + statusBytes K' J freeMem := by
  unfold Talloc.newStatusEnd
  rw [h.acc.inv.nat.smlst, h.sliceBytes_eq]
  rfl

/-- The tail reaches address 0 when `free_mem` does and holds a whole block more. -/
theorem Extending.tailAtNull_iff (h : Extending K J K' L t arenaSize freeMem) :
    TailAtNull K' J freeMem ↔ freeMem.ptr + freeMem.len = 0 ∧
      t.newStatusEnd arenaSize freeMem + t.smlstBlock ≤ 0 := by
  obtain ⟨c, hc, hc1, hc2⟩ := h.room
  have hptr : (tailOf K' J freeMem).ptr = freeMem.ptr + statusBytes K' J freeMem := rfl
  have hlen : ((tailOf K' J freeMem).len : Int) = freeMem.len - statusBytes K' J freeMem := by
    show ((freeMem.len - statusBytes K' J freeMem : Nat) : Int) = _
    omega
  obtain ⟨hb1, hb2⟩ := Talloc.spanBase_bounds J (tailOf K' J freeMem)
  obtain ⟨ha1, ha2⟩ := Talloc.spanAcme_bounds J (tailOf K' J freeMem)
  have hsm : (t.smlstBlock : Int) = 2 ^ J := by
    rw [h.acc.inv.nat.smlst]
    push_cast
    rfl
  have hsz : (arenaSize : Int) ≤ 2 ^ K' := h.grows.nat.cast_pow
  have hlo := h.site.memLo
  have hhi := h.site.memHi
  rw [h.newStatusEnd_eq, hsm]
  unfold TailAtNull
  constructor
  · intro hnull
    obtain ⟨h0, hneg⟩ := hnull
    have hbase : Aligned K' t.arenaBase := h.grows.nat.base
    have hend := hbase.add_le_of_lt (dvd_zero _) (by omega)
    have hstart := (show Aligned J (Talloc.spanBase J (tailOf K' J freeMem)) from
      aligned_floorBlock J _).add_le_of_lt (dvd_zero _) hneg
    exact ⟨by omega, by omega⟩
  · intro hnull
    obtain ⟨h0, hroom⟩ := hnull
    have hz : Talloc.spanAcme J (tailOf K' J freeMem) = 0 := by
      have : (tailOf K' J freeMem).ptr + (tailOf K' J freeMem).len = 0 := by omega
      unfold Talloc.spanAcme
      rw [this]
      exact floorBlock_of_aligned (dvd_zero _)
    exact ⟨hz, by omega⟩

/-- Bit 1 is the bit of granularity 1. -/
theorem Talloc.Inv.bit_one_iff (h : Talloc.Inv K J t) :
    getBit t.store.bitmap 1 = true ↔ t.list 1 ≠ [] := by
  have hJ := h.nat.hJ
  have hJK := h.nat.hJK
  rw [h.bits 1 (by decide)]
  constructor
  · intro hbit
    obtain ⟨e, b, he, hF, hidx⟩ := hbit
    obtain ⟨hlo, _⟩ := bitIndex_bounds he (h.holds hF).1 (h.nat.lt_of_holds (h.holds hF))
    rw [← hidx] at hlo
    have he' : K - 1 - e = 0 := by
      by_contra hcon
      have : 2 ^ 1 ≤ 2 ^ (K - 1 - e) := Nat.pow_le_pow_right (by norm_num) (by omega)
      omega
    have hb := hF.2
    rw [show K - e = 1 by omega] at hb
    exact List.ne_nil_of_mem hb
  · intro hne
    obtain ⟨b, hb⟩ := List.exists_mem_of_ne_nil _ hne
    have hF : t.FreeBlock K (K - 1) b := ⟨by omega, by rw [show K - (K - 1) = 1 by omega]; exact hb⟩
    obtain ⟨hlo, hhi⟩ := bitIndex_bounds (show K - 1 < K by omega) (h.holds hF).1
      (h.nat.lt_of_holds (h.holds hF))
    rw [show K - 1 - (K - 1) = 0 by omega] at hlo
    rw [show K - (K - 1) = 1 by omega] at hhi
    exact ⟨K - 1, b, by omega, hF, by omega⟩

/-- Whether the power of two grows. -/
theorem Extending.lt_iff (h : Extending K J K' L t arenaSize freeMem) :
    K < K' ↔ t.arenaSizePow2 ≠ nextPowerOfTwo arenaSize := by
  have hle := h.grows.le
  have hpow : nextPowerOfTwo arenaSize = 2 ^ K' := h.grows.nat.pow2
  rw [h.acc.inv.nat.pow2, hpow, Ne, Nat.pow_right_inj (Nat.le_refl 2)]
  omega

/-- Whether a bit is stale after it. -/
theorem Extending.stale_iff (h : Extending K J K' L t arenaSize freeMem) :
    Talloc.Stale K K' t ↔ t.arenaSizePow2 ≠ nextPowerOfTwo arenaSize ∧ t.list 1 ≠ [] := by
  unfold Talloc.Stale
  rw [h.lt_iff, h.acc.inv.bit_one_iff]

/-- The bitmap loop returns unless the power of two stays and there are four lists. -/
theorem Extending.loop_iff (h : Extending K J K' L t arenaSize freeMem) :
    (K < K' ∨ K - J ≤ 2) ↔ (t.arenaSizePow2 = nextPowerOfTwo arenaSize → t.llistsLen ≤ 3) := by
  rw [h.lt_iff, h.acc.inv.llen]
  by_cases heq : t.arenaSizePow2 = nextPowerOfTwo arenaSize
  · simp only [heq, ne_eq, not_true_eq_false, false_or, forall_const]
    omega
  · simp [heq]

end Conditions

/-! ## Agreement -/

/-- What an extension is for: the records of the larger arena agree, what is in use
is not free, and what was free still is. -/
def ExtendAgrees (L : Ledger) (t : Talloc FreeLists) (arenaSize : Nat) (freeMem : Slice) : Prop :=
  ∃ t', t.extend t.arenaBase arenaSize freeMem = .ok t' ∧
    t'.toArena = ⟨t.arenaBase, arenaSize, nextPowerOfTwo arenaSize, t.smlstBlock⟩ ∧ t'.Agrees ∧
    (∀ x, t'.Free x → ¬ L.Live t.toArena x ∧ ¬ t'.Status x) ∧ ∀ x, t.Free x → t'.Free x

/-- An extension by the memory above the arena keeps the records in agreement
exactly when the bitmap loop does not panic, the bit of granularity 1 is clear
or stays where it is, and the new memory does not end at address 0. -/
theorem extend_agrees_iff {P : Int} {L : Ledger} {t : Talloc FreeLists} {arenaSize : Nat}
    (h : Reached P L t)
    (hext : Extension L t arenaSize ⟨t.arenaBase + t.arenaSize, arenaSize - t.arenaSize⟩) :
    ExtendAgrees L t arenaSize ⟨t.arenaBase + t.arenaSize, arenaSize - t.arenaSize⟩ ↔
      (t.arenaSizePow2 = nextPowerOfTwo arenaSize → t.llistsLen ≤ 3) ∧
      (t.arenaSizePow2 ≠ nextPowerOfTwo arenaSize → t.list 1 = []) ∧
      ¬ (t.arenaBase + arenaSize = 0 ∧ t.newStatusEnd arenaSize
        ⟨t.arenaBase + t.arenaSize, arenaSize - t.arenaSize⟩ + t.smlstBlock ≤ 0) := by
  obtain ⟨K, J, hv⟩ := h.valid
  obtain ⟨K', _, h⟩ := hext.extending hv.toAccounted hv.seated
  have hlarger := hext.larger
  have hend : t.arenaBase + (t.arenaSize : Int) + ((arenaSize - t.arenaSize : Nat) : Int)
      = t.arenaBase + arenaSize := by omega
  have hnull := h.tailAtNull_iff
  dsimp only at hnull
  rw [hend] at hnull
  have hloop := h.loop_iff
  have hstale := h.stale_iff
  rw [← hloop, ← hnull]
  constructor
  · intro hok
    obtain ⟨t', hrun, _, hagrees, _⟩ := hok
    rcases h.cases with ⟨⟨f, herr⟩, _⟩ | ⟨r, hr, hok, _, hd, hn⟩
    · rw [hrun] at herr
      cases herr
    · refine ⟨hd, fun hne => ?_, hn⟩
      by_contra hlist
      -- the flags of list 1 are stale, and one of them does not agree
      have hst := hstale.mpr ⟨hne, hlist⟩
      rw [hrun, if_pos hst] at hok
      cases hok
      exact hr.not_agrees_flip h hst.1 hagrees
  · intro hcond
    obtain ⟨hd, hlist, hn⟩ := hcond
    have hst : ¬ Talloc.Stale K K' t := fun hc => (hstale.mp hc).2 (hlist (hstale.mp hc).1)
    rcases h.cases with ⟨_, hwhy⟩ | ⟨r, hr, hok, _, _, _⟩
    · rcases hwhy with ⟨rfl, h3⟩ | hwhy | hwhy
      · omega
      · exact absurd hwhy hn
      · exact absurd hwhy.1 hst
    · rw [if_neg hst] at hok
      have hacc := hr.accounted h
      refine ⟨r, hok, hr.arena, hr.inv.agrees, fun x hx => ?_, fun x hx => ?_⟩
      · rw [hr.inv.free_iff] at hx
        refine ⟨fun hl => ?_, hacc.statusFree ((hacc.account x).mp (Or.inl hx))⟩
        refine hacc.reserved ?_ hx
        rw [hr.arena]
        exact hl
      · rw [h.acc.inv.free_iff] at hx
        rw [hr.inv.free_iff, hr.covers]
        exact Or.inl hx

/-- The upper half is taken by an allocation. -/
theorem sampleBusy_reached : Reached 4096 (sampleLedger [(4608, ⟨512, 8⟩)]) sampleBusy := by
  have hrun : (Op.alloc ⟨512, 8⟩ []).run (sampleLedger []) sampleNew
      = .ok (some 4608, sampleLedger [(4608, ⟨512, 8⟩)], sampleBusy) := by decide +kernel
  have hallowed : (Op.alloc ⟨512, 8⟩ []).Allowed (sampleLedger []) sampleNew :=
    ⟨⟨⟨3, rfl⟩, by decide⟩, by decide, trivial⟩
  exact Reached.call (Reached.run sample_run) hallowed hrun

/-- Doubling the sample heap. -/
theorem sample_extension {P : Int} {L : Ledger} {t : Talloc FreeLists} (h : Reached P L t)
    (harena : t.toArena = ⟨4096, 1024, 1024, 32⟩) : Extension L t 2048 ⟨5120, 1024⟩ := by
  obtain ⟨K, J, hv⟩ := h.valid
  have hs : sliceBytes 2048 (2 ^ 5) = .ok (112, 16) := by decide
  have hsite : Site 4096 2048 32 ⟨5120, 1024⟩ := by
    refine Site.of_room (J := 5) (by decide) (by decide) (by decide) (by decide) (by decide) ?_
    intro ll bm hsl
    rw [hs] at hsl
    cases hsl
    decide
  have hlow : (t.grown 2048).Low48 := by
    unfold Talloc.grown Arena.Low48
    rw [harena]
    decide
  have hext : Extension L t 2048 ⟨t.arenaBase + t.arenaSize, 2048 - t.arenaSize⟩ :=
    hv.extension_above (by rw [harena]; decide) (by rw [harena]; exact hsite) hlow
  rw [harena] at hext
  exact hext

/-- With its upper half taken, the sample heap is doubled. -/
theorem extend_agrees_sample :
    Reached 4096 (sampleLedger [(4608, ⟨512, 8⟩)]) sampleBusy ∧
    Extension (sampleLedger [(4608, ⟨512, 8⟩)]) sampleBusy 2048 ⟨5120, 1024⟩ ∧
    ExtendAgrees (sampleLedger [(4608, ⟨512, 8⟩)]) sampleBusy 2048 ⟨5120, 1024⟩ := by
  have hext := sample_extension sampleBusy_reached rfl
  refine ⟨sampleBusy_reached, hext, (extend_agrees_iff sampleBusy_reached hext).mpr ?_⟩
  exact ⟨fun hc => absurd hc (by decide), fun _ => rfl, fun hc => absurd hc.1 (by decide)⟩

/-- With its upper half free, doubling the sample heap copies the bit of that half to
the bit of the old heap and its neighbour, neither of which is in the list. -/
theorem extend_stale_bit :
    Reached 4096 (sampleLedger []) sampleNew ∧
    Extension (sampleLedger []) sampleNew 2048 ⟨5120, 1024⟩ ∧
    ¬ ExtendAgrees (sampleLedger []) sampleNew 2048 ⟨5120, 1024⟩ := by
  refine ⟨Reached.run sample_run, sample_extension (Reached.run sample_run) rfl, fun hok => ?_⟩
  obtain ⟨t', hrun, harena, hagrees, _⟩ := hok
  have hlen : t'.llistsLen = 7 := by
    have : (sampleNew.extend 4096 2048 ⟨5120, 1024⟩).toOption.map (·.llistsLen) = some 7 := by
      decide +kernel
    rw [show sampleNew.extend 4096 2048 ⟨5120, 1024⟩ = .ok t' from hrun] at this
    exact Option.some.inj this
  have hread : (t'.bitmapOffset 4096 1024 >>= t'.readBitflag) = .ok true ∧ t'.list 1 = [] := by
    have h1 : ((sampleNew.extend 4096 2048 ⟨5120, 1024⟩).toOption.map fun t' =>
        (t'.bitmapOffset 4096 1024 >>= t'.readBitflag, t'.list 1)) = some (.ok true, []) := by
      decide +kernel
    rw [show sampleNew.extend 4096 2048 ⟨5120, 1024⟩ = .ok t' from hrun] at h1
    exact ⟨congrArg Prod.fst (Option.some.inj h1), congrArg Prod.snd (Option.some.inj h1)⟩
  have hbits := (hagrees.bits 1 (by decide) (by omega) 4096 (by rw [harena]; decide)
    (by rw [harena]; decide) (by rw [harena]; decide)).1
  rw [harena, show nextPowerOfTwo 2048 >>> 1 = 1024 by decide, hread.2] at hbits
  rw [harena] at hread
  rw [hread.1] at hbits
  exact absurd hbits (by decide)

end Tauos.Memm
