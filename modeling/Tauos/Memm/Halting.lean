import Tauos.Memm.Talloc
import Tauos.Rust.Halts

/-!
# Every operation of `Talloc` comes to an end

In any state of the allocator, sound or not: the loop of `dealloc` runs over the
granularities, the loop of `release` moves towards the end of the slice, and `release`
calls itself at most once, since neither side of the null block reaches over it again.

> `extend_halts`: `extend` returns or panics.

The retry loops of `alloc` end when the handler makes them end.

> `alloc_halts`: with a handler whose every `Ok` enlarges the arena, up to a limit, as many
> turns as bytes are left to the limit are enough.
-/

namespace Tauos.Memm

open Tauos.Rust Tauos.Utils

/-! ## Accesses -/

@[simp] theorem halts_getByte (l : List (BitVec 8)) (i : Nat) : Halts (getByte l i) := by
  unfold getByte
  split
  next => exact halts_ok _
  next => exact halts_error (by decide)

@[simp] theorem halts_setByte (l : List (BitVec 8)) (i : Nat) (v : BitVec 8) :
    Halts (setByte l i v) :=
  halts_ite (fun _ => halts_ok _) (fun _ => halts_error (by decide))

@[simp] theorem halts_nonNull (p : Int) : Halts (nonNull p) :=
  halts_ite (fun _ => halts_error (by decide)) (fun _ => halts_ok _)

@[simp] theorem halts_take (s : Slice) (n : Nat) : Halts (s.take n) :=
  halts_ite (fun _ => halts_ok _) (fun _ => halts_error (by decide))

@[simp] theorem halts_drop (s : Slice) (n : Nat) : Halts (s.drop n) :=
  halts_ite (fun _ => halts_ok _) (fun _ => halts_error (by decide))

@[simp] theorem halts_get (s : FreeLists) (g : Nat) : Halts (s.get g) := by
  unfold FreeLists.get
  split
  next => exact halts_ok _
  next => exact halts_error (by decide)

@[simp] theorem halts_bitmapOffset (a : Arena) (base : Int) (size : Nat) :
    Halts (a.bitmapOffset base size) := by
  simp [Arena.bitmapOffset, halts_bind]

@[simp] theorem halts_blockGranularity (a : Arena) (size : Nat) : Halts (a.blockGranularity size) :=
  halts_usizeSub _ _

@[simp] theorem halts_sliceBytes (arenaSize smallestBlock : Nat) :
    Halts (sliceBytes arenaSize smallestBlock) := by
  simp [sliceBytes, validateArenaArgs, halts_bind]

namespace Talloc

variable {t : Talloc FreeLists}

@[simp] theorem toggleBitflag_halts (t : Talloc FreeLists) (i : Nat) :
    Halts (t.toggleBitflag i) := by
  simp [toggleBitflag, Store.readByte, Store.writeByte, halts_bind]

@[simp] theorem addBlockNext_halts (t : Talloc FreeLists) (g i : Nat) (node : Int) :
    Halts (t.addBlockNext g i node) := by
  simp [addBlockNext, Store.insertNext, halts_bind]

@[simp] theorem unlink_halts (t : Talloc FreeLists) (g : Nat) (node : Int) :
    Halts (Store.unlink t g node) := by
  simp only [Store.unlink, halts_bind]
  exact ⟨halts_get _ _, fun l _ => halts_ite (fun _ => halts_ok _) fun _ => halts_error (by decide)⟩

@[simp] theorem removeBlock_halts (t : Talloc FreeLists) (g i : Nat) (node : Int) :
    Halts (t.removeBlock g i node) := by
  simp only [removeBlock, halts_bind]
  refine ⟨?_, fun _ _ => ⟨unlink_halts _ _ _, fun _ _ => toggleBitflag_halts _ _⟩⟩
  simp only [Store.nodeSole, halts_bind]
  exact ⟨halts_get _ _, fun l _ => halts_ite (fun _ => halts_ok _) fun _ => halts_error (by decide)⟩

@[simp] theorem removeBlockNext_halts (t : Talloc FreeLists) (g size : Nat) :
    Halts (t.removeBlockNext g size) := by
  simp only [removeBlockNext, halts_bind]
  refine ⟨by simp [Store.sentinelSole],
    fun _ _ => ⟨?_, fun _ _ => ⟨unlink_halts _ _ _, fun _ _ => ?_⟩⟩⟩
  · simp only [Store.sentinelNext, halts_bind]
    refine ⟨halts_get _ _, fun l _ => ?_⟩
    cases l with
    | nil => exact halts_error (by decide)
    | cons node l => exact halts_ok _
  · simp

@[simp] theorem takeBuddy_halts (t : Talloc FreeLists) (g i : Nat) (ptr : Int) (size : Nat) :
    Halts (t.takeBuddy g i ptr size) := by
  simp [takeBuddy]

@[simp] theorem readBitflag_halts (t : Talloc FreeLists) (i : Nat) : Halts (t.readBitflag i) := by
  simp [readBitflag, Store.readByte]

/-- The granularity goes down. -/
theorem deallocLoop_halts : ∀ (g : Nat) (ptr : Int) (size : Nat) (t : Talloc FreeLists),
    Halts (deallocLoop g ptr size t) := by
  intro g
  induction g with
  | zero =>
    intro ptr size t
    simp only [deallocLoop, halts_bind]
    refine ⟨halts_bitmapOffset _ _ _, fun i _ => ⟨readBitflag_halts _ _, fun b _ => ?_⟩⟩
    refine halts_ite (fun _ => ?_) fun _ => addBlockNext_halts _ _ _ _
    rw [halts_bind]
    exact ⟨takeBuddy_halts _ _ _ _ _, fun _ _ => halts_error (by decide)⟩
  | succ g ih =>
    intro ptr size t
    simp only [deallocLoop, halts_bind]
    refine ⟨halts_bitmapOffset _ _ _, fun i _ => ⟨readBitflag_halts _ _, fun b _ => ?_⟩⟩
    refine halts_ite (fun _ => ?_) fun _ => addBlockNext_halts _ _ _ _
    rw [halts_bind]
    exact ⟨takeBuddy_halts _ _ _ _ _, fun r _ => ih _ _ _⟩

@[simp] theorem dealloc_halts (t : Talloc FreeLists) (ptr : Int) (l : Layout) :
    Halts (t.dealloc ptr l) := by
  simp only [dealloc, halts_bind]
  exact ⟨halts_blockGranularity _ _, fun g _ => deallocLoop_halts g _ _ _⟩

@[simp] theorem breakDown_halts (base : Int) : ∀ (count g size : Nat) (t : Talloc FreeLists),
    Halts (breakDown base count g size t) := by
  intro count
  induction count with
  | zero => exact fun g size t => halts_ok t
  | succ count ih =>
    intro g size t
    simp only [breakDown, halts_bind]
    exact ⟨halts_bitmapOffset _ _ _, fun i _ => ⟨addBlockNext_halts _ _ _ _, fun t _ => ih _ _ t⟩⟩

/-! ## `release` -/

/-- A block whose size is the alignment of its base ends above it, if it ends at all. -/
theorem lt_of_ascend {base base' : Int} {size : Nat} (hbase : InIsize base)
    (hsize : usizeShl (trailingZeros base) = .ok size)
    (hadd : isizeAdd base (asIsize size) = .ok base') :
    base < base' := by
  obtain ⟨h1, h2⟩ := hbase
  have h0 : base ≠ 0 := by
    rintro rfl
    revert hsize
    rw [show trailingZeros 0 = 64 by decide]
    exact fun hc => nomatch hc
  obtain ⟨hlt, hdvd, _⟩ := trailingZeros_spec ⟨h1, h2⟩ h0
  unfold usizeShl at hsize
  rw [if_pos hlt] at hsize
  cases hsize
  obtain ⟨hval, h3, h4⟩ := isizeAdd_ok hadd
  rcases Nat.lt_or_ge (trailingZeros base) 63 with hsmall | hlarge
  · rw [asIsize_of_lt (Nat.pow_lt_pow_right (by norm_num) hsmall)] at hval
    have hpos := Nat.two_pow_pos (trailingZeros base)
    omega
  · -- the base is the least address, and so far down nothing ends
    rw [show trailingZeros base = 63 by omega] at hdvd hval
    rw [show asIsize (2 ^ 63) = -2 ^ 63 by decide] at hval
    omega

/-- No block of the arena is as large as half the memory. -/
theorem dealloc_large {J : Nat} (hsmlst : t.smlstBlock = 2 ^ J) (hJ : J < 63)
    (hpow : t.arenaSizePow2 < 2 ^ 63) {ptr : Int} {t' : Talloc FreeLists} :
    t.dealloc ptr ⟨2 ^ 63, 1⟩ ≠ .ok t' := by
  intro h
  obtain ⟨g, hg, _⟩ := bind_ok h
  have hsize : t.layoutToSize ⟨2 ^ 63, 1⟩ = 2 ^ 63 := by
    have hnext : fastNon0NextPow2 (2 ^ 63) = 2 ^ 63 := by decide
    rw [layoutToSize_two_pow (x := 0) hnext rfl hsmlst (by omega) (by omega) (by omega)]
    congr 1
    omega
  rw [hsize] at hg
  obtain ⟨hle, _⟩ := usizeSub_ok hg
  rw [leadingZeros_two_pow] at hle
  unfold leadingZeros at hle
  split at hle
  next => omega
  next hne =>
    have hlog := (Nat.log2_lt hne).mpr hpow
    omega

/-- Every turn of the loop moves towards `acme`, but for the one that changes direction. -/
theorem releaseLoop_halts {J : Nat} (hJ : J < 63) {acme : Int} : ∀ (fuel : Nat) {ascending : Bool}
    {base : Int} {t : Talloc FreeLists}, t.smlstBlock = 2 ^ J → t.arenaSizePow2 < 2 ^ 63 →
    InIsize base → (acme - base).toNat + (if ascending then 2 else 1) ≤ fuel →
    Halts (releaseLoop acme fuel ascending base t) := by
  intro fuel
  induction fuel with
  | zero =>
    intro ascending base t _ _ _ hfuel
    cases ascending with
    | false => simp at hfuel
    | true => simp at hfuel
  | succ fuel ih =>
    intro ascending base t hsmlst hpow hbase hfuel
    cases ascending with
    -- ascending: either `base` moves on, or the sizes descend from here
    | true =>
      rw [if_pos rfl] at hfuel
      simp only [releaseLoop, halts_bind]
      refine ⟨halts_usizeShl _, fun size hsize => ⟨halts_isizeAdd _ _, fun base' hadd => ?_⟩⟩
      have hlt := lt_of_ascend hbase hsize hadd
      refine halts_ite (fun hle => ?_) fun _ =>
        ih hsmlst hpow hbase (by rw [if_neg (by decide)]; omega)
      simp only [halts_bind]
      refine ⟨halts_nonNull _, fun ptr _ => ⟨dealloc_halts _ _ _, fun t' hdealloc =>
        ⟨halts_isizeAdd _ _, fun base'' hadd' => ?_⟩⟩⟩
      rw [hadd] at hadd'
      cases hadd'
      have harena := dealloc_arena hdealloc
      refine ih (by rw [harena]; exact hsmlst) (by rw [harena]; exact hpow) (isizeAdd_ok hadd).2 ?_
      rw [if_pos rfl]
      omega
    -- descending: `base` moves on by the block that is given back
    | false =>
      rw [if_neg (by decide)] at hfuel
      simp only [releaseLoop, halts_bind]
      refine ⟨halts_isizeSub _ _, fun delta hdelta => halts_ite (fun hle => ?_) fun _ => halts_ok _⟩
      simp only [halts_bind]
      refine ⟨halts_nonNull _, fun ptr _ => ⟨dealloc_halts _ _ _, fun t' hdealloc =>
        ⟨halts_isizeAdd _ _, fun base' hadd => ?_⟩⟩⟩
      have harena := dealloc_arena hdealloc
      obtain ⟨rfl, h1, h2⟩ := isizeSub_ok hdelta
      rw [hsmlst] at hle
      have hpos := Nat.two_pow_pos J
      have hne : asUsize (acme - base) ≠ 0 := by omega
      have hprev := fastNon0PrevPow2_eq hne (asUsize_lt _)
      rcases Int.lt_or_le (acme - base) 0 with hneg | hnonneg
      · -- the loop has started behind `acme`
        have hlog : (asUsize (acme - base)).log2 = 63 := by
          rw [Nat.log2_eq_iff hne]
          unfold asUsize
          omega
        rw [hprev, hlog] at hdealloc
        exact absurd hdealloc (dealloc_large hsmlst hJ hpow)
      · have husize := asUsize_of_nonneg hnonneg (by omega)
        have hle' : 2 ^ (asUsize (acme - base)).log2 ≤ asUsize (acme - base) := Nat.log2_self_le hne
        rw [hprev, asIsize_of_lt (by omega)] at hadd
        obtain ⟨hval, hin⟩ := isizeAdd_ok hadd
        have hstep := Nat.two_pow_pos (asUsize (acme - base)).log2
        refine ih (by rw [harena]; exact hsmlst) (by rw [harena]; exact hpow) hin ?_
        rw [if_neg (by decide)]
        omega

/-- Rounding down stays in range. -/
theorem maskDown_inIsize (x : Int) (w : Nat) : InIsize (maskDown x w) :=
  ⟨BitVec.le_toInt _, BitVec.toInt_lt⟩

/-- The call on a slice halts if the calls on the two sides of the null block do. -/
theorem releaseRec_halts {J depth : Nat} (hJ : J < 63) {mem : Slice} (hsmlst : t.smlstBlock = 2 ^ J)
    (hpow : t.arenaSizePow2 < 2 ^ 63)
    (hsides : ∀ {x y : Int}, isizeAdd mem.ptr (2 ^ J - 1) = .ok x →
      isizeAdd mem.ptr (asIsize mem.len) = .ok y → x / 2 ^ J * 2 ^ J ≤ 0 → 0 < y / 2 ^ J * 2 ^ J →
      (∀ {m : Slice}, mem.take (0 - x / 2 ^ J * 2 ^ J).toNat = .ok m →
        Halts (releaseRec depth t m)) ∧
      ∀ {m : Slice} {t' : Talloc FreeLists}, t'.toArena = t.toArena →
        mem.drop (2 ^ J - x / 2 ^ J * 2 ^ J).toNat = .ok m → Halts (releaseRec depth t' m)) :
    Halts (releaseRec (depth + 1) t mem) := by
  have hsub : isizeSub (t.smlstBlock : Int) 1 = .ok (2 ^ J - 1) := by
    have hlt : (2 : Int) ^ J < 2 ^ 63 := by exact_mod_cast Nat.pow_lt_pow_right (by norm_num) hJ
    have hpos : (0 : Int) < 2 ^ J := by positivity
    rw [hsmlst]
    push_cast
    exact if_pos ⟨by omega, by omega⟩
  simp only [releaseRec, halts_bind, hsub]
  refine ⟨halts_ok _, fun sbm1 hsbm1 => ⟨halts_isizeAdd _ _,
    fun x hx => ⟨halts_isizeAdd _ _, fun y hy => ?_⟩⟩⟩
  cases hsbm1
  refine ⟨halts_ensure _,
    fun _ _ => ⟨halts_isizeAdd _ _, fun z _ => ⟨halts_ensure _, fun _ _ => ?_⟩⟩⟩
  have hxin := (isizeAdd_ok hx).2
  rw [hsmlst, maskDown_two_pow hxin (by omega), maskDown_two_pow (isizeAdd_ok hy).2 (by omega)]
  refine halts_ite (fun _ => halts_ok _) fun _ => halts_ite (fun hnull => ?_) fun _ => ?_
  · obtain ⟨hfirst, hsecond⟩ := hsides hx hy hnull.1 hnull.2
    simp only [halts_bind]
    refine ⟨halts_take _ _,
      fun m₁ hm₁ => ⟨hfirst hm₁, fun t' ht' => ⟨halts_drop _ _, fun m₂ hm₂ => ?_⟩⟩⟩
    have harena := releaseRec_arena _ ht'
    refine hsecond harena ?_
    rw [harena, hsmlst] at hm₂
    push_cast at hm₂
    exact hm₂
  · have hbase := maskDown_inIsize x (2 ^ J)
    rw [maskDown_two_pow hxin (by omega)] at hbase
    exact releaseLoop_halts hJ _ hsmlst hpow hbase (by simp)

/-- `release` ends. -/
theorem release_halts {J : Nat} (hJ : J < 63) {mem : Slice} (hsmlst : t.smlstBlock = 2 ^ J)
    (hpow : t.arenaSizePow2 < 2 ^ 63) : Halts (t.release mem) := by
  have hJpos : (0 : Int) < 2 ^ J := by positivity
  have hJlt : (2 : Int) ^ J < 2 ^ 63 := by exact_mod_cast Nat.pow_lt_pow_right (by norm_num) hJ
  refine releaseRec_halts hJ hsmlst hpow fun {x y} hx _ hbase _ => ?_
  obtain ⟨hxval, hxin⟩ := isizeAdd_ok hx
  have hlo := Int.ediv_mul_le x hJpos.ne'
  have hhi := Int.lt_ediv_add_one_mul_self x hJpos
  rw [add_mul, one_mul] at hhi
  have hbound := (maskDown_inIsize x (2 ^ J)).1
  rw [maskDown_two_pow hxin (by omega)] at hbound
  generalize x / 2 ^ J * 2 ^ J = base at hlo hhi hbase hbound ⊢
  constructor
  · -- what is below the null block ends at 0
    intro m hm
    unfold Slice.take at hm
    split at hm
    next =>
      cases hm
      refine releaseRec_halts hJ hsmlst hpow fun {x' y'} _ hy' _ hacme => ?_
      obtain ⟨hval, h1, h2⟩ := isizeAdd_ok hy'
      have hle := Int.ediv_mul_le y' hJpos.ne'
      dsimp only at hval
      rcases Nat.lt_or_ge (0 - base).toNat (2 ^ 63) with hsmall | hlarge
      · rw [asIsize_of_lt hsmall] at hval
        omega
      · rw [show (0 - base).toNat = 2 ^ 63 by omega,
          show asIsize (2 ^ 63) = -2 ^ 63 by decide] at hval
        omega
    next => cases hm
  · -- what is above it starts at the next block
    intro m t' harena hm
    unfold Slice.drop at hm
    split at hm
    next =>
      cases hm
      refine releaseRec_halts hJ (by rw [harena]; exact hsmlst) (by rw [harena]; exact hpow)
        fun {x' y'} hx' _ hbase' _ => ?_
      obtain ⟨hval, _⟩ := isizeAdd_ok hx'
      dsimp only at hval
      rw [wrappingAdd_of_inIsize ⟨by omega, by omega⟩] at hval
      have hpos : 1 ≤ x' / 2 ^ J := Int.le_ediv_of_mul_le hJpos (by omega)
      have hmul := mul_le_mul_of_nonneg_right hpos hJpos.le
      omega
    next => cases hm

/-! ## `extend` -/

/-- The loop over the bytes ends. -/
theorem copyLoop_halts {src : List (BitVec 8)} {align : Nat} {mask : BitVec 8} :
    ∀ (count srcIndex dstIndex : Nat) (carry : BitVec 8) (dst : List (BitVec 8)),
    Halts (copyLoop src align mask count srcIndex dstIndex carry dst) := by
  intro count
  induction count with
  | zero => exact fun _ _ _ _ => halts_ok _
  | succ count ih =>
    intro srcIndex dstIndex carry dst
    simp only [copyLoop, halts_bind]
    exact ⟨halts_getByte _ _, fun v _ => ⟨halts_setByte _ _ _, fun dst _ => ih _ _ _ dst⟩⟩

/-- So does `copy_slice_bits`. -/
theorem copySliceBits_halts (dst src : List (BitVec 8)) (d c n : Nat) :
    Halts (copySliceBits dst src d c n) := by
  unfold copySliceBits
  refine halts_ite (fun _ => halts_ok _) fun _ => ?_
  have hones : ∀ n, Halts (onesShr n) := fun n =>
    halts_ite (fun _ => halts_ok _) fun _ => halts_error (by decide)
  simp only [halts_bind]
  refine ⟨halts_ensure _, fun _ _ => ⟨halts_ensure _, fun _ _ => ⟨halts_getByte _ _,
    fun _ _ => ⟨hones _, fun _ _ => ?_⟩⟩⟩⟩
  refine halts_ite_bind (by simp) (halts_pure _) fun carry =>
    halts_bind.mpr ⟨copyLoop_halts _ _ _ _ _, fun r _ => ?_⟩
  exact halts_ite_bind (halts_setByte _ _ _) (halts_pure _) fun dst => by simp [halts_bind]

/-- So does the copy of the bit fields. -/
theorem copyFields_halts {old : Talloc FreeLists} {new : Arena} : ∀ (count g : Nat)
    (bitmap : List (BitVec 8)), Halts (copyFields old new count g bitmap) := by
  intro count
  induction count with
  | zero => exact fun _ _ => halts_ok _
  | succ count ih =>
    intro g bitmap
    simp only [copyFields, copyField, halts_bind]
    refine ⟨⟨halts_bitmapOffset _ _ _, fun i _ => ?_⟩, fun bitmap _ => ih _ bitmap⟩
    exact halts_ite (fun _ => copySliceBits_halts _ _ _ _ _)
      fun _ => halts_ite (fun _ => halts_ok _) fun _ => halts_error (by decide)

/-- So does the move of the status data. -/
theorem relocate_halts (t : Talloc FreeLists) (arenaBase : Int) (arenaSize : Nat)
    (freeMem : Slice) :
    Halts (t.relocate arenaBase arenaSize freeMem) := by
  simp only [relocate, halts_bind]
  refine ⟨halts_sliceBytes _ _, fun r _ => ⟨halts_usizeSub _ _, fun d _ => ?_⟩⟩
  exact halts_ite_bind (copyFields_halts _ _ _) (halts_pure _) fun _ => halts_ok _

/-- `extend` returns or panics, in any state. -/
theorem extend_halts (t : Talloc FreeLists) (arenaBase : Int) (arenaSize : Nat) (freeMem : Slice) :
    Halts (t.extend arenaBase arenaSize freeMem) := by
  simp only [extend, halts_bind]
  refine ⟨halts_sliceBytes _ _,
    fun r hr => ⟨?_, fun _ _ => ⟨relocate_halts _ _ _ _, fun t₁ ht₁ => ?_⟩⟩⟩
  · simp only [checkExtend, halts_bind]
    refine ⟨halts_isizeAdd _ _,
      fun _ _ => ⟨halts_ensure _, fun _ _ => ⟨halts_ensure _, fun _ _ => ?_⟩⟩⟩
    refine halts_ite (fun _ => ?_) fun _ => halts_pure _
    simp [halts_bind]
  · obtain ⟨K, J, hJ, hK, _, hJK, hK48, _⟩ := sliceBytes_ok hr
    have harena := relocate_arena ht₁
    have hsmlst : t₁.smlstBlock = 2 ^ J := by
      rw [harena]
      exact hJ
    have hpow : t₁.arenaSizePow2 < 2 ^ 63 := by
      rw [harena]
      show nextPowerOfTwo arenaSize < 2 ^ 63
      rw [hK]
      exact Nat.pow_lt_pow_right (by norm_num) (by omega)
    refine halts_ite (fun _ => ?_) fun _ => ?_
    · rw [halts_bind]
      refine ⟨release_halts (by omega) hsmlst hpow, fun t₂ ht₂ => ?_⟩
      have harena₂ := release_arena ht₂
      rw [halts_bind]
      exact ⟨halts_drop _ _,
        fun m _ => release_halts (J := J) (by omega) (by rw [harena₂]; exact hsmlst)
        (by rw [harena₂]; exact hpow)⟩
    · rw [pure_bind, halts_bind]
      exact ⟨halts_drop _ _, fun m _ => release_halts (by omega) hsmlst hpow⟩

/-! ## `alloc` -/

section Alloc

variable {ω : Type} {oom : OomHandler ω FreeLists} {I : Arena → Prop} {limit : Nat}

/-- In arenas with `I`, the handler halts, and when it returns `Ok` the arena is larger, with `I`
again. No arena with `I` is above the limit. -/
structure Progress (oom : OomHandler ω FreeLists) (I : Arena → Prop) (limit : Nat) : Prop where
  halts : ∀ {w : ω} {t : Talloc FreeLists} {layout : Layout}, I t.toArena → Halts (oom w t layout)
  grows : ∀ {w w' : ω} {t t' : Talloc FreeLists} {layout : Layout}, I t.toArena →
    oom w t layout = .ok (true, w', t') → I t'.toArena ∧ t.arenaSize < t'.arenaSize
  bound : ∀ {a : Arena}, I a → a.arenaSize ≤ limit

/-- The first loop ends, since the handler grows the arena up to a limit. -/
theorem Progress.growLoop (h : Progress oom I limit) (layout : Layout) (size : Nat) :
    ∀ (fuel : Nat) {w : ω} {t : Talloc FreeLists}, I t.toArena → limit - t.arenaSize < fuel →
    Halts (growLoop oom layout size fuel w t) ∧
    ∀ {w' t'}, Talloc.growLoop oom layout size fuel w t = .ok (true, w', t') →
      I t'.toArena ∧ t.arenaSize ≤ t'.arenaSize := by
  intro fuel
  induction fuel with
  | zero =>
    intro w t _ hfuel
    omega
  | succ fuel ih =>
    intro w t hI hfuel
    unfold Talloc.growLoop
    by_cases hsize : t.arenaSize < size
    · rw [if_pos hsize, halts_bind]
      -- each `Ok` of the handler takes the arena closer to its limit
      have hstep : ∀ {w₁ t₁}, oom w t layout = .ok (true, w₁, t₁) →
          limit - t₁.arenaSize < fuel := by
        intro w₁ t₁ hoom
        obtain ⟨hI₁, hlt⟩ := h.grows hI hoom
        have hbound := h.bound hI₁
        omega
      refine ⟨⟨h.halts hI, fun r hoom => ?_⟩, fun {w' t'} hrun => ?_⟩
      · obtain ⟨ok, w₁, t₁⟩ := r
        cases ok with
        | false => exact halts_ok _
        | true => exact (ih (h.grows hI hoom).1 (hstep hoom)).1
      · obtain ⟨⟨ok, w₁, t₁⟩, hoom, hrun⟩ := bind_ok hrun
        cases ok with
        | false => cases hrun
        | true =>
          obtain ⟨hI₁, hlt⟩ := h.grows hI hoom
          obtain ⟨hI', hle⟩ := (ih hI₁ (hstep hoom)).2 hrun
          exact ⟨hI', by omega⟩
    · rw [if_neg hsize]
      refine ⟨halts_ok _, fun {w' t'} hrun => ?_⟩
      cases hrun
      exact ⟨hI, Nat.le_refl _⟩

/-- So does the second one. -/
theorem Progress.findLoop (h : Progress oom I limit) {layout : Layout} {size : Nat} :
    ∀ (fuel : Nat) {granularity : Nat} {w : ω} {t : Talloc FreeLists}, I t.toArena →
    limit - t.arenaSize < fuel → Halts (findLoop oom layout size fuel granularity w t) := by
  intro fuel
  induction fuel with
  | zero =>
    intro granularity w t _ hfuel
    omega
  | succ fuel ih =>
    intro granularity w t hI hfuel
    unfold Talloc.findLoop
    refine halts_ite (fun _ => ?_) fun _ => halts_ok _
    rw [halts_bind]
    refine ⟨h.halts hI, fun r hoom => ?_⟩
    obtain ⟨ok, w₁, t₁⟩ := r
    cases ok with
    | false => exact halts_ok _
    | true =>
      obtain ⟨hI₁, hlt⟩ := h.grows hI hoom
      have hbound := h.bound hI₁
      refine halts_bind.mpr ⟨halts_blockGranularity _ _, fun g _ => ih hI₁ (by omega)⟩

/-- The loops of `alloc` make no more turns than bytes are left to the limit. -/
theorem alloc_halts (h : Progress oom I limit) {fuel : Nat} {w : ω} {t : Talloc FreeLists}
    (layout : Layout) (hI : I t.toArena) (hfuel : limit - t.arenaSize < fuel) :
    Halts (alloc oom fuel w t layout) := by
  obtain ⟨hgrow, hkept⟩ := h.growLoop layout (t.layoutToSize layout) fuel (w := w) hI hfuel
  simp only [alloc, halts_bind]
  refine ⟨hgrow, fun r hrun => ?_⟩
  obtain ⟨ok, w₁, t₁⟩ := r
  cases ok with
  | false => exact halts_ok _
  | true =>
    obtain ⟨hI₁, hle⟩ := hkept hrun
    show Halts (allocBlock oom layout (t.layoutToSize layout) fuel w₁ t₁)
    simp only [allocBlock, halts_bind]
    refine ⟨halts_blockGranularity _ _, fun g _ => halts_ite (fun _ => ?_) fun _ => ?_⟩
    · simp [halts_bind]
    · rw [halts_bind]
      refine ⟨h.findLoop fuel hI₁ (by omega), fun r _ => ?_⟩
      obtain ⟨found, w₂, t₂⟩ := r
      cases found with
      | none => exact halts_ok _
      | some p => simp [halts_bind]

end Alloc

end Talloc

end Tauos.Memm
