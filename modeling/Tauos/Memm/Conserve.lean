import Tauos.Memm.Growth

/-!
# What an extension gives back

The memory an extension should make available, counted in smallest blocks: the
blocks free before, those withheld for the old status data, and those behind the
new one. `extend` gives the old status data back with a rounding of its own: from
the first sentinel (not the start of the old `free_mem`) up, and for as many
blocks as its size alone would need. `extend_conserves_iff` says exactly when
that comes out right.
-/

namespace Tauos.Memm

open Tauos.Rust Tauos.Utils Tauos.Buddy

/-- The smallest block at `s` is free. -/
def Talloc.BlockFree (t : Talloc FreeLists) (s : Int) : Prop :=
  ∀ x, s ≤ x → x < s + t.smlstBlock → t.Free x

/-- The smallest block at `s` is withheld for the status data in the `free_mem` at
`P`, its padding included, and for nothing else: it starts in that `free_mem`
before the status data ends, is not the null block, and no client released it. -/
def Withheld (P : Int) (L : Ledger) (t : Talloc FreeLists) (s : Int) : Prop :=
  P ≤ s ∧ s < t.bitmapPtr + t.bitmapLen ∧ s ≠ 0 ∧ ¬ t.Free s ∧ ¬ L.Live t.toArena s

/-- The smallest block at `s` is in `free_mem` behind the new status data. -/
def Behind (t : Talloc FreeLists) (arenaSize : Nat) (freeMem : Slice) (s : Int) : Prop :=
  t.newStatusEnd arenaSize freeMem ≤ s ∧ s + t.smlstBlock ≤ freeMem.ptr + freeMem.len

/-- The smallest block at `s` should be free after the extension. -/
def Due (P : Int) (L : Ledger) (t : Talloc FreeLists) (arenaSize : Nat) (freeMem : Slice)
    (s : Int) : Prop :=
  t.BlockFree s ∨ Withheld P L t s ∨ Behind t arenaSize freeMem s

/-- The extension returns, and exactly the blocks that are due are free. -/
def Conserves (P : Int) (L : Ledger) (t : Talloc FreeLists) (arenaSize : Nat) (freeMem : Slice) :
    Prop :=
  ∃ t', t.extend t.arenaBase arenaSize freeMem = .ok t' ∧
    ∀ s, (t.smlstBlock : Int) ∣ s → (t'.BlockFree s ↔ Due P L t arenaSize freeMem s)

/-- Every block of the power-of-two span at `lo` is due. -/
def SpanDue (P : Int) (L : Ledger) (t : Talloc FreeLists) (arenaSize : Nat) (freeMem : Slice)
    (lo : Int) : Prop :=
  ∀ s, (t.smlstBlock : Int) ∣ s → lo ≤ s → s < lo + t.arenaSizePow2 → Due P L t arenaSize freeMem s

/-- `x` rounded up to a multiple of `n`. -/
def roundUp (n : Nat) (x : Int) : Int := (x + n - 1) / n * n

/-- When an extension conserves memory. -/
structure ConservesWhen (P : Int) (L : Ledger) (t : Talloc FreeLists) (arenaSize : Nat)
    (freeMem : Slice) : Prop where
  loop : t.arenaSizePow2 = nextPowerOfTwo arenaSize → t.llistsLen ≤ 3
  /-- The old `free_mem` began inside a block, or with one that is not withheld. -/
  first : (t.smlstBlock : Int) ∣ P → ¬ Withheld P L t P
  /-- The status data takes no block more than its size alone would. -/
  last : roundUp t.smlstBlock (t.llistsPtr % t.smlstBlock + t.statusSize)
    = roundUp t.smlstBlock t.statusSize
  /-- The stale bit is not there, or not read. -/
  stale : t.arenaSizePow2 ≠ nextPowerOfTwo arenaSize → t.list 1 ≠ [] →
    ¬ SpanDue P L t arenaSize freeMem t.arenaBase ∧
    ¬ SpanDue P L t arenaSize freeMem (t.arenaBase + t.arenaSizePow2)
  null : ¬ (freeMem.ptr + freeMem.len = 0 ∧ t.newStatusEnd arenaSize freeMem + t.smlstBlock ≤ 0)

/-! ## Whole blocks -/

section Blocks

variable {K J K' arenaSize : Nat} {P : Int} {L : Ledger} {t r : Talloc FreeLists} {freeMem : Slice}

/-- Free memory is made of whole smallest blocks. -/
theorem Talloc.Inv.covers_congr (h : Talloc.Inv K J t) {x z : Int}
    (hx : Covers (t.FreeBlock K) x) (hxz : floorBlock J z = floorBlock J x) :
    Covers (t.FreeBlock K) z := by
  obtain ⟨e, b, hF, hw⟩ := hx
  refine ⟨e, b, hF, ?_⟩
  have hwz := within_floorBlock J z
  rw [hxz] at hwz
  exact (aligned_floorBlock J x).within_of_nested (h.canon.aligned hF) (h.le_exp hF)
    (within_floorBlock J x) hw hwz

/-- Free addresses come in whole smallest blocks. -/
theorem Talloc.Inv.blockFree_iff (h : Talloc.Inv K J t) {s : Int} (hs : Aligned J s) :
    t.BlockFree s ↔ Covers (t.FreeBlock K) s := by
  have hpos := two_pow_pos J
  have hsm : (t.smlstBlock : Int) = 2 ^ J := by
    rw [h.nat.smlst]
    push_cast
    rfl
  unfold Talloc.BlockFree
  rw [hsm]
  constructor
  · intro hf
    have := hf s (le_refl s) (by omega)
    rwa [h.free_iff] at this
  · intro hc x h1 h2
    rw [h.free_iff]
    refine h.covers_congr hc ?_
    rw [floorBlock_of_aligned hs]
    exact (aligned_floorBlock J x).eq_of_within hs (within_floorBlock J x) ⟨h1, h2⟩

/-- So is a span. -/
theorem spanOf_congr {m : Slice} {x z : Int} (hx : spanOf J m x)
    (hxz : floorBlock J z = floorBlock J x) : spanOf J m z := by
  have ha : Aligned J (Talloc.spanAcme J m) := aligned_floorBlock J _
  have hf := aligned_spanFirst J m
  refine ⟨?_, ?_⟩
  · rw [← le_floorBlock hf, hxz, le_floorBlock hf]
    exact hx.1
  · rw [← floorBlock_lt ha, hxz, floorBlock_lt ha]
    exact hx.2

/-- So is what is free after `extend`. -/
theorem Extending.extendedFree_congr (h : Extending K J K' L t arenaSize freeMem) {x z : Int}
    (hx : extendedFree K J K' t freeMem x) (hxz : floorBlock J z = floorBlock J x) :
    extendedFree K J K' t freeMem z := by
  rcases hx with hx | hx | hx
  · exact Or.inl (h.acc.inv.covers_congr hx hxz)
  · exact Or.inr (Or.inl (spanOf_congr hx hxz))
  · exact Or.inr (Or.inr (spanOf_congr hx hxz))

/-- Nothing of the larger arena is on both sides of address 0. -/
theorem Extending.base_eq_zero (h : Extending K J K' L t arenaSize freeMem)
    (hlo : t.arenaBase ≤ 0) (hhi : 0 < t.arenaBase + arenaSize) : t.arenaBase = 0 := by
  have hsz : (arenaSize : Int) ≤ 2 ^ K' := h.grows.nat.cast_pow
  have hbase : Aligned K' t.arenaBase := h.grows.nat.base
  exact hbase.eq_of_within (x := 0) (dvd_zero _) ⟨hlo, by omega⟩ (within_base K' 0)

/-- The blocks released behind the new status data. -/
theorem Extending.behind_iff (h : Extending K J K' L t arenaSize freeMem) {s : Int}
    (hs : Aligned J s) : spanOf J (tailOf K' J freeMem) s ↔ Behind t arenaSize freeMem s := by
  obtain ⟨c, _, hc1, hc2⟩ := h.room
  have hpos := two_pow_pos J
  have hsm : (t.smlstBlock : Int) = 2 ^ J := by
    rw [h.acc.inv.nat.smlst]
    push_cast
    rfl
  have hptr : (tailOf K' J freeMem).ptr = freeMem.ptr + statusBytes K' J freeMem := rfl
  have hlen : ((tailOf K' J freeMem).len : Int) = freeMem.len - statusBytes K' J freeMem := by
    show ((freeMem.len - statusBytes K' J freeMem : Nat) : Int) = _
    omega
  obtain ⟨hb1, hb2⟩ := Talloc.spanBase_bounds J (tailOf K' J freeMem)
  obtain ⟨ha1, ha2⟩ := Talloc.spanAcme_bounds J (tailOf K' J freeMem)
  have hlo := h.site.memLo
  have hhi := h.site.memHi
  obtain ⟨_, hoff⟩ := h.sentinel
  have hfirst : Talloc.spanFirst J (tailOf K' J freeMem) =
      Talloc.spanBase J (tailOf K' J freeMem) := by
    refine if_neg fun hnull => ?_
    have := h.base_eq_zero (by omega) (by omega)
    omega
  unfold spanOf Behind
  rw [hfirst, h.newStatusEnd_eq, hsm]
  constructor
  · intro hx
    have := hs.add_le_of_lt (show Aligned J (Talloc.spanAcme J (tailOf K' J freeMem)) from
      aligned_floorBlock J _) hx.2
    have := hx.1
    exact ⟨by omega, by omega⟩
  · intro hx
    refine ⟨spanBase_le hs (by omega), ?_⟩
    have := le_spanAcme (m := tailOf K' J freeMem) hs.add (by omega)
    omega

/-! ## The blocks of the old status data -/

/-- The first sentinel is the first node boundary behind the start of `free_mem`. -/
theorem Valid.sentinel (h : Valid K J P L t) : P < t.llistsPtr ∧
    ∀ {s : Int}, Aligned J s → P < s → t.llistsPtr ≤ s := by
  have hmod : ((asUsize P % 16 : Nat) : Int) = P % 16 := by
    have := asUsize_emod (x := P) (k := 4) (by decide)
    push_cast
    exact this
  have hptr : t.llistsPtr = P + (16 - P % 16) := by
    rw [h.ptr]
    unfold Talloc.llAlignOffset nodeSize
    dsimp only
    omega
  have hal : Aligned 4 (t.llistsPtr - 16) := by
    show (2 ^ 4 : Int) ∣ _
    norm_num
    omega
  refine ⟨by omega, fun {s} hs hlt => ?_⟩
  have := hal.add_le_of_lt (hs.mono h.inv.nat.hJ) (by omega)
  norm_num at this
  exact this

/-- Of the blocks of the padding and the status data, all that start behind the first
sentinel are withheld. -/
theorem Extending.withheld_iff (h : Extending K J K' L t arenaSize freeMem) (hv : Valid K J P L t)
    {s : Int} (hs : Aligned J s) : Withheld P L t s ↔
      (s = P ∧ Withheld P L t P) ∨ (t.llistsPtr ≤ s ∧ s < t.llistsPtr + t.statusSize) := by
  obtain ⟨hlt, hnext⟩ := hv.sentinel
  have hend : t.bitmapPtr + t.bitmapLen = t.llistsPtr + t.statusSize := by
    unfold Talloc.statusSize
    rw [hv.layout]
    push_cast
    ring
  constructor
  · intro hw
    rcases Int.lt_or_le P s with hlt' | hle
    · have := hw.2.1
      exact Or.inr ⟨hnext hs hlt', by omega⟩
    · obtain rfl : s = P := by have := hw.1; omega
      exact Or.inl ⟨rfl, hw⟩
  · intro hw
    rcases hw with ⟨rfl, hw⟩ | hw
    · exact hw
    · have hst : t.Status s := (hv.toAccounted.status_iff s).mpr hw
      have hng : ¬ L.Given J s := fun hc => hv.statusFree hc hst
      rw [← hv.account] at hng
      refine ⟨by omega, by omega, fun h0 => ?_, ?_, fun hl => hng (Or.inr hl)⟩
      · -- an arena with status data around address 0 starts at 0, before the status data
        have hlarger := h.ext.larger
        have hlo := hv.lo
        obtain ⟨c, _, hc1, hc2⟩ := hv.seated.room
        have := h.base_eq_zero (by omega) (by omega)
        omega
      · rw [hv.inv.free_iff]
        exact fun hc => hng (Or.inl hc)

/-- The blocks released of the old status data. -/
theorem Extending.old_iff (h : Extending K J K' L t arenaSize freeMem) (hv : Valid K J P L t)
    {s : Int} (hs : Aligned J s) : spanOf J t.oldStatus s ↔
      t.llistsPtr ≤ s ∧ s < floorBlock J t.llistsPtr + ceilBlock J t.statusSize := by
  obtain ⟨hlt, _⟩ := hv.sentinel
  obtain ⟨hb, ha⟩ := hv.toAccounted.oldStatus_span
  obtain ⟨_, hend, _⟩ := hv.toAccounted.oldStatus_inside hv.seated
  obtain ⟨hc1, hc2⟩ := ceilBlock_bounds J t.llistsPtr
  have hlo := hv.lo
  have hlarger := h.ext.larger
  have hfirst : Talloc.spanFirst J t.oldStatus = Talloc.spanBase J t.oldStatus := by
    refine if_neg fun hnull => ?_
    have := h.base_eq_zero (by omega) (by omega)
    omega
  unfold spanOf
  rw [hfirst, ha, hb]
  refine and_congr_left fun _ => ⟨fun hle => by omega, fun hle => ?_⟩
  by_contra hcon
  have := hs.add_le_of_lt (aligned_ceilBlock J t.llistsPtr) (not_le.mp hcon)
  omega

/-- Rounding up to the smallest block. -/
theorem roundUp_eq (J : Nat) (x : Int) : roundUp (2 ^ J) x = ceilBlock J x := by
  unfold roundUp ceilBlock floorBlock
  push_cast
  rw [add_sub_assoc]

/-- What is free after `extend`, by smallest blocks. -/
theorem Extending.extendedFree_aligned (h : Extending K J K' L t arenaSize freeMem)
    (hv : Valid K J P L t) {s : Int} (hs : Aligned J s) :
    extendedFree K J K' t freeMem s ↔ Covers (t.FreeBlock K) s ∨
      (t.llistsPtr ≤ s ∧ s < floorBlock J t.llistsPtr + ceilBlock J t.statusSize) ∨
      Behind t arenaSize freeMem s := by
  unfold extendedFree
  rw [h.old_iff hv hs, h.behind_iff hs]

/-- What should be free, by smallest blocks. -/
theorem Extending.due_aligned (h : Extending K J K' L t arenaSize freeMem)
    (hv : Valid K J P L t) {s : Int} (hs : Aligned J s) :
    Due P L t arenaSize freeMem s ↔ Covers (t.FreeBlock K) s ∨
      ((s = P ∧ Withheld P L t P) ∨ (t.llistsPtr ≤ s ∧ s < t.llistsPtr + t.statusSize)) ∨
      Behind t arenaSize freeMem s := by
  unfold Due
  rw [hv.inv.blockFree_iff hs, h.withheld_iff hv hs]

/-- The old status data is neither free nor in `free_mem`. -/
theorem Extending.oldStatus_apart (h : Extending K J K' L t arenaSize freeMem)
    (hv : Valid K J P L t) {s : Int} (h1 : t.llistsPtr ≤ s) (h2 : s < t.llistsPtr + t.statusSize) :
    ¬ Covers (t.FreeBlock K) s ∧ ¬ freeMem.Mem s := by
  have hst : t.Status s := (hv.toAccounted.status_iff s).mpr ⟨h1, h2⟩
  exact ⟨fun hc => hv.statusFree ((hv.account s).mp (Or.inl hc)) hst,
    fun hc => (h.ext.reserved s hc).2.2 ⟨s, hst, rfl⟩⟩

/-- What `extend` frees is what is due exactly when neither end of the old status
data loses a block: its padding was no block, and rounding up its size alone
reaches its end. -/
theorem Extending.due_iff (h : Extending K J K' L t arenaSize freeMem) (hv : Valid K J P L t)
    (hpad : ∀ x, freeMem.Mem x → x < P ∨ t.llistsPtr ≤ x) :
    (∀ s, Aligned J s → (extendedFree K J K' t freeMem s ↔ Due P L t arenaSize freeMem s)) ↔
      (Aligned J P → ¬ Withheld P L t P) ∧
      ceilBlock J (t.llistsPtr % 2 ^ J + t.statusSize) = ceilBlock J t.statusSize := by
  obtain ⟨hlt, _⟩ := hv.sentinel
  have hpos := two_pow_pos J
  have hsize := hv.toAccounted.statusSize_pos
  have hmod := Int.emod_nonneg t.llistsPtr (ne_of_gt hpos)
  have hsplit : t.llistsPtr = floorBlock J t.llistsPtr + t.llistsPtr % 2 ^ J := by
    have := Int.mul_ediv_add_emod t.llistsPtr (2 ^ J)
    unfold floorBlock
    rw [mul_comm]
    omega
  -- what is behind the arena is `free_mem` as far as blocks go
  have hout : ∀ {s}, Behind t arenaSize freeMem s → Aligned J s → freeMem.Mem s := fun hb hs =>
    (h.tail_mem ((h.behind_iff hs).mpr hb)).1
  constructor
  · intro heq
    refine ⟨fun hP hw => ?_, ?_⟩
    · -- the block of the padding
      have hdue := (h.due_aligned hv hP).mpr (Or.inr (Or.inl (Or.inl ⟨rfl, hw⟩)))
      rcases (h.extendedFree_aligned hv hP).mp ((heq P hP).mpr hdue) with hc | hc | hc
      · rw [← hv.inv.free_iff] at hc
        exact hw.2.2.2.1 hc
      · omega
      · have := hpad P (hout hc hP)
        omega
    · -- the block where the release stops
      by_contra hne
      have hmono := ceilBlock_mono (e := J)
        (show (t.statusSize : Int) ≤ t.llistsPtr % 2 ^ J + t.statusSize by omega)
      have hlt' := (lt_ceilBlock (aligned_ceilBlock J t.statusSize)).mp
        (lt_of_le_of_ne hmono (Ne.symm hne))
      have hs : Aligned J (floorBlock J t.llistsPtr + ceilBlock J t.statusSize) :=
        dvd_add (aligned_floorBlock J _) (aligned_ceilBlock J _)
      have hceil : 2 ^ J ≤ ceilBlock J t.statusSize := by
        have := Aligned.add_le_of_lt (dvd_zero _) (aligned_ceilBlock J t.statusSize)
          (by have := (ceilBlock_bounds J t.statusSize).1; omega)
        omega
      have hfl := (within_floorBlock J t.llistsPtr).2
      have h1 : t.llistsPtr ≤ floorBlock J t.llistsPtr + ceilBlock J t.statusSize := by omega
      have h2 : floorBlock J t.llistsPtr + ceilBlock J t.statusSize
          < t.llistsPtr + t.statusSize := by omega
      have hdue := (h.due_aligned hv hs).mpr (Or.inr (Or.inl (Or.inr ⟨h1, h2⟩)))
      rcases (h.extendedFree_aligned hv hs).mp ((heq _ hs).mpr hdue) with hc | hc | hc
      · exact (h.oldStatus_apart hv h1 h2).1 hc
      · exact absurd hc.2 (lt_irrefl _)
      · exact (h.oldStatus_apart hv h1 h2).2 (hout hc hs)
  · intro hcond s hs
    obtain ⟨hfirst, hlast⟩ := hcond
    -- the release stops where the old status data does
    have hupper : s < t.llistsPtr + t.statusSize ↔
        s < floorBlock J t.llistsPtr + ceilBlock J t.statusSize := by
      have hs' : Aligned J (s - floorBlock J t.llistsPtr) := dvd_sub hs (aligned_floorBlock J _)
      have := lt_ceilBlock (x := t.llistsPtr % 2 ^ J + t.statusSize) hs'
      rw [hlast] at this
      constructor
      · intro hlt'
        have := this.mpr (by omega)
        omega
      · intro hlt'
        have := this.mp (by omega)
        omega
    have hno : ¬ (s = P ∧ Withheld P L t P) := by
      intro hc
      obtain ⟨rfl, hw⟩ := hc
      exact hfirst hs hw
    rw [h.extendedFree_aligned hv hs, h.due_aligned hv hs, hupper, or_iff_right hno]

/-- One half of the stale pair is due exactly when it is free afterwards. -/
theorem Extending.half_iff (h : Extending K J K' L t arenaSize freeMem)
    (hdue : ∀ s, Aligned J s → (extendedFree K J K' t freeMem s ↔ Due P L t arenaSize freeMem s)) :
    Talloc.HalfIn K t.arenaBase (extendedFree K J K' t freeMem) ↔
      SpanDue P L t arenaSize freeMem t.arenaBase ∨
      SpanDue P L t arenaSize freeMem (t.arenaBase + t.arenaSizePow2) := by
  have hsm : (t.smlstBlock : Int) = 2 ^ J := by
    rw [h.acc.inv.nat.smlst]
    push_cast
    rfl
  have hpow : (t.arenaSizePow2 : Int) = 2 ^ K := by
    rw [h.acc.inv.nat.pow2]
    push_cast
    rfl
  have hJK := h.acc.inv.nat.hJK
  have hspan : ∀ {lo : Int}, Aligned J lo →
    ((∀ x, Within K lo x → extendedFree K J K' t freeMem x) ↔
      SpanDue P L t arenaSize freeMem lo) := by
    intro lo hlo
    unfold SpanDue
    rw [hsm, hpow]
    constructor
    · intro hx s hs h1 h2
      exact (hdue s hs).mp (hx s ⟨h1, h2⟩)
    · intro hx x hw
      have hal := aligned_floorBlock J x
      have hin := within_floorBlock J x
      have hlow := (le_floorBlock (x := x) hlo).mpr hw.1
      have := (hdue _ hal).mpr (hx _ hal hlow (by have := hin.1; have := hw.2; omega))
      exact h.extendedFree_congr this (floorBlock_floorBlock J x).symm
  have hbase : Aligned J t.arenaBase := h.acc.inv.nat.base.mono hJK
  unfold Talloc.HalfIn
  rw [hspan hbase, hspan (dvd_add hbase (pow_dvd_pow 2 hJK)), hpow]

end Blocks

/-! ## Conservation -/

/-- An extension conserves memory exactly under `ConservesWhen`. -/
theorem extend_conserves_iff {K J : Nat} {P : Int} {L : Ledger} {t : Talloc FreeLists}
    {arenaSize : Nat} {freeMem : Slice} (hv : Valid K J P L t)
    (hext : Extension L t arenaSize freeMem)
    (hpad : ∀ x, freeMem.Mem x → x < P ∨ t.llistsPtr ≤ x) :
    Conserves P L t arenaSize freeMem ↔ ConservesWhen P L t arenaSize freeMem := by
  obtain ⟨K', _, h⟩ := hext.extending hv.toAccounted hv.seated
  have hsm : (t.smlstBlock : Int) = 2 ^ J := by
    rw [hv.inv.nat.smlst]
    push_cast
    rfl
  have hends := h.due_iff hv hpad
  have hround : ceilBlock J (t.llistsPtr % 2 ^ J + t.statusSize) = ceilBlock J t.statusSize ↔
      roundUp t.smlstBlock (t.llistsPtr % t.smlstBlock + t.statusSize)
        = roundUp t.smlstBlock t.statusSize := by
    rw [hsm, hv.inv.nat.smlst, roundUp_eq, roundUp_eq]
  -- a flipped bit changes no list
  have hblock : ∀ {r}, Extended K J K' t arenaSize freeMem r → ∀ {s : Int}, Aligned J s →
      ((if Talloc.Stale K K' t then r.flipBit (2 ^ (K' - K - 1)) else r).BlockFree s ↔
        extendedFree K J K' t freeMem s) := by
    intro r hr s hs
    have hflip : (r.flipBit (2 ^ (K' - K - 1))).BlockFree s ↔ r.BlockFree s := Iff.rfl
    split
    · rw [hflip, hr.inv.blockFree_iff hs, hr.covers]
    · rw [hr.inv.blockFree_iff hs, hr.covers]
  constructor
  · intro hcon
    obtain ⟨t', hrun, hfree⟩ := hcon
    rcases h.cases with ⟨⟨f, herr⟩, _⟩ | ⟨r, hr, hok, hclear, hd, hn⟩
    · rw [hrun] at herr
      cases herr
    · rw [hrun] at hok
      cases hok
      have hdue : ∀ s, Aligned J s → (extendedFree K J K' t freeMem s ↔
          Due P L t arenaSize freeMem s) := by
        intro s hs
        rw [← hblock hr hs]
        exact hfree s (by rw [hsm]; exact hs)
      obtain ⟨hfirst, hlast⟩ := hends.mp hdue
      refine ⟨h.loop_iff.mp hd, fun hP => hfirst (by rw [hsm] at hP; exact hP), hround.mp hlast,
        fun hne hl => ?_, fun hc => hn (h.tailAtNull_iff.mpr hc)⟩
      have hst := h.stale_iff.mpr ⟨hne, hl⟩
      have hnhalf : ¬ Talloc.HalfIn K t.arenaBase (extendedFree K J K' t freeMem) := fun hc =>
        ((h.pair hst.1).not_clear_iff hr.inv).mpr (hc.mono fun x hx => (hr.covers x).mpr hx)
          (hclear hst)
      rw [h.half_iff hdue] at hnhalf
      exact not_or.mp hnhalf
  · intro hwhen
    have hdue := hends.mpr ⟨fun hP => hwhen.first (by rw [hsm]; exact hP), hround.mpr hwhen.last⟩
    rcases h.cases with ⟨_, hwhy⟩ | ⟨r, hr, hok, _⟩
    · rcases hwhy with ⟨rfl, h3⟩ | hnull | ⟨hst, hhalf⟩
      · have := h.loop_iff.mpr hwhen.loop
        omega
      · exact absurd (h.tailAtNull_iff.mp hnull) hwhen.null
      · obtain ⟨hne, hl⟩ := h.stale_iff.mp hst
        obtain ⟨h1, h2⟩ := hwhen.stale hne hl
        rcases (h.half_iff hdue).mp hhalf with hc | hc
        · exact absurd hc h1
        · exact absurd hc h2
    · refine ⟨_, hok, fun s hs => ?_⟩
      rw [hsm] at hs
      rw [hblock hr hs]
      exact hdue s hs

/-- The sample heap in `free_mem` from 4100 on, inside its first block. -/
theorem sampleBusy_inside : Reached 4100 (sampleLedger [(4608, ⟨512, 8⟩)]) sampleBusy := by
  have hs : sliceBytes 1024 (2 ^ 5) = .ok (96, 8) := by decide
  have hsite : Site 4096 1024 32 ⟨4100, 1020⟩ := by
    refine Site.of_room (J := 5) (by decide) (by decide) (by decide) (by decide) (by decide) ?_
    intro ll bm h
    rw [hs] at h
    cases h
    decide
  have hnew : Run 4096 1024 32 ⟨4100, 1020⟩ (sampleLedger []) sampleNew :=
    ⟨hsite, sampleNew, by decide +kernel, Calls.refl⟩
  have hrun : (Op.alloc ⟨512, 8⟩ []).run (sampleLedger []) sampleNew
      = .ok (some 4608, sampleLedger [(4608, ⟨512, 8⟩)], sampleBusy) := by decide +kernel
  have hallowed : (Op.alloc ⟨512, 8⟩ []).Allowed (sampleLedger []) sampleNew :=
    ⟨⟨⟨3, rfl⟩, by decide⟩, by decide, trivial⟩
  exact Reached.call (Reached.run hnew) hallowed hrun

/-- There, doubling the heap conserves memory. -/
theorem extend_conserves_sample :
    Reached 4100 (sampleLedger [(4608, ⟨512, 8⟩)]) sampleBusy ∧
    Extension (sampleLedger [(4608, ⟨512, 8⟩)]) sampleBusy 2048 ⟨5120, 1024⟩ ∧
    Conserves 4100 (sampleLedger [(4608, ⟨512, 8⟩)]) sampleBusy 2048 ⟨5120, 1024⟩ := by
  have hext := sample_extension sampleBusy_inside rfl
  obtain ⟨K, J, hv⟩ := sampleBusy_inside.valid
  refine ⟨sampleBusy_inside, hext, (extend_conserves_iff hv hext fun x hx => Or.inr ?_).mpr ?_⟩
  · have h1 : (5120 : Int) ≤ x := hx.1
    show (4112 : Int) ≤ x
    omega
  · exact ⟨fun hc => absurd hc (by decide), fun hc => absurd hc (by decide), by decide,
      fun _ hl => absurd rfl hl, fun hc => absurd hc.1 (by decide)⟩

/-- In `free_mem` from 4096 on, its first block (padding and the first sentinel) is
not given back. -/
theorem extend_loses_block :
    Reached 4096 (sampleLedger [(4608, ⟨512, 8⟩)]) sampleBusy ∧
    Extension (sampleLedger [(4608, ⟨512, 8⟩)]) sampleBusy 2048 ⟨5120, 1024⟩ ∧
    ¬ Conserves 4096 (sampleLedger [(4608, ⟨512, 8⟩)]) sampleBusy 2048 ⟨5120, 1024⟩ := by
  refine ⟨sampleBusy_reached, sample_extension sampleBusy_reached rfl, fun hcon => ?_⟩
  obtain ⟨t', hrun, hfree⟩ := hcon
  have hwith : Withheld 4096 (sampleLedger [(4608, ⟨512, 8⟩)]) sampleBusy 4096 := by
    refine ⟨le_refl _, by decide, by decide, by decide +kernel, by decide +kernel⟩
  have hblock := (hfree 4096 (by decide)).mpr (Or.inr (Or.inl hwith))
  have hlost : ((sampleBusy.extend 4096 2048 ⟨5120, 1024⟩).toOption.map fun t' =>
      decide (t'.smlstBlock = 32 ∧ ¬ t'.Free 4096)) = some true := by decide +kernel
  rw [show sampleBusy.extend 4096 2048 ⟨5120, 1024⟩ = .ok t' from hrun] at hlost
  obtain ⟨hsm, hnot⟩ := of_decide_eq_true (Option.some.inj hlost)
  refine hnot (hblock 4096 (le_refl _) ?_)
  rw [hsm]
  decide

end Tauos.Memm
