import Tauos.Utils.Bits
import Tauos.Mapper.MapResult

/-!
# `Mapper::map` and the pages of a `Mapping`

`kernel/src/memm/mod.rs`: `Mapper::map` rounds its span out to pages and maps
it; the `Mapping` it returns can be iterated over page by page. The iterator
computes the level of a page from the length that remains and from the leading
zeros of its address.

The level it finds is at least `L` when the page of that level fits and the
address is below `2 ^ (61 - 9 * L)` (`le_iterLvl_iff`), while `map_offset` asks
for an address that is a multiple of the page (`le_placeLvl_self_iff`).
-/

namespace Tauos.Mapper

open Tauos.Rust Tauos.Utils Tauos.Amd64

/-- `Mapping`. -/
structure Mapping where
  base : Int
  acme : Int
  pml4 : Nat
  deriving DecidableEq, Repr

/-- `IterMut`. -/
structure IterMut where
  ptr : Int
  acme : Int
  deriving DecidableEq, Repr

/-- `size + PTE_SIZE-1 & !(PTE_SIZE-1)`. -/
def roundUpPage (size : Nat) : Except Fault Nat := do
  return (← usizeSub (← usizeAdd size PTE_SIZE) 1) &&& (2 ^ 64 - PTE_SIZE)

/-- `Mapper::map`, with the allocation of physical pages as `pageGetter`. -/
def mapperMap {γ : Type} (pageGetter : γ → Nat → Except Fault (Nat × γ)) (base : Int) (size : Nat)
    (branches leaves : PTE) (pml4 : Nat) (s : Machine γ) : Except Fault (Mapping × Machine γ) := do
  ensure (size ≠ 0)
  let base := maskDown base PTE_SIZE
  let acme := wrappingAdd base (← roundUpPage size)
  let s ← mapOffset pageGetter acme branches leaves 4 base pml4 s
  return (⟨base, acme, pml4⟩, s)

/-- `Mapping::iter_pages`. -/
def Mapping.iterPages (m : Mapping) : IterMut := ⟨m.base, m.acme⟩

/-- The level of the page that `next` yields at `ptr`. -/
def iterLvl (ptr acme : Int) : Except Fault Nat := do
  let remaining := fastNon0Log2 (asUsize (← isizeSub acme ptr))
  let align := leadingZeros (asUsize ptr)
  return (← usizeSub (min remaining align) 3) / 9

/-- `IterMut::next`. -/
def IterMut.next (it : IterMut) : Except Fault (Option (Int × Nat) × IterMut) :=
  if it.ptr < it.acme then do
    let lvl ← iterLvl it.ptr it.acme
    return (some (it.ptr, lvl), { it with ptr := wrappingAdd it.ptr (pageSize lvl) })
  else return (none, it)

/-- All that the iterator yields. -/
def IterMut.collect : Nat → IterMut → Except Fault (List (Int × Nat))
  | 0, _ => .error .fuel
  | fuel + 1, it => do
    match ← it.next with
    | (none, _) => return []
    | (some item, it) => return item :: (← IterMut.collect fuel it)

/-- The pages, each with its level, lie end to end from `base` to `acme`. -/
def PageTiles (acme : Int) : Int → List (Int × Nat) → Prop
  | base, [] => base = acme
  | base, (a, lvl) :: rest => a = base ∧ PageTiles acme (base + pageSize lvl) rest

/-- The iterator comes to an end, its pages tile the mapping, and each of them has the level of
the leaf that `map_offset` puts at its address. -/
def IterExact (m : Mapping) : Prop :=
  ∃ fuel items, m.iterPages.collect fuel = .ok items ∧ PageTiles m.acme m.base items ∧
    (items.map Prod.fst).Pairwise (· < ·) ∧
    ∀ p ∈ items, 1 ≤ p.2 ∧ p.2 ≤ 3 ∧ p.2 = placeLvl m.acme 4 p.1 p.1

/-! ## The two levels -/

section Levels

variable {acme ptr : Int} {L : Nat}

/-- The page of level `L` at `ptr` ends by `acme`. -/
def Fits (acme : Int) (L : Nat) (ptr : Int) : Prop := ptr + pageSize L ≤ acme

/-- How many zeros lead. -/
theorem le_leadingZeros_iff {n k : Nat} (hk : 1 ≤ k) (hk64 : k ≤ 64) :
    k ≤ leadingZeros n ↔ n < 2 ^ (64 - k) := by
  unfold leadingZeros
  by_cases hn : n = 0
  · subst hn
    simp [hk64]
  · rw [if_neg hn, ← Nat.log2_lt hn]
    omega

/-- Below address 0 the level underflows. -/
theorem iterLvl_of_neg (h : ptr < 0) (hlow : -2 ^ 47 ≤ ptr) (hlt : ptr < acme) (hhigh : acme ≤ 0) :
    iterLvl ptr acme = .error .underflow := by
  have hlz : leadingZeros (asUsize ptr) = 0 := by
    have hbig : ¬ asUsize ptr < 2 ^ (64 - 1) := by
      have : asUsize ptr = (ptr + 2 ^ 64).toNat := by
        unfold asUsize
        congr 1
        omega
      omega
    by_contra hne
    exact hbig ((le_leadingZeros_iff (Nat.le_refl 1) (by omega)).mp (by omega))
  unfold iterLvl
  rw [isizeSub_of_inIsize ⟨by omega, by omega⟩, ok_bind, hlz]
  dsimp only
  rw [Nat.min_zero]
  rfl

/-- From address 0 on the level is the largest whose page fits and whose bits are there. -/
theorem iterLvl_of_nonneg (h0 : 0 ≤ ptr) (hhigh : acme ≤ 2 ^ 47) (hfits : Fits acme 1 ptr) :
    ∃ lvl, iterLvl ptr acme = .ok lvl ∧ 1 ≤ lvl ∧ lvl ≤ 4 ∧
      ∀ L, 1 ≤ L → L ≤ 5 → (L ≤ lvl ↔ Fits acme L ptr ∧ ptr < 2 ^ (61 - 9 * L)) := by
  unfold Fits at hfits
  have hone : (pageSize 1 : Int) = 4096 := rfl
  rw [hone] at hfits
  have hn : asUsize (acme - ptr) = (acme - ptr).toNat := asUsize_of_nonneg (by omega) (by omega)
  have hp : asUsize ptr = ptr.toNat := asUsize_of_nonneg h0 (by omega)
  have hlog : fastNon0Log2 (acme - ptr).toNat = (acme - ptr).toNat.log2 :=
    fastNon0Log2_eq (by omega) (by omega)
  -- both counts reach `9 * L + 3` under the conditions
  have hcount : ∀ L, 1 ≤ L → L ≤ 5 → (L * 9 + 3 ≤ min (acme - ptr).toNat.log2
      (leadingZeros ptr.toNat) ↔ Fits acme L ptr ∧ ptr < 2 ^ (61 - 9 * L)) := by
    intro L h1 h5
    rw [le_min_iff, Nat.le_log2 (by omega), le_leadingZeros_iff (by omega) (by omega),
      ← pageSize_eq, show 64 - (L * 9 + 3) = 61 - 9 * L by omega]
    unfold Fits
    refine and_congr (by omega) ?_
    rw [Int.toNat_lt h0]
    push_cast
    exact Iff.rfl
  have h12 : 12 ≤ min (acme - ptr).toNat.log2 (leadingZeros ptr.toNat) := by
    refine (hcount 1 (Nat.le_refl 1) (by omega)).mpr ⟨by unfold Fits; omega, ?_⟩
    norm_num
    omega
  unfold iterLvl
  rw [isizeSub_of_inIsize ⟨by omega, by omega⟩, ok_bind, hn, hp, hlog]
  dsimp only
  rw [usizeSub_of_le (by omega), ok_bind]
  refine ⟨_, rfl, by omega, ?_, ?_⟩
  · by_contra hc
    have := ((hcount 5 (by omega) (by omega)).mp (by omega)).1
    unfold Fits at this
    rw [show (pageSize 5 : Int) = 2 ^ 48 from rfl] at this
    omega
  · intro L h1 h5
    rw [← hcount L h1 h5]
    omega

/-- Where `map_offset` places a larger page. -/
theorem leafAt_iff_fits (h2 : 2 ≤ L) (h3 : L ≤ 3) (hacme : (PTE_SIZE : Int) ∣ acme) :
    LeafAt acme L ptr ↔ (pageSize L : Int) ∣ ptr ∧ Fits acme L ptr := by
  have hP : (PTE_SIZE : Int) ∣ pageSize L := pageSize_dvd_of (l := L) (by omega) (dvd_refl _)
  unfold LeafAt PT_LVL Fits
  constructor
  · intro h
    obtain h1 | ⟨hroom, hdvd, _⟩ := h
    · omega
    · refine ⟨hdvd, ?_⟩
      obtain ⟨c, hc⟩ := Int.dvd_sub hacme (Int.dvd_add (dvd_trans hP hdvd) hP)
      rw [show (PTE_SIZE : Int) = 4096 from rfl] at hc hroom
      omega
  · intro h
    have : (PTE_SIZE : Int) = 4096 := rfl
    exact .inr ⟨by omega, h.1, by omega⟩

/-- The level that `map_offset` gives the page at `ptr` is the largest that is aligned and
fits. -/
theorem le_placeLvl_self_iff (hacme : (PTE_SIZE : Int) ∣ acme) (h2 : 2 ≤ L) (h3 : L ≤ 3) :
    L ≤ placeLvl acme 4 ptr ptr ↔ (pageSize L : Int) ∣ ptr ∧ Fits acme L ptr := by
  have hself : placeLvl acme 4 ptr ptr = if LeafAt acme 3 ptr then 3
      else if LeafAt acme 2 ptr then 2 else 1 := by
    simp only [placeLvl, visit_eq]
    rw [if_neg (fun h => absurd h.le_three (by decide))]
    simp [LeafAt, PT_LVL]
  have hmono : LeafAt acme 3 ptr → LeafAt acme 2 ptr := by
    rw [leafAt_iff_fits (by omega) (by omega) hacme, leafAt_iff_fits (by omega) (by omega) hacme]
    intro h
    refine ⟨dvd_trans (pageSize_dvd (by omega)) h.1, ?_⟩
    have := h.2
    unfold Fits at this ⊢
    rw [show (pageSize 3 : Int) = 2 ^ 30 from rfl] at this
    rw [show (pageSize 2 : Int) = 2 ^ 21 from rfl]
    omega
  rw [← leafAt_iff_fits h2 h3 hacme, hself]
  obtain rfl | rfl : L = 2 ∨ L = 3 := by omega
  · by_cases h : LeafAt acme 3 ptr
    · simp [h, hmono h]
    · by_cases h' : LeafAt acme 2 ptr
      · simp [h, h']
      · simp [h, h']
  · by_cases h : LeafAt acme 3 ptr
    · simp [h]
    · by_cases h' : LeafAt acme 2 ptr
      · simp [h, h']
      · simp [h, h']

/-- The level of the first page. -/
theorem placeLvl_self_bounds (acme ptr : Int) :
    1 ≤ placeLvl acme 4 ptr ptr ∧ placeLvl acme 4 ptr ptr ≤ 3 := by
  simp only [placeLvl, visit_eq]
  rw [if_neg (fun h => absurd h.le_three (by decide))]
  split
  · omega
  split
  · omega
  · simp [LeafAt, PT_LVL]

end Levels

/-! ## Along the span -/

section Along

variable {acme base : Int}

/-- Where the address decides the level, up to 1 GiB pages, it agrees with the alignment: below
`2 ^ (61 - 9 * L)` the base is aligned, and no aligned page lies above. -/
structure Agrees (acme base : Int) (L : Nat) : Prop where
  low : Fits acme L base → base < 2 ^ (61 - 9 * L) → (pageSize L : Int) ∣ base
  high : ∀ p, (pageSize L : Int) ∣ p → base ≤ p → 2 ^ (61 - 9 * L) ≤ p → ¬ Fits acme L p

/-- At one address, the iterator finds the level of `map_offset`. -/
theorem iterLvl_eq_iff (h0 : 0 ≤ base) (hhigh : acme ≤ 2 ^ 47) (hacme : (PTE_SIZE : Int) ∣ acme)
    (hfits : Fits acme 1 base) :
    iterLvl base acme = .ok (placeLvl acme 4 base base) ↔
      (∀ L, 2 ≤ L → L ≤ 3 → Fits acme L base →
        (base < 2 ^ (61 - 9 * L) ↔ (pageSize L : Int) ∣ base)) ∧
      ¬ (Fits acme 4 base ∧ base < 2 ^ 25) := by
  obtain ⟨lvl, hlvl, h1, h4, hle⟩ := iterLvl_of_nonneg h0 hhigh hfits
  obtain ⟨hp1, hp3⟩ := placeLvl_self_bounds acme base
  have hplace : ∀ L, 2 ≤ L → L ≤ 3 →
      (L ≤ placeLvl acme 4 base base ↔ (pageSize L : Int) ∣ base ∧ Fits acme L base) :=
    fun L h2 h3 => le_placeLvl_self_iff hacme h2 h3
  rw [hlvl, Except.ok.injEq]
  constructor
  · intro heq
    subst heq
    refine ⟨?_, ?_⟩
    · intro L h2 h3 hf
      have ha := hle L (by omega) (by omega)
      have hb := hplace L h2 h3
      rw [and_iff_right hf] at ha
      rw [and_iff_left hf] at hb
      rw [← ha, hb]
    · intro hc
      have := (hle 4 (by omega) (by omega)).mpr hc
      omega
  · intro h
    obtain ⟨h23, hno⟩ := h
    have hlt4 : lvl < 4 := by
      by_contra hc
      exact hno ((hle 4 (by omega) (by omega)).mp (by omega))
    -- both levels pass the same thresholds
    have hsame : ∀ L, 2 ≤ L → L ≤ 3 → (L ≤ lvl ↔ L ≤ placeLvl acme 4 base base) := by
      intro L h2 h3
      rw [hle L (by omega) (by omega), hplace L h2 h3]
      constructor
      · exact fun h => ⟨(h23 L h2 h3 h.1).mp h.2, h.1⟩
      · exact fun h => ⟨h.2, (h23 L h2 h3 h.2).mpr h.1⟩
    have hs2 := hsame 2 (by omega) (by omega)
    have hs3 := hsame 3 (by omega) (by omega)
    omega

/-- If the address and the alignment agree from `base` on, they agree at `base`. -/
theorem Agrees.iterLvl (h0 : 0 ≤ base) (hhigh : acme ≤ 2 ^ 47) (hacme : (PTE_SIZE : Int) ∣ acme)
    (hfits : Fits acme 1 base) (h2 : Agrees acme base 2) (h3 : Agrees acme base 3) :
    iterLvl base acme = .ok (placeLvl acme 4 base base) := by
  rw [iterLvl_eq_iff h0 hhigh hacme hfits]
  have hone : ∀ L, Agrees acme base L → Fits acme L base →
      (base < 2 ^ (61 - 9 * L) ↔ (pageSize L : Int) ∣ base) := by
    intro L h hf
    refine ⟨h.low hf, ?_⟩
    intro hdvd
    by_contra hc
    exact h.high base hdvd (le_refl _) (by omega) hf
  refine ⟨?_, ?_⟩
  · intro L hL2 hL3
    obtain rfl | rfl : L = 2 ∨ L = 3 := by omega
    · exact hone 2 h2
    · exact hone 3 h3
  · intro hc
    -- the 1 GiB page at 16 GiB fits
    obtain ⟨hf, hlt⟩ := hc
    refine h3.high (2 ^ 34) (by decide) (by omega) (by norm_num) ?_
    unfold Fits at hf ⊢
    rw [show (pageSize 4 : Int) = 2 ^ 39 from rfl] at hf
    rw [show (pageSize 3 : Int) = 2 ^ 30 from rfl]
    omega

/-- The first page fits. -/
theorem fits_place (hacme : (PTE_SIZE : Int) ∣ acme) (hbase : (PTE_SIZE : Int) ∣ base)
    (hlt : base < acme) : Fits acme (placeLvl acme 4 base base) base := by
  obtain ⟨h1, h3⟩ := placeLvl_self_bounds acme base
  by_cases h2 : 2 ≤ placeLvl acme 4 base base
  · exact ((le_placeLvl_self_iff hacme h2 h3).mp (Nat.le_refl _)).2
  · rw [show placeLvl acme 4 base base = 1 by omega]
    obtain ⟨c, hc⟩ := Int.dvd_sub hacme hbase
    unfold Fits
    rw [show (PTE_SIZE : Int) = 4096 from rfl] at hc
    rw [show (pageSize 1 : Int) = 4096 from rfl]
    omega

/-- The iterator agrees at the next page too. -/
theorem Agrees.next {L : Nat} (hacme : (PTE_SIZE : Int) ∣ acme) (h2 : 2 ≤ L) (h3 : L ≤ 3)
    (h : Agrees acme base L) : Agrees acme (base + pageSize (placeLvl acme 4 base base)) L := by
  have hP := cast_pageSize_pos (placeLvl acme 4 base base)
  refine ⟨?_, fun p hp hle => h.high p hp (by omega)⟩
  intro hf hlt
  have hf' : Fits acme L base := by
    unfold Fits at hf ⊢
    omega
  have hdvd := h.low hf' (by omega)
  exact Int.dvd_add hdvd (pageSize_dvd ((le_placeLvl_self_iff hacme h2 h3).mpr ⟨hdvd, hf'⟩))

/-- One pass of the iterator. -/
theorem collect_succ {fuel : Nat} : IterMut.collect (fuel + 1) ⟨base, acme⟩ =
    if base < acme then do
      let lvl ← iterLvl base acme
      return (base, lvl) :: (← IterMut.collect fuel ⟨wrappingAdd base (pageSize lvl), acme⟩)
    else .ok [] := by
  rw [IterMut.collect, IterMut.next]
  by_cases h : base < acme
  · rw [if_pos h, if_pos h]
    cases iterLvl base acme with
    | error e => rfl
    | ok lvl => rfl
  · rw [if_neg h, if_neg h]
    rfl

/-- Pages that tile go up. -/
theorem PageTiles.lt_of_mem : ∀ {items : List (Int × Nat)} {base : Int}, PageTiles acme base items →
    ∀ p ∈ items, base ≤ p.1 := by
  intro items
  induction items with
  | nil => intro base _ p hp; cases hp
  | cons q items ih =>
    intro base h p hp
    obtain ⟨hq, hrest⟩ := h
    have hP := cast_pageSize_pos q.2
    obtain rfl | hp := List.mem_cons.mp hp
    · exact hq.ge
    · have := ih hrest p hp
      omega

/-- So they are in order. -/
theorem PageTiles.increasing :
    ∀ {items : List (Int × Nat)} {base : Int}, PageTiles acme base items →
    (items.map Prod.fst).Pairwise (· < ·) := by
  intro items
  induction items with
  | nil => intro base _; exact List.Pairwise.nil
  | cons q items ih =>
    intro base h
    obtain ⟨hq, hrest⟩ := h
    have hP := cast_pageSize_pos q.2
    rw [List.map_cons, List.pairwise_cons]
    refine ⟨?_, ih hrest⟩
    intro x hx
    obtain ⟨p, hp, rfl⟩ := List.mem_map.mp hx
    have := hrest.lt_of_mem p hp
    have : q.1 = base := hq
    omega

/-- The iterator from `base`. -/
def ExactFrom (acme base : Int) : Prop :=
  ∃ fuel items, IterMut.collect fuel ⟨base, acme⟩ = .ok items ∧ PageTiles acme base items ∧
    ∀ p ∈ items, 1 ≤ p.2 ∧ p.2 ≤ 3 ∧ p.2 = placeLvl acme 4 p.1 p.1

/-- An iterator is exact if it is so from its base on. -/
theorem iterExact_iff {m : Mapping} : IterExact m ↔ ExactFrom m.acme m.base := by
  constructor
  · intro h
    obtain ⟨fuel, items, hrun, htiles, _, hlvl⟩ := h
    exact ⟨fuel, items, hrun, htiles, hlvl⟩
  · intro h
    obtain ⟨fuel, items, hrun, htiles, hlvl⟩ := h
    exact ⟨fuel, items, hrun, htiles, htiles.increasing, hlvl⟩

/-- The next page does not wrap around. -/
theorem wrap_place (h0 : 0 ≤ base) (hhigh : acme ≤ 2 ^ 47) (hlt : base < acme) {lvl : Nat}
    (hl : lvl ≤ 3) : wrappingAdd base (pageSize lvl) = base + pageSize lvl :=
  InSpan.wrap ⟨by omega, hlt, hhigh⟩ (by omega)

/-- One page, and the iterator from its end. -/
theorem exactFrom_step (h0 : 0 ≤ base) (hhigh : acme ≤ 2 ^ 47) (hlt : base < acme) :
    ExactFrom acme base ↔ iterLvl base acme = .ok (placeLvl acme 4 base base) ∧
      ExactFrom acme (base + pageSize (placeLvl acme 4 base base)) := by
  obtain ⟨hb1, hb3⟩ := placeLvl_self_bounds acme base
  constructor
  · intro h
    obtain ⟨fuel, items, hrun, htiles, hlvl⟩ := h
    cases fuel with
    | zero => cases hrun
    | succ fuel =>
      rw [collect_succ, if_pos hlt] at hrun
      obtain ⟨lvl, hl, hrun⟩ := bind_ok hrun
      obtain ⟨rest, hrest, hret⟩ := bind_ok hrun
      cases hret
      have hp := (hlvl _ List.mem_cons_self).2.2
      have hp : lvl = placeLvl acme 4 base base := hp
      subst hp
      rw [wrap_place h0 hhigh hlt hb3] at hrest
      exact ⟨hl, fuel, rest, hrest, htiles.2, fun p hp => hlvl p (List.mem_cons_of_mem _ hp)⟩
  · intro h
    obtain ⟨hl, fuel, rest, hrest, htiles, hlvl⟩ := h
    refine ⟨fuel + 1, (base, placeLvl acme 4 base base) :: rest, ?_, ⟨rfl, htiles⟩, ?_⟩
    · rw [collect_succ, if_pos hlt, hl, ok_bind, wrap_place h0 hhigh hlt hb3, hrest]
      rfl
    · intro p hp
      obtain rfl | hp := List.mem_cons.mp hp
      · exact ⟨hb1, hb3, rfl⟩
      · exact hlvl p hp

/-- It is a page. -/
theorem dvd_next (hbase : (PTE_SIZE : Int) ∣ base) :
    (PTE_SIZE : Int) ∣ base + pageSize (placeLvl acme 4 base base) :=
  Int.dvd_add hbase (pageSize_dvd_of (placeLvl_self_bounds acme base).1 (dvd_refl _))

/-- The iterator is exact as long as addresses and alignments agree; by induction on the length
of the span. -/
theorem exactFrom_of_agrees (hhigh : acme ≤ 2 ^ 47) (hacme : (PTE_SIZE : Int) ∣ acme) :
    ∀ (n : Nat) {base : Int}, (acme - base).toNat ≤ n → 0 ≤ base → base ≤ acme →
      (PTE_SIZE : Int) ∣ base → Agrees acme base 2 → Agrees acme base 3 → ExactFrom acme base := by
  intro n
  induction n with
  | zero =>
    intro base hn h0 hle _ _ _
    have : base = acme := by omega
    subst this
    exact ⟨1, [], by rw [collect_succ, if_neg (lt_irrefl _)], rfl, fun p hp => by cases hp⟩
  | succ n ih =>
    intro base hn h0 hle hbase h2 h3
    obtain hlt | rfl := lt_or_eq_of_le hle
    · have hfits := fits_place hacme hbase hlt
      have hP := cast_pageSize_pos (placeLvl acme 4 base base)
      have hone : Fits acme 1 base := by
        have := Int.le_of_dvd hP (pageSize_dvd (placeLvl_self_bounds acme base).1)
        unfold Fits at hfits ⊢
        omega
      rw [exactFrom_step h0 hhigh hlt]
      refine ⟨h2.iterLvl h0 hhigh hacme hone h3, ?_⟩
      unfold Fits at hfits
      exact ih (by omega) (by omega) hfits (dvd_next hbase)
        (h2.next hacme (by omega) (by omega)) (h3.next hacme (by omega) (by omega))
    · exact ⟨1, [], by rw [collect_succ, if_neg (lt_irrefl _)], rfl, fun p hp => by cases hp⟩

/-- Inside of a page of level `l` no aligned page starts, unless the page is a smaller one. -/
theorem lt_of_inside {L l : Nat} {p : Int} (hdvd : (pageSize l : Int) ∣ base)
    (hp : (pageSize L : Int) ∣ p) (hlo : base < p) (hhi : p < base + pageSize l) : L < l := by
  by_contra hc
  have := Int.le_of_dvd (by omega) (Int.dvd_sub (dvd_trans (pageSize_dvd (by omega)) hp) hdvd)
  omega

/-- Conversely an exact iteration shows agreement on its way, page by page. -/
theorem agrees_of_exactFrom (hhigh : acme ≤ 2 ^ 47) (hacme : (PTE_SIZE : Int) ∣ acme) :
    ∀ (n : Nat) {base : Int}, (acme - base).toNat ≤ n → 0 ≤ base → base < acme →
      (PTE_SIZE : Int) ∣ base → ExactFrom acme base →
      ∀ L, 2 ≤ L → L ≤ 3 → Agrees acme base L := by
  intro n
  induction n with
  | zero =>
    intro base hn h0 hlt
    omega
  | succ n ih =>
    intro base hn h0 hlt hbase hex L hL2 hL3
    rw [exactFrom_step h0 hhigh hlt] at hex
    obtain ⟨hlvl, hrest⟩ := hex
    have hfits := fits_place hacme hbase hlt
    obtain ⟨hb1, hb3⟩ := placeLvl_self_bounds acme base
    have hP := cast_pageSize_pos (placeLvl acme 4 base base)
    have hone : Fits acme 1 base := by
      have := Int.le_of_dvd hP (pageSize_dvd hb1)
      unfold Fits at hfits ⊢
      omega
    -- the step at `base` is of the right level
    obtain ⟨hhere, _⟩ := (iterLvl_eq_iff h0 hhigh hacme hone).mp hlvl
    refine ⟨fun hf => (hhere L hL2 hL3 hf).mp, ?_⟩
    intro p hp hle hT hf
    have hPL := cast_pageSize_pos L
    unfold Fits at hf
    obtain hlt' | rfl := lt_or_eq_of_le hle
    · by_cases hnext : base + pageSize (placeLvl acme 4 base base) ≤ p
      · -- further on
        exact (ih (by omega) (by omega) (by omega) (dvd_next hbase) hrest L hL2 hL3).high p hp hnext
          hT hf
      · -- in the page at `base`, which is then of 1 GiB and too low
        have hdvd : (pageSize (placeLvl acme 4 base base) : Int) ∣ base := by
          by_cases h2 : 2 ≤ placeLvl acme 4 base base
          · exact ((le_placeLvl_self_iff hacme h2 hb3).mp (Nat.le_refl _)).1
          · rw [show placeLvl acme 4 base base = 1 by omega, pageSize_one]
            exact hbase
        have hl := lt_of_inside hdvd hp hlt' (by omega)
        have hthree : placeLvl acme 4 base base = 3 := by omega
        have hL : L = 2 := by omega
        subst hL
        rw [hthree] at hdvd hfits hnext
        have := (hhere 3 (by omega) (by omega) hfits).mpr hdvd
        rw [show (pageSize 3 : Int) = 2 ^ 30 from rfl] at hnext
        norm_num at this hT
        omega
    · have := (hhere L hL2 hL3 hf).mpr hp
      omega

end Along

/-! ## The mapping that `Mapper::map` returns -/

section Map

variable {γ : Type} {pageGetter : γ → Nat → Except Fault (Nat × γ)} {base acme : Int}
  {branches leaves : PTE} {pml4 : Nat} {s s' : Machine γ} {m : Mapping}

/-- A size that fits is rounded up. -/
theorem roundUpPage_of {size : Nat} (h : size + PTE_SIZE < 2 ^ 64) :
    roundUpPage size = .ok ((size + PTE_SIZE - 1) / PTE_SIZE * PTE_SIZE) := by
  unfold roundUpPage
  rw [usizeAdd_of_lt h, ok_bind, usizeSub_of_le (by unfold PTE_SIZE; omega), ok_bind]
  rw [show 2 ^ 64 - PTE_SIZE = 2 ^ 64 - 2 ^ 12 from rfl, and_not_low (by omega) (by omega),
    Nat.mul_comm]
  rfl

/-- A span of whole pages is mapped as it is given. -/
theorem mapperMap_mapping (hbase : (PTE_SIZE : Int) ∣ base) (hacme : (PTE_SIZE : Int) ∣ acme)
    (hlow : -2 ^ 47 ≤ base) (hlt : base < acme) (hhigh : acme ≤ 2 ^ 47)
    (h : mapperMap pageGetter base (acme - base).toNat branches leaves pml4 s = .ok (m, s')) :
    m = ⟨base, acme, pml4⟩ ∧
      mapOffset pageGetter acme branches leaves 4 base pml4 s = .ok s' := by
  obtain ⟨c, hc⟩ := Int.dvd_sub hacme hbase
  have hround : roundUpPage (acme - base).toNat = .ok (acme - base).toNat := by
    rw [show (PTE_SIZE : Int) = 4096 from rfl] at hc
    rw [roundUpPage_of (by unfold PTE_SIZE; omega)]
    unfold PTE_SIZE
    congr 1
    omega
  have hmask : maskDown base PTE_SIZE = base := by
    rw [show PTE_SIZE = 2 ^ 12 from rfl, maskDown_two_pow ⟨by omega, by omega⟩ (by omega)]
    exact Int.ediv_mul_cancel hbase
  have hwrap : wrappingAdd base (acme - base).toNat = acme := by
    rw [wrappingAdd_of_inIsize ⟨by omega, by omega⟩]
    omega
  unfold mapperMap at h
  obtain ⟨_, _, h⟩ := bind_ok h
  rw [hround, hmask, ok_bind] at h
  dsimp only at h
  rw [hwrap] at h
  obtain ⟨s₁, hrun, hret⟩ := bind_ok h
  cases hret
  exact ⟨rfl, hrun⟩

/-- `iter_pages` on the mapping of a span of one canonical half yields the pages that
`map_offset` puts there exactly if the span is in the lower half and, for 2 MiB and for 1 GiB,
alignment and address agree. -/
theorem iterPages_exact_iff (hbase : (PTE_SIZE : Int) ∣ base) (hacme : (PTE_SIZE : Int) ∣ acme)
    (hlow : -2 ^ 47 ≤ base) (hlt : base < acme) (hhigh : acme ≤ 2 ^ 47) (hhalf : OneHalf acme base)
    (h : mapperMap pageGetter base (acme - base).toNat branches leaves pml4 s = .ok (m, s')) :
    IterExact m ↔ 0 ≤ base ∧ ∀ L, 2 ≤ L → L ≤ 3 → Agrees acme base L := by
  obtain ⟨rfl, _⟩ := mapperMap_mapping hbase hacme hlow hlt hhigh h
  rw [iterExact_iff]
  show ExactFrom acme base ↔ _
  by_cases h0 : 0 ≤ base
  · rw [and_iff_right h0]
    constructor
    · exact agrees_of_exactFrom hhigh hacme _ (Nat.le_refl _) h0 hlt hbase
    · intro hag
      exact exactFrom_of_agrees hhigh hacme _ (Nat.le_refl _) h0 hlt.le hbase
        (hag 2 (by omega) (by omega)) (hag 3 (by omega) (by omega))
  · refine iff_of_false ?_ (fun hc => h0 hc.1)
    intro hex
    obtain ⟨fuel, items, hrun, _⟩ := hex
    cases fuel with
    | zero => cases hrun
    | succ fuel =>
      have hneg : acme ≤ 0 := hhalf.resolve_right h0
      rw [collect_succ, if_pos hlt, iterLvl_of_neg (by omega) hlow hlt hneg] at hrun
      cases hrun

/-- A page at the top of the upper half cannot be iterated over. -/
theorem iterPages_upper_underflow :
    ∃ m s', mapperMap bumpGetter (-0x1000) 0x1000 3 3 0x1000 emptyMachine = .ok (m, s') ∧
      m.iterPages.next = .error .underflow ∧ ¬ IterExact m := by
  obtain ⟨⟨m, s'⟩, hrun, hm⟩ := exists_ok (f := Prod.fst) (b := Mapping.mk (-0x1000) 0 0x1000)
    (show (mapperMap bumpGetter (-0x1000) 0x1000 3 3 0x1000 emptyMachine).toOption.map _ = _ by
      decide +kernel)
  cases hm
  refine ⟨_, s', hrun, by decide, ?_⟩
  intro h
  obtain ⟨fuel, items, hc, _⟩ := h
  cases fuel with
  | zero => cases hc
  | succ fuel => cases hc

/-- Two huge pages and a small one in the lower half. -/
theorem iterPages_exact_low :
    ∃ m s', mapperMap bumpGetter 0x200000 0x401000 3 3 0x1000 emptyMachine = .ok (m, s') ∧
      IterExact m := by
  obtain ⟨⟨m, s'⟩, hrun, _⟩ := exists_ok (f := fun _ => ()) (b := ())
    (show (mapperMap bumpGetter 0x200000 (0x601000 - 0x200000 : Int).toNat 3 3 0x1000
      emptyMachine).toOption.map _ = _ by decide +kernel)
  refine ⟨m, s', hrun, (iterPages_exact_iff (by decide) (by decide) (by decide) (by decide)
    (by decide) (.inr (by decide)) hrun).mpr ⟨by decide, ?_⟩⟩
  intro L hL2 hL3
  obtain rfl | rfl : L = 2 ∨ L = 3 := by omega
  · refine ⟨fun _ _ => by decide, ?_⟩
    intro p _ _ hT hf
    unfold Fits at hf
    rw [show (pageSize 2 : Int) = 2 ^ 21 from rfl] at hf
    norm_num at hT hf
    omega
  · refine ⟨fun hf _ => absurd hf (by unfold Fits; decide), ?_⟩
    intro p _ _ hT hf
    unfold Fits at hf
    rw [show (pageSize 3 : Int) = 2 ^ 30 from rfl] at hf
    norm_num at hT hf
    omega

end Map

end Tauos.Mapper
