import Tauos.Mapper.MapSpan

/-!
# Which pages of the span `map_offset` maps

The base that a level starts from keeps its offset below the page size of the
level in every entry, so that a page whose own offset is smaller is skipped:
`hit_iff` says that the pages hit are those of the span that no level skips.
Nothing is skipped exactly when for each of 2 MiB, 1 GiB and 512 GiB the base
is a multiple or the span ends by the next multiple (`noneSkipped_iff`).
-/

namespace Tauos.Mapper

open Tauos.Rust Tauos.Amd64

/-! ## Pages hit -/

section Closed

variable {acme base a : Int} {lvl L : Nat}

theorem visit_emod : visit lvl base a % pageSize lvl = base % pageSize lvl := by
  unfold visit
  exact Int.add_mul_emod_self_right _ _ _

theorem visit_ediv : visit lvl base a / pageSize lvl = a / pageSize lvl := by
  unfold visit
  rw [Int.add_mul_ediv_right _ _ (cast_pageSize_pos lvl).ne']
  ring

theorem pageSize_dvd (h : L ≤ lvl) : (pageSize L : Int) ∣ pageSize lvl := by
  rw [pageSize_eq, pageSize_eq]
  push_cast
  exact pow_dvd_pow 2 (by omega)

theorem visit_emod_of_le (h : L ≤ lvl) : visit lvl base a % pageSize L = base % pageSize L := by
  rw [← Int.emod_emod_of_dvd _ (pageSize_dvd h), visit_emod,
    Int.emod_emod_of_dvd _ (pageSize_dvd h)]

/-- Addresses with the same quotient are ordered as their remainders are. -/
theorem le_iff_emod_le {x y P : Int} (h : x / P = y / P) : x ≤ y ↔ x % P ≤ y % P := by
  have hx := Int.mul_ediv_add_emod x P
  have hy := Int.mul_ediv_add_emod y P
  rw [h] at hx
  omega

theorem ediv_le_ediv_iff {x y P : Int} (hP : 0 < P) (h : x % P ≤ y % P) :
    x / P ≤ y / P ↔ x ≤ y := by
  constructor
  · intro hq
    have hx := Int.mul_ediv_add_emod x P
    have hy := Int.mul_ediv_add_emod y P
    have := Int.mul_le_mul_of_nonneg_left hq hP.le
    omega
  · exact fun hle => Int.ediv_le_ediv hP hle

/-- Some level stands past the page. -/
def Skipped (base a : Int) : Prop := ∃ L, 2 ≤ L ∧ L ≤ 4 ∧ a % pageSize L < base % pageSize L

theorem pageSize_dvd_of {l : Nat} {x : Int} (h1 : 1 ≤ l) (h : (pageSize l : Int) ∣ x) :
    (PTE_SIZE : Int) ∣ x := by
  rw [← pageSize_one]
  exact dvd_trans (pageSize_dvd h1) h

/-- A huge leaf ends with the last page of the span or before. -/
theorem lt_of_leafAt (ha : (PTE_SIZE : Int) ∣ a) (h2 : 2 ≤ lvl) (hleaf : LeafAt acme lvl base)
    (hq : base / pageSize lvl = a / pageSize lvl) : a < acme := by
  obtain h1 | ⟨hroom, hdvd, _⟩ := hleaf
  · unfold PT_LVL at h1
    omega
  have hP := cast_pageSize_pos lvl
  have hbase : base / pageSize lvl * pageSize lvl = base := Int.ediv_mul_cancel hdvd
  have halt : a < (a / pageSize lvl + 1) * pageSize lvl := Int.lt_ediv_add_one_mul_self a hP
  rw [← hq, add_mul, one_mul, hbase] at halt
  have hend : (PTE_SIZE : Int) ∣ base + pageSize lvl - a :=
    Int.dvd_sub (pageSize_dvd_of (by omega) (Int.dvd_add hdvd (dvd_refl _))) ha
  have hle := Int.le_of_dvd (by omega) hend
  have : (PTE_SIZE : Int) = 4096 := rfl
  omega

/-- A page is hit when it is in the span and no level has a greater offset. -/
theorem hit_iff_emod (ha : (PTE_SIZE : Int) ∣ a) : ∀ (lvl : Nat) {base : Int},
    (PTE_SIZE : Int) ∣ base → (Hit acme (lvl + 1) base a ↔
      base / pageSize (lvl + 1) ≤ a / pageSize (lvl + 1) ∧ a < acme ∧
        ∀ L, 2 ≤ L → L ≤ lvl + 1 → base % pageSize L ≤ a % pageSize L) := by
  intro lvl
  induction lvl with
  | zero =>
    intro base hbase
    have hvisit : visit 1 base a = a := by
      rw [← pageSize_one] at ha hbase
      unfold visit
      rw [sub_mul, Int.ediv_mul_cancel ha, Int.ediv_mul_cancel hbase]
      ring
    simp only [Hit, LeafAt, PT_LVL, zero_add, true_or, and_true, hvisit]
    refine and_congr_right fun _ => (and_iff_left ?_).symm
    intro L h2 h1
    omega
  | succ lvl ih =>
    intro base hbase
    have hP := cast_pageSize_pos (lvl + 1)
    have hemod : ∀ L, L ≤ lvl + 2 → visit (lvl + 2) base a % pageSize L = base % pageSize L :=
      fun L hL => visit_emod_of_le hL
    have hvdvd : (PTE_SIZE : Int) ∣ visit (lvl + 2) base a := by
      rw [Int.dvd_iff_emod_eq_zero, ← pageSize_one, hemod 1 (by omega), pageSize_one]
      exact Int.emod_eq_zero_of_dvd hbase
    have hlow : (∀ L, 2 ≤ L → L ≤ lvl + 1 → base % pageSize L ≤ a % pageSize L) →
        visit (lvl + 2) base a % pageSize (lvl + 1) ≤ a % pageSize (lvl + 1) := by
      intro h
      rw [hemod _ (by omega)]
      by_cases h1 : lvl = 0
      · subst h1
        rw [pageSize_one, Int.emod_eq_zero_of_dvd ha, Int.emod_eq_zero_of_dvd hbase]
      · exact h _ (by omega) (Nat.le_refl _)
    have htop : visit (lvl + 2) base a ≤ a ↔
        base % pageSize (lvl + 2) ≤ a % pageSize (lvl + 2) := by
      rw [le_iff_emod_le visit_ediv, visit_emod]
    rw [Hit]
    refine and_congr_right fun hq => ?_
    constructor
    · intro h
      obtain ⟨hlt, hleaf | hhit⟩ := h
      · refine ⟨lt_of_leafAt ha (by omega) hleaf visit_ediv, ?_⟩
        -- the base of an aligned leaf has no offset at all
        intro L h2 hL
        obtain h1 | ⟨_, hdvd, _⟩ := hleaf
        · unfold PT_LVL at h1
          omega
        · have h0 := Int.emod_eq_zero_of_dvd (dvd_trans (pageSize_dvd hL) hdvd)
          rw [hemod L hL] at h0
          rw [h0]
          exact Int.emod_nonneg _ (cast_pageSize_pos L).ne'
      · obtain ⟨hq', hlt', hrest⟩ := (ih hvdvd).mp hhit
        have hrest' : ∀ L, 2 ≤ L → L ≤ lvl + 1 → base % pageSize L ≤ a % pageSize L := by
          intro L h2 hL
          rw [← hemod L (by omega)]
          exact hrest L h2 hL
        refine ⟨hlt', fun L h2 hL => ?_⟩
        obtain rfl | hL' := Nat.eq_or_lt_of_le hL
        · exact htop.mp ((ediv_le_ediv_iff hP (hlow hrest')).mp hq')
        · exact hrest' L h2 (by omega)
    · intro h
      obtain ⟨hlt, hall⟩ := h
      have hle := htop.mpr (hall _ (by omega) (Nat.le_refl _))
      refine ⟨lt_of_le_of_lt hle hlt, .inr ((ih hvdvd).mpr ⟨Int.ediv_le_ediv hP hle, hlt, ?_⟩)⟩
      intro L h2 hL
      rw [hemod L (by omega)]
      exact hall L h2 (by omega)

/-- The pages that the call maps: those of the span that no level skips. -/
theorem hit_iff (ha : (PTE_SIZE : Int) ∣ a) (hbase : (PTE_SIZE : Int) ∣ base) :
    Hit acme 4 base a ↔ base ≤ a ∧ a < acme ∧ ¬ Skipped base a := by
  rw [hit_iff_emod ha 3 hbase]
  have hskip : (∀ L, 2 ≤ L → L ≤ 3 + 1 → base % pageSize L ≤ a % pageSize L) ↔
      ¬ Skipped base a := by
    constructor
    · intro h hs
      obtain ⟨L, h2, h4, hlt⟩ := hs
      have := h L h2 h4
      omega
    · intro h L h2 h4
      by_contra hc
      exact h ⟨L, h2, h4, by omega⟩
  rw [hskip]
  refine and_congr_left fun hn => ?_
  have := ediv_le_ediv_iff (cast_pageSize_pos 4)
    (hskip.mpr hn.2 4 (by omega) (by omega))
  exact this

/-- The span crosses no boundary of a level that its base is not aligned to. -/
def Aligned (acme base : Int) : Prop :=
  ∀ L, 2 ≤ L → L ≤ 4 → (pageSize L : Int) ∣ base ∨ acme ≤ (base / pageSize L + 1) * pageSize L

theorem noneSkipped_iff :
    (∀ a, (PTE_SIZE : Int) ∣ a → base ≤ a → a < acme → ¬ Skipped base a) ↔ Aligned acme base := by
  constructor
  · intro h L h2 h4
    have hP := cast_pageSize_pos L
    by_contra hc
    rw [not_or] at hc
    obtain ⟨hdvd, hlt⟩ := hc
    -- the boundary itself is skipped
    have hle := (Int.lt_ediv_add_one_mul_self base hP).le
    refine h _ (pageSize_dvd_of (l := L) (by omega) (Dvd.intro_left _ rfl)) hle (by omega)
      ⟨L, h2, h4, ?_⟩
    rw [Int.mul_emod_left]
    have h0 := Int.emod_nonneg base hP.ne'
    have hne : base % pageSize L ≠ 0 := fun h => hdvd (Int.dvd_of_emod_eq_zero h)
    omega
  · intro h a ha hle hlt hs
    obtain ⟨L, h2, h4, hmod⟩ := hs
    have hP := cast_pageSize_pos L
    obtain hdvd | hend := h L h2 h4
    · rw [Int.emod_eq_zero_of_dvd hdvd] at hmod
      have := Int.emod_nonneg a hP.ne'
      omega
    · have hq : base / pageSize L = a / pageSize L := by
        have h1 := Int.ediv_le_ediv hP hle
        have h2 : a / pageSize L < base / pageSize L + 1 :=
          Int.ediv_lt_of_lt_mul hP (by omega)
        omega
      have := (le_iff_emod_le hq).mp hle
      omega

end Closed

/-! ## Huge pages in the way -/

section Huge

variable {acme base a : Int} {lvl L table : Nat} {mem : Frames}

theorem walk_lvl_le : ∀ (lvl : Nat) {table : Nat} {leaf : Leaf}, walk mem lvl table a = some leaf →
    leaf.lvl ≤ lvl := by
  intro lvl
  induction lvl with
  | zero => intro table leaf h; cases h
  | succ lvl ih =>
    intro table leaf h
    simp only [walk] at h
    split at h
    · cases h
    split at h
    · obtain ⟨leaf', h', rfl⟩ := Option.map_eq_some_iff.mp h
      have hle : leaf'.lvl ≤ lvl := ih h'
      exact Nat.le_succ_of_le hle
    · cases h
      exact Nat.le_refl _

theorem placeLvl_le : ∀ (lvl : Nat) {base : Int}, placeLvl acme lvl base a ≤ lvl := by
  intro lvl
  induction lvl with
  | zero => intro base; exact Nat.le_refl 0
  | succ lvl ih =>
    intro base
    rw [placeLvl]
    split
    · exact Nat.le_refl _
    · exact Nat.le_succ_of_le ih

/-- A level meets the address it stands at. -/
theorem hit_self (hlt : base < acme) : ∀ (lvl : Nat), Hit acme (lvl + 1) base base := by
  intro lvl
  induction lvl with
  | zero =>
    refine ⟨le_refl _, ?_, .inl (.inl rfl)⟩
    rw [visit_eq rfl]
    exact hlt
  | succ lvl ih =>
    rw [Hit, visit_eq rfl]
    exact ⟨le_refl _, hlt, .inr ih⟩

/-- No followed entry is a huge page when no page is replaced by smaller ones. -/
theorem open_iff_walk : ∀ (lvl : Nat) {table : Nat} {base : Int}, (PTE_SIZE : Int) ∣ base →
    (Open acme mem lvl table base ↔ ∀ a, (PTE_SIZE : Int) ∣ a → SameTable lvl base a →
      Hit acme lvl base a → ∀ leaf, walk mem lvl table a = some leaf →
      leaf.lvl ≤ placeLvl acme lvl base a) := by
  intro lvl
  induction lvl with
  | zero =>
    intro table base _
    refine iff_of_true trivial ?_
    intro a _ _ h
    exact h.elim
  | succ lvl ih =>
    intro table base hbase
    have hP : (PTE_SIZE : Int) ∣ (pageSize (lvl + 1) : Int) :=
      pageSize_dvd_of (l := lvl + 1) (by omega) (dvd_refl _)
    constructor
    · intro hopen a ha hs hhit leaf hw
      obtain ⟨hq, hlt, hhit⟩ := hhit
      rw [placeLvl]
      generalize hc : visit (lvl + 1) base a = c at hlt hhit ⊢
      have hca : c / pageSize (lvl + 1) = a / pageSize (lvl + 1) := hc ▸ visit_ediv
      have hcb : (pageSize (lvl + 1) : Int) ∣ c - base := by
        rw [← hc, visit, add_sub_cancel_left]
        exact Dvd.intro_left _ rfl
      have hsc : SameTable (lvl + 1) base c := by
        rw [sameTable_iff] at hs ⊢
        rw [hs, hca]
      have hidx : tableIndex a (lvl + 1) = tableIndex c (lvl + 1) :=
        (SameTable.index_eq_iff (hs.symm.trans hsc)).mpr hca.symm
      by_cases hleaf : LeafAt acme (lvl + 1) c
      · rw [if_pos hleaf]
        exact walk_lvl_le (lvl + 1) hw
      · rw [if_neg hleaf]
        have hdc : (PTE_SIZE : Int) ∣ c := by
          have := Int.dvd_add (dvd_trans hP hcb) hbase
          rwa [sub_add_cancel] at this
        have hopen := hopen c (hc ▸ le_visit hq) hcb hlt hsc hleaf
        simp only [walk] at hw
        rw [hidx] at hw
        split at hw
        · cases hw
        next hpres =>
        obtain ⟨hb, hopen⟩ := hopen (by simpa using hpres)
        rw [if_pos hb] at hw
        obtain ⟨leaf', hw', rfl⟩ := Option.map_eq_some_iff.mp hw
        exact (ih hdc).mp hopen a ha hca (hhit.resolve_left hleaf) leaf' hw'
    · intro h c hle hdvd hlt hs hleaf hpres
      have hdc : (PTE_SIZE : Int) ∣ c := by
        have := Int.dvd_add (dvd_trans hP hdvd) hbase
        rwa [sub_add_cancel] at this
      have hbc : base / pageSize (lvl + 1) ≤ c / pageSize (lvl + 1) :=
        Int.ediv_le_ediv (cast_pageSize_pos _) hle
      -- the loop stands at `c` in every entry of the page of `c`
      have hvisit : ∀ a, a / pageSize (lvl + 1) = c / pageSize (lvl + 1) →
          visit (lvl + 1) base a = c := by
        intro a ha
        have hk := Int.emod_eq_emod_iff_emod_sub_eq_zero.mpr (Int.emod_eq_zero_of_dvd hdvd)
        have h1 := Int.mul_ediv_add_emod c (pageSize (lvl + 1))
        have h2 := Int.mul_ediv_add_emod base (pageSize (lvl + 1))
        unfold visit
        rw [ha, sub_mul, mul_comm (c / _), mul_comm (base / _)]
        omega
      have hl : lvl ≠ 0 := fun h0 => hleaf (.inl (by rw [h0]; rfl))
      obtain ⟨l, rfl⟩ := Nat.exists_eq_succ_of_ne_zero hl
      have hb : IsBranch (l + 2) (mem table (tableIndex c (l + 2))) := by
        by_contra hnb
        have hhit : Hit acme (l + 2) base c := by
          rw [Hit, hvisit c rfl]
          exact ⟨hbc, hlt, .inr (hit_self hlt l)⟩
        have hle : l + 2 ≤ placeLvl acme (l + 2) base c :=
          h c hdc hs hhit _ (walk_leaf rfl hpres hnb)
        rw [placeLvl, hvisit c rfl, if_neg hleaf] at hle
        have : placeLvl acme (l + 1) c c ≤ l + 1 := placeLvl_le (l + 1)
        omega
      refine ⟨hb, (ih hdc).mpr ?_⟩
      intro a ha hsa hhit leaf hw
      have hsa' : SameTable (l + 2) base a := by
        rw [sameTable_iff] at hs ⊢
        rw [hs]
        exact congrArg (· / 512) hsa
      have hidx : tableIndex a (l + 2) = tableIndex c (l + 2) :=
        (SameTable.index_eq_iff (hsa'.symm.trans hs)).mpr hsa.symm
      have hhit' : Hit acme (l + 2) base a := by
        rw [Hit, hvisit a hsa.symm]
        exact ⟨hbc.trans (le_of_eq hsa), hlt, .inr hhit⟩
      have hw' : walk mem (l + 2) table a = some { leaf with
          above := mem table (tableIndex c (l + 2)) :: leaf.above } := by
        rw [walk_branch (by rw [hidx]) hb, hw]
        rfl
      have := h a ha hsa' hhit' _ hw'
      rwa [placeLvl, hvisit a hsa.symm, if_neg hleaf] at this

/-- The page of level `lvl` around `a` lies in the span. -/
def Inside (acme base : Int) (lvl : Nat) (a : Int) : Prop :=
  base ≤ a / pageSize lvl * pageSize lvl ∧
    a / pageSize lvl * pageSize lvl + pageSize lvl ≤ acme + PTE_SIZE - 1

/-- All of a leaf lies in the span. -/
theorem inside_of_le : ∀ (lvl : Nat) {base : Int},
    (PTE_SIZE : Int) ∣ base → Hit acme lvl base a → L ≤ placeLvl acme lvl base a →
    Inside acme base L a := by
  intro lvl
  induction lvl with
  | zero =>
    intro base _ h
    exact h.elim
  | succ lvl ih =>
    intro base hbase hhit hL
    obtain ⟨hq, hlt, hhit⟩ := hhit
    rw [placeLvl] at hL
    have hbc := le_visit hq
    have hdc : (PTE_SIZE : Int) ∣ visit (lvl + 1) base a := by
      rw [Int.dvd_iff_emod_eq_zero, ← pageSize_one, visit_emod_of_le (by omega), pageSize_one]
      exact Int.emod_eq_zero_of_dvd hbase
    by_cases hleaf : LeafAt acme (lvl + 1) (visit (lvl + 1) base a)
    · rw [if_pos hleaf] at hL
      have hca : visit (lvl + 1) base a / pageSize (lvl + 1) = a / pageSize (lvl + 1) := visit_ediv
      generalize visit (lvl + 1) base a = c at hlt hhit hbc hdc hleaf hca
      -- the page of level `L` lies in the leaf at `c`
      have hcdvd : (pageSize (lvl + 1) : Int) ∣ c := by
        obtain h0 | h := hleaf
        · have : lvl = 0 := by unfold PT_LVL at h0; omega
          subst this
          rw [pageSize_one]
          exact hdc
        · exact h.2.1
      have hroom : c + pageSize (lvl + 1) ≤ acme + PTE_SIZE - 1 := by
        obtain h0 | h := hleaf
        · have : lvl = 0 := by unfold PT_LVL at h0; omega
          subst this
          rw [pageSize_one]
          omega
        · have := h.1
          omega
      have hPL := cast_pageSize_pos L
      have hP := cast_pageSize_pos (lvl + 1)
      have hcL := dvd_trans (pageSize_dvd hL) hcdvd
      have hceq : a / pageSize (lvl + 1) * pageSize (lvl + 1) = c := by
        rw [← hca]
        exact Int.ediv_mul_cancel hcdvd
      have hlo : c ≤ a := hceq ▸ Int.ediv_mul_le a hP.ne'
      have hhi : a < c + pageSize (lvl + 1) := by
        have := Int.lt_ediv_add_one_mul_self a hP
        rwa [add_mul, one_mul, hceq] at this
      constructor
      · refine hbc.trans ?_
        rw [← Int.ediv_mul_cancel hcL]
        exact Int.mul_le_mul_of_nonneg_right (Int.ediv_le_ediv hPL hlo) hPL.le
      · refine le_trans ?_ hroom
        have hend := Int.dvd_add hcL (pageSize_dvd hL)
        have hlt' : a / pageSize L + 1 ≤ (c + pageSize (lvl + 1)) / pageSize L := by
          have : a / pageSize L < (c + pageSize (lvl + 1)) / pageSize L :=
            Int.ediv_lt_of_lt_mul hPL (by rw [Int.ediv_mul_cancel hend]; exact hhi)
          omega
        have := Int.mul_le_mul_of_nonneg_right hlt' hPL.le
        rwa [Int.ediv_mul_cancel hend, add_mul, one_mul] at this
    · rw [if_neg hleaf] at hL
      obtain ⟨h1, h2⟩ := ih hdc (hhit.resolve_left hleaf) hL
      exact ⟨hbc.trans h1, h2⟩

/-- Where the base is aligned to a page that fits, the leaf is at least that large. -/
theorem le_placeLvl (h3 : L ≤ 3)
    (hroom : a / pageSize L * pageSize L + pageSize L ≤ acme + PTE_SIZE - 1) :
    ∀ (lvl : Nat) {base : Int}, L ≤ lvl → (pageSize L : Int) ∣ base →
      L ≤ placeLvl acme lvl base a := by
  intro lvl
  induction lvl with
  | zero =>
    intro base hL _
    omega
  | succ lvl ih =>
    intro base hL hdvd
    have hc : (pageSize L : Int) ∣ visit (lvl + 1) base a := by
      rw [Int.dvd_iff_emod_eq_zero, visit_emod_of_le hL]
      exact Int.emod_eq_zero_of_dvd hdvd
    rw [placeLvl]
    split
    · exact hL
    next hleaf =>
    obtain rfl | hL' := Nat.eq_or_lt_of_le hL
    · refine absurd (.inr ⟨?_, hc, by omega⟩) hleaf
      have := Int.ediv_mul_cancel hc
      rw [visit_ediv] at this
      omega
    · exact ih (by omega) hc

/-- In an aligned span, a leaf is as large as every page around its address that fits. -/
theorem Aligned.le_placeLvl (h : Aligned acme base) (hbase : (PTE_SIZE : Int) ∣ base) (h1 : 1 ≤ L)
    (h4 : L ≤ 4) (hlt : a < acme) (hin : Inside acme base L a) (h3 : L ≤ 3) :
    L ≤ placeLvl acme 4 base a := by
  have hP := cast_pageSize_pos L
  refine Mapper.le_placeLvl h3 hin.2 4 h4 ?_
  obtain rfl | h2 : L = 1 ∨ 2 ≤ L := by omega
  · rw [pageSize_one]
    exact hbase
  obtain hdvd | hend := h L h2 h4
  · exact hdvd
  -- otherwise the page would start before the base
  by_contra hnd
  have hle := Int.ediv_mul_le a hP.ne'
  have hq : base / pageSize L = a / pageSize L := by
    have h1 := Int.ediv_le_ediv hP (hin.1.trans hle)
    have h2 : a / pageSize L < base / pageSize L + 1 := Int.ediv_lt_of_lt_mul hP (by omega)
    omega
  have hstart := hin.1
  rw [← hq] at hstart
  have hback := Int.ediv_mul_le base hP.ne'
  exact hnd (Dvd.intro_left _ (le_antisymm hback hstart))

end Huge

end Tauos.Mapper
