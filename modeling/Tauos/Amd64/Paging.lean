import Mathlib.Data.Nat.Bitwise
import Tauos.Rust.Word

/-!
# Page tables of AMD64

`amd64/src/paging.rs`: entries (`PTE`), `page_size` and `table_index`, and the
walk of the processor through four levels of tables.

Physical memory is seen table by table: `Frames` gives the 512 entries of the
table at each physical address. `Uses mem lvl table f` says that `f` is the
address of `table` or of a table below it, and `Tree mem lvl table` that no
table is reached twice. Whatever is done to frames outside of `Uses` leaves the
walk alone (`walk_congr`); below one entry of a tree, the tables of the other
entries are such frames.
-/

namespace Tauos.Amd64

open Tauos.Rust

/-- The bits of a page table entry. -/
abbrev PTE := Nat

namespace PTE

/-- Present. -/
def P : PTE := 1 <<< 0

/-- Read/Write. -/
def RW : PTE := 1 <<< 1

/-- Page Write-Through. -/
def PWT : PTE := 1 <<< 3

/-- Page Cache Disable. -/
def PCD : PTE := 1 <<< 4

/-- Page Size: a leaf above level 1. -/
def PS : PTE := 1 <<< 7

/-- The same bit in a level 1 entry. -/
def PAT : PTE := 1 <<< 7

def PAT_PS : PTE := 1 <<< 12

/-- The bits of the physical address. -/
def BASE_MASK : PTE := 0o17_777_777_777_777_0000

/-- `self.contains(other)`. -/
def contains (self other : PTE) : Bool := self &&& other == other

/-- `PTE::from_paddr`. -/
def fromPaddr (paddr : Nat) : Except Fault PTE := do
  ensure (paddr &&& ((2 ^ 64 - 1) ^^^ BASE_MASK) == 0)
  return paddr

/-- `PTE::from_pat`. -/
def fromPat (patIdx : Nat) (isHpage : Bool) : PTE :=
  let pte := 0
  let pte := if patIdx &&& 1 <<< 0 ≠ 0 then pte ||| PWT else pte
  let pte := if patIdx &&& 1 <<< 1 ≠ 0 then pte ||| PCD else pte
  if patIdx &&& 1 <<< 2 ≠ 0 then
    if isHpage then pte ||| PAT_PS else pte ||| PAT
  else pte

/-- `self.get_paddr()`. -/
def getPaddr (self : PTE) : Nat := self &&& BASE_MASK

end PTE

def PT_LVL : Nat := 1

def PML4_LVL : Nat := 4

/-- 4 KiB. -/
def PTE_SIZE : Nat := 0x1000

/-- 1 GiB. -/
def PDPTE_SIZE : Nat := 0x40000000

/-- `page_size`. -/
def pageSize (lvl : Nat) : Nat := 0o10 <<< (lvl * 9)

/-- `table_index`. -/
def tableIndex (laddr : Int) (lvl : Nat) : Nat := asUsize (laddr >>> (lvl * 9 + 3)) &&& 0o777

/-- The entries of the table at a physical address. -/
abbrev Frames := Nat → Nat → PTE

/-- The entry points at a table of the next level. -/
def IsBranch (lvl : Nat) (pte : PTE) : Prop :=
  pte.contains PTE.P = true ∧ lvl ≠ 1 ∧ ¬ (pte.contains PTE.PS = true ∧ lvl < 4)

instance (lvl : Nat) (pte : PTE) : Decidable (IsBranch lvl pte) :=
  inferInstanceAs (Decidable (_ ∧ _))

/-- A translation: the leaf entry with its level, and the entries above it, whose flags
restrict the access as well. -/
structure Leaf where
  lvl : Nat
  pte : PTE
  above : List PTE
  deriving DecidableEq, Repr

/-- The frame of a leaf, whose address bits end at the page size. -/
def Leaf.frame (leaf : Leaf) : Nat := leaf.pte.getPaddr / pageSize leaf.lvl * pageSize leaf.lvl

/-- The walk of the processor from a table of level `lvl`. -/
def walk (mem : Frames) : Nat → Nat → Int → Option Leaf
  | 0, _, _ => none
  | lvl + 1, table, laddr =>
    let pte := mem table (tableIndex laddr (lvl + 1))
    if ¬ pte.contains PTE.P then none
    else if IsBranch (lvl + 1) pte then
      (walk mem lvl pte.getPaddr laddr).map fun leaf => { leaf with above := pte :: leaf.above }
    else some ⟨lvl + 1, pte, []⟩

/-- The physical address `laddr` is translated to. -/
def translate (mem : Frames) (lvl table : Nat) (laddr : Int) : Option Nat :=
  (walk mem lvl table laddr).map fun leaf =>
    leaf.frame + (laddr % pageSize leaf.lvl).toNat

/-! ## One entry of a walk -/

/-- A walk ends at a leaf. -/
theorem walk_leaf {mem : Frames} {lvl table : Nat} {a : Int} {e : PTE}
    (he : mem table (tableIndex a (lvl + 1)) = e) (hP : e.contains PTE.P = true)
    (hb : ¬ IsBranch (lvl + 1) e) : walk mem (lvl + 1) table a = some ⟨lvl + 1, e, []⟩ := by
  simp only [walk]
  rw [he, if_neg (by simp [hP]), if_neg hb]

/-- A walk goes on at a table. -/
theorem walk_branch {mem : Frames} {lvl table : Nat} {a : Int} {e : PTE}
    (he : mem table (tableIndex a (lvl + 1)) = e) (hb : IsBranch (lvl + 1) e) :
    walk mem (lvl + 1) table a =
      (walk mem lvl e.getPaddr a).map fun leaf => { leaf with above := e :: leaf.above } := by
  simp only [walk]
  rw [he, if_neg (by simp [hb.1]), if_pos hb]

/-- So does a translation. -/
theorem translate_branch {mem : Frames} {lvl table : Nat} {a : Int} {e : PTE}
    (he : mem table (tableIndex a (lvl + 1)) = e) (hb : IsBranch (lvl + 1) e) :
    translate mem (lvl + 1) table a = translate mem lvl e.getPaddr a := by
  unfold translate
  rw [walk_branch he hb, Option.map_map]
  rfl

/-! ## Arithmetic of levels -/

/-- The sizes of pages as powers of two. -/
theorem pageSize_eq (lvl : Nat) : pageSize lvl = 2 ^ (lvl * 9 + 3) := by
  unfold pageSize
  rw [Nat.shiftLeft_eq, Nat.pow_add, Nat.mul_comm]

/-- No page is empty. -/
theorem pageSize_pos (lvl : Nat) : 0 < pageSize lvl := by
  rw [pageSize_eq]
  exact Nat.two_pow_pos _

/-- A page is 512 pages of the level below. -/
theorem pageSize_succ (lvl : Nat) : pageSize (lvl + 1) = pageSize lvl * 512 := by
  rw [pageSize_eq, pageSize_eq, show (lvl + 1) * 9 + 3 = lvl * 9 + 3 + 9 by omega, Nat.pow_add]

theorem cast_pageSize_pos (lvl : Nat) : (0 : Int) < pageSize lvl := by
  exact_mod_cast pageSize_pos lvl

/-- The index is the number of the page in its table. -/
theorem tableIndex_eq (laddr : Int) (lvl : Nat) :
    (tableIndex laddr lvl : Int) = laddr / pageSize lvl % 512 := by
  have hmod := asUsize_emod (x := laddr >>> (lvl * 9 + 3)) (k := 9) (by norm_num)
  unfold tableIndex
  rw [Nat.and_two_pow_sub_one_eq_mod _ 9, pageSize_eq]
  rw [Int.shiftRight_eq_div_pow] at hmod ⊢
  push_cast at hmod ⊢
  exact hmod

/-- It is in the table. -/
theorem tableIndex_lt (laddr : Int) (lvl : Nat) : tableIndex laddr lvl < 512 := by
  have := tableIndex_eq laddr lvl
  have := Int.emod_lt_of_pos (laddr / pageSize lvl) (show (0 : Int) < 512 by norm_num)
  omega

/-- The region of a table of level `lvl`: the addresses with the same digits above. -/
def SameTable (lvl : Nat) (a b : Int) : Prop := a / pageSize (lvl + 1) = b / pageSize (lvl + 1)

/-- Addresses in the same table. -/
theorem sameTable_iff {lvl : Nat} {a b : Int} :
    SameTable lvl a b ↔ a / pageSize lvl / 512 = b / pageSize lvl / 512 := by
  unfold SameTable
  rw [pageSize_succ, Nat.cast_mul, ← Int.ediv_ediv_of_nonneg (cast_pageSize_pos lvl).le,
    ← Int.ediv_ediv_of_nonneg (cast_pageSize_pos lvl).le]
  exact Iff.rfl

/-- In one region, the index tells the entry. -/
theorem SameTable.index_eq_iff {lvl : Nat} {a b : Int} (h : SameTable lvl a b) :
    tableIndex a lvl = tableIndex b lvl ↔ a / pageSize lvl = b / pageSize lvl := by
  rw [sameTable_iff] at h
  have ha := tableIndex_eq a lvl
  have hb := tableIndex_eq b lvl
  constructor
  · intro hi
    rw [hi] at ha
    omega
  · intro hq
    rw [hq] at ha
    omega

/-- The next page has the next number. -/
theorem add_pageSize_ediv (a : Int) (lvl : Nat) :
    (a + pageSize lvl) / pageSize lvl = a / pageSize lvl + 1 := by
  rw [Int.add_ediv_of_dvd_right (dvd_refl _), Int.ediv_self (cast_pageSize_pos lvl).ne']

/-- The address a page further is in the next entry, unless the table ends. -/
theorem tableIndex_add {a : Int} {lvl : Nat} (h : tableIndex a lvl ≠ 511) :
    SameTable lvl a (a + pageSize lvl) ∧
      tableIndex (a + pageSize lvl) lvl = tableIndex a lvl + 1 := by
  have h1 := tableIndex_eq a lvl
  have h2 := tableIndex_eq (a + pageSize lvl) lvl
  rw [sameTable_iff]
  rw [add_pageSize_ediv] at h2 ⊢
  omega

/-- Nothing of the table is past its last entry. -/
theorem SameTable.last {a b : Int} {lvl : Nat} (h : SameTable lvl b a)
    (hlast : tableIndex b lvl = 511) (hle : b / pageSize lvl ≤ a / pageSize lvl) :
    a / pageSize lvl = b / pageSize lvl := by
  have := tableIndex_eq b lvl
  rw [sameTable_iff] at h
  omega

/-! ## Tables below a table -/

/-- `f` is the table or a table below it. -/
def Uses (mem : Frames) : Nat → Nat → Nat → Prop
  | 0, _, _ => False
  | lvl + 1, table, f => f = table ∨ ∃ i, i < 512 ∧ IsBranch (lvl + 1) (mem table i) ∧
      Uses mem lvl (mem table i).getPaddr f

/-- No table is reached twice. -/
def Tree (mem : Frames) : Nat → Nat → Prop
  | 0, _ => True
  | lvl + 1, table => ∀ i, i < 512 → IsBranch (lvl + 1) (mem table i) →
      Tree mem lvl (mem table i).getPaddr ∧ ¬ Uses mem lvl (mem table i).getPaddr table ∧
      ∀ j, j < 512 → j ≠ i → IsBranch (lvl + 1) (mem table j) →
        ∀ f, Uses mem lvl (mem table i).getPaddr f → ¬ Uses mem lvl (mem table j).getPaddr f

/-- `mem'` has the entries of `mem` in all tables from `table` down. -/
def Agree (mem mem' : Frames) (lvl table : Nat) : Prop :=
  ∀ f, Uses mem lvl table f → ∀ i, mem' f i = mem f i

section Agree

variable {mem mem' : Frames}

/-- A table is used. -/
theorem uses_self (mem : Frames) (lvl table : Nat) : Uses mem (lvl + 1) table table := Or.inl rfl

/-- So are those below it. -/
theorem Uses.below {lvl table i f : Nat} (hi : i < 512) (hb : IsBranch (lvl + 1) (mem table i))
    (h : Uses mem lvl (mem table i).getPaddr f) : Uses mem (lvl + 1) table f :=
  Or.inr ⟨i, hi, hb, h⟩

/-- Memories that agree have the same entries. -/
theorem Agree.entry {lvl table : Nat} (h : Agree mem mem' (lvl + 1) table) (i : Nat) :
    mem' table i = mem table i := h table (uses_self mem lvl table) i

/-- They agree on the tables below. -/
theorem Agree.below {lvl table i : Nat} (h : Agree mem mem' (lvl + 1) table) (hi : i < 512)
    (hb : IsBranch (lvl + 1) (mem table i)) : Agree mem mem' lvl (mem table i).getPaddr :=
  fun f hf => h f (Uses.below hi hb hf)

/-- A walk depends on the tables alone. -/
theorem walk_congr : ∀ (lvl : Nat) {table : Nat} (a : Int), Agree mem mem' lvl table →
    walk mem' lvl table a = walk mem lvl table a := by
  intro lvl
  induction lvl with
  | zero => intro table a _; rfl
  | succ lvl ih =>
    intro table a h
    simp only [walk]
    rw [h.entry]
    split
    · rfl
    split
    · next hb => rw [ih a (h.below (tableIndex_lt a _) hb)]
    · rfl

/-- So do the tables that are used. -/
theorem uses_congr : ∀ (lvl : Nat) {table : Nat}, Agree mem mem' lvl table → ∀ f,
    Uses mem' lvl table f ↔ Uses mem lvl table f := by
  intro lvl
  induction lvl with
  | zero => intro table _ f; exact Iff.rfl
  | succ lvl ih =>
    intro table h f
    simp only [Uses]
    refine or_congr_right (exists_congr fun i => and_congr_right fun hi => ?_)
    rw [h.entry]
    exact and_congr_right fun hb => ih (h.below hi hb) f

/-- And whether they are a tree. -/
theorem tree_congr : ∀ (lvl : Nat) {table : Nat}, Agree mem mem' lvl table →
    (Tree mem' lvl table ↔ Tree mem lvl table) := by
  intro lvl
  induction lvl with
  | zero => intro table _; exact Iff.rfl
  | succ lvl ih =>
    intro table h
    simp only [Tree]
    refine forall_congr' fun i => imp_congr_right fun hi => ?_
    rw [h.entry]
    refine imp_congr_right fun hb => ?_
    have hu := uses_congr lvl (h.below hi hb)
    rw [ih (h.below hi hb), hu]
    refine and_congr_right fun _ => and_congr_right fun _ => forall_congr' fun j =>
      imp_congr_right fun hj => imp_congr_right fun _ => ?_
    rw [h.entry]
    refine imp_congr_right fun hb' => forall_congr' fun f => ?_
    rw [hu, uses_congr lvl (h.below hj hb')]

/-- Entry `j` and all tables below it are as before. -/
def Kept (mem mem' : Frames) (lvl table j : Nat) : Prop :=
  mem' table j = mem table j ∧
    (IsBranch (lvl + 1) (mem table j) → Agree mem mem' lvl (mem table j).getPaddr)

/-- Memories that agree keep every entry. -/
theorem Agree.kept {lvl table j : Nat} (h : Agree mem mem' (lvl + 1) table) (hj : j < 512) :
    Kept mem mem' lvl table j := ⟨h.entry j, fun hb => h.below hj hb⟩

/-- A walk through an entry that is kept. -/
theorem Kept.walk_eq {lvl table : Nat} {a : Int}
    (h : Kept mem mem' lvl table (tableIndex a (lvl + 1))) :
    walk mem' (lvl + 1) table a = walk mem (lvl + 1) table a := by
  simp only [walk]
  rw [h.1]
  split
  · rfl
  split
  · next hb => rw [walk_congr lvl a (h.2 hb)]
  · rfl

/-- One entry of a tree is replaced, by a leaf or by a table with frames of its own. -/
theorem Tree.update {lvl table i : Nat} (htree : Tree mem (lvl + 1) table)
    (hkept : ∀ j, j < 512 → j ≠ i → Kept mem mem' lvl table j)
    (hsub : IsBranch (lvl + 1) (mem' table i) → Tree mem' lvl (mem' table i).getPaddr)
    (hown : IsBranch (lvl + 1) (mem' table i) → ∀ f, Uses mem' lvl (mem' table i).getPaddr f →
      f ≠ table ∧ ∀ j, j < 512 → j ≠ i → IsBranch (lvl + 1) (mem table j) →
        ¬ Uses mem lvl (mem table j).getPaddr f) :
    Tree mem' (lvl + 1) table := by
  intro j hj hbj
  by_cases hji : j = i
  · subst hji
    refine ⟨hsub hbj, fun hu => (hown hbj table hu).1 rfl, ?_⟩
    intro k hk hkj hbk f hf hf'
    obtain ⟨hk1, hk2⟩ := hkept k hk hkj
    rw [hk1] at hbk hf'
    exact (hown hbj f hf).2 k hk hkj hbk ((uses_congr lvl (hk2 hbk) f).mp hf')
  · obtain ⟨hj1, hj2⟩ := hkept j hj hji
    rw [hj1] at hbj ⊢
    obtain ⟨ht, hself, hdisj⟩ := htree j hj hbj
    have hagree := hj2 hbj
    refine ⟨(tree_congr lvl hagree).mpr ht, fun hu => hself ((uses_congr lvl hagree _).mp hu), ?_⟩
    intro k hk hkj hbk f hf hf'
    have hf := (uses_congr lvl hagree f).mp hf
    by_cases hki : k = i
    · subst hki
      exact (hown hbk f hf').2 j hj hji hbj hf
    · obtain ⟨hk1, hk2⟩ := hkept k hk hki
      rw [hk1] at hbk hf'
      exact hdisj k hk hkj hbk f hf ((uses_congr lvl (hk2 hbk) f).mp hf')

/-- Its tables are then those of the other entries and those of the new one. -/
theorem Uses.update {lvl table i f : Nat}
    (hkept : ∀ j, j < 512 → j ≠ i → Kept mem mem' lvl table j)
    (h : Uses mem' (lvl + 1) table f) :
    Uses mem (lvl + 1) table f ∨
      (IsBranch (lvl + 1) (mem' table i) ∧ Uses mem' lvl (mem' table i).getPaddr f) := by
  obtain rfl | ⟨j, hj, hb, hf⟩ := h
  · exact .inl (uses_self mem lvl f)
  by_cases hji : j = i
  · subst hji
    exact .inr ⟨hb, hf⟩
  · obtain ⟨hj1, hj2⟩ := hkept j hj hji
    rw [hj1] at hb hf
    exact .inl (Uses.below hj hb ((uses_congr lvl (hj2 hb) f).mp hf))

end Agree

/-! ## Empty tables -/

/-- An empty entry is not present. -/
theorem contains_zero : PTE.contains 0 PTE.P = false := by decide

/-- It is no table. -/
theorem not_isBranch_zero (lvl : Nat) : ¬ IsBranch lvl 0 := by
  intro h
  have := h.1
  rw [contains_zero] at this
  cases this

section Leaves

variable {mem : Frames} {table lvl : Nat} (h : ∀ i, ¬ IsBranch lvl (mem table i))
include h

/-- Without branches there is no table below. -/
theorem uses_leaves {f : Nat} (hu : Uses mem lvl table f) : f = table := by
  cases lvl with
  | zero => exact hu.elim
  | succ lvl =>
    obtain hf | ⟨i, _, hb, _⟩ := hu
    · exact hf
    · exact absurd hb (h i)

/-- And such a table is a tree. -/
theorem tree_leaves : Tree mem lvl table := by
  cases lvl with
  | zero => trivial
  | succ lvl => exact fun i _ hb => absurd hb (h i)

end Leaves

section Empty

variable {mem : Frames} {table : Nat} (h : ∀ i, mem table i = 0)
include h

/-- No entry of an empty table is a branch. -/
theorem not_isBranch_empty (lvl i : Nat) : ¬ IsBranch lvl (mem table i) := by
  rw [h]
  exact not_isBranch_zero lvl

/-- An empty table leads nowhere. -/
theorem uses_empty {lvl f : Nat} (hu : Uses mem lvl table f) : f = table :=
  uses_leaves (not_isBranch_empty h lvl) hu

/-- It is a tree. -/
theorem tree_empty (lvl : Nat) : Tree mem lvl table := tree_leaves (not_isBranch_empty h lvl)

/-- Nothing is found in an empty table. -/
theorem walk_empty (lvl : Nat) (a : Int) : walk mem lvl table a = none := by
  cases lvl with
  | zero => rfl
  | succ lvl =>
    simp only [walk]
    rw [h, contains_zero]
    rfl

end Empty

/-! ## Entries -/

/-- `contains` bit by bit. -/
theorem contains_iff {pte flags : PTE} :
    pte.contains flags = true ↔ ∀ i, flags.testBit i = true → pte.testBit i = true := by
  unfold PTE.contains
  rw [beq_iff_eq]
  constructor
  · intro h i hi
    rw [← h, Nat.testBit_and] at hi
    exact (Bool.and_eq_true _ _ ▸ hi).1
  · intro h
    apply Nat.eq_of_testBit_eq
    intro i
    rw [Nat.testBit_and]
    cases hi : flags.testBit i with
    | false => exact Bool.and_false _
    | true => rw [h i hi]; rfl

/-- Flags without an address have no bit of one. -/
theorem testBit_flags {flags : PTE} (h : flags &&& PTE.BASE_MASK = 0) (i : Nat) :
    (flags.testBit i && PTE.BASE_MASK.testBit i) = false := by
  rw [← Nat.testBit_and, h, Nat.zero_testBit]

/-- A single flag is a bit. -/
theorem contains_two_pow {pte k : Nat} : PTE.contains pte (2 ^ k) = pte.testBit k := by
  unfold PTE.contains
  rw [Nat.and_two_pow]
  cases h : pte.testBit k <;> simp [(Nat.two_pow_pos k).ne]

/-- The present flag is bit 0. -/
theorem contains_P {pte : PTE} : pte.contains PTE.P = pte.testBit 0 := contains_two_pow (k := 0)

theorem testBit_P (i : Nat) : PTE.P.testBit i = decide (0 = i) := Nat.testBit_two_pow (n := 0)

/-- The flag of large pages is bit 7. -/
theorem contains_PS {pte : PTE} : pte.contains PTE.PS = pte.testBit 7 := contains_two_pow (k := 7)

/-- The bits of an address. -/
theorem testBit_BASE_MASK (i : Nat) : PTE.BASE_MASK.testBit i = decide (12 ≤ i ∧ i < 52) := by
  have h : PTE.BASE_MASK = (2 ^ 40 - 1) <<< 12 := by decide
  rw [h, Nat.testBit_shiftLeft, Nat.testBit_two_pow_sub_one]
  by_cases h12 : 12 ≤ i
  · by_cases h52 : i < 52
    · simp [h12, h52]; omega
    · simp [h12, h52]; omega
  · simp [h12]

/-- The address of an entry is of a page. -/
theorem getPaddr_dvd (pte : PTE) : PTE_SIZE ∣ pte.getPaddr := by
  rw [Nat.dvd_iff_mod_eq_zero]
  apply Nat.eq_of_testBit_eq
  intro i
  rw [show PTE_SIZE = 2 ^ 12 from rfl, Nat.testBit_mod_two_pow, Nat.zero_testBit]
  unfold PTE.getPaddr
  rw [Nat.testBit_and, testBit_BASE_MASK]
  by_cases hi : i < 12
  · simp [Nat.not_le.mpr hi]
  · simp [hi]

/-- Tables are pages. -/
theorem Uses.dvd {mem : Frames} : ∀ (lvl : Nat) {table f : Nat}, PTE_SIZE ∣ table →
    Uses mem lvl table f → PTE_SIZE ∣ f := by
  intro lvl
  induction lvl with
  | zero => intro table f _ h; exact h.elim
  | succ lvl ih =>
    intro table f ht h
    obtain rfl | ⟨i, _, _, h⟩ := h
    · exact ht
    · exact ih (getPaddr_dvd _) h

/-- A leaf is at level 1 or above. -/
theorem walk_lvl_pos {mem : Frames} {a : Int} : ∀ (lvl : Nat) {table : Nat} {leaf : Leaf},
    walk mem lvl table a = some leaf → 1 ≤ leaf.lvl := by
  intro lvl
  induction lvl with
  | zero => intro table leaf h; cases h
  | succ lvl ih =>
    intro table leaf h
    simp only [walk] at h
    split at h
    · cases h
    split at h
    · obtain ⟨leaf', h', rfl⟩ := Option.map_eq_some_iff.mp h
      have hle : 1 ≤ leaf'.lvl := ih h'
      exact hle
    · cases h
      exact Nat.le_add_left 1 lvl

/-- A page address fits its bits. -/
theorem paddr_testBit {page i : Nat} (hal : PTE_SIZE ∣ page) (hlt : page < 2 ^ 52)
    (hi : page.testBit i = true) : 12 ≤ i ∧ i < 52 := by
  constructor
  · by_contra hcon
    obtain ⟨c, rfl⟩ := hal
    rw [show PTE_SIZE = 2 ^ 12 from rfl, Nat.mul_comm, Nat.testBit_mul_two_pow] at hi
    simp at hi
    omega
  · by_contra hcon
    have : page < 2 ^ i := Nat.lt_of_lt_of_le hlt (Nat.pow_le_pow_right (by norm_num) (by omega))
    rw [Nat.testBit_lt_two_pow this] at hi
    cases hi

/-- The entry for a page. -/
theorem fromPaddr_of {page : Nat} (hal : PTE_SIZE ∣ page) (hlt : page < 2 ^ 52) :
    PTE.fromPaddr page = .ok page := by
  have hzero : page &&& ((2 ^ 64 - 1) ^^^ PTE.BASE_MASK) = 0 := by
    apply Nat.eq_of_testBit_eq
    intro i
    rw [Nat.testBit_and, Nat.testBit_xor, Nat.testBit_two_pow_sub_one, testBit_BASE_MASK,
      Nat.zero_testBit]
    cases h : page.testBit i with
    | false => rfl
    | true =>
      obtain ⟨h1, h2⟩ := paddr_testBit hal hlt h
      have h64 : i < 64 := by omega
      simp [h1, h2, h64]
  unfold PTE.fromPaddr
  rw [hzero]
  rfl

/-- Flags leave the address of an entry alone. -/
theorem getPaddr_entry {page flags : PTE} (hal : PTE_SIZE ∣ page) (hlt : page < 2 ^ 52)
    (hmask : flags &&& PTE.BASE_MASK = 0) : PTE.getPaddr (PTE.P ||| page ||| flags) = page := by
  apply Nat.eq_of_testBit_eq
  intro i
  have hb := testBit_flags hmask i
  unfold PTE.getPaddr
  rw [Nat.testBit_and, Nat.testBit_or, Nat.testBit_or, testBit_P]
  rw [testBit_BASE_MASK] at hb ⊢
  cases h : page.testBit i with
  | true =>
    have := paddr_testBit hal hlt h
    simp [this]
  | false =>
    by_cases hi : 12 ≤ i ∧ i < 52
    · have h0 : 0 ≠ i := by omega
      simp [hi] at hb
      simp [hb, h0]
    · simp [hi]

/-- The entry for a new table: present, not a leaf, with the address of the table. -/
theorem branch_entry {lvl page branches : Nat} (hlvl : 1 < lvl) (hal : PTE_SIZE ∣ page)
    (hlt : page < 2 ^ 52) (hmask : branches &&& PTE.BASE_MASK = 0)
    (hps : branches.testBit 7 = false) :
    IsBranch lvl (PTE.P ||| page ||| branches) ∧
      PTE.getPaddr (PTE.P ||| page ||| branches) = page := by
  refine ⟨⟨?_, by omega, fun hc => ?_⟩, getPaddr_entry hal hlt hmask⟩
  · rw [contains_P, Nat.testBit_or, Nat.testBit_or, testBit_P]
    rfl
  · have h7 := hc.1
    rw [contains_PS, Nat.testBit_or, Nat.testBit_or, testBit_P, hps] at h7
    have : page.testBit 7 = true := by simpa using h7
    have := paddr_testBit hal hlt this
    omega

end Tauos.Amd64
