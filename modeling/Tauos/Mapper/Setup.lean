import Tauos.Mapper.EntryOffset
import Tauos.Memm.Rebase
import Tauos.Memm.Run

/-!
# `Mapper::setup`

`kernel/src/memm/mod.rs`: what `setup` does with the memory map. The largest region is to
hold the first page tables, behind them the status data of the physical allocator, and what
is left of it is released; all other regions are released as they are. What it writes to
the tables, and the registers, are left out, except which gigabytes it maps at the offset:
`release` asks for memory that is readable and writable, and the tables for pointers that are
not null.

`page_getter_offset` starts at the base of the region, rounded up, and is added to that base
again. So the pages are taken from twice the base on, and `free_mem` is behind them. What is in
front of them is lost, and at base 0 the first of them is written to through a null pointer.

> `setup_returns_iff`: the maps that `setup` returns for.
> `setup_never_accounts`: for none of them every page is used once.

The arena starts at the second page of physical memory, so it is not naturally aligned. Its
blocks are those of the arena that starts one page earlier (`Memm.Rebase`).
-/

namespace Tauos.Mapper

open Tauos.Rust Tauos.Amd64 Tauos.Memm Tauos.Buddy

/-- An item of the memory map. -/
structure MemRegion where
  base : Nat
  size : Nat
  deriving DecidableEq, Repr

/-- The region in the offset mapping. -/
def MemRegion.slice (r : MemRegion) : Slice := ⟨r.base + PHYS_LADDR_OFFSET, r.size⟩

/-- `Iterator::max_by_key(|e| e.1)`: of several largest regions the last one. -/
def maxBySize : List MemRegion → Option MemRegion
  | [] => none
  | r :: rest => some (rest.foldl (fun lgst e => if lgst.size ≤ e.size then e else lgst) r)

/-- `Option::unwrap`. -/
def unwrap {α : Type} : Option α → Except Fault α
  | some a => .ok a
  | none => .error .assertion

/-- `page_getter`: the page, and `page_getter_offset` after the call. -/
def pageGetter (lgstBlk : MemRegion) (pageGetterOffset : Nat) : Except Fault (Nat × Nat) := do
  let o := pageGetterOffset
  let pageGetterOffset ← usizeAdd pageGetterOffset PTE_SIZE
  return (← usizeAdd lgstBlk.base o, pageGetterOffset)

/-- `offset_map_table`: the first `gigs` huge pages, as far as the table goes. -/
def offsetMapTable (gigs : Nat) : List (Option Nat) :=
  (List.range 512).map fun i => if i < gigs then some (i * PDPTE_SIZE) else none

/-- The gigabytes that the slice reaches into are mapped. -/
def offsetMaps (table : List (Option Nat)) (mem : Slice) : Bool :=
  decide (PHYS_LADDR_OFFSET ≤ mem.ptr) &&
    (List.range' (frameOf mem.ptr / PDPTE_SIZE)
      ((frameOf mem.ptr + mem.len + PDPTE_SIZE - 1) / PDPTE_SIZE - frameOf mem.ptr / PDPTE_SIZE)).all
      fun i => (table.getD i none).isSome

/-- The contract of `Talloc::new` and `release`: the memory is readable and writable. -/
def ensureMapped (table : List (Option Nat)) (mem : Slice) : Except Fault Unit :=
  if offsetMaps table mem then .ok () else .error .undefined

/-- `page_getter() as *mut PTE`, and a write to the table: the pointer must not be null. -/
def ensureTable (page : Nat) : Except Fault Unit :=
  if page = 0 then .error .undefined else .ok ()

/-- The last loop of `setup`. -/
def releaseAll (table : List (Option Nat)) (lgstBase : Nat) :
    List MemRegion → Talloc FreeLists → Except Fault (Talloc FreeLists)
  | [], t => .ok t
  | r :: rest, t =>
    if r.base = lgstBase then releaseAll table lgstBase rest t
    else do
      let mem : Slice := ⟨← fromPhysAddr r.base, r.size⟩
      ensureMapped table mem
      let t ← t.release mem
      releaseAll table lgstBase rest t

/-- What `setup` has made of the memory map: the pages of `page_getter`, `free_mem` and the
allocator. -/
structure Outcome where
  tables : List Nat
  freeMem : Slice
  talloc : Talloc FreeLists

/-- `Mapper::setup`. -/
def setup (mmap : List MemRegion) : Except Fault Outcome := do
  let last ← unwrap mmap.getLast?
  let hiPhysAddr ← usizeAdd last.base last.size
  let lgstBlk ← unwrap (maxBySize mmap)
  -- `lgst_blk.0 + PTE_SIZE-1 & !(PTE_SIZE-1)`
  let ceiled := (← usizeAdd lgstBlk.base PTE_SIZE) - 1
  let pageGetterOffset := ceiled - ceiled % PTE_SIZE
  let (pml4, pageGetterOffset) ← pageGetter lgstBlk pageGetterOffset
  ensureTable pml4
  let (lastPdpt, pageGetterOffset) ← pageGetter lgstBlk pageGetterOffset
  ensureTable lastPdpt
  let (offsetPdpt, pageGetterOffset) ← pageGetter lgstBlk pageGetterOffset
  ensureTable offsetPdpt
  let offsetMapTable := offsetMapTable (((← usizeAdd hiPhysAddr PDPTE_SIZE) - 1) / PDPTE_SIZE)
  let freeMem : Slice := ⟨← fromPhysAddr (← usizeAdd lgstBlk.base pageGetterOffset),
    ← usizeSub lgstBlk.size pageGetterOffset⟩
  ensureMapped offsetMapTable freeMem
  let talloc ← Talloc.new (← fromPhysAddr PTE_SIZE) hiPhysAddr PTE_SIZE freeMem
  let talloc ← releaseAll offsetMapTable lgstBlk.base mmap talloc
  return ⟨[pml4, lastPdpt, offsetPdpt], freeMem, talloc⟩

/-! ## What it should be -/

/-- Ascending regions of whole pages that do not overlap. -/
structure MemoryMap (mmap : List MemRegion) : Prop where
  some : mmap ≠ []
  ascending : mmap.Pairwise fun r r' => r.base + r.size ≤ r'.base
  pages : ∀ r ∈ mmap, PTE_SIZE ∣ r.base ∧ PTE_SIZE ∣ r.size ∧ 0 < r.size

/-- Where the last region ends. -/
def memEnd (mmap : List MemRegion) : Nat := (mmap.getLast?.map fun r => r.base + r.size).getD 0

/-- The page at the physical address `p` is in the slice. -/
def HoldsPage (mem : Slice) (p : Nat) : Prop :=
  mem.ptr ≤ p + PHYS_LADDR_OFFSET ∧ p + PTE_SIZE + PHYS_LADDR_OFFSET ≤ mem.ptr + mem.len

instance (mem : Slice) (p : Nat) : Decidable (HoldsPage mem p) :=
  inferInstanceAs (Decidable (_ ∧ _))

/-- The page at `p` holds some of the first `n` bytes of the slice. -/
def TouchesPage (mem : Slice) (n p : Nat) : Prop :=
  mem.ptr < p + PTE_SIZE + PHYS_LADDR_OFFSET ∧ p + PHYS_LADDR_OFFSET < mem.ptr + n

instance (mem : Slice) (n p : Nat) : Decidable (TouchesPage mem n p) :=
  inferInstanceAs (Decidable (_ ∧ _))

/-- The bytes of `free_mem` that `Talloc::new` keeps, for status data of the given lengths. -/
def keptBytes (freeMem : Slice) (status : Nat × Nat) : Nat :=
  Talloc.llAlignOffset freeMem + status.1 + status.2

/-- The regions that the loop of `setup` releases. -/
def others (lgst : MemRegion) (mmap : List MemRegion) : List MemRegion :=
  mmap.filter fun r => r.base ≠ lgst.base

/-- The slices given to `release`: by `Talloc::new` the rest of `free_mem`, and all regions but
the largest. -/
def releases (mmap : List MemRegion) (lgst : MemRegion) (freeMem : Slice) (status : Nat × Nat) :
    List Slice :=
  ⟨freeMem.ptr + keptBytes freeMem status, freeMem.len - keptBytes freeMem status⟩ ::
    (others lgst mmap).map MemRegion.slice

/-- How often the page at `p` is used: as a table, for status data, or by being released. -/
def Outcome.uses (o : Outcome) (mmap : List MemRegion) (lgst : MemRegion) (status : Nat × Nat)
    (p : Nat) : Nat :=
  o.tables.count p + (if TouchesPage o.freeMem (keptBytes o.freeMem status) p then 1 else 0)
    + (releases mmap lgst o.freeMem status).countP fun mem => decide (HoldsPage mem p)

/-- The tables and `free_mem` are apart and in the largest region, every page of the map has
exactly one use, and the pages that were released are those the allocator has free. -/
structure Outcome.Accounts (o : Outcome) (mmap : List MemRegion) (lgst : MemRegion)
    (status : Nat × Nat) : Prop where
  aligned : ∀ p ∈ o.tables, PTE_SIZE ∣ p
  distinct : o.tables.Nodup
  inside : ∀ p ∈ o.tables, lgst.base ≤ p ∧ p + PTE_SIZE ≤ lgst.base + lgst.size
  memInside : lgst.base + PHYS_LADDR_OFFSET ≤ o.freeMem.ptr ∧
    o.freeMem.ptr + o.freeMem.len ≤ (lgst.base + lgst.size : Nat) + PHYS_LADDR_OFFSET
  apart : ∀ p ∈ o.tables, ∀ x, o.freeMem.Mem x →
    ¬ (p + PHYS_LADDR_OFFSET ≤ x ∧ x < p + PTE_SIZE + PHYS_LADDR_OFFSET)
  once : ∀ r ∈ mmap, ∀ p, PTE_SIZE ∣ p → r.base ≤ p → p < r.base + r.size →
    o.uses mmap lgst status p = 1
  free : ∀ p, PTE_SIZE ∣ p → ∀ i, i < PTE_SIZE →
    (o.talloc.Free (p + i + PHYS_LADDR_OFFSET) ↔
      ∃ mem ∈ releases mmap lgst o.freeMem status, HoldsPage mem p)

/-- `setup` returns, and every page of the map is accounted for. -/
def SetupAccounts (mmap : List MemRegion) (lgst : MemRegion) : Prop :=
  ∃ o status, setup mmap = .ok o ∧ sliceBytes (memEnd mmap) PTE_SIZE = .ok status ∧
    o.Accounts mmap lgst status

/-- The largest region has room for the three tables and, behind the padding, the status data. -/
def HasRoom (mmap : List MemRegion) (lgst : MemRegion) : Prop :=
  ∀ status, sliceBytes (memEnd mmap) PTE_SIZE = .ok status →
    3 * PTE_SIZE + nodeSize + status.1 + status.2 ≤ lgst.size

/-! ## The memory map -/

section Map

variable {mmap : List MemRegion} {lgst r r' : MemRegion}

/-- The fold picks one of the regions. -/
theorem foldl_max_mem {rest : List MemRegion} : ∀ {r : MemRegion},
    rest.foldl (fun lgst e => if lgst.size ≤ e.size then e else lgst) r ∈ r :: rest := by
  induction rest with
  | nil =>
    intro r
    exact List.mem_singleton.mpr rfl
  | cons e rest ih =>
    intro r
    show rest.foldl _ (if r.size ≤ e.size then e else r) ∈ _
    split
    · exact List.mem_cons_of_mem _ ih
    · rcases List.mem_cons.mp (ih (r := r)) with h | h
      · rw [h]
        exact List.mem_cons_self ..
      · exact List.mem_cons_of_mem _ (List.mem_cons_of_mem _ h)

/-- The largest region is one of the map. -/
theorem maxBySize_mem (h : maxBySize mmap = some lgst) : lgst ∈ mmap := by
  cases mmap with
  | nil => cases h
  | cons r rest =>
    cases h
    exact foldl_max_mem

/-- Two regions are the same one, or do not overlap. -/
theorem MemoryMap.eq_or_apart (h : MemoryMap mmap) (hr : r ∈ mmap) (hr' : r' ∈ mmap) :
    r = r' ∨ r.base + r.size ≤ r'.base ∨ r'.base + r'.size ≤ r.base := by
  have hpairs : mmap.Pairwise fun e e' =>
      e = e' ∨ e.base + e.size ≤ e'.base ∨ e'.base + e'.size ≤ e.base :=
    h.ascending.imp fun hlt => .inr (.inl hlt)
  exact List.Pairwise.forall_of_forall_of_flip (fun _ _ => .inl rfl) hpairs
    (hpairs.imp fun he => he.imp Eq.symm Or.symm) hr hr'

/-- They do not if they start at different addresses. -/
theorem MemoryMap.apart (h : MemoryMap mmap) (hr : r ∈ mmap) (hr' : r' ∈ mmap)
    (hne : r.base ≠ r'.base) : r.base + r.size ≤ r'.base ∨ r'.base + r'.size ≤ r.base :=
  (h.eq_or_apart hr hr').resolve_left fun he => hne (congrArg MemRegion.base he)

/-- A region is known by its base. -/
theorem MemoryMap.eq_of_base (h : MemoryMap mmap) (hr : r ∈ mmap) (hr' : r' ∈ mmap)
    (he : r.base = r'.base) : r = r' := by
  refine (h.eq_or_apart hr hr').resolve_right fun hapart => ?_
  have := (h.pages r hr).2.2
  have := (h.pages r' hr').2.2
  omega

/-- No region ends behind the last one. -/
theorem MemoryMap.end_le (h : MemoryMap mmap) (hr : r ∈ mmap) : r.base + r.size ≤ memEnd mmap := by
  have hasc := h.ascending
  clear h
  induction mmap generalizing r with
  | nil => cases hr
  | cons e rest ih =>
    obtain ⟨hhead, htail⟩ := List.pairwise_cons.mp hasc
    cases rest with
    | nil =>
      rw [List.mem_singleton.mp hr]
      exact Nat.le_refl _
    | cons e' rest =>
      have hend : memEnd (e :: e' :: rest) = memEnd (e' :: rest) := by
        unfold memEnd
        rw [List.getLast?_cons_cons]
      rw [hend]
      rcases List.mem_cons.mp hr with rfl | hr
      · have h1 := hhead e' (List.mem_cons_self ..)
        have h2 := ih (List.mem_cons_self ..) htail
        omega
      · exact ih hr htail

/-- The last region ends where the map does. -/
theorem getLast_memEnd (hm : MemoryMap mmap) : ∃ r, mmap.getLast? = some r ∧ r ∈ mmap ∧
    memEnd mmap = r.base + r.size := by
  refine ⟨mmap.getLast hm.some, List.getLast?_eq_some_getLast hm.some, List.getLast_mem _, ?_⟩
  unfold memEnd
  rw [List.getLast?_eq_some_getLast hm.some]
  rfl

/-- The pages of a region that is released. -/
theorem holdsPage_slice {p : Nat} :
    HoldsPage r.slice p ↔ r.base ≤ p ∧ p + PTE_SIZE ≤ r.base + r.size := by
  unfold HoldsPage MemRegion.slice
  dsimp only
  omega

/-- A page that starts in a region of whole pages ends in it. -/
theorem MemoryMap.page_le (h : MemoryMap mmap) (hr : r ∈ mmap) {p : Nat} (hp : PTE_SIZE ∣ p)
    (hlt : p < r.base + r.size) : p + PTE_SIZE ≤ r.base + r.size := by
  obtain ⟨hbase, hsize, _⟩ := h.pages r hr
  unfold PTE_SIZE at *
  omega

/-- One region of the map holds a page of it. -/
theorem countP_page {p : Nat} (hasc : mmap.Pairwise fun r r' => r.base + r.size ≤ r'.base)
    (hr : r ∈ mmap) (hp : HoldsPage r.slice p) :
    (mmap.map MemRegion.slice).countP (fun mem => decide (HoldsPage mem p)) = 1 := by
  have hpage : 0 < PTE_SIZE := by decide
  have hin := holdsPage_slice.mp hp
  induction mmap with
  | nil => cases hr
  | cons e rest ih =>
    obtain ⟨hhead, htail⟩ := List.pairwise_cons.mp hasc
    rw [List.map_cons, List.countP_cons]
    rcases List.mem_cons.mp hr with rfl | hmem
    · -- the regions behind it start behind the page
      have hrest : (rest.map MemRegion.slice).countP (fun mem => decide (HoldsPage mem p)) = 0 := by
        rw [List.countP_eq_zero]
        intro mem hmem
        obtain ⟨r', hr', rfl⟩ := List.mem_map.mp hmem
        have := hhead r' hr'
        rw [decide_eq_true_eq, holdsPage_slice]
        omega
      rw [hrest, if_pos (decide_eq_true hp)]
    · have hout : ¬ HoldsPage e.slice p := by
        have := hhead r hmem
        rw [holdsPage_slice]
        omega
      rw [ih htail hmem, if_neg (by rw [decide_eq_true_eq]; exact hout)]

end Map

/-! ## The offset mapping -/

section Mapped

variable {gigs : Nat} {mem : Slice}

/-- The entries of the table that are set. -/
theorem offsetMapTable_isSome (i : Nat) :
    ((offsetMapTable gigs).getD i none).isSome = true ↔ i < 512 ∧ i < gigs := by
  unfold offsetMapTable
  rw [List.getD_eq_getElem?_getD, List.getElem?_map]
  by_cases hi : i < 512
  · rw [List.getElem?_range hi]
    by_cases hg : i < gigs
    · simp [hi, hg]
    · simp [hg]
  · rw [List.getElem?_eq_none (by rw [List.length_range]; omega)]
    simp [hi]

/-- All gigabytes of a slice are mapped. -/
theorem offsetMaps_iff : offsetMaps (offsetMapTable gigs) mem = true ↔ PHYS_LADDR_OFFSET ≤ mem.ptr ∧
    ∀ i, frameOf mem.ptr / PDPTE_SIZE ≤ i →
      i < (frameOf mem.ptr + mem.len + PDPTE_SIZE - 1) / PDPTE_SIZE → i < 512 ∧ i < gigs := by
  unfold offsetMaps
  rw [Bool.and_eq_true, decide_eq_true_eq, List.all_eq_true]
  refine and_congr_right fun _ => ⟨fun h i h1 h2 => ?_, fun h i hi => ?_⟩
  · exact (offsetMapTable_isSome i).mp (h i (by rw [List.mem_range'_1]; omega))
  · rw [List.mem_range'_1] at hi
    exact (offsetMapTable_isSome i).mpr (h i hi.1 (by omega))

/-- The table maps 512 GiB at most. -/
theorem le_of_offsetMaps (h : offsetMaps (offsetMapTable gigs) mem = true) (hlen : 0 < mem.len) :
    frameOf mem.ptr + mem.len ≤ 2 ^ 39 := by
  obtain ⟨_, h⟩ := offsetMaps_iff.mp h
  have hgig : PDPTE_SIZE = 2 ^ 30 := rfl
  rw [hgig] at h
  have := h ((frameOf mem.ptr + mem.len + 2 ^ 30 - 1) / 2 ^ 30 - 1) (by omega) (by omega)
  omega

/-- Memory below the end of the map is mapped, within 512 GiB. -/
theorem offsetMaps_of_le {r : MemRegion} {hi : Nat} (hle : r.base + r.size ≤ hi)
    (hhi : hi ≤ 2 ^ 39) :
    offsetMaps (offsetMapTable ((hi + PDPTE_SIZE - 1) / PDPTE_SIZE)) r.slice = true := by
  have hgig : PDPTE_SIZE = 2 ^ 30 := rfl
  have hframe : frameOf r.slice.ptr = r.base := frameOf_add r.base
  refine offsetMaps_iff.mpr ⟨?_, fun i _ h2 => ?_⟩
  · show PHYS_LADDR_OFFSET ≤ r.base + PHYS_LADDR_OFFSET
    omega
  · rw [hframe, show r.slice.len = r.size from rfl, hgig] at h2
    rw [hgig]
    omega

/-- An address of the offset mapping, if it is not below it. -/
theorem fromPhysAddr_ok {p : Nat} {ptr : Int} (h : fromPhysAddr p = .ok ptr) (hp : p < 2 ^ 64)
    (hlo : PHYS_LADDR_OFFSET ≤ ptr) : ptr = p + PHYS_LADDR_OFFSET := by
  obtain ⟨heq, _⟩ := isizeAdd_ok h
  rw [heq] at hlo ⊢
  by_cases hlt : p < 2 ^ 63
  · rw [asIsize_of_lt hlt]
  · -- the address is negative as an `isize`
    have hneg : asIsize p = p - 2 ^ 64 := by
      unfold asIsize
      rw [show (p : Int) = (p - 2 ^ 64) + (2 ^ 64 : Nat) by push_cast; omega, Int.add_bmod_right,
        bmod_of_inIsize ⟨by omega, by omega⟩]
      push_cast
      omega
    omega

end Mapped

/-! ## What `setup` returns -/

section Returned

variable {mmap : List MemRegion} {lgst : MemRegion} {o : Outcome}

/-- The page is at the offset from the base of the region. -/
theorem pageGetter_ok {offset page next : Nat} (h : pageGetter lgst offset = .ok (page, next)) :
    page = lgst.base + offset ∧ next = offset + PTE_SIZE := by
  obtain ⟨_, hoffset, h⟩ := bind_ok h
  obtain ⟨_, hpage, h⟩ := bind_ok h
  cases h
  exact ⟨(usizeAdd_ok hpage).2, (usizeAdd_ok hoffset).2⟩

/-- What passes the contract is mapped. -/
theorem ensureMapped_ok {table : List (Option Nat)} {mem : Slice} {u : Unit}
    (h : ensureMapped table mem = .ok u) : offsetMaps table mem = true := by
  unfold ensureMapped at h
  split at h
  · assumption
  · cases h

/-- The table is not at address 0. -/
theorem ensureTable_ok {page : Nat} {u : Unit} (h : ensureTable page = .ok u) : page ≠ 0 := by
  unfold ensureTable at h
  split at h
  · cases h
  · assumption

/-- There was a value to unwrap. -/
theorem unwrap_ok {α : Type} {o : Option α} {a : α} (h : unwrap o = .ok a) : o = some a := by
  cases o with
  | none => cases h
  | some b =>
    cases h
    rfl

/-- `free_mem`, behind the three pages that are taken from twice the base on. -/
def freeMemOf (lgst : MemRegion) : Slice :=
  ⟨(2 * lgst.base + 3 * PTE_SIZE : Nat) + PHYS_LADDR_OFFSET, lgst.size - (lgst.base + 3 * PTE_SIZE)⟩

/-- The pages are taken from twice the base of the region on, and `free_mem` is behind them. -/
theorem setup_ok (h : setup mmap = .ok o) (hl : maxBySize mmap = some lgst)
    (hpage : PTE_SIZE ∣ lgst.base) :
    0 < lgst.base ∧ memEnd mmap < 2 ^ 64 ∧
    o.tables = [2 * lgst.base, 2 * lgst.base + PTE_SIZE, 2 * lgst.base + 2 * PTE_SIZE] ∧
    lgst.base + 3 * PTE_SIZE ≤ lgst.size ∧ o.freeMem = freeMemOf lgst ∧
    ∃ gigs t, offsetMaps (offsetMapTable gigs) o.freeMem = true ∧
      Talloc.new (PHYS_LADDR_OFFSET + 2 ^ 12) (memEnd mmap) PTE_SIZE o.freeMem = .ok t ∧
      releaseAll (offsetMapTable gigs) lgst.base mmap t = .ok o.talloc := by
  -- every step has returned; what each returned is collected first
  obtain ⟨last, hlast, h⟩ := bind_ok h
  obtain ⟨hi, hhi, h⟩ := bind_ok h
  obtain ⟨lgst', hl', h⟩ := bind_ok h
  rw [hl] at hl'
  cases hl'
  obtain ⟨sum, hsum, h⟩ := bind_ok h
  obtain ⟨_, rfl⟩ := usizeAdd_ok hsum
  have hceiled : lgst.base + PTE_SIZE - 1 - (lgst.base + PTE_SIZE - 1) % PTE_SIZE = lgst.base := by
    unfold PTE_SIZE at *
    omega
  dsimp only at h
  rw [hceiled] at h
  obtain ⟨⟨pml4, o₁⟩, h1, h⟩ := bind_ok h
  obtain ⟨_, hpml4, h⟩ := bind_ok h
  obtain ⟨⟨lastPdpt, o₂⟩, h2, h⟩ := bind_ok h
  obtain ⟨_, _, h⟩ := bind_ok h
  obtain ⟨⟨offsetPdpt, o₃⟩, h3, h⟩ := bind_ok h
  obtain ⟨_, _, h⟩ := bind_ok h
  obtain ⟨rfl, rfl⟩ := pageGetter_ok h1
  obtain ⟨rfl, rfl⟩ := pageGetter_ok h2
  obtain ⟨rfl, rfl⟩ := pageGetter_ok h3
  obtain ⟨gigs, _, h⟩ := bind_ok h
  obtain ⟨start, hstart, h⟩ := bind_ok h
  obtain ⟨ptr, hptr, h⟩ := bind_ok h
  obtain ⟨len, hlen, h⟩ := bind_ok h
  obtain ⟨_, hmaps, h⟩ := bind_ok h
  obtain ⟨base, hbase, h⟩ := bind_ok h
  obtain ⟨t, hnew, h⟩ := bind_ok h
  obtain ⟨t', hrel, h⟩ := bind_ok h
  cases h
  have hmapped := ensureMapped_ok hmaps
  obtain ⟨hlt, rfl⟩ := usizeAdd_ok hstart
  obtain ⟨hle, hlen⟩ := usizeSub_ok hlen
  obtain ⟨hhi', rfl⟩ := usizeAdd_ok hhi
  have hend : memEnd mmap = last.base + last.size := by
    unfold memEnd
    rw [unwrap_ok hlast]
    rfl
  rw [fromPhysAddr_of_lt (show PTE_SIZE < 2 ^ 52 by decide)] at hbase
  cases hbase
  -- twice the base and three pages
  have hfree : (⟨ptr, len⟩ : Slice) = freeMemOf lgst := by
    rw [hlen, fromPhysAddr_ok hptr hlt (offsetMaps_iff.mp hmapped).1, freeMemOf,
      show lgst.base + (lgst.base + PTE_SIZE + PTE_SIZE + PTE_SIZE) = 2 * lgst.base + 3 * PTE_SIZE
        by omega,
      show lgst.base + PTE_SIZE + PTE_SIZE + PTE_SIZE = lgst.base + 3 * PTE_SIZE by omega]
  have hnonzero := ensureTable_ok hpml4
  refine ⟨by omega, by omega, ?_, by omega, hfree, _, t, hmapped, ?_, hrel⟩
  · show [_, _, _] = _
    rw [show lgst.base + lgst.base = 2 * lgst.base by omega,
      show lgst.base + (lgst.base + PTE_SIZE) = 2 * lgst.base + PTE_SIZE by omega,
      show lgst.base + (lgst.base + PTE_SIZE + PTE_SIZE) = 2 * lgst.base + 2 * PTE_SIZE by omega]
  · rw [hend]
    exact hnew

/-- What the loop did with a region: it was mapped, and released into the arena. -/
theorem releaseAll_each {table : List (Option Nat)} {lgstBase : Nat} {r : MemRegion}
    {t' : Talloc FreeLists} : ∀ {mmap : List MemRegion} {t : Talloc FreeLists},
    releaseAll table lgstBase mmap t = .ok t' → r ∈ mmap → r.base ≠ lgstBase →
    ∃ (ptr : Int) (t₁ t₂ : Talloc FreeLists), fromPhysAddr r.base = .ok ptr ∧
      offsetMaps table ⟨ptr, r.size⟩ = true ∧ t₁.toArena = t.toArena ∧
      t₁.release ⟨ptr, r.size⟩ = .ok t₂ := by
  intro mmap
  induction mmap with
  | nil =>
    intro t _ hr
    cases hr
  | cons e rest ih =>
    intro t h hr hne
    unfold releaseAll at h
    split at h
    next heq =>
      rcases List.mem_cons.mp hr with rfl | hr
      · exact absurd heq hne
      · exact ih h hr hne
    next =>
      obtain ⟨ptr, hptr, h⟩ := bind_ok h
      obtain ⟨_, hmaps, h⟩ := bind_ok h
      obtain ⟨t₁, hrun, h⟩ := bind_ok h
      rcases List.mem_cons.mp hr with rfl | hr
      · exact ⟨ptr, t, t₁, hptr, ensureMapped_ok hmaps, rfl, hrun⟩
      · obtain ⟨ptr', t₂, t₃, hptr', hmaps', harena, hrun'⟩ := ih h hr hne
        exact ⟨ptr', t₂, t₃, hptr', hmaps', harena.trans (Talloc.release_arena hrun), hrun'⟩

/-- Maps that `setup` can work with: nothing starts at address 0, all of it is in the 512 GiB that
are mapped, and the largest region has room for the tables at twice its base and for the status data
behind them. -/
structure Bootable (mmap : List MemRegion) (lgst : MemRegion) : Prop where
  pos : ∀ r ∈ mmap, 0 < r.base
  mapped : memEnd mmap ≤ 2 ^ 39
  room : ∀ status, sliceBytes (memEnd mmap) PTE_SIZE = .ok status →
    lgst.base + 3 * PTE_SIZE + nodeSize + status.1 + status.2 ≤ lgst.size

/-- The padding in front of the status data, which is never 0. -/
theorem llAlignOffset_freeMemOf (hpage : PTE_SIZE ∣ lgst.base) :
    Talloc.llAlignOffset (freeMemOf lgst) = nodeSize := by
  have hOff : PHYS_LADDR_OFFSET = -2 ^ 47 := by decide
  have hpte : PTE_SIZE = 2 ^ 12 := rfl
  have hnode : nodeSize = 16 := rfl
  unfold Talloc.llAlignOffset freeMemOf asUsize
  dsimp only
  rw [hOff, hnode]
  rw [hpte] at hpage ⊢
  omega

/-- `setup` returns for no other maps. -/
theorem setup_bootable (hm : MemoryMap mmap) (hl : maxBySize mmap = some lgst)
    (h : setup mmap = .ok o) : Bootable mmap lgst := by
  have hOff : PHYS_LADDR_OFFSET = -2 ^ 47 := by decide
  have hmem := maxBySize_mem hl
  have hpage := (hm.pages lgst hmem).1
  obtain ⟨hpos, hlt, _, hle, hfree, gigs, t, hmaps, hnew, hrel⟩ := setup_ok h hl hpage
  obtain ⟨harena, hblock, ll, bm, hs, hroom⟩ := Talloc.new_ok hnew
  rw [hfree] at hmaps hroom
  rw [llAlignOffset_freeMemOf hpage] at hroom
  have hlen : (freeMemOf lgst).len = lgst.size - (lgst.base + 3 * PTE_SIZE) := rfl
  have hnode : nodeSize = 16 := rfl
  refine ⟨fun r hr => ?_, ?_, fun status hs' => ?_⟩
  · by_cases hbase : r.base = lgst.base
    · omega
    · obtain ⟨ptr, t₁, t₂, hptr, _, harena₁, hrun⟩ := releaseAll_each hrel hr hbase
      by_contra hzero
      -- the arena starts one page behind the region
      have hstart := Talloc.release_ok hrun
      rw [harena₁, harena, hblock] at hstart
      rw [Nat.eq_zero_of_not_pos hzero, fromPhysAddr_of_lt (by decide)] at hptr
      cases hptr
      have hno : ¬ PHYS_LADDR_OFFSET + 2 ^ 12 ≤
          maskDown ((0 : Nat) + PHYS_LADDR_OFFSET + (PTE_SIZE - 1)) PTE_SIZE := by decide
      exact hno hstart
  · obtain ⟨r, _, hr, hend⟩ := getLast_memEnd hm
    by_cases hbase : r.base = lgst.base
    · -- `free_mem` ends where the last region does
      obtain rfl := hm.eq_of_base hr hmem hbase
      have hle' := le_of_offsetMaps hmaps (by omega)
      rw [show frameOf (freeMemOf r).ptr = 2 * r.base + 3 * PTE_SIZE from frameOf_add _] at hle'
      omega
    · obtain ⟨ptr, t₁, t₂, hptr, hmaps', _⟩ := releaseAll_each hrel hr hbase
      rw [fromPhysAddr_ok hptr (by omega) (offsetMaps_iff.mp hmaps').1] at hmaps'
      have hle' := le_of_offsetMaps hmaps' (hm.pages r hr).2.2
      rw [show frameOf (⟨r.base + PHYS_LADDR_OFFSET, r.size⟩ : Slice).ptr = r.base from
        frameOf_add r.base] at hle'
      rw [hend]
      exact hle'
  · rw [hs] at hs'
    cases hs'
    dsimp only
    omega

end Returned

/-! ## `setup` of such a map -/

section Setup

variable {hi K : Nat} {lgst : MemRegion}

/-- Pages are pages in the offset mapping too, and so are larger blocks. -/
theorem aligned_offset {p J : Nat} (hJ : J ≤ 39) (hp : 2 ^ J ∣ p) :
    Buddy.Aligned J (p + PHYS_LADDR_OFFSET) := by
  have hOff : PHYS_LADDR_OFFSET = -2 ^ 47 := by decide
  have hp' : (2 : Int) ^ J ∣ p := by exact_mod_cast hp
  rw [hOff]
  exact dvd_add hp' ((dvd_neg).mpr (pow_dvd_pow 2 (by omega)))

/-- The sizes of such a map that ends at `hi`. -/
structure Sized (hi : Nat) (lgst : MemRegion) (K : Nat) : Prop where
  pow : nextPowerOfTwo hi = 2 ^ K
  hi_le : hi ≤ 2 ^ K
  pow_lt : 2 ^ K < 2 * hi
  hJK : 12 ≤ K
  mapped : hi ≤ 2 ^ 39
  room : lgst.base + 3 * PTE_SIZE + statusBytes K 12 (freeMemOf lgst) ≤ lgst.size
  le : lgst.base + lgst.size ≤ hi
  pages : PTE_SIZE ∣ lgst.base ∧ PTE_SIZE ∣ lgst.size

/-- At most 512 GiB. -/
theorem Sized.hK (h : Sized hi lgst K) : K ≤ 39 := by
  have hlt : 2 ^ K < 2 ^ 40 := by
    have := h.pow_lt
    have := h.mapped
    omega
  have := (Nat.pow_lt_pow_iff_right (by norm_num)).mp hlt
  omega

/-- Where `free_mem` is. -/
theorem Sized.bounds (h : Sized hi lgst K) : PHYS_LADDR_OFFSET = -2 ^ 47 ∧ PTE_SIZE = 2 ^ 12 ∧
    (freeMemOf lgst).ptr = 2 * lgst.base + 3 * 2 ^ 12 - 2 ^ 47 ∧
    (freeMemOf lgst).ptr + (freeMemOf lgst).len = lgst.base + lgst.size - 2 ^ 47 := by
  have hOff : PHYS_LADDR_OFFSET = -2 ^ 47 := by decide
  have hpte : PTE_SIZE = 2 ^ 12 := rfl
  have hroom := h.room
  unfold freeMemOf
  dsimp only
  rw [hOff]
  rw [hpte] at hroom ⊢
  refine ⟨rfl, rfl, ?_, ?_⟩
  · omega
  · omega

/-- A naturally aligned arena at the offset itself has room for the allocator. -/
theorem Sized.site (h : Sized hi lgst K) :
    Site PHYS_LADDR_OFFSET hi (2 ^ 12) (freeMemOf lgst) := by
  obtain ⟨hOff, hpte, hptr, hend⟩ := h.bounds
  have hle := h.le
  have hmapped := h.mapped
  refine ⟨?_, by omega, by omega, by omega, by omega, fun ll bm hs => ?_⟩
  · rw [h.pow]
    have := aligned_offset h.hK (dvd_zero _)
    push_cast at this ⊢
    rwa [zero_add] at this
  · have h64 : 64 ≤ hi := by
      have := h.room
      omega
    rw [sliceBytes_of h64 (by omega) (by omega) h.pow h.hJK] at hs
    cases hs
    refine ⟨(lgst.base + lgst.size : Nat) + PHYS_LADDR_OFFSET, ?_, by omega, ?_⟩
    · exact aligned_offset (by omega) (hpte ▸ dvd_add h.pages.1 h.pages.2)
    · have := h.room
      unfold statusBytes at this
      omega

/-- And so has the arena that starts one page later. -/
theorem Sized.place (h : Sized hi lgst K) :
    Place (PHYS_LADDR_OFFSET + 2 ^ 12) hi (2 ^ 12) (freeMemOf lgst) := by
  obtain ⟨hOff, hpte, hptr, hend⟩ := h.bounds
  have hle := h.le
  have hmapped := h.mapped
  exact ⟨by omega, by omega, by omega, by omega, h.site.room⟩

/-- The arena at the offset itself. -/
def lowArena (hi : Nat) : Arena := ⟨PHYS_LADDR_OFFSET, hi, nextPowerOfTwo hi, 2 ^ 12⟩

/-- It is in the canonical addresses. -/
theorem Sized.low48 (h : Sized hi lgst K) : (lowArena hi).Low48 := by
  obtain ⟨hOff, _, _, _⟩ := h.bounds
  have hmapped := h.mapped
  show -2 ^ 47 ≤ PHYS_LADDR_OFFSET ∧ PHYS_LADDR_OFFSET + hi ≤ 2 ^ 47
  omega

/-- A page later, the blocks have the same bits. -/
theorem Sized.sameOffsets (h : Sized hi lgst K) :
    Talloc.SameOffsets (lowArena hi) 12 K (PHYS_LADDR_OFFSET + 2 ^ 12) := by
  have hOff : PHYS_LADDR_OFFSET = -2 ^ 47 := by decide
  have hK := h.hK
  have hal : Buddy.Aligned (K + 1) (lowArena hi).arenaBase := by
    show Buddy.Aligned (K + 1) PHYS_LADDR_OFFSET
    rw [hOff]
    exact (dvd_neg).mpr (pow_dvd_pow 2 (by omega))
  have hin : InIsize (lowArena hi).arenaBase := by
    show InIsize PHYS_LADDR_OFFSET
    exact ⟨by omega, by omega⟩
  have hin' : InIsize ((lowArena hi).arenaBase + 2 ^ 12) := by
    show InIsize (PHYS_LADDR_OFFSET + 2 ^ 12)
    exact ⟨by omega, by omega⟩
  exact Talloc.sameOffsets_late hal (by omega) hin hin'

/-- `Talloc::new` as `setup` calls it. -/
theorem Sized.new (h : Sized hi lgst K) : ∃ t,
    Talloc.new (PHYS_LADDR_OFFSET + 2 ^ 12) hi (2 ^ 12) (freeMemOf lgst)
      = .ok (Talloc.rebased t (PHYS_LADDR_OFFSET + 2 ^ 12)) ∧
    t.toArena = lowArena hi ∧ (freeMemOf lgst).ptr ≤ t.llistsPtr ∧
    t.bitmapPtr + t.bitmapLen ≤ (freeMemOf lgst).ptr + (freeMemOf lgst).len ∧
    Accounted K 12 ⟨[], [tailOf K 12 (freeMemOf lgst)]⟩ t := by
  obtain ⟨hOff, hpte, hptr, hend⟩ := h.bounds
  have hle := h.le
  have hmapped := h.mapped
  have hroom := h.room
  have hK := h.hK
  have h64 : 64 ≤ hi := by omega
  have hs := sliceBytes_of h64 (by omega) (by omega) h.pow h.hJK
  have hnat := h.site.natural h.pow (by omega) h.hJK (by omega) h.hi_le
  rcases new_spec h.site h.pow (by omega) h.hJK (by omega) h64 h.hi_le with
    ⟨_, hedge⟩ | ⟨t, hnew, hsh, hacc⟩
  · -- the span ends below address 0
    rcases hedge with hzero | hlow
    · have := (Talloc.spanAcme_bounds 12 (tailOf K 12 (freeMemOf lgst))).1
      rw [hzero] at this
      unfold tailOf at this
      dsimp only at this
      omega
    · exact absurd h.low48 hlow
  · refine ⟨t, ?_, hsh.arena, ?_, ?_, hacc⟩
    · exact Talloc.new_rebased h.site h.place hs hnat h.sameOffsets (by omega) (by omega) hnew
    · rw [hsh.llistsPtr]
      show _ ≤ (freeMemOf lgst).ptr + (Talloc.llAlignOffset (freeMemOf lgst) : Int)
      omega
    · have hfresh := Talloc.fresh_end PHYS_LADDR_OFFSET hi K 12 (freeMemOf lgst)
      rw [hsh.bitmapPtr, hsh.bitmapLen, hfresh]
      omega

/-- A region of whole pages apart from everything that was given to the allocator, and from its
status data. -/
structure Unused (hi : Nat) (given : List Slice) (t : Talloc FreeLists) (r : MemRegion) : Prop where
  base : PTE_SIZE ∣ r.base
  size : PTE_SIZE ∣ r.size
  pos : 0 < r.base
  le : r.base + r.size ≤ hi
  given : ∀ m ∈ given, m.ptr + m.len ≤ r.base + PHYS_LADDR_OFFSET ∨
    r.base + r.size + PHYS_LADDR_OFFSET ≤ m.ptr
  status : t.bitmapPtr + t.bitmapLen ≤ r.base + PHYS_LADDR_OFFSET ∨
    r.base + r.size + PHYS_LADDR_OFFSET ≤ t.llistsPtr

section Unused

variable {given : List Slice} {t t' : Talloc FreeLists} {r r' : MemRegion}

/-- It may be released. -/
theorem Unused.allowed (h : Unused hi given t r) (hacc : Accounted K 12 ⟨[], given⟩ t)
    (harena : t.toArena = lowArena hi) : ReleaseAllowed ⟨[], given⟩ t r.slice := by
  have hsm : t.smlstBlock = 2 ^ 12 := by rw [harena]; rfl
  have hle := h.le
  refine ⟨?_, ?_, ?_, ?_, ?_⟩
  · rw [hsm]
    exact aligned_offset (by omega) h.base
  · rw [hsm]
    exact h.size
  · rw [show t.arenaBase = PHYS_LADDR_OFFSET by rw [harena]; rfl]
    show PHYS_LADDR_OFFSET ≤ r.base + PHYS_LADDR_OFFSET
    omega
  · rw [show t.arenaBase = PHYS_LADDR_OFFSET by rw [harena]; rfl,
      show t.arenaSize = hi by rw [harena]; rfl]
    show r.base + PHYS_LADDR_OFFSET + r.size ≤ PHYS_LADDR_OFFSET + hi
    omega
  · intro x hx
    have hx1 : r.base + PHYS_LADDR_OFFSET ≤ x := hx.1
    have hx2 : x < r.base + PHYS_LADDR_OFFSET + r.size := hx.2
    refine ⟨fun hfree => ?_, fun hlive => ?_, fun hstatus => ?_⟩
    · -- what is free was given
      obtain ⟨m, hm, hin⟩ := Ledger.Given.mem ((hacc.free_iff x).mp hfree).1
      have := h.given m hm
      have := hin.1
      have := hin.2
      omega
    · obtain ⟨q, hq, _⟩ := hlive
      cases hq
    · have := h.status
      have := hstatus.1
      have := hstatus.2
      omega

/-- The regions behind the one that is released stay unused. -/
theorem Unused.next (h : Unused hi given t r') (hsh : Talloc.SameShape t t')
    (hlt : r.base + r.size ≤ r'.base) : Unused hi (r.slice :: given) t' r' := by
  refine ⟨h.base, h.size, h.pos, h.le, fun m hm => ?_, ?_⟩
  · rcases List.mem_cons.mp hm with rfl | hm
    · left
      show r.base + PHYS_LADDR_OFFSET + r.size ≤ r'.base + PHYS_LADDR_OFFSET
      omega
    · exact h.given m hm
  · rw [hsh.bitmapPtr, hsh.bitmapLen, hsh.llistsPtr]
    exact h.status

/-- One turn of the loop. -/
theorem Unused.release (h : Unused hi given t r) (hmap : Sized hi lgst K)
    (hacc : Accounted K 12 ⟨[], given⟩ t) (harena : t.toArena = lowArena hi) :
    ∃ t', Talloc.release (Talloc.rebased t (PHYS_LADDR_OFFSET + 2 ^ 12)) r.slice
        = .ok (Talloc.rebased t' (PHYS_LADDR_OFFSET + 2 ^ 12)) ∧
      Accounted K 12 ⟨[], r.slice :: given⟩ t' ∧ Talloc.SameShape t t' := by
  obtain ⟨hOff, hpte, _, _⟩ := hmap.bounds
  have hmapped := hmap.mapped
  have hle := h.le
  have hend : r.slice.ptr + r.slice.len = (r.base + r.size : Nat) + PHYS_LADDR_OFFSET := by
    show r.base + PHYS_LADDR_OFFSET + r.size = _
    push_cast
    omega
  have hallowed := h.allowed hacc harena
  obtain ⟨hb, ha⟩ := hallowed.span hacc
  rcases hacc.release hallowed with ⟨_, hedge⟩ | ⟨t', hrun, hacc', hsh, _⟩
  · rcases hedge with hzero | hlow
    · omega
    · rw [harena] at hlow
      exact absurd hmap.low48 hlow
  · refine ⟨t', ?_, hacc', hsh⟩
    have hoff : Talloc.SameOffsets t.toArena 12 K (PHYS_LADDR_OFFSET + 2 ^ 12) := by
      rw [harena]
      exact hmap.sameOffsets
    have hfirst : PTE_SIZE ≤ r.base := Nat.le_of_dvd h.pos h.base
    refine Talloc.release_rebased hoff (hallowed.releasable hacc).inside (by omega) ?_ ?_ ?_ hrun
    · rw [hb]
      show PHYS_LADDR_OFFSET + 2 ^ 12 ≤ r.base + PHYS_LADDR_OFFSET
      omega
    · rw [ha, show t.arenaSize = hi by rw [harena]; rfl]
      omega
    · omega

/-- The loop releases every other region. -/
theorem releaseAll_accounted (hmap : Sized hi lgst K) :
    ∀ {rest : List MemRegion} {given : List Slice}
    {t : Talloc FreeLists}, rest.Pairwise (fun r r' => r.base + r.size ≤ r'.base) →
    (∀ r ∈ rest, r.base ≠ lgst.base → Unused hi given t r) → Accounted K 12 ⟨[], given⟩ t →
    t.toArena = lowArena hi →
    ∃ t', releaseAll (offsetMapTable ((hi + PDPTE_SIZE - 1) / PDPTE_SIZE)) lgst.base rest
        (Talloc.rebased t (PHYS_LADDR_OFFSET + 2 ^ 12))
        = .ok (Talloc.rebased t' (PHYS_LADDR_OFFSET + 2 ^ 12)) ∧
      Accounted K 12 ⟨[], ((others lgst rest).map MemRegion.slice).reverse ++ given⟩ t' ∧
      t'.toArena = lowArena hi := by
  intro rest
  induction rest with
  | nil =>
    intro given t _ _ hacc harena
    exact ⟨t, rfl, hacc, harena⟩
  | cons r rest ih =>
    intro given t hasc hunused hacc harena
    obtain ⟨hhead, htail⟩ := List.pairwise_cons.mp hasc
    unfold releaseAll others
    -- the largest region is left out
    by_cases hbase : r.base = lgst.base
    · rw [if_pos hbase, List.filter_cons_of_neg (by simp [hbase])]
      exact ih htail (fun r' hr' => hunused r' (List.mem_cons_of_mem _ hr')) hacc harena
    · have hr := hunused r (List.mem_cons_self ..) hbase
      have hle := hr.le
      have hmapped := hmap.mapped
      obtain ⟨t₁, hrun, hacc₁, hsh⟩ := hr.release hmap hacc harena
      obtain ⟨t', hrest, hacc', harena'⟩ := ih htail
        (fun r' hr' hne => (hunused r' (List.mem_cons_of_mem _ hr') hne).next hsh (hhead r' hr'))
        hacc₁ (hsh.arena.trans harena)
      refine ⟨t', ?_, ?_, harena'⟩
      · have hens : ensureMapped (offsetMapTable ((hi + PDPTE_SIZE - 1) / PDPTE_SIZE)) r.slice =
            .ok () :=
          if_pos (offsetMaps_of_le hle hmapped)
        rw [if_neg hbase, fromPhysAddr_of_lt (by omega), ok_bind]
        dsimp only
        rw [show (⟨r.base + PHYS_LADDR_OFFSET, r.size⟩ : Slice) = r.slice from rfl, hens, ok_bind,
          hrun, ok_bind]
        exact hrest
      · rw [List.filter_cons_of_pos (by simp [hbase]), List.map_cons, List.reverse_cons,
          List.append_assoc]
        exact hacc'

end Unused

/-- A page of `page_getter`, which is not page 0. -/
theorem pageGetter_of {n : Nat} (hpos : 0 < lgst.base) (hlt : lgst.base < 2 ^ 40) (hn : n < 3) :
    pageGetter lgst (lgst.base + n * PTE_SIZE)
      = .ok (2 * lgst.base + n * PTE_SIZE, lgst.base + (n + 1) * PTE_SIZE) ∧
    ensureTable (2 * lgst.base + n * PTE_SIZE) = .ok () := by
  have hle : n * PTE_SIZE ≤ 2 * PTE_SIZE := Nat.mul_le_mul_right _ (by omega)
  have hpte : PTE_SIZE = 2 ^ 12 := rfl
  refine ⟨?_, if_neg (by omega)⟩
  unfold pageGetter
  rw [usizeAdd_of_lt (by omega), ok_bind, usizeAdd_of_lt (by omega), ok_bind,
    show (n + 1) * PTE_SIZE = n * PTE_SIZE + PTE_SIZE from Nat.succ_mul ..,
    show lgst.base + (lgst.base + n * PTE_SIZE) = 2 * lgst.base + n * PTE_SIZE by omega,
    show lgst.base + n * PTE_SIZE + PTE_SIZE = lgst.base + (n * PTE_SIZE + PTE_SIZE) by omega]
  rfl

section Boot

variable {mmap : List MemRegion}

/-- The sizes of such a map. -/
theorem Bootable.sized (h : Bootable mmap lgst) (hm : MemoryMap mmap) (hl : lgst ∈ mmap) :
    ∃ K, Sized (memEnd mmap) lgst K ∧ sliceBytes (memEnd mmap) PTE_SIZE
      = .ok ((K - 12 + 1) * nodeSize, max (2 ^ (K - 12 + 1) / 8) 1) := by
  obtain ⟨hbase, hsize, hpos⟩ := hm.pages lgst hl
  have hpte : PTE_SIZE = 2 ^ 12 := rfl
  have hpage : PTE_SIZE ≤ lgst.size := Nat.le_of_dvd hpos hsize
  have hle := hm.end_le hl
  have hhi := h.mapped
  obtain ⟨K, hK, hn, hlt, _⟩ := nextPowerOfTwo_spec (show 2 ≤ memEnd mmap by omega)
  have hJK : 12 ≤ K := (Nat.pow_le_pow_iff_right (show 1 < 2 by norm_num)).mp (by omega)
  have hs := sliceBytes_of (show 64 ≤ memEnd mmap by omega) (by omega) (show 4 ≤ 12 by omega) hK hJK
  have hroom := h.room _ hs
  refine ⟨K, ⟨hK, hn, hlt, hJK, hhi, ?_, by omega, hbase, hsize⟩, hs⟩
  unfold statusBytes
  rw [llAlignOffset_freeMemOf hbase]
  omega

/-- `setup` of such a map, and the arena that its allocator is one page behind. -/
theorem Bootable.setup (h : Bootable mmap lgst) (hm : MemoryMap mmap)
    (hl : maxBySize mmap = some lgst) : ∃ K t, Sized (memEnd mmap) lgst K ∧
    setup mmap = .ok ⟨[2 * lgst.base, 2 * lgst.base + PTE_SIZE, 2 * lgst.base + 2 * PTE_SIZE],
      freeMemOf lgst, Talloc.rebased t (PHYS_LADDR_OFFSET + 2 ^ 12)⟩ ∧
    Accounted K 12 ⟨[], ((others lgst mmap).map MemRegion.slice).reverse ++
      [tailOf K 12 (freeMemOf lgst)]⟩ t ∧
    t.toArena = lowArena (memEnd mmap) := by
  have hmem := maxBySize_mem hl
  have hpos := h.pos lgst hmem
  obtain ⟨K, hmap, _⟩ := h.sized hm hmem
  obtain ⟨hOff, hpte, hptr, hend⟩ := hmap.bounds
  have hmapped := hmap.mapped
  have hroom := hmap.room
  have hle := hmap.le
  obtain ⟨hbase, hsize⟩ := hmap.pages
  obtain ⟨last, hlast, _, hlastEnd⟩ := getLast_memEnd hm
  obtain ⟨t, hnew, harena, hstart, hstatus, hacc⟩ := hmap.new
  -- the other regions are apart from the largest one, so nothing of them is in use
  have hunused : ∀ r ∈ mmap, r.base ≠ lgst.base →
      Unused (memEnd mmap) [tailOf K 12 (freeMemOf lgst)] t r := by
    intro r hr hne
    obtain ⟨hrbase, hrsize, _⟩ := hm.pages r hr
    have hapart := hm.apart hr hmem hne
    refine ⟨hrbase, hrsize, h.pos r hr, hm.end_le hr, fun m hm => ?_, by omega⟩
    rw [List.mem_singleton.mp hm]
    unfold tailOf
    dsimp only
    omega
  obtain ⟨t', hall, hacc', harena'⟩ := releaseAll_accounted hmap hm.ascending hunused hacc harena
  refine ⟨K, t', hmap, ?_, hacc', harena'⟩
  -- what the steps of `setup` compute
  have hceiled : lgst.base + PTE_SIZE - 1 - (lgst.base + PTE_SIZE - 1) % PTE_SIZE = lgst.base := by
    rw [hpte] at hbase ⊢
    omega
  have harenaBase : ((PTE_SIZE : Nat) : Int) + PHYS_LADDR_OFFSET = PHYS_LADDR_OFFSET + 2 ^ 12 := by
    omega
  have hgig : PDPTE_SIZE = 2 ^ 30 := rfl
  have hnew' : Talloc.new (PHYS_LADDR_OFFSET + 2 ^ 12) (memEnd mmap) PTE_SIZE (freeMemOf lgst)
      = _ := hnew
  have hfree : (⟨(2 * lgst.base + 3 * PTE_SIZE : Nat) + PHYS_LADDR_OFFSET,
      lgst.size - (lgst.base + 3 * PTE_SIZE)⟩ : Slice) = freeMemOf lgst := rfl
  have hens : ensureMapped (offsetMapTable ((memEnd mmap + PDPTE_SIZE - 1) / PDPTE_SIZE))
      (freeMemOf lgst) = .ok () :=
    if_pos (offsetMaps_of_le
      (r := ⟨2 * lgst.base + 3 * PTE_SIZE, lgst.size - (lgst.base + 3 * PTE_SIZE)⟩)
      (show 2 * lgst.base + 3 * PTE_SIZE + (lgst.size - (lgst.base + 3 * PTE_SIZE)) ≤ _ by omega)
      hmapped)
  obtain ⟨h1, hp1⟩ := pageGetter_of hpos (by omega) (show 0 < 3 by omega)
  obtain ⟨h2, hp2⟩ := pageGetter_of hpos (by omega) (show 1 < 3 by omega)
  obtain ⟨h3, hp3⟩ := pageGetter_of hpos (by omega) (show 2 < 3 by omega)
  rw [Nat.zero_mul, Nat.add_zero, Nat.add_zero, Nat.zero_add] at h1
  rw [Nat.zero_mul, Nat.add_zero] at hp1
  unfold Mapper.setup
  rw [hlast, hl]
  dsimp only [unwrap]
  rw [ok_bind, usizeAdd_of_lt (by omega), ok_bind, ok_bind, usizeAdd_of_lt (by omega), ok_bind,
    hceiled, h1, ok_bind]
  dsimp only
  rw [hp1, ok_bind, h2, ok_bind]
  dsimp only
  rw [hp2, ok_bind, h3, ok_bind]
  dsimp only
  rw [hp3, ok_bind, ← hlastEnd, usizeAdd_of_lt (by omega), ok_bind, usizeAdd_of_lt (by omega),
    ok_bind, show lgst.base + (lgst.base + (2 + 1) * PTE_SIZE) = 2 * lgst.base + 3 * PTE_SIZE
      by omega,
    fromPhysAddr_of_lt (by omega), ok_bind, usizeSub_of_le (by omega), ok_bind, hfree, hens,
    ok_bind, fromPhysAddr_of_lt (by omega), ok_bind, harenaBase, hnew', ok_bind, hall, ok_bind,
    Nat.one_mul]
  rfl

end Boot

end Setup

/-! ## What becomes of the memory -/

section Uses

variable {mmap : List MemRegion} {lgst r : MemRegion} {o : Outcome}

/-- `setup` returns for exactly these maps. -/
theorem setup_returns_iff (hm : MemoryMap mmap) (hl : maxBySize mmap = some lgst) :
    (∃ o, setup mmap = .ok o) ↔ Bootable mmap lgst := by
  constructor
  · rintro ⟨o, h⟩
    exact setup_bootable hm hl h
  · intro h
    obtain ⟨_, _, _, hok, _⟩ := h.setup hm hl
    exact ⟨_, hok⟩

/-- Where a page of the largest region goes: it is a table, has status data in it, or is behind. -/
theorem freeMemOf_uses {kept p : Nat} (hbase : PTE_SIZE ∣ lgst.base)
    (hkept : lgst.base + 3 * PTE_SIZE + kept ≤ lgst.size) (hsize : PTE_SIZE ∣ lgst.size)
    (hp : PTE_SIZE ∣ p) :
    [2 * lgst.base, 2 * lgst.base + PTE_SIZE, 2 * lgst.base + 2 * PTE_SIZE].count p
      + (if TouchesPage (freeMemOf lgst) kept p then 1 else 0)
      + (if HoldsPage ⟨(freeMemOf lgst).ptr + kept, (freeMemOf lgst).len - kept⟩ p then 1 else 0)
      = if 2 * lgst.base ≤ p ∧ p < lgst.base + lgst.size then 1 else 0 := by
  have hpte : PTE_SIZE = 2 ^ 12 := rfl
  have htouch : TouchesPage (freeMemOf lgst) kept p ↔
      2 * lgst.base + 2 * PTE_SIZE < p ∧ p < 2 * lgst.base + 3 * PTE_SIZE + kept := by
    unfold TouchesPage freeMemOf
    dsimp only
    omega
  have hholds : HoldsPage ⟨(freeMemOf lgst).ptr + kept, (freeMemOf lgst).len - kept⟩ p ↔
      2 * lgst.base + 3 * PTE_SIZE + kept ≤ p ∧ p < lgst.base + lgst.size := by
    unfold HoldsPage freeMemOf
    unfold PTE_SIZE at *
    dsimp only
    omega
  simp only [htouch, hholds]
  -- a table is in front of the status data
  by_cases htable : 2 * lgst.base ≤ p ∧ p ≤ 2 * lgst.base + 2 * PTE_SIZE
  · have hcount : [2 * lgst.base, 2 * lgst.base + PTE_SIZE,
        2 * lgst.base + 2 * PTE_SIZE].count p = 1 := by
      have hcases : p = 2 * lgst.base ∨ p = 2 * lgst.base + PTE_SIZE ∨
          p = 2 * lgst.base + 2 * PTE_SIZE := by
        unfold PTE_SIZE at *
        omega
      rcases hcases with rfl | rfl | rfl <;> simp [hpte]
    rw [hcount, if_neg (by omega), if_neg (by omega), if_pos (by omega)]
  · have hcount : [2 * lgst.base, 2 * lgst.base + PTE_SIZE,
        2 * lgst.base + 2 * PTE_SIZE].count p = 0 := by
      rw [List.count_eq_zero]
      simp only [List.mem_cons, List.not_mem_nil, or_false]
      omega
    rw [hcount]
    split
    · rw [if_neg (by omega), if_pos (by omega)]
    · split
      · rw [if_pos (by omega)]
      · rw [if_neg (by omega)]

/-- A page of the map is used once, but for those from the base of the largest region up to twice
the base: they are lost. -/
theorem uses_eq {status : Nat × Nat} (hm : MemoryMap mmap) (hl : maxBySize mmap = some lgst)
    (h : setup mmap = .ok o) (hs : sliceBytes (memEnd mmap) PTE_SIZE = .ok status) (hr : r ∈ mmap)
    {p : Nat} (hp : PTE_SIZE ∣ p) (h1 : r.base ≤ p) (h2 : p < r.base + r.size) :
    o.uses mmap lgst status p = if lgst.base ≤ p ∧ p < 2 * lgst.base then 0 else 1 := by
  have hmem := maxBySize_mem hl
  obtain ⟨hbase, hsize, _⟩ := hm.pages lgst hmem
  obtain ⟨_, _, htables, _, hfree, _⟩ := setup_ok h hl hbase
  have hroom := (setup_bootable hm hl h).room status hs
  have hkept : lgst.base + 3 * PTE_SIZE + keptBytes (freeMemOf lgst) status ≤ lgst.size := by
    unfold keptBytes
    rw [llAlignOffset_freeMemOf hbase]
    omega
  have huse := freeMemOf_uses hbase hkept hsize hp
  have hothers : (others lgst mmap).Pairwise fun r r' => r.base + r.size ≤ r'.base :=
    hm.ascending.filter _
  unfold Outcome.uses releases
  rw [htables, hfree, List.countP_cons]
  simp only [decide_eq_true_eq]
  -- no region that is released has a page of the largest one
  by_cases hin : lgst.base ≤ p ∧ p < lgst.base + lgst.size
  · have hzero : ((others lgst mmap).map MemRegion.slice).countP
        (fun mem => decide (HoldsPage mem p)) = 0 := by
      rw [List.countP_eq_zero]
      intro mem hslice
      obtain ⟨r', hr', rfl⟩ := List.mem_map.mp hslice
      obtain ⟨hr', hne⟩ := List.mem_filter.mp hr'
      have hpage : 0 < PTE_SIZE := by decide
      have := hm.apart hr' hmem (of_decide_eq_true hne)
      rw [decide_eq_true_eq, holdsPage_slice]
      omega
    rw [hzero]
    by_cases hlost : p < 2 * lgst.base
    · rw [if_neg (show ¬ (2 * lgst.base ≤ p ∧ p < lgst.base + lgst.size) by omega)] at huse
      rw [Nat.zero_add, if_pos (show lgst.base ≤ p ∧ p < 2 * lgst.base by omega)]
      exact huse
    · rw [if_pos (show 2 * lgst.base ≤ p ∧ p < lgst.base + lgst.size by omega)] at huse
      rw [Nat.zero_add, if_neg (show ¬ (lgst.base ≤ p ∧ p < 2 * lgst.base) by omega)]
      exact huse
  -- a page of another region is released with it
  · have hne : r.base ≠ lgst.base := by
      intro he
      rw [hm.eq_of_base hr hmem he] at h1 h2
      exact hin ⟨h1, h2⟩
    have hone := countP_page hothers (List.mem_filter.mpr ⟨hr, decide_eq_true hne⟩)
      (holdsPage_slice.mpr ⟨h1, hm.page_le hr hp h2⟩)
    rw [if_neg (show ¬ (2 * lgst.base ≤ p ∧ p < lgst.base + lgst.size) by omega)] at huse
    rw [hone, if_neg (show ¬ (lgst.base ≤ p ∧ p < 2 * lgst.base) by omega)]
    omega

end Uses

/-- Whatever the map, its memory is not accounted for: where `setup` returns, the first page of the
largest region is lost. -/
theorem setup_never_accounts {mmap : List MemRegion} {lgst : MemRegion} (hm : MemoryMap mmap)
    (hl : maxBySize mmap = some lgst) : ¬ SetupAccounts mmap lgst := by
  rintro ⟨o, status, hok, hs, hacc⟩
  have hmem := maxBySize_mem hl
  obtain ⟨hbase, _, hsize⟩ := hm.pages lgst hmem
  have hpos := (setup_bootable hm hl hok).pos lgst hmem
  have hone := hacc.once lgst hmem lgst.base hbase (Nat.le_refl _) (by omega)
  rw [uses_eq hm hl hok hs hmem hbase (Nat.le_refl _) (by omega), if_pos (by omega)] at hone
  cases hone

/-- A map with low memory only: the PML4 would be at address 0. -/
theorem lowMemory_not_accounted :
    MemoryMap [⟨0, 0x100000⟩, ⟨0x200000, 0x80000⟩] ∧
    ¬ SetupAccounts [⟨0, 0x100000⟩, ⟨0x200000, 0x80000⟩] ⟨0, 0x100000⟩ := by
  have hm : MemoryMap [⟨0, 0x100000⟩, ⟨0x200000, 0x80000⟩] := ⟨by simp, by decide, by decide⟩
  exact ⟨hm, setup_never_accounts hm rfl⟩

/-- The usual map of a PC with 128 MiB: the first megabyte of the largest region is lost. -/
theorem extendedMemory_not_accounted :
    MemoryMap [⟨0x1000, 0x9e000⟩, ⟨0x100000, 0x7ee0000⟩] ∧
    maxBySize [⟨0x1000, 0x9e000⟩, ⟨0x100000, 0x7ee0000⟩] = some ⟨0x100000, 0x7ee0000⟩ ∧
    HasRoom [⟨0x1000, 0x9e000⟩, ⟨0x100000, 0x7ee0000⟩] ⟨0x100000, 0x7ee0000⟩ ∧
    ¬ SetupAccounts [⟨0x1000, 0x9e000⟩, ⟨0x100000, 0x7ee0000⟩] ⟨0x100000, 0x7ee0000⟩ := by
  have hm : MemoryMap [⟨0x1000, 0x9e000⟩, ⟨0x100000, 0x7ee0000⟩] := ⟨by simp, by decide, by decide⟩
  have hl : maxBySize [⟨0x1000, 0x9e000⟩, ⟨0x100000, 0x7ee0000⟩] = some ⟨0x100000, 0x7ee0000⟩ := by
    decide
  have hs : sliceBytes (memEnd [⟨0x1000, 0x9e000⟩, ⟨0x100000, 0x7ee0000⟩]) PTE_SIZE =
      .ok (256, 8192) := by
    decide +kernel
  refine ⟨hm, hl, fun status h => ?_, fun h => ?_⟩
  · rw [hs] at h
    cases h
    decide
  · obtain ⟨o, status, hok, hs', hacc⟩ := h
    have hone := hacc.once ⟨0x100000, 0x7ee0000⟩ (by simp) 0x100000 (by decide) (by decide)
      (by decide)
    rw [uses_eq hm hl hok hs' (r := ⟨0x100000, 0x7ee0000⟩) (by simp) (by decide) (by decide)
      (by decide)] at hone
    exact absurd hone (by decide)

end Tauos.Mapper
