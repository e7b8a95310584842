import Tauos.Mapper.MapResult
import Tauos.Mapper.Setup

/-!
# The tables of `Mapper::setup`

`kernel/src/memm/mod.rs`: the other half of `setup`, what it writes to the three pages of
`page_getter`. The new PML4 has two entries. One leads to a table of 1 GiB pages, which maps
physical memory at the offset; the other leads, through a table of its own, to the page directory
that the boot loader had for the top GiB.

> `setupTables_translates`: physical memory is at the offset as far as it reaches, the top GiB is
> where it was, and nothing else is mapped.

Memory is the identity-mapped memory of the boot loader. The writes to CR0 around this are left out.
-/

namespace Tauos.Mapper

open Tauos.Rust Tauos.Amd64

/-- `OFFSET_IDX`: the entry of the PML4 for the offset mapping. -/
def OFFSET_IDX : Nat := 0o400

/-- `write_bytes(0, 512)` on a table. -/
def zeroTable (mem : Frames) (table : Nat) : Frames := fun f i => if f = table then 0 else mem f i

/-- `*table.get_unchecked_mut(index) = pte`. -/
def writeEntry (mem : Frames) (table index : Nat) (pte : PTE) : Frames :=
  fun f i => if f = table ∧ i = index then pte else mem f i

/-- The body of the loop over the table of the offset mapping. -/
def writeOffsetEntry (table gigs : Nat) (mem : Frames) (i : Nat) : Except Fault Frames :=
  if i < gigs then do
    return writeEntry mem table i (PTE.P ||| PTE.RW ||| PTE.PS |||
      (← PTE.fromPaddr (i * PDPTE_SIZE)))
  else return writeEntry mem table i 0

/-- What `setup` writes, with the pages it got, the active PML4 and the number of gigabytes to
map. -/
def setupTables (pml4 lastPdpt offsetPdpt oldPml4 gigs : Nat) (mem : Frames) :
    Except Fault Frames := do
  let mem := zeroTable mem pml4
  let mem := zeroTable mem lastPdpt
  let mem := writeEntry mem pml4 511 (PTE.P ||| PTE.RW ||| (← PTE.fromPaddr lastPdpt))
  let lastOldPd := (mem (mem oldPml4 511).getPaddr 511).getPaddr
  let mem := writeEntry mem lastPdpt 511 (PTE.P ||| PTE.RW ||| (← PTE.fromPaddr lastOldPd))
  let mem := writeEntry mem pml4 OFFSET_IDX (PTE.P ||| PTE.RW ||| (← PTE.fromPaddr offsetPdpt))
  (List.range 512).foldlM (writeOffsetEntry offsetPdpt gigs) mem

/-! ## The entries -/

section Entries

variable {mem : Frames} {table gigs : Nat}

/-- The entry of the offset mapping. -/
def offsetEntry (gigs i : Nat) : PTE :=
  if i < gigs then PTE.P ||| PTE.RW ||| PTE.PS ||| i * PDPTE_SIZE else 0

/-- The address of a gigabyte of the offset mapping fits its entry. -/
theorem gig_lt {i : Nat} (hi : i < 512) : i * PDPTE_SIZE < 2 ^ 52 := by
  rw [show PDPTE_SIZE = 2 ^ 30 from rfl]
  omega

/-- And it is the address of a page. -/
theorem gig_dvd (i : Nat) : PTE_SIZE ∣ i * PDPTE_SIZE := Dvd.dvd.mul_left (by decide) i

/-- One turn of the loop writes one entry. -/
theorem writeOffsetEntry_eq (table gigs : Nat) (mem : Frames) {i : Nat} (hi : i < 512) :
    writeOffsetEntry table gigs mem i = .ok (writeEntry mem table i (offsetEntry gigs i)) := by
  unfold writeOffsetEntry offsetEntry
  split
  · rw [fromPaddr_of (gig_dvd i) (gig_lt hi)]
    rfl
  · rfl

/-- The first `n` turns write the first `n` entries. -/
theorem writeOffsetEntries_eq (table gigs : Nat) (mem : Frames) (n : Nat) (hn : n ≤ 512) :
    (List.range n).foldlM (writeOffsetEntry table gigs) mem
      = .ok fun f i => if f = table ∧ i < n then offsetEntry gigs i else mem f i := by
  induction n with
  | zero =>
    refine congrArg Except.ok (funext fun f => funext fun i => ?_)
    rw [if_neg (by omega)]
  | succ n ih =>
    rw [List.range_succ, List.foldlM_append, ih (by omega), ok_bind]
    show (writeOffsetEntry table gigs _ n >>= pure) = _
    rw [writeOffsetEntry_eq table gigs _ (by omega)]
    refine congrArg Except.ok (funext fun f => funext fun i => ?_)
    unfold writeEntry
    dsimp only
    by_cases hf : f = table
    · by_cases hi : i = n
      · rw [if_pos ⟨hf, hi⟩, if_pos ⟨hf, by omega⟩, hi]
      · rw [if_neg fun h => hi h.2]
        by_cases hlt : i < n
        · rw [if_pos ⟨hf, hlt⟩, if_pos ⟨hf, by omega⟩]
        · rw [if_neg fun h => hlt h.2, if_neg fun h => hlt (by omega)]
    · rw [if_neg fun h => hf h.1, if_neg fun h => hf h.1, if_neg fun h => hf h.1]

/-- An entry for a table, in the order `setup` writes it. -/
theorem table_entry {l page : Nat} (hl : 1 < l) (hal : PTE_SIZE ∣ page) (hlt : page < 2 ^ 52) :
    IsBranch l (PTE.P ||| PTE.RW ||| page) ∧
      PTE.getPaddr (PTE.P ||| PTE.RW ||| page) = page := by
  rw [Nat.or_assoc, Nat.or_comm PTE.RW page, ← Nat.or_assoc]
  exact branch_entry hl hal hlt (by decide) (by decide)

/-- An entry for a gigabyte is a leaf. -/
theorem gig_entry {i : Nat} (hi : i < 512) : PTE.contains (PTE.P ||| PTE.RW ||| PTE.PS |||
      i * PDPTE_SIZE) PTE.P = true ∧
    ¬ IsBranch 3 (PTE.P ||| PTE.RW ||| PTE.PS ||| i * PDPTE_SIZE) ∧
    PTE.getPaddr (PTE.P ||| PTE.RW ||| PTE.PS ||| i * PDPTE_SIZE) = i * PDPTE_SIZE := by
  have horder : PTE.P ||| PTE.RW ||| PTE.PS ||| i * PDPTE_SIZE
      = PTE.P ||| i * PDPTE_SIZE ||| (PTE.RW ||| PTE.PS) := by
    rw [Nat.or_assoc PTE.P PTE.RW PTE.PS, Nat.or_assoc, Nat.or_comm (PTE.RW ||| PTE.PS),
      ← Nat.or_assoc]
  refine ⟨?_, fun hb => hb.2.2 ⟨?_, by omega⟩, ?_⟩
  · rw [contains_P, Nat.testBit_or, Nat.testBit_or, Nat.testBit_or, testBit_P]
    rfl
  · rw [contains_PS, Nat.testBit_or, Nat.testBit_or]
    rw [show PTE.PS.testBit 7 = true by decide]
    simp
  · rw [horder]
    exact getPaddr_entry (gig_dvd i) (gig_lt hi) (by decide)

end Entries

/-! ## The tree -/

/-- The page directory that the boot loader has for the top GiB. -/
def oldPd (oldPml4 : Nat) (mem : Frames) : Nat := (mem (mem oldPml4 511).getPaddr 511).getPaddr

/-- The tables of the boot loader, which lead to that page directory, and three pages that are not
among them. None of them is at address 0. -/
structure Site (pml4 lastPdpt offsetPdpt oldPml4 : Nat) (mem : Frames) : Prop where
  branch : IsBranch 4 (mem oldPml4 511)
  branch' : IsBranch 3 (mem (mem oldPml4 511).getPaddr 511)
  nodup : [pml4, lastPdpt, offsetPdpt].Nodup
  nonnull : 0 ∉ [oldPml4, (mem oldPml4 511).getPaddr, pml4, lastPdpt, offsetPdpt]
  page : ∀ p ∈ [pml4, lastPdpt, offsetPdpt], PTE_SIZE ∣ p ∧ p < 2 ^ 52
  old : oldPml4 ∉ [pml4, lastPdpt, offsetPdpt]
  oldPdpt : (mem oldPml4 511).getPaddr ∉ [pml4, lastPdpt, offsetPdpt]
  apart : ∀ f, Uses mem 2 (oldPd oldPml4 mem) f → f ∉ [pml4, lastPdpt, offsetPdpt]
  tree : Tree mem 2 (oldPd oldPml4 mem)

/-- The entries of the three tables, and everything else as it was. -/
structure Written (pml4 lastPdpt offsetPdpt oldPml4 gigs : Nat) (mem mem' : Frames) : Prop where
  root : ∀ i, mem' pml4 i = if i = OFFSET_IDX then PTE.P ||| PTE.RW ||| offsetPdpt
    else if i = 511 then PTE.P ||| PTE.RW ||| lastPdpt else 0
  top : ∀ i, mem' lastPdpt i = if i = 511 then PTE.P ||| PTE.RW ||| oldPd oldPml4 mem
    else 0
  gigs : ∀ i, i < 512 → mem' offsetPdpt i = offsetEntry gigs i
  other : ∀ f, f ∉ [pml4, lastPdpt, offsetPdpt] → ∀ i, mem' f i = mem f i

section Written

variable {pml4 lastPdpt offsetPdpt oldPml4 gigs : Nat} {mem : Frames}

/-- The new entry for the old page directory. -/
theorem oldPd_entry (oldPml4 : Nat) (mem : Frames) :
    IsBranch 3 (PTE.P ||| PTE.RW ||| oldPd oldPml4 mem) ∧
      PTE.getPaddr (PTE.P ||| PTE.RW ||| oldPd oldPml4 mem) = oldPd oldPml4 mem :=
  table_entry (by omega) (getPaddr_dvd _) (getPaddr_lt _)

/-- The table for the top 512 GiB is a page. -/
theorem Site.last (h : Site pml4 lastPdpt offsetPdpt oldPml4 mem) :
    PTE_SIZE ∣ lastPdpt ∧ lastPdpt < 2 ^ 52 := h.page _ (by simp)

/-- The table of the offset mapping is a page. -/
theorem Site.offset (h : Site pml4 lastPdpt offsetPdpt oldPml4 mem) :
    PTE_SIZE ∣ offsetPdpt ∧ offsetPdpt < 2 ^ 52 := h.page _ (by simp)

/-- `setup` does not fail on such pages. -/
theorem setupTables_written (h : Site pml4 lastPdpt offsetPdpt oldPml4 mem) (gigs : Nat) :
    ∃ mem', setupTables pml4 lastPdpt offsetPdpt oldPml4 gigs mem = .ok mem' ∧
      Written pml4 lastPdpt offsetPdpt oldPml4 gigs mem mem' := by
  have hnodup := h.nodup
  have hold := h.old
  have holdPdpt := h.oldPdpt
  simp only [List.nodup_cons, List.mem_cons, List.not_mem_nil, or_false, not_or, not_false_eq_true,
    List.nodup_nil, and_true] at hnodup
  simp only [List.mem_cons, List.not_mem_nil, or_false, not_or] at hold holdPdpt
  obtain ⟨⟨hpl, hpo⟩, hlo⟩ := hnodup
  have hlast := h.last
  have hoffset := h.offset
  -- the old tables are read behind the first writes
  have hread : ∀ f i, f ≠ pml4 → f ≠ lastPdpt → writeEntry (zeroTable (zeroTable mem pml4) lastPdpt)
      pml4 511 (PTE.P ||| PTE.RW ||| lastPdpt) f i = mem f i := by
    intro f i hp hl
    unfold writeEntry zeroTable
    rw [if_neg fun hc => hp hc.1, if_neg hl, if_neg hp]
  unfold setupTables
  dsimp only
  rw [fromPaddr_of hlast.1 hlast.2, ok_bind]
  rw [hread oldPml4 511 hold.1 hold.2.1, hread _ 511 holdPdpt.1 holdPdpt.2.1,
    fromPaddr_of (getPaddr_dvd _) (getPaddr_lt _), ok_bind, fromPaddr_of hoffset.1 hoffset.2,
    ok_bind, writeOffsetEntries_eq _ _ _ _ (Nat.le_refl _)]
  refine ⟨_, rfl, ?_, ?_, ?_, ?_⟩
  · intro i
    unfold writeEntry zeroTable
    rw [if_neg fun hc => hpo hc.1]
    simp only [hpl, if_false, true_and, if_true]
    rfl
  · intro i
    unfold writeEntry zeroTable
    rw [if_neg fun hc => hlo hc.1]
    simp [Ne.symm hpl, oldPd]
  · intro i hi
    rw [if_pos ⟨rfl, hi⟩]
  · intro f hf i
    simp only [List.mem_cons, List.not_mem_nil, or_false, not_or] at hf
    unfold writeEntry zeroTable
    simp [hf]

variable {mem' : Frames} {a : Int}

/-- The tables below the old page directory are as they were. -/
theorem Written.agree (h : Written pml4 lastPdpt offsetPdpt oldPml4 gigs mem mem')
    (hs : Site pml4 lastPdpt offsetPdpt oldPml4 mem) : Agree mem mem' 2 (oldPd oldPml4 mem) :=
  fun f hf i => h.other f (hs.apart f hf) i

/-- A present entry is needed for a walk. -/
theorem translate_absent {mem : Frames} {lvl table : Nat}
    (he : mem table (tableIndex a (lvl + 1)) = 0) : translate mem (lvl + 1) table a = none := by
  unfold Amd64.translate
  simp only [walk]
  rw [he, contains_zero]
  rfl

/-- The two entries of the PML4, from the address. -/
theorem index_four (hlo : -2 ^ 47 ≤ a) (hhi : a < 2 ^ 47) :
    (tableIndex a 4 = OFFSET_IDX ↔ a < PHYS_LADDR_OFFSET + 2 ^ 39) ∧
      (tableIndex a 4 = 511 ↔ -2 ^ 39 ≤ a ∧ a < 0) := by
  have h := tableIndex_eq a 4
  rw [show (pageSize 4 : Int) = 2 ^ 39 by decide] at h
  rw [show PHYS_LADDR_OFFSET = -2 ^ 47 by decide, show OFFSET_IDX = 256 from rfl]
  omega

/-- The offset mapping: the gigabytes that it has are where they belong. -/
theorem Written.translate_offset
    (h : Written pml4 lastPdpt offsetPdpt oldPml4 gigs mem mem')
    (hs : Site pml4 lastPdpt offsetPdpt oldPml4 mem) (hlo : -2 ^ 47 ≤ a)
    (hhi : a < PHYS_LADDR_OFFSET + 2 ^ 39) :
    translate mem' 4 pml4 a = if a < PHYS_LADDR_OFFSET + gigs * 2 ^ 30
      then some (a - PHYS_LADDR_OFFSET).toNat else none := by
  have hOff : PHYS_LADDR_OFFSET = -2 ^ 47 := by decide
  have hidx : tableIndex a 4 = OFFSET_IDX := (index_four hlo (by omega)).1.mpr hhi
  have hentry := table_entry (l := 4) (by omega) hs.offset.1 hs.offset.2
  have hroot : mem' pml4 (tableIndex a 4) = PTE.P ||| PTE.RW ||| offsetPdpt := by
    rw [h.root, if_pos hidx]
  rw [translate_branch hroot hentry.1, hentry.2]
  -- the gigabyte of the address
  have hthree := tableIndex_eq a 3
  rw [show (pageSize 3 : Int) = 2 ^ 30 by decide] at hthree
  have hgig := h.gigs _ (tableIndex_lt a 3)
  unfold offsetEntry at hgig
  by_cases hlt : a < PHYS_LADDR_OFFSET + gigs * 2 ^ 30
  · have hi : tableIndex a 3 < gigs := by omega
    rw [if_pos hi] at hgig
    rw [if_pos hlt]
    obtain ⟨hP, hleaf, hpaddr⟩ := gig_entry (tableIndex_lt a 3)
    unfold Amd64.translate
    rw [walk_leaf hgig hP hleaf]
    show some (_ / pageSize 3 * pageSize 3 + _) = _
    dsimp only
    rw [hpaddr, show PDPTE_SIZE = pageSize 3 by decide, Nat.mul_div_cancel _ (pageSize_pos 3),
      show (pageSize 3 : Int) = 2 ^ 30 by decide, show pageSize 3 = 2 ^ 30 by decide]
    refine congrArg some ?_
    omega
  · rw [if_neg (by omega)] at hgig
    rw [if_neg hlt]
    exact translate_absent hgig

/-- The top GiB: what the old page directory says. -/
theorem Written.translate_top (h : Written pml4 lastPdpt offsetPdpt oldPml4 gigs mem mem')
    (hs : Site pml4 lastPdpt offsetPdpt oldPml4 mem) (hlo : -2 ^ 39 ≤ a) (hhi : a < 0) :
    translate mem' 4 pml4 a = if -2 ^ 30 ≤ a then translate mem 4 oldPml4 a else none := by
  have hidx : tableIndex a 4 = 511 := (index_four (by omega) (by omega)).2.mpr ⟨hlo, hhi⟩
  have hentry := table_entry (l := 4) (by omega) hs.last.1 hs.last.2
  have hroot : mem' pml4 (tableIndex a 4) = PTE.P ||| PTE.RW ||| lastPdpt := by
    rw [h.root, if_neg (by rw [hidx]; decide), if_pos hidx]
  rw [translate_branch hroot hentry.1, hentry.2]
  have hthree := tableIndex_eq a 3
  rw [show (pageSize 3 : Int) = 2 ^ 30 by decide] at hthree
  have htop := h.top (tableIndex a 3)
  by_cases hlast : -2 ^ 30 ≤ a
  · rw [if_pos (by omega)] at htop
    rw [if_pos hlast]
    have hentry' := oldPd_entry oldPml4 mem
    rw [translate_branch htop hentry'.1, hentry'.2]
    -- the old tables lead to the same page directory
    have hthree' : tableIndex a 3 = 511 := by omega
    rw [translate_branch (show mem oldPml4 (tableIndex a 4) = mem oldPml4 511 by rw [hidx])
      hs.branch,
      translate_branch (show mem _ (tableIndex a 3) = mem _ 511 by rw [hthree']) hs.branch']
    unfold Amd64.translate
    rw [walk_congr 2 a (h.agree hs)]
    rfl
  · rw [if_neg (by omega)] at htop
    rw [if_neg hlast]
    exact translate_absent htop

/-- No other address is mapped. -/
theorem Written.translate_other (h : Written pml4 lastPdpt offsetPdpt oldPml4 gigs mem mem')
    (hlo : PHYS_LADDR_OFFSET + 2 ^ 39 ≤ a) (hhi : a < 2 ^ 47) (hout : ¬ (-2 ^ 39 ≤ a ∧ a < 0)) :
    translate mem' 4 pml4 a = none := by
  have hOff : PHYS_LADDR_OFFSET = -2 ^ 47 := by decide
  obtain ⟨h256, h511⟩ := index_four (a := a) (by omega) hhi
  refine translate_absent ?_
  rw [h.root, if_neg (by rw [h256]; omega), if_neg (by rw [h511]; exact hout)]

/-- The branches of the new PML4. -/
theorem Written.root_branch (h : Written pml4 lastPdpt offsetPdpt oldPml4 gigs mem mem')
    (hs : Site pml4 lastPdpt offsetPdpt oldPml4 mem) {i : Nat} (hb : IsBranch 4 (mem' pml4 i)) :
    (i = OFFSET_IDX ∧ (mem' pml4 i).getPaddr = offsetPdpt) ∨
      (i = 511 ∧ (mem' pml4 i).getPaddr = lastPdpt) := by
  have hroot := h.root i
  by_cases h1 : i = OFFSET_IDX
  · rw [if_pos h1] at hroot
    rw [hroot]
    exact .inl ⟨h1, (table_entry (l := 4) (by omega) hs.offset.1 hs.offset.2).2⟩
  · rw [if_neg h1] at hroot
    by_cases h2 : i = 511
    · rw [if_pos h2] at hroot
      rw [hroot]
      exact .inr ⟨h2, (table_entry (l := 4) (by omega) hs.last.1 hs.last.2).2⟩
    · rw [if_neg h2] at hroot
      rw [hroot] at hb
      exact absurd hb (not_isBranch_zero 4)

/-- The table of the offset mapping has leaves only. -/
theorem Written.offset_leaf (h : Written pml4 lastPdpt offsetPdpt oldPml4 gigs mem mem') {i : Nat}
    (hi : i < 512) : ¬ IsBranch 3 (mem' offsetPdpt i) := by
  rw [h.gigs i hi]
  unfold offsetEntry
  split
  · exact (gig_entry hi).2.1
  · exact not_isBranch_zero 3

/-- The table for the top 512 GiB leads to the old page directory. -/
theorem Written.top_branch (h : Written pml4 lastPdpt offsetPdpt oldPml4 gigs mem mem')
    {i : Nat} (hb : IsBranch 3 (mem' lastPdpt i)) :
    i = 511 ∧ (mem' lastPdpt i).getPaddr = oldPd oldPml4 mem := by
  have htop := h.top i
  by_cases hi : i = 511
  · rw [if_pos hi] at htop
    rw [htop]
    exact ⟨hi, (oldPd_entry oldPml4 mem).2⟩
  · rw [if_neg hi] at htop
    rw [htop] at hb
    exact absurd hb (not_isBranch_zero 3)

/-- There is no table below the offset mapping. -/
theorem Written.uses_offset (h : Written pml4 lastPdpt offsetPdpt oldPml4 gigs mem mem') (f : Nat) :
    Uses mem' 3 offsetPdpt f ↔ f = offsetPdpt := by
  refine ⟨fun hu => ?_, fun hf => .inl hf⟩
  obtain hf | ⟨i, hi, hb, _⟩ := hu
  · exact hf
  · exact absurd hb (h.offset_leaf hi)

/-- Below the other one there are those of the boot loader. -/
theorem Written.uses_top (h : Written pml4 lastPdpt offsetPdpt oldPml4 gigs mem mem')
    (hs : Site pml4 lastPdpt offsetPdpt oldPml4 mem) (f : Nat) :
    Uses mem' 3 lastPdpt f ↔ f = lastPdpt ∨ Uses mem 2 (oldPd oldPml4 mem) f := by
  refine or_congr_right ⟨fun hu => ?_, fun hu => ?_⟩
  · obtain ⟨i, _, hb, hu⟩ := hu
    rw [(h.top_branch hb).2] at hu
    exact (uses_congr 2 (h.agree hs) f).mp hu
  · have htop := h.top 511
    rw [if_pos rfl] at htop
    have hentry := oldPd_entry oldPml4 mem
    refine ⟨511, by omega, ?_, ?_⟩
    · rw [htop]
      exact hentry.1
    · rw [htop, hentry.2]
      exact (uses_congr 2 (h.agree hs) f).mpr hu

/-- The tables that the processor uses afterwards. -/
theorem Written.uses (h : Written pml4 lastPdpt offsetPdpt oldPml4 gigs mem mem')
    (hs : Site pml4 lastPdpt offsetPdpt oldPml4 mem) (f : Nat) :
    Uses mem' 4 pml4 f ↔ f ∈ [pml4, lastPdpt, offsetPdpt] ∨ Uses mem 2 (oldPd oldPml4 mem) f := by
  simp only [List.mem_cons, List.not_mem_nil, or_false, or_assoc]
  refine or_congr_right ⟨fun hu => ?_, fun hu => ?_⟩
  · obtain ⟨i, _, hb, hu⟩ := hu
    obtain ⟨_, hp⟩ | ⟨_, hp⟩ := h.root_branch hs hb
    · rw [hp, h.uses_offset] at hu
      exact .inr (.inl hu)
    · rw [hp, h.uses_top hs] at hu
      exact hu.imp_right .inr
  · have hto : Uses mem' 3 lastPdpt f → ∃ i, i < 512 ∧ IsBranch 4 (mem' pml4 i) ∧
        Uses mem' 3 (mem' pml4 i).getPaddr f := by
      intro hu
      have hroot := h.root 511
      rw [if_neg (by decide), if_pos rfl] at hroot
      have hentry := table_entry (l := 4) (by omega) hs.last.1 hs.last.2
      refine ⟨511, by omega, ?_, ?_⟩
      · rw [hroot]
        exact hentry.1
      · rw [hroot, hentry.2]
        exact hu
    obtain hf | hf | hu := hu
    · exact hto ((h.uses_top hs f).mpr (.inl hf))
    · have hroot := h.root OFFSET_IDX
      rw [if_pos rfl] at hroot
      have hentry := table_entry (l := 4) (by omega) hs.offset.1 hs.offset.2
      refine ⟨OFFSET_IDX, by decide, ?_, ?_⟩
      · rw [hroot]
        exact hentry.1
      · rw [hroot, hentry.2]
        exact (h.uses_offset f).mpr hf
    · exact hto ((h.uses_top hs f).mpr (.inr hu))

/-- The new tables are a tree. -/
theorem Written.tree (h : Written pml4 lastPdpt offsetPdpt oldPml4 gigs mem mem')
    (hs : Site pml4 lastPdpt offsetPdpt oldPml4 mem) : Tree mem' 4 pml4 := by
  have hnodup := hs.nodup
  simp only [List.nodup_cons, List.mem_cons, List.not_mem_nil, or_false, not_or, not_false_eq_true,
    List.nodup_nil, and_true] at hnodup
  obtain ⟨⟨hpl, hpo⟩, hlo⟩ := hnodup
  have hapart : ∀ f, Uses mem 2 (oldPd oldPml4 mem) f →
      f ≠ pml4 ∧ f ≠ lastPdpt ∧ f ≠ offsetPdpt := by
    intro f hf
    have := hs.apart f hf
    simp only [List.mem_cons, List.not_mem_nil, or_false, not_or] at this
    exact this
  -- the offset mapping has no tables below, the top has those of the boot loader
  have hoffset : Tree mem' 3 offsetPdpt := fun i hi hb => absurd hb (h.offset_leaf hi)
  have htop : Tree mem' 3 lastPdpt := by
    intro i _ hb
    obtain ⟨rfl, hp⟩ := h.top_branch hb
    rw [hp]
    refine ⟨(tree_congr 2 (h.agree hs)).mpr hs.tree, fun hu => ?_, fun j _ hne hb' => ?_⟩
    · exact (hapart _ ((uses_congr 2 (h.agree hs) _).mp hu)).2.1 rfl
    · exact absurd (h.top_branch hb').1 hne
  -- the PML4 has these two, and they have no table in common
  intro i _ hb
  obtain ⟨rfl, hp⟩ | ⟨rfl, hp⟩ := h.root_branch hs hb
  · rw [hp]
    refine ⟨hoffset, fun hu => hpo ((h.uses_offset _).mp hu), fun j _ hne hb' f hf hf' => ?_⟩
    obtain ⟨hj, _⟩ | ⟨_, hp'⟩ := h.root_branch hs hb'
    · exact hne hj
    · rw [hp', h.uses_top hs] at hf'
      obtain rfl := (h.uses_offset f).mp hf
      obtain heq | hu := hf'
      · exact hlo heq.symm
      · exact (hapart _ hu).2.2 rfl
  · rw [hp]
    refine ⟨htop, fun hu => ?_, fun j _ hne hb' f hf hf' => ?_⟩
    · obtain heq | hu := (h.uses_top hs _).mp hu
      · exact hpl heq
      · exact (hapart _ hu).1 rfl
    · obtain ⟨_, hp'⟩ | ⟨hj, _⟩ := h.root_branch hs hb'
      · rw [hp', h.uses_offset] at hf'
        subst hf'
        obtain heq | hu := (h.uses_top hs _).mp hf
        · exact hlo heq.symm
        · exact (hapart _ hu).2.2 rfl
      · exact hne hj

/-- Every canonical address after `setup`. -/
theorem Written.translate_eq (h : Written pml4 lastPdpt offsetPdpt oldPml4 gigs mem mem')
    (hs : Site pml4 lastPdpt offsetPdpt oldPml4 mem) (hlo : -2 ^ 47 ≤ a) (hhi : a < 2 ^ 47) :
    translate mem' 4 pml4 a =
      if a < PHYS_LADDR_OFFSET + min gigs 512 * 2 ^ 30 then some (a - PHYS_LADDR_OFFSET).toNat
      else if -2 ^ 30 ≤ a ∧ a < 0 then translate mem 4 oldPml4 a
      else none := by
  have hOff : PHYS_LADDR_OFFSET = -2 ^ 47 := by decide
  by_cases hoffset : a < PHYS_LADDR_OFFSET + 2 ^ 39
  · rw [h.translate_offset hs hlo hoffset]
    by_cases hlt : a < PHYS_LADDR_OFFSET + gigs * 2 ^ 30
    · rw [if_pos hlt, if_pos (by omega)]
    · rw [if_neg hlt, if_neg (by omega), if_neg (by omega)]
  · rw [if_neg (by omega)]
    by_cases htop : -2 ^ 39 ≤ a ∧ a < 0
    · rw [h.translate_top hs htop.1 htop.2]
      by_cases hgig : -2 ^ 30 ≤ a
      · rw [if_pos hgig, if_pos ⟨hgig, htop.2⟩]
      · rw [if_neg hgig, if_neg fun hc => hgig hc.1]
    · rw [h.translate_other (by omega) hhi htop, if_neg (by omega)]

/-- After `setup` the first 512 GiB of physical memory are at the offset, as far as `gigs` goes, the
top GiB is where the boot loader had it, and nothing else is mapped. The tables are the three new
ones and those below the old page directory, and they are a tree. -/
theorem setupTables_translates (h : Site pml4 lastPdpt offsetPdpt oldPml4 mem) (gigs : Nat) :
    ∃ mem', setupTables pml4 lastPdpt offsetPdpt oldPml4 gigs mem = .ok mem' ∧
      Tree mem' 4 pml4 ∧
      (∀ f, Uses mem' 4 pml4 f ↔
        f ∈ [pml4, lastPdpt, offsetPdpt] ∨ Uses mem 2 (oldPd oldPml4 mem) f) ∧
      ∀ a, -2 ^ 47 ≤ a → a < 2 ^ 47 → translate mem' 4 pml4 a =
        if a < PHYS_LADDR_OFFSET + min gigs 512 * 2 ^ 30 then some (a - PHYS_LADDR_OFFSET).toNat
        else if -2 ^ 30 ≤ a ∧ a < 0 then translate mem 4 oldPml4 a
        else none := by
  obtain ⟨mem', hrun, hw⟩ := setupTables_written h gigs
  exact ⟨mem', hrun, hw.tree h, hw.uses h, fun a hlo hhi => hw.translate_eq h hlo hhi⟩

end Written

/-- A boot loader with its tables from 0x7ff0000 on, and a page of 2 MiB for the framebuffer, which
is at 0xE0000000. -/
def bootFrames : Frames := fun f i =>
  if f = 0x7ff0000 ∧ i = 511 then 0x7ff1003
  else if f = 0x7ff1000 ∧ i = 511 then 0x7ff2003
  else if f = 0x7ff2000 ∧ i = 480 then 0xE0000083
  else 0

/-- Its page directory. -/
theorem bootFrames_oldPd : oldPd 0x7ff0000 bootFrames = 0x7ff2000 := by decide

/-- The page directory has one entry, for the large page. -/
theorem bootFrames_pd (i : Nat) :
    bootFrames 0x7ff2000 i = if i = 480 then 0xE0000083 else 0 := by
  unfold bootFrames
  rw [if_neg (by omega), if_neg (by omega)]
  simp only [true_and]

/-- It leads to no table. -/
theorem bootFrames_leaves (i : Nat) : ¬ IsBranch 2 (bootFrames 0x7ff2000 i) := by
  rw [bootFrames_pd]
  split
  · exact fun hb => hb.2.2 ⟨by decide, by omega⟩
  · exact not_isBranch_zero 2

/-- So it is the only table below. -/
theorem bootFrames_uses {f : Nat} (hf : Uses bootFrames 2 (oldPd 0x7ff0000 bootFrames) f) :
    f = 0x7ff2000 := by
  rw [bootFrames_oldPd] at hf
  exact uses_leaves bootFrames_leaves hf

/-- Its tables are apart from the three pages. -/
theorem bootFrames_site : Site 0x200000 0x201000 0x202000 0x7ff0000 bootFrames := by
  refine ⟨by decide, by decide, by decide, by decide, by decide, by decide, by decide, ?_, ?_⟩
  · intro f hf
    rw [bootFrames_uses hf]
    decide
  · rw [bootFrames_oldPd]
    exact tree_leaves bootFrames_leaves

/-- Nothing in the top GiB but the framebuffer. -/
theorem bootFrames_data {a : Int} {x : Nat} (hlo : -2 ^ 30 ≤ a) (hhi : a < 0)
    (hx : translate bootFrames 4 0x7ff0000 a = some x) : 0xE0000000 ≤ x := by
  have h4 : tableIndex a 4 = 511 := (index_four (by omega) (by omega)).2.mpr ⟨by omega, hhi⟩
  have h3 : tableIndex a 3 = 511 := by
    have := tableIndex_eq a 3
    rw [show (pageSize 3 : Int) = 2 ^ 30 by decide] at this
    omega
  rw [translate_branch (by rw [h4]) bootFrames_site.branch,
    translate_branch (by rw [h3]) bootFrames_site.branch',
    show (bootFrames (bootFrames 0x7ff0000 511).getPaddr 511).getPaddr = 0x7ff2000 by decide] at hx
  have hpd := bootFrames_pd (tableIndex a 2)
  split at hpd
  · unfold Amd64.translate at hx
    rw [walk_leaf hpd (by decide) fun hb => hb.2.2 ⟨by decide, by omega⟩] at hx
    cases hx
    have hbase : PTE.getPaddr 0xE0000083 / pageSize 2 * pageSize 2 = 0xE0000000 := by decide
    show 0xE0000000 ≤ _ / pageSize 2 * pageSize 2 + _
    dsimp only
    rw [hbase]
    omega
  · rw [translate_absent hpd] at hx
    cases hx

/-- Memory at the offset, and the framebuffer where it was. -/
theorem setupTables_translates_low :
    ∃ mem', setupTables 0x200000 0x201000 0x202000 0x7ff0000 1 bootFrames = .ok mem' ∧
      translate mem' 4 0x200000 (PHYS_LADDR_OFFSET + 0x1234) = some 0x1234 ∧
      translate mem' 4 0x200000 (-0x4000000 + 0x1234) = some 0xE0001234 := by
  obtain ⟨mem', hrun, _, _, htranslate⟩ := setupTables_translates bootFrames_site 1
  refine ⟨mem', hrun, ?_, ?_⟩
  · rw [htranslate _ (by decide) (by decide), if_pos (by decide)]
    rfl
  · rw [htranslate _ (by decide) (by decide), if_neg (by decide), if_pos (by decide)]
    decide

/-! ## `setup` as a whole -/

/-- `Mapper::setup`: the PML4, and the state of memory and of the allocator. -/
def setupMapper (mmap : List MemRegion) (oldPml4 : Nat) (mem : Frames) :
    Except Fault (Nat × Machine (Memm.Talloc Memm.FreeLists)) := do
  let o ← setup mmap
  match o.tables with
  | [pml4, lastPdpt, offsetPdpt] =>
    let mem ← setupTables pml4 lastPdpt offsetPdpt oldPml4
      ((memEnd mmap + PDPTE_SIZE - 1) / PDPTE_SIZE) mem
    return (pml4, ⟨mem, o.talloc, []⟩)
  | _ => .error .assertion

end Tauos.Mapper
