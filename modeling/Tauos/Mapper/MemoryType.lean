import Tauos.Amd64.Pat
import Tauos.Mapper.LeafEntry
import Tauos.Mapper.MapResult

/-!
# Memory types of mapped pages

`KRNL_DEFAULT_PAT` and `pat_type_to_pte` of `kernel/src/memm/mod.rs`. `_start` writes the table
first, and `map_offset` takes the flags for a type as those of a 4 KiB page, whatever the level of
the leaf.

> `mapOffset_memoryType`: the processor has the type for every page that is mapped.
-/

namespace Tauos.Mapper

open Tauos.Rust Tauos.Amd64

/-- The table of the kernel. -/
def KRNL_DEFAULT_PAT : Pat where
  stdTypes := #v[.writeBack, .writeThrough, .uncacheableMinus, .uncacheable]
  -- the last two are reserved
  patTypes := #v[.writeCombining, .writeProtect, .uncacheableMinus, .uncacheableMinus]

/-- The index of a type in `KRNL_DEFAULT_PAT`. -/
def patTypeIdx : PatType → Nat
  | .uncacheable => 3
  | .writeCombining => 4
  | .writeThrough => 1
  | .writeProtect => 5
  | .writeBack => 0
  | .uncacheableMinus => 2

/-- `pat_type_to_pte`. -/
def patTypeToPte (patType : PatType) (isHpage : Bool) : PTE :=
  PTE.fromPat (patTypeIdx patType) isHpage

theorem patTypeIdx_lt (t : PatType) : patTypeIdx t < 8 := by cases t <;> decide

/-- It has each type at its index. -/
theorem types_patTypeIdx (t : PatType) (hlt : patTypeIdx t < 8) :
    KRNL_DEFAULT_PAT.types[patTypeIdx t] = t := by
  cases t <;> rfl

/-- The type of a page with the index. -/
theorem memoryType_patTypeIdx (msrs : Msrs) (t : PatType) :
    memoryType (KRNL_DEFAULT_PAT.write msrs) (patTypeIdx t) = t.toBits.setWidth 3 := by
  rw [memoryType_write _ _ (patTypeIdx_lt t), types_patTypeIdx]

section Leaf

variable {paddr patIdx lvl : Nat} {flags : PTE}

/-- The entry holds the index at every level. -/
theorem leafEntry_patIndex (h1 : 1 ≤ lvl) (hal : pageSize lvl ∣ paddr) (hlt : paddr < 2 ^ 52)
    (hidx : patIdx < 8) (hflags : OtherFlags flags) {e : PTE}
    (he : leafEntry (PTE.fromPat patIdx false ||| flags) lvl paddr = .ok e) :
    patIndex lvl e = patIdx := by
  rw [leafEntry_value lvl _ (page_dvd_frame h1 hal) hlt] at he
  obtain rfl | hlvl := Nat.eq_or_lt_of_le h1
  · cases he
    exact (decodes_page hal hlt hidx hflags).patIndex
  · have hne : lvl ≠ PT_LVL := Nat.ne_of_gt hlvl
    rw [if_neg hne, testBit_entry patIdx hal hflags 7 (by omega) (by omega)] at he
    cases hhigh : (PTE.fromPat patIdx false).testBit 7 with
    | false =>
      rw [hhigh] at he
      cases he
      exact (decodes_large hlvl hal hlt hflags hidx hhigh).patIndex
    | true =>
      -- bit 12 is where the index has its high bit
      rw [hhigh] at he
      cases he
      refine patIndex_large hlvl hal hflags hidx (fun i hi => ?_) (by rw [hhigh]; decide)
      rw [show PTE.PAT_PS = 2 ^ 12 from rfl, Nat.testBit_two_pow] at hi
      exact .inr (of_decide_eq_true hi).symm

end Leaf

section Results

variable {γ : Type} {pageGetter : γ → Nat → Except Fault (Nat × γ)} {Avail : γ → Nat → Prop}
  {acme base a : Int} {branches flags : PTE} {table : Nat} {s s' : Machine γ}

/-- With the flags of a type, `map_offset::<4>` gives that type to every page that it maps, on every
processor that has written `KRNL_DEFAULT_PAT`. -/
theorem mapOffset_memoryType (hsup : Supply pageGetter Avail) (t : PatType)
    (h : Ready Avail acme base branches (patTypeToPte t false ||| flags) table s)
    (hopen : Open acme s.mem 4 table base) (hflags : OtherFlags flags)
    (hrun : mapOffset pageGetter acme branches (patTypeToPte t false ||| flags) 4 base table s =
      .ok s')
    (ha : (PTE_SIZE : Int) ∣ a) (hm : Met acme base a) (msrs : Msrs) :
    ∃ leaf, walk s'.mem 4 table a = some leaf ∧
      memoryType (KRNL_DEFAULT_PAT.write msrs) (patIndex leaf.lvl leaf.pte)
        = t.toBits.setWidth 3 := by
  obtain ⟨tr, heff⟩ := mapOffset_effect hsup h.flags 4 h.inSpan table s s' h.tree h.fresh hopen hrun
  obtain ⟨leaf, p, hw, hlvl, he, hframe, _⟩ := heff.hit a (hm.sameTable h) (hm.hit h ha)
  rw [← hlvl] at he
  have h1 := walk_lvl_pos 4 hw
  have hal : pageSize leaf.lvl ∣ p := hframe ▸ Nat.dvd_mul_left ..
  have hlt : p < 2 ^ 52 := by
    have hmask : leaf.pte.getPaddr < 2 ^ 52 := Nat.and_lt_two_pow _ (by decide)
    rw [← hframe]
    exact Nat.lt_of_le_of_lt (Nat.div_mul_le_self ..) hmask
  refine ⟨leaf, hw, ?_⟩
  rw [leafEntry_patIndex h1 hal hlt (patTypeIdx_lt t) hflags he, memoryType_patTypeIdx]

end Results

/-- Write-combining pages from 2 MiB on, the first one large. -/
theorem mapOffset_memoryType_writeCombining : ∃ s' leaf,
    mapOffset bumpGetter 0x401000 3 (patTypeToPte .writeCombining false ||| 3) 4 0x200000 0x1000
      emptyMachine = .ok s' ∧ walk s'.mem 4 0x1000 0x200000 = some leaf ∧
      memoryType (KRNL_DEFAULT_PAT.write fun _ => 0) (patIndex leaf.lvl leaf.pte) = 1 := by
  obtain ⟨s', hrun, _⟩ := exists_ok (f := fun _ => ()) (b := ())
    (show (mapOffset bumpGetter 0x401000 3 (patTypeToPte .writeCombining false ||| 3) 4 0x200000
      0x1000 emptyMachine).toOption.map _ = _ by decide +kernel)
  have hready₀ : Ready BumpAvail 0x401000 0x200000 3 3 0x1000 emptyMachine :=
    emptyMachine_ready (by decide) (by decide) (by decide) (by decide)
  have hready : Ready BumpAvail 0x401000 0x200000 3 (patTypeToPte .writeCombining false ||| 3) 0x1000
      emptyMachine := { hready₀ with flags := ⟨by decide, by decide, by decide⟩ }
  have hmet : Met 0x401000 0x200000 0x200000 :=
    ⟨by decide, by decide, .inl (by decide), fun ⟨_, _, _, hlt⟩ => Int.lt_irrefl _ hlt⟩
  obtain ⟨leaf, hw, htype⟩ := mapOffset_memoryType bumpGetter_supply .writeCombining hready
    (open_empty (fun _ => rfl) 4 _) (by decide) hrun (by decide) hmet fun _ => 0
  exact ⟨s', leaf, hrun, hw, htype⟩

end Tauos.Mapper
