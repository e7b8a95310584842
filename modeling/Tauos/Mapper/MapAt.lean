import Tauos.Mapper.MapOffset

/-!
# `map_offset_at`

`kernel/src/memm/mod.rs`: `map_offset` for a span whose physical memory is
given. It shares the entry format with `map_offset`, and `base` and `paddr`
advance together.

Its assertion lets only levels pass that no page table has, so that a call for
a level of the processor panics (`mapOffsetAt_panics`).
-/

namespace Tauos.Mapper

open Tauos.Rust Tauos.Amd64

section MapAt

variable {γ : Type} (pageGetter : γ → Except Fault (Nat × γ)) (acme : Int) (branches leaves : PTE)

/-- The body of the loop of `map_offset_at`, up to the advance of `base` and `paddr`. -/
def mapEntryAt (lower : Int → Nat → Nat → Machine γ → Except Fault (Machine γ)) (lvl : Nat)
    (base : Int) (paddr table : Nat) (s : Machine γ) : Except Fault (Machine γ) := do
  let index := tableIndex base lvl
  let psAligned := (asUsize base ||| paddr) &&& (pageSize lvl - 1) == 0
  let remaining ← usizeSub (← usizeAdd (asUsize (← isizeSub acme base)) PTE_SIZE) 1
  if lvl = PT_LVL ∨ (pageSize lvl ≤ remaining ∧ psAligned ∧ lvl < 4) then
    -- create leaf entry, mapping physical to virtual memory
    return s.write table index (← leafEntry leaves lvl paddr)
  else
    -- create and navigate a branch
    let s ← if (s.mem table index).contains PTE.P then pure s
      else newTable (fun pages _ => pageGetter pages) branches table index s
    let pte := s.mem table index
    lower base paddr pte.getPaddr (s.follow lvl pte)

/-- The loop across the entries of a table. -/
def mapLoopAt (lower : Int → Nat → Nat → Machine γ → Except Fault (Machine γ)) (lvl table : Nat) :
    Nat → Int → Nat → Machine γ → Except Fault (Machine γ)
  | 0, _, _, _ => .error .fuel
  | fuel + 1, base, paddr, s =>
    if base < acme then do
      let s ← mapEntryAt pageGetter acme branches leaves lower lvl base paddr table s
      let paddr ← usizeAdd paddr (pageSize lvl)
      if tableIndex base lvl = 511 then return s
      else mapLoopAt lower lvl table fuel (wrappingAdd base (pageSize lvl)) paddr s
    else return s

/-- `map_offset_at::<LVL>`. There is a next level for 2, 3 and 4 only. -/
def mapOffsetAt : Nat → Int → Nat → Nat → Machine γ → Except Fault (Machine γ)
  | 0, base, paddr, table, s => do
    ensure (0 < PT_LVL || PML4_LVL < 0)
    mapLoopAt pageGetter acme branches leaves (fun _ _ _ _ => .error .undefined) 0 table 512 base
      paddr s
  | lvl + 1, base, paddr, table, s => do
    ensure (lvl + 1 < PT_LVL || PML4_LVL < lvl + 1)
    mapLoopAt pageGetter acme branches leaves
      (if 2 ≤ lvl + 1 ∧ lvl + 1 ≤ 4 then mapOffsetAt lvl else fun _ _ _ _ => .error .undefined)
      (lvl + 1) table 512 base paddr s

/-- The call returns, and the walk from its table takes the span to the memory at `paddr`. -/
def MapsLinearly (lvl : Nat) (base : Int) (paddr table : Nat) (s : Machine γ) : Prop :=
  ∃ s', mapOffsetAt pageGetter acme branches leaves lvl base paddr table s = .ok s' ∧
    ∀ a, base ≤ a → a < acme →
      translate s'.mem lvl table a = some (paddr + (a - base).toNat)

/-- A call for a level of the processor panics, before it looks at anything else. -/
theorem mapOffsetAt_panics {lvl : Nat} (h1 : PT_LVL ≤ lvl) (h4 : lvl ≤ PML4_LVL) (base : Int)
    (paddr table : Nat) (s : Machine γ) :
    mapOffsetAt pageGetter acme branches leaves lvl base paddr table s = .error .assertion := by
  cases lvl with
  | zero => cases h1
  | succ lvl =>
    rw [mapOffsetAt]
    have hc : (decide (lvl + 1 < PT_LVL) || decide (PML4_LVL < lvl + 1)) = false := by
      simp [Nat.not_lt.mpr h1, Nat.not_lt.mpr h4]
    rw [hc]
    rfl

/-- So no call for a valid level maps its span. -/
theorem mapOffsetAt_never_maps {lvl : Nat} (h1 : PT_LVL ≤ lvl) (h4 : lvl ≤ PML4_LVL) (base : Int)
    (paddr table : Nat) (s : Machine γ) :
    ¬ MapsLinearly pageGetter acme branches leaves lvl base paddr table s := by
  intro h
  obtain ⟨s', hrun, _⟩ := h
  rw [mapOffsetAt_panics pageGetter acme branches leaves h1 h4] at hrun
  cases hrun

end MapAt

/-- Tables at `0x10000` and up are handed out one by one; all tables are empty. -/
def emptyTables : Machine Nat := ⟨fun _ _ => 0, 0x10000, []⟩

/-- One page at address 0, for the frame `0x5000`. -/
theorem mapOffsetAt_one_page :
    mapOffsetAt (fun next => .ok (next, next + 0x1000)) 0x1000 3 3 4 0 0x5000 0x1000 emptyTables =
      .error .assertion ∧
    ¬ MapsLinearly (fun next => .ok (next, next + 0x1000)) 0x1000 3 3 4 0 0x5000 0x1000
      emptyTables := by
  refine ⟨rfl, ?_⟩
  intro h
  obtain ⟨s', hrun, _⟩ := h
  cases hrun

/-- The same for the table of level 1. -/
theorem mapOffsetAt_never_maps_pt :
    ¬ MapsLinearly (fun next => .ok (next, next + 0x1000)) 0x1000 3 3 1 0 0x5000 0x1000
      emptyTables :=
  mapOffsetAt_never_maps _ 0x1000 3 3 (by decide) (by decide) 0 0x5000 0x1000 emptyTables

end Tauos.Mapper
