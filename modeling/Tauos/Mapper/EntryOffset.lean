import Tauos.Mapper.MapSpan

/-!
# `get_entry_offset`

`kernel/src/memm/mod.rs`: the walk in software, from the PML4 to the entry that
translates `laddr` at a level. `map_offset` chooses the entry of each table by the
index of the address that is mapped. `get_entry_offset` does so only for the last
entry: on the way down it takes the index from `entry_ptr`, the address of the table
itself.

> `get_entry_offset_exact_iff`: it returns the right entry if and only if the tables
> met on both ways are the same at the level asked for.

The tables are mapped at an offset, so a pointer to a table stands for a physical
address. What `println!` prints on the way is left out.
-/

namespace Tauos.Mapper

open Tauos.Rust Tauos.Amd64

def PHYS_LADDR_OFFSET : Int := -0o400_000_000_000_0000

/-- `from_phys_addr!`. -/
def fromPhysAddr (paddr : Nat) : Except Fault Int := isizeAdd (asIsize paddr) PHYS_LADDR_OFFSET

/-- The frame that a pointer of the offset mapping points to. -/
def frameOf (ptr : Int) : Nat := (ptr - PHYS_LADDR_OFFSET).toNat

/-- `entry_ptr.wrapping_add(index)` on pointers to entries of 8 bytes. -/
def entryAdd (entryPtr : Int) (index : Nat) : Int := wrappingAdd entryPtr (8 * index)

/-- The loop of `get_entry_offset`, and what it returns. -/
def entryLoop (mem : Frames) (laddr : Int) (lvl : Nat) : Nat → Int → Except Fault Int
  | 0, entryPtr => return entryAdd entryPtr (tableIndex laddr 0)
  | lvlIdx + 1, entryPtr =>
    if lvl < lvlIdx + 1 then do
      -- the index is the one of `entry_ptr`, not of `laddr`
      let pte := mem (frameOf entryPtr) (tableIndex entryPtr (lvlIdx + 1))
      let entryPtr ← fromPhysAddr pte.getPaddr
      entryLoop mem laddr lvl lvlIdx entryPtr
    else return entryAdd entryPtr (tableIndex laddr (lvlIdx + 1))

/-- `get_entry_offset`. -/
def getEntryOffset (mem : Frames) (laddr : Int) (lvl : Nat) (pml4 : Int) : Except Fault Int :=
  entryLoop mem laddr lvl 4 pml4

/-! ## The walk of an address -/

/-- The table of level `lvl` that the walk of `laddr` reaches through branches. -/
def tableAt (mem : Frames) (laddr : Int) (lvl : Nat) : Nat → Nat → Option Nat
  | 0, table => if lvl = 0 then some table else none
  | l + 1, table =>
    if lvl = l + 1 then some table
    else if IsBranch (l + 1) (mem table (tableIndex laddr (l + 1))) then
      tableAt mem laddr lvl l (mem table (tableIndex laddr (l + 1))).getPaddr
    else none

/-- The pointer to an entry of a table. -/
def entryPtr (table index : Nat) : Int := entryAdd (table + PHYS_LADDR_OFFSET) index

/-- From `own` on, each table is asked for the entry under its own address; from `table` on,
for the entry of `laddr`. Both come to the same table at `lvl`. -/
def Meet (mem : Frames) (laddr : Int) (lvl : Nat) : Nat → Nat → Nat → Prop
  | 0, own, table => own = table
  | l + 1, own, table =>
    if lvl < l + 1 then
      Meet mem laddr lvl l (mem own (tableIndex (own + PHYS_LADDR_OFFSET) (l + 1))).getPaddr
        (mem table (tableIndex laddr (l + 1))).getPaddr
    else own = table

instance decidableMeet (mem : Frames) (laddr : Int) (lvl : Nat) : ∀ l own table,
    Decidable (Meet mem laddr lvl l own table)
  | 0, own, table => inferInstanceAs (Decidable (own = table))
  | l + 1, _, _ =>
    if h : lvl < l + 1 then
      have := decidableMeet mem laddr lvl l
      decidable_of_iff _ (iff_of_eq (if_pos h).symm)
    else decidable_of_iff _ (iff_of_eq (if_neg h).symm)

/-- The entry is the first one written between the two states. -/
def FirstWritten {γ : Type} (table index : Nat) (s s' : Machine γ) : Prop :=
  ∃ tr e, s'.trace = s.trace ++ tr ∧ (slots tr).head? = some ((table, index), e)

/-- `get_entry_offset` returns the entry of `laddr` in the table `T`, which is the one that
`map_offset` writes first, when it maps `laddr` with a page or a new table at this level. -/
structure EntryExact (mem : Frames) (laddr : Int) (lvl pml4 T : Nat) : Prop where
  returned : getEntryOffset mem laddr lvl (pml4 + PHYS_LADDR_OFFSET) =
    .ok (entryPtr T (tableIndex laddr lvl))
  written : ∀ {γ : Type} {pageGetter : γ → Nat → Except Fault (Nat × γ)} {acme : Int}
    {branches leaves : PTE} {s s' : Machine γ}, s.mem = mem → laddr < acme → acme ≤ 2 ^ 47 →
    (∀ k, lvl < k → ¬ LeafAt acme k laddr) →
    (LeafAt acme lvl laddr ∨ (mem T (tableIndex laddr lvl)).contains PTE.P = false) →
    mapOffset pageGetter acme branches leaves 4 laddr pml4 s = .ok s' →
    FirstWritten T (tableIndex laddr lvl) s s'

variable {mem : Frames} {laddr : Int} {lvl T : Nat}

theorem tableAt_zero {table : Nat} (h : tableAt mem laddr lvl 0 table = some T) :
    lvl = 0 ∧ T = table := by
  unfold tableAt at h
  split at h
  next hl =>
    cases h
    exact ⟨hl, rfl⟩
  next => cases h

theorem tableAt_succ {l table : Nat} (h : tableAt mem laddr lvl (l + 1) table = some T) :
    (lvl = l + 1 ∧ T = table) ∨
    (lvl ≠ l + 1 ∧ IsBranch (l + 1) (mem table (tableIndex laddr (l + 1))) ∧
      tableAt mem laddr lvl l (mem table (tableIndex laddr (l + 1))).getPaddr = some T) := by
  unfold tableAt at h
  split at h
  next hl =>
    cases h
    exact Or.inl ⟨hl, rfl⟩
  next hl =>
    split at h
    next hb => exact Or.inr ⟨hl, hb, h⟩
    next => cases h

theorem getPaddr_lt (pte : PTE) : pte.getPaddr < 2 ^ 52 :=
  Nat.lt_of_le_of_lt Nat.and_le_right (by decide)

theorem tableAt_lt : ∀ (l : Nat) {table : Nat}, table < 2 ^ 52 →
    tableAt mem laddr lvl l table = some T → T < 2 ^ 52 := by
  intro l
  induction l with
  | zero =>
    intro table ht h
    rw [(tableAt_zero h).2]
    exact ht
  | succ l ih =>
    intro table ht h
    rcases tableAt_succ h with ⟨_, rfl⟩ | ⟨_, _, h⟩
    · exact ht
    · exact ih (getPaddr_lt _) h

/-! ## Pointers to entries -/

theorem fromPhysAddr_of_lt {p : Nat} (h : p < 2 ^ 52) :
    fromPhysAddr p = .ok (p + PHYS_LADDR_OFFSET) := by
  have hOff : PHYS_LADDR_OFFSET = -2 ^ 47 := by decide
  have hp : asIsize p = p := bmod_of_inIsize ⟨by omega, by omega⟩
  unfold fromPhysAddr
  rw [hp]
  exact if_pos ⟨by omega, by omega⟩

theorem entryPtr_inj {table table' index : Nat} (h : table < 2 ^ 52) (h' : table' < 2 ^ 52)
    (hi : index < 512) : entryPtr table index = entryPtr table' index ↔ table = table' := by
  have hOff : PHYS_LADDR_OFFSET = -2 ^ 47 := by decide
  unfold entryPtr entryAdd
  rw [wrappingAdd_of_inIsize ⟨by omega, by omega⟩, wrappingAdd_of_inIsize ⟨by omega, by omega⟩]
  omega

theorem frameOf_add (table : Nat) : frameOf (table + PHYS_LADDR_OFFSET) = table := by
  unfold frameOf
  omega

theorem ok_entryPtr_iff {table index : Nat} (h : table < 2 ^ 52) (hT : T < 2 ^ 52)
    (hi : index < 512) :
    (Except.ok (entryPtr table index) : Except Fault Int) = .ok (entryPtr T index) ↔ table = T := by
  rw [Except.ok.injEq, entryPtr_inj h hT hi]

/-- The loop comes to the table `T` exactly if the two ways meet. -/
theorem entryLoop_iff : ∀ (l : Nat) {own table : Nat}, own < 2 ^ 52 → T < 2 ^ 52 → lvl ≤ l →
    tableAt mem laddr lvl l table = some T →
    (entryLoop mem laddr lvl l (own + PHYS_LADDR_OFFSET) = .ok (entryPtr T (tableIndex laddr lvl)) ↔
      Meet mem laddr lvl l own table) := by
  intro l
  induction l with
  | zero =>
    intro own table hown hT _ h
    obtain ⟨rfl, rfl⟩ := tableAt_zero h
    exact ok_entryPtr_iff hown hT (tableIndex_lt laddr 0)
  | succ l ih =>
    intro own table hown hT hle h
    rw [entryLoop, Meet]
    rcases tableAt_succ h with ⟨rfl, rfl⟩ | ⟨hne, _, h⟩
    · rw [if_neg (Nat.lt_irrefl _), if_neg (Nat.lt_irrefl _)]
      exact ok_entryPtr_iff hown hT (tableIndex_lt laddr _)
    · rw [if_pos (by omega), if_pos (by omega), frameOf_add]
      dsimp only
      rw [fromPhysAddr_of_lt (getPaddr_lt _), ok_bind]
      exact ih (getPaddr_lt _) hT (by omega) h

/-! ## The first entry that `map_offset` writes -/

section First

variable {γ : Type} {pageGetter : γ → Nat → Except Fault (Nat × γ)} {acme : Int}
  {branches leaves : PTE} {s s' : Machine γ}

theorem FirstWritten.grows {table index : Nat} {s₁ : Machine γ} (h : FirstWritten table index s s₁)
    (hg : Grows s₁ s') : FirstWritten table index s s' := by
  obtain ⟨tr, e, htr, hhead⟩ := h
  obtain ⟨tr', htr'⟩ := hg
  refine ⟨tr ++ tr', e, by rw [htr', htr, List.append_assoc], ?_⟩
  rw [slots_append, List.head?_append, hhead]
  rfl

/-- The body of the loop starts with the entry at `base`. -/
theorem mapEntry_first {base : Int} {table : Nat}
    {lower : Int → Nat → Machine γ → Except Fault (Machine γ)} (hspan : InSpan acme base)
    (hl : lvl ≤ 4) (hlower : ∀ table s s', lower base table s = .ok s' → Grows s s')
    (hwrites : LeafAt acme lvl base ∨ (s.mem table (tableIndex base lvl)).contains PTE.P = false)
    (h : mapEntry pageGetter acme branches leaves lower lvl base table s = .ok s') :
    FirstWritten table (tableIndex base lvl) s s' := by
  obtain ⟨_, p, s₁, e, hget, _, rfl⟩ | ⟨hleaf, hP, _⟩ | ⟨_, _, p, s₁, hget, h⟩ :=
    mapEntry_cases hspan hl h
  · obtain ⟨g, _, rfl⟩ := Machine.getPage_ok hget
    exact ⟨_, e, List.append_assoc _ _ _, rfl⟩
  · rcases hwrites with hc | hc
    · exact absurd hc hleaf
    · rw [hP] at hc
      cases hc
  · obtain ⟨g, _, rfl⟩ := Machine.getPage_ok hget
    refine FirstWritten.grows ?_ (hlower _ _ _ h)
    refine ⟨[.got PTE_SIZE p, .zeroed p,
      .wrote table (tableIndex base lvl) (PTE.P ||| p ||| branches),
      .followed lvl (PTE.P ||| p ||| branches)], PTE.P ||| p ||| branches, ?_, rfl⟩
    simp [Machine.follow, Machine.write, Machine.zero]

/-- A call for `base` starts with the body of its loop at `base`. -/
theorem mapOffset_turn {l table : Nat} {base : Int} (hspan : InSpan acme base)
    (h : mapOffset pageGetter acme branches leaves (l + 1) base table s = .ok s') :
    ∃ s₁, mapEntry pageGetter acme branches leaves (mapOffset pageGetter acme branches leaves l)
      (l + 1) base table s = .ok s₁ ∧ Grows s₁ s' := by
  rw [mapOffset] at h
  split at h
  next => cases h
  next hl =>
    unfold PML4_LVL at hl
    rw [mapLoop, if_pos hspan.lt] at h
    obtain ⟨s₁, hentry, h⟩ := bind_ok h
    refine ⟨s₁, hentry, ?_⟩
    split at h
    next =>
      cases h
      exact ⟨[], (List.append_nil _).symm⟩
    next =>
      have hpos := cast_pageSize_pos (l + 1)
      rw [hspan.wrap (by omega)] at h
      exact mapLoop_grows (by omega) (fun b hb => mapOffset_grows l hb) _
        (by have := hspan.low; omega) hspan.high h

/-- `map_offset` for `laddr` goes down the walk of `laddr` and writes the entry there. -/
theorem mapOffset_first (hspan : InSpan acme laddr) (hlvl : 1 ≤ lvl)
    (habove : ∀ k, lvl < k → ¬ LeafAt acme k laddr) : ∀ (l : Nat) {table : Nat} {s s' : Machine γ},
    l ≤ 4 → lvl ≤ l → tableAt s.mem laddr lvl l table = some T →
    (LeafAt acme lvl laddr ∨ (s.mem T (tableIndex laddr lvl)).contains PTE.P = false) →
    mapOffset pageGetter acme branches leaves l laddr table s = .ok s' →
    FirstWritten T (tableIndex laddr lvl) s s' := by
  intro l
  induction l with
  | zero =>
    intro table s s' _ _ _ _ h
    cases h
  | succ l ih =>
    intro table s s' hl hle htable hwrites h
    obtain ⟨s₁, hentry, hgrows⟩ := mapOffset_turn hspan h
    refine FirstWritten.grows ?_ hgrows
    have hlower : ∀ table s s',
        mapOffset pageGetter acme branches leaves l laddr table s = .ok s' → Grows s s' :=
      mapOffset_grows l hspan
    rcases tableAt_succ htable with ⟨rfl, rfl⟩ | ⟨hne, hb, htable⟩
    · exact mapEntry_first hspan hl hlower hwrites hentry
    · -- the entry is present and the call goes on in its table
      obtain ⟨hleaf, _⟩ | ⟨_, _, h⟩ | ⟨_, hP, _⟩ := mapEntry_cases hspan hl hentry
      · exact absurd hleaf (habove _ (by omega))
      · have hmem : (s.follow (l + 1) (s.mem table (tableIndex laddr (l + 1)))).mem = s.mem := rfl
        rw [← hmem] at htable hwrites
        obtain ⟨tr, e, htr, hhead⟩ := ih (by omega) (by omega) htable hwrites h
        exact ⟨.followed (l + 1) _ :: tr, e, htr.trans (List.append_assoc _ _ _), hhead⟩
      · rw [hb.1] at hP
        cases hP

end First

/-- `get_entry_offset` returns the entry that translates `laddr` at a level, and that
`map_offset` writes there, if and only if the tables that it meets by their own addresses
lead to the table of the walk. -/
theorem get_entry_offset_exact_iff {pml4 : Nat} (hlow : -2 ^ 47 ≤ laddr) (hlvl : 1 ≤ lvl)
    (hlvl' : lvl ≤ 4) (hpml4 : pml4 < 2 ^ 52) (hT : tableAt mem laddr lvl 4 pml4 = some T) :
    EntryExact mem laddr lvl pml4 T ↔ Meet mem laddr lvl 4 pml4 pml4 := by
  have hiff := entryLoop_iff 4 hpml4 (tableAt_lt 4 hpml4 hT) hlvl' hT
  constructor
  · intro h
    exact hiff.mp h.returned
  · intro h
    refine ⟨hiff.mpr h, fun hmem hlt hhigh habove hwrites hrun => ?_⟩
    subst hmem
    exact mapOffset_first ⟨hlow, hlt, hhigh⟩ hlvl habove 4 (Nat.le_refl 4) hlvl' hT hwrites hrun

/-- A PML4 at `0x1000` whose entry 0 has the table at `0x2000`, and whose entry 256, of the
offset mapping, the table at `0x3000`. -/
def offsetMapped (f i : Nat) : PTE :=
  if f = 0x1000 ∧ i = 0 then PTE.P ||| 0x2000 else if f = 0x1000 ∧ i = 256 then PTE.P ||| 0x3000
    else 0

theorem get_entry_offset_own : tableAt offsetMapped PHYS_LADDR_OFFSET 3 4 0x1000 = some 0x3000 ∧
    EntryExact offsetMapped PHYS_LADDR_OFFSET 3 0x1000 0x3000 := by
  have htable : tableAt offsetMapped PHYS_LADDR_OFFSET 3 4 0x1000 = some 0x3000 := by decide
  refine ⟨htable, (get_entry_offset_exact_iff ?_ ?_ ?_ ?_ htable).mpr ?_⟩
  · decide
  · decide
  · decide
  · decide
  · decide

/-- For address 0 the entry of the wrong table is returned. -/
theorem get_entry_offset_wrong_table : tableAt offsetMapped 0 3 4 0x1000 = some 0x2000 ∧
    getEntryOffset offsetMapped 0 3 (0x1000 + PHYS_LADDR_OFFSET) =
      .ok (0x3000 + PHYS_LADDR_OFFSET) ∧
    ¬ EntryExact offsetMapped 0 3 0x1000 0x2000 := by
  have hrun : getEntryOffset offsetMapped 0 3 (0x1000 + PHYS_LADDR_OFFSET) =
      .ok (0x3000 + PHYS_LADDR_OFFSET) := by decide
  refine ⟨by decide, hrun, fun h => ?_⟩
  have hret := h.returned
  rw [Nat.cast_ofNat, hrun] at hret
  revert hret
  decide

end Tauos.Mapper
