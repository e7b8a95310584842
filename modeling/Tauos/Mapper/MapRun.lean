import Tauos.Mapper.PhysMem
import Tauos.Mapper.Tables

/-!
# Runs of `Mapper::map`

What holds after any number of calls of `Mapper::map` on one tree of tables. `Sound` is the state
that a call needs and leaves: a tree of tables, none of which is free, and no page outside of the
offset mapping is on free memory. (In the offset mapping all of physical memory is mapped, free or
not.) `Isolated` is what the calls are for: each page that they mapped is on a frame that no other
page is on.

> `mapRun_isolates`: for any `page_getter` that supplies fresh pages.
> `boot_run_isolates`: for the tables and the allocator that `setup` makes.
-/

namespace Tauos.Mapper

open Tauos.Rust Tauos.Amd64 Tauos.Memm

/-- A call of `Mapper::map`. -/
structure MapRequest where
  base : Int
  size : Nat
  branches : PTE
  leaves : PTE
  deriving DecidableEq, Repr

namespace MapRequest

/-- What the call does. -/
def run {γ : Type} (pageGetter : γ → Nat → Except Fault (Nat × γ)) (pml4 : Nat) (c : MapRequest)
    (s : Machine γ) : Except Fault (Mapping × Machine γ) :=
  mapperMap pageGetter c.base c.size c.branches c.leaves pml4 s

/-- The span that `Mapper::map` makes of the request. -/
def first (c : MapRequest) : Int := maskDown c.base PTE_SIZE

/-- The end of the span. -/
def acme (c : MapRequest) : Int :=
  wrappingAdd c.first ((c.size + PTE_SIZE - 1) / PTE_SIZE * PTE_SIZE : Nat)

/-- The page is in the span, and `map_offset` does not skip it. -/
def Maps (c : MapRequest) (a : Int) : Prop := Met c.acme c.first a

/-- A span in one canonical half and outside of the offset mapping, with valid flags. -/
structure Allowed (c : MapRequest) : Prop where
  base : InIsize c.base
  low : PHYS_LADDR_OFFSET + 2 ^ 39 ≤ c.first
  lt : c.first < c.acme
  high : c.acme ≤ 2 ^ 47
  half : OneHalf c.acme c.first
  flags : Flags c.branches c.leaves

end MapRequest

/-- A canonical address outside of the offset mapping. -/
def Outside (a : Int) : Prop := PHYS_LADDR_OFFSET + 2 ^ 39 ≤ a ∧ a < 2 ^ 47

/-- It is canonical. -/
theorem Outside.low {a : Int} (h : Outside a) : -2 ^ 47 ≤ a := by
  have hOff : PHYS_LADDR_OFFSET = -2 ^ 47 := by decide
  have := h.1
  omega

section Run

variable {γ : Type} {pageGetter : γ → Nat → Except Fault (Nat × γ)} {Avail : γ → Nat → Prop}
  {pml4 : Nat} {s s' s₁ : Machine γ} {c : MapRequest} {m : Mapping}

variable (Avail pml4) in
/-- The tables are a tree, and neither they nor the pages that they map are free. -/
structure Sound (s : Machine γ) : Prop where
  aligned : PTE_SIZE ∣ pml4
  tree : Tree s.mem 4 pml4
  fresh : ∀ f, Uses s.mem 4 pml4 f → ¬ Avail s.pages f
  data : ∀ a x, Outside a → translate s.mem 4 pml4 a = some x → ¬ Avail s.pages x

/-- What an allowed call maps is outside of the offset mapping. -/
theorem MapRequest.Allowed.outside (h : c.Allowed) {a : Int} (ha : c.Maps a) : Outside a := by
  have hlow := h.low
  have hhigh := h.high
  have h1 := ha.1
  have h2 := ha.2.1
  exact ⟨by omega, by omega⟩

/-- The span starts at a page. -/
theorem MapRequest.Allowed.first_dvd (h : c.Allowed) : (PTE_SIZE : Int) ∣ c.first := by
  unfold MapRequest.first
  rw [show PTE_SIZE = 2 ^ 12 from rfl, maskDown_two_pow h.base (by omega)]
  exact Int.dvd_mul_left _ _

/-- A call can start in a sound state. -/
theorem Sound.ready (h : Sound Avail pml4 s) (hc : c.Allowed) :
    Ready Avail c.acme c.first c.branches c.leaves pml4 s where
  page := hc.first_dvd
  lt := hc.lt
  low := by
    have hOff : PHYS_LADDR_OFFSET = -2 ^ 47 := by decide
    have := hc.low
    omega
  high := hc.high
  flags := hc.flags
  aligned := h.aligned
  tree := h.tree
  fresh := h.fresh

/-- The call of `map_offset` in a call of `Mapper::map`. -/
theorem MapRequest.run_mapOffset (h : c.run pageGetter pml4 s = .ok (m, s')) :
    mapOffset pageGetter c.acme c.branches c.leaves 4 c.first pml4 s = .ok s' ∧
      m = ⟨c.first, c.acme, pml4⟩ := by
  obtain ⟨_, _, h⟩ := bind_ok h
  obtain ⟨n, hn, h⟩ := bind_ok h
  obtain ⟨s₁, hrun, h⟩ := bind_ok h
  cases h
  have hsize : c.size + PTE_SIZE < 2 ^ 64 := by
    obtain ⟨_, hsum, _⟩ := bind_ok hn
    exact (usizeAdd_ok hsum).1
  rw [roundUpPage_of hsize] at hn
  cases hn
  exact ⟨hrun, rfl⟩

/-- Nothing is in the way of a span that is not mapped. -/
theorem open_of_unmapped {mem : Frames} {acme base : Int} {table : Nat}
    (hbase : (PTE_SIZE : Int) ∣ base)
    (hnone : ∀ a, (PTE_SIZE : Int) ∣ a → base ≤ a → a < acme → walk mem 4 table a = none) :
    Open acme mem 4 table base := by
  refine (open_iff_walk 4 hbase).mpr fun a ha _ hhit leaf hwalk => ?_
  obtain ⟨hle, hlt, _⟩ := (hit_iff ha hbase).mp hhit
  rw [hnone a ha hle hlt] at hwalk
  cases hwalk

/-- What one call does, seen from the pages outside of the offset mapping. -/
structure Mapped (Avail : γ → Nat → Prop) (pml4 : Nat) (c : MapRequest) (s s' : Machine γ) :
    Prop where
  sound : Sound Avail pml4 s'
  kept : ∀ a, (PTE_SIZE : Int) ∣ a → -2 ^ 47 ≤ a → a < 2 ^ 47 → ¬ c.Maps a →
    walk s'.mem 4 pml4 a = walk s.mem 4 pml4 a
  placed : ∀ a, (PTE_SIZE : Int) ∣ a → c.Maps a → ∃ x, translate s'.mem 4 pml4 a = some x ∧
    Avail s.pages x ∧ ∀ f, Uses s'.mem 4 pml4 f → ¬ (f ≤ x ∧ x < f + PTE_SIZE)
  inj : ∀ a a', (PTE_SIZE : Int) ∣ a → (PTE_SIZE : Int) ∣ a' → c.Maps a → c.Maps a' →
    translate s'.mem 4 pml4 a = translate s'.mem 4 pml4 a' → a = a'
  tables : ∀ f, Uses s'.mem 4 pml4 f → Uses s.mem 4 pml4 f ∨
    ∀ x, f ≤ x → x < f + PTE_SIZE → Avail s.pages x

/-- A call leaves a sound state. -/
theorem Sound.map (hsup : Supply pageGetter Avail) (h : Sound Avail pml4 s) (hc : c.Allowed)
    (hopen : Open c.acme s.mem 4 pml4 c.first) (hrun : c.run pageGetter pml4 s = .ok (m, s')) :
    Mapped Avail pml4 c s s' := by
  have hOff : PHYS_LADDR_OFFSET = -2 ^ 47 := by decide
  have hready := h.ready hc
  have hcall := (MapRequest.run_mapOffset hrun).1
  obtain ⟨tr, heff⟩ := mapOffset_effect hsup hready.flags 4 hready.inSpan pml4 s s' hready.tree
    hready.fresh hopen hcall
  refine ⟨⟨h.aligned, heff.tree, heff.used h.fresh, ?_⟩, ?_, ?_, ?_, ?_⟩
  · intro a x hout hx hav
    obtain ⟨hav₀, hfree⟩ := heff.change.avail x hav
    -- look at the alias of `a` in the region of the span
    obtain ⟨k, hk⟩ : ∃ k, SameTable 4 c.first (a + k * 2 ^ 48) := by
      refine ⟨c.first / 2 ^ 48 - a / 2 ^ 48, ?_⟩
      unfold SameTable
      rw [pageSize_five]
      omega
    by_cases hhit : Hit c.acme 4 c.first (a + k * 2 ^ 48)
    · obtain ⟨y, hy, ht⟩ := (heff.hit _ hk hhit).translate
      rw [translate_alias, hx] at hy
      cases hy
      exact hfree ht
    · have hsame := translate_congr (heff.miss _ hk hhit)
      rw [translate_alias, translate_alias, hx] at hsame
      exact h.data a x hout hsame.symm hav₀
  · intro a ha hlo hhi hmaps
    obtain ⟨k, hs, hmiss⟩ := hready.outside ha hlo hhi hmaps
    have hsame := heff.miss _ hs hmiss
    rwa [walk_alias _ _ _ 4 _ (Nat.le_refl 4), walk_alias _ _ _ 4 _ (Nat.le_refl 4)] at hsame
  · intro a ha hmaps
    obtain ⟨x, hx, ht, htable⟩ := Placed.not_table ha heff hready
      (heff.hit a (hmaps.sameTable hready) (hmaps.hit hready ha))
    exact ⟨x, hx, heff.change.taken x ht, htable⟩
  · intro a a' ha ha' hmaps hmaps'
    exact heff.inj a a' (hmaps.sameTable hready) (hmaps'.sameTable hready) (hmaps.hit hready ha)
      (hmaps'.hit hready ha')
  · intro f hf
    obtain hold | hnew := heff.uses f hf
    · exact .inl hold
    · exact .inr fun x h1 h2 => heff.change.taken x ⟨_, heff.change.new f hnew, h1, h2⟩

/-- Each page of `H` is on a frame of its own, which holds no table. -/
def Isolated (pml4 : Nat) (H : Int → Prop) (s : Machine γ) : Prop :=
  ∀ a, (PTE_SIZE : Int) ∣ a → H a → ∃ x, translate s.mem 4 pml4 a = some x ∧
    (∀ f, Uses s.mem 4 pml4 f → ¬ (f ≤ x ∧ x < f + PTE_SIZE)) ∧
    ∀ a', (PTE_SIZE : Int) ∣ a' → Outside a' → a' ≠ a → translate s.mem 4 pml4 a' ≠ some x

/-- One more call. -/
theorem Isolated.map {H : Int → Prop} (hH : Isolated pml4 H s) (hout : ∀ a, H a → Outside a)
    (h : Sound Avail pml4 s) (hm : Mapped Avail pml4 c s s') :
    Isolated pml4 (fun a => H a ∨ c.Maps a) s' := by
  intro a ha hHa
  by_cases hmaps : c.Maps a
  · obtain ⟨x, hx, hav, htable⟩ := hm.placed a ha hmaps
    refine ⟨x, hx, htable, fun a' ha' hout' hne hx' => ?_⟩
    by_cases hmaps' : c.Maps a'
    · exact hne (hm.inj a' a ha' ha hmaps' hmaps (hx'.trans hx.symm))
    · -- an old page would be on free memory
      have hold := translate_congr (hm.kept a' ha' hout'.low hout'.2 hmaps')
      exact h.data a' x hout' (hold.symm.trans hx') hav
  · have hHa := hHa.resolve_right hmaps
    obtain ⟨x, hx, htable, hown⟩ := hH a ha hHa
    have hkept := translate_congr (hm.kept a ha (hout a hHa).low (hout a hHa).2 hmaps)
    have hused := h.data a x (hout a hHa) hx
    refine ⟨x, hkept.trans hx, fun f hf hin => ?_, fun a' ha' hout' hne hx' => ?_⟩
    · obtain hold | hnew := hm.tables f hf
      · exact htable f hold hin
      · exact hused (hnew x hin.1 hin.2)
    · by_cases hmaps' : c.Maps a'
      · obtain ⟨y, hy, hav, _⟩ := hm.placed a' ha' hmaps'
        cases hy.symm.trans hx'
        exact hused hav
      · have hold := translate_congr (hm.kept a' ha' hout'.low hout'.2 hmaps')
        exact hown a' ha' hout' hne (hold.symm.trans hx')

variable (pageGetter pml4) in
/-- Calls that are allowed and find no huge page in their way, and that returned. -/
inductive MapRun (s₀ : Machine γ) : List MapRequest → Machine γ → Prop
  | nil : MapRun s₀ [] s₀
  | snoc {cs : List MapRequest} {s s' : Machine γ} {c : MapRequest} {m : Mapping} :
    MapRun s₀ cs s → c.Allowed → Open c.acme s.mem 4 pml4 c.first →
    c.run pageGetter pml4 s = .ok (m, s') → MapRun s₀ (cs ++ [c]) s'

/-- What a run maps is outside of the offset mapping. -/
theorem MapRun.outside {s₀ : Machine γ} {cs : List MapRequest}
    (h : MapRun pageGetter pml4 s₀ cs s) :
    ∀ a, (∃ c ∈ cs, c.Maps a) → Outside a := by
  induction h with
  | nil =>
    intro a ha
    obtain ⟨c, hc, _⟩ := ha
    exact absurd hc List.not_mem_nil
  | snoc _ hc _ _ ih =>
    intro a ha
    obtain ⟨c', hc', hmaps⟩ := ha
    obtain hmem | hmem := List.mem_append.mp hc'
    · exact ih a ⟨c', hmem, hmaps⟩
    · obtain rfl := List.mem_singleton.mp hmem
      exact hc.outside hmaps

/-- After any run of calls the tables are sound, every page that a call mapped has a frame that no
other page and no table has, and all other pages are where they were. -/
theorem mapRun_isolates (hsup : Supply pageGetter Avail) {s₀ : Machine γ} (h₀ : Sound Avail pml4 s₀)
    {cs : List MapRequest} (hrun : MapRun pageGetter pml4 s₀ cs s) :
    Sound Avail pml4 s ∧ Isolated pml4 (fun a => ∃ c ∈ cs, c.Maps a) s ∧
      ∀ a, (PTE_SIZE : Int) ∣ a → -2 ^ 47 ≤ a → a < 2 ^ 47 → (∀ c ∈ cs, ¬ c.Maps a) →
        walk s.mem 4 pml4 a = walk s₀.mem 4 pml4 a := by
  induction hrun with
  | nil =>
    refine ⟨h₀, fun a _ ha => ?_, fun _ _ _ _ _ => rfl⟩
    obtain ⟨c, hc, _⟩ := ha
    exact absurd hc List.not_mem_nil
  | @snoc cs s s' c m hprev hc hopen hcall ih =>
    obtain ⟨hsound, hisolated, hkept⟩ := ih
    have hm := hsound.map hsup hc hopen hcall
    have hcases : ∀ a, (∃ c' ∈ cs ++ [c], c'.Maps a) ↔ (∃ c' ∈ cs, c'.Maps a) ∨ c.Maps a := by
      intro a
      simp only [List.mem_append, List.mem_singleton, or_and_right, exists_or, exists_eq_left]
    refine ⟨hm.sound, ?_, fun a ha hlo hhi hno => ?_⟩
    · have hnext := hisolated.map hprev.outside hsound hm
      intro a ha hmaps
      exact hnext a ha ((hcases a).mp hmaps)
    · rw [hm.kept a ha hlo hhi (hno c (by simp))]
      exact hkept a ha hlo hhi fun c' hc' => hno c' (by simp [hc'])

/-- A run through a map of the states of `page_getter`. -/
theorem MapRun.of_mapPages {δ : Type} {pageGetter' : δ → Nat → Except Fault (Nat × δ)} {f : γ → δ}
    (hf : Commutes f pageGetter pageGetter') {s₀ : Machine γ} {cs : List MapRequest}
    {s' : Machine δ} (h : MapRun pageGetter' pml4 (s₀.mapPages f) cs s') :
    ∃ s, s' = s.mapPages f ∧ MapRun pageGetter pml4 s₀ cs s := by
  induction h with
  | nil => exact ⟨s₀, rfl, .nil⟩
  | @snoc cs s₁ s₂ c m _ hc hopen hcall ih =>
    obtain ⟨s, rfl, hrun⟩ := ih
    have hmap := mapperMap_mapPages hf c.branches c.leaves c.base c.size pml4 s
    rw [show mapperMap pageGetter' c.base c.size c.branches c.leaves pml4 (s.mapPages f)
      = .ok (m, s₂) from hcall] at hmap
    cases hinner : mapperMap pageGetter c.base c.size c.branches c.leaves pml4 s with
    | error e =>
      rw [hinner] at hmap
      cases hmap
    | ok r =>
      rw [hinner] at hmap
      cases hmap
      exact ⟨r.2, rfl, hrun.snoc hc hopen hinner⟩

end Run

/-! ## From `setup` on -/

/-- The physical address is in a region of the map. -/
def Listed (mmap : List MemRegion) (x : Nat) : Prop :=
  ∃ r ∈ mmap, r.base ≤ x ∧ x < r.base + r.size

/-- The boot loader's memory map, for which `setup` returns, and its tables: what the loader still
needs is not in the map. -/
structure BootMemory (mmap : List MemRegion) (lgst : MemRegion) (oldPml4 : Nat) (mem : Frames) :
    Prop where
  map : MemoryMap mmap
  largest : maxBySize mmap = some lgst
  returns : ∃ o, setup mmap = .ok o
  site : Site (2 * lgst.base) (2 * lgst.base + PTE_SIZE) (2 * lgst.base + 2 * PTE_SIZE) oldPml4 mem
  tables : ∀ f, Uses mem 2 (oldPd oldPml4 mem) f → ¬ Listed mmap f
  data : ∀ a x, -2 ^ 30 ≤ a → a < 0 → translate mem 4 oldPml4 a = some x → ¬ Listed mmap x

section Boot

variable {mmap : List MemRegion} {lgst : MemRegion} {oldPml4 : Nat} {mem : Frames}

/-- Free memory is memory of the map, apart from the tables. -/
theorem free_listed {K : Nat} {t : Talloc FreeLists} (hm : MemoryMap mmap) (hl : lgst ∈ mmap)
    (hmap : Sized (memEnd mmap) lgst K) (hacc : Accounted K 12
      ⟨[], ((others lgst mmap).map MemRegion.slice).reverse ++ [tailOf K 12 (freeMemOf lgst)]⟩ t)
    {x : Nat} (hx : t.Free (x + PHYS_LADDR_OFFSET)) :
    Listed mmap x ∧ ¬ (2 * lgst.base ≤ x ∧ x < 2 * lgst.base + 3 * PTE_SIZE) := by
  obtain ⟨_, _, hptr, hend⟩ := hmap.bounds
  have hroom := hmap.room
  obtain ⟨slice, hmem, h1, h2⟩ := Ledger.Given.mem ((hacc.free_iff _).mp hx).1
  obtain hmem | hmem := List.mem_append.mp hmem
  · obtain ⟨r, hr, rfl⟩ := List.mem_map.mp (List.mem_reverse.mp hmem)
    obtain ⟨hr, hne⟩ := List.mem_filter.mp hr
    change r.base + PHYS_LADDR_OFFSET ≤ x + PHYS_LADDR_OFFSET at h1
    change x + PHYS_LADDR_OFFSET < r.base + PHYS_LADDR_OFFSET + r.size at h2
    have hapart := hm.apart hr hl (of_decide_eq_true hne)
    exact ⟨⟨r, hr, by omega, by omega⟩, by omega⟩
  · obtain rfl := List.mem_singleton.mp hmem
    unfold tailOf at h1 h2
    dsimp only at h1 h2
    exact ⟨⟨lgst, hl, by omega, by omega⟩, by omega⟩

/-- What `setup` leaves: sound tables, with the memory of the map behind them. -/
theorem BootMemory.setup (h : BootMemory mmap lgst oldPml4 mem) :
    ∃ (K : Nat) (m : PhysMem (memEnd mmap) K) (mem' : Frames),
      setupMapper mmap oldPml4 mem
        = .ok (2 * lgst.base, (⟨mem', m, []⟩ : Machine _).mapPages PhysMem.late) ∧
      Sound PhysMem.Avail (2 * lgst.base) (⟨mem', m, []⟩ : Machine _) ∧
      ∀ a, -2 ^ 47 ≤ a → a < 2 ^ 47 → translate mem' 4 (2 * lgst.base) a =
        if a < PHYS_LADDR_OFFSET + min ((memEnd mmap + PDPTE_SIZE - 1) / PDPTE_SIZE) 512 * 2 ^ 30
        then some (a - PHYS_LADDR_OFFSET).toNat
        else if -2 ^ 30 ≤ a ∧ a < 0 then translate mem 4 oldPml4 a
        else none := by
  have hmem := maxBySize_mem h.largest
  have hpage : 0 < PTE_SIZE := by decide
  obtain ⟨K, t, hmap, hok, hacc, harena⟩ :=
    ((setup_returns_iff h.map h.largest).mp h.returns).setup h.map h.largest
  obtain ⟨mem', hrun, hw⟩ := setupTables_written h.site
    ((memEnd mmap + PDPTE_SIZE - 1) / PDPTE_SIZE)
  have hfree : ∀ x : Nat, t.Free (x + PHYS_LADDR_OFFSET) → Listed mmap x ∧ _ :=
    fun x => free_listed h.map hmem hmap hacc
  have hcanon : ∀ a, -2 ^ 47 ≤ a → a < 2 ^ 47 → _ := fun a => hw.translate_eq h.site (a := a)
  refine ⟨K, ⟨t, harena, hmap.hK, _, hacc⟩, mem', ?_,
    ⟨dvd_mul_of_dvd_right hmap.pages.1 2, hw.tree h.site, ?_, ?_⟩, hcanon⟩
  · unfold setupMapper
    rw [hok, ok_bind]
    dsimp only
    rw [hrun]
    rfl
  -- a table is one of the three new ones, or the boot loader's, which is not in the map
  · intro f hf hav
    obtain ⟨hlisted, hapart⟩ := hfree f hav
    obtain htable | hold := (hw.uses h.site f).mp hf
    · simp only [List.mem_cons, List.not_mem_nil, or_false] at htable
      omega
    · exact h.tables f hold hlisted
  -- outside of the offset mapping only the top GiB is mapped
  · intro a x hout hx hav
    have hlo := hout.1
    rw [hcanon a hout.low hout.2, if_neg (by omega)] at hx
    by_cases htop : -2 ^ 30 ≤ a ∧ a < 0
    · rw [if_pos htop] at hx
      exact h.data a x htop.1 htop.2 hx (hfree x hav).1
    · rw [if_neg htop] at hx
      cases hx

/-- From `setup` on, whatever is mapped by whichever calls: the tables remain a tree and are not
free, each page that a call mapped has a frame that no table and no other page outside of the offset
mapping has and that is not free, and everything else is where `setup` put it. -/
theorem boot_run_isolates (h : BootMemory mmap lgst oldPml4 mem) :
    ∃ pml4 s₀, setupMapper mmap oldPml4 mem = .ok (pml4, s₀) ∧
      ∀ cs s, MapRun allocPhys pml4 s₀ cs s →
      Tree s.mem 4 pml4 ∧ (∀ f, Uses s.mem 4 pml4 f → ¬ s.pages.Free (f + PHYS_LADDR_OFFSET)) ∧
      (∀ a, (PTE_SIZE : Int) ∣ a → (∃ c ∈ cs, c.Maps a) → ∃ x, translate s.mem 4 pml4 a = some x ∧
        ¬ s.pages.Free (x + PHYS_LADDR_OFFSET) ∧
        (∀ f, Uses s.mem 4 pml4 f → ¬ (f ≤ x ∧ x < f + PTE_SIZE)) ∧
        ∀ a', (PTE_SIZE : Int) ∣ a' → Outside a' → a' ≠ a → translate s.mem 4 pml4 a' ≠ some x) ∧
      ∀ a, (PTE_SIZE : Int) ∣ a → -2 ^ 47 ≤ a → a < 2 ^ 47 → (∀ c ∈ cs, ¬ c.Maps a) →
        translate s.mem 4 pml4 a =
          if a < PHYS_LADDR_OFFSET +
            min ((memEnd mmap + PDPTE_SIZE - 1) / PDPTE_SIZE) 512 * 2 ^ 30
          then some (a - PHYS_LADDR_OFFSET).toNat
          else if -2 ^ 30 ≤ a ∧ a < 0 then translate mem 4 oldPml4 a
          else none := by
  obtain ⟨K, m, mem', hsetup, hsound, hcanon⟩ := h.setup
  refine ⟨_, _, hsetup, fun cs s hrun => ?_⟩
  obtain ⟨s, rfl, hpages⟩ := MapRun.of_mapPages PhysMem.commutes hrun
  obtain ⟨hs, hisolated, hkept⟩ := mapRun_isolates PhysMem.supply hsound hpages
  refine ⟨hs.tree, hs.fresh, fun a ha hmaps => ?_, fun a ha hlo hhi hno => ?_⟩
  · obtain ⟨x, hx, htable, hown⟩ := hisolated a ha hmaps
    exact ⟨x, hx, hs.data a x (hpages.outside a hmaps) hx, htable, hown⟩
  · rw [← hcanon a hlo hhi]
    exact translate_congr (hkept a ha hlo hhi hno)

/-- The usual map of a PC with 128 MiB, of which the boot loader keeps the end. -/
theorem bootFrames_memory : BootMemory [⟨0x1000, 0x9e000⟩, ⟨0x100000, 0x7ee0000⟩]
    ⟨0x100000, 0x7ee0000⟩ 0x7ff0000 bootFrames := by
  have hm : MemoryMap [⟨0x1000, 0x9e000⟩, ⟨0x100000, 0x7ee0000⟩] := ⟨by simp, by decide, by decide⟩
  have hlisted : ∀ x, Listed [⟨0x1000, 0x9e000⟩, ⟨0x100000, 0x7ee0000⟩] x → x < 0x7fe0000 := by
    intro x hx
    obtain ⟨r, hr, _, h2⟩ := hx
    simp only [List.mem_cons, List.not_mem_nil, or_false] at hr
    obtain rfl | rfl := hr <;> dsimp only at h2 <;> omega
  refine ⟨hm, rfl, (setup_returns_iff hm rfl).mpr ⟨by decide, by decide, fun status hs => ?_⟩,
    bootFrames_site, fun f hf hin => ?_, fun a x hlo hhi hx hin => ?_⟩
  · have hbytes : sliceBytes (memEnd [⟨0x1000, 0x9e000⟩, ⟨0x100000, 0x7ee0000⟩]) PTE_SIZE
        = .ok (256, 8192) := by decide +kernel
    rw [hbytes] at hs
    cases hs
    decide
  · rw [bootFrames_uses hf] at hin
    exact absurd (hlisted _ hin) (by decide)
  · have := bootFrames_data hlo hhi hx
    have := hlisted x hin
    omega

/-- A page on that machine, asked for behind a stack of 4 MiB. -/
def pageRequest : MapRequest := ⟨-2 ^ 30 - 2 ^ 22, PTE_SIZE, PTE.RW, PTE.RW⟩

/-- It may be asked for. -/
theorem pageRequest_allowed : pageRequest.Allowed where
  base := by decide
  low := by decide
  lt := by decide
  high := by decide
  half := .inl (by decide)
  flags := ⟨by decide, by decide, by decide⟩

/-- `setup` and the call for that page return. -/
theorem pageRequest_returns :
    (do
      let r ← setupMapper [⟨0x1000, 0x9e000⟩, ⟨0x100000, 0x7ee0000⟩] 0x7ff0000 bootFrames
      let r' ← pageRequest.run allocPhys r.1 r.2
      .ok (r.1, translate r'.2.mem 4 r.1 pageRequest.first) : Except Fault (Nat × Option Nat))
      = .ok (0x200000, some 0x9c000) := by
  decide +kernel

/-- One call after `setup`: the page is on a frame below 1 MiB that is not free any more, and the
first frame is still where `setup` put it. -/
theorem boot_run_isolates_page : ∃ s₀ s,
    setupMapper [⟨0x1000, 0x9e000⟩, ⟨0x100000, 0x7ee0000⟩] 0x7ff0000 bootFrames
      = .ok (0x200000, s₀) ∧
    MapRun allocPhys 0x200000 s₀ [pageRequest] s ∧
    translate s.mem 4 0x200000 (-2 ^ 30 - 2 ^ 22) = some 0x9c000 ∧
    ¬ s.pages.Free (0x9c000 + PHYS_LADDR_OFFSET) ∧
    translate s.mem 4 0x200000 PHYS_LADDR_OFFSET = some 0 := by
  obtain ⟨⟨pml4, s₀⟩, hsetup, h⟩ := bind_ok pageRequest_returns
  obtain ⟨⟨m, s⟩, hcall, h⟩ := bind_ok h
  obtain ⟨hroot, hframe⟩ := Prod.ext_iff.mp (Except.ok.inj h)
  obtain rfl : pml4 = 0x200000 := hroot
  have hfirst : pageRequest.first = -2 ^ 30 - 2 ^ 22 := by decide
  have hacme : pageRequest.acme = -2 ^ 30 - 2 ^ 22 + 4096 := by decide
  rw [hfirst] at hframe
  obtain ⟨_, _, hok, hruns⟩ := boot_run_isolates bootFrames_memory
  rw [hsetup] at hok
  cases hok
  -- nothing is mapped there before
  have hopen : Open pageRequest.acme s₀.mem 4 0x200000 pageRequest.first := by
    refine open_of_unmapped pageRequest_allowed.first_dvd fun a ha h1 h2 => ?_
    rw [hfirst] at h1
    rw [hacme] at h2
    have hnone := (hruns [] s₀ .nil).2.2.2 a ha (by omega) (by omega)
      fun _ hc => absurd hc List.not_mem_nil
    have hOff : PHYS_LADDR_OFFSET = -2 ^ 47 := by decide
    rw [if_neg (by omega), if_neg (by omega)] at hnone
    exact Option.map_eq_none_iff.mp hnone
  have hrun := MapRun.nil.snoc pageRequest_allowed hopen hcall
  have hmaps : pageRequest.Maps (-2 ^ 30 - 2 ^ 22) := by
    unfold MapRequest.Maps Met
    rw [hfirst, hacme]
    refine ⟨le_refl _, by decide, .inr (by decide), fun hskip => ?_⟩
    obtain ⟨_, _, _, hlt⟩ := hskip
    exact lt_irrefl _ hlt
  obtain ⟨_, _, hmapped, hkept⟩ := hruns _ s hrun
  obtain ⟨x, hx, hfree, _⟩ := hmapped (-2 ^ 30 - 2 ^ 22) (by decide)
    ⟨pageRequest, List.mem_singleton_self _, hmaps⟩
  cases hx.symm.trans hframe
  refine ⟨s₀, s, hsetup, hrun, hframe, hfree, ?_⟩
  have hlow := hkept PHYS_LADDR_OFFSET (by decide) (by decide) (by decide) fun c hc hm => ?_
  · rw [hlow]
    decide
  · obtain rfl := List.mem_singleton.mp hc
    exact absurd hm.1 (by decide)

end Boot

end Tauos.Mapper
