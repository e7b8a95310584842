import Mathlib.Data.List.Pairwise
import Tauos.Mapper.MapCover

/-!
# What holds after `map_offset`

The results for a whole call `map_offset::<4>`, read off `mapOffset_effect`:

* the span is mapped exactly if the pages that are skipped were mapped before;
* every page outside of the span keeps its translation, and each page obtained
  goes into one entry, so that nothing the call maps shares a frame;
* huge pages are replaced, not followed, exactly if the span is in one half,
  nothing is skipped and every page found in the span lies inside of it.
-/

namespace Tauos.Mapper

open Tauos.Rust Tauos.Amd64

/-! ## The setting -/

section Setting

variable {γ : Type} (Avail : γ → Nat → Prop)

/-- A span of canonical addresses, valid flags, and a tree of tables that `page_getter` does
not hand out. -/
structure Ready (acme base : Int) (branches leaves : PTE) (table : Nat) (s : Machine γ) : Prop where
  page : (PTE_SIZE : Int) ∣ base
  lt : base < acme
  low : -2 ^ 47 ≤ base
  high : acme ≤ 2 ^ 47
  flags : Flags branches leaves
  aligned : PTE_SIZE ∣ table
  tree : Tree s.mem 4 table
  fresh : ∀ f, Uses s.mem 4 table f → ¬ Avail s.pages f

/-- The span is in one canonical half. -/
def OneHalf (acme base : Int) : Prop := acme ≤ 0 ∨ 0 ≤ base

/-- The page is in the span, in the half of its base, and no level skips it. -/
def Met (acme base a : Int) : Prop :=
  base ≤ a ∧ a < acme ∧ (0 ≤ base ∨ a < 0) ∧ ¬ Skipped base a

/-- The walk of `a` ends in a present leaf with the flags. -/
def Carries (leaves : PTE) (mem : Frames) (table : Nat) (a : Int) : Prop :=
  ∃ leaf, walk mem 4 table a = some leaf ∧ leaf.pte.contains PTE.P = true ∧
    leaf.pte.contains leaves = true

variable {Avail} {acme base a : Int} {branches leaves : PTE} {table : Nat} {s s' : Machine γ}

/-- The span is of canonical addresses. -/
theorem Ready.inSpan (h : Ready Avail acme base branches leaves table s) : InSpan acme base :=
  ⟨h.low, h.lt, h.high⟩

theorem pageSize_five : (pageSize 5 : Int) = 2 ^ 48 := by decide

/-- Pages of one half are in one tree. -/
theorem Ready.sameTable (h : Ready Avail acme base branches leaves table s) (h1 : base ≤ a)
    (h2 : a < acme) (hhalf : 0 ≤ base ∨ a < 0) : SameTable 4 base a := by
  have hlow := h.low
  have hhigh := h.high
  unfold SameTable
  rw [pageSize_five]
  omega

/-- So are those that are met. -/
theorem Met.sameTable (hm : Met acme base a) (h : Ready Avail acme base branches leaves table s) :
    SameTable 4 base a := h.sameTable hm.1 hm.2.1 hm.2.2.1

/-- They are hit. -/
theorem Met.hit (hm : Met acme base a) (h : Ready Avail acme base branches leaves table s)
    (ha : (PTE_SIZE : Int) ∣ a) : Hit acme 4 base a :=
  (hit_iff ha h.page).mpr ⟨hm.1, hm.2.1, hm.2.2.2⟩

/-- The entry of a leaf has the flags. -/
theorem leafEntry_flags {l p : Nat} {e : PTE} (h : leafEntry leaves l p = .ok e) :
    e.contains PTE.P = true ∧ e.contains leaves = true := by
  obtain ⟨q, _, h⟩ := bind_ok h
  -- all three results extend the same entry
  have key : ∀ extra, PTE.contains (PTE.P ||| q ||| leaves ||| extra) PTE.P = true ∧
      PTE.contains (PTE.P ||| q ||| leaves ||| extra) leaves = true := by
    intro extra
    constructor
    · rw [contains_iff]
      intro i hi
      simp [Nat.testBit_or, hi]
    · rw [contains_iff]
      intro i hi
      simp [Nat.testBit_or, hi]
  dsimp only at h
  split at h
  · split at h
    · cases h
      exact key _
    · cases h
      exact key _
  · cases h
    have := key 0
    rwa [Nat.or_zero] at this

/-- Four levels see 48 bits of an address. -/
theorem tableIndex_alias (a k : Int) {l : Nat} (hl : l ≤ 4) :
    tableIndex (a + k * 2 ^ 48) l = tableIndex a l := by
  have h1 := tableIndex_eq (a + k * 2 ^ 48) l
  have h2 := tableIndex_eq a l
  have hsplit : ∃ m : Int, 2 ^ 48 = m * 512 * pageSize l := by
    refine ⟨2 ^ (9 * (4 - l)), ?_⟩
    have : l = 0 ∨ l = 1 ∨ l = 2 ∨ l = 3 ∨ l = 4 := by omega
    obtain rfl | rfl | rfl | rfl | rfl := this <;> decide
  obtain ⟨m, hm⟩ := hsplit
  have hadd : a + k * 2 ^ 48 = a + k * m * 512 * pageSize l := by
    rw [hm]
    ring
  rw [hadd, Int.add_mul_ediv_right _ _ (cast_pageSize_pos l).ne', Int.add_mul_emod_self_right] at h1
  rw [hadd]
  omega

/-- A walk does not look at the bits above 47. -/
theorem walk_alias (mem : Frames) (a k : Int) : ∀ (l : Nat) (table : Nat), l ≤ 4 →
    walk mem l table (a + k * 2 ^ 48) = walk mem l table a := by
  intro l
  induction l with
  | zero => intro table _; rfl
  | succ l ih =>
    intro table hl
    simp only [walk]
    rw [tableIndex_alias a k hl, ih _ (by omega)]

/-- Nor does a translation. -/
theorem translate_alias (mem : Frames) (table : Nat) (a k : Int) :
    translate mem 4 table (a + k * 2 ^ 48) = translate mem 4 table a := by
  unfold Amd64.translate
  rw [walk_alias mem a k 4 table (Nat.le_refl 4)]
  refine Option.map_congr fun leaf hw => ?_
  have hdvd : (pageSize leaf.lvl : Int) ∣ k * 2 ^ 48 := by
    rw [← pageSize_five]
    exact Dvd.dvd.mul_left (pageSize_dvd (Nat.le_succ_of_le (walk_lvl_le 4 hw))) k
  rw [← Int.add_emod_emod, Int.emod_eq_zero_of_dvd hdvd, add_zero]

/-- An address that is not met stands for one in the region of the span that is not hit. -/
theorem Ready.outside (h : Ready Avail acme base branches leaves table s)
    (ha : (PTE_SIZE : Int) ∣ a) (hlo : -2 ^ 47 ≤ a) (hhi : a < 2 ^ 47) (hout : ¬ Met acme base a) :
    ∃ k, SameTable 4 base (a + k * 2 ^ 48) ∧ ¬ Hit acme 4 base (a + k * 2 ^ 48) := by
  have hpage : ∀ k : Int, (PTE_SIZE : Int) ∣ a + k * 2 ^ 48 := fun k =>
    Int.dvd_add ha (Dvd.dvd.mul_left (by decide) k)
  have hlow := h.low
  have hhigh := h.high
  have hlt := h.lt
  unfold SameTable
  rw [pageSize_five]
  simp only [hit_iff (hpage _) h.page]
  by_cases hb : 0 ≤ base <;> by_cases hneg : a < 0
  · exact ⟨1, by omega, by omega⟩
  · refine ⟨0, by omega, ?_⟩
    rw [zero_mul, add_zero]
    exact fun hc => hout ⟨hc.1, hc.2.1, .inl hb, hc.2.2⟩
  · refine ⟨0, by omega, ?_⟩
    rw [zero_mul, add_zero]
    exact fun hc => hout ⟨hc.1, hc.2.1, .inr hneg, hc.2.2⟩
  · exact ⟨-1, by omega, by omega⟩

end Setting

/-! ## A `page_getter` to run with -/

/-- Hand out the next pages of a stretch of memory, up to the end of the address space. -/
def bumpGetter (next size : Nat) : Except Fault (Nat × Nat) :=
  let page := (next + size - 1) / size * size
  if page + size ≤ 2 ^ 52 then .ok (page, page + size) else .error .assertion

/-- What is not handed out yet. -/
def BumpAvail (next x : Nat) : Prop := next ≤ x

/-- It supplies fresh pages. -/
theorem bumpGetter_supply : Supply bumpGetter BumpAvail := by
  refine ⟨?_⟩
  intro g l p g' _ _ h
  have hpos := pageSize_pos l
  have hup : g ≤ (g + pageSize l - 1) / pageSize l * pageSize l := by
    have h1 := Nat.div_add_mod (g + pageSize l - 1) (pageSize l)
    have h2 := Nat.mod_lt (g + pageSize l - 1) hpos
    rw [Nat.mul_comm] at h1
    omega
  unfold bumpGetter at h
  dsimp only at h
  split at h
  next hle =>
    cases h
    refine ⟨Nat.dvd_mul_left _ _, hle, fun x hx _ => Nat.le_trans hup hx, ?_⟩
    intro x hx
    unfold BumpAvail at hx ⊢
    omega
  next => cases h

/-- Empty tables, and memory from 64 KiB on to hand out. -/
def emptyMachine : Machine Nat := ⟨fun _ _ => 0, 0x10000, []⟩

/-- Spans in the lower half can be mapped there. -/
theorem emptyMachine_ready {acme base : Int} (hpage : (PTE_SIZE : Int) ∣ base) (hlt : base < acme)
    (hlow : 0 ≤ base) (hhigh : acme ≤ 2 ^ 47) :
    Ready BumpAvail acme base 3 3 0x1000 emptyMachine where
  page := hpage
  lt := hlt
  low := by omega
  high := hhigh
  flags := ⟨by decide, by decide, by decide⟩
  aligned := by decide
  tree := tree_empty (fun _ => rfl) 4
  fresh := by
    intro f hf
    rw [uses_empty (fun _ => rfl) hf]
    show ¬ (0x10000 ≤ 0x1000)
    decide

/-- A computation with a result returned. -/
theorem exists_ok {α β : Type} {x : Except Fault α} {f : α → β} {b : β}
    (h : x.toOption.map f = some b) : ∃ a, x = .ok a ∧ f a = b := by
  cases x with
  | error e => cases h
  | ok a => exact ⟨a, rfl, by simpa [Except.toOption] using h⟩

/-! ## Coverage -/

section Results

variable {γ : Type} {pageGetter : γ → Nat → Except Fault (Nat × γ)} {Avail : γ → Nat → Prop}
  {acme base : Int} {branches leaves : PTE} {table : Nat} {s : Machine γ}

/-- `map_offset::<4>` returns unless `page_getter` fails, and then the whole span is mapped
exactly if the pages that it skips were mapped already. -/
theorem mapOffset_maps_span_iff (hsup : Supply pageGetter Avail)
    (h : Ready Avail acme base branches leaves table s) (hhalf : OneHalf acme base)
    (hopen : Open acme s.mem 4 table base) :
    ByGetter pageGetter (mapOffset pageGetter acme branches leaves 4 base table s) ∧
    ∀ s', mapOffset pageGetter acme branches leaves 4 base table s = .ok s' →
      ((∀ a, (PTE_SIZE : Int) ∣ a → base ≤ a → a < acme → Carries leaves s'.mem table a) ↔
        ∀ a, (PTE_SIZE : Int) ∣ a → base ≤ a → a < acme → Skipped base a →
          Carries leaves s.mem table a) := by
  refine ⟨mapOffset_byGetter hsup h.flags 4 (by omega) (by omega) h.inSpan table s, ?_⟩
  intro s' hrun
  obtain ⟨tr, heff⟩ := mapOffset_effect hsup h.flags 4 h.inSpan table s s' h.tree h.fresh hopen hrun
  have hsame : ∀ {a}, a < acme → 0 ≤ base ∨ a < 0 := by
    intro a h2
    unfold OneHalf at hhalf
    omega
  -- a page that the call skips keeps its mapping
  have hskip : ∀ a, (PTE_SIZE : Int) ∣ a → base ≤ a → a < acme → Skipped base a →
      walk s'.mem 4 table a = walk s.mem 4 table a := by
    intro a ha h1 h2 hs
    refine heff.miss a (h.sameTable h1 h2 (hsame h2)) ?_
    rw [hit_iff ha h.page]
    exact fun hc => hc.2.2 hs
  constructor
  · intro hall a ha h1 h2 hs
    have := hall a ha h1 h2
    unfold Carries at this ⊢
    rwa [hskip a ha h1 h2 hs] at this
  · intro hold a ha h1 h2
    by_cases hs : Skipped base a
    · have := hold a ha h1 h2 hs
      unfold Carries at this ⊢
      rwa [hskip a ha h1 h2 hs]
    · obtain ⟨leaf, p, hw, _, he, _⟩ :=
        heff.hit a (h.sameTable h1 h2 (hsame h2)) ((hit_iff ha h.page).mpr ⟨h1, h2, hs⟩)
      exact ⟨leaf, hw, leafEntry_flags he⟩

/-- From empty tables, a span of two pages around 2 MiB leaves its second page unmapped. -/
theorem mapOffset_hole :
    Ready BumpAvail 0x201000 0x1ff000 3 3 0x1000 emptyMachine ∧ OneHalf 0x201000 0x1ff000 ∧
    Open 0x201000 emptyMachine.mem 4 0x1000 0x1ff000 ∧
    ∃ s', mapOffset bumpGetter 0x201000 3 3 4 0x1ff000 0x1000 emptyMachine = .ok s' ∧
      ¬ Carries 3 s'.mem 0x1000 0x200000 := by
  refine ⟨emptyMachine_ready (by decide) (by decide) (by decide) (by decide), .inr (by decide),
    open_empty (fun _ => rfl) 4 _, ?_⟩
  obtain ⟨s', hrun, hwalk⟩ := exists_ok (f := fun s' => walk s'.mem 4 0x1000 0x200000) (b := none)
    (show (mapOffset bumpGetter 0x201000 3 3 4 0x1ff000 0x1000 emptyMachine).toOption.map _ = _ by
      decide +kernel)
  refine ⟨s', hrun, ?_⟩
  intro hc
  obtain ⟨leaf, hleaf, _⟩ := hc
  rw [hwalk] at hleaf
  cases hleaf

/-- A span of 2 MiB and a page, from an aligned base, is mapped whole. -/
theorem mapOffset_maps_aligned :
    ∃ s', mapOffset bumpGetter 0x401000 3 3 4 0x200000 0x1000 emptyMachine = .ok s' ∧
      ∀ a : Int, (PTE_SIZE : Int) ∣ a → 0x200000 ≤ a → a < 0x401000 →
        Carries 3 s'.mem 0x1000 a := by
  obtain ⟨s', hrun, _⟩ := exists_ok (f := fun _ => ()) (b := ())
    (show (mapOffset bumpGetter 0x401000 3 3 4 0x200000 0x1000 emptyMachine).toOption.map _ = _ by
      decide +kernel)
  refine ⟨s', hrun, ?_⟩
  have hready : Ready BumpAvail 0x401000 0x200000 3 3 0x1000 emptyMachine :=
    emptyMachine_ready (by decide) (by decide) (by decide) (by decide)
  refine ((mapOffset_maps_span_iff bumpGetter_supply hready (.inr (by decide))
    (open_empty (fun _ => rfl) 4 _)).2 s' hrun).mpr ?_
  have halign : Aligned 0x401000 0x200000 := by
    intro L hL2 hL4
    have : L = 2 ∨ L = 3 ∨ L = 4 := by omega
    obtain rfl | rfl | rfl := this <;> decide
  intro a ha h1 h2 hs
  exact absurd hs (noneSkipped_iff.mpr halign a ha h1 h2)

/-! ## Frames -/

/-- A present entry of the top level is a branch. -/
theorem walk_lvl_ne_four {mem : Frames} {a : Int} {leaf : Leaf}
    (h : walk mem 4 table a = some leaf) : leaf.lvl ≠ 4 := by
  simp only [walk] at h
  split at h
  · cases h
  next hP =>
  rw [if_pos (show IsBranch 4 _ from ⟨by simpa using hP, by decide, fun hc => by omega⟩)] at h
  obtain ⟨leaf', h', rfl⟩ := Option.map_eq_some_iff.mp h
  have hle : leaf'.lvl ≤ 3 := walk_lvl_le 3 h'
  show leaf'.lvl ≠ 4
  omega

instance : Std.Symm Apart where
  symm _ _ h := fun x h1 h2 h' => h x h'.1 h'.2 ⟨h1, h2⟩

/-- Pages obtained with a common address are the same page. -/
theorem eq_of_common {tr : List Event} (hap : (gots tr).Pairwise Apart) {g g' : Nat × Nat} {x : Nat}
    (hg : g ∈ gots tr) (hg' : g' ∈ gots tr) (h1 : g.2 ≤ x) (h2 : x < g.2 + g.1) (h1' : g'.2 ≤ x)
    (h2' : x < g'.2 + g'.1) : g = g' := by
  by_contra hne
  exact hap.forall hg hg' hne x h1 h2 ⟨h1', h2'⟩

/-- A page is translated to a page. -/
theorem dvd_translate {mem : Frames} {lvl x : Nat} {a : Int} (ha : (PTE_SIZE : Int) ∣ a)
    (h : translate mem lvl table a = some x) : PTE_SIZE ∣ x := by
  obtain ⟨leaf, hw, rfl⟩ := Option.map_eq_some_iff.mp h
  have hl := walk_lvl_pos lvl hw
  have hP : (PTE_SIZE : Int) ∣ pageSize leaf.lvl := pageSize_dvd_of hl (dvd_refl _)
  have h0 := Int.emod_nonneg a (cast_pageSize_pos leaf.lvl).ne'
  refine Nat.dvd_add ?_ ?_
  · exact Dvd.dvd.mul_left (Int.natCast_dvd_natCast.mp hP) _
  · rw [← Int.natCast_dvd_natCast, Int.toNat_of_nonneg h0]
    rw [Int.emod_def]
    exact Int.dvd_sub ha (Dvd.dvd.mul_right hP _)

/-- No table in use is in the frame of a page that was placed. -/
theorem Placed.not_table {R : Nat → Nat → Prop} {H : Int → Prop} {l : Int → Nat} {r a : Int}
    {s' : Machine γ} {tr : List Event} (ha : (PTE_SIZE : Int) ∣ a)
    (heff : Effect Avail leaves R H l 4 table r s tr s')
    (h : Ready Avail acme base branches leaves table s)
    (hp : Placed leaves (l a) tr s'.mem 4 table a) :
    ∃ x, Amd64.translate s'.mem 4 table a = some x ∧ Taken tr x ∧
      ∀ f, Uses s'.mem 4 table f → ¬ (f ≤ x ∧ x < f + PTE_SIZE) := by
  obtain ⟨x, hx, g, hg, h1, h2, hdata⟩ := hp.page
  have ht : Taken tr x := ⟨g, hg, h1, h2⟩
  refine ⟨x, hx, ht, ?_⟩
  intro f hf hin
  have hfx : f = x := by
    obtain ⟨c, hc⟩ := Uses.dvd 4 h.aligned hf
    obtain ⟨d, hd⟩ := dvd_translate ha hx
    rw [show PTE_SIZE = 4096 from rfl] at hc hd hin
    omega
  subst hfx
  obtain hold | hnew := heff.uses f hf
  · exact h.fresh f hold (heff.change.taken f ht)
  · -- the page of the leaf would be the page of the table
    have := eq_of_common heff.change.apart hg (heff.change.new f hnew) h1 h2 (Nat.le_refl _)
      (Nat.lt_add_of_pos_right (show 0 < PTE_SIZE by decide))
    subst this
    exact hdata hnew

/-- `map_offset::<4>` keeps the translation of every page outside of the span. Each page that
it obtained is in one entry of the tables, written once; what it maps has frames of its own, and
none of them is a table. -/
theorem mapOffset_frame (hsup : Supply pageGetter Avail)
    (h : Ready Avail acme base branches leaves table s) (hopen : Open acme s.mem 4 table base)
    {s' : Machine γ} (hrun : mapOffset pageGetter acme branches leaves 4 base table s = .ok s') :
    (∀ a, (PTE_SIZE : Int) ∣ a → -2 ^ 47 ≤ a → a < 2 ^ 47 → ¬ (base ≤ a ∧ a < acme) →
      walk s'.mem 4 table a = walk s.mem 4 table a) ∧
    ∃ tr, s'.trace = s.trace ++ tr ∧
      List.Forall₂ Installs (gots tr) (slots tr) ∧ ((slots tr).map Prod.fst).Nodup ∧
      (∀ w ∈ slots tr, Uses s'.mem 4 table w.1.1 ∧ s'.mem w.1.1 w.1.2 = w.2) ∧
      (∀ f i, s'.mem f i ≠ s.mem f i →
        (∃ e, ((f, i), e) ∈ slots tr) ∨ (NewTable tr f ∧ s'.mem f i = 0)) ∧
      (∀ a, (PTE_SIZE : Int) ∣ a → Met acme base a →
        ∃ x, translate s'.mem 4 table a = some x ∧ Taken tr x ∧
          ∀ f, Uses s'.mem 4 table f → ¬ (f ≤ x ∧ x < f + PTE_SIZE)) ∧
      ∀ a a', (PTE_SIZE : Int) ∣ a → (PTE_SIZE : Int) ∣ a' → Met acme base a → Met acme base a' →
        translate s'.mem 4 table a = translate s'.mem 4 table a' → a = a' := by
  obtain ⟨tr, heff⟩ := mapOffset_effect hsup h.flags 4 h.inSpan table s s' h.tree h.fresh hopen hrun
  refine ⟨?_, tr, heff.change.trace, heff.change.paired, heff.change.once, ?_, heff.change.only,
    ?_, ?_⟩
  · intro a ha hlo hhi hout
    obtain ⟨k, hs, hmiss⟩ := h.outside ha hlo hhi fun hm => hout ⟨hm.1, hm.2.1⟩
    have := heff.miss _ hs hmiss
    rwa [walk_alias _ _ _ 4 _ (Nat.le_refl 4), walk_alias _ _ _ 4 _ (Nat.le_refl 4)] at this
  · intro w hw
    exact ⟨heff.live w hw, (heff.change.slot w hw).2⟩
  · intro a ha hm
    exact Placed.not_table ha heff h (heff.hit a (hm.sameTable h) (hm.hit h ha))
  · intro a a' ha ha' hm hm'
    exact heff.inj a a' (hm.sameTable h) (hm'.sameTable h) (hm.hit h ha) (hm'.hit h ha')

/-- After the call on a span up to `0x401000`, the page there is unmapped as before. -/
theorem mapOffset_frame_after :
    ∃ s', mapOffset bumpGetter 0x401000 3 3 4 0x200000 0x1000 emptyMachine = .ok s' ∧
      walk s'.mem 4 0x1000 0x401000 = none := by
  obtain ⟨s', hrun, _⟩ := exists_ok (f := fun _ => ()) (b := ())
    (show (mapOffset bumpGetter 0x401000 3 3 4 0x200000 0x1000 emptyMachine).toOption.map _ = _ by
      decide +kernel)
  have hready : Ready BumpAvail 0x401000 0x200000 3 3 0x1000 emptyMachine :=
    emptyMachine_ready (by decide) (by decide) (by decide) (by decide)
  refine ⟨s', hrun, ?_⟩
  rw [(mapOffset_frame bumpGetter_supply hready (open_empty (fun _ => rfl) 4 _) hrun).1 0x401000
    (by decide) (by decide) (by decide) (by decide)]
  exact walk_empty (fun _ => rfl) 4 _

/-- A call leaves tables on which the next one can work. -/
theorem Ready.after (h : Ready Avail acme base branches leaves table s)
    (hsup : Supply pageGetter Avail) (hopen : Open acme s.mem 4 table base)
    (hdata : ∀ a x, translate s.mem 4 table a = some x → ¬ Avail s.pages x) {s' : Machine γ}
    (hrun : mapOffset pageGetter acme branches leaves 4 base table s = .ok s') :
    Tree s'.mem 4 table ∧ (∀ f, Uses s'.mem 4 table f → ¬ Avail s'.pages f) ∧
      ∀ a x, translate s'.mem 4 table a = some x → ¬ Avail s'.pages x := by
  obtain ⟨tr, heff⟩ := mapOffset_effect hsup h.flags 4 h.inSpan table s s' h.tree h.fresh hopen hrun
  refine ⟨heff.tree, heff.used h.fresh, ?_⟩
  intro a x hx hav
  obtain ⟨hav₀, hfree⟩ := heff.change.avail x hav
  -- look at the alias of `a` in the region of the span
  obtain ⟨k, hk⟩ : ∃ k, SameTable 4 base (a + k * 2 ^ 48) := by
    refine ⟨base / 2 ^ 48 - a / 2 ^ 48, ?_⟩
    unfold SameTable
    rw [pageSize_five]
    omega
  by_cases hhit : Hit acme 4 base (a + k * 2 ^ 48)
  · obtain ⟨y, hy, ht⟩ := (heff.hit _ hk hhit).translate
    rw [translate_alias, hx] at hy
    cases hy
    exact hfree ht
  · have := translate_congr (heff.miss _ hk hhit)
    rw [translate_alias, translate_alias, hx] at this
    exact hdata a x this.symm hav₀

/-! ## Huge pages -/

/-- The call took no huge page for a table: it followed branches only, wrote to tables that were
reached by branches or that it made itself, and gave each page of the span a new frame. -/
def Replaces (acme base : Int) (table : Nat) (s : Machine γ) (tr : List Event) (s' : Machine γ) :
    Prop :=
  (∀ k e, .followed k e ∈ tr → IsBranch k e) ∧
  (∀ w ∈ slots tr, Uses s.mem 4 table w.1.1 ∨ (NewTable tr w.1.1 ∧ (PTE_SIZE, w.1.1) ∈ gots tr)) ∧
  ∀ a, (PTE_SIZE : Int) ∣ a → base ≤ a → a < acme →
    ∃ x, translate s'.mem 4 table a = some x ∧ Taken tr x

/-- With pages that are neither tables nor mapped, `map_offset::<4>` replaces what it finds in
the span exactly if the span is in one half, no page is skipped and every page found there lies
inside of the span. -/
theorem mapOffset_replaces_iff (hsup : Supply pageGetter Avail)
    (h : Ready Avail acme base branches leaves table s) (hacme : (PTE_SIZE : Int) ∣ acme)
    (hdata : ∀ a x, translate s.mem 4 table a = some x → ¬ Avail s.pages x) {s' : Machine γ}
    (hrun : mapOffset pageGetter acme branches leaves 4 base table s = .ok s') :
    (∃ tr, s'.trace = s.trace ++ tr ∧ Replaces acme base table s tr s') ↔
      OneHalf acme base ∧ Aligned acme base ∧ ∀ a, (PTE_SIZE : Int) ∣ a → base ≤ a → a < acme →
        ∀ leaf, walk s.mem 4 table a = some leaf →
          base ≤ a / pageSize leaf.lvl * pageSize leaf.lvl ∧
          a / pageSize leaf.lvl * pageSize leaf.lvl + pageSize leaf.lvl ≤ acme := by
  have hwhole : ∀ {leaf : Leaf} {a : Int}, walk s.mem 4 table a = some leaf →
      (Inside acme base leaf.lvl a ↔ base ≤ a / pageSize leaf.lvl * pageSize leaf.lvl ∧
        a / pageSize leaf.lvl * pageSize leaf.lvl + pageSize leaf.lvl ≤ acme) := by
    intro leaf a hw
    refine and_congr_right fun _ => ?_
    have hP : (PTE_SIZE : Int) ∣ pageSize leaf.lvl :=
      pageSize_dvd_of (walk_lvl_pos 4 hw) (dvd_refl _)
    obtain ⟨c, hc⟩ := Int.dvd_sub hacme
      (Int.dvd_add (Dvd.dvd.mul_left hP (a / pageSize leaf.lvl)) hP)
    rw [show (PTE_SIZE : Int) = 4096 from rfl] at hc ⊢
    omega
  constructor
  · intro hrep
    obtain ⟨tr, htr, hfollow, _, hmap⟩ := hrep
    have hopen :=
      mapOffset_open hsup h.flags 4 h.inSpan table s s' tr h.tree h.fresh hrun htr hfollow
    obtain ⟨t, heff⟩ :=
      mapOffset_effect hsup h.flags 4 h.inSpan table s s' h.tree h.fresh hopen hrun
    have : t = tr := List.append_cancel_left (heff.change.trace.symm.trans htr)
    subst this
    -- a page that is not met keeps its frame, which is not a new one
    have hmet : ∀ a, (PTE_SIZE : Int) ∣ a → base ≤ a → a < acme → Met acme base a := by
      intro a ha h1 h2
      by_contra hm
      obtain ⟨x, hx, ht⟩ := hmap a ha h1 h2
      obtain ⟨k, hs, hmiss⟩ := h.outside ha (h.low.trans h1) (lt_of_lt_of_le h2 h.high) hm
      have hold := translate_congr (heff.miss _ hs hmiss)
      rw [translate_alias, translate_alias, hx] at hold
      exact hdata a x hold.symm (heff.change.taken x ht)
    refine ⟨?_, noneSkipped_iff.mp fun a ha h1 h2 => (hmet a ha h1 h2).2.2.2, ?_⟩
    · by_contra hc
      unfold OneHalf at hc
      have := (hmet 0 (by simp) (by omega) (by omega)).2.2.1
      omega
    · intro a ha h1 h2 leaf hw
      have hm := hmet a ha h1 h2
      rw [← hwhole hw]
      exact inside_of_le 4 h.page (hm.hit h ha)
        ((open_iff_walk 4 h.page).mp hopen a ha (hm.sameTable h) (hm.hit h ha) leaf hw)
  · intro hcond
    obtain ⟨hhalf, halign, hpages⟩ := hcond
    have hnone := noneSkipped_iff.mpr halign
    have hopen : Open acme s.mem 4 table base := by
      rw [open_iff_walk 4 h.page]
      intro a ha _ hhit leaf hw
      obtain ⟨h1, h2, _⟩ := (hit_iff ha h.page).mp hhit
      obtain h3 | h4 : leaf.lvl ≤ 3 ∨ leaf.lvl = 4 := by
        have := walk_lvl_le 4 hw
        omega
      · exact halign.le_placeLvl h.page (walk_lvl_pos 4 hw) (by omega) h2
          ((hwhole hw).mpr (hpages a ha h1 h2 leaf hw)) h3
      · exact absurd h4 (walk_lvl_ne_four hw)
    obtain ⟨tr, heff⟩ :=
      mapOffset_effect hsup h.flags 4 h.inSpan table s s' h.tree h.fresh hopen hrun
    refine ⟨tr, heff.change.trace, heff.followed, ?_, ?_⟩
    · intro w hw
      exact (heff.change.slot w hw).1.imp_right fun hn => ⟨hn, heff.change.new _ hn⟩
    · intro a ha h1 h2
      have hm : Met acme base a := by
        refine ⟨h1, h2, ?_, hnone a ha h1 h2⟩
        unfold OneHalf at hhalf
        omega
      exact (heff.hit a (hm.sameTable h) (hm.hit h ha)).translate

/-- Nothing is mapped there. -/
theorem emptyMachine_data (a : Int) (x : Nat)
    (hx : translate emptyMachine.mem 4 0x1000 a = some x) :
    ¬ BumpAvail emptyMachine.pages x := by
  unfold Amd64.translate at hx
  rw [walk_empty (fun _ => rfl) 4] at hx
  cases hx

/-- The 2 MiB at address 0 are mapped with one huge page. -/
theorem exists_huge : ∃ s, mapOffset bumpGetter 0x200000 3 3 4 0 0x1000 emptyMachine = .ok s ∧
    s.mem 0x1000 0 = 0x10003 ∧ s.mem 0x10000 0 = 0x11003 ∧ s.mem 0x11000 0 = 0x200083 ∧
      s.mem 0x11000 1 = 0 := by
  obtain ⟨s, hrun, hmem⟩ := exists_ok
    (x := mapOffset bumpGetter 0x200000 3 3 4 0 0x1000 emptyMachine)
    (f := fun s => (s.mem 0x1000 0, s.mem 0x10000 0, s.mem 0x11000 0, s.mem 0x11000 1))
    (b := (0x10003, 0x11003, 0x200083, 0)) (by decide +kernel)
  simp only [Prod.mk.injEq] at hmem
  exact ⟨s, hrun, hmem⟩

/-- Nothing else is mapped in the first 4 MiB. -/
theorem walk_huge {mem : Frames} (hpml4 : mem 0x1000 0 = 0x10003) (hmem : mem 0x10000 0 = 0x11003)
    (hpage : mem 0x11000 0 = 0x200083) (hnext : mem 0x11000 1 = 0) {a : Int} (hlo : 0 ≤ a)
    (hhi : a < 0x400000) {leaf : Leaf} (hw : walk mem 4 0x1000 a = some leaf) :
    a < 0x200000 ∧ leaf.lvl = 2 := by
  have htop := tableIndex_eq a 4
  have hpdpt := tableIndex_eq a 3
  have hpd := tableIndex_eq a 2
  rw [show (pageSize 4 : Int) = 2 ^ 39 by decide] at htop
  rw [show (pageSize 3 : Int) = 2 ^ 30 by decide] at hpdpt
  rw [show (pageSize 2 : Int) = 2 ^ 21 by decide] at hpd
  rw [walk_branch (e := 0x10003) (by rw [show tableIndex a 4 = 0 by omega, hpml4]) (by decide),
    show (0x10003 : PTE).getPaddr = 0x10000 by decide,
    walk_branch (e := 0x11003) (by rw [show tableIndex a 3 = 0 by omega, hmem]) (by decide),
    show (0x11003 : PTE).getPaddr = 0x11000 by decide] at hw
  by_cases hlow : a < 0x200000
  · rw [walk_leaf (e := 0x200083) (by rw [show tableIndex a 2 = 0 by omega, hpage]) (by decide)
      (by decide)] at hw
    cases hw
    exact ⟨hlow, rfl⟩
  · have hnone : walk mem 2 0x11000 a = none := by
      simp only [walk]
      rw [show tableIndex a 2 = 1 by omega, hnext, if_pos (by decide)]
    rw [hnone] at hw
    cases hw

/-- The huge page at address 0 is mapped again, with the page behind it: it is replaced. -/
theorem mapOffset_replaces_huge :
    ∃ s s', mapOffset bumpGetter 0x200000 3 3 4 0 0x1000 emptyMachine = .ok s ∧
      translate s.mem 4 0x1000 0 = some 0x200000 ∧
      mapOffset bumpGetter 0x201000 3 3 4 0 0x1000 s = .ok s' ∧
      ∃ tr, s'.trace = s.trace ++ tr ∧ Replaces 0x201000 0 0x1000 s tr s' := by
  obtain ⟨⟨s, s'⟩, hrun, hx⟩ := exists_ok
    (x := do
      let s ← mapOffset bumpGetter 0x200000 3 3 4 0 0x1000 emptyMachine
      let s' ← mapOffset bumpGetter 0x201000 3 3 4 0 0x1000 s
      return (s, s'))
    (f := fun p => translate p.1.mem 4 0x1000 0) (b := some 0x200000) (by decide +kernel)
  obtain ⟨s₁, hrun₁, hrun⟩ := bind_ok hrun
  obtain ⟨s₂, hrun₂, hret⟩ := bind_ok hrun
  cases hret
  obtain ⟨_, hhuge, hpml4, hpdpt, hpage, hnext⟩ := exists_huge
  cases hhuge.symm.trans hrun₁
  have hready : Ready BumpAvail 0x200000 0 3 3 0x1000 emptyMachine :=
    emptyMachine_ready (by decide) (by decide) (by decide) (by decide)
  -- after the first call the tables are a tree again, with the huge page in it
  obtain ⟨htree, hfresh, hdata⟩ := hready.after bumpGetter_supply (open_empty (fun _ => rfl) 4 _)
    emptyMachine_data hrun₁
  have hready' : Ready BumpAvail 0x201000 0 3 3 0x1000 s :=
    ⟨by decide, by decide, by decide, by decide, hready.flags, hready.aligned, htree, hfresh⟩
  refine ⟨s, s', hrun₁, hx, hrun₂,
    (mapOffset_replaces_iff bumpGetter_supply hready' (by decide) hdata hrun₂).mpr
      ⟨.inr (le_refl _), ?_, ?_⟩⟩
  · intro L hL2 hL4
    have : L = 2 ∨ L = 3 ∨ L = 4 := by omega
    obtain rfl | rfl | rfl := this <;> decide
  -- whatever the span meets is that page, and it lies inside
  · intro a _ h1 h2 leaf hw
    obtain ⟨hlow, hlvl⟩ := walk_huge hpml4 hpdpt hpage hnext h1 (by omega) hw
    have hsize : (pageSize 2 : Int) = 2 ^ 21 := by decide
    rw [hlvl, hsize]
    omega

/-- The 2 MiB at address 0 are mapped with one huge page, and then the page at `0x1000` is
mapped again: the call writes the new entry into the frame of the huge page. -/
theorem mapOffset_follows_huge :
    ∃ s s', mapOffset bumpGetter 0x200000 3 3 4 0 0x1000 emptyMachine = .ok s ∧
      Ready BumpAvail 0x2000 0x1000 3 3 0x1000 s ∧
      (∀ a x, translate s.mem 4 0x1000 a = some x → ¬ BumpAvail s.pages x) ∧
      mapOffset bumpGetter 0x2000 3 3 4 0x1000 0x1000 s = .ok s' ∧
      translate s.mem 4 0x1000 0 = some 0x200000 ∧ ((0x200000, 1), 0x400003) ∈ slots s'.trace ∧
      ¬ ∃ tr, s'.trace = s.trace ++ tr ∧ Replaces 0x2000 0x1000 0x1000 s tr s' := by
  obtain ⟨⟨s, s'⟩, hrun, htrace⟩ := exists_ok
    (x := do
      let s ← mapOffset bumpGetter 0x200000 3 3 4 0 0x1000 emptyMachine
      let s' ← mapOffset bumpGetter 0x2000 3 3 4 0x1000 0x1000 s
      return (s, s'))
    (f := fun p => (translate p.1.mem 4 0x1000 0, p.1.trace, p.2.trace))
    (b := (some 0x200000,
      [.got 4096 0x10000, .zeroed 0x10000, .wrote 0x1000 0 0x10003, .followed 4 0x10003,
        .got 4096 0x11000, .zeroed 0x11000, .wrote 0x10000 0 0x11003, .followed 3 0x11003,
        .got 0x200000 0x200000, .wrote 0x11000 0 0x200083],
      [.got 4096 0x10000, .zeroed 0x10000, .wrote 0x1000 0 0x10003, .followed 4 0x10003,
        .got 4096 0x11000, .zeroed 0x11000, .wrote 0x10000 0 0x11003, .followed 3 0x11003,
        .got 0x200000 0x200000, .wrote 0x11000 0 0x200083] ++
      [.followed 4 0x10003, .followed 3 0x11003, .followed 2 0x200083, .got 4096 0x400000,
        .wrote 0x200000 1 0x400003]))
    (by decide +kernel)
  obtain ⟨s₁, hrun₁, hrun⟩ := bind_ok hrun
  obtain ⟨s₂, hrun₂, hret⟩ := bind_ok hrun
  cases hret
  simp only [Prod.mk.injEq] at htrace
  obtain ⟨hx, ht, ht'⟩ := htrace
  have hready : Ready BumpAvail 0x200000 0 3 3 0x1000 emptyMachine :=
    emptyMachine_ready (by decide) (by decide) (by decide) (by decide)
  have hnext := hready.after bumpGetter_supply (open_empty (fun _ => rfl) 4 _) emptyMachine_data
    hrun₁
  refine ⟨s, s', hrun₁, ?_, hnext.2.2, hrun₂, hx, ?_, ?_⟩
  · exact ⟨by decide, by decide, by decide, by decide, hready.flags, hready.aligned,
      hnext.1, hnext.2.1⟩
  · rw [ht']
    decide
  -- the event says that the huge page was followed as a table
  · intro hc
    obtain ⟨tr, htr, hfollow, _⟩ := hc
    rw [ht', ht] at htr
    have := List.append_cancel_left htr
    subst this
    exact absurd (hfollow 2 0x200083 (by decide)) (by decide)

end Results

end Tauos.Mapper
