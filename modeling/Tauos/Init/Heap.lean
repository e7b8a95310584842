import Tauos.Mapper.Mapping
import Tauos.Memm.Run

/-!
# The heap of a CPU

`init.rs`: `allocator_setup` maps the initial heap of a CPU and builds its
allocator there; `oom_handler` doubles the arena, up to a limit, by mapping the
memory behind it and calling `extend`.

`Mapper::map` rounds the base of a span down to a page and its size up, each on
its own. A heap whose size is a whole number of pages grows by whole pages. Any
other heap ends inside a page, and its first growth maps that page again, to a
fresh frame.

> `HeapRun cfg ticket calls t`: the heap since `allocator_setup`, with the calls
> `calls` of `Mapper::map`, the latest first: one for the setup and one for each
> call of `oom_handler` that returned `Ok`.

The arena is a whole number of pages until it reaches the limit, where it does
not grow any more. This is the invariant behind `heap_growth_keeps_iff`.
-/

namespace Tauos.Init

open Tauos.Rust Tauos.Amd64 Tauos.Mapper Tauos.Memm

/-! ## Growing -/

/-- The settings of `cfg.rs`. -/
structure Cfg where
  stackSize : Nat
  heapInitSize : Nat
  heapSmlstBlock : Nat
  deriving DecidableEq, Repr

/-- The defaults. -/
def Cfg.default : Cfg := ⟨0x800000 - 0x1000, 0x1000000, 0x20⟩

/-- `max_arena_size` of `oom_handler`. -/
def maxArenaSize (cfg : Cfg) : Except Fault Nat := do
  usizeSub (← usizeSub PDPTE_SIZE cfg.stackSize) PTE_SIZE

/-- The size `oom_handler` extends an arena to; `none` when there is no room to expand
or not enough for the status data. -/
def lgrSize (cfg : Cfg) (a : Arena) : Except Fault (Option Nat) := do
  let lgr := min (← usizeMul a.arenaSize 2) (← maxArenaSize cfg)
  let freeMemSize ← reqFreeMem a.smlstBlock a.arenaBase lgr
  return if a.arenaSize < (← usizeSub lgr freeMemSize) then some lgr else none

/-- `oom_handler`, over any effect of `Mapper::map`. -/
def oomHandler {μ : Type} (cfg : Cfg) (map : μ → Int → Nat → Except Fault μ) :
    OomHandler μ FreeLists :=
  fun m t _ => do
    match ← lgrSize cfg t.toArena with
    | none => return (false, m, t)
    | some lgr =>
      let acme ← isizeAdd t.arenaBase t.arenaSize
      let m ← map m acme (← usizeSub lgr t.arenaSize)
      let t ← t.extend t.arenaBase lgr ⟨acme, lgr - t.arenaSize⟩
      return (true, m, t)

/-- `heap_base` of `allocator_setup`. -/
def heapBase (threadTicket : Nat) : Except Fault Int := do
  isizeMul (-(PDPTE_SIZE : Int)) (← isizeAdd 2 (asIsize threadTicket))

/-- `allocator_setup`, up to the allocator: the `Tallock` is then allocated on its own
heap, by a call like any other. -/
def allocatorSetup {μ : Type} (cfg : Cfg) (map : μ → Int → Nat → Except Fault μ) (m : μ)
    (threadTicket : Nat) : Except Fault (μ × Talloc FreeLists) := do
  let base ← heapBase threadTicket
  let m ← map m base cfg.heapInitSize
  let t ← Talloc.new base cfg.heapInitSize cfg.heapSmlstBlock ⟨base, cfg.heapInitSize⟩
  return (m, t)

/-! ## The spans that are mapped -/

/-- A call of `Mapper::map`: the base asked for, and the pages from `lo` to `acme` it maps
to fresh frames. -/
structure MapCall where
  request : Int
  lo : Int
  acme : Int
  deriving DecidableEq, Repr

/-- The span `Mapper::map` derives. -/
def mapCall (base : Int) (size : Nat) : Except Fault MapCall := do
  ensure (size ≠ 0)
  let lo := maskDown base PTE_SIZE
  return ⟨base, lo, wrappingAdd lo (← roundUpPage size)⟩

/-- `Mapper::map`, seen from the spans it maps. -/
def recordMap (calls : List MapCall) (base : Int) (size : Nat) : Except Fault (List MapCall) := do
  return (← mapCall base size) :: calls

/-- The span is the one `Mapper::map` hands to `map_offset` and returns. -/
theorem mapperMap_mapCall {γ : Type} {pageGetter : γ → Nat → Except Fault (Nat × γ)} {base : Int}
    {size : Nat} {branches leaves : PTE} {pml4 : Nat} {s s' : Machine γ} {m : Mapping}
    (h : mapperMap pageGetter base size branches leaves pml4 s = .ok (m, s')) :
    mapCall base size = .ok ⟨base, m.base, m.acme⟩ := by
  obtain ⟨_, hsize, h⟩ := bind_ok h
  obtain ⟨n, hn, h⟩ := bind_ok h
  obtain ⟨s₁, _, h⟩ := bind_ok h
  cases h
  unfold mapCall
  rw [hsize, ok_bind, hn]
  rfl

/-- The call maps the page at `p`. -/
def MapCall.Maps (c : MapCall) (p : Int) : Prop := c.lo ≤ p ∧ p < c.acme

/-- The page at `p`, mapped by one of the calls, holds bytes of the arena from `base` up to
`acme`. -/
def Backs (calls : List MapCall) (base acme p : Int) : Prop :=
  (∃ c ∈ calls, c.Maps p) ∧ ∃ x, p ≤ x ∧ x < p + PTE_SIZE ∧ base ≤ x ∧ x < acme

/-- Every byte of the arena is in a span. -/
def Covered (a : Arena) (calls : List MapCall) : Prop :=
  ∀ x, a.arenaBase ≤ x → x < a.arenaBase + a.arenaSize → ∃ c ∈ calls, c.Maps x

/-- No call maps a page again that backed a part of the arena as it was. A growth asks
for the memory behind the arena, so the arena ended at the base asked for. -/
def Undisturbed (base : Int) : List MapCall → Prop
  | [] => True
  | c :: calls => (∀ p, (PTE_SIZE : Int) ∣ p → c.Maps p → ¬ Backs calls base c.request p) ∧
      Undisturbed base calls

/-- A step of a heap. `alloc` calls `oom_handler` as often as it needs; `grow` is one
such call on its own. -/
inductive HeapStep (cfg : Cfg) (calls : List MapCall) (t : Talloc FreeLists) :
    List MapCall → Talloc FreeLists → Prop
  | grow {calls' : List MapCall} {t' : Talloc FreeLists} {layout : Layout} {ok : Bool} :
      oomHandler cfg recordMap calls t layout = .ok (ok, calls', t') →
        HeapStep cfg calls t calls' t'
  | alloc {calls' : List MapCall} {t' : Talloc FreeLists} {layout : Layout} {fuel : Nat}
      {ptr : Option Int} :
      Talloc.alloc (oomHandler cfg recordMap) fuel calls t layout = .ok (ptr, calls', t') →
      HeapStep cfg calls t calls' t'
  | dealloc {t' : Talloc FreeLists} {ptr : Int} {layout : Layout} :
      t.dealloc ptr layout = .ok t' → HeapStep cfg calls t calls t'
  | shrink {t' : Talloc FreeLists} {ptr : Int} {layout layout' : Layout} :
      t.shrink ptr layout layout' = .ok t' → HeapStep cfg calls t calls t'

/-- The states of the heap of a CPU. -/
inductive HeapRun (cfg : Cfg) (threadTicket : Nat) : List MapCall → Talloc FreeLists → Prop
  | setup {calls : List MapCall} {t : Talloc FreeLists} :
      allocatorSetup cfg recordMap [] threadTicket = .ok (calls, t) →
      HeapRun cfg threadTicket calls t
  | step {calls calls' : List MapCall} {t t' : Talloc FreeLists} :
      HeapRun cfg threadTicket calls t → HeapStep cfg calls t calls' t' →
      HeapRun cfg threadTicket calls' t'

/-- What `oom_handler` keeps of the calls and the arena, every step does. -/
theorem HeapStep.keeps {cfg : Cfg} {calls calls' : List MapCall} {t t' : Talloc FreeLists}
    {I : List MapCall → Arena → Prop} (hoom : Talloc.HandlerKeeps (oomHandler cfg recordMap) I)
    (h : HeapStep cfg calls t calls' t') (hI : I calls t.toArena) : I calls' t'.toArena := by
  cases h with
  | grow hgrow => exact hoom hgrow hI
  | alloc halloc => exact Talloc.alloc_keeps hoom halloc hI
  | dealloc hdealloc =>
    rw [Talloc.dealloc_arena hdealloc]
    exact hI
  | shrink hshrink =>
    rw [Talloc.shrink_arena hshrink]
    exact hI

/-! ## Whole pages -/

section Growth

variable {cfg : Cfg} {threadTicket lgr limit : Nat} {a : Arena} {calls calls' : List MapCall}
  {t t' : Talloc FreeLists} {base : Int} {size : Nat} {c : MapCall}

theorem maxArenaSize_le (h : maxArenaSize cfg = .ok limit) : limit + 4096 ≤ 2 ^ 30 := by
  obtain ⟨n, hn, h⟩ := bind_ok h
  obtain ⟨_, hn⟩ := usizeSub_ok hn
  obtain ⟨hle, hlimit⟩ := usizeSub_ok h
  have hpage : PTE_SIZE = 4096 := rfl
  have hsize : PDPTE_SIZE = 1073741824 := rfl
  rw [hsize] at hn
  rw [hpage] at hlimit hle
  omega

/-- An arena grows to twice its size or to the limit, and not at all at the limit. -/
theorem lgrSize_some (h : lgrSize cfg a = .ok (some lgr)) : ∃ limit, maxArenaSize cfg = .ok limit ∧
    lgr = min (a.arenaSize * 2) limit ∧ a.arenaSize < lgr := by
  obtain ⟨double, hdouble, h⟩ := bind_ok h
  obtain ⟨limit, hlimit, h⟩ := bind_ok h
  obtain ⟨need, _, h⟩ := bind_ok h
  obtain ⟨rest, hrest, h⟩ := bind_ok h
  obtain ⟨_, rfl⟩ := usizeSub_ok hrest
  obtain ⟨_, rfl⟩ := usizeMul_ok hdouble
  split at h
  next hguard =>
    cases h
    exact ⟨limit, hlimit, rfl, by omega⟩
  next => cases h

/-- `oom_handler` leaves the heap as it is, or maps the memory behind the arena and
extends the arena over it. -/
theorem oomHandler_cases {layout : Layout} {ok : Bool}
    (h : oomHandler cfg recordMap calls t layout = .ok (ok, calls', t')) :
    calls' = calls ∧ t' = t ∨ ∃ lgr c, lgrSize cfg t.toArena = .ok (some lgr) ∧
      mapCall (t.arenaBase + t.arenaSize) (lgr - t.arenaSize) = .ok c ∧ calls' = c :: calls ∧
      t'.toArena = ⟨t.arenaBase, lgr, nextPowerOfTwo lgr, t.smlstBlock⟩ := by
  obtain ⟨grown, hgrown, h⟩ := bind_ok h
  cases grown with
  | none =>
    cases h
    exact Or.inl ⟨rfl, rfl⟩
  | some lgr =>
    obtain ⟨acme, hacme, h⟩ := bind_ok h
    obtain ⟨n, hn, h⟩ := bind_ok h
    obtain ⟨m, hmap, h⟩ := bind_ok h
    obtain ⟨t₁, hextend, h⟩ := bind_ok h
    obtain ⟨c, hc, hcalls⟩ := bind_ok hmap
    cases hcalls
    cases h
    obtain ⟨rfl, _⟩ := isizeAdd_ok hacme
    obtain ⟨_, rfl⟩ := usizeSub_ok hn
    exact Or.inr ⟨lgr, c, hgrown, hc, rfl, Talloc.extend_arena hextend⟩

/-- The span of a call of `Mapper::map`. -/
theorem mapCall_ok (h : mapCall base size = .ok c) (hbase : InIsize base)
    (hsize : size ≤ 2 ^ 30) (hroom : base + size + 4096 ≤ 2 ^ 63) :
    c.request = base ∧ c.lo = base / 4096 * 4096 ∧
      c.acme = base / 4096 * 4096 + ((size + 4095) / 4096 * 4096 : Nat) := by
  obtain ⟨h1, h2⟩ := hbase
  obtain ⟨_, _, h⟩ := bind_ok h
  obtain ⟨n, hn, h⟩ := bind_ok h
  have hmask : maskDown base PTE_SIZE = base / 4096 * 4096 := by
    rw [show PTE_SIZE = 2 ^ 12 from rfl, maskDown_two_pow ⟨h1, h2⟩ (by omega)]
    rfl
  have hround : n = (size + 4095) / 4096 * 4096 := by
    rw [roundUpPage_of (by unfold PTE_SIZE; omega)] at hn
    cases hn
    rfl
  subst hround
  cases h
  refine ⟨rfl, hmask, ?_⟩
  show wrappingAdd (maskDown base PTE_SIZE) _ = _
  rw [hmask, wrappingAdd_of_inIsize ⟨by omega, by omega⟩]

/-- One span, the pages of the arena. -/
def OneSpan (a : Arena) (calls : List MapCall) : Prop :=
  ∃ c, calls = [c] ∧ c.lo = a.arenaBase ∧
    c.acme = a.arenaBase + ((a.arenaSize + 4095) / 4096 * 4096 : Nat)

theorem OneSpan.keeps (h : OneSpan a calls) : Covered a calls ∧ Undisturbed a.arenaBase calls := by
  obtain ⟨c, rfl, hlo, hacme⟩ := h
  refine ⟨fun x hx1 hx2 => ⟨c, List.mem_singleton.mpr rfl, by omega, by omega⟩, ?_, trivial⟩
  intro p _ _ hbacks
  obtain ⟨⟨c', hc', _⟩, _⟩ := hbacks
  cases hc'

/-- The heap starts at the base of a 1 GiB page and stays below the limit. With an
initial size in whole pages it grows by whole pages; otherwise the first growth maps the
last page again. -/
structure HeapInv (cfg : Cfg) (limit : Nat) (calls : List MapCall) (a : Arena) : Prop where
  aligned : (2 ^ 30 : Int) ∣ a.arenaBase
  word : InIsize a.arenaBase
  size : a.arenaSize ≤ limit
  some : calls ≠ []
  first : calls.length = 1 → a.arenaSize = cfg.heapInitSize ∧ OneSpan a calls
  keeps : PTE_SIZE ∣ cfg.heapInitSize → (4096 ∣ a.arenaSize ∨ a.arenaSize = limit) ∧
    Covered a calls ∧ Undisturbed a.arenaBase calls
  breaks : calls.length ≠ 1 → ¬ PTE_SIZE ∣ cfg.heapInitSize → ¬ Undisturbed a.arenaBase calls

theorem HeapInv.setup (hlimit : maxArenaSize cfg = .ok limit) (hinit : cfg.heapInitSize ≤ limit)
    (h : allocatorSetup cfg recordMap [] threadTicket = .ok (calls, t)) :
    HeapInv cfg limit calls t.toArena := by
  have hle := maxArenaSize_le hlimit
  obtain ⟨base, hbase, h⟩ := bind_ok h
  obtain ⟨m, hmap, h⟩ := bind_ok h
  obtain ⟨t₁, hnew, h⟩ := bind_ok h
  obtain ⟨c, hc, hcalls⟩ := bind_ok hmap
  cases hcalls
  cases h
  rw [Talloc.extend_arena hnew]
  obtain ⟨n, _, hmul⟩ := bind_ok hbase
  obtain ⟨hval, hword⟩ := isizeMul_ok hmul
  have hal : (2 ^ 30 : Int) ∣ base := ⟨-n, by rw [hval]; unfold PDPTE_SIZE; ring⟩
  obtain ⟨h1, h2⟩ := hword
  obtain ⟨_, hlo, hacme⟩ := mapCall_ok hc ⟨h1, h2⟩ (by omega) (by omega)
  have hpage : base / 4096 * 4096 = base := by omega
  rw [hpage] at hlo hacme
  have hone :
      OneSpan ⟨base, cfg.heapInitSize, nextPowerOfTwo cfg.heapInitSize, cfg.heapSmlstBlock⟩ [c] :=
    ⟨c, rfl, hlo, hacme⟩
  exact ⟨hal, ⟨h1, h2⟩, hinit, List.cons_ne_nil _ _, fun _ => ⟨rfl, hone⟩,
    fun hdvd => ⟨Or.inl hdvd, hone.keeps⟩, fun hk => absurd rfl hk⟩

/-- The last byte of an arena that ends inside a page is on the page mapped again. -/
theorem OneSpan.disturbed (h : OneSpan a calls) (hrest : ¬ 4096 ∣ a.arenaSize)
    (hal : (2 ^ 30 : Int) ∣ a.arenaBase) (hreq : c.request = a.arenaBase + a.arenaSize)
    (hlo : c.lo = (a.arenaBase + a.arenaSize) / 4096 * 4096) (hacme : c.lo < c.acme) :
    ¬ Undisturbed a.arenaBase (c :: calls) := by
  intro hun
  obtain ⟨c₀, rfl, hlo₀, hacme₀⟩ := h
  refine hun.1 c.lo ⟨(a.arenaBase + a.arenaSize) / 4096, by rw [hlo]; exact Int.mul_comm ..⟩
    ⟨le_refl _, hacme⟩ ⟨⟨c₀, List.mem_singleton.mpr rfl, by omega, by omega⟩,
      a.arenaBase + a.arenaSize - 1, ?_⟩
  show c.lo ≤ _ ∧ _ < c.lo + 4096 ∧ _ ∧ _ < c.request
  omega

/-- The next growth. -/
theorem HeapInv.grow (hlimit : maxArenaSize cfg = .ok limit) :
    Talloc.HandlerKeeps (oomHandler cfg recordMap) (HeapInv cfg limit) := by
  intro calls calls' t t' layout ok h hinv
  have hle := maxArenaSize_le hlimit
  rcases oomHandler_cases h with ⟨rfl, rfl⟩ | ⟨lgr, c, hgrown, hc, rfl, harena⟩
  · exact hinv
  obtain ⟨limit', hlimit', hmin, hlt⟩ := lgrSize_some hgrown
  rw [hlimit] at hlimit'
  cases hlimit'
  rw [harena]
  obtain ⟨⟨j, hj⟩, ⟨h1, h2⟩, hsize, hsome, hfirst, hkeeps, hbreaks⟩ := hinv
  obtain ⟨hreq, hlo, hacme⟩ := mapCall_ok hc ⟨by omega, by omega⟩ (by omega) (by omega)
  -- the arena doubles, or goes up to the limit
  have hlgr : lgr ≤ limit := by omega
  have hlen : (c :: calls).length ≠ 1 := by
    have hpos := List.length_pos_of_ne_nil hsome
    rw [List.length_cons]
    omega
  refine ⟨⟨j, hj⟩, ⟨h1, h2⟩, hlgr, List.cons_ne_nil _ _, fun hone => absurd hone hlen,
    fun hdvd => ?_,
    fun _ hdvd => ?_⟩
  · -- the arena ends on a page boundary, since it is not at the limit
    obtain ⟨hpages, hcov, hun⟩ := hkeeps hdvd
    have hpage : 4096 ∣ t.arenaSize := hpages.resolve_right (by omega)
    refine ⟨?_, fun x hx1 hx2 => ?_, fun p hp hmaps hbacks => ?_, hun⟩
    · rcases Nat.le_total (t.arenaSize * 2) limit with hdouble | hclamp
      · left
        show 4096 ∣ lgr
        omega
      · right
        show lgr = limit
        omega
    · have hx1 : t.arenaBase ≤ x := hx1
      have hx2 : x < t.arenaBase + lgr := hx2
      rcases Int.lt_or_le x (t.arenaBase + t.arenaSize) with hold | hnew
      · obtain ⟨c', hc', hmaps⟩ := hcov x hx1 hold
        exact ⟨c', List.mem_cons_of_mem _ hc', hmaps⟩
      · exact ⟨c, List.mem_cons_self .., by omega, by omega⟩
    · obtain ⟨_, x, hx1, hx2, _, hx4⟩ := hbacks
      obtain ⟨hm1, hm2⟩ := hmaps
      omega
  · by_cases hone : calls.length = 1
    · obtain ⟨hinit, hspan⟩ := hfirst hone
      have hrest : ¬ 4096 ∣ t.arenaSize := by
        rw [hinit]
        exact hdvd
      exact hspan.disturbed hrest ⟨j, hj⟩ hreq hlo (by omega)
    · exact fun hun => hbreaks hone hdvd hun.2

theorem HeapRun.inv (hlimit : maxArenaSize cfg = .ok limit) (hinit : cfg.heapInitSize ≤ limit)
    (h : HeapRun cfg threadTicket calls t) : HeapInv cfg limit calls t.toArena := by
  induction h with
  | setup hsetup => exact HeapInv.setup hlimit hinit hsetup
  | step _ hstep ih => exact hstep.keeps (HeapInv.grow hlimit) ih

/-- The heap stays where `allocator_setup` puts it. -/
theorem HeapRun.heapBase_eq (h : HeapRun cfg threadTicket calls t) :
    heapBase threadTicket = .ok t.arenaBase := by
  have hgrow : Talloc.HandlerKeeps (oomHandler cfg recordMap)
      fun _ a => heapBase threadTicket = .ok a.arenaBase := by
    intro calls calls' t t' layout ok h hbase
    rcases oomHandler_cases h with ⟨rfl, rfl⟩ | ⟨lgr, c, _, _, _, harena⟩
    · exact hbase
    · rw [harena]
      exact hbase
  induction h with
  | setup hsetup =>
    obtain ⟨base, hbase, hsetup⟩ := bind_ok hsetup
    obtain ⟨m, _, hsetup⟩ := bind_ok hsetup
    obtain ⟨t₁, hnew, hsetup⟩ := bind_ok hsetup
    cases hsetup
    rw [Talloc.extend_arena hnew]
    exact hbase
  | step _ hstep ih =>
    exact hstep.keeps (I := fun _ a => heapBase threadTicket = .ok a.arenaBase) hgrow ih

/-- A heap that starts below the limit keeps what it maps through all growths if and only
if it starts with whole pages, or does not grow. -/
theorem heap_growth_keeps_iff (hlimit : maxArenaSize cfg = .ok limit)
    (hinit : cfg.heapInitSize ≤ limit) (h : HeapRun cfg threadTicket calls t) :
    Covered t.toArena calls ∧ Undisturbed t.arenaBase calls ↔
      calls.length = 1 ∨ PTE_SIZE ∣ cfg.heapInitSize := by
  have hinv := h.inv hlimit hinit
  constructor
  · intro hkeeps
    by_contra hcon
    obtain ⟨hlen, hdvd⟩ := not_or.mp hcon
    exact hinv.breaks hlen hdvd hkeeps.2
  · intro hcond
    rcases hcond with hlen | hdvd
    · exact (hinv.first hlen).2.keeps
    · exact (hinv.keeps hdvd).2

end Growth

/-- A heap set up for the first CPU and grown once. -/
theorem sample_growth (cfg : Cfg) (calls : List MapCall)
    (h : (do
      let s ← allocatorSetup cfg recordMap [] 0
      let r ← oomHandler cfg recordMap s.1 s.2 ⟨8, 8⟩
      return (r.1, r.2.1) : Except Fault (Bool × List MapCall)) = .ok (true, calls)) :
    ∃ t, HeapRun cfg 0 calls t := by
  obtain ⟨⟨calls₀, t⟩, hsetup, h⟩ := bind_ok h
  obtain ⟨⟨ok, calls₁, t'⟩, hgrow, h⟩ := bind_ok h
  cases h
  exact ⟨t', (HeapRun.setup hsetup).step (HeapStep.grow hgrow)⟩

/-- Six KiB, then twelve: the second page is mapped twice, with the heap in it. -/
theorem growth_remaps : ∃ calls t, HeapRun ⟨0x7ff000, 0x1800, 0x20⟩ 0 calls t ∧
    ¬ (Covered t.toArena calls ∧ Undisturbed t.arenaBase calls) := by
  obtain ⟨t, hrun⟩ := sample_growth ⟨0x7ff000, 0x1800, 0x20⟩
    [⟨-0x7fffe800, -0x7ffff000, -0x7fffd000⟩, ⟨-0x80000000, -0x80000000, -0x7fffe000⟩]
    (by decide +kernel)
  have hlimit : maxArenaSize ⟨0x7ff000, 0x1800, 0x20⟩ = .ok 0x3f800000 := by decide
  exact ⟨_, t, hrun, fun h => (hrun.inv hlimit (by decide)).breaks (by decide) (by decide) h.2⟩

/-- One page, then two. -/
theorem heap_growth_keeps_page : ∃ calls t, HeapRun ⟨0x7ff000, 0x1000, 0x20⟩ 0 calls t ∧
    Covered t.toArena calls ∧ Undisturbed t.arenaBase calls := by
  obtain ⟨t, hrun⟩ := sample_growth ⟨0x7ff000, 0x1000, 0x20⟩
    [⟨-0x7ffff000, -0x7ffff000, -0x7fffe000⟩, ⟨-0x80000000, -0x80000000, -0x7ffff000⟩]
    (by decide +kernel)
  have hlimit : maxArenaSize ⟨0x7ff000, 0x1000, 0x20⟩ = .ok 0x3f800000 := by decide
  exact ⟨_, t, hrun, (heap_growth_keeps_iff hlimit (by decide) hrun).mpr (Or.inr (by decide))⟩

end Tauos.Init
