import Tauos.Init.Cpus
import Tauos.Mapper.MapRun

/-!
# What the CPUs ask `MAPPER` for

The calls of `Mapper::map` in `_start`, `allocator_setup` and `oom_handler`, as requests with a base
and a size, and which pages they map.

* The stack of a CPU starts a page above a 2 MiB boundary, and `map_offset` skips the page of the
  next boundary: of the 1023 pages of a stack it maps 1022 (`stackRequest_maps`).
* A heap grows by whole 2 MiB pages: what it asks for after another tiles its arena (`Tiles`), and
  every page of it is mapped (`Tiles.toRequest_maps`).
-/

namespace Tauos.Init

open Tauos.Rust Tauos.Amd64 Tauos.Mapper Tauos.Memm

/-! ## Spans -/

/-- A request of whole pages below -1 GiB. -/
structure WholePages (c : MapRequest) (lo acme : Int) : Prop where
  first : c.first = lo
  acme : c.acme = acme
  allowed : c.Allowed

theorem wholePages {lo : Int} {size : Nat} (hlo : 4096 ∣ lo) (hsize : 4096 ∣ size) (h0 : 0 < size)
    (hlow : -2 ^ 46 ≤ lo) (hhigh : lo + size ≤ 0) :
    WholePages ⟨lo, size, PTE.RW, PTE.RW⟩ lo (lo + size) := by
  have hOff : PHYS_LADDR_OFFSET = -2 ^ 47 := by decide
  have hfirst : MapRequest.first ⟨lo, size, PTE.RW, PTE.RW⟩ = lo := by
    show maskDown lo PTE_SIZE = lo
    rw [show PTE_SIZE = 2 ^ 12 from rfl, maskDown_two_pow ⟨by omega, by omega⟩ (by omega)]
    omega
  have hacme : MapRequest.acme ⟨lo, size, PTE.RW, PTE.RW⟩ = lo + size := by
    unfold MapRequest.acme
    rw [hfirst]
    show wrappingAdd lo ((size + 4096 - 1) / 4096 * 4096 : Nat) = lo + size
    rw [show (size + 4096 - 1) / 4096 * 4096 = size by omega,
      wrappingAdd_of_inIsize ⟨by omega, by omega⟩]
  have hflags : Flags PTE.RW PTE.RW := ⟨by decide, by decide, by decide⟩
  refine ⟨hfirst, hacme, ⟨by dsimp only; omega, by dsimp only; omega⟩, ?_, ?_, ?_, ?_, hflags⟩
  · rw [hfirst]
    omega
  · rw [hfirst, hacme]
    omega
  · rw [hacme]
    omega
  · rw [hacme]
    exact .inl (by omega)

theorem not_skipped_iff {base a : Int} : ¬ Skipped base a ↔ base % 2 ^ 21 ≤ a % 2 ^ 21 ∧
    base % 2 ^ 30 ≤ a % 2 ^ 30 ∧ base % 2 ^ 39 ≤ a % 2 ^ 39 := by
  have h2 : (pageSize 2 : Int) = 2 ^ 21 := by decide
  have h3 : (pageSize 3 : Int) = 2 ^ 30 := by decide
  have h4 : (pageSize 4 : Int) = 2 ^ 39 := by decide
  refine ⟨fun h => ?_, fun ⟨h21, h30, h39⟩ ⟨L, hL2, hL4, hlt⟩ => ?_⟩
  · refine ⟨?_, ?_, ?_⟩ <;> refine Int.not_lt.mp fun hlt => h ?_
    · exact ⟨2, by omega, by omega, by rwa [h2]⟩
    · exact ⟨3, by omega, by omega, by rwa [h3]⟩
    · exact ⟨4, by omega, by omega, by rwa [h4]⟩
  · obtain rfl | rfl | rfl : L = 2 ∨ L = 3 ∨ L = 4 := by omega
    · rw [h2] at hlt
      omega
    · rw [h3] at hlt
      omega
    · rw [h4] at hlt
      omega

theorem WholePages.maps_iff {c : MapRequest} {lo acme : Int} (h : WholePages c lo acme)
    (hacme : acme ≤ 0) {a : Int} : c.Maps a ↔ lo ≤ a ∧ a < acme ∧ ¬ Skipped lo a := by
  unfold MapRequest.Maps Met
  rw [h.first, h.acme]
  exact and_congr_right fun _ => and_congr_right fun hlt => and_iff_right (.inr (by omega))

theorem WholePages.maps_span {c : MapRequest} {lo acme a : Int} (h : WholePages c lo acme)
    (hm : c.Maps a) : lo ≤ a ∧ a < acme := by
  have h1 := hm.1
  have h2 := hm.2.1
  rw [h.first] at h1
  rw [h.acme] at h2
  exact ⟨h1, h2⟩

/-! ## Stacks -/

/-- What `_start` asks for. -/
def stackRequest (span : Nat × Nat) : MapRequest :=
  ⟨asIsize span.1, KRNL_STACK_SIZE, PTE.RW, PTE.RW⟩

theorem stackRequest_pages {ticket base acme : Nat} (h : stackSpan ticket = .ok (base, acme))
    (ht : ticket < 255) :
    WholePages (stackRequest (base, acme)) ((base : Int) - 2 ^ 64) ((acme : Int) - 2 ^ 64) := by
  obtain ⟨hacme, hbase⟩ := stackSpan_ok h
  have hsize : KRNL_STACK_SIZE = 4190208 := by decide
  have hlo : asIsize base = (base : Int) - 2 ^ 64 := by
    unfold asIsize
    rw [Int.bmod_def]
    omega
  unfold stackRequest
  dsimp only
  rw [hlo, hsize, show (acme : Int) - 2 ^ 64 = (base : Int) - 2 ^ 64 + (4190208 : Nat) by omega]
  exact wholePages (by omega) (by omega) (by omega) (by omega) (by omega)

/-- All pages of a stack are mapped but the one 2 MiB below its top. -/
theorem stackRequest_maps {ticket base acme : Nat} (h : stackSpan ticket = .ok (base, acme))
    (ht : ticket < 255) {a : Int} (ha : (PTE_SIZE : Int) ∣ a) (hlo : (base : Int) - 2 ^ 64 ≤ a)
    (hhi : a < (acme : Int) - 2 ^ 64) :
    (stackRequest (base, acme)).Maps a ↔ a % 2 ^ 22 ≠ 2 ^ 21 := by
  obtain ⟨hacme, hbase⟩ := stackSpan_ok h
  rw [(stackRequest_pages h ht).maps_iff (by omega), not_skipped_iff]
  have hpage : (PTE_SIZE : Int) = 4096 := rfl
  rw [hpage] at ha
  constructor
  · intro hm
    omega
  · intro hm
    omega

/-! ## Heaps -/

/-- The request behind a recorded call, with the size rounded up to pages. -/
def MapCall.toRequest (c : MapCall) : MapRequest :=
  ⟨c.request, (c.acme - c.lo).toNat, PTE.RW, PTE.RW⟩

/-- `Mapper::map` rounds the size up itself. -/
theorem MapCall.toRequest_run {γ : Type} {pageGetter : γ → Nat → Except Fault (Nat × γ)}
    {base : Int} {size : Nat} {c : MapCall} (h : mapCall base size = .ok c) (hbase : InIsize base)
    (hsize : size ≤ 2 ^ 30) (hroom : base + size + 4096 ≤ 2 ^ 63) (pml4 : Nat) (s : Machine γ) :
    c.toRequest.run pageGetter pml4 s
      = mapperMap pageGetter base size PTE.RW PTE.RW pml4 s := by
  obtain ⟨hreq, hlo, hacme⟩ := mapCall_ok h hbase hsize hroom
  have h0 : size ≠ 0 := by
    obtain ⟨_, hens, _⟩ := bind_ok h
    unfold ensure at hens
    split at hens
    next hc => exact of_decide_eq_true hc
    next => cases hens
  have hrounded : (c.acme - c.lo).toNat = (size + 4095) / 4096 * 4096 := by
    rw [hlo, hacme]
    omega
  have hpage : PTE_SIZE = 4096 := rfl
  unfold MapRequest.run MapCall.toRequest mapperMap
  dsimp only
  rw [hreq, hrounded, roundUpPage_of (by rw [hpage]; omega), roundUpPage_of (by rw [hpage]; omega),
    hpage, show ((size + 4095) / 4096 * 4096 + 4096 - 1) / 4096 * 4096
      = (size + 4096 - 1) / 4096 * 4096 by omega]
  rw [decide_eq_true (show (size + 4095) / 4096 * 4096 ≠ 0 by omega), decide_eq_true h0]

/-- The calls, the latest first, map an arena from `size` bytes up to `size'`, one behind the
other, in pages of 2 MiB. -/
def Tiles (base : Int) (size : Nat) : List MapCall → Nat → Prop
  | [], size' => size' = size
  | c :: calls, size' => ∃ mid, Tiles base size calls mid ∧ c.request = base + mid ∧
      c.lo = base + mid ∧ c.acme = base + size' ∧ mid < size' ∧ 2 ^ 21 ∣ mid

section Tiles

variable {base : Int} {size size' : Nat} {calls new : List MapCall} {c : MapCall} {a : Int}

theorem Tiles.le (h : Tiles base size calls size') : size ≤ size' := by
  induction calls generalizing size' with
  | nil =>
    obtain rfl : size' = size := h
    exact Nat.le_refl _
  | cons c calls ih =>
    obtain ⟨mid, htiles, _, _, _, hlt, _⟩ := h
    have := ih htiles
    omega

/-- What the calls map is what the arena got. -/
theorem Tiles.mem_iff (h : Tiles base size calls size') :
    (∃ c ∈ calls, c.lo ≤ a ∧ a < c.acme) ↔ base + size ≤ a ∧ a < base + size' := by
  induction calls generalizing size' with
  | nil =>
    obtain rfl : size' = size := h
    refine ⟨fun hc => ?_, fun ha => by omega⟩
    obtain ⟨c, hc, _⟩ := hc
    exact absurd hc List.not_mem_nil
  | cons c calls ih =>
    obtain ⟨mid, htiles, _, hlo, hacme, hlt, _⟩ := h
    have hle := htiles.le
    simp only [List.mem_cons, exists_eq_or_imp]
    rw [ih htiles, hlo, hacme]
    omega

/-- A heap below -1 GiB, in the last 512 GiB. -/
structure HeapSite (base : Int) (size : Nat) : Prop where
  aligned : (2 ^ 30 : Int) ∣ base
  low : -2 ^ 39 ≤ base
  high : base ≤ -2 ^ 31
  pages : 2 ^ 21 ∣ size
  limit : size ≤ 0x3f800000

theorem Tiles.last (h : Tiles base size (c :: calls) size') (hs : HeapSite base size') :
    WholePages c.toRequest c.lo c.acme ∧
      ∀ a, (PTE_SIZE : Int) ∣ a → (c.toRequest.Maps a ↔ c.lo ≤ a ∧ a < c.acme) := by
  obtain ⟨mid, _, hreq, hlo, hacme, hlt, hmid⟩ := h
  obtain ⟨hal, hlow, hhigh, hpages, hlimit⟩ := hs
  have hlen : (c.acme - c.lo).toNat = size' - mid := by
    rw [hlo, hacme]
    omega
  have hwhole : WholePages c.toRequest c.lo c.acme := by
    unfold MapCall.toRequest
    rw [hreq, hlen, hlo, hacme,
      show base + (size' : Int) = base + mid + (size' - mid : Nat) by omega]
    exact wholePages (by omega) (by omega) (by omega) (by omega) (by omega)
  refine ⟨hwhole, fun a ha => ?_⟩
  rw [hwhole.maps_iff (by omega), not_skipped_iff, hlo, hacme]
  have hpage : (PTE_SIZE : Int) = 4096 := rfl
  rw [hpage] at ha
  constructor
  · intro hm
    exact ⟨hm.1, hm.2.1⟩
  · intro hm
    omega

/-- Every page of a heap that is asked for is mapped. -/
theorem Tiles.toRequest_maps (h : Tiles base size calls size') (hs : HeapSite base size') :
    ∀ c ∈ calls, WholePages c.toRequest c.lo c.acme ∧
      ∀ a, (PTE_SIZE : Int) ∣ a → (c.toRequest.Maps a ↔ c.lo ≤ a ∧ a < c.acme) := by
  induction calls generalizing size' with
  | nil => exact fun c hc => absurd hc List.not_mem_nil
  | cons d calls ih =>
    intro c hc
    obtain rfl | hc := List.mem_cons.mp hc
    · exact h.last hs
    · obtain ⟨mid, htiles, _, _, _, hlt, hmid⟩ := h
      have hlimit := hs.limit
      exact ih htiles ⟨hs.aligned, hs.low, hs.high, hmid, by omega⟩ c hc

/-- No two calls meet. -/
theorem Tiles.apart (h : Tiles base size calls size') :
    calls.Pairwise fun c d => ∀ a, c.lo ≤ a ∧ a < c.acme → ¬ (d.lo ≤ a ∧ a < d.acme) := by
  induction calls generalizing size' with
  | nil => exact List.Pairwise.nil
  | cons c calls ih =>
    obtain ⟨mid, htiles, _, hlo, _⟩ := h
    refine List.Pairwise.cons (fun d hd a hc ha => ?_) (ih htiles)
    have hbelow := htiles.mem_iff.mp ⟨d, hd, ha⟩
    omega

end Tiles

section Calls

variable {calls calls' : List MapCall} {t t' : Talloc FreeLists}

/-- `a` is the arena of `size` bytes at `base` with what the calls since `calls` added. -/
def Grown (base : Int) (size : Nat) (calls calls' : List MapCall) (a : Arena) : Prop :=
  a.arenaBase = base ∧ HeapSite base a.arenaSize ∧
    ∃ new, calls' = new ++ calls ∧ Tiles base size new a.arenaSize

theorem Grown.keeps (base : Int) (size : Nat) (calls : List MapCall) :
    Talloc.HandlerKeeps (oomHandler Cfg.default recordMap) (Grown base size calls) := by
  intro calls₁ calls₂ t₁ t₂ layout ok hoom hI
  obtain ⟨rfl, rfl⟩ | ⟨lgr, c, hgrown, hc, rfl, harena⟩ := oomHandler_cases hoom
  · exact hI
  obtain ⟨hbase, ⟨hal, hlow, hhigh, hpages, hlimit⟩, new, hnew, htiles⟩ := hI
  obtain ⟨limit, hl, hmin, hlt⟩ := lgrSize_some hgrown
  rw [default_limit] at hl
  cases hl
  rw [harena]
  rw [hbase] at hc
  obtain ⟨hreq, hlo, hacme⟩ := mapCall_ok hc ⟨by omega, by omega⟩ (by omega) (by omega)
  refine ⟨hbase, ⟨hal, hlow, hhigh, ?_, ?_⟩, c :: new, ?_, t₁.arenaSize, htiles, hreq, ?_, ?_, hlt,
    hpages⟩
  · show 2 ^ 21 ∣ lgr
    omega
  · show lgr ≤ 0x3f800000
    omega
  · rw [hnew]
    rfl
  · rw [hlo]
    omega
  · show c.acme = base + lgr
    rw [hacme]
    omega

/-- Whatever a heap does, it asks for the memory behind its arena and for no other. -/
theorem HeapStep.grown (h : HeapStep Cfg.default calls t calls' t')
    (hs : HeapSite t.arenaBase t.arenaSize) :
    Grown t.arenaBase t.arenaSize calls calls' t'.toArena :=
  h.keeps (Grown.keeps t.arenaBase t.arenaSize calls) ⟨rfl, hs, [], rfl, rfl⟩

/-- The first call of a heap. -/
theorem allocatorSetup_tiles {ticket : Nat} (ht : ticket < 256)
    (h : allocatorSetup Cfg.default recordMap [] ticket = .ok (calls, t)) :
    HeapSite t.arenaBase t.arenaSize ∧ Tiles t.arenaBase 0 calls t.arenaSize := by
  obtain ⟨base, hbase, h⟩ := bind_ok h
  obtain ⟨m, hmap, h⟩ := bind_ok h
  obtain ⟨t₁, hnew, h⟩ := bind_ok h
  obtain ⟨c, hc, hcalls⟩ := bind_ok hmap
  cases hcalls
  cases h
  rw [Talloc.extend_arena hnew]
  dsimp only
  have hval := heapBase_ok hbase (by omega)
  have hinit : Cfg.default.heapInitSize = 16777216 := rfl
  rw [hinit] at hc ⊢
  obtain ⟨hreq, hlo, hacme⟩ := mapCall_ok hc ⟨by omega, by omega⟩ (by omega) (by omega)
  refine ⟨⟨⟨-(2 + ticket), by rw [hval]; ring⟩, by omega, by omega, by omega, by omega⟩, 0, rfl, ?_,
    ?_, ?_, by omega, by omega⟩
  · rw [hreq]
    omega
  · rw [hlo]
    omega
  · rw [hacme]
    omega

theorem HeapRun.site {ticket : Nat} (ht : ticket < 256)
    (h : HeapRun Cfg.default ticket calls t) : HeapSite t.arenaBase t.arenaSize := by
  induction h with
  | setup hsetup => exact (allocatorSetup_tiles ht hsetup).1
  | @step calls calls' t t' _ hstep ih =>
    obtain ⟨hbase, hsite, _⟩ := hstep.grown ih
    rw [hbase]
    exact hsite

end Calls

end Tauos.Init
