import Tauos.Init.Boot

/-!
# What holds while the CPUs start

Until the CPU with ticket 0 has stored `IS_MAPPER_INITD_PML4` nobody else is further than the wait
(`Early`). From then on the tables are what the calls of `Mapper::map` so far made of those that
`setup` left (`Late`): a request finds its pages unmapped, since they are of one CPU only, so that
no huge page is in its way.

> `boot_exclusive`: with any number of CPUs, in whichever order they run, one at a time is in
> `Mapper::setup` or has the lock, and none has loaded CR3 before `setup` has returned.
> `boot_isolates`: with two CPUs, every page of the stacks and heaps that `MAPPER` has served is in
> a frame of its own, but for one page of each stack, which is not mapped.
-/

namespace Tauos.Init

open Tauos.Rust Tauos.Amd64 Tauos.Mapper Tauos.Memm

variable {n : Nat} {c c' : Cpu} {a : Int} {q : List MapRequest} {r : MapRequest}

/-! ## Requests and the pages they are for -/

/-- The CPU has no pages yet. -/
def Cpu.Bare (c : Cpu) : Prop := c = .off ∨ ∃ ticket, c = .start ticket

/-- The page belongs to the CPU. -/
def Cpu.Has (c : Cpu) (a : Int) : Prop := c.InStack a ∨ c.InHeap a

theorem Cpu.Backed.has (h : c.Backed a) : c.Has a := h.imp_left And.left

/-- The requests are for pages of the CPU, for no page twice, and map those that can be mapped. -/
structure Asked (c : Cpu) (q : List MapRequest) : Prop where
  allowed : ∀ r ∈ q, r.Allowed
  has : ∀ r ∈ q, ∀ a, r.first ≤ a → a < r.acme → c.Has a ∧ a < -2 ^ 30
  maps : ∀ r ∈ q, ∀ a, (PTE_SIZE : Int) ∣ a → r.first ≤ a → a < r.acme → (r.Maps a ↔ c.Backed a)
  apart : q.Pairwise fun r r' => ∀ a, r.Maps a → ¬ r'.Maps a

theorem Asked.nil (c : Cpu) : Asked c [] := by
  refine ⟨?_, ?_, ?_, List.Pairwise.nil⟩ <;> exact fun _ hr => absurd hr List.not_mem_nil

theorem Asked.tail (h : Asked c (r :: q)) : Asked c q :=
  ⟨fun r' hr => h.allowed r' (List.mem_cons_of_mem _ hr),
    fun r' hr => h.has r' (List.mem_cons_of_mem _ hr),
    fun r' hr => h.maps r' (List.mem_cons_of_mem _ hr), h.apart.of_cons⟩

/-- The page is of the CPU, and the request for it is served. -/
def Served (c : Cpu) (q : List MapRequest) (a : Int) : Prop := c.Backed a ∧ ∀ r ∈ q, ¬ r.Maps a

theorem served_nil : Served c [] a ↔ c.Backed a :=
  and_iff_left fun _ hr => absurd hr List.not_mem_nil

section Stack

variable {ticket : Nat} {span : Nat × Nat}

theorem inStack_iff (h : c.span = some span) (hspan : stackSpan ticket = .ok span)
    (ht : ticket < 255) (hout : Outside a) :
    c.InStack a ↔ (span.1 : Int) - 2 ^ 64 ≤ a ∧ a < (span.2 : Int) - 2 ^ 64 := by
  obtain ⟨hacme, hbase⟩ := stackSpan_ok hspan
  have hOff : PHYS_LADDR_OFFSET = -2 ^ 47 := by decide
  obtain ⟨hlo, hhi⟩ := hout
  have hstack : c.InStack a ↔ span.1 ≤ asUsize a ∧ asUsize a < span.2 := by
    refine ⟨fun ⟨base, acme, hs, h1, h2⟩ => ?_, fun hs => ⟨span.1, span.2, h, hs.1, hs.2⟩⟩
    rw [h] at hs
    cases hs
    exact ⟨h1, h2⟩
  rw [hstack]
  unfold asUsize
  omega

/-- The stack is asked for. -/
theorem stackRequest_asked (hspan : stackSpan ticket = .ok span) (ht : ticket < 255) :
    Asked (.stack ticket span) [stackRequest span] := by
  have hwhole := stackRequest_pages hspan ht
  obtain ⟨hacme, hbase⟩ := stackSpan_ok hspan
  have hin : ∀ a, (stackRequest span).first ≤ a → a < (stackRequest span).acme →
      (span.1 : Int) - 2 ^ 64 ≤ a ∧ a < (span.2 : Int) - 2 ^ 64 ∧ Outside a := by
    intro a h1 h2
    rw [hwhole.first] at h1
    rw [hwhole.acme] at h2
    have hOff : PHYS_LADDR_OFFSET = -2 ^ 47 := by decide
    exact ⟨h1, h2, by omega, by omega⟩
  have hstack : ∀ a, (stackRequest span).first ≤ a → a < (stackRequest span).acme →
      (Cpu.stack ticket span).InStack a := by
    intro a h1 h2
    obtain ⟨hlo, hhi, hout⟩ := hin a h1 h2
    exact (inStack_iff rfl hspan ht hout).mpr ⟨hlo, hhi⟩
  refine ⟨?_, ?_, ?_, List.pairwise_singleton _ _⟩ <;> intro r hr <;>
    obtain rfl := List.mem_singleton.mp hr
  · exact hwhole.allowed
  · intro a h1 h2
    obtain ⟨_, hhi, _⟩ := hin a h1 h2
    exact ⟨.inl (hstack a h1 h2), by omega⟩
  · intro a ha h1 h2
    obtain ⟨hlo, hhi, _⟩ := hin a h1 h2
    rw [stackRequest_maps hspan ht ha hlo hhi]
    refine ⟨fun hhole => .inl ⟨hstack a h1 h2, hhole⟩, fun hb => ?_⟩
    obtain ⟨_, hhole⟩ | ⟨arena, harena, _⟩ := hb
    · exact hhole
    · cases harena

end Stack

section Heap

variable {ticket initTicket size : Nat} {span : Nat × Nat} {calls new : List MapCall}
  {t : Talloc FreeLists}

theorem mem_requests : r ∈ requests new ↔ ∃ c ∈ new, c.toRequest = r := by
  unfold requests
  rw [List.mem_reverse, List.mem_map]

theorem inHeap_iff {arena : Arena} (h : c.arena = some arena) :
    c.InHeap a ↔ arena.arenaBase ≤ a ∧ a < arena.arenaBase + arena.arenaSize := by
  refine ⟨fun ⟨arena', harena, h1, h2⟩ => ?_, fun ha => ⟨arena, h, ha.1, ha.2⟩⟩
  rw [h] at harena
  cases harena
  exact ⟨h1, h2⟩

/-- What the calls mapped is asked for. -/
theorem Tiles.asked (h : Tiles t.arenaBase size new t.arenaSize)
    (hs : HeapSite t.arenaBase t.arenaSize) (ticket initTicket : Nat) (span : Nat × Nat)
    (calls : List MapCall) :
    Asked (.heap ticket span initTicket calls t) (requests new) := by
  have hcall := h.toRequest_maps hs
  have hheap : ∀ d ∈ new, ∀ a, d.toRequest.first ≤ a → a < d.toRequest.acme →
      (Cpu.heap ticket span initTicket calls t).InHeap a := by
    intro d hd a h1 h2
    rw [(hcall d hd).1.first] at h1
    rw [(hcall d hd).1.acme] at h2
    have hin := h.mem_iff.mp ⟨d, hd, h1, h2⟩
    exact (inHeap_iff rfl).mpr ⟨by omega, hin.2⟩
  refine ⟨?_, ?_, ?_, ?_⟩
  · intro r hr
    obtain ⟨d, hd, rfl⟩ := mem_requests.mp hr
    exact (hcall d hd).1.allowed
  · intro r hr a h1 h2
    obtain ⟨d, hd, rfl⟩ := mem_requests.mp hr
    have hheap := hheap d hd a h1 h2
    have hin := (inHeap_iff rfl).mp hheap
    have hhigh := hs.high
    have hlimit := hs.limit
    exact ⟨.inr hheap, by omega⟩
  · intro r hr a ha h1 h2
    obtain ⟨d, hd, rfl⟩ := mem_requests.mp hr
    rw [(hcall d hd).2 a ha]
    refine ⟨fun _ => .inr (hheap d hd a h1 h2), fun _ => ?_⟩
    rw [(hcall d hd).1.first] at h1
    rw [(hcall d hd).1.acme] at h2
    exact ⟨h1, h2⟩
  · unfold requests
    rw [List.pairwise_reverse, List.pairwise_map]
    refine h.apart.imp_of_mem fun {d e} hd he hapart a hm hm' => hapart a ?_ ?_
    · exact (hcall d hd).1.maps_span hm'
    · exact (hcall e he).1.maps_span hm

/-- What is served of a heap while its last calls are not. -/
theorem Tiles.served (h : Tiles t.arenaBase size new t.arenaSize)
    (hs : HeapSite t.arenaBase t.arenaSize)
    (hapart : ∀ x, (Cpu.heap ticket span initTicket calls t).InStack x →
      ¬ (Cpu.heap ticket span initTicket calls t).InHeap x) (ha : (PTE_SIZE : Int) ∣ a) :
    Served (.heap ticket span initTicket calls t) (requests new) a ↔
      (Cpu.heap ticket span initTicket calls t).InStack a ∧ a % 2 ^ 22 ≠ 2 ^ 21 ∨
        t.arenaBase ≤ a ∧ a < t.arenaBase + size := by
  have hle := h.le
  -- the requests that are not served yet are for the new part
  have hnew : (∃ r ∈ requests new, r.Maps a) ↔
      t.arenaBase + size ≤ a ∧ a < t.arenaBase + t.arenaSize := by
    rw [← h.mem_iff]
    constructor
    · intro hr
      obtain ⟨r, hr, hm⟩ := hr
      obtain ⟨d, hd, rfl⟩ := mem_requests.mp hr
      exact ⟨d, hd, ((h.toRequest_maps hs d hd).2 a ha).mp hm⟩
    · intro hd
      obtain ⟨d, hd, hin⟩ := hd
      exact ⟨_, mem_requests.mpr ⟨d, hd, rfl⟩, ((h.toRequest_maps hs d hd).2 a ha).mpr hin⟩
  have hheap : (Cpu.heap ticket span initTicket calls t).InHeap a ↔
      t.arenaBase ≤ a ∧ a < t.arenaBase + t.arenaSize := inHeap_iff rfl
  constructor
  · intro hserved
    obtain ⟨hb, hno⟩ := hserved
    refine hb.imp_right fun hin => ?_
    have hold : ¬ (t.arenaBase + size ≤ a ∧ a < t.arenaBase + t.arenaSize) := by
      intro hin'
      obtain ⟨r, hr, hm⟩ := hnew.mpr hin'
      exact hno r hr hm
    have := hheap.mp hin
    omega
  · intro hb
    refine ⟨hb.imp_right fun hin => hheap.mpr ⟨hin.1, by omega⟩, fun r hr hm => ?_⟩
    have hin' := hnew.mp ⟨r, hr, hm⟩
    obtain ⟨hstack, _⟩ | hin := hb
    · exact hapart a hstack (hheap.mpr ⟨by omega, hin'.2⟩)
    · omega

end Heap

/-! ## The invariant -/

/-- A CPU behind the wait has CR3 loaded before it has a stack. -/
def Settled (root : Nat) (p : Phase) (cr3 : Nat) (c : Cpu) : Prop :=
  match p with
  | .wait => c.Bare
  | .tables _ _ | .setup _ => False
  | .ready => ∃ ticket, c = .start ticket
  | .on _ | .locked _ _ => cr3 = root ∧ c ≠ .off

/-- The calls so far mapped what is served. -/
def Recorded (b : Boot n) (cs : List MapRequest) : Prop :=
  ∀ a, (PTE_SIZE : Int) ∣ a → Outside a →
    ((∃ c ∈ cs, c.Maps a) ↔ ∃ i, Served (b.system.cpu i) (b.phase i).queue a)

section Invariant

variable {tracked : Prop} {mmap : List MemRegion} {lgst : MemRegion} {oldPml4 : Nat} {mem : Frames}
  {root : Nat} {s₀ : Machine (Talloc FreeLists)} {b b' : Boot n} {i : Fin n}

variable (oldPml4 root s₀) in
/-- A CPU before the end of `setup`: the one with ticket 0 may be in it. -/
def Begins (s : Machine (Talloc FreeLists)) (p : Phase) (cr3 : Nat) (c : Cpu) : Prop :=
  match p with
  | .wait => cr3 = oldPml4
  | .tables pml4 talloc => c = .start 0 ∧ pml4 = root ∧ s₀ = ⟨s.mem, talloc, s.trace⟩
  | .setup pml4 => c = .start 0 ∧ pml4 = root ∧ s₀ = s
  | .ready | .on _ | .locked _ _ => False

variable (oldPml4 mem root s₀) in
/-- Before the end of `setup`. -/
structure Early (b : Boot n) : Prop where
  pml4 : b.pml4 = UNSET
  lock : b.lock = none
  trace : b.machine.trace = s₀.trace
  bare : ∀ i, (b.system.cpu i).Bare
  untouched : (∀ i, b.phase i = .wait) → b.machine.mem = mem
  begins : ∀ i, Begins oldPml4 root s₀ b.machine (b.phase i) (b.cr3 i) (b.system.cpu i)

variable (tracked root s₀) in
/-- After it. What the requests and the tables are is only tracked for two CPUs, as those of more
may be for the same pages, and for a memory map that `setup` returns for. -/
structure Late (b : Boot n) : Prop where
  pml4 : b.pml4 = root
  initd : b.system.mapperInitd = true
  guard : Guarded b.lock (Phase.Locked ∘ b.phase)
  leader : ∃ i, (b.system.cpu i).startTicket = some 0 ∧ (b.phase i).Past
  settled : ∀ i, Settled root (b.phase i) (b.cr3 i) (b.system.cpu i)
  asked : tracked → ∀ i, Asked (b.system.cpu i) (b.phase i).queue
  run : tracked → ∃ cs, MapRun allocPhys root s₀ cs b.machine ∧ Recorded b cs

/-- A step of CPU `i`, for what is said of each CPU. -/
theorem forall_cpus {Q : Phase → Nat → Cpu → Prop} (b : Boot n) {i : Fin n} {p : Phase} {k : Nat}
    {c : Cpu} (hi : Q p k c)
    (hother : ∀ j, j ≠ i → Q (b.phase j) (b.cr3 j) (b.system.cpu j)) (j : Fin n) :
    Q (Function.update b.phase i p j) (Function.update b.cr3 i k j)
      (Function.update b.system.cpu i c j) := by
  by_cases hji : j = i
  · subst hji
    rw [Function.update_self, Function.update_self, Function.update_self]
    exact hi
  · rw [Function.update_of_ne hji, Function.update_of_ne hji, Function.update_of_ne hji]
    exact hother j hji

/-- At first, all CPUs are off. -/
theorem early_init (htrace : s₀.trace = []) : Early oldPml4 mem root s₀ (Boot.init n oldPml4 mem) :=
  ⟨rfl, rfl, htrace.symm, fun _ => .inl rfl, fun _ => rfl, fun _ => rfl⟩

/-- Ticket 0 is drawn once. -/
theorem leader_unique (h : b.system.Inv) {i j : Fin n} (hi : b.system.cpu i = .start 0)
    (hj : (b.system.cpu j).startTicket = some 0) : i = j := by
  refine h.starts.inj (k := 0) ?_ hj
  rw [Function.comp_apply, hi]
  rfl

theorem not_start_zero (h : b.system.Inv) (hlate : Late tracked root s₀ b)
    (hi : b.system.cpu i = .start 0) : (b.phase i).Past := by
  obtain ⟨j, hj, hpast⟩ := hlate.leader
  rwa [leader_unique h hi hj]

/-- A step of the machine is a step of `System`, or none. -/
theorem boot_step_system (hb : Early oldPml4 mem root s₀ b ∨ Late tracked root s₀ b)
    (hstep : b.Step mmap b') : b'.system = b.system ∨ b.system.Step b'.system := by
  have hinitd : ∀ {i q}, b.phase i = .on q → b.system.mapperInitd = true := by
    intro i q hi
    obtain hearly | hlate := hb
    · have hbegins := hearly.begins i
      rw [hi] at hbegins
      exact hbegins.elim
    · exact hlate.initd
  cases hstep with
  | start hi => exact .inr (System.Step.start hi)
  | tables _ _ _ => exact .inl rfl
  | setup _ _ => exact .inl rfl
  | @store i _ hi =>
    refine .inr (System.Step.mapper (i := i) ?_)
    obtain hearly | hlate := hb
    · have hbegins := hearly.begins i
      rw [hi] at hbegins
      exact hbegins.1
    · have hsettled := hlate.settled i
      rw [hi] at hsettled
      exact hsettled.elim
  | pass _ _ _ _ => exact .inl rfl
  | activate _ => exact .inl rfl
  | stack hi hp hspan => exact .inr (System.Step.stack hi (hinitd hp) hspan)
  | init hi _ => exact .inr (System.Step.init hi)
  | heapSetup hi _ hsetup => exact .inr (System.Step.setup hi hsetup)
  | heap hi _ hheap => exact .inr (System.Step.heap hi hheap)
  | lock _ _ => exact .inl rfl
  | map _ _ => exact .inl rfl

theorem Begins.cases {s : Machine (Talloc FreeLists)} {p : Phase} {cr3 : Nat}
    (h : Begins oldPml4 root s₀ s p cr3 c) : ¬ p.Past ∧ (p = .wait ∨ c = .start 0) := by
  cases p with
  | wait => exact ⟨fun hp => hp, .inl rfl⟩
  | tables _ _ => exact ⟨fun hp => hp, .inr h.1⟩
  | setup _ => exact ⟨fun hp => hp, .inr h.1⟩
  | ready => exact h.elim
  | on _ => exact h.elim
  | locked _ _ => exact h.elim

/-- The others wait while a CPU is in `setup`. -/
theorem Early.others (h : Early oldPml4 mem root s₀ b) (hinv : b.system.Inv)
    (hi : b.system.cpu i = .start 0) {j : Fin n} (hji : j ≠ i) : b.phase j = .wait := by
  refine (h.begins j).cases.2.resolve_right fun hj => ?_
  exact hji (leader_unique hinv hi (by rw [hj]; rfl)).symm

theorem Cpu.Bare.not_has (h : c.Bare) (a : Int) : ¬ c.Has a := by
  intro hb
  obtain ⟨_, _, hspan, _⟩ | ⟨_, harena, _⟩ := hb
  · obtain rfl | ⟨_, rfl⟩ := h
    · cases hspan
    · cases hspan
  · obtain rfl | ⟨_, rfl⟩ := h
    · cases harena
    · cases harena

theorem Cpu.Bare.not_served (h : c.Bare) (q : List MapRequest) (a : Int) : ¬ Served c q a :=
  fun hs => h.not_has a hs.1.has

theorem Early.start (h : Early oldPml4 mem root s₀ b) (hi : b.system.cpu i = .off) (ticket : Nat)
    {system : System n} (hcpu : system.cpu = Function.update b.system.cpu i (.start ticket)) :
    Early oldPml4 mem root s₀ { b with system := system } := by
  have hwait : b.phase i = .wait := by
    refine (h.begins i).cases.2.resolve_right fun hz => ?_
    rw [hi] at hz
    cases hz
  have hcr3 := h.begins i
  rw [hwait] at hcr3
  refine ⟨h.pml4, h.lock, h.trace, ?_, h.untouched, ?_⟩
  · show ∀ j, (system.cpu j).Bare
    rw [hcpu]
    exact (Function.forall_update_iff b.system.cpu fun _ c => c.Bare).mpr
      ⟨.inr ⟨_, rfl⟩, fun j _ => h.bare j⟩
  · have hall := forall_cpus (Q := Begins oldPml4 root s₀ b.machine) b (p := .wait) (i := i)
      (c := .start ticket) hcr3 fun j _ => h.begins j
    rw [← hwait, Function.update_eq_self, Function.update_eq_self, ← hcpu] at hall
    exact hall

/-- CPU `i` goes on in `setup`. -/
theorem Early.goto (h : Early oldPml4 mem root s₀ b) (hinv : b.system.Inv)
    (hi : b.system.cpu i = .start 0) {s : Machine (Talloc FreeLists)} {p : Phase} {k : Nat}
    (htrace : s.trace = b.machine.trace) (hp : p ≠ .wait)
    (hbegins : Begins oldPml4 root s₀ s p k (.start 0)) :
    Early oldPml4 mem root s₀
      { b.goto i p with machine := s, cr3 := Function.update b.cr3 i k } := by
  refine ⟨h.pml4, h.lock, htrace.trans h.trace, h.bare, fun hall => absurd (hall i) ?_, ?_⟩
  · simp only [Boot.goto_phase]
    exact hp
  · have hall := forall_cpus (Q := Begins oldPml4 root s₀ s) b hbegins fun j hji => by
      have hj := h.begins j
      rw [h.others hinv hi hji] at hj ⊢
      exact hj
    rw [← hi, Function.update_eq_self] at hall
    exact hall

/-- `setup` returns. -/
theorem Early.store (h : Early oldPml4 mem root s₀ b) (hinv : b.system.Inv)
    (hi : b.system.cpu i = .start 0) (hs : s₀ = b.machine) {system : System n}
    (hcpu : system.cpu = b.system.cpu) (hinitd : system.mapperInitd = true) :
    Late tracked root s₀ { b.goto i .ready with system := system, pml4 := root } := by
  have hcpus := forall_cpus (Q := fun p k c => Settled root p k c ∧ ¬ p.Locked ∧ p.queue = []) b
    (i := i) (p := .ready) (k := b.cr3 i) (c := .start 0) ⟨⟨0, rfl⟩, fun hl => hl, rfl⟩
    fun j hji => by
      rw [h.others hinv hi hji]
      exact ⟨h.bare j, fun hl => hl, rfl⟩
  rw [← hi, Function.update_eq_self, Function.update_eq_self, ← hcpu] at hcpus
  have hbare : ∀ j, (system.cpu j).Bare := fun j => hcpu ▸ h.bare j
  refine ⟨rfl, hinitd, ?_, ⟨i, ?_, ?_⟩, fun j => (hcpus j).1, fun _ j => ?_,
    fun _ => ⟨[], hs ▸ .nil, fun a _ _ => ?_⟩⟩
  · show Guarded b.lock _
    rw [h.lock]
    exact guarded_none fun j => (hcpus j).2.1
  · show (system.cpu i).startTicket = some 0
    rw [hcpu, hi]
    rfl
  · simp only [Boot.goto_phase]
    trivial
  · show Asked (system.cpu j) (Function.update b.phase i .ready j).queue
    rw [(hcpus j).2.2]
    exact Asked.nil _
  · refine ⟨fun hc => ?_, fun hserved => ?_⟩
    · obtain ⟨c, hc, _⟩ := hc
      exact absurd hc List.not_mem_nil
    · obtain ⟨j, hj⟩ := hserved
      exact absurd hj ((hbare j).not_served _ a)

theorem Early.step (h : Early oldPml4 mem root s₀ b) (hinv : b.system.Inv)
    (hsetup : setupMapper mmap oldPml4 mem = .ok (root, s₀)) (hstep : b.Step mmap b') :
    Early oldPml4 mem root s₀ b' ∨ Late tracked root s₀ b' := by
  have hpast : ∀ {i}, (b.phase i).Past → Early oldPml4 mem root s₀ b' ∨ Late tracked root s₀ b' :=
    fun {i} hp => absurd hp (h.begins i).cases.1
  cases hstep with
  | @start i hi => exact .inl (h.start hi _ rfl)
  -- nobody else has touched memory, so `setup` makes what it makes at the start
  | @tables i pml4 s hi hp hrun =>
    have hcr3 := h.begins i
    rw [hp] at hcr3
    have hmem := h.untouched fun j => by
      by_cases hji : j = i
      · rw [hji, hp]
      · exact h.others hinv hi hji
    rw [show b.cr3 i = oldPml4 from hcr3, hmem, hsetup] at hrun
    cases hrun
    exact .inl (h.goto hinv hi rfl nofun ⟨rfl, rfl, by rw [h.trace]⟩)
  | @setup i pml4 talloc hi hlock =>
    have hbegins := h.begins i
    rw [hi] at hbegins
    obtain ⟨hzero, rfl, hs⟩ := hbegins
    have hb := h.goto (k := b.cr3 i) (p := .setup pml4)
      (s := { b.machine with pages := talloc }) hinv hzero rfl nofun ⟨rfl, rfl, hs⟩
    rw [Function.update_eq_self] at hb
    exact .inl hb
  -- from here on the others may pass
  | @store i pml4 hi =>
    have hbegins := h.begins i
    rw [hi] at hbegins
    obtain ⟨hzero, rfl, hs⟩ := hbegins
    exact .inr (h.store hinv hzero hs rfl rfl)
  | pass _ _ _ hset => exact absurd h.pml4 hset
  | @activate i hi => exact hpast (i := i) (by rw [hi]; trivial)
  | @stack i _ _ _ hi _ => exact hpast (i := i) (by rw [hi]; trivial)
  | @init i _ _ _ hi => exact hpast (i := i) (by rw [hi]; trivial)
  | @heapSetup i _ _ _ _ _ _ hi _ => exact hpast (i := i) (by rw [hi]; trivial)
  | @heap i _ _ _ _ _ _ _ _ hi _ => exact hpast (i := i) (by rw [hi]; trivial)
  | @lock i _ _ hi _ => exact hpast (i := i) (by rw [hi]; trivial)
  | @map i _ _ _ _ hi _ => exact hpast (i := i) (by rw [hi]; trivial)

/-! ## Steps after `setup` -/

section Update

variable {p : Phase} {k : Nat} {cs : List MapRequest}

/-- A step of CPU `i` that calls `Mapper::map` for nothing. -/
theorem Recorded.update (h : Recorded b cs)
    (hcpu : b'.system.cpu = Function.update b.system.cpu i c)
    (hphase : b'.phase = Function.update b.phase i p)
    (hserved : ∀ a, (PTE_SIZE : Int) ∣ a → Outside a →
      (Served c p.queue a ↔ Served (b.system.cpu i) (b.phase i).queue a)) : Recorded b' cs := by
  intro a ha hout
  rw [h a ha hout, hcpu, hphase]
  have hsame : ∀ j, Served (b.system.cpu j) (b.phase j).queue a ↔
      Served (Function.update b.system.cpu i c j) (Function.update b.phase i p j).queue a := by
    intro j
    by_cases hji : j = i
    · subst hji
      rw [Function.update_self, Function.update_self]
      exact (hserved a ha hout).symm
    · rw [Function.update_of_ne hji, Function.update_of_ne hji]
  exact exists_congr hsame

/-- A step of CPU `i`. -/
theorem Late.update (h : Late tracked root s₀ b) (hpml4 : b'.pml4 = b.pml4)
    (hinitd : b'.system.mapperInitd = b.system.mapperInitd)
    (hcpu : b'.system.cpu = Function.update b.system.cpu i c)
    (hphase : b'.phase = Function.update b.phase i p) (hcr3 : b'.cr3 = Function.update b.cr3 i k)
    (hguard : Guarded b'.lock (Phase.Locked ∘ Function.update b.phase i p))
    (hleader : (b.system.cpu i).startTicket = some 0 → c.startTicket = some 0)
    (hpast : (b.phase i).Past → p.Past) (hsettled : Settled root p k c)
    (hasked : tracked → Asked c p.queue)
    (hrun : tracked → ∃ cs, MapRun allocPhys root s₀ cs b'.machine ∧ Recorded b' cs) :
    Late tracked root s₀ b' := by
  refine ⟨hpml4.trans h.pml4, hinitd.trans h.initd, hphase ▸ hguard, ?_, ?_, fun hn => ?_, hrun⟩
  · obtain ⟨j, hj, hjpast⟩ := h.leader
    refine ⟨j, ?_⟩
    rw [hcpu, hphase]
    by_cases hji : j = i
    · subst hji
      rw [Function.update_self, Function.update_self]
      exact ⟨hleader hj, hpast hjpast⟩
    · rw [Function.update_of_ne hji, Function.update_of_ne hji]
      exact ⟨hj, hjpast⟩
  · rw [hcpu, hphase, hcr3]
    exact forall_cpus b hsettled fun j _ => h.settled j
  · rw [hcpu, hphase]
    exact forall_cpus (Q := fun p _ c => Asked c p.queue) b (k := k) (hasked hn)
      fun j _ => h.asked hn j

end Update

section Tables

variable {cs : List MapRequest} {s : Machine (Talloc FreeLists)}

/-- Below -1 GiB nothing is mapped but by a call. -/
theorem not_mapped (h : BootMemory mmap lgst oldPml4 mem)
    (hsetup : setupMapper mmap oldPml4 mem = .ok (root, s₀)) (hrun : MapRun allocPhys root s₀ cs s)
    (ha : (PTE_SIZE : Int) ∣ a) (hout : Outside a) (hlow : a < -2 ^ 30)
    (hno : ∀ c ∈ cs, ¬ c.Maps a) : walk s.mem 4 root a = none := by
  obtain ⟨K, m, mem', hok, hsound, hcanon⟩ := h.setup
  rw [hsetup] at hok
  cases hok
  obtain ⟨s, rfl, hpages⟩ := MapRun.of_mapPages PhysMem.commutes hrun
  obtain ⟨_, _, hkept⟩ := mapRun_isolates PhysMem.supply hsound hpages
  have hnone := hcanon a hout.low hout.2
  have hgigs := hout.1
  rw [if_neg (by omega), if_neg (by omega)] at hnone
  rw [show (s.mapPages PhysMem.late).mem = s.mem from rfl, hkept a ha hout.low hout.2 hno]
  exact Option.map_eq_none_iff.mp hnone

end Tables

theorem Cpu.Has.not_has (hd : b.system.Disjoint) {i j : Fin n} (hij : i ≠ j)
    (hi : (b.system.cpu i).Has a) : ¬ (b.system.cpu j).Has a := by
  intro hj
  obtain hi | hi := hi <;> obtain hj | hj := hj
  · exact hd.stack hij hi hj
  · exact hd.apart hi hj
  · exact hd.apart hj hi
  · exact hd.heap hij hi hj

/-- The call for the first request of CPU `i` serves it. -/
theorem Recorded.serve {cs : List MapRequest} (h : Recorded b cs) (hi : b.phase i = .locked r q)
    (hasked : Asked (b.system.cpu i) (r :: q)) (hcpu : b'.system.cpu = b.system.cpu)
    (hphase : b'.phase = Function.update b.phase i (.on q)) : Recorded b' (cs ++ [r]) := by
  intro a ha hout
  have hcases : (∃ c ∈ cs ++ [r], c.Maps a) ↔ (∃ c ∈ cs, c.Maps a) ∨ r.Maps a := by
    simp only [List.mem_append, List.mem_singleton, or_and_right, exists_or, exists_eq_left]
  rw [hcases, h a ha hout, hcpu, hphase]
  constructor
  · intro hmaps
    obtain ⟨j, hj⟩ | hm := hmaps
    · refine ⟨j, ?_⟩
      by_cases hji : j = i
      · subst hji
        rw [hi] at hj
        rw [Function.update_self]
        exact ⟨hj.1, fun r' hr' => hj.2 r' (List.mem_cons_of_mem _ hr')⟩
      · rwa [Function.update_of_ne hji]
    · refine ⟨i, (hasked.maps r (List.mem_cons_self ..) a ha hm.1 hm.2.1).mp hm, fun r' hr' => ?_⟩
      rw [Function.update_self] at hr'
      exact (List.pairwise_cons.mp hasked.apart).1 r' hr' a hm
  · intro hserved
    obtain ⟨j, hj⟩ := hserved
    by_cases hji : j = i
    · subst hji
      rw [Function.update_self] at hj
      by_cases hm : r.Maps a
      · exact .inr hm
      · refine .inl ⟨j, hj.1, fun r' hr' => ?_⟩
        rw [hi] at hr'
        obtain rfl | hr' := List.mem_cons.mp hr'
        · exact hm
        · exact hj.2 r' hr'
    · rw [Function.update_of_ne hji] at hj
      exact .inl ⟨j, hj⟩

/-- The pages of a request are not mapped before it is served. -/
theorem Recorded.open {cs : List MapRequest} (h : Recorded b cs) (hd : b.system.Disjoint)
    (hmem : BootMemory mmap lgst oldPml4 mem)
    (hsetup : setupMapper mmap oldPml4 mem = .ok (root, s₀))
    (hrun : MapRun allocPhys root s₀ cs b.machine)
    (hi : (b.phase i).queue = q) (hasked : Asked (b.system.cpu i) q) (hr : r ∈ q) :
    Open r.acme b.machine.mem 4 root r.first := by
  have hallowed := hasked.allowed r hr
  refine open_of_unmapped hallowed.first_dvd fun a ha h1 h2 => ?_
  obtain ⟨hhas, hlow⟩ := hasked.has r hr a h1 h2
  have hout : Outside a := by
    have h3 := hallowed.low
    have h4 := hallowed.high
    exact ⟨by omega, by omega⟩
  refine not_mapped hmem hsetup hrun ha hout hlow fun c hc hm => ?_
  obtain ⟨j, hserved⟩ := (h a ha hout).mp ⟨c, hc, hm⟩
  by_cases hji : j = i
  · subst hji
    rw [hi] at hserved
    exact hserved.2 r hr ((hasked.maps r hr a ha h1 h2).mpr hserved.1)
  · exact hhas.not_has hd (Ne.symm hji) hserved.1.has

/-- `Mapper::map` for the first request of CPU `i`. -/
theorem Late.map (h : Late tracked root s₀ b) (hd : tracked → b.system.Disjoint)
    (hmem : tracked → BootMemory mmap lgst oldPml4 mem)
    (hsetup : setupMapper mmap oldPml4 mem = .ok (root, s₀)) {m : Mapping}
    {s : Machine (Talloc FreeLists)} (hi : b.phase i = .locked r q)
    (hcall : r.run allocPhys (b.cr3 i) b.machine = .ok (m, s)) :
    Late tracked root s₀ { b.goto i (.on q) with machine := s, lock := none } := by
  have hsettled := h.settled i
  rw [hi] at hsettled
  have hcr3 : b.cr3 i = root := hsettled.1
  rw [hcr3] at hcall
  have hasked : tracked → Asked (b.system.cpu i) (r :: q) := by
    intro hn
    have hasked := h.asked hn i
    rwa [hi] at hasked
  refine h.update (b := b) (i := i) (c := b.system.cpu i) (p := .on q) (k := b.cr3 i) rfl rfl
    (Function.update_eq_self ..).symm rfl (Function.update_eq_self ..).symm ?_ (fun hz => hz)
    (fun _ => trivial) hsettled (fun hn => (hasked hn).tail) fun hn => ?_
  · refine h.guard.release ?_ fun hl => hl
    rw [hi]
    trivial
  · obtain ⟨cs, hrun, hrec⟩ := h.run hn
    have hq : (b.phase i).queue = r :: q := by rw [hi]; rfl
    have hopen := hrec.open (hd hn) (hmem hn) hsetup hrun hq (hasked hn) (List.mem_cons_self ..)
    exact ⟨cs ++ [r], hrun.snoc ((hasked hn).allowed r (List.mem_cons_self ..)) hopen hcall,
      hrec.serve hi (hasked hn) rfl rfl⟩

theorem startTicket_lt (hinv : b.system.Inv) (hn : n ≤ 2) {ticket : Nat}
    (hi : (b.system.cpu i).startTicket = some ticket) : ticket < 2 := by
  have hlt := hinv.starts.lt hi
  have hle := hinv.starts.le_card
  rw [Fintype.card_fin] at hle
  omega

theorem initTicket_lt (hinv : b.system.Inv) (hn : n ≤ 2) {ticket : Nat}
    (hi : (b.system.cpu i).initTicket = some ticket) : ticket < 2 := by
  have hlt := hinv.inits.lt hi
  have hle := hinv.inits.le_card
  rw [Fintype.card_fin] at hle
  omega

/-- No page of a stack that is asked for is served. -/
theorem stack_not_served {ticket : Nat} {span : Nat × Nat} (hspan : stackSpan ticket = .ok span)
    (ht : ticket < 255) (ha : (PTE_SIZE : Int) ∣ a) (hout : Outside a) :
    ¬ Served (.stack ticket span) [stackRequest span] a := by
  intro hserved
  obtain ⟨⟨hstack, hhole⟩ | ⟨_, harena, _⟩, hno⟩ := hserved
  · obtain ⟨hlo, hhi⟩ := (inStack_iff rfl hspan ht hout).mp hstack
    exact hno _ (List.mem_singleton.mpr rfl)
      ((stackRequest_maps hspan ht ha hlo hhi).mpr hhole)
  · cases harena

/-- CPU `i` goes on, and has requests. -/
theorem Late.ask (h : Late tracked root s₀ b) (hp : b.phase i = .on []) {system : System n}
    {c : Cpu} (hinitd : system.mapperInitd = b.system.mapperInitd)
    (hcpu : system.cpu = Function.update b.system.cpu i c)
    (hticket : c.startTicket = (b.system.cpu i).startTicket) (hoff : c ≠ .off)
    (hasked : tracked → Asked c q ∧ ∀ a, (PTE_SIZE : Int) ∣ a → Outside a →
      (Served c q a ↔ Served (b.system.cpu i) [] a)) :
    Late tracked root s₀ { b.goto i (.on q) with system := system } := by
  have hsettled := h.settled i
  rw [hp] at hsettled
  refine h.update (b := b) (i := i) (p := .on q) (k := b.cr3 i) rfl hinitd hcpu rfl
    (Function.update_eq_self ..).symm (h.guard.keep (by rw [hp]; exact Iff.rfl))
    (fun hz => hticket.trans hz) (fun _ => trivial) ⟨hsettled.1, hoff⟩ (fun hn => (hasked hn).1)
    fun hn => ?_
  obtain ⟨cs, hrun, hrec⟩ := h.run hn
  refine ⟨cs, hrun, hrec.update hcpu rfl fun a ha hout => ?_⟩
  rw [hp]
  exact (hasked hn).2 a ha hout

/-- A step of CPU `i` that leaves it with the pages and the requests it had. -/
theorem Recorded.same {cs : List MapRequest} (h : Recorded b cs) {p : Phase}
    (hcpu : b'.system.cpu = b.system.cpu) (hphase : b'.phase = Function.update b.phase i p)
    (hqueue : p.queue = (b.phase i).queue) : Recorded b' cs := by
  refine h.update (i := i) (c := b.system.cpu i) (p := p) ?_ hphase fun a _ _ => ?_
  · rw [hcpu, Function.update_eq_self]
  · rw [hqueue]

/-- CPU `i` goes to another phase. -/
theorem Late.goto (h : Late tracked root s₀ b) {p : Phase} {k : Nat} {lock : Option (Fin n)}
    (hguard : Guarded lock (Phase.Locked ∘ Function.update b.phase i p))
    (hpast : (b.phase i).Past → p.Past) (hsettled : Settled root p k (b.system.cpu i))
    (hqueue : p.queue = (b.phase i).queue) :
    Late tracked root s₀ { b.goto i p with lock := lock, cr3 := Function.update b.cr3 i k } := by
  refine h.update (b := b) (i := i) (c := b.system.cpu i) (p := p) (k := k) rfl rfl
    (Function.update_eq_self ..).symm rfl rfl hguard (fun hz => hz) hpast hsettled
    (fun hn => hqueue ▸ h.asked hn i) fun hn => ?_
  obtain ⟨cs, hrun, hrec⟩ := h.run hn
  exact ⟨cs, hrun, hrec.same (i := i) rfl rfl hqueue⟩

/-- It stays on its PML4. -/
theorem Late.turn (h : Late tracked root s₀ b) {p : Phase} {lock : Option (Fin n)}
    (hguard : Guarded lock (Phase.Locked ∘ Function.update b.phase i p))
    (hpast : (b.phase i).Past → p.Past)
    (hsettled : Settled root p (b.cr3 i) (b.system.cpu i)) (hqueue : p.queue = (b.phase i).queue) :
    Late tracked root s₀ { b.goto i p with lock := lock } := by
  have hb := h.goto hguard hpast hsettled hqueue
  rw [Function.update_eq_self] at hb
  exact hb

theorem Late.start (h : Late tracked root s₀ b) (hi : b.system.cpu i = .off) (ticket : Nat)
    {system : System n} (hinitd : system.mapperInitd = b.system.mapperInitd)
    (hcpu : system.cpu = Function.update b.system.cpu i (.start ticket)) :
    Late tracked root s₀ { b with system := system } := by
  have hsettled := h.settled i
  rw [hi] at hsettled
  have hwait : b.phase i = .wait := by
    cases hp : b.phase i with
    | wait => rfl
    | tables _ _ => rw [hp] at hsettled; exact hsettled.elim
    | setup _ => rw [hp] at hsettled; exact hsettled.elim
    | ready =>
      rw [hp] at hsettled
      obtain ⟨_, hoff⟩ := hsettled
      cases hoff
    | on _ => rw [hp] at hsettled; exact absurd rfl hsettled.2
    | locked _ _ => rw [hp] at hsettled; exact absurd rfl hsettled.2
  have hphase : b.phase = Function.update b.phase i .wait := by
    rw [← hwait, Function.update_eq_self]
  refine h.update (b := b) (i := i) (p := .wait) (k := b.cr3 i) rfl hinitd hcpu hphase
    (Function.update_eq_self ..).symm (hphase ▸ h.guard) (fun hz => ?_) (fun hp => ?_)
    (.inr ⟨ticket, rfl⟩) (fun _ => Asked.nil _) fun hn => ?_
  · rw [hi] at hz
    cases hz
  · rwa [hwait] at hp
  · obtain ⟨cs, hrun, hrec⟩ := h.run hn
    refine ⟨cs, hrun, hrec.update hcpu hphase fun a _ _ => ?_⟩
    rw [hi, hwait]
    exact iff_of_false (Cpu.Bare.not_served (.inr ⟨_, rfl⟩) _ a)
      (Cpu.Bare.not_served (.inl rfl) _ a)

theorem Late.step (h : Late tracked root s₀ b) (hinv : b.system.Inv)
    (hsmall : tracked → n ≤ 2) (hd : tracked → b.system.Disjoint ∧ b'.system.Disjoint)
    (hmem : tracked → BootMemory mmap lgst oldPml4 mem)
    (hsetup : setupMapper mmap oldPml4 mem = .ok (root, s₀)) (hstep : b.Step mmap b') :
    Late tracked root s₀ b' := by
  cases hstep with
  | @start i hi => exact h.start hi _ rfl rfl
  -- the CPUs inside `setup` are of the phase before
  | @tables i _ _ hi hp _ =>
    have hpast := not_start_zero hinv h hi
    rw [hp] at hpast
    exact hpast.elim
  | @setup i _ _ hi _ =>
    have hsettled := h.settled i
    rw [hi] at hsettled
    exact hsettled.elim
  | @store i _ hi =>
    have hsettled := h.settled i
    rw [hi] at hsettled
    exact hsettled.elim
  | @pass i ticket hi _ hp _ =>
    exact h.turn (h.guard.keep (by rw [hp]; exact Iff.rfl)) (fun _ => trivial) ⟨ticket, hi⟩
      (by rw [hp]; rfl)
  | @activate i hi =>
    have hsettled := h.settled i
    rw [hi] at hsettled
    obtain ⟨ticket, hcpu⟩ := hsettled
    exact h.goto (i := i) (p := .on []) (k := b.pml4)
      (h.guard.keep (by rw [hi]; exact Iff.rfl)) (fun _ => trivial)
      ⟨h.pml4, by rw [hcpu]; exact nofun⟩ (by rw [hi]; rfl)
  -- it had nothing mapped yet, and the request covers its stack
  | @stack i ticket span hi hp hspan =>
    refine h.ask hp rfl rfl (by rw [hi]; rfl) nofun fun hn => ?_
    have ht : ticket < 2 := startTicket_lt hinv (hsmall hn) (i := i) (by rw [hi]; rfl)
    refine ⟨stackRequest_asked hspan (by omega), fun a ha hout => ?_⟩
    rw [hi]
    exact iff_of_false (stack_not_served hspan (by omega) ha hout)
      (Cpu.Bare.not_served (.inr ⟨_, rfl⟩) _ a)
  | @init i ticket span hi hp =>
    have hb : Late tracked root s₀ { b.goto i (.on []) with
        system := { b.system.set i (.init ticket span b.system.initTickets) with
          initTickets := fetchAdd b.system.initTickets } } :=
      h.ask hp rfl rfl (by rw [hi]; rfl) nofun
        fun _ => ⟨Asked.nil _, fun a _ _ => by rw [hi]; exact Iff.rfl⟩
    unfold Boot.goto at hb
    rw [← hp, Function.update_eq_self] at hb
    exact hb
  -- the requests of the new heap are tiles that cover it
  | @heapSetup i ticket initTicket span calls t hi hp hok =>
    refine h.ask hp rfl rfl (by rw [hi]; rfl) nofun fun hn => ?_
    have ht : initTicket < 2 := initTicket_lt hinv (hsmall hn) (i := i) (by rw [hi]; rfl)
    obtain ⟨hsite, htiles⟩ := allocatorSetup_tiles (by omega) hok
    have hapart := fun x => (hd hn).2.apart (i := i) (j := i) (x := x)
    simp only [System.set_self] at hapart
    refine ⟨htiles.asked hsite _ _ _ _, fun a ha _ => ?_⟩
    rw [htiles.served hsite hapart ha, hi, served_nil]
    refine or_congr Iff.rfl (iff_of_false (by omega) fun hheap => ?_)
    obtain ⟨_, harena, _⟩ := hheap
    cases harena
  -- and those of a heap that grows cover what is new of it
  | @heap i ticket initTicket span calls new t t' hi hp hok =>
    refine h.ask hp rfl rfl (by rw [hi]; rfl) nofun fun hn => ?_
    have ht : initTicket < 2 := initTicket_lt hinv (hsmall hn) (i := i) (by rw [hi]; rfl)
    have hplaced := hinv.placed i
    rw [hi] at hplaced
    have hsite := hplaced.2.site (by omega)
    obtain ⟨hbase, hsite', new', hnew, htiles⟩ := hok.grown hsite
    obtain rfl := List.append_cancel_right hnew
    rw [← hbase] at hsite' htiles
    have hapart := fun x => (hd hn).2.apart (i := i) (j := i) (x := x)
    simp only [System.set_self] at hapart
    refine ⟨htiles.asked hsite' _ _ _ _, fun a ha _ => ?_⟩
    rw [htiles.served hsite' hapart ha, hi, served_nil, hbase]
    exact or_congr Iff.rfl (inHeap_iff rfl).symm
  | @lock i r q hi hlock =>
    have hsettled := h.settled i
    rw [hi] at hsettled
    exact h.turn (Guarded.acquire (hlock ▸ h.guard) trivial) (fun _ => trivial) hsettled
      (by rw [hi]; rfl)
  | @map i r q m s hi hcall => exact h.map (fun hn => (hd hn).1) hmem hsetup hi hcall

variable (tracked lgst) in
/-- The invariant of the machine. -/
theorem Booted.inv (hb : Booted mmap oldPml4 mem b) (hn : n < 2 ^ 64) (hsmall : tracked → n ≤ 2)
    (hmem : tracked → BootMemory mmap lgst oldPml4 mem)
    (hsetup : setupMapper mmap oldPml4 mem = .ok (root, s₀)) (htrace : s₀.trace = []) :
    b.system.Inv ∧ (Early oldPml4 mem root s₀ b ∨ Late tracked root s₀ b) := by
  induction hb with
  | init => exact ⟨boot_inv, .inl (early_init htrace)⟩
  | @step b b' _ hstep ih =>
    obtain ⟨hinv, hb⟩ := ih
    have hinv' : b'.system.Inv := by
      obtain hsame | hsystem := boot_step_system hb hstep
      · rw [hsame]
        exact hinv
      · exact hinv.step hn hsystem
    refine ⟨hinv', ?_⟩
    obtain hearly | hlate := hb
    · exact hearly.step hinv hsetup hstep
    · exact .inr (hlate.step hinv hsmall
        (fun ht => ⟨hinv.disjoint (hsmall ht), hinv'.disjoint (hsmall ht)⟩) hmem hsetup hstep)

theorem Late.on (h : Late tracked root s₀ b) (hi : (b.system.cpu i).Has a) : (b.phase i).On := by
  have hsettled := h.settled i
  have hbare : ¬ (b.system.cpu i).Bare := fun hbare => hbare.not_has a hi
  cases hp : b.phase i with
  | wait => rw [hp] at hsettled; exact absurd hsettled hbare
  | tables _ _ => rw [hp] at hsettled; exact hsettled.elim
  | setup _ => rw [hp] at hsettled; exact hsettled.elim
  | ready => rw [hp] at hsettled; exact absurd (.inr hsettled) hbare
  | on _ => trivial
  | locked _ _ => trivial

theorem Late.cr3 (h : Late tracked root s₀ b) (hi : (b.phase i).On) : b.cr3 i = root := by
  have hsettled := h.settled i
  cases hp : b.phase i with
  | on _ => rw [hp] at hsettled; exact hsettled.1
  | locked _ _ => rw [hp] at hsettled; exact hsettled.1
  | _ => rw [hp] at hi; exact hi.elim

end Invariant

end Tauos.Init
