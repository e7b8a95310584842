import Tauos.Init.Limit
import Tauos.Rust.Ticket

/-!
# Stacks and heaps of all CPUs

`_start` and `init` run on every CPU at once. Each takes a ticket from a counter
of its own, and the ticket says where the stack and the heap of the CPU are
mapped: the stacks downwards from -1 GiB, 4 MiB apart, and the heaps at -2 GiB,
-3 GiB and so on, each growing upwards.

The heap at -2 GiB grows towards the stacks. `oom_handler` leaves `stack_size`
bytes and a page free above it, 8 MiB by default, and a stack is
`KRNL_STACK_SIZE` and a page apart from the next, 4 MiB: there is room for two.

> `cpus_disjoint_iff`: in a machine with `n` CPUs no stack and no heap ever
> overlaps another if and only if `n ≤ 2`.

For two CPUs the bounds of each stack and heap are invariants. For more, the
first CPU grows its heap to the limit (`first_heap_at_limit`), and the third
stack is inside.
-/

namespace Tauos.Init

open Tauos.Rust Tauos.Amd64 Tauos.Memm

/-- `KRNL_STACK_ACME`. -/
def KRNL_STACK_ACME : Nat := 2 ^ 64 - PDPTE_SIZE

/-- `KRNL_STACK_SIZE`. -/
def KRNL_STACK_SIZE : Nat := 4 * 1024 * 1024 - PTE_SIZE

/-- The stack `_start` maps: its base and `stack_acme`. -/
def stackSpan (threadTicket : Nat) : Except Fault (Nat × Nat) := do
  let stackAcme ← usizeSub KRNL_STACK_ACME
    (← usizeMul (← usizeAdd KRNL_STACK_SIZE PTE_SIZE) threadTicket)
  return (← usizeSub stackAcme KRNL_STACK_SIZE, stackAcme)

/-- `THREAD_TICKET.fetch_add(1)`: the counter afterwards. -/
def fetchAdd (counter : Nat) : Nat := (counter + 1) % 2 ^ 64

/-- How far a CPU is, with its tickets of `_start` and `init`. -/
inductive Cpu
  | off
  | start (startTicket : Nat)
  | stack (startTicket : Nat) (span : Nat × Nat)
  | init (startTicket : Nat) (span : Nat × Nat) (initTicket : Nat)
  | heap (startTicket : Nat) (span : Nat × Nat) (initTicket : Nat) (calls : List MapCall)
      (talloc : Talloc FreeLists)

/-- The ticket taken on entry, of which the stack is made. -/
def Cpu.startTicket : Cpu → Option Nat
  | off => none
  | start ticket | stack ticket _ | init ticket _ _ | heap ticket _ _ _ _ => some ticket

/-- The ticket taken in `init`, of which the heap is made. -/
def Cpu.initTicket : Cpu → Option Nat
  | off | start _ | stack _ _ => none
  | init _ _ ticket | heap _ _ ticket _ _ => some ticket

/-- The stack mapped for the CPU. -/
def Cpu.span : Cpu → Option (Nat × Nat)
  | off | start _ => none
  | stack _ span | init _ span _ | heap _ span _ _ _ => some span

/-- The heap of the CPU. -/
def Cpu.arena : Cpu → Option Arena
  | off | start _ | stack _ _ | init _ _ _ => none
  | heap _ _ _ _ talloc => some talloc.toArena

/-- `x` is in the stack of the CPU. -/
def Cpu.InStack (c : Cpu) (x : Int) : Prop :=
  ∃ base acme, c.span = some (base, acme) ∧ base ≤ asUsize x ∧ asUsize x < acme

/-- `x` is in the heap of the CPU. -/
def Cpu.InHeap (c : Cpu) (x : Int) : Prop :=
  ∃ a, c.arena = some a ∧ a.arenaBase ≤ x ∧ x < a.arenaBase + a.arenaSize

/-- The counters of `_start` and `init`, whether the mapper is set up, and the CPUs. -/
structure System (n : Nat) where
  startTickets : Nat
  initTickets : Nat
  mapperInitd : Bool
  cpu : Fin n → Cpu

variable {n : Nat}

/-- Before the first CPU starts. -/
def System.boot (n : Nat) : System n := ⟨0, 0, false, fun _ => .off⟩

/-- A CPU is at another point. -/
def System.set (s : System n) (i : Fin n) (c : Cpu) : System n :=
  { s with cpu := Function.update s.cpu i c }

@[simp] theorem System.set_self (s : System n) (i : Fin n) (c : Cpu) : (s.set i c).cpu i = c :=
  Function.update_self ..

theorem System.set_of_ne (s : System n) {i j : Fin n} (c : Cpu) (hji : j ≠ i) :
    (s.set i c).cpu j = s.cpu j := Function.update_of_ne hji ..

/-- A step of one of the CPUs, with the default settings. -/
inductive System.Step (s : System n) : System n → Prop
  | start {i : Fin n} : s.cpu i = .off →
      System.Step s { s.set i (.start s.startTickets) with startTickets := fetchAdd s.startTickets }
  /-- `Mapper::setup`, by the CPU with ticket 0; the others wait for it. -/
  | mapper {i : Fin n} : s.cpu i = .start 0 → System.Step s { s with mapperInitd := true }
  | stack {i : Fin n} {startTicket : Nat} {span : Nat × Nat} : s.cpu i = .start startTicket →
      s.mapperInitd = true → stackSpan startTicket = .ok span →
      System.Step s (s.set i (.stack startTicket span))
  | init {i : Fin n} {startTicket : Nat} {span : Nat × Nat} : s.cpu i = .stack startTicket span →
      System.Step s { s.set i (.init startTicket span s.initTickets) with
        initTickets := fetchAdd s.initTickets }
  | setup {i : Fin n} {startTicket initTicket : Nat} {span : Nat × Nat} {calls : List MapCall}
      {t : Talloc FreeLists} : s.cpu i = .init startTicket span initTicket →
      allocatorSetup Cfg.default recordMap [] initTicket = .ok (calls, t) →
      System.Step s (s.set i (.heap startTicket span initTicket calls t))
  | heap {i : Fin n} {startTicket initTicket : Nat} {span : Nat × Nat}
      {calls calls' : List MapCall} {t t' : Talloc FreeLists} :
      s.cpu i = .heap startTicket span initTicket calls t →
      HeapStep Cfg.default calls t calls' t' →
      System.Step s (s.set i (.heap startTicket span initTicket calls' t'))

/-- The states of the machine. -/
inductive Reachable : System n → Prop
  | boot : Reachable (System.boot n)
  | step {s s' : System n} : Reachable s → s.Step s' → Reachable s'

/-- No stack and no heap overlaps another. -/
structure System.Disjoint (s : System n) : Prop where
  stack : ∀ {i j x}, i ≠ j → (s.cpu i).InStack x → ¬ (s.cpu j).InStack x
  heap : ∀ {i j x}, i ≠ j → (s.cpu i).InHeap x → ¬ (s.cpu j).InHeap x
  apart : ∀ {i j x}, (s.cpu i).InStack x → ¬ (s.cpu j).InHeap x

/-! ## Where a stack and a heap are -/

/-- Where the stack of a ticket lies. -/
theorem stackSpan_ok {ticket base acme : Nat} (h : stackSpan ticket = .ok (base, acme)) :
    acme + 4194304 * ticket = 2 ^ 64 - 2 ^ 30 ∧ base + 4190208 = acme := by
  obtain ⟨sum, hsum, h⟩ := bind_ok h
  obtain ⟨below, hbelow, h⟩ := bind_ok h
  obtain ⟨a, ha, h⟩ := bind_ok h
  obtain ⟨b, hb, h⟩ := bind_ok h
  cases h
  rw [show usizeAdd KRNL_STACK_SIZE PTE_SIZE = .ok 4194304 by decide] at hsum
  cases hsum
  obtain ⟨_, rfl⟩ := usizeMul_ok hbelow
  obtain ⟨hle, ha⟩ := usizeSub_ok ha
  obtain ⟨hle', hb⟩ := usizeSub_ok hb
  have hacme : KRNL_STACK_ACME = 2 ^ 64 - 2 ^ 30 := by decide
  have hsize : KRNL_STACK_SIZE = 4190208 := by decide
  omega

/-- Where the heap of a ticket begins. -/
theorem heapBase_ok {ticket : Nat} {base : Int} (h : heapBase ticket = .ok base)
    (ht : ticket < 2 ^ 62) :
    base = -2 ^ 30 * (2 + ticket) := by
  obtain ⟨n, hn, h⟩ := bind_ok h
  obtain ⟨hbase, _⟩ := isizeMul_ok h
  obtain ⟨hsum, _⟩ := isizeAdd_ok hn
  rw [show asIsize ticket = ticket from bmod_of_inIsize ⟨by omega, by omega⟩] at hsum
  rw [hbase, hsum]
  unfold PDPTE_SIZE
  norm_num

/-- The limit of a heap by default. -/
theorem default_limit : maxArenaSize Cfg.default = .ok 0x3f800000 := by decide

/-- No heap outgrows the limit. -/
theorem HeapRun.size_le {ticket : Nat} {calls : List MapCall} {t : Talloc FreeLists}
    (h : HeapRun Cfg.default ticket calls t) : t.arenaSize ≤ 0x3f800000 :=
  (h.inv default_limit (by decide)).size

/-! ## Two CPUs -/

/-- The stack and the heap of a CPU are where its tickets say. -/
def Cpu.Placed : Cpu → Prop
  | off | start _ => True
  | stack startTicket span | init startTicket span _ => stackSpan startTicket = .ok span
  | heap startTicket span initTicket calls t =>
      stackSpan startTicket = .ok span ∧ HeapRun Cfg.default initTicket calls t

theorem Cpu.Placed.span {c : Cpu} (h : c.Placed) {span : Nat × Nat} (hs : c.span = some span) :
    ∃ ticket, c.startTicket = some ticket ∧ stackSpan ticket = .ok span := by
  cases c with
  | off => cases hs
  | start _ => cases hs
  | stack ticket _ =>
    cases hs
    exact ⟨ticket, rfl, h⟩
  | init ticket _ _ =>
    cases hs
    exact ⟨ticket, rfl, h⟩
  | heap ticket _ _ _ _ =>
    cases hs
    exact ⟨ticket, rfl, h.1⟩

theorem Cpu.Placed.arena {c : Cpu} (h : c.Placed) {a : Arena} (ha : c.arena = some a) :
    ∃ ticket calls t, c.initTicket = some ticket ∧ HeapRun Cfg.default ticket calls t ∧
      t.toArena = a := by
  cases c with
  | off => cases ha
  | start _ => cases ha
  | stack _ _ => cases ha
  | init _ _ _ => cases ha
  | heap _ _ ticket calls t =>
    cases ha
    exact ⟨ticket, calls, t, rfl, h.2, rfl⟩

/-- The invariant of the machine. -/
structure System.Inv (s : System n) : Prop where
  starts : Dispensed s.startTickets (Cpu.startTicket ∘ s.cpu)
  inits : Dispensed s.initTickets (Cpu.initTicket ∘ s.cpu)
  placed : ∀ i, (s.cpu i).Placed

section Invariant

variable {s s' : System n}

/-- It holds at power-on. -/
theorem boot_inv : (System.boot n).Inv := by
  exact ⟨dispensed_zero, dispensed_zero, fun _ => trivial⟩

section Tickets

variable {g : Fin n → Cpu} {f : Cpu → Option Nat} {next : Nat} {i : Fin n} {c : Cpu}

/-- The CPU keeps its ticket. -/
theorem Dispensed.keep (h : Dispensed next (f ∘ g)) (hc : f c = f (g i)) :
    Dispensed next (f ∘ Function.update g i c) := by
  rw [Function.comp_update, hc]
  exact (Function.update_eq_self i (f ∘ g)).symm ▸ h

/-- The CPU takes the next ticket; with fewer than `2 ^ 64` CPUs the counter does not wrap. -/
theorem Dispensed.fetch (h : Dispensed next (f ∘ g)) (hn : n < 2 ^ 64) (hi : f (g i) = none)
    (hc : f c = some next) : Dispensed (fetchAdd next) (f ∘ Function.update g i c) := by
  have hlt : next < Fintype.card (Fin n) := h.lt_card hi
  rw [Fintype.card_fin] at hlt
  have hsucc : fetchAdd next = next + 1 := Nat.mod_eq_of_lt (by omega)
  rw [Function.comp_update, hc, hsucc]
  exact h.take hi

end Tickets

theorem placed_set (h : s.Inv) {i : Fin n} {c : Cpu} (hc : c.Placed) (j : Fin n) :
    ((s.set i c).cpu j).Placed := by
  by_cases hji : j = i
  · subst hji
    rw [System.set_self]
    exact hc
  · rw [s.set_of_ne c hji]
    exact h.placed j

/-- A step of a CPU that takes no ticket. -/
theorem System.Inv.set (h : s.Inv) {i : Fin n} {c : Cpu}
    (hstart : c.startTicket = (s.cpu i).startTicket) (hinit : c.initTicket = (s.cpu i).initTicket)
    (hc : c.Placed) : (s.set i c).Inv :=
  ⟨Dispensed.keep h.starts hstart, Dispensed.keep h.inits hinit, placed_set h hc⟩

/-- Every step keeps it. -/
theorem System.Inv.step (h : s.Inv) (hn : n < 2 ^ 64) (hstep : s.Step s') : s'.Inv := by
  cases hstep with
  | @start i hi =>
    exact ⟨Dispensed.fetch h.starts hn (by rw [hi]; rfl) rfl,
      Dispensed.keep h.inits (by rw [hi]; rfl), placed_set h trivial⟩
  | mapper _ => exact ⟨h.starts, h.inits, h.placed⟩
  | @stack i ticket span hi _ hspan => exact h.set (by rw [hi]; rfl) (by rw [hi]; rfl) hspan
  | @init i ticket span hi =>
    have hp := h.placed i
    rw [hi] at hp
    exact ⟨Dispensed.keep h.starts (by rw [hi]; rfl),
      Dispensed.fetch h.inits hn (by rw [hi]; rfl) rfl, placed_set h hp⟩
  | @setup i startTicket initTicket span calls t hi hsetup =>
    have hp := h.placed i
    rw [hi] at hp
    exact h.set (by rw [hi]; rfl) (by rw [hi]; rfl) ⟨hp, HeapRun.setup hsetup⟩
  | @heap i startTicket initTicket span calls calls' t t' hi hheap =>
    have hp := h.placed i
    rw [hi] at hp
    exact h.set (by rw [hi]; rfl) (by rw [hi]; rfl) ⟨hp.1, hp.2.step hheap⟩

/-- So it holds in every run. -/
theorem Reachable.inv (h : Reachable s) (hn : n < 2 ^ 64) : s.Inv := by
  induction h with
  | boot => exact boot_inv
  | step _ hstep ih => exact ih.step hn hstep

/-- With two CPUs the stacks and heaps lie apart. -/
theorem System.Inv.disjoint (h : s.Inv) (hn : n ≤ 2) : s.Disjoint := by
  -- tickets are below the number of CPUs, which is at most two
  have hstart : ∀ {i base acme}, (s.cpu i).span = some (base, acme) → ∃ ticket,
      (s.cpu i).startTicket = some ticket ∧ ticket < 2 ∧
      acme + 4194304 * ticket = 2 ^ 64 - 2 ^ 30 ∧ base + 4190208 = acme := by
    intro i base acme hs
    obtain ⟨ticket, ht, hspan⟩ := (h.placed i).span hs
    have hlt := h.starts.lt ht
    have hle := h.starts.le_card
    rw [Fintype.card_fin] at hle
    exact ⟨ticket, ht, by omega, stackSpan_ok hspan⟩
  have hheap : ∀ {i a}, (s.cpu i).arena = some a → ∃ ticket,
      (s.cpu i).initTicket = some ticket ∧ a.arenaBase = -2 ^ 30 * (2 + ticket) ∧
      a.arenaSize ≤ 0x3f800000 := by
    intro i a ha
    obtain ⟨ticket, calls, t, ht, hrun, rfl⟩ := (h.placed i).arena ha
    have hlt := h.inits.lt ht
    have hle := h.inits.le_card
    rw [Fintype.card_fin] at hle
    exact ⟨ticket, ht, heapBase_ok hrun.heapBase_eq (by omega), hrun.size_le⟩
  refine ⟨fun {i j x} hij hx hx' => ?_, fun {i j x} hij hx hx' => ?_, fun {i j x} hx hx' => ?_⟩
  · obtain ⟨base, acme, hs, h1, h2⟩ := hx
    obtain ⟨base', acme', hs', h1', h2'⟩ := hx'
    obtain ⟨ticket, ht, _, _⟩ := hstart hs
    obtain ⟨ticket', ht', _, _⟩ := hstart hs'
    have hne : ticket ≠ ticket' := fun heq => hij (h.starts.inj ht (heq ▸ ht'))
    omega
  · obtain ⟨a, ha, h1, h2⟩ := hx
    obtain ⟨a', ha', h1', h2'⟩ := hx'
    obtain ⟨ticket, ht, _, _⟩ := hheap ha
    obtain ⟨ticket', ht', _, _⟩ := hheap ha'
    have hne : ticket ≠ ticket' := fun heq => hij (h.inits.inj ht (heq ▸ ht'))
    omega
  · obtain ⟨base, acme, hs, h1, h2⟩ := hx
    obtain ⟨a, ha, h1', h2'⟩ := hx'
    obtain ⟨ticket, _, _, _⟩ := hstart hs
    obtain ⟨ticket', _, _, _⟩ := hheap ha
    unfold asUsize at h1 h2
    omega

end Invariant

/-! ## Three CPUs -/

/-- A CPU that is about to set up its heap can take it to any state of a heap. -/
theorem Reachable.heap {s : System n} (h : Reachable s) {i : Fin n} {startTicket initTicket : Nat}
    {span : Nat × Nat} (hi : s.cpu i = .init startTicket span initTicket) {calls : List MapCall}
    {t : Talloc FreeLists} (hrun : HeapRun Cfg.default initTicket calls t) :
    Reachable (s.set i (.heap startTicket span initTicket calls t)) := by
  induction hrun with
  | setup hsetup => exact h.step (System.Step.setup hi hsetup)
  | @step calls calls' t t' _ hstep ih =>
    have hcpu : (s.set i (.heap startTicket span initTicket calls t)).cpu i
        = .heap startTicket span initTicket calls t := System.set_self ..
    have hset : (s.set i (.heap startTicket span initTicket calls t)).set i
        (.heap startTicket span initTicket calls' t')
        = s.set i (.heap startTicket span initTicket calls' t') := by
      unfold System.set
      dsimp only
      rw [Function.update_idem]
    rw [← hset]
    exact ih.step (System.Step.heap hcpu hstep)

/-- Three CPUs have started, the third has its stack, and the first is about to set up its
heap. -/
theorem third_stack (hn : 3 ≤ n) : ∃ s : System n, Reachable s ∧ ∃ i j span, i ≠ j ∧
    s.cpu i = .init 0 span 0 ∧
    s.cpu j = .stack 2 (2 ^ 64 - 2 ^ 30 - 0xbff000, 2 ^ 64 - 2 ^ 30 - 0x800000) := by
  let i : Fin n := ⟨0, by omega⟩
  let k : Fin n := ⟨1, by omega⟩
  let j : Fin n := ⟨2, by omega⟩
  have hik : i ≠ k := by simp [i, k]
  have hij : i ≠ j := by simp [i, j]
  have hkj : k ≠ j := by simp [k, j]
  let s₁ : System n := ⟨1, 0, true, ((System.boot n).set i (.start 0)).cpu⟩
  have h₁ : Reachable s₁ :=
    (Reachable.boot.step (System.Step.start (i := i) rfl)).step
      (System.Step.mapper (i := i) (System.set_self (System.boot n) i (.start 0)))
  let s₂ : System n := ⟨2, 0, true, (s₁.set k (.start 1)).cpu⟩
  have h₂ : Reachable s₂ := h₁.step (System.Step.start (i := k)
    (System.set_of_ne (System.boot n) (.start 0) hik.symm))
  let s₃ : System n := ⟨3, 0, true, (s₂.set j (.start 2)).cpu⟩
  have hoff : s₂.cpu j = .off := (s₁.set_of_ne (.start 1) hkj.symm).trans
    (System.set_of_ne (System.boot n) (.start 0) hij.symm)
  have h₃ : Reachable s₃ := h₂.step (System.Step.start (i := j) hoff)
  -- the third CPU maps its stack, and so does the first
  let span₂ : Nat × Nat := (2 ^ 64 - 2 ^ 30 - 0xbff000, 2 ^ 64 - 2 ^ 30 - 0x800000)
  let s₄ := s₃.set j (.stack 2 span₂)
  have h₄ : Reachable s₄ :=
    h₃.step (System.Step.stack (i := j) (s₂.set_self j (.start 2)) rfl (by decide))
  have hstart : s₄.cpu i = .start 0 := by
    rw [System.set_of_ne _ _ hij, show s₃.cpu i = s₂.cpu i from s₂.set_of_ne (.start 2) hij,
      show s₂.cpu i = s₁.cpu i from s₁.set_of_ne (.start 1) hik]
    exact System.set_self (System.boot n) i (.start 0)
  let span : Nat × Nat := (2 ^ 64 - 2 ^ 30 - 0x3ff000, 2 ^ 64 - 2 ^ 30)
  let s₅ := s₄.set i (.stack 0 span)
  have h₅ : Reachable s₅ := h₄.step (System.Step.stack (i := i) hstart rfl (by decide))
  have h₆ := h₅.step (System.Step.init (i := i) (s₄.set_self i (.stack 0 span)))
  refine ⟨_, h₆, i, j, span, hij, s₅.set_self i (.init 0 span 0), ?_⟩
  exact (s₅.set_of_ne (.init 0 span 0) hij.symm).trans
    ((s₄.set_of_ne (.stack 0 span) hij.symm).trans (s₃.set_self j (.stack 2 span₂)))

/-- With three CPUs or more the first heap can grow into the third stack. -/
theorem overlap (hn : 3 ≤ n) : ∃ s : System n, Reachable s ∧ ¬ s.Disjoint := by
  obtain ⟨s, hs, i, j, span, hij, hi, hj⟩ := third_stack hn
  obtain ⟨calls, t, hrun, hbase, hsize⟩ := first_heap_at_limit
  refine ⟨_, hs.heap hi hrun, fun hd => ?_⟩
  -- the last byte of the heap
  have hstack : ((s.set i (.heap 0 span 0 calls t)).cpu j).InStack (-2 ^ 30 - 0x800001) := by
    rw [s.set_of_ne _ hij.symm, hj]
    exact ⟨_, _, rfl, by decide, by decide⟩
  have hheap : ((s.set i (.heap 0 span 0 calls t)).cpu i).InHeap (-2 ^ 30 - 0x800001) := by
    rw [System.set_self]
    refine ⟨_, rfl, ?_, ?_⟩
    · rw [hbase]
      decide
    · rw [hbase, hsize]
      decide
  exact hd.apart hstack hheap

/-- Stacks and heaps stay apart if and only if there are at most two CPUs. -/
theorem cpus_disjoint_iff (n : Nat) :
    (∀ s : System n, Reachable s → s.Disjoint) ↔ n ≤ 2 := by
  constructor
  · intro h
    by_contra hcon
    obtain ⟨s, hs, hbad⟩ := overlap (show 3 ≤ n by omega)
    exact hbad (h s hs)
  · intro hn s hs
    exact (hs.inv (by omega)).disjoint hn

/-- The third stack lies in the heap of the CPU with init ticket 0. -/
theorem three_cpus_overlap : ∃ s : System 3, Reachable s ∧ ¬ s.Disjoint := overlap (le_refl 3)

end Tauos.Init
