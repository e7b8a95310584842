import Tauos.Init.Requests
import Tauos.Rust.Mutex

/-!
# `_start` on all CPUs

All CPUs run `_start` and `init` at once. The one that draws ticket 0 sets up the tables and
`MAPPER` while the others spin on `IS_MAPPER_INITD_PML4`; then each loads CR3 and asks `MAPPER`, a
lock, for its stack, for its heap, and for what its heap grows by.

`Boot` adds to the tickets, stacks and heaps of `System` what they share: the tables in memory,
`MAPPER` with its lock, and `IS_MAPPER_INITD_PML4`; and for every CPU its CR3 and how far it is. A
CPU queues its requests to `MAPPER` and goes on when all of them are served. What a heap does
between two requests is the CPU's own affair, so it is done with when they are queued.

> `Boot.Step`: a step of one of the CPUs. `boot_step_system`: it is a step of `System`, or none.
-/

namespace Tauos.Init

open Tauos.Rust Tauos.Amd64 Tauos.Mapper Tauos.Memm

/-! ## The machine -/

/-- Where a CPU is: before the end of the wait, in `Mapper::setup` with the tables written, in it
with `MAPPER` set, behind the wait, with CR3 loaded and requests to `MAPPER`, or with its lock. -/
inductive Phase
  | wait
  | tables (pml4 : Nat) (talloc : Talloc FreeLists)
  | setup (pml4 : Nat)
  | ready
  | on (queue : List MapRequest)
  | locked (request : MapRequest) (queue : List MapRequest)

def Phase.Locked : Phase → Prop
  | locked _ _ => True
  | _ => False

/-- The wait is over. -/
def Phase.Past : Phase → Prop
  | wait | tables _ _ | setup _ => False
  | ready | on _ | locked _ _ => True

/-- The CPU has loaded CR3. -/
def Phase.On : Phase → Prop
  | wait | tables _ _ | setup _ | ready => False
  | on _ | locked _ _ => True

/-- The requests that are not served. -/
def Phase.queue : Phase → List MapRequest
  | wait | tables _ _ | setup _ | ready => []
  | on queue => queue
  | locked request queue => request :: queue

/-- The requests of the calls, the earliest first. -/
def requests (calls : List MapCall) : List MapRequest := (calls.map MapCall.toRequest).reverse

/-- `usize::MAX`, what `IS_MAPPER_INITD_PML4` is at first. -/
def UNSET : Nat := 2 ^ 64 - 1

/-- All CPUs, the tables with `MAPPER`, its lock, `IS_MAPPER_INITD_PML4`, and the CR3s. -/
structure Boot (n : Nat) where
  system : System n
  machine : Machine (Talloc FreeLists)
  lock : Option (Fin n)
  pml4 : Nat
  cr3 : Fin n → Nat
  phase : Fin n → Phase

variable {n : Nat}

/-- The boot loader's tables, and `Mapper::new_invalid`. -/
def Boot.init (n oldPml4 : Nat) (mem : Frames) : Boot n :=
  ⟨.boot n, ⟨mem, .newInvalid PTE_SIZE, []⟩, none, UNSET, fun _ => oldPml4, fun _ => .wait⟩

def Boot.goto (b : Boot n) (i : Fin n) (p : Phase) : Boot n :=
  { b with phase := Function.update b.phase i p }

@[simp] theorem Boot.goto_phase (b : Boot n) (i : Fin n) (p : Phase) : (b.goto i p).phase i = p :=
  Function.update_self ..

/-- A step of one of the CPUs, with the default settings. -/
inductive Boot.Step (mmap : List MemRegion) (b : Boot n) : Boot n → Prop
  | start {i : Fin n} : b.system.cpu i = .off →
      Boot.Step mmap b { b with
        system := { b.system.set i (.start b.system.startTickets) with
          startTickets := fetchAdd b.system.startTickets } }
  /-- `Mapper::setup`, up to `MAPPER.lock()`. -/
  | tables {i : Fin n} {pml4 : Nat} {s : Machine (Talloc FreeLists)} :
      b.system.cpu i = .start 0 → b.phase i = .wait →
      setupMapper mmap (b.cr3 i) b.machine.mem = .ok (pml4, s) →
      Boot.Step mmap b { b.goto i (.tables pml4 s.pages) with
        machine := { b.machine with mem := s.mem }
        cr3 := Function.update b.cr3 i pml4 }
  /-- `*MAPPER.lock() = Self { .. }`. -/
  | setup {i : Fin n} {pml4 : Nat} {talloc : Talloc FreeLists} :
      b.phase i = .tables pml4 talloc → b.lock = none →
      Boot.Step mmap b { b.goto i (.setup pml4) with
        machine := { b.machine with pages := talloc } }
  /-- `IS_MAPPER_INITD_PML4.store`. -/
  | store {i : Fin n} {pml4 : Nat} : b.phase i = .setup pml4 →
      Boot.Step mmap b { b.goto i .ready with
        system := { b.system with mapperInitd := true }
        pml4 := pml4 }
  /-- The wait of the others ends. -/
  | pass {i : Fin n} {ticket : Nat} : b.system.cpu i = .start ticket → ticket ≠ 0 →
      b.phase i = .wait → b.pml4 ≠ UNSET → Boot.Step mmap b (b.goto i .ready)
  /-- `CR3::set_nflags`. -/
  | activate {i : Fin n} : b.phase i = .ready →
      Boot.Step mmap b { b.goto i (.on []) with cr3 := Function.update b.cr3 i b.pml4 }
  | stack {i : Fin n} {ticket : Nat} {span : Nat × Nat} : b.system.cpu i = .start ticket →
      b.phase i = .on [] → stackSpan ticket = .ok span →
      Boot.Step mmap b { b.goto i (.on [stackRequest span]) with
        system := b.system.set i (.stack ticket span) }
  | init {i : Fin n} {ticket : Nat} {span : Nat × Nat} : b.system.cpu i = .stack ticket span →
      b.phase i = .on [] →
      Boot.Step mmap b { b with
        system := { b.system.set i (.init ticket span b.system.initTickets) with
          initTickets := fetchAdd b.system.initTickets } }
  | heapSetup {i : Fin n} {ticket initTicket : Nat} {span : Nat × Nat} {calls : List MapCall}
      {t : Talloc FreeLists} : b.system.cpu i = .init ticket span initTicket →
      b.phase i = .on [] → allocatorSetup Cfg.default recordMap [] initTicket = .ok (calls, t) →
      Boot.Step mmap b { b.goto i (.on (requests calls)) with
        system := b.system.set i (.heap ticket span initTicket calls t) }
  | heap {i : Fin n} {ticket initTicket : Nat} {span : Nat × Nat} {calls new : List MapCall}
      {t t' : Talloc FreeLists} : b.system.cpu i = .heap ticket span initTicket calls t →
      b.phase i = .on [] → HeapStep Cfg.default calls t (new ++ calls) t' →
      Boot.Step mmap b { b.goto i (.on (requests new)) with
        system := b.system.set i (.heap ticket span initTicket (new ++ calls) t') }
  /-- `MAPPER.lock()`. -/
  | lock {i : Fin n} {r : MapRequest} {queue : List MapRequest} : b.phase i = .on (r :: queue) →
      b.lock = none → Boot.Step mmap b { b.goto i (.locked r queue) with lock := some i }
  /-- `Mapper::map`, with the tables of CR3; then the guard is dropped. -/
  | map {i : Fin n} {r : MapRequest} {queue : List MapRequest} {m : Mapping}
      {s : Machine (Talloc FreeLists)} : b.phase i = .locked r queue →
      r.run allocPhys (b.cr3 i) b.machine = .ok (m, s) →
      Boot.Step mmap b { b.goto i (.on queue) with machine := s, lock := none }

/-- The states of the machine. -/
inductive Booted (mmap : List MemRegion) (oldPml4 : Nat) (mem : Frames) : Boot n → Prop
  | init : Booted mmap oldPml4 mem (Boot.init n oldPml4 mem)
  | step {b b' : Boot n} : Booted mmap oldPml4 mem b → b.Step mmap b' → Booted mmap oldPml4 mem b'

/-- The CPU is in `Mapper::setup` or has the lock of `MAPPER`. -/
def Boot.Touches (b : Boot n) (i : Fin n) : Prop :=
  (b.system.cpu i).startTicket = some 0 ∧ ¬ (b.phase i).Past ∨ (b.phase i).Locked

/-- A page of a stack or a heap, but for the page of a stack that `map_offset` skips. -/
def Cpu.Backed (c : Cpu) (a : Int) : Prop := c.InStack a ∧ a % 2 ^ 22 ≠ 2 ^ 21 ∨ c.InHeap a

end Tauos.Init
