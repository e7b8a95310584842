import Mathlib.Logic.Relation
import Tauos.Out.Serial
import Tauos.Out.Terminal
import Tauos.Rust.Serialized

/-!
# Printing on several processors

`__print` writes a message to `UART_COM1` and then to `TERM1`, each under its lock. It only tries
the first lock and goes on without it, and waits for the second. A message is the list of the pieces
that `write_fmt` passes to `write_str`.

`UART_COM1` is lazy: the CPU that gets there first runs `UartPort::new`, and the others wait.

A panic does not unwind, so it drops no guard: the CPU goes on with the `println!` of
`panic_handler`, and when it panicked in `TERM1` that stays locked. How much of the piece that
panicked is on the screen is left open.

A step of a CPU is up to the end of a call of `write_str`. Before `_start` has set the frame buffer
of `TERM1` nothing is printed; `Printer.init` is after that.
-/

namespace Tauos.Out

open Tauos.Rust Tauos.X86

/-- The pieces of a message. -/
abbrev Message := List String

/-- `Once`, with the value of the `Lazy`. -/
inductive Once (ι α : Type)
  | incomplete
  | running (i : ι)
  | complete (a : α)

/-- Where a CPU is in `__print`. -/
inductive Stage
  | idle
  /-- In front of `UART_COM1`. -/
  | called (m : Message)
  /-- In `UartPort::new`. -/
  | forcing (m : Message)
  /-- In front of `try_lock`. -/
  | ready (m : Message)
  /-- In `UART_COM1`, with `rest` left of the message. -/
  | line (m rest : Message)
  /-- In front of `TERM1.lock()`. -/
  | waiting (m : Message)
  /-- In `TERM1`. -/
  | screen (rest : Message)

/-- What is left to write to `UART_COM1` by a CPU in it. -/
def Stage.lineLeft : Stage → Option Message
  | .line _ rest => some rest
  | _ => none

/-- What is left to write to `TERM1` by a CPU in it. -/
def Stage.screenLeft : Stage → Option Message
  | .screen rest => some rest
  | _ => none

/-- The message that is not on the screen yet. -/
def Stage.pending : Stage → List Message
  | .called m | .forcing m | .ready m | .line m _ | .waiting m => [m]
  | .idle | .screen _ => []

/-- The message that may still go on the line. -/
def Stage.unsent : Stage → List Message
  | .called m | .forcing m | .ready m => [m]
  | _ => []

/-- The chip, the terminal and the CPUs. No step depends on what has happened so far: the messages
that each CPU has called `__print` with, and those that had the locks, in order. -/
structure Printer (n : Nat) where
  chip : Chip
  uart : Once (Fin n) UartPort
  uartLock : Option (Fin n)
  term : Term1
  termLock : Option (Fin n)
  stage : Fin n → Stage
  calls : Fin n → List Message
  sent : List (Fin n × Message)
  shown : List (Fin n × Message)

variable {n : Nat}

def Printer.init (n : Nat) (chip : Chip) (term : Term1) : Printer n :=
  ⟨chip, .incomplete, none, term, none, fun _ => .idle, fun _ => [], [], []⟩

def Printer.goto (p : Printer n) (i : Fin n) (x : Stage) : Printer n :=
  { p with stage := Function.update p.stage i x }

/-- CPU `i` calls `__print`. -/
def Printer.print (p : Printer n) (i : Fin n) (m : Message) : Printer n :=
  { p.goto i (.called m) with calls := Function.update p.calls i (p.calls i ++ [m]) }

/-- What `panic!` and the checks of the compiler come to. -/
def Panics {α : Type} (x : Except Fault α) : Prop :=
  x = .error .overflow ∨ x = .error .underflow ∨ x = .error .assertion

/-- The steps of CPU `i` in `__print`. -/
inductive Printer.Step (i : Fin n) (p : Printer n) : Printer n → Prop
  | force {m : Message} : p.stage i = .called m → p.uart = .incomplete →
      Printer.Step i p { p.goto i (.forcing m) with uart := .running i }
  | forced {m : Message} {port : UartPort} {ver : UartChipVersion} {chip : Chip} :
      p.stage i = .forcing m → UartPort.new COM1 p.chip = .ok (.ok (port, ver), chip) →
      Printer.Step i p { p.goto i (.called m) with chip := chip, uart := .complete port }
  /-- The `expect` of `UART_COM1` panics. -/
  | failed {m info : Message} {e : String} {chip : Chip} : p.stage i = .forcing m →
      UartPort.new COM1 p.chip = .ok (.error e, chip) →
      Printer.Step i p { p.print i info with chip := chip }
  | deref {m : Message} {port : UartPort} : p.stage i = .called m → p.uart = .complete port →
      Printer.Step i p (p.goto i (.ready m))
  | tryLock {m : Message} : p.stage i = .ready m → p.uartLock = none →
      Printer.Step i p { p.goto i (.line m m) with
        uartLock := some i
        sent := p.sent ++ [(i, m)] }
  /-- `try_lock` is `None`. -/
  | skip {m : Message} : p.stage i = .ready m → p.uartLock ≠ none →
      Printer.Step i p (p.goto i (.waiting m))
  | send {m rest : Message} {piece : String} {port : UartPort} {fuel : Nat} {chip : Chip} :
      p.stage i = .line m (piece :: rest) → p.uart = .complete port →
      port.writeStr fuel piece p.chip = .ok ((), chip) →
      Printer.Step i p { p.goto i (.line m rest) with chip := chip }
  | unlockLine {m : Message} : p.stage i = .line m [] →
      Printer.Step i p { p.goto i (.waiting m) with uartLock := none }
  | lock {m : Message} : p.stage i = .waiting m → p.termLock = none →
      Printer.Step i p { p.goto i (.screen m) with
        termLock := some i
        shown := p.shown ++ [(i, m)] }
  | write {rest : Message} {piece : String} {term : Term1} :
      p.stage i = .screen (piece :: rest) → p.term.writeStr piece = .ok term →
      Printer.Step i p { p.goto i (.screen rest) with term := term }
  /-- `write_str` panics, and `panic_handler` prints. -/
  | panic {rest info : Message} {piece : String} {term : Term1} :
      p.stage i = .screen (piece :: rest) → Panics (p.term.writeStr piece) →
      Printer.Step i p { p.print i info with term := term }
  | unlock : p.stage i = .screen [] → Printer.Step i p { p.goto i .idle with termLock := none }

/-- What happens: a CPU calls `__print`, a CPU in `__print` goes on, or time passes. -/
inductive Printer.Next (p : Printer n) : Printer n → Prop
  | call {i : Fin n} {m : Message} : p.stage i = .idle → Printer.Next p (p.print i m)
  | step {i : Fin n} {p' : Printer n} : p.Step i p' → Printer.Next p p'
  | tick : Printer.Next p { p with chip := p.chip.tick }

/-- The states of the printer. -/
def Printer.Reached (chip : Chip) (term : Term1) (p : Printer n) : Prop :=
  Relation.ReflTransGen Printer.Next (Printer.init n chip term) p

/-- A CPU has panicked in `TERM1`. -/
def Printer.Lost (p : Printer n) : Prop :=
  ∃ i, p.termLock = some i ∧ ∀ j, (p.stage j).screenLeft = none

/-- `write_fmt` of a terminal. -/
def Term1.writeFmt (t : Term1) (pieces : Message) : Except Fault Term1 :=
  pieces.foldlM Term1.writeStr t

end Tauos.Out
