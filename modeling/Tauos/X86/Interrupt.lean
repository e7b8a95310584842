import Tauos.X86.Exceptions
import Tauos.X86.Machine

/-!
# Into a handler and back

What a processor in long mode does at an exception, and `iretq` at level 0. The frame of the
interrupted code goes on a stack that is aligned to 16 bytes, with the error code below it. Which
selectors `iretq` accepts is a parameter: it looks them up in the tables of that time.

> `iretq_continues`: `iretq` goes on with the code that the frame is of.
-/

namespace Tauos.X86

/-- A processor between two instructions. -/
structure Processor where
  state : State
  rip : BitVec 64
  cs : BitVec 16
  ss : BitVec 16
  rflags : BitVec 64

/-- Single steps. -/
def TF : BitVec 64 := 1 <<< 8

/-- Interrupts are not masked. -/
def IF : BitVec 64 := 1 <<< 9

/-- Nested task. -/
def NT : BitVec 64 := 1 <<< 14

/-- No debug breakpoint at the next instruction. -/
def RF : BitVec 64 := 1 <<< 16

/-- Virtual 8086 mode. -/
def VM : BitVec 64 := 1 <<< 17

/-- An exception, with the error code that the processor pushes. -/
structure Exception where
  vector : BitVec 8
  errCode : Option (BitVec 64)
  /-- whether the instruction starts again -/
  fault : Bool
  /-- whether an instruction asks for it -/
  software : Bool

/-- The flags in the frame: a debug breakpoint on an instruction does not stop it again. -/
def Exception.flags (x : Exception) (rflags : BitVec 64) : BitVec 64 :=
  if x.fault then rflags ||| RF else rflags

namespace Processor

/-- The level that it runs at. -/
def cpl (c : Processor) : BitVec 2 := c.cs.extractLsb' 0 2

/-- What is pushed of the interrupted code, the last first. -/
def frame (c : Processor) (flags : BitVec 64) : List (BitVec 64) :=
  [c.rip, c.cs.setWidth 64, flags, c.state.regs .rsp, c.ss.setWidth 64]

/-- `c` at an exception. `stackOf` are the stack pointers in the task state segment, for a level or
for an entry of the interrupt stack table. -/
def raise (stackOf : BitVec 2 → BitVec 3 → BitVec 64) (gdtr idtr : TableReg) (x : Exception)
    (c : Processor) : Except Refused Processor := do
  let target ← deliver c.state.mem gdtr idtr x.software c.cpl x.vector
  let rsp := if target.cpl = c.cpl ∧ target.ist = 0 then c.state.regs .rsp
    else stackOf target.cpl target.ist
  let pushed := x.errCode.toList ++ c.frame (x.flags c.rflags)
  let rflags := c.rflags &&& ~~~(TF ||| NT ||| RF ||| VM)
  return { state := pushed.reverse.foldl State.push (c.state.set .rsp (rsp &&& ~~~0xF))
           rip := target.rip
           cs := target.cs
           ss := if target.cpl = c.cpl then c.ss else target.cpl.setWidth 16
           rflags := if target.masked = true then rflags &&& ~~~IF else rflags }

/-- What `iretq` pops. -/
def popFrame (s : State) : Processor :=
  let word (k : Nat) := s.mem (s.regs .rsp + BitVec.ofNat 64 (8 * k))
  { state := s.set .rsp (word 3)
    rip := word 0
    cs := (word 1).setWidth 16
    ss := (word 4).setWidth 16
    rflags := word 2 }

/-- `iretq` at level 0. It raises an exception on a `cs` and `ss` that it does not accept. -/
def iretq (accepts : BitVec 16 → BitVec 16 → Bool) (s : State) : Option Processor :=
  if accepts (popFrame s).cs (popFrame s).ss = true then some (popFrame s) else none

/-- `c` goes on in `c'`, with other flags and another memory. -/
structure Continues (c : Processor) (flags : BitVec 64) (c' : Processor) : Prop where
  regs : ∀ r, c'.state.regs r = c.state.regs r
  rip : c'.rip = c.rip
  cs : c'.cs = c.cs
  ss : c'.ss = c.ss
  rflags : c'.rflags = flags

/-- The frame of some code is what makes it go on. -/
theorem popFrame_continues {c : Processor} {flags : BitVec 64} {s : State}
    (htop : s.Top (c.frame flags)) (hregs : ∀ r, r ≠ .rsp → s.regs r = c.state.regs r) :
    c.Continues flags (popFrame s) where
  regs r := by
    by_cases hr : r = .rsp
    · subst hr
      exact (State.set_self ..).trans (htop 3 _ rfl)
    · exact (State.set_ne hr).trans (hregs r hr)
  rip := htop 0 _ rfl
  cs := by
    have hcs := htop 1 _ rfl
    show (s.mem (s.regs .rsp + BitVec.ofNat 64 (8 * 1))).setWidth 16 = c.cs
    rw [hcs, BitVec.setWidth_setWidth_of_le _ (by decide), BitVec.setWidth_eq]
  ss := by
    have hss := htop 4 _ rfl
    show (s.mem (s.regs .rsp + BitVec.ofNat 64 (8 * 4))).setWidth 16 = c.ss
    rw [hss, BitVec.setWidth_setWidth_of_le _ (by decide), BitVec.setWidth_eq]
  rflags := htop 2 _ rfl

/-- `iretq` goes back to it if it accepts its segments. -/
theorem iretq_continues {accepts : BitVec 16 → BitVec 16 → Bool} {c : Processor} {flags : BitVec 64}
    {s : State} (haccepts : accepts c.cs c.ss = true) (htop : s.Top (c.frame flags))
    (hregs : ∀ r, r ≠ .rsp → s.regs r = c.state.regs r) :
    ∃ c', iretq accepts s = some c' ∧ c.Continues flags c' := by
  have hcont := popFrame_continues htop hregs
  have hpopped : accepts (popFrame s).cs (popFrame s).ss = true := by
    rw [hcont.cs, hcont.ss]
    exact haccepts
  exact ⟨popFrame s, if_pos hpopped, hcont⟩

end Processor

/-- What is deeper on the stack. -/
theorem State.Top.holds {s : State} {xs ws : List (BitVec 64)} (h : s.Top (xs ++ ws)) :
    Holds s.mem (s.regs .rsp + BitVec.ofNat 64 (8 * xs.length)) ws := by
  intro k w hw
  have hget : (xs ++ ws)[xs.length + k]? = some w := by
    rw [List.getElem?_append_right (by omega), Nat.add_sub_cancel_left]
    exact hw
  have hword := h _ w hget
  rw [Nat.mul_add, BitVec.ofNat_add, ← BitVec.add_assoc] at hword
  exact hword

end Tauos.X86
