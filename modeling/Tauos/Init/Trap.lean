import Tauos.Init.Stubs
import Tauos.Init.SysTables
import Tauos.X86.Interrupt

/-!
# From the interrupted code to a handler and back

The tables of `setup_sys_tables`, the processor and the naked wrappers together: an exception in the
kernel, which runs at level 0.

> `exception_returns`: what the handler gets, and that the interrupted code goes on when it returns.
-/

namespace Tauos.Init

open X86

/-- The wrapper's field in the table. -/
def Handler.isr : Handler → Isr
  | nakedBreakpointTrap => .nakedBreakpointTrapWrapper
  | nakedPageFault => .nakedPageFaultWrapper
  | nakedGeneralProtectionFault => .nakedGeneralProtectionFaultWrapper

/-- The exception that a wrapper is for. -/
def Handler.exception (w : Handler) (err : BitVec 64) : Exception where
  vector := w.isr.vector
  errCode := if w.hasErrCode then some err else none
  -- a breakpoint is a trap that `int3` asks for, the others are faults
  fault := w.hasErrCode
  software := !w.hasErrCode

/-- The padding of the stack below the saved registers. -/
def Handler.padding (w : Handler) : Nat := if w.hasErrCode then 1 else 0

section Called

variable (h : Handler → State → Option State) (ret : BitVec 64) {s : State} {ws : List (BitVec 64)}

/-- The stack in which a wrapper calls its handler: the return address, the padding, the registers
and what was there. -/
def Calls (w : Handler) (code : List (Instr Handler)) (padding : Nat) (s : State)
    (ws : List (BitVec 64)) : Prop :=
  ∃ s₁ rest pad, run h ret code s = .called w s₁ :: rest ∧ pad.length = padding ∧
    s₁.Top ((ret :: pad ++ callerSaved.reverse.map s.regs) ++ ws) ∧
    s₁.regs .rsp = s.regs .rsp - BitVec.ofNat 64 (80 + 8 * padding)

/-- What is on the stack when the registers are saved. -/
theorem pushAll_saved (htop : s.Top ws) (hlen : ws.length ≤ 6) :
    (s.pushAll callerSaved).Top (callerSaved.reverse.map s.regs ++ ws) ∧
      (s.pushAll callerSaved).regs .rsp = s.regs .rsp - 72 ∧
      (callerSaved.reverse.map s.regs ++ ws).length ≤ 15 := by
  have hnine : callerSaved.length = 9 := rfl
  obtain ⟨hp, _, hrsp⟩ := State.pushAll_spec callerSaved rsp_not_callerSaved htop (by omega)
  refine ⟨hp, hrsp, ?_⟩
  rw [List.length_append, List.length_map, List.length_reverse]
  omega

/-- The wrapper without an error code needs no padding. -/
theorem breakpointTrapWrapper_calls (htop : s.Top ws) (hlen : ws.length ≤ 6) :
    Calls h ret .nakedBreakpointTrap nakedBreakpointTrapWrapper 0 s ws := by
  obtain ⟨hp, hrsp, hsaved⟩ := pushAll_saved htop hlen
  let p := s.pushAll callerSaved
  let q := (p.set .rdi (p.regs .rsp)).set .rdi (p.regs .rsp + 0x48)
  have hq : q.Top (callerSaved.reverse.map s.regs ++ ws) := (hp.set (by decide) _).set (by decide) _
  obtain ⟨rest, hrun, _⟩ := run_call h ret .nakedBreakpointTrap
    (callerSaved.reverse.map .pop ++ [.iretq]) q
  refine ⟨q.push ret, rest, [], (run_pushes h ret callerSaved _ s).trans hrun, rfl,
    hq.push (by omega) ret, ?_⟩
  have hqrsp : (q.push ret).regs .rsp = p.regs .rsp - 8 := rfl
  rw [hqrsp, hrsp]
  bv_omega

/-- The others pad, for the error code takes a word. -/
theorem faultWrapper_calls (w : Handler) (errOffset frameOffset : BitVec 64) (htop : s.Top ws)
    (hlen : ws.length ≤ 6) : Calls h ret w (faultWrapper w errOffset frameOffset) 1 s ws := by
  obtain ⟨hp, hrsp, hsaved⟩ := pushAll_saved htop hlen
  let p := s.pushAll callerSaved
  let q := ((p.set .rsi (p.mem (p.regs .rsp + errOffset))).set .rdi (p.regs .rsp)).set .rdi
    (p.regs .rsp + frameOffset)
  have hq : q.Top (callerSaved.reverse.map s.regs ++ ws) :=
    ((hp.set (by decide) _).set (by decide) _).set (by decide) _
  obtain ⟨rest, hrun, _⟩ := run_call h ret w
    (.add .rsp 8 :: (callerSaved.reverse.map .pop ++ [.add .rsp 8, .iretq]))
    (q.set .rsp (q.regs .rsp - 8))
  refine ⟨(q.set .rsp (q.regs .rsp - 8)).push ret, rest, [q.mem (q.regs .rsp - 8)],
    (run_pushes h ret callerSaved _ s).trans hrun, rfl, hq.pad.push ?_ ret, ?_⟩
  · rw [List.length_cons]
    omega
  · have hqrsp : ((q.set .rsp (q.regs .rsp - 8)).push ret).regs .rsp = p.regs .rsp - 8 - 8 := rfl
    rw [hqrsp, hrsp]
    bv_omega

/-- How each wrapper calls its handler. -/
theorem wrapper_calls (w : Handler) (htop : s.Top ws) (hlen : ws.length ≤ 6) :
    Calls h ret w w.wrapper w.padding s ws := by
  cases w with
  | nakedBreakpointTrap => exact breakpointTrapWrapper_calls h ret htop hlen
  | nakedPageFault => exact faultWrapper_calls h ret _ 0x48 0x50 htop hlen
  | nakedGeneralProtectionFault => exact faultWrapper_calls h ret _ 0x40 0x48 htop hlen

/-- What a wrapper gives its handler, and what it restores. -/
theorem wrapper_restores (w : Handler) (f : InterruptStackFrame) (err : BitVec 64) (s : State) :
    ∃ s₁ rest, run h ret w.wrapper (entry w f err s) = .called w s₁ :: rest ∧
      (w ≠ .nakedGeneralProtectionFault →
        s₁.regs .rdi = frameAddr s ∧ (w.hasErrCode → s₁.regs .rsi = err)) ∧
      ∀ s₂, h w s₁ = some s₂ → Returned words s₁ s₂ →
        ∃ s₃, rest = [.returned s₃] ∧ Restored s f s₃ := by
  cases w with
  | nakedBreakpointTrap =>
    obtain ⟨s₁, rest, hrun, hdi, hsi, hback⟩ := breakpointTrap_right h ret f err s
    exact ⟨s₁, rest, hrun, fun _ => ⟨hdi, hsi⟩, hback⟩
  | nakedPageFault =>
    obtain ⟨s₁, rest, hrun, hdi, hsi, hback⟩ := pageFault_right h ret f err s
    exact ⟨s₁, rest, hrun, fun _ => ⟨hdi, hsi⟩, hback⟩
  | nakedGeneralProtectionFault =>
    obtain ⟨s₁, rest, hrun, _, _, hback⟩ := generalProtectionFault_run h ret f err s
    exact ⟨s₁, rest, hrun, fun hne => absurd rfl hne, hback⟩

/-- The stack is aligned as the ABI has it for a call, and the frame is where it is expected. -/
theorem wrapper_aligns (w : Handler) (f : InterruptStackFrame) (err : BitVec 64)
    (hs : (s.regs .rsp).toNat % 16 = 0) :
    ∃ s₁ rest, run h ret w.wrapper (entry w f err s) = .called w s₁ :: rest ∧
      (s₁.regs .rsp + 8).toNat % 16 = 0 ∧ Holds s₁.mem (frameAddr s) f.words := by
  obtain ⟨htop, _, hrsp⟩ := entry_top w f err s
  have hpushed : pushed w f err = List.replicate w.padding err ++ f.words := by cases w <;> rfl
  have hlen : (pushed w f err).length = 5 + w.padding := by cases w <;> rfl
  have hpad : w.padding = 0 ∨ w.padding = 1 := by cases w <;> simp [Handler.padding]
  obtain ⟨s₁, rest, pad, hrun, hpadding, htop₁, hrsp₁⟩ := wrapper_calls h ret w htop (by omega)
  rw [hrsp, hlen] at hrsp₁
  refine ⟨s₁, rest, hrun, ?_, ?_⟩
  · rw [hrsp₁]
    obtain hp | hp := hpad
    · rw [hp]
      bv_omega
    · rw [hp]
      bv_omega
  · rw [hpushed, ← List.append_assoc] at htop₁
    have hframe := htop₁.holds
    rw [hrsp₁] at hframe
    have haddr : s.regs .rsp - BitVec.ofNat 64 (8 * (5 + w.padding)) -
        BitVec.ofNat 64 (80 + 8 * w.padding) + BitVec.ofNat 64 (8 * ((ret :: pad ++
          callerSaved.reverse.map (entry w f err s).regs ++ List.replicate w.padding err).length))
        = frameAddr s := by
      rw [List.length_append, List.length_append, List.length_cons, hpadding, List.length_replicate,
        List.length_map, show callerSaved.reverse.length = 9 from rfl, frameAddr]
      obtain hp | hp := hpad
      · rw [hp]
        bv_omega
      · rw [hp]
        bv_omega
    rw [haddr] at hframe
    exact hframe

end Called

/-- The frame of the interrupted code. -/
def frameOf (c : Processor) (flags : BitVec 64) : InterruptStackFrame :=
  ⟨c.rip, c.cs.setWidth 64, flags, c.state.regs .rsp, c.ss.setWidth 64⟩

/-- The interrupted code's registers, on the stack that the frame goes to. -/
def aligned (c : Processor) : State := c.state.set .rsp (c.state.regs .rsp &&& ~~~0xF)

/-- It is aligned to 16 bytes. -/
theorem aligned_rsp (c : Processor) : ((aligned c).regs .rsp).toNat % 16 = 0 := by
  have hbits : (c.state.regs .rsp &&& ~~~0xF).extractLsb' 0 4 = 0 := by
    rw [BitVec.extractLsb'_and]
    exact BitVec.and_zero
  have hnat := congrArg BitVec.toNat hbits
  rw [BitVec.extractLsb'_toNat, Nat.shiftRight_zero] at hnat
  rw [aligned, State.set_self]
  exact hnat

variable {addr : Isr → Object 1} {tss : Object 104} {gdtBase : Object 48} {idtBase : Object 4096}
  {t : SysTables} {c : Processor}

/-- The processor is at the wrapper's first instruction, with the frame on the stack. -/
theorem raise_eq (h : setupSysTables addr tss gdtBase idtBase = .ok t)
    (hgdt : Holds c.state.mem t.gdtr.base t.gdt)
    (hidt : Holds c.state.mem t.idtr.base (pairWords t.idt.entries)) (hcpl : c.cpl = 0)
    (stackOf : BitVec 2 → BitVec 3 → BitVec 64) (w : Handler) (err : BitVec 64) :
    c.raise stackOf t.gdtr t.idtr (w.exception err) = .ok
      { state := entry w (frameOf c ((w.exception err).flags c.rflags)) err (aligned c)
        rip := (addr w.isr).addr
        cs := 8
        ss := c.ss
        rflags := c.rflags &&& ~~~(TF ||| NT ||| RF ||| VM) &&& ~~~IF } := by
  obtain ⟨_, _, hcs, _⟩ := gdt_eq h
  have hdeliver := deliver_isr h hgdt hidt (w.exception err).software 0 (fun _ => rfl) w.isr
  rw [hcs] at hdeliver
  unfold Processor.raise
  rw [hcpl, show (w.exception err).vector = w.isr.vector from rfl, hdeliver]
  have hpushed : (w.exception err).errCode.toList ++ c.frame ((w.exception err).flags c.rflags)
      = pushed w (frameOf c ((w.exception err).flags c.rflags)) err := by cases w <;> rfl
  rw [hpushed]
  rfl

/-- An exception in the kernel. The handler of the wrapper is called at level 0 with interrupts
masked and on an aligned stack; but for a general protection fault it gets the address of the frame
and the error code. When it returns, the interrupted code goes on, if `iretq` accepts its `cs` and
`ss`. -/
theorem exception_returns (h : setupSysTables addr tss gdtBase idtBase = .ok t)
    (hgdt : Holds c.state.mem t.gdtr.base t.gdt)
    (hidt : Holds c.state.mem t.idtr.base (pairWords t.idt.entries)) (hcpl : c.cpl = 0)
    (stackOf : BitVec 2 → BitVec 3 → BitVec 64) (handler : Handler → State → Option State)
    (ret : BitVec 64) (w : Handler) (err : BitVec 64) (accepts : BitVec 16 → BitVec 16 → Bool)
    (haccepts : accepts c.cs c.ss = true) :
    ∃ c₁ s₁ rest, c.raise stackOf t.gdtr t.idtr (w.exception err) = .ok c₁ ∧
      c₁.rip = (addr w.isr).addr ∧ c₁.cpl = 0 ∧ c₁.rflags &&& IF = 0 ∧
      run handler ret w.wrapper c₁.state = .called w s₁ :: rest ∧
      (s₁.regs .rsp + 8).toNat % 16 = 0 ∧
      (w ≠ .nakedGeneralProtectionFault →
        Holds s₁.mem (s₁.regs .rdi) (c.frame ((w.exception err).flags c.rflags)) ∧
          (w.hasErrCode → s₁.regs .rsi = err)) ∧
      ∀ s₂, handler w s₁ = some s₂ → Returned words s₁ s₂ → ∃ s₃ c', rest = [.returned s₃] ∧
        Processor.iretq accepts s₃ = some c' ∧
        c.Continues ((w.exception err).flags c.rflags) c' := by
  obtain ⟨s₁, rest, hrun, hargs, hback⟩ := wrapper_restores handler ret w
    (frameOf c ((w.exception err).flags c.rflags)) err (aligned c)
  obtain ⟨s₁', rest', hrun', halign, hframe⟩ := wrapper_aligns handler ret w
    (frameOf c ((w.exception err).flags c.rflags)) err (aligned_rsp c)
  cases hrun.symm.trans hrun'
  -- the wrapper starts with what the processor has pushed
  refine ⟨_, s₁, rest, raise_eq h hgdt hidt hcpl stackOf w err, rfl, ?_, ?_, hrun, halign,
    fun hne => ?_, fun s₂ hs₂ hret => ?_⟩
  · show (8 : BitVec 16).extractLsb' 0 2 = 0
    rfl
  · show c.rflags &&& ~~~(TF ||| NT ||| RF ||| VM) &&& ~~~IF &&& IF = 0
    rw [BitVec.and_assoc, show ~~~IF &&& IF = 0 from rfl]
    exact BitVec.and_zero
  · obtain ⟨hdi, hsi⟩ := hargs hne
    rw [hdi]
    exact ⟨hframe, hsi⟩
  · obtain ⟨s₃, hrest, hregs, _, htop⟩ := hback s₂ hs₂ hret
    obtain ⟨c', hiretq, hcont⟩ := Processor.iretq_continues haccepts htop fun r hr =>
      (hregs r hr).trans (State.set_ne hr)
    exact ⟨s₃, c', hrest, hiretq, hcont⟩

/-- A handler that returns at once. -/
def returns (s : State) : State := s.set .rsp (s.regs .rsp + 8)

/-- It keeps to the ABI. -/
theorem returned_returns (n : Nat) (s : State) : Returned n s (returns s) where
  regs _ _ hr := State.set_ne hr
  rsp := State.set_self ..
  top _ _ _ htop := htop.drop

/-- `int3` with interrupts on, right in front of 0x101000; `iretq` accepts the kernel's code segment
with no stack segment. -/
theorem exception_returns_int3 : ∃ (t : SysTables) (c c₁ c' : Processor) (s₁ s₃ : State),
    c.rip = 0x101000 ∧ c.rflags = 0x202 ∧
    c.raise (fun _ _ => 0) t.gdtr t.idtr (Handler.nakedBreakpointTrap.exception 0) = .ok c₁ ∧
      run (fun _ s => some (returns s)) 0 nakedBreakpointTrapWrapper c₁.state
        = [.called .nakedBreakpointTrap s₁, .returned s₃] ∧
      Processor.iretq (fun cs ss => cs == 8 && ss == 0) s₃ = some c' ∧ c.Continues 0x202 c' := by
  obtain ⟨t, mem, h, hgdt, hidt⟩ := tables_in_pages fun _ => lowObject _ 0x100000 (by decide)
  let c : Processor := ⟨⟨fun _ => 0x8000, mem⟩, 0x101000, 8, 0, 0x202⟩
  have hcpl : (8 : BitVec 16).extractLsb' 0 2 = 0 := by decide
  obtain ⟨c₁, s₁, rest, hraise, _, _, _, hrun, _, _, hback⟩ := exception_returns (c := c) h hgdt
    hidt hcpl (fun _ _ => 0) (fun _ s => some (returns s)) 0 .nakedBreakpointTrap 0
    (fun cs ss => cs == 8 && ss == 0) rfl
  obtain ⟨s₃, c', hrest, hiretq, hcont⟩ := hback _ rfl (returned_returns _ _)
  rw [hrest] at hrun
  exact ⟨t, c, c₁, c', s₁, s₃, rfl, rfl, hraise, hrun, hiretq, hcont⟩

end Tauos.Init
