import Tauos.X86.Machine

/-!
# Interrupt entry stubs

The three naked wrappers of the interrupt descriptor table, instruction by instruction, run from
what the processor leaves on the stack: the frame of the interrupted code, and an error code below
it for a page fault and for a general protection fault.

A wrapper is right when its handler gets the address of the frame and the error code, and when,
should the handler return, every register is what it was and `iretq` finds the frame:

> `right_iff`: this holds of the wrappers other than that of the general protection fault, which
> counts one word less than it pushed.

Its handler is given the address of the error code for the frame and the `rax` of the interrupted
code for the error code; what it restores is right (`generalProtectionFault_run`).
-/

namespace Tauos.Init

open X86

/-- `InterruptStackFrame`: what the processor pushes. -/
structure InterruptStackFrame where
  rip : BitVec 64
  cs : BitVec 64
  rflags : BitVec 64
  rsp : BitVec 64
  ss : BitVec 64

def InterruptStackFrame.words (f : InterruptStackFrame) : List (BitVec 64) :=
  [f.rip, f.cs, f.rflags, f.rsp, f.ss]

/-- The functions that wrappers call. -/
inductive Handler
  | nakedBreakpointTrap
  | nakedPageFault
  | nakedGeneralProtectionFault
  deriving DecidableEq, Repr

/-- The wrapper of a handler without an error code. -/
def nakedBreakpointTrapWrapper : List (Instr Handler) :=
  [.push .rax, .push .rcx, .push .rdx, .push .rsi, .push .rdi, .push .r8, .push .r9, .push .r10,
    .push .r11,
    .mov .rdi .rsp,
    .add .rdi 0x48,
    .call .nakedBreakpointTrap,
    .pop .r11, .pop .r10, .pop .r9, .pop .r8, .pop .rdi, .pop .rsi, .pop .rdx, .pop .rcx, .pop .rax,
    .iretq]

/-- The wrapper of a handler with an error code: it is taken off the stack before the frame. -/
def nakedPageFaultWrapper : List (Instr Handler) :=
  [.push .rax, .push .rcx, .push .rdx, .push .rsi, .push .rdi, .push .r8, .push .r9, .push .r10,
    .push .r11,
    .load .rsi .rsp 0x48,
    .mov .rdi .rsp,
    .add .rdi 0x50,
    .sub .rsp 8,
    .call .nakedPageFault,
    .add .rsp 8,
    .pop .r11, .pop .r10, .pop .r9, .pop .r8, .pop .rdi, .pop .rsi, .pop .rdx, .pop .rcx, .pop .rax,
    .add .rsp 8,
    .iretq]

/-- The same, but the offsets into the stack are those of one register less. -/
def nakedGeneralProtectionFaultWrapper : List (Instr Handler) :=
  [.push .rax, .push .rcx, .push .rdx, .push .rsi, .push .rdi, .push .r8, .push .r9, .push .r10,
    .push .r11,
    .load .rsi .rsp 0x40,
    .mov .rdi .rsp,
    .add .rdi 0x48,
    .sub .rsp 8,
    .call .nakedGeneralProtectionFault,
    .add .rsp 8,
    .pop .r11, .pop .r10, .pop .r9, .pop .r8, .pop .rdi, .pop .rsi, .pop .rdx, .pop .rcx, .pop .rax,
    .add .rsp 8,
    .iretq]

namespace Handler

/-- The wrapper of each handler. -/
def wrapper : Handler → List (Instr Handler)
  | nakedBreakpointTrap => nakedBreakpointTrapWrapper
  | nakedPageFault => nakedPageFaultWrapper
  | nakedGeneralProtectionFault => nakedGeneralProtectionFaultWrapper

/-- Whether the processor pushes an error code for the interrupt. -/
def hasErrCode : Handler → Bool
  | nakedBreakpointTrap => false
  | _ => true

end Handler

/-- What the processor pushes, the last first. -/
def pushed (w : Handler) (f : InterruptStackFrame) (err : BitVec 64) : List (BitVec 64) :=
  if w.hasErrCode then err :: f.words else f.words

/-- The state in which a wrapper starts, from that of the interrupted code. -/
def entry (w : Handler) (f : InterruptStackFrame) (err : BitVec 64) (s : State) : State :=
  (pushed w f err).reverse.foldl State.push s

/-- The address of the frame, which has five words. -/
def frameAddr (s : State) : BitVec 64 := s.regs .rsp - 40

/-- The most words on the stack when a handler is entered: nine registers, the padding, an error
code and the frame. -/
def words : Nat := 16

/-- `iretq` with the frame on the stack and the other registers as before. -/
def Restored (s : State) (f : InterruptStackFrame) (s' : State) : Prop :=
  (∀ r, r ≠ .rsp → s'.regs r = s.regs r) ∧ s'.regs .rsp = frameAddr s ∧ s'.Top f.words

/-- The wrapper calls its handler with the right arguments, and restores the right state should
it return. -/
def Right (h : Handler → State → Option State) (ret : BitVec 64) (w : Handler)
    (f : InterruptStackFrame) (err : BitVec 64) (s : State) : Prop :=
  ∃ s₁ rest, run h ret w.wrapper (entry w f err s) = .called w s₁ :: rest ∧
    s₁.regs .rdi = frameAddr s ∧ (w.hasErrCode → s₁.regs .rsi = err) ∧
    ∀ s₂, h w s₁ = some s₂ → Returned words s₁ s₂ →
      ∃ s₃, rest = [.returned s₃] ∧ Restored s f s₃

/-! ## The stack at the start -/

/-- On entry the stack holds the error code, if there is one, and the frame. -/
theorem entry_top (w : Handler) (f : InterruptStackFrame) (err : BitVec 64) (s : State) :
    (entry w f err s).Top (pushed w f err) ∧
      (∀ r, r ≠ .rsp → (entry w f err s).regs r = s.regs r) ∧
      (entry w f err s).regs .rsp =
        s.regs .rsp - BitVec.ofNat 64 (8 * (pushed w f err).length) := by
  have hlen : (pushed w f err).length ≤ 6 := by
    cases w <;> simp [pushed, InterruptStackFrame.words, Handler.hasErrCode]
  have hnil : s.Top [] := fun k v hv => by simp at hv
  have hspec := State.pushes_spec (pushed w f err).reverse hnil
    (by rw [List.length_reverse, List.length_nil]; omega)
  rw [List.reverse_reverse, List.append_nil, List.length_reverse] at hspec
  exact hspec

theorem rsp_not_callerSaved : Reg.rsp ∉ callerSaved := by decide

/-- The pops of a wrapper give every register its value back. -/
theorem popAll_restores {v : Reg → BitVec 64} {s : State} {ws : List (BitVec 64)}
    (htop : s.Top (callerSaved.reverse.map v ++ ws))
    (hregs : ∀ r, r ∉ callerSaved → r ≠ .rsp → s.regs r = v r) :
    (s.popAll callerSaved.reverse).Top ws ∧
      (∀ r, r ≠ .rsp → (s.popAll callerSaved.reverse).regs r = v r) ∧
      (s.popAll callerSaved.reverse).regs .rsp = s.regs .rsp + 72 := by
  obtain ⟨hws, hin, hout, hrsp⟩ := State.popAll_spec v callerSaved.reverse
    (fun h => rsp_not_callerSaved (List.mem_reverse.mp h)) htop
  refine ⟨hws, fun r hr => ?_, hrsp⟩
  by_cases hmem : r ∈ callerSaved
  · exact hin r (List.mem_reverse.mpr hmem)
  · exact (hout r (fun h => hmem (List.mem_reverse.mp h)) hr).trans (hregs r hmem hr)

/-! ## Interrupts with an error code -/

/-- The wrapper of an interrupt with an error code, by the offsets it counts with. -/
def faultWrapper (w : Handler) (errOffset frameOffset : BitVec 64) : List (Instr Handler) :=
  callerSaved.map .push ++
    ([.load .rsi .rsp errOffset, .mov .rdi .rsp, .add .rdi frameOffset, .sub .rsp 8, .call w,
      .add .rsp 8] ++ (callerSaved.reverse.map .pop ++ [.add .rsp 8, .iretq]))

theorem nakedPageFaultWrapper_eq : nakedPageFaultWrapper = faultWrapper .nakedPageFault 0x48 0x50 :=
  rfl

theorem nakedGeneralProtectionFaultWrapper_eq : nakedGeneralProtectionFaultWrapper =
    faultWrapper .nakedGeneralProtectionFault 0x40 0x48 :=
  rfl

section Run

variable (h : Handler → State → Option State) (ret : BitVec 64)

theorem faultWrapper_run (w : Handler) (errOffset frameOffset : BitVec 64) {s : State}
    {err : BitVec 64} {ws : List (BitVec 64)} (htop : s.Top (err :: ws)) (hlen : ws.length ≤ 5) :
    ∃ s₁ rest, run h ret (faultWrapper w errOffset frameOffset) s = .called w s₁ :: rest ∧
      s₁.regs .rdi = s.regs .rsp - 72 + frameOffset ∧
      s₁.regs .rsi = (s.pushAll callerSaved).mem (s.regs .rsp - 72 + errOffset) ∧
      ∀ s₂, h w s₁ = some s₂ → Returned words s₁ s₂ →
        ∃ s₃, rest = [.returned s₃] ∧ (∀ r, r ≠ .rsp → s₃.regs r = s.regs r) ∧
          s₃.regs .rsp = s.regs .rsp + 8 ∧ s₃.Top ws := by
  obtain ⟨hp, hregs, hrsp⟩ := State.pushAll_spec callerSaved rsp_not_callerSaved htop
    (by rw [List.length_cons, show callerSaved.length = 9 from rfl]; omega)
  generalize hps : s.pushAll callerSaved = p at hp hregs hrsp ⊢
  replace hrsp : p.regs .rsp = s.regs .rsp - 72 := hrsp
  -- the state with the arguments in their registers
  let q := ((p.set .rsi (p.mem (p.regs .rsp + errOffset))).set .rdi (p.regs .rsp)).set .rdi
    (p.regs .rsp + frameOffset)
  have hq : q.Top (callerSaved.reverse.map s.regs ++ err :: ws) :=
    ((hp.set (by decide) _).set (by decide) _).set (by decide) _
  have hqs : ∀ r, r ∉ callerSaved → r ≠ .rsp → q.regs r = s.regs r := by
    intro r hr hsp
    have hdi : r ≠ .rdi := fun he => hr (he ▸ by decide)
    have hsi : r ≠ .rsi := fun he => hr (he ▸ by decide)
    exact (((State.set_ne hdi).trans (State.set_ne hdi)).trans (State.set_ne hsi)).trans
      (hregs r hsp)
  have hqrsp : q.regs .rsp = s.regs .rsp - 72 := hrsp
  obtain ⟨rest, hrun, hrest⟩ := run_call h ret w
    (.add .rsp 8 :: (callerSaved.reverse.map .pop ++ [.add .rsp 8, .iretq]))
    (q.set .rsp (q.regs .rsp - 8))
  refine ⟨(q.set .rsp (q.regs .rsp - 8)).push ret, rest, ?_, ?_, ?_, ?_⟩
  · refine (run_pushes h ret callerSaved _ s).trans ?_
    rw [hps]
    exact hrun
  · rw [← hrsp]
    rfl
  · rw [← hrsp]
    rfl
  · intro s₂ hs₂ hret
    obtain ⟨ht₂, hrsp₂, hregs₂⟩ := State.Top.call hq.pad
      (by simp [callerSaved, words]; omega) (by decide) hret
    obtain ⟨ht₃, hregs₃, hrsp₃⟩ := popAll_restores ht₂.drop fun r hr hsp =>
      (State.set_ne hsp).trans ((hregs₂ r hr hsp).trans ((State.set_ne hsp).trans (hqs r hr hsp)))
    refine ⟨_, ?_, fun r hr => (State.set_ne hr).trans (hregs₃ r hr), ?_, ht₃.drop⟩
    · rw [hrest s₂ hs₂]
      exact (run_pops h ret callerSaved.reverse [.add .rsp 8, .iretq] _).trans rfl
    · rw [State.set_self, hrsp₃, State.set_self, hrsp₂, State.set_self, hqrsp]
      bv_omega

/-! ## Interrupts without an error code -/

theorem breakpointTrapWrapper_run {s : State} {ws : List (BitVec 64)} (htop : s.Top ws)
    (hlen : ws.length ≤ 5) :
    ∃ s₁ rest, run h ret nakedBreakpointTrapWrapper s = .called .nakedBreakpointTrap s₁ :: rest ∧
      s₁.regs .rdi = s.regs .rsp ∧
      ∀ s₂, h .nakedBreakpointTrap s₁ = some s₂ → Returned words s₁ s₂ →
        ∃ s₃, rest = [.returned s₃] ∧ (∀ r, r ≠ .rsp → s₃.regs r = s.regs r) ∧
          s₃.regs .rsp = s.regs .rsp ∧ s₃.Top ws := by
  obtain ⟨hp, hregs, hrsp⟩ := State.pushAll_spec callerSaved rsp_not_callerSaved htop
    (by rw [show callerSaved.length = 9 from rfl]; omega)
  generalize hps : s.pushAll callerSaved = p at hp hregs hrsp
  replace hrsp : p.regs .rsp = s.regs .rsp - 72 := hrsp
  -- nine registers are saved, and `rdi` is set to the frame above them
  let q := (p.set .rdi (p.regs .rsp)).set .rdi (p.regs .rsp + 0x48)
  have hq : q.Top (callerSaved.reverse.map s.regs ++ ws) := (hp.set (by decide) _).set (by decide) _
  have hqs : ∀ r, r ∉ callerSaved → r ≠ .rsp → q.regs r = s.regs r := by
    intro r hr hsp
    have hdi : r ≠ .rdi := fun he => hr (he ▸ by decide)
    exact ((State.set_ne hdi).trans (State.set_ne hdi)).trans (hregs r hsp)
  have hqrsp : q.regs .rsp = s.regs .rsp - 72 := hrsp
  obtain ⟨rest, hrun, hrest⟩ := run_call h ret .nakedBreakpointTrap
    (callerSaved.reverse.map .pop ++ [.iretq]) q
  refine ⟨q.push ret, rest, ?_, ?_, ?_⟩
  · refine (run_pushes h ret callerSaved _ s).trans ?_
    rw [hps]
    exact hrun
  · have hdi : (q.push ret).regs .rdi = p.regs .rsp + 0x48 := rfl
    rw [hdi, hrsp]
    bv_omega
  · intro s₂ hs₂ hret
    obtain ⟨ht₂, hrsp₂, hregs₂⟩ := State.Top.call hq
      (by simp [callerSaved, words]; omega) (by decide) hret
    obtain ⟨ht₃, hregs₃, hrsp₃⟩ := popAll_restores ht₂ fun r hr hsp =>
      (hregs₂ r hr hsp).trans (hqs r hr hsp)
    refine ⟨_, ?_, hregs₃, ?_, ht₃⟩
    · rw [hrest s₂ hs₂]
      exact (run_pops h ret callerSaved.reverse [.iretq] _).trans rfl
    · rw [hrsp₃, hrsp₂, hqrsp]
      bv_omega

/-! ## The three wrappers -/

variable (f : InterruptStackFrame) (err : BitVec 64) (s : State)

/-- The wrapper of the breakpoint handler is always right. -/
theorem breakpointTrap_right : Right h ret .nakedBreakpointTrap f err s := by
  obtain ⟨htop, hregs, hrsp⟩ := entry_top .nakedBreakpointTrap f err s
  obtain ⟨s₁, rest, hrun, hdi, hback⟩ := breakpointTrapWrapper_run h ret htop (Nat.le_refl 5)
  refine ⟨s₁, rest, hrun, hdi.trans hrsp, (nomatch ·), fun s₂ hs₂ hret => ?_⟩
  obtain ⟨s₃, hrest, hr, hsp, htop₃⟩ := hback s₂ hs₂ hret
  exact ⟨s₃, hrest, fun r hne => (hr r hne).trans (hregs r hne), hsp.trans hrsp, htop₃⟩

/-- What a wrapper that counts on an error code does. -/
theorem fault_run (w : Handler) (hw : w.hasErrCode) (errOffset frameOffset : BitVec 64) :
    ∃ s₁ rest,
      run h ret (faultWrapper w errOffset frameOffset) (entry w f err s) = .called w s₁ :: rest ∧
      s₁.regs .rdi = s.regs .rsp - 120 + frameOffset ∧
      s₁.regs .rsi =
        ((entry w f err s).pushAll callerSaved).mem (s.regs .rsp - 120 + errOffset) ∧
      ∀ s₂, h w s₁ = some s₂ → Returned words s₁ s₂ →
        ∃ s₃, rest = [.returned s₃] ∧ Restored s f s₃ := by
  obtain ⟨htop, hregs, hrsp⟩ := entry_top w f err s
  rw [pushed, if_pos hw] at htop hrsp
  obtain ⟨s₁, rest, hrun, hdi, hsi, hback⟩ :=
    faultWrapper_run h ret w errOffset frameOffset htop (Nat.le_refl 5)
  have hbase : (entry w f err s).regs .rsp - 72 = s.regs .rsp - 120 := by
    rw [hrsp, show (err :: f.words).length = 6 from rfl]
    bv_omega
  rw [hbase] at hdi hsi
  refine ⟨s₁, rest, hrun, hdi, hsi, fun s₂ hs₂ hret => ?_⟩
  obtain ⟨s₃, hrest, hr, hsp, htop₃⟩ := hback s₂ hs₂ hret
  refine ⟨s₃, hrest, fun r hne => (hr r hne).trans (hregs r hne), ?_, htop₃⟩
  rw [hsp, hrsp, show (err :: f.words).length = 6 from rfl, frameAddr]
  bv_omega

/-- What a wrapper finds on the stack after its pushes. -/
theorem pushAll_entry_mem (w : Handler) (hw : w.hasErrCode) {k : Nat} {v : BitVec 64}
    (hv : (callerSaved.reverse.map s.regs ++ err :: f.words)[k]? = some v) :
    ((entry w f err s).pushAll callerSaved).mem
      (s.regs .rsp - 120 + BitVec.ofNat 64 (8 * k)) = v := by
  obtain ⟨htop, hregs, hrsp⟩ := entry_top w f err s
  rw [pushed, if_pos hw] at htop hrsp
  obtain ⟨hp, _, hprsp⟩ := State.pushAll_spec callerSaved rsp_not_callerSaved htop
    (by rw [show (err :: f.words).length = 6 from rfl]; decide)
  have hmap : callerSaved.reverse.map (entry w f err s).regs = callerSaved.reverse.map s.regs :=
    List.map_congr_left fun r hr =>
      hregs r fun he => rsp_not_callerSaved (List.mem_reverse.mp (he ▸ hr))
  rw [hmap] at hp
  have hbase : ((entry w f err s).pushAll callerSaved).regs .rsp = s.regs .rsp - 120 := by
    rw [hprsp, hrsp, show (err :: f.words).length = 6 from rfl,
      show callerSaved.length = 9 from rfl]
    bv_omega
  rw [← hbase]
  exact hp k v hv

/-- The wrapper of the page fault handler is always right. -/
theorem pageFault_right : Right h ret .nakedPageFault f err s := by
  obtain ⟨s₁, rest, hrun, hdi, hsi, hback⟩ := fault_run h ret f err s .nakedPageFault rfl 0x48 0x50
  rw [← nakedPageFaultWrapper_eq] at hrun
  refine ⟨s₁, rest, hrun, ?_, fun _ => ?_, hback⟩
  · rw [hdi, frameAddr]
    bv_omega
  · exact hsi.trans (pushAll_entry_mem f err s .nakedPageFault rfl (k := 9) rfl)

/-- The handler of a general protection fault is given the address of the error code, and the `rax`
of the interrupted code for the error code. -/
theorem generalProtectionFault_run :
    ∃ s₁ rest, run h ret nakedGeneralProtectionFaultWrapper
        (entry .nakedGeneralProtectionFault f err s) =
        .called .nakedGeneralProtectionFault s₁ :: rest ∧
      s₁.regs .rdi = frameAddr s - 8 ∧ s₁.regs .rsi = s.regs .rax ∧
      ∀ s₂, h .nakedGeneralProtectionFault s₁ = some s₂ → Returned words s₁ s₂ →
        ∃ s₃, rest = [.returned s₃] ∧ Restored s f s₃ := by
  obtain ⟨s₁, rest, hrun, hdi, hsi, hback⟩ :=
    fault_run h ret f err s .nakedGeneralProtectionFault rfl 0x40 0x48
  rw [← nakedGeneralProtectionFaultWrapper_eq] at hrun
  refine ⟨s₁, rest, hrun, ?_, ?_, hback⟩
  · rw [hdi, frameAddr]
    bv_omega
  · exact hsi.trans (pushAll_entry_mem f err s .nakedGeneralProtectionFault rfl (k := 8) rfl)

/-- A wrapper is right in every state, or it is that of the general protection fault and right in
none. -/
theorem right_iff (w : Handler) :
    Right h ret w f err s ↔ w ≠ .nakedGeneralProtectionFault := by
  cases w with
  | nakedBreakpointTrap => exact iff_of_true (breakpointTrap_right h ret f err s) nofun
  | nakedPageFault => exact iff_of_true (pageFault_right h ret f err s) nofun
  | nakedGeneralProtectionFault =>
    refine iff_of_false ?_ (fun hne => hne rfl)
    intro ⟨s₁, rest, hrun, hdi, _⟩
    obtain ⟨s₁', rest', hrun', hdi', _⟩ := generalProtectionFault_run h ret f err s
    cases hrun.symm.trans hrun'
    rw [hdi] at hdi'
    bv_omega

end Run

/-- A general protection fault with error code 0 in a state of zeros but for a stack pointer of
4096: the handler gets 4048 for the address of a frame that is at 4056. -/
theorem generalProtectionFault_not_right :
    ¬ Right (fun _ _ => none) 0 .nakedGeneralProtectionFault ⟨0, 0, 0, 0, 0⟩ 0
      { regs := fun r => if r = .rsp then 4096 else 0, mem := fun _ => 0 } := by
  intro ⟨s₁, rest, hrun, hdi, _⟩
  cases hrun
  revert hdi
  decide

end Tauos.Init
