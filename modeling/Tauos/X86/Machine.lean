import Mathlib.Algebra.Ring.Nat
import Mathlib.Data.List.Basic

/-!
# A machine of registers and a stack

The general registers and the memory of an x86-64 processor, and the instructions that a stub
around a call is made of. Memory is seen by the 8-byte words at addresses; every access of a stub
is a multiple of 8 away from `rsp`, so that no two words overlap.

`State.Top s ws` says that `ws` are the words on the stack from `rsp` on. Instructions that move
`rsp` have a rule for it each (`Top.push`, `Top.pop`, ...), and a series of pushes or of pops
as well:

> `pushAll_spec`, `popAll_spec`: what they leave on the stack and in the registers.
-/

namespace Tauos.X86

/-- The general registers. -/
inductive Reg
  | rax | rcx | rdx | rbx | rsp | rbp | rsi | rdi
  | r8 | r9 | r10 | r11 | r12 | r13 | r14 | r15
  deriving DecidableEq, Repr

/-- The registers, and memory by words. -/
structure State where
  regs : Reg → BitVec 64
  /-- the word at an address -/
  mem : BitVec 64 → BitVec 64

namespace State

/-- One register is written. -/
def set (s : State) (r : Reg) (v : BitVec 64) : State :=
  { s with regs := fun r' => if r' = r then v else s.regs r' }

/-- `push` of a value. -/
def push (s : State) (v : BitVec 64) : State :=
  { regs := (s.set .rsp (s.regs .rsp - 8)).regs
    mem := fun a => if a = s.regs .rsp - 8 then v else s.mem a }

/-- `pop` to a register. -/
def pop (s : State) (r : Reg) : State :=
  (s.set .rsp (s.regs .rsp + 8)).set r (s.mem (s.regs .rsp))

/-- Several pushes. -/
def pushAll (s : State) (rs : List Reg) : State := rs.foldl (fun s r => s.push (s.regs r)) s

/-- Several pops. -/
def popAll (s : State) (rs : List Reg) : State := rs.foldl pop s

/-- The words on the stack, the last pushed first. -/
def Top (s : State) (ws : List (BitVec 64)) : Prop :=
  ∀ k w, ws[k]? = some w → s.mem (s.regs .rsp + BitVec.ofNat 64 (8 * k)) = w

end State

/-- The registers that a function of the System V ABI may change. -/
def callerSaved : List Reg := [.rax, .rcx, .rdx, .rsi, .rdi, .r8, .r9, .r10, .r11]

/-- A function entered in `s`, with its return address on the stack, returned in `s'`, and nothing
changed but caller-saved registers and what is not among the `n` words its caller has there. -/
structure Returned (n : Nat) (s s' : State) : Prop where
  regs : ∀ r, r ∉ callerSaved → r ≠ .rsp → s'.regs r = s.regs r
  rsp : s'.regs .rsp = s.regs .rsp + 8
  top : ∀ (w : BitVec 64) (ws : List (BitVec 64)), ws.length ≤ n → s.Top (w :: ws) → s'.Top ws

/-- Instructions, with the functions that can be called. -/
inductive Instr (F : Type)
  | push (r : Reg)
  | pop (r : Reg)
  | mov (dst src : Reg)
  /-- `mov dst, [base+disp]` -/
  | load (dst base : Reg) (disp : BitVec 64)
  | add (dst : Reg) (imm : BitVec 64)
  | sub (dst : Reg) (imm : BitVec 64)
  | call (f : F)
  | iretq
  deriving DecidableEq, Repr

/-- What is seen of a run. -/
inductive Event (F : Type)
  /-- a function is entered -/
  | called (f : F) (s : State)
  /-- `iretq` is executed -/
  | returned (s : State)

section Run

variable {F : Type} (h : F → State → Option State) (ret : BitVec 64)

/-- A run of straight code. `h` is the state in which a function that is entered returns, if it
does, and `ret` the return address of the call. -/
def run : List (Instr F) → State → List (Event F)
  | [], _ => []
  | .push r :: is, s => run is (s.push (s.regs r))
  | .pop r :: is, s => run is (s.pop r)
  | .mov dst src :: is, s => run is (s.set dst (s.regs src))
  | .load dst base disp :: is, s => run is (s.set dst (s.mem (s.regs base + disp)))
  | .add dst imm :: is, s => run is (s.set dst (s.regs dst + imm))
  | .sub dst imm :: is, s => run is (s.set dst (s.regs dst - imm))
  | .call f :: is, s =>
    .called f (s.push ret) :: match h f (s.push ret) with
      | some s => run is s
      | none => []
  | .iretq :: _, s => [.returned s]

/-- Pushes run one after the other. -/
theorem run_pushes (rs : List Reg) (is : List (Instr F)) (s : State) :
    run h ret (rs.map .push ++ is) s = run h ret is (s.pushAll rs) := by
  induction rs generalizing s with
  | nil => rfl
  | cons r rs ih => exact ih _

/-- So do pops. -/
theorem run_pops (rs : List Reg) (is : List (Instr F)) (s : State) :
    run h ret (rs.map .pop ++ is) s = run h ret is (s.popAll rs) := by
  induction rs generalizing s with
  | nil => rfl
  | cons r rs ih => exact ih _

/-- A call is seen, and the code after it runs when the function returns. -/
theorem run_call (f : F) (is : List (Instr F)) (s : State) :
    ∃ rest, run h ret (.call f :: is) s = .called f (s.push ret) :: rest ∧
      ∀ s₂, h f (s.push ret) = some s₂ → rest = run h ret is s₂ := by
  refine ⟨_, rfl, fun s₂ hs₂ => ?_⟩
  rw [hs₂]

end Run

namespace State

variable {s : State} {r r' : Reg} {v w : BitVec 64} {ws : List (BitVec 64)}

/-- The register that was written. -/
@[simp]
theorem set_self (s : State) (r : Reg) (v : BitVec 64) : (s.set r v).regs r = v := if_pos rfl

/-- Another register stays. -/
theorem set_ne (h : r' ≠ r) : (s.set r v).regs r' = s.regs r' := if_neg h

/-- `push` moves the stack pointer down. -/
theorem push_rsp (s : State) (v : BitVec 64) : (s.push v).regs .rsp = s.regs .rsp - 8 :=
  set_self s .rsp _

/-- It leaves the other registers alone. -/
theorem push_ne (h : r ≠ .rsp) : (s.push v).regs r = s.regs r := set_ne h

/-- `pop` moves the stack pointer up. -/
theorem pop_rsp (h : r ≠ .rsp) : (s.pop r).regs .rsp = s.regs .rsp + 8 :=
  (set_ne h.symm).trans (set_self ..)

/-- It leaves the other registers alone. -/
theorem pop_ne (h : r' ≠ r) (hsp : r' ≠ .rsp) : (s.pop r).regs r' = s.regs r' :=
  (set_ne h).trans (set_ne hsp)

/-! ## The stack -/

/-- The words above a push. -/
theorem addr_below (a : BitVec 64) (k : Nat) :
    a - 8 + BitVec.ofNat 64 (8 * (k + 1)) = a + BitVec.ofNat 64 (8 * k) := by
  bv_omega

/-- The words above a pop. -/
theorem addr_above (a : BitVec 64) (k : Nat) :
    a + 8 + BitVec.ofNat 64 (8 * k) = a + BitVec.ofNat 64 (8 * (k + 1)) := by
  bv_omega

/-- The stack is not so large that it comes back to where it is pushed. -/
theorem addr_ne (a : BitVec 64) {k : Nat} (hk : k < 2 ^ 60) :
    a + BitVec.ofNat 64 (8 * k) ≠ a - 8 := by
  bv_omega

/-- The value is on top. -/
theorem Top.push (h : s.Top ws) (hlen : ws.length < 2 ^ 60) (v : BitVec 64) :
    (s.push v).Top (v :: ws) := by
  intro k w hw
  rw [push_rsp]
  cases k with
  | zero =>
    cases hw
    exact if_pos (BitVec.add_zero _)
  | succ k =>
    rw [List.getElem?_cons_succ] at hw
    have hk := (List.getElem?_eq_some_iff.mp hw).1
    rw [addr_below]
    exact (if_neg (addr_ne _ (by omega))).trans (h k w hw)

/-- `rsp` goes up by a word. -/
theorem Top.drop (h : s.Top (w :: ws)) : (s.set .rsp (s.regs .rsp + 8)).Top ws := by
  intro k w' hw
  rw [set_self, addr_above]
  exact h (k + 1) w' hw

/-- `rsp` goes down by a word, whatever that is. -/
theorem Top.pad (h : s.Top ws) :
    (s.set .rsp (s.regs .rsp - 8)).Top (s.mem (s.regs .rsp - 8) :: ws) := by
  intro k w hw
  rw [set_self]
  cases k with
  | zero =>
    cases hw
    exact congrArg s.mem (BitVec.add_zero _)
  | succ k =>
    rw [addr_below]
    exact h k w hw

/-- The stack does not depend on another register. -/
theorem Top.set (h : s.Top ws) (hr : r ≠ .rsp) (v : BitVec 64) : (s.set r v).Top ws := by
  intro k w hw
  rw [set_ne hr.symm]
  exact h k w hw

/-- What the caller has on the stack is there after a call. -/
theorem Top.call {n : Nat} {s₂ : State} (h : s.Top ws) (hlen : ws.length ≤ n) (hn : n < 2 ^ 60)
    {ret : BitVec 64} (hret : Returned n (s.push ret) s₂) :
    s₂.Top ws ∧ s₂.regs .rsp = s.regs .rsp ∧
      ∀ r, r ∉ callerSaved → r ≠ .rsp → s₂.regs r = s.regs r := by
  refine ⟨hret.top ret ws hlen (h.push (by omega) ret), ?_, fun r hr hsp => ?_⟩
  · rw [hret.rsp, push_rsp, BitVec.sub_add_cancel]
  · exact (hret.regs r hr hsp).trans (push_ne hsp)

/-- The word on top goes to the register. -/
theorem Top.pop (h : s.Top (w :: ws)) (hr : r ≠ .rsp) :
    (s.pop r).Top ws ∧ (s.pop r).regs r = w := by
  refine ⟨h.drop.set hr _, ?_⟩
  have hw := h 0 w rfl
  rw [show s.regs .rsp + BitVec.ofNat 64 (8 * 0) = s.regs .rsp from BitVec.add_zero _] at hw
  exact (set_self ..).trans hw

/-- Pushed words are on the stack, the last one first. -/
theorem pushes_spec : ∀ (vs : List (BitVec 64)) {s : State} {ws : List (BitVec 64)}, s.Top ws →
    vs.length + ws.length < 2 ^ 60 →
    (vs.foldl State.push s).Top (vs.reverse ++ ws) ∧
      (∀ r, r ≠ .rsp → (vs.foldl State.push s).regs r = s.regs r) ∧
      (vs.foldl State.push s).regs .rsp = s.regs .rsp - BitVec.ofNat 64 (8 * vs.length) := by
  intro vs
  induction vs with
  | nil =>
    intro s ws h _
    exact ⟨h, fun _ _ => rfl, (BitVec.sub_zero _).symm⟩
  | cons v vs ih =>
    intro s ws h hlen
    rw [List.length_cons] at hlen
    obtain ⟨htop, hregs, hrsp⟩ := ih (h.push (by omega) v) (by rw [List.length_cons]; omega)
    refine ⟨?_, fun r hr => (hregs r hr).trans (push_ne hr), ?_⟩
    · rw [List.reverse_cons, List.append_assoc]
      exact htop
    · refine hrsp.trans ?_
      rw [push_rsp, List.length_cons]
      bv_omega

/-- A push leaves the registers that are pushed after it. -/
theorem pushAll_eq : ∀ (rs : List Reg) {s : State}, .rsp ∉ rs →
    s.pushAll rs = (rs.map s.regs).foldl State.push s := by
  intro rs
  induction rs with
  | nil =>
    intro s _
    rfl
  | cons r rs ih =>
    intro s hsp
    have hrs := (List.ne_and_not_mem_of_not_mem_cons hsp).2
    have hmap : rs.map (s.push (s.regs r)).regs = rs.map s.regs :=
      List.map_congr_left fun r' hr' => push_ne fun he => hrs (he ▸ hr')
    refine (ih hrs).trans ?_
    rw [hmap]
    rfl

/-- The values of the registers are on the stack, the last one on top. -/
theorem pushAll_spec (rs : List Reg) (hsp : .rsp ∉ rs) (h : s.Top ws)
    (hlen : rs.length + ws.length < 2 ^ 60) :
    (s.pushAll rs).Top (rs.reverse.map s.regs ++ ws) ∧
      (∀ r, r ≠ .rsp → (s.pushAll rs).regs r = s.regs r) ∧
      (s.pushAll rs).regs .rsp = s.regs .rsp - BitVec.ofNat 64 (8 * rs.length) := by
  have hspec := pushes_spec (rs.map s.regs) h (by rw [List.length_map]; exact hlen)
  rw [← pushAll_eq rs hsp, ← List.map_reverse, List.length_map] at hspec
  exact hspec

/-- Popped registers get what is on the stack. -/
theorem popAll_spec (v : Reg → BitVec 64) : ∀ (rs : List Reg) {s : State} {ws : List (BitVec 64)},
    .rsp ∉ rs → s.Top (rs.map v ++ ws) →
    (s.popAll rs).Top ws ∧ (∀ r ∈ rs, (s.popAll rs).regs r = v r) ∧
      (∀ r, r ∉ rs → r ≠ .rsp → (s.popAll rs).regs r = s.regs r) ∧
      (s.popAll rs).regs .rsp = s.regs .rsp + BitVec.ofNat 64 (8 * rs.length) := by
  intro rs
  induction rs with
  | nil =>
    intro s ws _ h
    exact ⟨h, fun r hr => absurd hr List.not_mem_nil, fun _ _ _ => rfl, (BitVec.add_zero _).symm⟩
  | cons r rs ih =>
    intro s ws hsp h
    obtain ⟨hr, hrs⟩ := List.ne_and_not_mem_of_not_mem_cons hsp
    obtain ⟨hpop, hval⟩ := Top.pop h hr.symm
    obtain ⟨htop, hin, hout, hrsp⟩ := ih hrs hpop
    refine ⟨htop, fun r' hr' => ?_, fun r' hr' hsp' => ?_, ?_⟩
    · by_cases hmem : r' ∈ rs
      · exact hin r' hmem
      · obtain rfl := (List.mem_cons.mp hr').resolve_right hmem
        exact (hout r' hmem hr.symm).trans hval
    · obtain ⟨hne, hmem⟩ := List.ne_and_not_mem_of_not_mem_cons hr'
      exact (hout r' hmem hsp').trans (pop_ne hne hsp')
    · refine hrsp.trans ?_
      rw [pop_rsp hr.symm, List.length_cons]
      bv_omega

end State

end Tauos.X86
