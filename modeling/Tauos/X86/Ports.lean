import Mathlib.Tactic.Common
import Tauos.Rust.Word

/-!
# I/O ports

What is behind the ports of a processor is a `Device`: any state, with what a read of a port
answers and what a read or a write changes. Code that accesses ports is a computation over that
state, so what is proved of it holds whatever the device answers.

`Spec P m Q` says that `m`, started in a state with `P`, returns only with `Q`, and `Settles P m Q`
that it does return with `Q` once it has the fuel for its loops. `Logged σ` is the
device `σ` together with the accesses that it has seen, the latest first: what code does to the
ports of every device is a `Spec` over it.
-/

namespace Tauos.X86

open Tauos.Rust

/-- What is behind the ports. A read may change it as well. -/
class Device (σ : Type) where
  inp : Nat → σ → BitVec 8 × σ
  out : Nat → BitVec 8 → σ → σ

/-- Code that accesses ports. -/
abbrev PortM (σ : Type) := StateT σ (Except Fault)

section Rules

variable {σ α β : Type}

/-- Arithmetic and the like, which leaves the device alone. -/
def lift (x : Except Fault α) : PortM σ α := fun s => x.map (·, s)

/-- `in8`. -/
def in8 [Device σ] (port : Nat) : PortM σ (BitVec 8) := fun s => .ok (Device.inp port s)

/-- `out8`. -/
def out8 [Device σ] (port : Nat) (data : BitVec 8) : PortM σ Unit :=
  fun s => .ok ((), Device.out port data s)

/-- A loop that polls until it may go on. -/
def spin (ready : PortM σ Bool) : Nat → PortM σ Unit
  | 0 => fun _ => .error .fuel
  | fuel + 1 => do
    if ← ready then return ()
    else spin ready fuel

theorem PortM.bind_eq (m : PortM σ α) (f : α → PortM σ β) (s : σ) :
    (m >>= f) s = m s >>= fun r => f r.1 r.2 := rfl

theorem PortM.pure_eq (a : α) (s : σ) : (pure a : PortM σ α) s = .ok (a, s) := rfl

/-- A step that returned is passed on. -/
theorem PortM.bind_ok {m : PortM σ α} {f : α → PortM σ β} {s s₁ : σ} {a : α}
    (h : m s = .ok (a, s₁)) : (m >>= f) s = f a s₁ := by
  rw [PortM.bind_eq, h]
  rfl

/-- What a sequence that returned did. -/
theorem PortM.bind_inv {m : PortM σ α} {f : α → PortM σ β} {s : σ} {r : β × σ}
    (h : (m >>= f) s = .ok r) : ∃ a s₁, m s = .ok (a, s₁) ∧ f a s₁ = .ok r := by
  obtain ⟨⟨a, s₁⟩, hm, hf⟩ := Rust.bind_ok h
  exact ⟨a, s₁, hm, hf⟩

/-- What does not reach the device leaves it as it is. -/
theorem lift_ok {x : Except Fault α} {s : σ} {r : α × σ} (h : lift x s = .ok r) :
    ∃ a, x = .ok a ∧ r = (a, s) := by
  cases x with
  | error e => cases h
  | ok a =>
    cases h
    exact ⟨a, rfl, rfl⟩

/-- From `P`, the code returns only with `Q`. -/
def Spec (P : σ → Prop) (m : PortM σ α) (Q : α → σ → Prop) : Prop :=
  ∀ s a s', P s → m s = .ok (a, s') → Q a s'

variable {P P' R : σ → Prop} {Q : α → σ → Prop}

/-- The rule of sequences. -/
theorem Spec.bind {m : PortM σ α} {f : α → PortM σ β} {Q' : β → σ → Prop} (hm : Spec P m Q)
    (hf : ∀ a, Spec (Q a) (f a) Q') : Spec P (m >>= f) Q' := by
  intro s b s' hs hrun
  obtain ⟨a, s₁, hfirst, hrest⟩ := PortM.bind_inv hrun
  exact hf a s₁ b s' (hm s a s₁ hs hfirst) hrest

/-- The rule of results. -/
theorem Spec.pure {a : α} (h : ∀ s, P s → Q a s) : Spec P (pure a) Q := by
  intro s b s' hs hrun
  cases hrun
  exact h s hs

/-- The rule of what does not reach the device. -/
theorem Spec.lift {x : Except Fault α} (h : ∀ s a, P s → x = .ok a → Q a s) :
    Spec P (lift x) Q := by
  intro s a s' hs hrun
  cases x with
  | error e => cases hrun
  | ok b =>
    cases hrun
    exact h s a hs rfl

/-- The rule of consequence. -/
theorem Spec.weaken {m : PortM σ α} {Q' : α → σ → Prop} (hm : Spec P m Q)
    (hP : ∀ s, P' s → P s) (hQ : ∀ a s, Q a s → Q' a s) : Spec P' m Q' :=
  fun s a s' hs hrun => hQ a s' (hm s a s' (hP s hs) hrun)

/-- A loop that polls keeps what each of its polls keeps, and ends with what the last one found. -/
theorem Spec.spin {ready : PortM σ Bool}
    (h : Spec P ready fun b s => if b = true then R s else P s) :
    ∀ fuel, Spec P (spin ready fuel) fun _ s => R s := by
  intro fuel
  induction fuel with
  | zero =>
    intro s a s' _ hrun
    cases hrun
  | succ fuel ih =>
    refine Spec.bind h fun b => ?_
    cases b with
    | true => exact Spec.pure fun _ hs => hs
    | false => exact ih.weaken (fun _ hs => hs) fun _ _ hs => hs

/-- A loop over a list, with an invariant of what is done. -/
theorem Spec.forM {f : β → PortM σ Unit} {I : List β → σ → Prop}
    (h : ∀ done b, Spec (I done) (f b) fun _ s => I (done ++ [b]) s) (bs done : List β) :
    Spec (I done) (bs.forM f) fun _ s => I (done ++ bs) s := by
  induction bs generalizing done with
  | nil =>
    rw [List.append_nil]
    exact Spec.pure fun _ hs => hs
  | cons b bs ih =>
    refine Spec.bind (h done b) fun _ => ?_
    rw [show done ++ b :: bs = done ++ [b] ++ bs from List.append_cons done b bs]
    exact ih (done ++ [b])

/-- From `P`, the code returns with `Q` if it has enough fuel. -/
def Settles (P : σ → Prop) (m : Nat → PortM σ α) (Q : α → σ → Prop) : Prop :=
  ∀ s, P s → ∃ a s', Q a s' ∧ ∃ least, ∀ fuel, least ≤ fuel → m fuel s = .ok (a, s')

/-- Code without a loop. -/
theorem Settles.now {m : PortM σ α} (h : ∀ s, P s → ∃ a s', m s = .ok (a, s') ∧ Q a s') :
    Settles P (fun _ => m) Q := by
  intro s hs
  obtain ⟨a, s', hrun, hq⟩ := h s hs
  exact ⟨a, s', hq, 0, fun _ _ => hrun⟩

/-- A sequence settles if its parts do. -/
theorem Settles.bind {m : Nat → PortM σ α} {f : Nat → α → PortM σ β} {Q' : β → σ → Prop}
    (hm : Settles P m Q) (hf : ∀ a, Settles (Q a) (fun fuel => f fuel a) Q') :
    Settles P (fun fuel => m fuel >>= f fuel) Q' := by
  intro s hs
  obtain ⟨a, s₁, hq, least, hleast⟩ := hm s hs
  obtain ⟨b, s', hq', least', hleast'⟩ := hf a s₁ hq
  refine ⟨b, s', hq', max least least', fun fuel hfuel => ?_⟩
  exact (PortM.bind_ok (hleast fuel (by omega))).trans (hleast' fuel (by omega))

/-- A loop settles if its passes do. -/
theorem Settles.forM {f : Nat → β → PortM σ Unit} {I : List β → σ → Prop}
    (h : ∀ done b, Settles (I done) (fun fuel => f fuel b) fun _ s => I (done ++ [b]) s)
    (bs done : List β) :
    Settles (I done) (fun fuel => bs.forM (f fuel)) fun _ s => I (done ++ bs) s := by
  induction bs generalizing done with
  | nil =>
    rw [List.append_nil]
    exact Settles.now fun s hs => ⟨(), s, rfl, hs⟩
  | cons b bs ih =>
    refine Settles.bind (h done b) fun _ => ?_
    rw [show done ++ b :: bs = done ++ [b] ++ bs from List.append_cons done b bs]
    exact ih (done ++ [b])

/-- A loop that polls, where each poll in vain leaves fewer to come. -/
theorem Settles.spin {V : Nat → σ → Prop} {ready : PortM σ Bool}
    (h : ∀ n s, V n s → ∃ b s', ready s = .ok (b, s') ∧
      if b = true then R s' else ∃ m, m < n ∧ V m s') (n : Nat) :
    Settles (V n) (fun fuel => X86.spin ready fuel) fun _ s => R s := by
  induction n using Nat.strong_induction_on with
  | h n ih =>
    intro s hs
    obtain ⟨b, s₁, hpoll, hb⟩ := h n s hs
    cases b with
    | true =>
      refine ⟨(), s₁, hb, 1, fun fuel hfuel => ?_⟩
      obtain ⟨fuel, rfl⟩ : ∃ k, fuel = k + 1 := ⟨fuel - 1, by omega⟩
      exact PortM.bind_ok hpoll
    | false =>
      obtain ⟨m, hm, hv⟩ := hb
      obtain ⟨a, s', hr, least, hleast⟩ := ih m hm s₁ hv
      refine ⟨a, s', hr, least + 1, fun fuel hfuel => ?_⟩
      obtain ⟨fuel, rfl⟩ : ∃ k, fuel = k + 1 := ⟨fuel - 1, by omega⟩
      exact (PortM.bind_ok hpoll).trans (hleast fuel (by omega))

end Rules

/-! ## The accesses of a run -/

/-- An access of a port, with the byte read or written. -/
inductive Access
  | inp (port : Nat) (data : BitVec 8)
  | out (port : Nat) (data : BitVec 8)
  deriving DecidableEq, Repr

/-- A device and what was done to it, the latest access first. -/
structure Logged (σ : Type) where
  dev : σ
  log : List Access

section Log

variable {σ : Type} [Device σ]

instance : Device (Logged σ) where
  inp port s := let r := Device.inp port s.dev; (r.1, ⟨r.2, .inp port r.1 :: s.log⟩)
  out port data s := ⟨Device.out port data s.dev, .out port data :: s.log⟩

/-- A property of the log that every read keeps. -/
theorem Spec.in8 {P : List Access → Prop} {Q : BitVec 8 → List Access → Prop} {port : Nat}
    (h : ∀ log v, P log → Q v (.inp port v :: log)) :
    Spec (σ := Logged σ) (fun s => P s.log) (in8 port) fun v s => Q v s.log := by
  intro s v s' hs hrun
  cases hrun
  exact h s.log _ hs

/-- A property of the log after a write. -/
theorem Spec.out8 {P Q : List Access → Prop} {port : Nat} {data : BitVec 8}
    (h : ∀ log, P log → Q (.out port data :: log)) :
    Spec (σ := Logged σ) (fun s => P s.log) (out8 port data) fun _ s => Q s.log := by
  intro s v s' hs hrun
  cases hrun
  exact h s.log hs

end Log

end Tauos.X86
