import Tauos.Rust.Word

/-!
# Counting loops

`for i in lo..hi { body }` over a state that the body may fail to return. The
one rule needed is the invariant rule: what holds before the first pass and is
carried from each pass to the next holds at the end, and the loop returns.
-/

namespace Tauos.Rust

variable {α : Type} {f : Nat → α → Except Fault α}

/-- `n` passes from the counter `i` on. -/
def forCount (f : Nat → α → Except Fault α) : Nat → Nat → α → Except Fault α
  | 0, _, s => .ok s
  | n + 1, i, s => do
    let s ← f i s
    forCount f n (i + 1) s

/-- `for i in lo..hi`. -/
def forRange (lo hi : Nat) (f : Nat → α → Except Fault α) (s : α) : Except Fault α :=
  forCount f (hi - lo) lo s

/-- A loop keeps what each of its passes keeps, and returns if they do. -/
theorem forCount_inv {I : Nat → α → Prop} : ∀ (n : Nat) {i : Nat} {s : α}, I i s →
    (∀ {j s}, i ≤ j → j < i + n → I j s → ∃ s', f j s = .ok s' ∧ I (j + 1) s') →
    ∃ s', forCount f n i s = .ok s' ∧ I (i + n) s' := by
  intro n
  induction n with
  | zero =>
    intro i s h0 _
    exact ⟨s, rfl, h0⟩
  | succ n ih =>
    intro i s h0 hstep
    obtain ⟨s₁, hrun, h1⟩ := hstep (Nat.le_refl i) (by omega) h0
    obtain ⟨s', hrest, hI⟩ := ih h1 (fun hj hj' => hstep (by omega) (by omega))
    refine ⟨s', ?_, ?_⟩
    · dsimp only [forCount]
      rw [hrun, ok_bind]
      exact hrest
    · rw [show i + (n + 1) = i + 1 + n by omega]
      exact hI

/-- The invariant rule. -/
theorem forRange_inv {I : Nat → α → Prop} {lo hi : Nat} {s : α} (hle : lo ≤ hi) (h0 : I lo s)
    (hstep : ∀ {i s}, lo ≤ i → i < hi → I i s → ∃ s', f i s = .ok s' ∧ I (i + 1) s') :
    ∃ s', forRange lo hi f s = .ok s' ∧ I hi s' := by
  obtain ⟨s', hrun, hI⟩ := forCount_inv (hi - lo) h0
    (fun hj hj' => hstep hj (by omega))
  rw [show lo + (hi - lo) = hi by omega] at hI
  exact ⟨s', hrun, hI⟩

end Tauos.Rust
