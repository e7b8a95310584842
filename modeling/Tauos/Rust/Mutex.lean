import Mathlib.Logic.Function.Basic

/-!
# A spin lock among parties

The lock is free or with one party. A party that locks it while it is free goes on into its
critical section, and leaves it when it drops the guard; what the others do meanwhile, and where,
does not matter.

> `Guarded lock inside`: the parties in their critical sections are those that have the lock.
-/

namespace Tauos.Rust

variable {ι : Type}

/-- The lock is with the party that is in its critical section. -/
def Guarded (lock : Option ι) (inside : ι → Prop) : Prop := ∀ i, inside i ↔ lock = some i

/-- Nobody is inside of a lock that is free. -/
theorem guarded_none {inside : ι → Prop} (h : ∀ i, ¬ inside i) : Guarded none inside := by
  intro i
  exact ⟨fun hi => absurd hi (h i), fun hlock => by cases hlock⟩

/-- At most one party is in its critical section. -/
theorem Guarded.unique {lock : Option ι} {inside : ι → Prop} (h : Guarded lock inside) {i j : ι}
    (hi : inside i) (hj : inside j) : i = j :=
  Option.some.inj (((h i).mp hi).symm.trans ((h j).mp hj))

variable [DecidableEq ι] {σ : Type} {lock : Option ι} {P : σ → Prop} {stage : ι → σ} {i : ι}
  {x : σ}

/-- A step that neither enters nor leaves. -/
theorem Guarded.keep (h : Guarded lock (P ∘ stage)) (hx : P x ↔ P (stage i)) :
    Guarded lock (P ∘ Function.update stage i x) := by
  intro j
  by_cases hji : j = i
  · subst hji
    rw [Function.comp_apply, Function.update_self, hx]
    exact h j
  · rw [Function.comp_apply, Function.update_of_ne hji]
    exact h j

/-- The lock is free, and the party takes it. -/
theorem Guarded.acquire (h : Guarded none (P ∘ stage)) (hx : P x) :
    Guarded (some i) (P ∘ Function.update stage i x) := by
  intro j
  by_cases hji : j = i
  · subst hji
    rw [Function.comp_apply, Function.update_self]
    exact ⟨fun _ => rfl, fun _ => hx⟩
  · rw [Function.comp_apply, Function.update_of_ne hji]
    refine ⟨fun hj => ?_, fun hj => absurd (Option.some.inj hj).symm hji⟩
    cases (h j).mp hj

/-- The party in the critical section drops the guard. -/
theorem Guarded.release (h : Guarded lock (P ∘ stage)) (hi : P (stage i)) (hx : ¬ P x) :
    Guarded none (P ∘ Function.update stage i x) := by
  refine guarded_none fun j hj => ?_
  by_cases hji : j = i
  · subst hji
    rw [Function.comp_apply, Function.update_self] at hj
    exact hx hj
  · rw [Function.comp_apply, Function.update_of_ne hji] at hj
    exact hji (h.unique hj hi)

end Tauos.Rust
