import Tauos.Rust.Word

/-!
# Coming to an end

A computation with loops is given fuel, and `Fault.fuel` says that this was not
enough. `Halts` says that it was: the computation returns, or panics.

Straight code is a matter of `simp`: `halts_bind` takes a `do` block apart, and the
operations of `Word` all halt.
-/

namespace Tauos.Rust

variable {α β : Type}

/-- The computation returns or panics. -/
def Halts (x : Except Fault α) : Prop := x ≠ .error .fuel

@[simp] theorem halts_ok (a : α) : Halts (.ok a) := fun h => nomatch h

@[simp] theorem halts_pure (a : α) : Halts (pure a : Except Fault α) := halts_ok a

/-- A fault other than the end of the fuel is an end. -/
theorem halts_error {e : Fault} (he : e ≠ .fuel) : Halts (.error e : Except Fault α) := by
  intro h
  injection h with h
  exact he h

/-- A sequence ends if its parts do. -/
theorem halts_bind {x : Except Fault α} {f : α → Except Fault β} :
    Halts (x >>= f) ↔ Halts x ∧ ∀ a, x = .ok a → Halts (f a) := by
  cases x with
  | ok a =>
    refine ⟨fun h => ⟨halts_ok a, fun b hb => ?_⟩, fun h => h.2 a rfl⟩
    cases hb
    exact h
  | error e =>
    refine ⟨fun h => ⟨fun he => ?_, fun b hb => nomatch hb⟩, fun h he => ?_⟩
    · cases he
      exact h rfl
    · injection he with he
      exact h.1 (by rw [he])

/-- Mapping the result changes nothing. -/
@[simp] theorem halts_map {x : Except Fault α} {f : α → β} : Halts (f <$> x) ↔ Halts x := by
  rw [map_eq_pure_bind, halts_bind]
  exact and_iff_left fun a _ => halts_pure (f a)

/-- Both branches of a choice halt. -/
theorem halts_ite {c : Prop} [Decidable c] {x y : Except Fault α} (hx : c → Halts x)
    (hy : ¬ c → Halts y) : Halts (if c then x else y) := by
  split
  next hc => exact hx hc
  next hc => exact hy hc

/-- A choice in front of what comes next. -/
theorem halts_ite_bind {c : Prop} [Decidable c] {x y : Except Fault α} {f : α → Except Fault β}
    (hx : Halts x) (hy : Halts y) (hf : ∀ a, Halts (f a)) :
    Halts (if c then x >>= f else y >>= f) :=
  halts_ite (fun _ => halts_bind.mpr ⟨hx, fun a _ => hf a⟩)
    fun _ => halts_bind.mpr ⟨hy, fun a _ => hf a⟩

@[simp] theorem halts_ensure (c : Bool) : Halts (ensure c) :=
  halts_ite (fun _ => halts_ok _) (fun _ => halts_error (by decide))

@[simp] theorem halts_isizeAdd (a b : Int) : Halts (isizeAdd a b) :=
  halts_ite (fun _ => halts_ok _) (fun _ => halts_error (by decide))

@[simp] theorem halts_isizeSub (a b : Int) : Halts (isizeSub a b) :=
  halts_ite (fun _ => halts_ok _) (fun _ => halts_error (by decide))

@[simp] theorem halts_usizeSub (a b : Nat) : Halts (usizeSub a b) :=
  halts_ite (fun _ => halts_ok _) (fun _ => halts_error (by decide))

@[simp] theorem halts_usizeAdd (a b : Nat) : Halts (usizeAdd a b) :=
  halts_ite (fun _ => halts_ok _) (fun _ => halts_error (by decide))

@[simp] theorem halts_usizeMul (a b : Nat) : Halts (usizeMul a b) :=
  halts_ite (fun _ => halts_ok _) (fun _ => halts_error (by decide))

@[simp] theorem halts_usizeShl (k : Nat) : Halts (usizeShl k) :=
  halts_ite (fun _ => halts_ok _) (fun _ => halts_error (by decide))

end Tauos.Rust
