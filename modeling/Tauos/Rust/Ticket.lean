import Mathlib.Data.Fintype.Card
import Mathlib.Logic.Function.Basic

/-!
# Tickets from a counter

A counter that only `fetch_add(1)` touches hands out each number once. Who holds
which ticket is a function into `Option Nat`, whatever else the holders do.

> `Dispensed next ticket`: the tickets held are below `next`, no two parties hold
> the same one, and `next` is the number of parties that hold one.
-/

namespace Tauos.Rust

variable {ι : Type} [Fintype ι]

/-- The tickets `0, ..., next - 1` are held, each by one party. -/
structure Dispensed (next : Nat) (ticket : ι → Option Nat) : Prop where
  lt : ∀ {i k}, ticket i = some k → k < next
  inj : ∀ {i j k}, ticket i = some k → ticket j = some k → i = j
  count : next = (Finset.univ.filter fun i => (ticket i).isSome).card

/-- No ticket is drawn at first. -/
theorem dispensed_zero : Dispensed 0 (fun _ : ι => none) := by
  refine ⟨fun {i k} h => ?_, fun {i j k} h => ?_, ?_⟩
  · cases h
  · cases h
  · simp

variable {next : Nat} {ticket : ι → Option Nat}

/-- No more tickets are out than there are parties. -/
theorem Dispensed.le_card (h : Dispensed next ticket) : next ≤ Fintype.card ι := by
  rw [h.count]
  exact Finset.card_le_univ _

variable [DecidableEq ι] {i : ι}

/-- The next ticket goes to a party that has none. -/
theorem Dispensed.take (h : Dispensed next ticket) (hi : ticket i = none) :
    Dispensed (next + 1) (Function.update ticket i (some next)) := by
  have hcase : ∀ {j k}, Function.update ticket i (some next) j = some k →
      j = i ∧ k = next ∨ j ≠ i ∧ ticket j = some k := by
    intro j k hj
    by_cases hji : j = i
    · subst hji
      rw [Function.update_self] at hj
      exact Or.inl ⟨rfl, (Option.some.inj hj).symm⟩
    · rw [Function.update_of_ne hji] at hj
      exact Or.inr ⟨hji, hj⟩
  refine ⟨fun {j k} hj => ?_, fun {j j' k} hj hj' => ?_, ?_⟩
  · rcases hcase hj with ⟨_, rfl⟩ | ⟨_, hj⟩
    · exact Nat.lt_succ_self _
    · exact Nat.lt_succ_of_lt (h.lt hj)
  · rcases hcase hj with ⟨rfl, rfl⟩ | ⟨_, hj⟩
    · rcases hcase hj' with ⟨rfl, _⟩ | ⟨_, hj'⟩
      · rfl
      · exact absurd (h.lt hj') (Nat.lt_irrefl _)
    · rcases hcase hj' with ⟨_, hk⟩ | ⟨_, hj'⟩
      · exact absurd (h.lt hj) (by omega)
      · exact h.inj hj hj'
  · have hset : (Finset.univ.filter fun j => (Function.update ticket i (some next) j).isSome)
        = insert i (Finset.univ.filter fun j => (ticket j).isSome) := by
      ext j
      by_cases hji : j = i
      · subst hji
        simp
      · simp [hji]
    rw [hset, Finset.card_insert_of_notMem (by simp [hi]), ← h.count]

/-- There is a ticket left for a party that has none. -/
theorem Dispensed.lt_card (h : Dispensed next ticket) (hi : ticket i = none) :
    next < Fintype.card ι := (h.take hi).le_card

end Tauos.Rust
