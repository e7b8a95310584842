import Mathlib.Data.List.Basic
import Tauos.Rust.Mutex

/-!
# Messages under a lock

Parties write messages to a resource. A message goes out in pieces, with the lock from the first
piece to the last, so messages do not mix: in the order in which the lock was taken, each of them is
written whole before the next one begins.

> `Serialized.written`: what a resource is like at any time.

`log` has the messages in that order, with the party of each. What writing a piece does to the
resource is left open: `I done r` says what it is like after the pieces `done`.
-/

namespace Tauos.Rust

variable {ι α ρ σ : Type}

section Log

variable [DecidableEq ι]

/-- The messages of one party. -/
def byParty (i : ι) (log : List (ι × α)) : List α :=
  log.filterMap fun e => if e.1 = i then some e.2 else none

/-- A party's messages after its own one. -/
theorem byParty_append_self (i : ι) (log : List (ι × α)) (m : α) :
    byParty i (log ++ [(i, m)]) = byParty i log ++ [m] := by
  unfold byParty
  rw [List.filterMap_append]
  simp

/-- A message of another party is not among them. -/
theorem byParty_append_of_ne {i j : ι} (h : j ≠ i) (log : List (ι × α)) (m : α) :
    byParty i (log ++ [(j, m)]) = byParty i log := by
  unfold byParty
  rw [List.filterMap_append]
  simp [h]

/-- A message in the log is among those of its party. -/
theorem mem_byParty {i : ι} {log : List (ι × α)} {m : α} (h : (i, m) ∈ log) : m ∈ byParty i log :=
  List.mem_filterMap.mpr ⟨(i, m), h, if_pos rfl⟩

variable {f : σ → List α} {stage : ι → σ} {log : List (ι × α)} {i : ι} {x : σ} {m : α}

/-- The messages of a party that are in the log, and those that it has left. -/
def handed (log : List (ι × α)) (left : ι → List α) (i : ι) : List α := byParty i log ++ left i

/-- The party goes on. -/
theorem handed_keep (hx : f x = f (stage i)) :
    handed log (f ∘ Function.update stage i x) = handed log (f ∘ stage) := by
  rw [Function.comp_update, hx]
  exact congrArg (handed log) (Function.update_eq_self i (f ∘ stage))

/-- The message of the party gets into the log. -/
theorem handed_log (hi : f (stage i) = [m]) (hx : f x = []) :
    handed (log ++ [(i, m)]) (f ∘ Function.update stage i x) = handed log (f ∘ stage) := by
  funext j
  unfold handed
  by_cases hji : j = i
  · subst hji
    rw [byParty_append_self, Function.comp_apply, Function.comp_apply, Function.update_self, hx, hi,
      List.append_nil]
  · rw [byParty_append_of_ne (Ne.symm hji), Function.comp_apply, Function.comp_apply,
      Function.update_of_ne hji]

/-- What the party has left becomes something else. -/
theorem handed_update (log : List (ι × α)) (f : σ → List α) (stage : ι → σ) (i : ι) (x : σ) :
    handed log (f ∘ Function.update stage i x) =
      Function.update (handed log (f ∘ stage)) i (byParty i log ++ f x) := by
  funext j
  unfold handed
  by_cases hji : j = i
  · subst hji
    rw [Function.comp_apply, Function.update_self, Function.update_self]
  · rw [Function.comp_apply, Function.update_of_ne hji, Function.update_of_ne hji]
    rfl

/-- The party has a message. -/
theorem handed_add (hi : f (stage i) = []) (hx : f x = [m]) :
    handed log (f ∘ Function.update stage i x) =
      Function.update (handed log (f ∘ stage)) i (handed log (f ∘ stage) i ++ [m]) := by
  rw [handed_update, hx, handed, Function.comp_apply, hi, List.append_nil]

end Log

/-- The messages of the log are written, but for what the party with the lock has left of the last
one. -/
structure Serialized (I : List α → ρ → Prop) (lock : Option ι) (left : ι → Option (List α))
    (log : List (ι × List α)) (r : ρ) : Prop where
  guard : Guarded lock fun i => (left i).isSome = true
  free : lock = none → I (log.flatMap Prod.snd) r
  held : ∀ i rest, left i = some rest → ∃ before done, log = before ++ [(i, done ++ rest)] ∧
    I (before.flatMap Prod.snd ++ done) r

variable {I : List α → ρ → Prop} {lock : Option ι} {left : ι → Option (List α)}
  {log : List (ι × List α)} {r r' : ρ}

/-- At first nothing is written and nobody writes. -/
theorem serialized_nil (hleft : ∀ i, left i = none) (hr : I [] r) :
    Serialized I none left [] r := by
  refine ⟨guarded_none fun i hi => ?_, fun _ => hr, fun i rest hi => ?_⟩
  · rw [hleft i] at hi
    cases hi
  · rw [hleft i] at hi
    cases hi

/-- Who has something left has the lock. -/
theorem Serialized.lock_eq (h : Serialized I lock left log r) {i : ι} {rest : List α}
    (hi : left i = some rest) : lock = some i :=
  (h.guard i).mp (Option.isSome_iff_exists.mpr ⟨rest, hi⟩)

/-- What is written so far, and what is left. -/
theorem Serialized.written (h : Serialized I lock left log r) : ∃ done rest,
    I done r ∧ log.flatMap Prod.snd = done ++ rest ∧ (lock = none → rest = []) ∧
    ∀ i todo, left i = some todo → todo = rest := by
  cases lock with
  | none =>
    refine ⟨_, [], h.free rfl, (List.append_nil _).symm, fun _ => rfl, fun i todo hi => ?_⟩
    cases h.lock_eq hi
  | some i =>
    have hi := (h.guard i).mpr rfl
    obtain ⟨rest, hrest⟩ := Option.isSome_iff_exists.mp hi
    obtain ⟨before, done, hlog, hI⟩ := h.held i rest hrest
    refine ⟨_, rest, hI, ?_, nofun, fun j todo hj => ?_⟩
    · rw [hlog, List.flatMap_append, List.flatMap_singleton, List.append_assoc]
    · cases h.lock_eq hj
      rw [hrest] at hj
      exact (Option.some.inj hj).symm

/-- What happens to the resource besides. -/
theorem Serialized.change (h : Serialized I lock left log r) (hr : ∀ done, I done r → I done r') :
    Serialized I lock left log r' := by
  refine ⟨h.guard, fun hfree => hr _ (h.free hfree), fun i rest hi => ?_⟩
  obtain ⟨before, done, hlog, hI⟩ := h.held i rest hi
  exact ⟨before, done, hlog, hr _ hI⟩

variable [DecidableEq ι] {f : σ → Option (List α)} {stage : ι → σ} {i : ι} {x : σ}

/-- A step that has nothing to do with the lock. -/
theorem Serialized.keep (h : Serialized I lock (f ∘ stage) log r) (hx : f x = f (stage i)) :
    Serialized I lock (f ∘ Function.update stage i x) log r := by
  have hsame : f ∘ Function.update stage i x = f ∘ stage := by
    rw [Function.comp_update, hx]
    exact Function.update_eq_self i (f ∘ stage)
  rw [hsame]
  exact h

/-- The party takes the lock for a message. -/
theorem Serialized.acquire (h : Serialized I none (f ∘ stage) log r) {m : List α}
    (hx : f x = some m) :
    Serialized I (some i) (f ∘ Function.update stage i x) (log ++ [(i, m)]) r := by
  refine ⟨Guarded.acquire (P := fun y => (f y).isSome = true) h.guard (by rw [hx]; rfl), nofun,
    fun j rest hj => ?_⟩
  by_cases hji : j = i
  · subst hji
    rw [Function.comp_apply, Function.update_self, hx] at hj
    cases hj
    exact ⟨log, [], rfl, by rw [List.append_nil]; exact h.free rfl⟩
  · rw [Function.comp_apply, Function.update_of_ne hji] at hj
    cases h.lock_eq (i := j) hj

/-- The party writes the next piece of its message. -/
theorem Serialized.write (h : Serialized I lock (f ∘ stage) log r) {a : α} {rest : List α}
    (hi : f (stage i) = some (a :: rest)) (hx : f x = some rest)
    (hr : ∀ done, I done r → I (done ++ [a]) r') :
    Serialized I lock (f ∘ Function.update stage i x) log r' := by
  have hlock : lock = some i := h.lock_eq hi
  refine ⟨Guarded.keep (P := fun y => (f y).isSome = true) h.guard (by rw [hi, hx]; rfl),
    fun hfree => ?_, fun j rest' hj => ?_⟩
  · rw [hfree] at hlock
    cases hlock
  · by_cases hji : j = i
    · subst hji
      rw [Function.comp_apply, Function.update_self, hx] at hj
      cases hj
      obtain ⟨before, done, hlog, hI⟩ := h.held j _ hi
      refine ⟨before, done ++ [a], ?_, ?_⟩
      · rw [hlog, List.append_assoc]
        rfl
      · rw [← List.append_assoc]
        exact hr _ hI
    · rw [Function.comp_apply, Function.update_of_ne hji] at hj
      exact absurd (Option.some.inj ((h.lock_eq (i := j) hj).symm.trans hlock)) hji

/-- The message is written, and the party drops the guard. -/
theorem Serialized.release (h : Serialized I lock (f ∘ stage) log r)
    (hi : f (stage i) = some []) (hx : f x = none) :
    Serialized I none (f ∘ Function.update stage i x) log r := by
  have hguard := Guarded.release (P := fun y => (f y).isSome = true) (i := i) (x := x) h.guard
    (by rw [hi]; rfl) (by rw [hx]; exact Bool.false_ne_true)
  refine ⟨hguard, fun _ => ?_, fun j rest hj => ?_⟩
  · obtain ⟨before, done, hlog, hI⟩ := h.held i _ hi
    rw [hlog, List.flatMap_append, List.flatMap_singleton, List.append_nil]
    exact hI
  · cases (hguard j).mp (Option.isSome_iff_exists.mpr ⟨rest, hj⟩)

end Tauos.Rust
