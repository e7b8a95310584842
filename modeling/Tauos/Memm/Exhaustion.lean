import Tauos.Memm.Run

/-!
# When `alloc` gives up

`alloc` looks for a block, and asks its `oom_handler` while it finds none. Nothing
is known here of the handler but that it keeps the allocator in order (`Handles`);
the states it goes through are `oks`, those after its first answers `Ok`.
`alloc_none_iff` says in terms of them when `alloc` returns `Err`, and
`alloc_err_iff` when that means that memory is exhausted.

It need not. The loop that asks the handler looks for larger blocks only: a block of
exactly the size is looked for once, before the loop. A handler that makes one free,
returns `Ok`, and refuses when asked again, ends in `Err` with the block still free
(`alloc_err_with_block_free`).
-/

namespace Tauos.Memm

open Tauos.Rust Tauos.Utils Tauos.Buddy

namespace Talloc

/-- Some free list holds a block of at least `n` bytes. -/
def Offers (t : Talloc FreeLists) (n : Nat) : Prop :=
  ∃ g b, b ∈ t.list g ∧ n ≤ t.arenaSizePow2 >>> g

/-- Some free list holds a block of more than `n` bytes. -/
def OffersLarger (t : Talloc FreeLists) (n : Nat) : Prop :=
  ∃ g b, b ∈ t.list g ∧ n < t.arenaSizePow2 >>> g

/-- Some free list holds a block of exactly `n` bytes. -/
def OffersExact (t : Talloc FreeLists) (n : Nat) : Prop :=
  ∃ g b, b ∈ t.list g ∧ t.arenaSizePow2 >>> g = n

/-- What `alloc` relies on when it looks for a block: the lists hold blocks no larger
than the arena, and `avails` says which of them are occupied. Nothing is said of the
place of the arena. -/
structure SoundAt (K J : Nat) (t : Talloc FreeLists) : Prop where
  pow2 : t.arenaSizePow2 = 2 ^ K
  smlst : t.smlstBlock = 2 ^ J
  hJ : J < 64
  hK : K < 64
  size : t.arenaSize ≤ 2 ^ K
  fits : ∀ {g b}, b ∈ t.list g → g ≤ K ∧ 2 ^ (K - g) ≤ t.arenaSize
  avail : ∀ g, t.avails.testBit g = true ↔ t.list g ≠ []

/-- The same for some sizes. -/
def Sound (t : Talloc FreeLists) : Prop := ∃ K J, t.SoundAt K J

variable {K J e : Nat} {t : Talloc FreeLists}

/-- The invariant gives what `alloc` relies on. -/
theorem Inv.soundAt (h : Inv K J t) : t.SoundAt K J where
  pow2 := h.nat.pow2
  smlst := h.nat.smlst
  hJ := by
    have := h.nat.hJK
    have := h.nat.hK
    omega
  hK := by
    have := h.nat.hK
    omega
  size := h.nat.size
  fits {g b} hb := by
    obtain ⟨hg, hF⟩ := h.freeBlock_of_mem hb
    obtain ⟨h1, h2⟩ := h.holds hF
    refine ⟨hg, ?_⟩
    have : ((2 ^ (K - g) : Nat) : Int) ≤ (t.arenaSize : Int) := by
      push_cast
      omega
    exact_mod_cast this
  avail := h.avail

/-- The size of a granularity. -/
theorem SoundAt.blockSize (h : t.SoundAt K J) {g : Nat} (hg : g ≤ K) :
    t.arenaSizePow2 >>> g = 2 ^ (K - g) := by
  rw [h.pow2, two_pow_shiftRight hg]

/-- Which granularities are large enough. -/
theorem SoundAt.le_blockSize_iff (h : t.SoundAt K J) {g : Nat} :
    2 ^ e ≤ t.arenaSizePow2 >>> g ↔ e + g ≤ K := by
  rw [h.pow2, Nat.shiftRight_eq_div_pow, Nat.le_div_iff_mul_le (Nat.two_pow_pos g), ← Nat.pow_add]
  exact Nat.pow_le_pow_iff_right (by norm_num)

/-- The granularity of a size that fits in the arena. -/
theorem SoundAt.granularity (h : t.SoundAt K J) (he : 2 ^ e ≤ t.arenaSize) :
    e ≤ K ∧ t.blockGranularity (2 ^ e) = .ok (K - e) := by
  have hle : e ≤ K := (Nat.pow_le_pow_iff_right (by norm_num)).mp (he.trans h.size)
  have hK := h.hK
  refine ⟨hle, ?_⟩
  unfold Arena.blockGranularity
  rw [h.pow2, leadingZeros_two_pow, leadingZeros_two_pow, usizeSub_of_le (by omega)]
  congr 1
  omega

/-- The list of the granularity of a size holds the blocks of that size. -/
theorem SoundAt.list_ne_nil_iff (h : t.SoundAt K J) (he : e ≤ K) :
    t.list (K - e) ≠ [] ↔ t.OffersExact (2 ^ e) := by
  constructor
  · intro hne
    obtain ⟨b, hb⟩ := List.exists_mem_of_ne_nil _ hne
    refine ⟨K - e, b, hb, ?_⟩
    rw [h.blockSize (by omega), show K - (K - e) = e by omega]
  · rintro ⟨g, b, hb, hsize⟩
    obtain ⟨hg, _⟩ := h.fits hb
    rw [h.blockSize hg] at hsize
    have := Nat.pow_right_injective (le_refl 2) hsize
    rw [show K - e = g by omega]
    exact List.ne_nil_of_mem hb

/-- The test for a block of the size itself. -/
theorem SoundAt.exact_iff (h : t.SoundAt K J) (he : e ≤ K) :
    t.avails &&& (1 <<< (K - e)) ≠ 0 ↔ t.OffersExact (2 ^ e) := by
  have hbit : t.avails &&& (1 <<< (K - e)) ≠ 0 ↔ t.avails.testBit (K - e) = true := by
    rw [Nat.one_shiftLeft, Nat.and_two_pow]
    cases t.avails.testBit (K - e) <;> simp
  rw [hbit, h.avail, h.list_ne_nil_iff he]

/-- The test for a larger block. -/
theorem SoundAt.larger_iff (h : t.SoundAt K J) (he : e ≤ K) :
    t.avails &&& ((1 <<< (K - e)) - 1) = 0 ↔ ¬ t.OffersLarger (2 ^ e) := by
  rw [Nat.one_shiftLeft, Nat.and_two_pow_sub_one_eq_mod]
  constructor
  · rintro hz ⟨g, b, hb, hlt⟩
    obtain ⟨hg, _⟩ := h.fits hb
    rw [h.blockSize hg] at hlt
    have hlt' : e < K - g := (Nat.pow_lt_pow_iff_right (by norm_num)).mp hlt
    have hbit := (h.avail g).mpr (List.ne_nil_of_mem hb)
    have : (t.avails % 2 ^ (K - e)).testBit g = true := by
      rw [Nat.testBit_mod_two_pow, hbit, decide_eq_true (show g < K - e by omega)]
      rfl
    rw [hz, Nat.zero_testBit] at this
    cases this
  · intro hno
    apply Nat.eq_of_testBit_eq
    intro g
    rw [Nat.zero_testBit, Nat.testBit_mod_two_pow]
    by_contra hcon
    rw [Bool.not_eq_false, Bool.and_eq_true] at hcon
    obtain ⟨hg, hbit⟩ := hcon
    obtain ⟨b, hb⟩ := List.exists_mem_of_ne_nil _ ((h.avail g).mp hbit)
    refine hno ⟨g, b, hb, ?_⟩
    have hg' := of_decide_eq_true hg
    rw [h.blockSize (by omega)]
    exact Nat.pow_lt_pow_right (by norm_num) (by omega)

/-- No block is larger than the arena. -/
theorem SoundAt.not_larger (h : t.SoundAt K J) {n : Nat} (hn : t.arenaSize < n) :
    ¬ t.OffersLarger n := by
  rintro ⟨g, b, hb, hlt⟩
  obtain ⟨hg, hle⟩ := h.fits hb
  rw [h.blockSize hg] at hlt
  omega

end Talloc

/-! ## The answers of a handler -/

section Handler

variable {ω : Type} {oom : OomHandler ω FreeLists} {l : Layout}

/-- The handler releases memory or extends the arena: the allocator stays in order,
the arena does not shrink and the smallest block is the same. -/
structure Handles (oom : OomHandler ω FreeLists) : Prop where
  keeps : ∀ {w t l ok w' t'}, t.Sound → oom w t l = .ok (ok, w', t') →
    t'.Sound ∧ t.arenaSize ≤ t'.arenaSize ∧ t'.smlstBlock = t.smlstBlock

/-- The state after `n` calls of the handler in a row, all answered `Ok`. -/
def oks (oom : OomHandler ω FreeLists) (l : Layout) : Nat → ω × Talloc FreeLists →
    Option (ω × Talloc FreeLists)
  | 0, s => some s
  | n + 1, s =>
    match oom s.1 s.2 l with
    | .ok (true, s') => oks oom l n s'
    | _ => none

/-- The first answer, and those after it. -/
theorem oks_succ {s s' : ω × Talloc FreeLists} (h : oom s.1 s.2 l = .ok (true, s')) (n : Nat) :
    oks oom l (n + 1) s = oks oom l n s' := by
  dsimp only [oks]
  rw [h]

/-- Several answers start with one. -/
theorem oks_succ_some {s r : ω × Talloc FreeLists} {n : Nat} (h : oks oom l (n + 1) s = some r) :
    ∃ s', oom s.1 s.2 l = .ok (true, s') ∧ oks oom l n s' = some r := by
  dsimp only [oks] at h
  rcases hr : oom s.1 s.2 l with f | ⟨ok, s'⟩
  · rw [hr] at h
    cases h
  · rw [hr] at h
    cases ok with
    | false => cases h
    | true => exact ⟨s', rfl, h⟩

/-- Some answers, and some more. -/
theorem oks_add {s s₁ : ω × Talloc FreeLists} {m : Nat} (h : oks oom l m s = some s₁) (n : Nat) :
    oks oom l (m + n) s = oks oom l n s₁ := by
  induction m generalizing s with
  | zero =>
    cases h
    rw [Nat.zero_add]
  | succ m ih =>
    obtain ⟨s', hs, hm⟩ := oks_succ_some h
    rw [show m + 1 + n = m + n + 1 by omega, oks_succ hs]
    exact ih hm

/-- A sound handler keeps the state sound over several answers. -/
theorem Handles.oks (hh : Handles oom) {s : ω × Talloc FreeLists} (hs : s.2.Sound) {n : Nat}
    {s' : ω × Talloc FreeLists} (h : oks oom l n s = some s') :
    s'.2.Sound ∧ s.2.arenaSize ≤ s'.2.arenaSize := by
  induction n generalizing s with
  | zero =>
    cases h
    exact ⟨hs, le_refl _⟩
  | succ n ih =>
    obtain ⟨s₁, hr, h⟩ := oks_succ_some h
    obtain ⟨hs₁, hle, _⟩ := hh.keeps hs hr
    obtain ⟨hs', hle'⟩ := ih hs₁ h
    exact ⟨hs', hle.trans hle'⟩

/-- In every state up to the `n`th answer. -/
def Throughout (oom : OomHandler ω FreeLists) (l : Layout) (n : Nat) (s : ω × Talloc FreeLists)
    (P : Talloc FreeLists → Prop) : Prop :=
  ∀ i ≤ n, ∀ s', oks oom l i s = some s' → P s'.2

/-- Without an answer, it is about the first state. -/
theorem throughout_zero {s : ω × Talloc FreeLists} {P : Talloc FreeLists → Prop} :
    Throughout oom l 0 s P ↔ P s.2 := by
  constructor
  · intro h
    exact h 0 (le_refl 0) s rfl
  · intro h i hi s' hs
    obtain rfl := Nat.le_zero.mp hi
    cases hs
    exact h

/-- With an answer more, it is about the next states too. -/
theorem throughout_succ {s s₁ : ω × Talloc FreeLists} {P : Talloc FreeLists → Prop} {n : Nat}
    (hs : oom s.1 s.2 l = .ok (true, s₁)) :
    Throughout oom l (n + 1) s P ↔ P s.2 ∧ Throughout oom l n s₁ P := by
  constructor
  · intro h
    refine ⟨h 0 (Nat.zero_le _) s rfl, fun i hi s' hi' => ?_⟩
    exact h (i + 1) (by omega) s' ((oks_succ hs i).trans hi')
  · rintro ⟨h0, h⟩ i hi s' hi'
    cases i with
    | zero =>
      cases hi'
      exact h0
    | succ i =>
      rw [oks_succ hs] at hi'
      exact h i (by omega) s' hi'

/-- After `n` answers `Ok`, in states that all have `P`, the handler refuses and leaves `s'`. -/
def RefusesAt (oom : OomHandler ω FreeLists) (l : Layout) (n : Nat) (s s' : ω × Talloc FreeLists)
    (P : Talloc FreeLists → Prop) : Prop :=
  ∃ s₁, oks oom l n s = some s₁ ∧ oom s₁.1 s₁.2 l = .ok (false, s') ∧ Throughout oom l n s P

/-- The first answer is a refusal. -/
theorem refusesAt_zero {s s' : ω × Talloc FreeLists} {P : Talloc FreeLists → Prop} :
    RefusesAt oom l 0 s s' P ↔ oom s.1 s.2 l = .ok (false, s') ∧ P s.2 := by
  constructor
  · rintro ⟨s₁, h, hr, hP⟩
    cases h
    exact ⟨hr, throughout_zero.mp hP⟩
  · rintro ⟨hr, hP⟩
    exact ⟨s, rfl, hr, throughout_zero.mpr hP⟩

/-- A later answer is. -/
theorem refusesAt_succ {s s' : ω × Talloc FreeLists} {P : Talloc FreeLists → Prop} {n : Nat} :
    RefusesAt oom l (n + 1) s s' P ↔
      P s.2 ∧ ∃ s₁, oom s.1 s.2 l = .ok (true, s₁) ∧ RefusesAt oom l n s₁ s' P := by
  constructor
  · rintro ⟨s₂, h, hr, hP⟩
    obtain ⟨s₁, hs, h⟩ := oks_succ_some h
    obtain ⟨h0, hP⟩ := (throughout_succ hs).mp hP
    exact ⟨h0, s₁, hs, s₂, h, hr, hP⟩
  · rintro ⟨h0, s₁, hs, s₂, h, hr, hP⟩
    exact ⟨s₂, (oks_succ hs n).trans h, hr, (throughout_succ hs).mpr ⟨h0, hP⟩⟩

/-- After `n` answers `Ok`, and not before, the arena is as large as `size`. -/
def GrownAt (oom : OomHandler ω FreeLists) (l : Layout) (size n : Nat)
    (s s' : ω × Talloc FreeLists) : Prop :=
  oks oom l n s = some s' ∧ size ≤ s'.2.arenaSize ∧
    ∀ i < n, ∀ s₁, oks oom l i s = some s₁ → s₁.2.arenaSize < size

/-- The handler refuses, leaving `s'`, before there is a block that `alloc` looks for:
a larger one at any time, or one of the size itself when the arena first is as large. -/
def GivesUp (oom : OomHandler ω FreeLists) (l : Layout) (size : Nat)
    (s s' : ω × Talloc FreeLists) : Prop :=
  ∃ n, RefusesAt oom l n s s' (fun t => ¬ t.OffersLarger size) ∧
    ∀ m ≤ n, ∀ s₁, GrownAt oom l size m s s₁ → ¬ s₁.2.OffersExact size

/-- The handler gives up and leaves a block that would do. -/
def Overlooked (oom : OomHandler ω FreeLists) (l : Layout) (size : Nat)
    (s : ω × Talloc FreeLists) : Prop :=
  ∃ s', GivesUp oom l size s s' ∧ s'.2.Offers size

/-! ## The loops of `alloc` -/

section Loops

variable {size e : Nat} {s s' : ω × Talloc FreeLists}

/-- The first loop ends with a refusal. -/
theorem growLoop_false_iff : ∀ (fuel : Nat) {s : ω × Talloc FreeLists},
    Talloc.growLoop oom l size fuel s.1 s.2 = .ok (false, s') ↔
      ∃ n < fuel, RefusesAt oom l n s s' (fun t => t.arenaSize < size) := by
  intro fuel
  induction fuel with
  | zero =>
    intro s
    constructor
    · intro h
      cases h
    · rintro ⟨n, hn, _⟩
      omega
  | succ fuel ih =>
    intro s
    dsimp only [Talloc.growLoop]
    constructor
    · intro h
      split at h
      next hlt =>
        obtain ⟨⟨ok, s₁⟩, hr, h⟩ := bind_ok h
        cases ok with
        | false =>
          cases h
          exact ⟨0, Nat.succ_pos _, refusesAt_zero.mpr ⟨hr, hlt⟩⟩
        | true =>
          obtain ⟨n, hn, hre⟩ := ih.mp h
          exact ⟨n + 1, by omega, refusesAt_succ.mpr ⟨hlt, s₁, hr, hre⟩⟩
      next => cases h
    · rintro ⟨n, hn, hre⟩
      cases n with
      | zero =>
        obtain ⟨hr, hlt⟩ := refusesAt_zero.mp hre
        rw [if_pos hlt, hr]
        rfl
      | succ n =>
        obtain ⟨hlt, s₁, hr, hre⟩ := refusesAt_succ.mp hre
        rw [if_pos hlt, hr]
        exact ih.mpr ⟨n, by omega, hre⟩

/-- The first loop ends with an arena that is large enough. -/
theorem growLoop_true_iff : ∀ (fuel : Nat) {s : ω × Talloc FreeLists},
    Talloc.growLoop oom l size fuel s.1 s.2 = .ok (true, s') ↔
      ∃ n < fuel, GrownAt oom l size n s s' := by
  intro fuel
  induction fuel with
  | zero =>
    intro s
    constructor
    · intro h
      cases h
    · rintro ⟨n, hn, _⟩
      omega
  | succ fuel ih =>
    intro s
    dsimp only [Talloc.growLoop]
    constructor
    · intro h
      split at h
      -- one more call of the handler, and then `n` of them
      next hlt =>
        obtain ⟨⟨ok, s₁⟩, hr, h⟩ := bind_ok h
        cases ok with
        | false => cases h
        | true =>
          obtain ⟨n, hn, hs, hle, hbefore⟩ := ih.mp h
          refine ⟨n + 1, by omega, (oks_succ hr n).trans hs, hle, fun i hi s₂ hs₂ => ?_⟩
          cases i with
          | zero =>
            cases hs₂
            exact hlt
          | succ i =>
            rw [oks_succ hr] at hs₂
            exact hbefore i (by omega) s₂ hs₂
      next hlt =>
        cases h
        exact ⟨0, Nat.succ_pos _, rfl, Nat.not_lt.mp hlt, fun i hi => absurd hi (Nat.not_lt_zero i)⟩
    · rintro ⟨n, hn, hs, hle, hbefore⟩
      cases n with
      | zero =>
        cases hs
        rw [if_neg (Nat.not_lt.mpr hle)]
        rfl
      | succ n =>
        obtain ⟨s₁, hr, hs⟩ := oks_succ_some hs
        rw [if_pos (hbefore 0 (Nat.succ_pos n) s rfl), hr]
        refine ih.mpr ⟨n, by omega, hs, hle, fun i hi s₂ hs₂ => ?_⟩
        exact hbefore (i + 1) (by omega) s₂ ((oks_succ hr i).trans hs₂)

/-- The second loop ends with a refusal. -/
theorem findLoop_none_iff (hh : Handles oom) : ∀ (fuel : Nat) {g : Nat} {s : ω × Talloc FreeLists},
    s.2.Sound → 2 ^ e ≤ s.2.arenaSize → s.2.blockGranularity (2 ^ e) = .ok g →
    (Talloc.findLoop oom l (2 ^ e) fuel g s.1 s.2 = .ok (none, s') ↔
      ∃ n < fuel, RefusesAt oom l n s s' (fun t => ¬ t.OffersLarger (2 ^ e))) := by
  intro fuel
  induction fuel with
  | zero =>
    intro g s _ _ _
    constructor
    · intro h
      cases h
    · rintro ⟨n, hn, _⟩
      omega
  | succ fuel ih =>
    intro g s hs he hg
    obtain ⟨K, J, hsound⟩ := id hs
    obtain ⟨heK, hgK⟩ := hsound.granularity he
    obtain rfl : K - e = g := Except.ok.inj (hgK.symm.trans hg)
    have hlarger := hsound.larger_iff heK
    -- the state after one more answer
    have hnext : ∀ {s₁ : ω × Talloc FreeLists}, oom s.1 s.2 l = .ok (true, s₁) →
        ((do
          let granularity ← s₁.2.blockGranularity (2 ^ e)
          Talloc.findLoop oom l (2 ^ e) fuel granularity s₁.1 s₁.2) = .ok (none, s') ↔
        ∃ n < fuel, RefusesAt oom l n s₁ s' (fun t => ¬ t.OffersLarger (2 ^ e))) := by
      intro s₁ hr
      obtain ⟨hs₁, hle, _⟩ := hh.keeps hs hr
      obtain ⟨K₁, J₁, hsound₁⟩ := id hs₁
      obtain ⟨_, hg₁⟩ := hsound₁.granularity (he.trans hle)
      rw [hg₁, ok_bind]
      exact ih hs₁ (he.trans hle) hg₁
    dsimp only [Talloc.findLoop]
    constructor
    · intro h
      split at h
      next hz =>
        obtain ⟨⟨ok, s₁⟩, hr, h⟩ := bind_ok h
        cases ok with
        | false =>
          cases h
          exact ⟨0, Nat.succ_pos _, refusesAt_zero.mpr ⟨hr, hlarger.mp hz⟩⟩
        | true =>
          obtain ⟨n, hn, hre⟩ := (hnext hr).mp h
          exact ⟨n + 1, by omega, refusesAt_succ.mpr ⟨hlarger.mp hz, s₁, hr, hre⟩⟩
      next => cases h
    · rintro ⟨n, hn, hre⟩
      cases n with
      | zero =>
        obtain ⟨hr, hno⟩ := refusesAt_zero.mp hre
        rw [if_pos (hlarger.mpr hno), hr]
        rfl
      | succ n =>
        obtain ⟨hno, s₁, hr, hre⟩ := refusesAt_succ.mp hre
        rw [if_pos (hlarger.mpr hno), hr]
        exact (hnext hr).mpr ⟨n, by omega, hre⟩

/-- `alloc` behind its first loop returns `Err`: there is no block of the size, and the
second loop ends with a refusal. -/
theorem allocBlock_none_iff {fuel g : Nat} (hg : s.2.blockGranularity (2 ^ e) = .ok g) :
    Talloc.allocBlock oom l (2 ^ e) fuel s.1 s.2 = .ok (none, s') ↔
      s.2.avails &&& (1 <<< g) = 0 ∧
        Talloc.findLoop oom l (2 ^ e) fuel g s.1 s.2 = .ok (none, s') := by
  unfold Talloc.allocBlock
  rw [hg, ok_bind]
  by_cases hav : s.2.avails &&& (1 <<< g) = 0
  · rw [if_neg (not_not.mpr hav)]
    constructor
    · intro h
      obtain ⟨⟨found, w, t⟩, hf, h⟩ := bind_ok h
      cases found with
      | none =>
        cases h
        exact ⟨hav, hf⟩
      | some r =>
        obtain ⟨_, _, h⟩ := bind_ok h
        obtain ⟨_, _, h⟩ := bind_ok h
        obtain ⟨_, _, h⟩ := bind_ok h
        cases h
    · rintro ⟨_, hf⟩
      rw [hf]
      rfl
  · rw [if_pos hav]
    constructor
    · intro h
      obtain ⟨_, _, h⟩ := bind_ok h
      obtain ⟨_, _, h⟩ := bind_ok h
      cases h
    · rintro ⟨hc, _⟩
      exact absurd hc hav

/-- The state is sound when the heap has grown. -/
theorem GrownAt.sound (hh : Handles oom) (hs : s.2.Sound) {m : Nat} {s₂ : ω × Talloc FreeLists}
    (h : GrownAt oom l size m s s₂) : s₂.2.Sound :=
  (hh.oks hs h.1).1

/-- A small arena offers no larger block. -/
theorem RefusesAt.of_small (hh : Handles oom) (hs : s.2.Sound) {n : Nat}
    (h : RefusesAt oom l n s s' (fun t => t.arenaSize < size)) :
    RefusesAt oom l n s s' (fun t => ¬ t.OffersLarger size) := by
  obtain ⟨s₁, h1, hr, hP⟩ := h
  refine ⟨s₁, h1, hr, fun i hi s₂ hs₂ => ?_⟩
  obtain ⟨⟨K, J, hsound⟩, _⟩ := hh.oks hs hs₂
  exact hsound.not_larger (hP i hi s₂ hs₂)

/-- A refusal behind `m` answers is a refusal. -/
theorem GrownAt.refusesAt (hh : Handles oom) (hs : s.2.Sound) {m n : Nat}
    {s₂ : ω × Talloc FreeLists} (hm : GrownAt oom l size m s s₂)
    (h : RefusesAt oom l n s₂ s' (fun t => ¬ t.OffersLarger size)) :
    RefusesAt oom l (m + n) s s' (fun t => ¬ t.OffersLarger size) := by
  obtain ⟨s₁, h1, hr, hP⟩ := h
  obtain ⟨hm1, _, hbefore⟩ := hm
  refine ⟨s₁, (oks_add hm1 n).trans h1, hr, fun i hi s₃ hs₃ => ?_⟩
  rcases Nat.lt_or_ge i m with hlt | hge
  · obtain ⟨⟨K, J, hsound⟩, _⟩ := hh.oks hs hs₃
    exact hsound.not_larger (hbefore i hlt s₃ hs₃)
  · rw [show i = m + (i - m) by omega, oks_add hm1] at hs₃
    exact hP (i - m) (by omega) s₃ hs₃

/-- The arena is large enough for the first time only once. -/
theorem GrownAt.unique {m m' : Nat} {s₁ s₂ : ω × Talloc FreeLists}
    (h : GrownAt oom l size m s s₁) (h' : GrownAt oom l size m' s s₂) : s₁ = s₂ := by
  obtain ⟨h1, hle, hbefore⟩ := h
  obtain ⟨h1', hle', hbefore'⟩ := h'
  rcases Nat.lt_trichotomy m m' with hlt | rfl | hgt
  · have := hbefore' m hlt s₁ h1
    omega
  · exact Option.some.inj (h1.symm.trans h1')
  · have := hbefore m' hgt s₂ h1'
    omega

/-- `alloc` returns `Err` exactly when the handler gives up. -/
theorem alloc_none_iff (hh : Handles oom) (hs : s.2.Sound) (hsize : s.2.layoutToSize l = 2 ^ e) :
    (∃ fuel, Talloc.alloc oom fuel s.1 s.2 l = .ok (none, s')) ↔ GivesUp oom l (2 ^ e) s s' := by
  -- the test before the second loop
  have hexact : ∀ {s₂ : ω × Talloc FreeLists}, s₂.2.Sound → 2 ^ e ≤ s₂.2.arenaSize →
      ∃ g, s₂.2.blockGranularity (2 ^ e) = .ok g ∧
        (s₂.2.avails &&& (1 <<< g) = 0 ↔ ¬ s₂.2.OffersExact (2 ^ e)) := by
    rintro s₂ ⟨K, J, hsound⟩ he
    obtain ⟨heK, hg⟩ := hsound.granularity he
    exact ⟨K - e, hg, by rw [← hsound.exact_iff heK, not_not]⟩
  constructor
  · rintro ⟨fuel, h⟩
    dsimp only [Talloc.alloc] at h
    rw [hsize] at h
    obtain ⟨⟨ok, s₂⟩, hgrow, h⟩ := bind_ok h
    cases ok with
    | false =>
      cases h
      obtain ⟨n, _, hre⟩ := (growLoop_false_iff fuel).mp hgrow
      refine ⟨n, hre.of_small hh hs, fun m hm s₁ hm1 => ?_⟩
      obtain ⟨_, _, _, hP⟩ := hre
      have := hP m hm s₁ hm1.1
      have := hm1.2.1
      omega
    | true =>
      obtain ⟨m, _, hgrown⟩ := (growLoop_true_iff fuel).mp hgrow
      have hs₂ := hgrown.sound hh hs
      obtain ⟨g, hg, hav⟩ := hexact hs₂ hgrown.2.1
      obtain ⟨hz, hfind⟩ := (allocBlock_none_iff hg).mp h
      obtain ⟨n, _, hre⟩ := (findLoop_none_iff hh fuel hs₂ hgrown.2.1 hg).mp hfind
      refine ⟨m + n, hgrown.refusesAt hh hs hre, fun m' _ s₁ hm' => ?_⟩
      rw [hm'.unique hgrown]
      exact hav.mp hz
  · rintro ⟨n, ⟨s₁, h1, hr, hP⟩, hno⟩
    refine ⟨n + 1, ?_⟩
    dsimp only [Talloc.alloc]
    rw [hsize]
    by_cases hbig : ∃ m, m ≤ n ∧ ∃ s₂, oks oom l m s = some s₂ ∧ 2 ^ e ≤ s₂.2.arenaSize
    · -- the first state that is large enough
      obtain ⟨m, ⟨hmn, s₂, hm, hle⟩, hleast⟩ : ∃ m, (m ≤ n ∧ ∃ s₂, oks oom l m s = some s₂ ∧
          2 ^ e ≤ s₂.2.arenaSize) ∧ ∀ i < m, ¬ (i ≤ n ∧ ∃ s₂, oks oom l i s = some s₂ ∧
            2 ^ e ≤ s₂.2.arenaSize) := by
        classical
        exact ⟨Nat.find hbig, Nat.find_spec hbig, fun i hi => Nat.find_min hbig hi⟩
      have hgrown : GrownAt oom l (2 ^ e) m s s₂ := by
        refine ⟨hm, hle, fun i hi s₃ hs₃ => ?_⟩
        by_contra hcon
        exact hleast i hi ⟨by omega, s₃, hs₃, Nat.not_lt.mp hcon⟩
      have hs₂ := hgrown.sound hh hs
      obtain ⟨g, hg, hav⟩ := hexact hs₂ hle
      rw [(growLoop_true_iff (n + 1)).mpr ⟨m, by omega, hgrown⟩]
      refine (allocBlock_none_iff hg).mpr ⟨hav.mpr (hno m hmn s₂ hgrown), ?_⟩
      refine (findLoop_none_iff hh (n + 1) hs₂ hle hg).mpr ⟨n - m, by omega, s₁, ?_, hr, ?_⟩
      · rw [← oks_add hm, show m + (n - m) = n by omega]
        exact h1
      · intro i hi s₃ hs₃
        rw [← oks_add hm] at hs₃
        exact hP (m + i) (by omega) s₃ hs₃
    · have hre : RefusesAt oom l n s s' (fun t => t.arenaSize < 2 ^ e) := by
        refine ⟨s₁, h1, hr, fun i hi s₂ hs₂ => ?_⟩
        by_contra hcon
        exact hbig ⟨i, hi, s₂, hs₂, Nat.not_lt.mp hcon⟩
      rw [(growLoop_false_iff (n + 1)).mpr ⟨n, Nat.lt_succ_self n, hre⟩]
      rfl

end Loops

/-- `Err` is returned on the handler's refusal only, and with nothing free that would
do: this holds exactly for the handlers, states and layouts where nothing is
overlooked. -/
theorem alloc_err_iff (hh : Handles oom) {w : ω} {t : Talloc FreeLists} (ht : t.Sound)
    (hl : l.Valid) (h0 : l.size ≠ 0) :
    (∀ fuel w' t', Talloc.alloc oom fuel w t l = .ok (none, w', t') →
      (∃ n w₁ t₁, oks oom l n (w, t) = some (w₁, t₁) ∧ oom w₁ t₁ l = .ok (false, w', t')) ∧
      ¬ t'.Offers (t.layoutToSize l)) ↔
    ¬ Overlooked oom l (t.layoutToSize l) (w, t) := by
  obtain ⟨K, J, hsound⟩ := id ht
  have hJ := hsound.hJ
  obtain ⟨e, hsize, _⟩ := layoutToSize_spec (a := t.toArena) hl h0 hsound.smlst hJ
  have hnone : ∀ {s' : ω × Talloc FreeLists},
    (∃ fuel, Talloc.alloc oom fuel w t l = .ok (none, s')) ↔
      GivesUp oom l (2 ^ e) (w, t) s' := alloc_none_iff (s := (w, t)) hh ht hsize
  rw [hsize]
  constructor
  · rintro hall ⟨s', hgive, hoff⟩
    obtain ⟨fuel, hrun⟩ := hnone.mpr hgive
    exact (hall fuel s'.1 s'.2 hrun).2 hoff
  · intro hno fuel w' t' hrun
    have hgive := hnone.mp ⟨fuel, hrun⟩
    refine ⟨?_, fun hoff => hno ⟨(w', t'), hgive, hoff⟩⟩
    obtain ⟨n, ⟨s₁, h1, hr, _⟩, _⟩ := hgive
    exact ⟨n, s₁.1, s₁.2, h1, hr⟩

end Handler

/-! ### A block given back and not looked for

The sample heap with everything allocated. The handler holds the block at 4224 and
gives it back when it is first asked for one of 128 bytes.
-/

/-- The sample heap with all of it taken. -/
def sampleFull : Talloc FreeLists := sample [[], [], [], [], [], []] 0 0 0

/-- Who has it. -/
def sampleFullLedger : Ledger :=
  sampleLedger [(4224, ⟨128, 8⟩), (4352, ⟨256, 8⟩), (4608, ⟨512, 8⟩)]

/-- It is taken by three allocations. -/
theorem sampleFull_run : Run 4096 1024 32 ⟨4096, 1024⟩ sampleFullLedger sampleFull := by
  have h1 : (Op.alloc ⟨512, 8⟩ []).run (sampleLedger []) sampleNew = .ok (some 4608,
      sampleLedger [(4608, ⟨512, 8⟩)], sample [[], [], [4352], [4224], [], []] 12 0x14 0) := by
    decide +kernel
  have h2 : (Op.alloc ⟨256, 8⟩ []).run (sampleLedger [(4608, ⟨512, 8⟩)])
      (sample [[], [], [4352], [4224], [], []] 12 0x14 0) = .ok (some 4352,
        sampleLedger [(4352, ⟨256, 8⟩), (4608, ⟨512, 8⟩)],
        sample [[], [], [], [4224], [], []] 8 0x10 0) := by decide +kernel
  have h3 : (Op.alloc ⟨128, 8⟩ []).run (sampleLedger [(4352, ⟨256, 8⟩), (4608, ⟨512, 8⟩)])
      (sample [[], [], [], [4224], [], []] 8 0x10 0)
      = .ok (some 4224, sampleFullLedger, sampleFull) := by decide +kernel
  obtain ⟨hsite, t₀, hnew, hcalls⟩ := sample_run
  refine ⟨hsite, t₀, hnew, ?_⟩
  refine Calls.call (Calls.call (Calls.call hcalls trivial ?_ h1) trivial ?_ h2) trivial ?_ h3
  · exact ⟨⟨⟨3, rfl⟩, by decide⟩, by decide, trivial⟩
  · exact ⟨⟨⟨3, rfl⟩, by decide⟩, by decide, trivial⟩
  · exact ⟨⟨⟨3, rfl⟩, by decide⟩, by decide, trivial⟩

/-- The sample heap with the block at 4224 given back. -/
def sampleGiven : Talloc FreeLists := sample [[], [], [], [4224], [], []] 8 0x10 0

/-- The handler that holds the block at 4224 of the full sample heap: it gives it back
when it is first asked, and refuses otherwise. -/
def giveBack : OomHandler Bool FreeLists := fun held t _ =>
  if held = true ∧ t = sampleFull then do
    let t ← t.dealloc 4224 ⟨128, 8⟩
    return (true, false, t)
  else .ok (false, held, t)

/-- It is a sound handler. -/
theorem giveBack_handles : Handles giveBack where
  keeps {w t l ok w' t'} ht hrun := by
    unfold giveBack at hrun
    split at hrun
    next hc =>
      obtain ⟨_, rfl⟩ := hc
      have hd : sampleFull.dealloc 4224 ⟨128, 8⟩ = .ok sampleGiven := by decide +kernel
      rw [hd] at hrun
      cases hrun
      -- the block goes back to where `alloc` had taken it from
      obtain ⟨K, J, hacc, _⟩ := sampleFull_run.accounted
      have hmem : ((4224, ⟨128, 8⟩) : Int × Layout) ∈ sampleFullLedger.live := List.mem_cons_self ..
      obtain ⟨t₁, hd₁, hacc₁, _⟩ := hacc.dealloc hmem
      rw [hd] at hd₁
      cases hd₁
      exact ⟨⟨K, J, hacc₁.inv.soundAt⟩, le_refl _, rfl⟩
    next =>
      cases hrun
      exact ⟨ht, le_refl _, rfl⟩

/-- The full heap is sound. -/
theorem sampleFull_sound : sampleFull.Sound := by
  obtain ⟨K, J, hacc, _⟩ := sampleFull_run.accounted
  exact ⟨K, J, hacc.inv.soundAt⟩

/-- The full heap is asked for 128 bytes: the handler frees exactly such a block, and
`alloc` fails nevertheless. -/
theorem alloc_err_with_block_free :
    Run 4096 1024 32 ⟨4096, 1024⟩ sampleFullLedger sampleFull ∧ Handles giveBack ∧
    Talloc.alloc giveBack 2 true sampleFull ⟨128, 8⟩ = .ok (none, false, sampleGiven) ∧
    sampleGiven.Offers (sampleFull.layoutToSize ⟨128, 8⟩) := by
  refine ⟨sampleFull_run, giveBack_handles, by decide +kernel, 3, 4224, ?_, ?_⟩
  · exact List.mem_cons_self ..
  · decide +kernel

/-- Asked for 256 bytes, the same handler has nothing that would do. -/
theorem alloc_err_iff_sample : Handles giveBack ∧ sampleFull.Sound ∧
    ∀ fuel w' t', Talloc.alloc giveBack fuel true sampleFull ⟨256, 8⟩ = .ok (none, w', t') →
      (∃ n w₁ t₁, oks giveBack ⟨256, 8⟩ n (true, sampleFull) = some (w₁, t₁) ∧
        giveBack w₁ t₁ ⟨256, 8⟩ = .ok (false, w', t')) ∧
      ¬ t'.Offers (sampleFull.layoutToSize ⟨256, 8⟩) := by
  refine ⟨giveBack_handles, sampleFull_sound, ?_⟩
  refine (alloc_err_iff giveBack_handles sampleFull_sound ⟨⟨3, rfl⟩, by decide⟩ (by decide)).mpr ?_
  rintro ⟨s', ⟨n, ⟨s₁, hs₁, hr, _⟩, _⟩, g, b, hb, hle⟩
  have hfirst : giveBack true sampleFull ⟨256, 8⟩ = .ok (true, false, sampleGiven) := by
    decide +kernel
  have hthen : giveBack false sampleGiven ⟨256, 8⟩ = .ok (false, false, sampleGiven) := by
    decide +kernel
  -- one answer `Ok`, then the refusal
  have hs' : s' = (false, sampleGiven) := by
    cases n with
    | zero =>
      cases hs₁
      cases hfirst.symm.trans hr
    | succ n =>
      rw [oks_succ (s := (true, sampleFull)) hfirst] at hs₁
      cases n with
      | zero =>
        cases hs₁
        exact congrArg Prod.snd (Except.ok.inj (hr.symm.trans hthen))
      | succ n =>
        obtain ⟨s₂, h2, _⟩ := oks_succ_some hs₁
        cases hthen.symm.trans h2
  subst hs'
  have hg : g < 6 := Talloc.lt_of_mem_list hb
  have hall : ∀ g < 6, sampleGiven.list g ≠ [] → ¬ sampleFull.layoutToSize ⟨256, 8⟩ ≤
      sampleGiven.arenaSizePow2 >>> g := by decide +kernel
  exact hall g hg (List.ne_nil_of_mem hb) hle

end Tauos.Memm
