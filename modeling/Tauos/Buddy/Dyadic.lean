import Mathlib.Tactic.Ring
import Mathlib.Tactic.Linarith
import Mathlib.Tactic.Push
import Mathlib.Algebra.Ring.Divisibility.Basic

/-!
# Aligned power-of-two blocks

The geometry every binary buddy scheme rests on, over all of `Int`. A block is
an exponent `e` and a base `b`, and holds the addresses `b ≤ x < b + 2 ^ e`
(`Within e b x`); it is `Aligned` when `2 ^ e ∣ b`. Two aligned blocks are
nested or apart (`Aligned.nested`), and a block and its `buddy` are the two
halves of their `parent` (`within_parent`).

A *family* of blocks is a predicate `F : Nat → Int → Prop`. It is `Canonical`
when its blocks are aligned, overlap only if equal, and no two of them are
buddies. The main result is that a canonical family is determined by the
addresses it covers:

> `Canonical.ext_of_covers`: `F` and `G` canonical with `Covers F = Covers G`
> have the same blocks.

The reason is `Canonical.exists_containing`: whatever aligned block is covered
at all is covered by a single member, since two halves that are members on
their own would be buddies.
-/

namespace Tauos.Buddy

/-- `x` is an address of the block of exponent `e` at `b`. -/
def Within (e : Nat) (b x : Int) : Prop := b ≤ x ∧ x < b + 2 ^ e

/-- The block of exponent `e` at `b` is naturally aligned. -/
def Aligned (e : Nat) (b : Int) : Prop := (2 ^ e : Int) ∣ b

instance (e : Nat) (b x : Int) : Decidable (Within e b x) := inferInstanceAs (Decidable (_ ∧ _))

instance (e : Nat) (b : Int) : Decidable (Aligned e b) := inferInstanceAs (Decidable (_ ∣ _))

theorem two_pow_pos (e : Nat) : (0 : Int) < 2 ^ e := by positivity

theorem two_pow_succ (e : Nat) : (2 : Int) ^ (e + 1) = 2 ^ e + 2 ^ e := by ring

/-- A block starts at its base. -/
theorem within_base (e : Nat) (b : Int) : Within e b b := ⟨le_refl _, by linarith [two_pow_pos e]⟩

/-- A larger alignment is a smaller one. -/
theorem Aligned.mono {e e' : Nat} {b : Int} (h : Aligned e' b) (hle : e ≤ e') : Aligned e b :=
  (pow_dvd_pow 2 hle).trans h

/-- The next block is aligned. -/
theorem Aligned.add {e : Nat} {b : Int} (h : Aligned e b) : Aligned e (b + 2 ^ e) :=
  dvd_add h (dvd_refl _)

/-- Adding `2 ^ j` to a block base of exponent at least `j` keeps alignment to `2 ^ j`. -/
theorem Aligned.add_of_le {e j : Nat} {b : Int} (h : Aligned e b) (hj : j ≤ e) :
    Aligned j (b + 2 ^ j) := (h.mono hj).add

/-- Two multiples of `2 ^ e` are at least `2 ^ e` apart. -/
theorem Aligned.add_le_of_lt {e : Nat} {x y : Int} (hx : Aligned e x) (hy : Aligned e y)
    (h : x < y) : x + 2 ^ e ≤ y := by
  obtain ⟨c, hc⟩ := dvd_sub hy hx
  have hpos := two_pow_pos e
  have : 1 ≤ c := by
    by_contra hcon
    nlinarith
  nlinarith

/-- Two aligned blocks that share an address are nested. -/
theorem Aligned.nested {e e' : Nat} {b b' x : Int} (ha : Aligned e b) (ha' : Aligned e' b')
    (hle : e ≤ e') (hx : Within e b x) (hx' : Within e' b' x) :
    b' ≤ b ∧ b + 2 ^ e ≤ b' + 2 ^ e' := by
  obtain ⟨c, rfl⟩ := ha
  obtain ⟨c', rfl⟩ := ha'
  obtain ⟨d, rfl⟩ := Nat.exists_eq_add_of_le hle
  have hp := two_pow_pos e
  have hpow : (2 : Int) ^ (e + d) = 2 ^ e * 2 ^ d := pow_add 2 e d
  obtain ⟨h1, h2⟩ := hx
  obtain ⟨h3, h4⟩ := hx'
  rw [hpow] at h3 h4 ⊢
  -- in units of `2 ^ e` the claim is about integers
  have hlo : 2 ^ d * c' < c + 1 := by
    by_contra hcon
    push Not at hcon
    nlinarith [mul_le_mul_of_nonneg_left hcon (le_of_lt hp)]
  have hhi : c < 2 ^ d * c' + 2 ^ d := by
    by_contra hcon
    push Not at hcon
    nlinarith [mul_le_mul_of_nonneg_left hcon (le_of_lt hp)]
  constructor
  · nlinarith [mul_le_mul_of_nonneg_left (show 2 ^ d * c' ≤ c by omega) (le_of_lt hp)]
  · nlinarith [mul_le_mul_of_nonneg_left (show c + 1 ≤ 2 ^ d * c' + 2 ^ d by omega) (le_of_lt hp)]

/-- A block that meets a larger one lies in it. -/
theorem Aligned.within_of_nested {e e' : Nat} {b b' x y : Int} (ha : Aligned e b)
    (ha' : Aligned e' b') (hle : e ≤ e') (hx : Within e b x) (hx' : Within e' b' x)
    (hy : Within e b y) : Within e' b' y := by
  obtain ⟨h1, h2⟩ := ha.nested ha' hle hx hx'
  obtain ⟨h3, h4⟩ := hy
  exact ⟨by linarith, by linarith⟩

/-- Aligned blocks of one size that share an address are equal. -/
theorem Aligned.eq_of_within {e : Nat} {b b' x : Int} (ha : Aligned e b) (ha' : Aligned e b')
    (hx : Within e b x) (hx' : Within e b' x) : b = b' := by
  obtain ⟨h1, _⟩ := ha.nested ha' (Nat.le_refl e) hx hx'
  obtain ⟨h2, _⟩ := ha'.nested ha (Nat.le_refl e) hx' hx
  omega

/-- The aligned block of exponent `e` that holds `x`. -/
def floorBlock (e : Nat) (x : Int) : Int := x / 2 ^ e * 2 ^ e

/-- The block of an address is aligned. -/
theorem aligned_floorBlock (e : Nat) (x : Int) : Aligned e (floorBlock e x) :=
  Dvd.intro_left _ rfl

/-- It holds the address. -/
theorem within_floorBlock (e : Nat) (x : Int) : Within e (floorBlock e x) x := by
  have hp := two_pow_pos e
  have h1 := Int.mul_ediv_add_emod x (2 ^ e)
  have h2 := Int.emod_nonneg x (ne_of_gt hp)
  have h3 := Int.emod_lt_of_pos x hp
  unfold floorBlock
  constructor <;> nlinarith [mul_comm (x / 2 ^ e) (2 ^ e)]

/-- The base of a block is its own floor. -/
theorem floorBlock_of_aligned {e : Nat} {x : Int} (h : Aligned e x) : floorBlock e x = x :=
  Int.ediv_mul_cancel h

theorem floorBlock_floorBlock (e : Nat) (x : Int) :
    floorBlock e (floorBlock e x) = floorBlock e x :=
  floorBlock_of_aligned (aligned_floorBlock e x)

/-- An aligned bound holds of an address exactly when it holds of its block. -/
theorem le_floorBlock {e : Nat} {c x : Int} (hc : Aligned e c) : c ≤ floorBlock e x ↔ c ≤ x := by
  obtain ⟨h1, h2⟩ := within_floorBlock e x
  refine ⟨fun h => h.trans h1, fun h => ?_⟩
  by_contra hcon
  have := (aligned_floorBlock e x).add_le_of_lt hc (not_le.mp hcon)
  omega

/-- Rounding down does not cross a boundary. -/
theorem floorBlock_lt {e : Nat} {c x : Int} (hc : Aligned e c) : floorBlock e x < c ↔ x < c := by
  rw [← not_le, ← not_le, le_floorBlock hc]

/-- The multiple of `2 ^ e` at or above `x`. -/
def ceilBlock (e : Nat) (x : Int) : Int := floorBlock e (x + (2 ^ e - 1))

/-- Rounding up goes less than a block up. -/
theorem ceilBlock_bounds (e : Nat) (x : Int) : x ≤ ceilBlock e x ∧ ceilBlock e x < x + 2 ^ e := by
  obtain ⟨h1, h2⟩ := within_floorBlock e (x + (2 ^ e - 1))
  unfold ceilBlock
  constructor <;> omega

/-- It is aligned. -/
theorem aligned_ceilBlock (e : Nat) (x : Int) : Aligned e (ceilBlock e x) := aligned_floorBlock e _

/-- An aligned address below `x` is below `x` rounded up. -/
theorem lt_ceilBlock {e : Nat} {s x : Int} (hs : Aligned e s) : s < ceilBlock e x ↔ s < x := by
  obtain ⟨h1, h2⟩ := ceilBlock_bounds e x
  refine ⟨fun hlt => ?_, fun hlt => by omega⟩
  have := hs.add_le_of_lt (aligned_ceilBlock e x) hlt
  omega

/-- It is monotone. -/
theorem ceilBlock_mono {e : Nat} {x y : Int} (hxy : x ≤ y) : ceilBlock e x ≤ ceilBlock e y := by
  by_contra hcon
  have h1 := (lt_ceilBlock (aligned_ceilBlock e y)).mp (not_le.mp hcon)
  have h2 := (ceilBlock_bounds e y).1
  omega

/-- Blocks are moved by their size. -/
theorem floorBlock_add {e : Nat} {x c : Int} (hc : Aligned e c) :
    floorBlock e (x + c) = floorBlock e x + c := by
  obtain ⟨h1, h2⟩ := within_floorBlock e x
  refine (aligned_floorBlock e _).eq_of_within (dvd_add (aligned_floorBlock e x) hc)
    (within_floorBlock e (x + c)) ⟨by omega, by omega⟩

/-! ## Buddies -/

/-- The other half of the block of exponent `e + 1` around the block at `b`. -/
def buddy (e : Nat) (b : Int) : Int := if Aligned (e + 1) b then b + 2 ^ e else b - 2 ^ e

/-- The base of the block of exponent `e + 1` around the block at `b`. -/
def parent (e : Nat) (b : Int) : Int := if Aligned (e + 1) b then b else b - 2 ^ e

/-- The block in front of an upper half is its lower half. -/
theorem aligned_sub_of_not {e : Nat} {b : Int} (h : Aligned e b) (hn : ¬ Aligned (e + 1) b) :
    Aligned (e + 1) (b - 2 ^ e) := by
  obtain ⟨c, rfl⟩ := h
  have hodd : c % 2 = 1 := by
    rcases Int.emod_two_eq_zero_or_one c with h0 | h1
    · exact absurd ⟨c / 2, by rw [pow_succ, mul_assoc,
        Int.mul_ediv_cancel' (Int.dvd_of_emod_eq_zero h0)]⟩ hn
    · exact h1
  refine ⟨c / 2, ?_⟩
  have : c = 2 * (c / 2) + 1 := by omega
  calc 2 ^ e * c - 2 ^ e = 2 ^ e * (2 * (c / 2) + 1) - 2 ^ e := by rw [← this]
    _ = 2 ^ (e + 1) * (c / 2) := by ring

/-- The parent is aligned. -/
theorem aligned_parent {e : Nat} {b : Int} (h : Aligned e b) : Aligned (e + 1) (parent e b) := by
  unfold parent
  split
  · assumption
  · exact aligned_sub_of_not h ‹_›

/-- The upper half is not aligned like its parent. -/
theorem not_aligned_add {e : Nat} {b : Int} (h : Aligned (e + 1) b) :
    ¬ Aligned (e + 1) (b + 2 ^ e) := by
  intro h2
  have h3 : (2 ^ (e + 1) : Int) ∣ 2 ^ e := by
    have := dvd_sub h2 h
    simpa using this
  have := Int.le_of_dvd (two_pow_pos e) h3
  rw [two_pow_succ] at this
  linarith [two_pow_pos e]

/-- The buddy is aligned. -/
theorem aligned_buddy {e : Nat} {b : Int} (h : Aligned e b) : Aligned e (buddy e b) := by
  unfold buddy
  split
  · exact h.add
  · exact dvd_sub h (dvd_refl _)

/-- A block is not its own buddy. -/
theorem buddy_ne (e : Nat) (b : Int) : buddy e b ≠ b := by
  have := two_pow_pos e
  unfold buddy
  split <;> omega

/-- The buddy of the buddy is the block. -/
theorem buddy_buddy {e : Nat} {b : Int} (h : Aligned e b) : buddy e (buddy e b) = b := by
  by_cases ha : Aligned (e + 1) b
  · rw [show buddy e b = b + 2 ^ e from if_pos ha, buddy, if_neg (not_aligned_add ha)]
    ring
  · rw [show buddy e b = b - 2 ^ e from if_neg ha, buddy, if_pos (aligned_sub_of_not h ha)]
    ring

/-- Buddies have one parent. -/
theorem parent_buddy {e : Nat} {b : Int} (h : Aligned e b) : parent e (buddy e b) = parent e b := by
  by_cases ha : Aligned (e + 1) b
  · rw [show buddy e b = b + 2 ^ e from if_pos ha, parent, if_neg (not_aligned_add ha), parent,
      if_pos ha]
    ring
  · rw [show buddy e b = b - 2 ^ e from if_neg ha, parent, if_pos (aligned_sub_of_not h ha), parent,
      if_neg ha]

/-- Blocks with one parent are equal or buddies. -/
theorem eq_or_eq_buddy {e : Nat} {b c : Int} (h : parent e b = parent e c) :
    b = c ∨ b = buddy e c := by
  by_cases hb : Aligned (e + 1) b <;> by_cases hc : Aligned (e + 1) c
  · rw [parent, parent, if_pos hb, if_pos hc] at h
    exact Or.inl h
  · rw [parent, parent, if_pos hb, if_neg hc] at h
    exact Or.inr (by rw [buddy, if_neg hc, h])
  · rw [parent, parent, if_neg hb, if_pos hc] at h
    exact Or.inr (by rw [buddy, if_pos hc]; omega)
  · rw [parent, parent, if_neg hb, if_neg hc] at h
    exact Or.inl (by omega)

/-- The parent is the disjoint union of its two halves. -/
theorem within_parent {e : Nat} {b x : Int} :
    Within (e + 1) (parent e b) x ↔ Within e b x ∨ Within e (buddy e b) x := by
  have hp := two_pow_pos e
  have hs := two_pow_succ e
  unfold Within parent buddy
  split <;> omega

/-- The parent is the block of the next size that holds `b`. -/
theorem parent_eq_floorBlock {e : Nat} {b : Int} (h : Aligned e b) :
    parent e b = floorBlock (e + 1) b :=
  (aligned_parent h).eq_of_within (aligned_floorBlock _ _)
    (within_parent.mpr (Or.inl (within_base e b))) (within_floorBlock _ _)

/-! ## Families of blocks -/

/-- The addresses covered by a family of blocks. -/
def Covers (F : Nat → Int → Prop) (x : Int) : Prop := ∃ e b, F e b ∧ Within e b x

/-- A parent is clear of a family when one half is and the other was taken from it. -/
theorem not_covers_parent {F G : Nat → Int → Prop} {e : Nat} {b : Int}
    (hfree : ∀ x, Within e b x → ¬ Covers F x)
    (hcov : ∀ x, Covers G x ↔ Covers F x ∧ ¬ Within e (buddy e b) x) {x : Int}
    (hx : Within (e + 1) (parent e b) x) : ¬ Covers G x := by
  intro hG
  obtain ⟨hF, hne⟩ := (hcov x).mp hG
  rcases within_parent.mp hx with hx | hx
  · exact hfree x hx hF
  · exact hne hx

/-- What is in neither half is not in the parent. -/
theorem not_within_parent {F : Nat → Int → Prop} {e : Nat} {b y : Int} (hny : ¬ Within e b y)
    (hF : F e (buddy e b)) (hyf : ¬ Covers F y) : ¬ Within (e + 1) (parent e b) y := by
  intro hy
  rcases within_parent.mp hy with hy | hy
  · exact hny hy
  · exact hyf ⟨e, buddy e b, hF, hy⟩

/-- Aligned blocks, pairwise apart, no two of them buddies. -/
structure Canonical (F : Nat → Int → Prop) : Prop where
  aligned : ∀ {e b}, F e b → Aligned e b
  apart : ∀ {e b e' b' x}, F e b → F e' b' → Within e b x → Within e' b' x → e = e' ∧ b = b'
  noBuddy : ∀ {e b}, F e b → ¬ F e (buddy e b)

/-- Fewer blocks are canonical too. -/
theorem Canonical.mono {F G : Nat → Int → Prop} (h : Canonical F) (hsub : ∀ e b, G e b → F e b) :
    Canonical G where
  aligned hb := h.aligned (hsub _ _ hb)
  apart hb hb' := h.apart (hsub _ _ hb) (hsub _ _ hb')
  noBuddy hb hb' := h.noBuddy (hsub _ _ hb) (hsub _ _ hb')

/-- Adding an aligned block that is not covered and whose buddy is not a member. -/
theorem Canonical.insert {F : Nat → Int → Prop} (h : Canonical F) {e : Nat} {b : Int}
    (ha : Aligned e b) (hfree : ∀ x, Within e b x → ¬ Covers F x) (hbud : ¬ F e (buddy e b)) :
    Canonical (fun e' b' => (e' = e ∧ b' = b) ∨ F e' b') where
  aligned hb := by
    rcases hb with ⟨rfl, rfl⟩ | hb
    · exact ha
    · exact h.aligned hb
  apart hb hb' hx hx' := by
    rcases hb with ⟨rfl, rfl⟩ | hb <;> rcases hb' with ⟨rfl, rfl⟩ | hb'
    · exact ⟨rfl, rfl⟩
    · exact absurd ⟨_, _, hb', hx'⟩ (hfree _ hx)
    · exact absurd ⟨_, _, hb, hx⟩ (hfree _ hx')
    · exact h.apart hb hb' hx hx'
  noBuddy {e' b'} hb hb' := by
    rcases hb with ⟨rfl, rfl⟩ | hb <;> rcases hb' with ⟨_, heq⟩ | hb'
    · exact buddy_ne _ _ heq
    · exact hbud hb'
    · subst_vars
      rw [buddy_buddy (h.aligned hb)] at hbud
      exact hbud hb
    · exact h.noBuddy hb hb'

/-- An aligned block covered by a canonical family lies inside one member: were
its halves covered by two members, these would be the halves themselves. -/
theorem Canonical.exists_containing {F : Nat → Int → Prop} (h : Canonical F) :
    ∀ {e : Nat} {b : Int}, Aligned e b → (∀ x, Within e b x → Covers F x) →
      ∃ e' b', F e' b' ∧ e ≤ e' ∧ ∀ x, Within e b x → Within e' b' x := by
  intro e
  induction e with
  | zero =>
    intro b _ hcov
    obtain ⟨e', b', hF, hin⟩ := hcov b (within_base 0 b)
    refine ⟨e', b', hF, Nat.zero_le _, fun x hx => ?_⟩
    obtain ⟨h1, h2⟩ := hx
    obtain rfl : x = b := by
      rw [pow_zero] at h2
      omega
    exact hin
  | succ e ih =>
    intro b ha hcov
    have halo : Aligned e b := ha.mono (Nat.le_succ e)
    have hpar : parent e b = b := if_pos ha
    have hsplit : ∀ x, Within (e + 1) b x ↔ Within e b x ∨ Within e (buddy e b) x := by
      intro x
      have := within_parent (e := e) (b := b) (x := x)
      rwa [hpar] at this
    obtain ⟨e₁, b₁, hF₁, hle₁, hin₁⟩ := ih halo (fun x hx => hcov x ((hsplit x).mpr (Or.inl hx)))
    obtain ⟨e₂, b₂, hF₂, hle₂, hin₂⟩ :=
      ih (aligned_buddy halo) (fun x hx => hcov x ((hsplit x).mpr (Or.inr hx)))
    -- a member strictly larger than one half already holds the whole block
    rcases Nat.lt_or_ge e e₁ with hlt | hge₁
    · refine ⟨e₁, b₁, hF₁, hlt, fun x hx => ?_⟩
      exact ha.within_of_nested (h.aligned hF₁) hlt
        ((hsplit b).mpr (Or.inl (within_base e b))) (hin₁ b (within_base e b)) hx
    rcases Nat.lt_or_ge e e₂ with hlt | hge₂
    · refine ⟨e₂, b₂, hF₂, hlt, fun x hx => ?_⟩
      exact ha.within_of_nested (h.aligned hF₂) hlt
        ((hsplit _).mpr (Or.inr (within_base e _))) (hin₂ _ (within_base e _)) hx
    obtain rfl : e₁ = e := Nat.le_antisymm hge₁ hle₁
    obtain rfl : e₂ = e₁ := Nat.le_antisymm hge₂ hle₂
    have hb₁ := halo.eq_of_within (h.aligned hF₁) (within_base _ b) (hin₁ b (within_base _ b))
    have hb₂ := (aligned_buddy halo).eq_of_within (h.aligned hF₂) (within_base _ _)
      (hin₂ _ (within_base _ _))
    rw [← hb₁] at hF₁
    rw [← hb₂] at hF₂
    exact absurd hF₂ (h.noBuddy hF₁)

/-- Canonical families with the same addresses have the same blocks. -/
theorem Canonical.mem_of_covers {F G : Nat → Int → Prop} (hF : Canonical F) (hG : Canonical G)
    (hcov : ∀ x, Covers F x ↔ Covers G x) {e : Nat} {b : Int} (hb : F e b) : G e b := by
  obtain ⟨e', b', hG', hle, hin⟩ := hG.exists_containing (hF.aligned hb)
    (fun x hx => (hcov x).mp ⟨e, b, hb, hx⟩)
  obtain ⟨e'', b'', hF'', hle', hin'⟩ := hF.exists_containing (hG.aligned hG')
    (fun x hx => (hcov x).mpr ⟨e', b', hG', hx⟩)
  obtain ⟨he, hbb⟩ := hF.apart hb hF'' (within_base e b) (hin' b (hin b (within_base e b)))
  have hee : e = e' := by omega
  subst hee
  rw [(hF.aligned hb).eq_of_within (hG.aligned hG') (within_base e b) (hin b (within_base e b))]
  exact hG'

/-- A canonical family is determined by the addresses it covers. -/
theorem Canonical.ext_of_covers {F G : Nat → Int → Prop} (hF : Canonical F) (hG : Canonical G)
    (hcov : ∀ x, Covers F x ↔ Covers G x) (e : Nat) (b : Int) : F e b ↔ G e b :=
  ⟨hF.mem_of_covers hG hcov, hG.mem_of_covers hF (fun x => (hcov x).symm)⟩

end Tauos.Buddy
