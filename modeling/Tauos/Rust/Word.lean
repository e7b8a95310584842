import Mathlib.Data.Nat.Log
import Mathlib.Tactic.Ring
import Mathlib.Tactic.Linarith

/-!
# Machine words of a 64-bit Rust target

`usize` values are `Nat`, `isize` values and addresses are `Int`; a pointer is
kept as its signed (`isize`) value, so that the upper canonical half is the
negative half. The conversions below are the two's complement ones.

The kernel is built with the `dev` profile, so arithmetic overflow panics. A
computation that can panic returns in `Except Fault`, and `Fault` also records
the other ways a modelled call fails to return a value: a failed `assert!`, a
broken safety contract of an `unsafe` function, and the fuel of a loop that
need not terminate.

Masks and leading/trailing zero counts are bit operations in the source; the
lemmas here (`maskDown_two_pow`, `trailingZeros_spec`, ...) replace them by
floor division and divisibility, which is the language of every later proof.
-/

namespace Tauos.Rust

/-- Why a modelled computation does not return a value. -/
inductive Fault
  /-- Overflow of an addition, a signed subtraction or a shift amount, with overflow
  checks on. -/
  | overflow
  /-- An unsigned subtraction below zero, with overflow checks on. -/
  | underflow
  /-- A failed `assert!`, `expect` or an explicit `panic!`. -/
  | assertion
  /-- The safety contract of an `unsafe` function is broken. -/
  | undefined
  /-- The fuel of a loop without a bound of its own ran out. -/
  | fuel
  deriving DecidableEq, Repr

/-- A step that returned is passed on. -/
theorem ok_bind {α β : Type} (a : α) (f : α → Except Fault β) : (Except.ok a >>= f) = f a := rfl

/-- A computation that returns got past its first part. -/
theorem bind_ok {α β : Type} {x : Except Fault α} {f : α → Except Fault β} {r : β}
    (h : (x >>= f) = .ok r) : ∃ a, x = .ok a ∧ f a = .ok r := by
  cases x with
  | error e => cases h
  | ok a => exact ⟨a, rfl, h⟩

/-- A computation that fails does so in its first part, or in the rest. -/
theorem bind_error {α β : Type} {x : Except Fault α} {f : α → Except Fault β} {e : Fault}
    (h : (x >>= f) = .error e) : x = .error e ∨ ∃ a, x = .ok a ∧ f a = .error e := by
  cases x with
  | error e' =>
    cases h
    exact Or.inl rfl
  | ok a => exact Or.inr ⟨a, rfl, h⟩

/-- `assert!(c)`. -/
def ensure (c : Bool) : Except Fault Unit :=
  if c then .ok () else .error .assertion

/-- `x` is a value of type `isize`. -/
def InIsize (x : Int) : Prop := -2 ^ 63 ≤ x ∧ x < 2 ^ 63

instance (x : Int) : Decidable (InIsize x) := inferInstanceAs (Decidable (_ ∧ _))

/-- `a + b` on `isize`, overflow checked. -/
def isizeAdd (a b : Int) : Except Fault Int :=
  if InIsize (a + b) then .ok (a + b) else .error .overflow

/-- `a - b` on `isize`, overflow checked. -/
def isizeSub (a b : Int) : Except Fault Int :=
  if InIsize (a - b) then .ok (a - b) else .error .overflow

/-- `a * b` on `isize`, overflow checked. -/
def isizeMul (a b : Int) : Except Fault Int :=
  if InIsize (a * b) then .ok (a * b) else .error .overflow

/-- `a - b` on `usize` (and `u32`), overflow checked. -/
def usizeSub (a b : Nat) : Except Fault Nat :=
  if b ≤ a then .ok (a - b) else .error .underflow

/-- `a + b` on `usize`, overflow checked. -/
def usizeAdd (a b : Nat) : Except Fault Nat :=
  if a + b < 2 ^ 64 then .ok (a + b) else .error .overflow

/-- `a * b` on `usize`, overflow checked. -/
def usizeMul (a b : Nat) : Except Fault Nat :=
  if a * b < 2 ^ 64 then .ok (a * b) else .error .overflow

/-- `1usize << k`, overflow checked: the shift amount has to be below 64. -/
def usizeShl (k : Nat) : Except Fault Nat :=
  if k < 64 then .ok (2 ^ k) else .error .overflow

/-- `x as usize` of an `isize` or a pointer. -/
def asUsize (x : Int) : Nat := (x % 2 ^ 64).toNat

/-- `n as isize` of a `usize`. -/
def asIsize (n : Nat) : Int := (n : Int).bmod (2 ^ 64)

/-- `p.wrapping_add(n)` on a byte pointer. -/
def wrappingAdd (p : Int) (n : Nat) : Int := (p + n).bmod (2 ^ 64)

/-- `p.wrapping_sub(n)` on a byte pointer. -/
def wrappingSub (p : Int) (n : Nat) : Int := (p - n).bmod (2 ^ 64)

/-- `n.leading_zeros()` on `usize`. -/
def leadingZeros (n : Nat) : Nat := if n = 0 then 64 else 63 - n.log2

/-- `x.trailing_zeros()` on `isize`: the index of the lowest set bit, 64 for zero. -/
def trailingZeros (x : Int) : Nat :=
  ((List.range 64).find? fun i => (asUsize x).testBit i).getD 64

/-- `n.next_power_of_two()` on `usize`. -/
def nextPowerOfTwo (n : Nat) : Nat := if n ≤ 1 then 1 else 2 ^ ((n - 1).log2 + 1)

/-- `x & !(w - 1)` on `isize`. -/
def maskDown (x : Int) (w : Nat) : Int :=
  (BitVec.ofInt 64 x &&& ~~~(BitVec.ofNat 64 w - 1)).toInt

/-! ## Conversions -/

/-- A value in range is its own representative. -/
theorem bmod_of_inIsize {x : Int} (h : InIsize x) : x.bmod (2 ^ 64) = x := by
  obtain ⟨h1, h2⟩ := h
  exact Int.bmod_eq_of_le (by norm_num; omega) (by norm_num; omega)

@[simp] theorem wrappingAdd_of_inIsize {p : Int} {n : Nat} (h : InIsize (p + n)) :
    wrappingAdd p n = p + n := bmod_of_inIsize h

@[simp] theorem wrappingSub_of_inIsize {p : Int} {n : Nat} (h : InIsize (p - n)) :
    wrappingSub p n = p - n := bmod_of_inIsize h

@[simp] theorem isizeAdd_of_inIsize {a b : Int} (h : InIsize (a + b)) :
    isizeAdd a b = .ok (a + b) := if_pos h

@[simp] theorem isizeSub_of_inIsize {a b : Int} (h : InIsize (a - b)) :
    isizeSub a b = .ok (a - b) := if_pos h

@[simp] theorem usizeSub_of_le {a b : Nat} (h : b ≤ a) : usizeSub a b = .ok (a - b) := if_pos h

/-- A sum that fits in a word is computed. -/
theorem usizeAdd_of_lt {a b : Nat} (h : a + b < 2 ^ 64) : usizeAdd a b = .ok (a + b) := if_pos h

/-- A product that fits in a word is computed. -/
theorem usizeMul_of_lt {a b : Nat} (h : a * b < 2 ^ 64) : usizeMul a b = .ok (a * b) := if_pos h

/-- A difference that was computed did not go below 0. -/
theorem usizeSub_ok {a b c : Nat} (h : usizeSub a b = .ok c) : b ≤ a ∧ c = a - b := by
  unfold usizeSub at h
  split at h
  next hle =>
    cases h
    exact ⟨hle, rfl⟩
  next => cases h

/-- A sum that was computed fits in a word. -/
theorem usizeAdd_ok {a b c : Nat} (h : usizeAdd a b = .ok c) : a + b < 2 ^ 64 ∧ c = a + b := by
  unfold usizeAdd at h
  split at h
  next hlt =>
    cases h
    exact ⟨hlt, rfl⟩
  next => cases h

/-- A product that was computed fits in a word. -/
theorem usizeMul_ok {a b c : Nat} (h : usizeMul a b = .ok c) : a * b < 2 ^ 64 ∧ c = a * b := by
  unfold usizeMul at h
  split at h
  next hlt =>
    cases h
    exact ⟨hlt, rfl⟩
  next => cases h

/-- A check that was passed holds. -/
theorem ensure_ok {c : Bool} {u : Unit} (h : ensure c = .ok u) : c = true := by
  unfold ensure at h
  split at h
  next hc => exact hc
  next => cases h

/-- The only fault of a sum. -/
theorem usizeAdd_error {a b : Nat} {e : Fault} (h : usizeAdd a b = .error e) : e = .overflow := by
  unfold usizeAdd at h
  split at h
  · cases h
  · cases h
    rfl

/-- The only fault of a product. -/
theorem usizeMul_error {a b : Nat} {e : Fault} (h : usizeMul a b = .error e) : e = .overflow := by
  unfold usizeMul at h
  split at h
  · cases h
  · cases h
    rfl

/-- A difference fails when it would be below 0. -/
theorem usizeSub_error {a b : Nat} {e : Fault} (h : usizeSub a b = .error e) : a < b := by
  unfold usizeSub at h
  split at h
  · cases h
  next hlt => exact Nat.not_le.mp hlt

/-- The only fault of a check. -/
theorem ensure_error {c : Bool} {e : Fault} (h : ensure c = .error e) : e = .assertion := by
  unfold ensure at h
  split at h
  · cases h
  · cases h
    rfl

/-- A signed sum that was computed is in range. -/
theorem isizeAdd_ok {a b c : Int} (h : isizeAdd a b = .ok c) : c = a + b ∧ InIsize c := by
  unfold isizeAdd at h
  split at h
  next hin =>
    cases h
    exact ⟨rfl, hin⟩
  next => cases h

/-- A signed difference that was computed is in range. -/
theorem isizeSub_ok {a b c : Int} (h : isizeSub a b = .ok c) : c = a - b ∧ InIsize c := by
  unfold isizeSub at h
  split at h
  next hin =>
    cases h
    exact ⟨rfl, hin⟩
  next => cases h

/-- A signed product that was computed is in range. -/
theorem isizeMul_ok {a b c : Int} (h : isizeMul a b = .ok c) : c = a * b ∧ InIsize c := by
  unfold isizeMul at h
  split at h
  next hin =>
    cases h
    exact ⟨rfl, hin⟩
  next => cases h

/-- Below 2⁶³ the signed value is the value. -/
theorem asIsize_of_lt {n : Nat} (h : n < 2 ^ 63) : asIsize n = n :=
  bmod_of_inIsize ⟨by omega, by omega⟩

theorem asUsize_lt (x : Int) : asUsize x < 2 ^ 64 := by
  unfold asUsize
  have h1 := Int.emod_nonneg x (show (2 ^ 64 : Int) ≠ 0 by norm_num)
  have h2 := Int.emod_lt_of_pos x (show (0 : Int) < 2 ^ 64 by norm_num)
  omega

/-- A value that is not negative is cast to itself. -/
theorem asUsize_of_nonneg {x : Int} (h0 : 0 ≤ x) (h1 : x < 2 ^ 64) : asUsize x = x.toNat := by
  unfold asUsize
  rw [Int.emod_eq_of_lt h0 h1]

/-- Reduction modulo a power of two sees only the low bits of the word. -/
theorem asUsize_emod {x : Int} {k : Nat} (hk : k ≤ 64) :
    ((asUsize x : Nat) : Int) % 2 ^ k = x % 2 ^ k := by
  unfold asUsize
  rw [Int.toNat_of_nonneg (Int.emod_nonneg x (by norm_num))]
  exact Int.emod_emod_of_dvd x (pow_dvd_pow 2 hk)

theorem toNat_ofInt (x : Int) : (BitVec.ofInt 64 x).toNat = asUsize x := by
  rw [BitVec.toNat_ofInt]
  rfl

/-! ## Masks -/

/-- Clearing the low `k` bits of a word rounds it down to a multiple of `2 ^ k`. -/
theorem and_not_low {n k : Nat} (hn : n < 2 ^ 64) (hk : k ≤ 64) :
    n &&& (2 ^ 64 - 2 ^ k) = 2 ^ k * (n / 2 ^ k) := by
  apply Nat.eq_of_testBit_eq
  intro i
  have hpos : 0 < 2 ^ k := Nat.two_pow_pos k
  have hle : 2 ^ k ≤ 2 ^ 64 := Nat.pow_le_pow_right (by norm_num) hk
  rw [Nat.testBit_and, Nat.testBit_two_pow_mul, Nat.testBit_div_two_pow]
  have hsub : 2 ^ 64 - 2 ^ k = 2 ^ 64 - ((2 ^ k - 1) + 1) := by omega
  rw [hsub, Nat.testBit_two_pow_sub_succ (by omega), Nat.testBit_two_pow_sub_one]
  rcases Nat.lt_or_ge i k with hik | hik
  · simp [hik, Nat.not_le.mpr hik]
  · rw [show i - k + k = i by omega]
    rcases Nat.lt_or_ge i 64 with hi | hi
    · simp [hi, hik, Nat.not_lt.mpr hik]
    · have : n.testBit i = false :=
        Nat.testBit_lt_two_pow (Nat.lt_of_lt_of_le hn (Nat.pow_le_pow_right (by norm_num) hi))
      simp [this]

/-- `x & !(2 ^ k - 1)` is the largest multiple of `2 ^ k` not above `x`. -/
theorem maskDown_two_pow {x : Int} {k : Nat} (hx : InIsize x) (hk : k < 64) :
    maskDown x (2 ^ k) = x / 2 ^ k * 2 ^ k := by
  have hpos : 0 < 2 ^ k := Nat.two_pow_pos k
  have hlt : 2 ^ k < 2 ^ 64 := Nat.pow_lt_pow_right (by norm_num) hk
  have hmask : (~~~(BitVec.ofNat 64 (2 ^ k) - 1)).toNat = 2 ^ 64 - 2 ^ k := by
    rw [BitVec.toNat_not, BitVec.toNat_sub_of_le, BitVec.toNat_ofNat,
      Nat.mod_eq_of_lt hlt]
    · show 2 ^ 64 - 1 - (2 ^ k - 1) = 2 ^ 64 - 2 ^ k
      omega
    · rw [BitVec.le_def, BitVec.toNat_ofNat, Nat.mod_eq_of_lt hlt]
      exact hpos
  unfold maskDown
  rw [BitVec.toInt_and, hmask, toNat_ofInt, and_not_low (asUsize_lt x) (Nat.le_of_lt hk)]
  -- both sides agree modulo `2 ^ 64`, and the right one is already an `isize`
  have hp : (0 : Int) < 2 ^ k := by positivity
  have hfloor : x / 2 ^ k * 2 ^ k = x - x % 2 ^ k := by
    have := Int.mul_ediv_add_emod x (2 ^ k)
    linarith [mul_comm (x / 2 ^ k) (2 ^ k)]
  have hnat : ((2 ^ k * (asUsize x / 2 ^ k) : Nat) : Int) = asUsize x - x % 2 ^ k := by
    rw [← asUsize_emod (Nat.le_of_lt hk)]
    have := Nat.div_add_mod (asUsize x) (2 ^ k)
    push_cast
    have h2 : ((asUsize x : Nat) : Int) = 2 ^ k * (asUsize x / 2 ^ k) + asUsize x % 2 ^ k := by
      exact_mod_cast this.symm
    linarith
  have hmodeq : ((2 ^ k * (asUsize x / 2 ^ k) : Nat) : Int) % (2 ^ 64 : Nat)
      = (x / 2 ^ k * 2 ^ k) % (2 ^ 64 : Nat) := by
    rw [hnat, hfloor]
    generalize x % 2 ^ k = r
    have := asUsize_emod (x := x) (Nat.le_refl 64)
    norm_num at this ⊢
    omega
  rw [Int.bmod_def, hmodeq, ← Int.bmod_def]
  apply bmod_of_inIsize
  obtain ⟨h1, h2⟩ := hx
  have hm0 := Int.emod_nonneg x (ne_of_gt hp)
  refine ⟨?_, by rw [hfloor]; omega⟩
  -- `-2 ^ 63` is itself a multiple of `2 ^ k`
  have hmul : (-2 ^ 63 : Int) = -2 ^ (63 - k) * 2 ^ k := by
    rw [neg_mul, ← pow_add, show 63 - k + k = 63 by omega]
  rw [hmul]
  apply mul_le_mul_of_nonneg_right _ (le_of_lt hp)
  rw [Int.le_ediv_iff_mul_le hp, ← hmul]
  exact h1

/-! ## Counting zeros -/

/-- The leading zeros of a power of two give its exponent. -/
theorem leadingZeros_two_pow {k : Nat} : leadingZeros (2 ^ k) = 63 - k := by
  unfold leadingZeros
  rw [if_neg (Nat.two_pow_pos k).ne', Nat.log2_two_pow]

/-- The trailing zero count of a nonzero `isize` is the exponent of the largest
power of two dividing it. -/
theorem trailingZeros_spec {x : Int} (hx : InIsize x) (h0 : x ≠ 0) :
    trailingZeros x < 64 ∧ (2 ^ trailingZeros x : Int) ∣ x ∧
      ¬ (2 ^ (trailingZeros x + 1) : Int) ∣ x := by
  -- low bits that are zero are a power of two that divides
  have hlow : ∀ k ≤ 64, (∀ i < k, (asUsize x).testBit i = false) → (2 ^ k : Int) ∣ x := by
    intro k hk hbits
    have hz : asUsize x % 2 ^ k = 0 := by
      apply Nat.eq_of_testBit_eq
      intro i
      rw [Nat.testBit_mod_two_pow, Nat.zero_testBit]
      by_cases hi : i < k
      · simp [hbits i hi]
      · simp [hi]
    apply Int.dvd_of_emod_eq_zero
    rw [← asUsize_emod hk]
    exact_mod_cast hz
  have hne : asUsize x ≠ 0 := by
    intro h
    have h64 := hlow 64 (Nat.le_refl _) (fun i _ => by rw [h]; exact Nat.zero_testBit i)
    obtain ⟨c, hc⟩ := h64
    obtain ⟨h1, h2⟩ := hx
    have : c = 0 := by omega
    subst this
    simp at hc
    exact h0 hc
  unfold trailingZeros
  -- the first bit that is set
  cases hf : (List.range 64).find? fun i => (asUsize x).testBit i with
  | none =>
    rw [List.find?_eq_none] at hf
    exfalso
    apply hne
    apply Nat.eq_of_testBit_eq
    intro i
    rw [Nat.zero_testBit]
    rcases Nat.lt_or_ge i 64 with hi | hi
    · simpa using hf i (List.mem_range.mpr hi)
    · exact Nat.testBit_lt_two_pow
        (Nat.lt_of_lt_of_le (asUsize_lt x) (Nat.pow_le_pow_right (by norm_num) hi))
  | some k =>
    have hk64 : k < 64 := List.mem_range.mp (List.mem_of_find?_eq_some hf)
    have hbit : (asUsize x).testBit k = true := by simpa using List.find?_some hf
    have hbelow : ∀ i < k, (asUsize x).testBit i = false := by
      intro i hi
      rw [List.find?_range_eq_some] at hf
      simpa using hf.2.2 i hi
    refine ⟨hk64, hlow k (Nat.le_of_lt hk64) hbelow, ?_⟩
    intro hdvd
    have hz : asUsize x % 2 ^ (k + 1) = 0 := by
      have := Int.emod_eq_zero_of_dvd hdvd
      rw [Option.getD_some, ← asUsize_emod (by omega)] at this
      exact_mod_cast this
    have hfalse : (asUsize x % 2 ^ (k + 1)).testBit k =
      false := by rw [hz]; exact Nat.zero_testBit k
    rw [Nat.testBit_mod_two_pow] at hfalse
    simp [hbit] at hfalse

/-- `next_power_of_two` is the least power of two at or above its argument. -/
theorem nextPowerOfTwo_spec {n : Nat} (h : 2 ≤ n) :
    ∃ k, nextPowerOfTwo n = 2 ^ k ∧ n ≤ 2 ^ k ∧ 2 ^ k < 2 * n ∧ (n - 1).log2 + 1 = k := by
  refine ⟨(n - 1).log2 + 1, by unfold nextPowerOfTwo; rw [if_neg (by omega)], ?_, ?_, rfl⟩
  · have := Nat.lt_log2_self (n := n - 1)
    omega
  · have := Nat.log2_self_le (n := n - 1) (by omega)
    rw [pow_succ]
    omega

end Tauos.Rust
