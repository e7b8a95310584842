import Mathlib.Algebra.Ring.Nat

/-!
# Records in bit fields

A record that is packed into words is read by getters and changed by setters. `Accessors` is a
packed type with the record that its getters show. A run of setters is `Faithful` when no setter
fails and each does to the record what it is called for, and nothing else.

> `Accessors.faithful_iff`: a run is faithful if and only if its first record is shown right and
> each of its setters, alone, works.

Most setters write a field under a mask; `and_mask_self` and `and_mask_other` are what the getters
read afterwards. Where the fields are parts of a word side by side, `extract_low` and `extract_high`
take them out, and `append_setWidth` puts a number together from its parts.
-/

namespace Tauos.Rust

/-! ## Masks -/

section Masks

variable {w : Nat} {f m m' v : BitVec w}

/-- A field that is written reads back. -/
theorem and_mask_self (h : v &&& m = v) : (f &&& ~~~m ||| v) &&& m = v := by
  apply BitVec.eq_of_getLsbD_eq
  intro i hi
  have hbit := congrArg (BitVec.getLsbD · i) h
  simp only [BitVec.getLsbD_and] at hbit
  simp only [BitVec.getLsbD_and, BitVec.getLsbD_or, BitVec.getLsbD_not, hi, decide_true,
    Bool.true_and]
  cases hm : m.getLsbD i with
  | false => simpa [hm] using hbit
  | true => simp

/-- Other fields are as before. -/
theorem and_mask_other (h : v &&& m = v) (hapart : m &&& m' = 0) :
    (f &&& ~~~m ||| v) &&& m' = f &&& m' := by
  apply BitVec.eq_of_getLsbD_eq
  intro i hi
  have hbit := congrArg (BitVec.getLsbD · i) h
  have hbit' := congrArg (BitVec.getLsbD · i) hapart
  simp only [BitVec.getLsbD_and] at hbit hbit'
  simp only [BitVec.getLsbD_and, BitVec.getLsbD_or, BitVec.getLsbD_not, hi, decide_true,
    Bool.true_and]
  cases hm : m.getLsbD i with
  | false =>
    rw [hm, Bool.and_false] at hbit
    simp [← hbit]
  | true =>
    have hm' : m'.getLsbD i = false := by simpa [hm] using hbit'
    simp [hm']

/-- A field is empty under a mask apart from its own. -/
theorem and_eq_zero_of_under (h : v &&& m = v) (hapart : m &&& m' = 0#w) : v &&& m' = 0#w := by
  rw [← h, BitVec.and_assoc, hapart, BitVec.and_zero]

/-- A field is unchanged under a larger mask. -/
theorem and_eq_self_of_under (h : v &&& m = v) (hle : m &&& m' = m) : v &&& m' = v := by
  rw [← h, BitVec.and_assoc, hle]

/-- Nothing outside of the mask. -/
theorem and_not_eq_zero_iff : f &&& ~~~m = 0#w ↔ f &&& m = f := by
  have hsplit : f = f &&& m ||| f &&& ~~~m := by
    apply BitVec.eq_of_getLsbD_eq
    intro i hi
    simp only [BitVec.getLsbD_and, BitVec.getLsbD_or, BitVec.getLsbD_not, hi, decide_true,
      Bool.true_and]
    cases f.getLsbD i <;> cases m.getLsbD i <;> rfl
  constructor
  · intro h
    rw [h, BitVec.or_zero] at hsplit
    exact hsplit.symm
  · intro h
    rw [← h, BitVec.and_assoc, BitVec.and_not_self]
    exact BitVec.and_zero

/-- A field that is set is written under its mask. -/
theorem or_eq (f m : BitVec w) : f ||| m = f &&& ~~~m ||| m := by
  apply BitVec.eq_of_getLsbD_eq
  intro i hi
  simp only [BitVec.getLsbD_and, BitVec.getLsbD_or, BitVec.getLsbD_not, hi, decide_true,
    Bool.true_and]
  cases f.getLsbD i <;> cases m.getLsbD i <;> rfl

/-- Numbers of `k` bits. -/
theorem and_ones_eq_self_iff {k : Nat} (hk : k ≤ w) :
    v &&& BitVec.ofNat w (2 ^ k - 1) = v ↔ v.toNat < 2 ^ k := by
  have hlt : 2 ^ k - 1 < 2 ^ w := by
    have h1 := Nat.two_pow_pos k
    have h2 := Nat.pow_le_pow_right (show 0 < 2 by decide) hk
    omega
  rw [← BitVec.toNat_inj, BitVec.toNat_and, BitVec.toNat_ofNat, Nat.mod_eq_of_lt hlt,
    Nat.and_two_pow_sub_one_eq_mod]
  exact Nat.mod_eq_iff_lt (Nat.ne_of_gt (Nat.two_pow_pos k))

/-- A number is put together from its part below bit `k` and the rest. -/
theorem getLsbD_part (x : BitVec w) (i n : Nat) {j : Nat} (hj : j < w) :
    (((x >>> i).setWidth n).setWidth w <<< i).getLsbD j =
      (decide (i ≤ j ∧ j < i + n) && x.getLsbD j) := by
  simp only [BitVec.getLsbD_shiftLeft, BitVec.getLsbD_setWidth, BitVec.getLsbD_ushiftRight, hj]
  by_cases hi : i ≤ j
  · have hsub : i + (j - i) = j := Nat.add_sub_cancel' hi
    have hlt : j - i < w := by omega
    have hiff : j - i < n ↔ j < i + n := by omega
    simp [hi, hsub, hlt, hiff]
  · simp [hi, Nat.not_le.mp hi]

end Masks

/-! ## Words of parts -/

section Parts

/-- A part of the lowest one. -/
theorem extract_low {m n k l : Nat} (x : BitVec m) (y : BitVec n) (h : k + l ≤ n) :
    (x ++ y).extractLsb' k l = y.extractLsb' k l := by
  apply BitVec.eq_of_getLsbD_eq
  intro j hj
  rw [BitVec.getLsbD_extractLsb', BitVec.getLsbD_append, BitVec.getLsbD_extractLsb',
    if_pos (by omega)]

theorem extract_all {n : Nat} (x : BitVec n) : x.extractLsb' 0 n = x := by
  apply BitVec.eq_of_getLsbD_eq
  intro j hj
  rw [BitVec.getLsbD_extractLsb', Nat.zero_add, decide_eq_true hj, Bool.true_and]

/-- A part above the lowest one. -/
theorem extract_high {m n k l : Nat} (x : BitVec m) (y : BitVec n) :
    (x ++ y).extractLsb' (n + k) l = x.extractLsb' k l := by
  apply BitVec.eq_of_getLsbD_eq
  intro j hj
  rw [BitVec.getLsbD_extractLsb', BitVec.getLsbD_append, BitVec.getLsbD_extractLsb',
    if_neg (by omega)]
  congr 2
  omega

/-- The bits of the upper part. -/
theorem getLsbD_high {m n k : Nat} (x : BitVec m) (y : BitVec n) :
    (x ++ y).getLsbD (n + k) = x.getLsbD k := by
  rw [BitVec.getLsbD_append, if_neg (by omega), Nat.add_sub_cancel_left]

/-- A number is put together from its parts. -/
theorem append_setWidth {w : Nat} (x : BitVec w) (m n : Nat) :
    (x >>> n).setWidth m ++ x.setWidth n = x.setWidth (m + n) := by
  apply BitVec.eq_of_getLsbD_eq
  intro j hj
  rw [BitVec.getLsbD_append, BitVec.getLsbD_setWidth, BitVec.getLsbD_setWidth,
    BitVec.getLsbD_setWidth, BitVec.getLsbD_ushiftRight, decide_eq_true hj]
  split
  next hlow => rw [decide_eq_true hlow]
  next hhigh =>
    rw [decide_eq_true (by omega), show n + (j - n) = j by omega]

end Parts

/-! ## Getters and setters -/

/-- A packed type `D`, the record `V` of what its getters return, and its setters `S`, each with
its argument. -/
structure Accessors (ε D V S : Type) where
  view : D → Except ε V
  apply : S → D → Except ε D
  /-- what the setter is called for -/
  set : S → V → V

namespace Accessors

variable {ε D V S : Type} (A : Accessors ε D V S)

/-- The setter does not fail, the getters show the new value, and the others what they did. -/
def Works (s : S) (d : D) (v : V) : Prop :=
  ∃ d', A.apply s d = .ok d' ∧ A.view d' = .ok (A.set s v)

/-- The getters show `v`, and so it goes on through all of the setters. -/
def Faithful : D → V → List S → Prop
  | d, v, [] => A.view d = .ok v
  | d, v, s :: ss => A.view d = .ok v ∧ ∃ d', A.apply s d = .ok d' ∧ Faithful d' (A.set s v) ss

/-- What is read is the view. -/
theorem Faithful.view {A : Accessors ε D V S} {d : D} {v : V} {ss : List S}
    (h : A.Faithful d v ss) : A.view d = .ok v := by
  cases ss with
  | nil => exact h
  | cons s ss => exact h.1

/-- Whether a setter works is up to the setter alone. -/
theorem faithful_iff {Valid Good : S → Prop}
    (hiff : ∀ s d v, Valid s → A.view d = .ok v → (A.Works s d v ↔ Good s)) :
    ∀ (ss : List S) (d : D) (v : V), (∀ s ∈ ss, Valid s) →
      (A.Faithful d v ss ↔ A.view d = .ok v ∧ ∀ s ∈ ss, Good s) := by
  intro ss
  induction ss with
  | nil =>
    intro d v _
    exact ⟨fun h => ⟨h, fun s hs => absurd hs List.not_mem_nil⟩, fun h => h.1⟩
  | cons s ss ih =>
    intro d v hvalid
    obtain ⟨hs, hss⟩ := List.forall_mem_cons.mp hvalid
    constructor
    · rintro ⟨hview, d', happly, hrest⟩
      have hgood := (hiff s d v hs hview).mp ⟨d', happly, hrest.view⟩
      exact ⟨hview, List.forall_mem_cons.mpr ⟨hgood, ((ih d' _ hss).mp hrest).2⟩⟩
    · rintro ⟨hview, hall⟩
      obtain ⟨hgood, hgoods⟩ := List.forall_mem_cons.mp hall
      obtain ⟨d', happly, hview'⟩ := (hiff s d v hs hview).mpr hgood
      exact ⟨hview, d', happly, (ih d' _ hss).mpr ⟨hview', hgoods⟩⟩

end Accessors

end Tauos.Rust
