import Tauos.Rust.Word

/-!
# Byte slices and their bits

A `*mut [u8]` whose elements are reached by `get_unchecked_mut` is a list of
`BitVec 8`; an index past the end breaks the contract of the unchecked access
and faults. `getBit` reads the slice as one bit field, least significant bit
first, which is how every user of such a slice addresses it.
-/

namespace Tauos.Rust

/-- `*slice.get_unchecked_mut(i)`. -/
def getByte (l : List (BitVec 8)) (i : Nat) : Except Fault (BitVec 8) :=
  match l[i]? with
  | some v => .ok v
  | none => .error .undefined

/-- `*slice.get_unchecked_mut(i) = v`. -/
def setByte (l : List (BitVec 8)) (i : Nat) (v : BitVec 8) : Except Fault (List (BitVec 8)) :=
  if i < l.length then .ok (l.set i v) else .error .undefined

/-- Bit `i` of a slice read as one bit field. -/
def getBit (l : List (BitVec 8)) (i : Nat) : Bool := (l.getD (i / 8) 0).getLsbD (i % 8)

/-- A byte inside is read. -/
theorem getByte_of_lt {l : List (BitVec 8)} {i : Nat} (h : i < l.length) :
    getByte l i = .ok (l.getD i 0) := by
  unfold getByte
  rw [List.getD_eq_getElem?_getD, List.getElem?_eq_getElem h]
  rfl

/-- A byte inside is written. -/
theorem setByte_of_lt {l : List (BitVec 8)} {i : Nat} (h : i < l.length) (v : BitVec 8) :
    setByte l i v = .ok (l.set i v) := if_pos h

/-- One byte is new, the others are as before. -/
theorem getD_set {l : List (BitVec 8)} {i : Nat} (h : i < l.length) (v : BitVec 8) (j : Nat) :
    (l.set i v).getD j 0 = if i = j then v else l.getD j 0 := by
  rw [List.getD_eq_getElem?_getD, List.getD_eq_getElem?_getD, List.getElem?_set]
  by_cases heq : i = j
  · subst heq
    simp [h]
  · simp [heq]

/-- Masking with one shifted bit tests that bit. -/
theorem and_one_shiftLeft_ne_zero (v : BitVec 8) {k : Nat} (hk : k < 8) :
    ((v &&& (1#8 <<< k)) != 0) = v.getLsbD k := by
  rw [← BitVec.twoPow_eq, BitVec.and_twoPow]
  cases hb : v.getLsbD k with
  | false => simp
  | true =>
    have hne : BitVec.twoPow 8 k ≠ 0 := by
      intro h
      have := congrArg (fun w => BitVec.getLsbD w k) h
      simp [hk] at this
    simpa using hne

/-- One bit is flipped. -/
theorem getLsbD_xor_one_shiftLeft (v : BitVec 8) {k j : Nat} (hk : k < 8) :
    (v ^^^ (1#8 <<< k)).getLsbD j = (v.getLsbD j ^^ decide (k = j)) := by
  rw [← BitVec.twoPow_eq, BitVec.getLsbD_xor, BitVec.getLsbD_twoPow]
  simp [hk]

/-- Toggling one bit of one byte toggles one bit of the field. -/
theorem getBit_toggle {l : List (BitVec 8)} {i : Nat} (h : i / 8 < l.length) (j : Nat) :
    getBit (l.set (i / 8) (l.getD (i / 8) 0 ^^^ (1#8 <<< (i % 8)))) j
      = (getBit l j ^^ decide (i = j)) := by
  unfold getBit
  rw [getD_set h]
  split
  next heq =>
    rw [getLsbD_xor_one_shiftLeft _ (Nat.mod_lt _ (by norm_num)), heq]
    congr 1
    simp only [decide_eq_decide]
    omega
  next hne =>
    have : i ≠ j := fun h => hne (by rw [h])
    simp [this]

/-- A slice is determined by its length and its bits. -/
theorem ext_getBit {l l' : List (BitVec 8)} (hlen : l.length = l'.length)
    (h : ∀ i, getBit l i = getBit l' i) : l = l' := by
  apply List.ext_getElem hlen
  intro i h1 h2
  apply BitVec.eq_of_getLsbD_eq
  intro j hj
  have := h (8 * i + j)
  unfold getBit at this
  rw [show (8 * i + j) / 8 = i by omega, show (8 * i + j) % 8 = j by omega,
    List.getD_eq_getElem?_getD, List.getD_eq_getElem?_getD, List.getElem?_eq_getElem h1,
    List.getElem?_eq_getElem h2] at this
  exact this

/-- No bit is set in a cleared slice. -/
theorem getBit_replicate_zero (n i : Nat) : getBit (List.replicate n 0) i = false := by
  unfold getBit
  rw [List.getD_eq_getElem?_getD, List.getElem?_replicate]
  split <;> simp

end Tauos.Rust
