import Tauos.Rust.Word

/-!
# Memory and pointers in it

Memory is a byte for every address. A pointer takes eight bytes, least
significant first; `readPtr` and `writePtr` are the loads and stores of a
`*mut T` field. A pointer reads back after it was written, and a write leaves
every byte outside its eight alone.
-/

namespace Tauos.Rust

abbrev Mem := Int → BitVec 8

/-- The number in the `n` bytes from `a` on. -/
def readBytes (m : Mem) (a : Int) : Nat → Nat
  | 0 => 0
  | n + 1 => (m a).toNat + 256 * readBytes m (a + 1) n

/-- Store a number in the `n` bytes from `a` on. -/
def writeBytes (m : Mem) (a : Int) : Nat → Nat → Mem
  | 0, _ => m
  | n + 1, v => fun x => if x = a then BitVec.ofNat 8 v else writeBytes m (a + 1) n (v / 256) x

/-- Load of a pointer. -/
def readPtr (m : Mem) (a : Int) : Int := asIsize (readBytes m a 8)

/-- Store of a pointer. -/
def writePtr (m : Mem) (a v : Int) : Mem := writeBytes m a 8 (asUsize v)

/-- `ptr::copy_nonoverlapping` of bytes: the two ranges may not share one. -/
def copyNonoverlapping (m : Mem) (src dst : Int) (count : Nat) : Except Fault Mem :=
  if src + count ≤ dst ∨ dst + count ≤ src then
    .ok fun x => if dst ≤ x ∧ x < dst + count then m (x - dst + src) else m x
  else .error .undefined

/-- A value in range survives the cast and back. -/
theorem asIsize_asUsize {x : Int} (h : InIsize x) : asIsize (asUsize x) = x := by
  unfold asIsize asUsize
  rw [Int.toNat_of_nonneg (Int.emod_nonneg x (by norm_num))]
  exact (Int.emod_bmod (x := x) (n := 2 ^ 64)).trans (bmod_of_inIsize h)

/-- Bytes outside of what is written stay. -/
theorem writeBytes_of_not_mem {m : Mem} : ∀ (n : Nat) {a x : Int} {v : Nat},
    ¬ (a ≤ x ∧ x < a + n) → writeBytes m a n v x = m x := by
  intro n
  induction n with
  | zero => intro a x v _; rfl
  | succ n ih =>
    intro a x v hx
    show (if x = a then _ else writeBytes m (a + 1) n (v / 256) x) = _
    rw [if_neg (by omega), ih (by omega)]

/-- What is read depends on the bytes there alone. -/
theorem readBytes_congr {m m' : Mem} : ∀ (n : Nat) {a : Int},
    (∀ x, a ≤ x → x < a + n → m' x = m x) → readBytes m' a n = readBytes m a n := by
  intro n
  induction n with
  | zero => intro a _; rfl
  | succ n ih =>
    intro a h
    simp only [readBytes]
    rw [h a (le_refl a) (by omega), ih fun x h1 h2 => h x (by omega) (by omega)]

/-- What was written is read back. -/
theorem readBytes_writeBytes {m : Mem} : ∀ (n : Nat) {a : Int} {v : Nat}, v < 256 ^ n →
    readBytes (writeBytes m a n v) a n = v := by
  intro n
  induction n with
  | zero =>
    intro a v hv
    have : v < 1 := hv
    show 0 = v
    omega
  | succ n ih =>
    intro a v hv
    have hlt : v / 256 < 256 ^ n := by
      rw [Nat.div_lt_iff_lt_mul (by norm_num), ← Nat.pow_succ]
      exact hv
    -- the bytes behind the first are those of the rest of the number
    have hrest : readBytes (writeBytes m a (n + 1) v) (a + 1) n
        = readBytes (writeBytes m (a + 1) n (v / 256)) (a + 1) n := by
      apply readBytes_congr
      intro x h1 _
      exact if_neg (by omega)
    have hfirst : writeBytes m a (n + 1) v a = BitVec.ofNat 8 v := if_pos rfl
    simp only [readBytes]
    rw [hfirst, hrest, ih hlt, BitVec.toNat_ofNat]
    omega

theorem inIsize_readPtr (m : Mem) (a : Int) : InIsize (readPtr m a) := by
  have h1 := Int.le_bmod (x := (readBytes m a 8 : Nat)) (m := 2 ^ 64) (by norm_num)
  have h2 := Int.bmod_lt (x := (readBytes m a 8 : Nat)) (m := 2 ^ 64) (by norm_num)
  unfold InIsize readPtr asIsize
  omega

/-- A pointer that was written is read back. -/
theorem readPtr_writePtr {m : Mem} {a v : Int} (h : InIsize v) :
    readPtr (writePtr m a v) a = v := by
  unfold readPtr writePtr
  rw [readBytes_writeBytes 8 (asUsize_lt v), asIsize_asUsize h]

/-- Bytes outside of the pointer stay. -/
theorem writePtr_of_not_mem {m : Mem} {a v x : Int} (h : ¬ (a ≤ x ∧ x < a + 8)) :
    writePtr m a v x = m x :=
  writeBytes_of_not_mem 8 h

/-- A pointer depends on its eight bytes alone. -/
theorem readPtr_congr {m m' : Mem} {a : Int} (h : ∀ x, a ≤ x → x < a + 8 → m' x = m x) :
    readPtr m' a = readPtr m a := by
  unfold readPtr
  rw [readBytes_congr 8 h]

/-- A pointer that does not share a byte with the one written. -/
theorem readPtr_writePtr_apart {m : Mem} {a b v : Int} (h : b + 8 ≤ a ∨ a + 8 ≤ b) :
    readPtr (writePtr m a v) b = readPtr m b :=
  readPtr_congr fun _ _ _ => writePtr_of_not_mem (by omega)

end Tauos.Rust
