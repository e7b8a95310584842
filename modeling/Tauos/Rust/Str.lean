import Mathlib.Data.List.DropRight
import Mathlib.Data.List.TakeWhile
import Mathlib.Data.Nat.Digits.Defs

/-!
# Strings

The functions of `str` that read a text of settings, on the characters of the string:
`trim`, `split_once` and `from_str_radix`. `split` at a character is `List.splitOn`, and
`starts_with` is `List.isPrefixOf`.
-/

namespace Tauos.Rust

/-- `char::is_whitespace`: the property `White_Space`. -/
def isWhitespace (c : Char) : Bool :=
  (0x09 ≤ c.toNat ∧ c.toNat ≤ 0x0d) ∨ c.toNat = 0x20 ∨ c.toNat = 0x85 ∨ c.toNat = 0xa0 ∨
  c.toNat = 0x1680 ∨ (0x2000 ≤ c.toNat ∧ c.toNat ≤ 0x200a) ∨ c.toNat = 0x2028 ∨ c.toNat = 0x2029 ∨
  c.toNat = 0x202f ∨ c.toNat = 0x205f ∨ c.toNat = 0x3000

/-- `str::trim`. -/
def trim (s : List Char) : List Char := (s.dropWhile isWhitespace).rdropWhile isWhitespace

/-- `str::split_once`. -/
def splitOnce (sep : Char) : List Char → Option (List Char × List Char)
  | [] => none
  | c :: s => if c = sep then some ([], s) else (splitOnce sep s).map fun p => (c :: p.1, p.2)

/-- `char::to_digit`. -/
def toDigit (c : Char) (radix : Nat) : Option Nat :=
  let digit :=
    if '0' ≤ c ∧ c ≤ '9' then c.toNat - '0'.toNat
    else if 'a' ≤ c ∧ c ≤ 'z' then c.toNat - 'a'.toNat + 10
    else if 'A' ≤ c ∧ c ≤ 'Z' then c.toNat - 'A'.toNat + 10
    else radix
  if digit < radix then some digit else none

/-- The digits of a `usize`, with `result` for the ones read. -/
def readDigits (radix : Nat) : Nat → List Char → Option Nat
  | result, [] => some result
  | result, c :: s => do
    let digit ← toDigit c radix
    if result * radix + digit < 2 ^ 64 then readDigits radix (result * radix + digit) s else none

/-- `usize::from_str_radix`. -/
def fromStrRadix (src : List Char) (radix : Nat) : Option Nat :=
  match src with
  | [] => none
  | ['+'] => none
  | ['-'] => none
  | '+' :: digits => readDigits radix 0 digits
  | digits => readDigits radix 0 digits

/-! ## Trimming -/

variable {s : List Char} {c : Char}

/-- What is dropped in front is whitespace. -/
theorem dropWhile_split (s : List Char) : ∃ ws, (∀ c ∈ ws, isWhitespace c = true) ∧
    s = ws ++ s.dropWhile isWhitespace :=
  ⟨s.takeWhile isWhitespace, fun _ hc => List.mem_takeWhile_imp hc,
    (List.takeWhile_append_dropWhile).symm⟩

/-- What is dropped at the end is whitespace. -/
theorem rdropWhile_split (s : List Char) : ∃ ws, (∀ c ∈ ws, isWhitespace c = true) ∧
    s = s.rdropWhile isWhitespace ++ ws := by
  obtain ⟨ws, hws, hs⟩ := dropWhile_split s.reverse
  refine ⟨ws.reverse, fun c hc => hws c (List.mem_reverse.mp hc), ?_⟩
  rw [List.rdropWhile, ← List.reverse_append, ← hs, List.reverse_reverse]

/-- A text is its trimmed part between white space. -/
theorem trim_split (s : List Char) : ∃ pre post, (∀ c ∈ pre, isWhitespace c = true) ∧
    (∀ c ∈ post, isWhitespace c = true) ∧ s = pre ++ trim s ++ post := by
  obtain ⟨pre, hpre, hs⟩ := dropWhile_split s
  obtain ⟨post, hpost, hs'⟩ := rdropWhile_split (s.dropWhile isWhitespace)
  refine ⟨pre, post, hpre, hpost, ?_⟩
  rw [List.append_assoc, trim, ← hs']
  exact hs

/-- Nothing is left of a blank string. -/
theorem trim_of_blank (h : ∀ c ∈ s, isWhitespace c = true) : trim s = [] := by
  rw [trim, List.dropWhile_eq_nil_iff.mpr h, List.rdropWhile_nil]

/-- Dropping at the end stops at a character that is no whitespace. -/
theorem rdropWhile_append_cons (s t : List Char) (hc : isWhitespace c = false) :
    (s ++ c :: t).rdropWhile isWhitespace = s ++ c :: t.rdropWhile isWhitespace := by
  rw [List.rdropWhile, List.rdropWhile, List.reverse_append, List.reverse_cons, List.append_assoc,
    List.dropWhile_append]
  split
  next hempty => simp [List.isEmpty_iff.mp hempty, hc]
  next => simp

/-- White space in front is dropped, and the first other character stays. -/
theorem trim_append_cons {ws t : List Char} (hws : ∀ c ∈ ws, isWhitespace c = true)
    (hc : isWhitespace c = false) :
    trim (ws ++ c :: t) = c :: t.rdropWhile isWhitespace := by
  rw [trim, List.dropWhile_append_of_pos hws, List.dropWhile_cons_of_neg (by simp [hc])]
  exact rdropWhile_append_cons [] t hc

/-! ## Splitting -/

/-- The two parts with the separator between them are the string. -/
theorem splitOnce_eq {sep : Char} : ∀ {s a b : List Char}, splitOnce sep s = some (a, b) →
    s = a ++ sep :: b := by
  intro s
  induction s with
  | nil =>
    intro a b h
    cases h
  | cons c s ih =>
    intro a b h
    unfold splitOnce at h
    split at h
    next hc =>
      cases h
      rw [hc]
      rfl
    next =>
      obtain ⟨⟨a', b'⟩, hsplit, hp⟩ := Option.map_eq_some_iff.mp h
      cases hp
      rw [ih hsplit]
      rfl

/-- Only a string without the separator is not split. -/
theorem splitOnce_eq_none {sep : Char} : ∀ {s : List Char}, splitOnce sep s = none ↔ sep ∉ s := by
  intro s
  induction s with
  | nil => simp [splitOnce]
  | cons c s ih =>
    unfold splitOnce
    by_cases hc : c = sep
    · simp [hc]
    · rw [if_neg hc, Option.map_eq_none_iff, ih]
      simp [Ne.symm hc]

/-- What has no separator stays in the first part. -/
theorem splitOnce_append {sep : Char} {a : List Char} (ha : sep ∉ a) (s : List Char) :
    splitOnce sep (a ++ s) = (splitOnce sep s).map fun p => (a ++ p.1, p.2) := by
  induction a with
  | nil => simp
  | cons c a ih =>
    rw [List.mem_cons, not_or] at ha
    obtain ⟨hc, ha⟩ := ha
    rw [List.cons_append, splitOnce, if_neg (Ne.symm hc), ih ha, Option.map_map]
    rfl

/-! ## Numbers -/

/-- A number in digits of the radix. -/
def Digits (radix : Nat) (s : List Char) : Prop :=
  s ≠ [] ∧ ∀ c ∈ s, (toDigit c radix).isSome = true

/-- The value of a digit. -/
def digitValue (radix : Nat) (c : Char) : Nat := (toDigit c radix).getD 0

/-- The value of a number. -/
def numberValue (radix : Nat) (s : List Char) : Nat :=
  Nat.ofDigits radix (s.reverse.map (digitValue radix))

/-- The value of a number by Horner's scheme. -/
theorem numberValue_eq (radix : Nat) (s : List Char) :
    numberValue radix s = s.foldl (fun n c => n * radix + digitValue radix c) 0 := by
  unfold numberValue
  rw [Nat.ofDigits_eq_foldr, List.foldr_map, List.foldr_reverse]
  congr 1
  funext n c
  rw [Nat.add_comm, Nat.mul_comm]
  rfl

/-- Reading digits only adds to the number. -/
theorem le_foldl {radix : Nat} (hr : 0 < radix) : ∀ (s : List Char) (n : Nat),
    n ≤ s.foldl (fun n c => n * radix + digitValue radix c) n := by
  intro s
  induction s with
  | nil => exact fun n => Nat.le_refl n
  | cons c s ih =>
    intro n
    calc n ≤ n * radix := Nat.le_mul_of_pos_right n hr
      _ ≤ n * radix + digitValue radix c := Nat.le_add_right _ _
      _ ≤ _ := ih _

/-- Digits whose value fits in a word are read. -/
theorem readDigits_eq {radix : Nat} (hr : 0 < radix) : ∀ (s : List Char) (n : Nat),
    (∀ c ∈ s, (toDigit c radix).isSome = true) →
    s.foldl (fun n c => n * radix + digitValue radix c) n < 2 ^ 64 →
    readDigits radix n s = some (s.foldl (fun n c => n * radix + digitValue radix c) n) := by
  intro s
  induction s with
  | nil => exact fun n _ _ => rfl
  | cons c s ih =>
    intro n hs hlt
    obtain ⟨digit, hdigit⟩ := Option.isSome_iff_exists.mp (hs c List.mem_cons_self)
    have hvalue : digitValue radix c = digit := by
      rw [digitValue, hdigit]
      rfl
    rw [List.foldl_cons, hvalue] at hlt ⊢
    have hle := le_foldl hr s (n * radix + digit)
    rw [readDigits, hdigit, Option.bind_eq_bind, Option.bind_some, if_pos (by omega)]
    exact ih _ (fun c hc => hs c (List.mem_cons_of_mem _ hc)) hlt

/-- A hex number that fits is read. -/
theorem fromStrRadix_eq (hs : Digits 16 s) (hlt : numberValue 16 s < 2 ^ 64) :
    fromStrRadix s 16 = some (numberValue 16 s) := by
  obtain ⟨hne, hdigits⟩ := hs
  rw [numberValue_eq] at hlt ⊢
  have hread := readDigits_eq (by norm_num) s 0 hdigits hlt
  have hplus : '+' ∉ s := fun hc => absurd (hdigits _ hc) (by decide)
  have hminus : '-' ∉ s := fun hc => absurd (hdigits _ hc) (by decide)
  unfold fromStrRadix
  split
  · exact absurd rfl hne
  · exact absurd List.mem_cons_self hplus
  · exact absurd List.mem_cons_self hminus
  · exact absurd List.mem_cons_self hplus
  · exact hread

end Tauos.Rust
