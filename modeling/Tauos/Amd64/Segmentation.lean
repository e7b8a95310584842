import Tauos.Rust.Word

/-!
# Inserting descriptors into a GDT

`try_insert_into_gdt` looks for room from slot 1 on. A code or data descriptor
needs one unused slot and gets the first. A system descriptor needs two in a row:
the scan sets a flag at an unused slot, but stays there, finds the same slot once
more with the flag set, and writes to this slot and the one before.

> `insertion_safe_iff`: the insertions that only touch unused slots, and what they
> keep in any order.

Which slots are in use is not in the bits of a slot alone: the second half of a
system descriptor is any word, so `second` follows the table from the start.
-/

namespace Tauos.Amd64.Segmentation

/-- `CodeSegDesc::TYPE`: set for code and data segments, clear for system segments. -/
def TYPE : BitVec 64 := 1#64 <<< 44

/-- `CodeSegDesc::PRESENT`. -/
def PRESENT : BitVec 64 := 1#64 <<< 47

/-- `descriptor.contains(flag)` of a descriptor made by `from_bits_unchecked`. -/
def contains (descriptor flag : BitVec 64) : Bool := descriptor &&& flag == flag

/-- `SegDesc`. -/
inductive SegDesc
  /-- Code and data descriptors. -/
  | userSeg (seg : BitVec 64)
  /-- System descriptors. -/
  | sysSeg (segLo segHi : BitVec 64)

namespace SegDesc

/-- The loop of the first branch, from `index` on. -/
def userLoop (seg : BitVec 64) (gdt : List (BitVec 64)) (index : Nat) :
    Except Unit Nat × List (BitVec 64) :=
  if _h : index < gdt.length then
    let descriptor := gdt[index]
    if !contains descriptor PRESENT then
      (.ok index, gdt.set index seg)
    else if !contains descriptor TYPE then
      userLoop seg gdt (index + 2)
    else
      userLoop seg gdt (index + 1)
  else (.error (), gdt)
  termination_by gdt.length - index
  decreasing_by all_goals omega

/-- The loop of the second branch. -/
def sysLoop (segLo segHi : BitVec 64) (gdt : List (BitVec 64)) (index : Nat) (prevAvl : Bool) :
    Except Unit Nat × List (BitVec 64) :=
  if _h : index < gdt.length then
    let descriptor := gdt[index]
    if !contains descriptor PRESENT then
      if _hp : prevAvl = true then
        (.ok (index - 1), (gdt.set (index - 1) segLo).set (index - 0) segHi)
      else
        -- the index stays as it is
        sysLoop segLo segHi gdt index true
    else if !contains descriptor TYPE then
      sysLoop segLo segHi gdt (index + 2) false
    else
      sysLoop segLo segHi gdt (index + 1) false
  else (.error (), gdt)
  termination_by (gdt.length - index, if prevAvl then 0 else 1)
  decreasing_by
    · simp [Prod.lex_def, _hp]
    · exact Prod.Lex.left _ _ (by omega)
    · exact Prod.Lex.left _ _ (by omega)

/-- `try_insert_into_gdt`, with the table it leaves. -/
def tryInsertIntoGdt (d : SegDesc) (gdt : List (BitVec 64)) : Except Unit Nat × List (BitVec 64) :=
  match d with
  | userSeg seg => userLoop seg gdt 1
  | sysSeg segLo segHi => sysLoop segLo segHi gdt 1 false

/-- The words to be placed. -/
def words : SegDesc → List (BitVec 64)
  | userSeg seg => [seg]
  | sysSeg segLo segHi => [segLo, segHi]

/-- It takes two entries of the table. -/
def System : SegDesc → Prop
  | userSeg _ => False
  | sysSeg _ _ => True

/-- The bits of the first word say what the descriptor is. -/
def Valid : SegDesc → Prop
  | userSeg seg => contains seg PRESENT = true ∧ contains seg TYPE = true
  | sysSeg segLo _ => contains segLo PRESENT = true ∧ contains segLo TYPE = false

end SegDesc

/-! ## The slots in use -/

variable {gdt gdt' : List (BitVec 64)} {i j : Nat}

/-- A word that makes its slot the first half of a system descriptor. -/
def isSystem (w : BitVec 64) : Bool := contains w PRESENT && !contains w TYPE

/-- Slot `i` is the second half of a system descriptor. -/
def second (gdt : List (BitVec 64)) : Nat → Bool
  | 0 => false
  | i + 1 => !second gdt i && isSystem (gdt.getD i 0)

/-- Neither present nor the second half of a system descriptor. -/
def Unused (gdt : List (BitVec 64)) (i : Nat) : Prop :=
  ∃ h : i < gdt.length, contains gdt[i] PRESENT = false ∧ second gdt i = false

/-- An unused entry is in the table. -/
theorem Unused.lt (h : Unused gdt i) : i < gdt.length := by
  obtain ⟨hi, _⟩ := h
  exact hi

/-- The null descriptor comes first and the last system descriptor has its second half. -/
structure Gdt (gdt : List (BitVec 64)) : Prop where
  null : gdt[0]? = some 0
  whole : second gdt gdt.length = false

/-- `n` unused slots from `i` on, behind the null descriptor. -/
def Room (gdt : List (BitVec 64)) (n i : Nat) : Prop := 1 ≤ i ∧ ∀ k < n, Unused gdt (i + k)

/-- The words are at `i`, and the rest is as before. -/
structure Placed (words : List (BitVec 64)) (i : Nat) (gdt gdt' : List (BitVec 64)) : Prop where
  length : gdt'.length = gdt.length
  placed : ∀ k < words.length, gdt'[i + k]? = words[k]?
  rest : ∀ j, (j < i ∨ i + words.length ≤ j) → gdt'[j]? = gdt[j]?

/-- What inserting a descriptor should do. -/
def Inserts (d : SegDesc) (gdt : List (BitVec 64)) : Prop :=
  match d.tryInsertIntoGdt gdt with
  | (.ok i, gdt') => Room gdt d.words.length i ∧ Placed d.words i gdt gdt'
  | (.error _, gdt') => gdt' = gdt ∧ ∀ i, ¬ Room gdt d.words.length i

/-- The scan has passed the slots in front of `index` and none of them is unused. -/
structure Scanned (gdt : List (BitVec 64)) (index : Nat) : Prop where
  pos : 1 ≤ index
  head : second gdt index = false
  used : ∀ j, 1 ≤ j → j < index → ¬ Unused gdt j

/-- A table is scanned from its second entry on. -/
theorem Gdt.scanned (h : Gdt gdt) : Scanned gdt 1 := by
  refine ⟨Nat.le_refl 1, ?_, fun j hj hj' => by omega⟩
  have hnull : gdt.getD 0 0 = 0 := by
    rw [List.getD_eq_getElem?_getD, h.null]
    rfl
  show (!false && isSystem (gdt.getD 0 0)) = false
  rw [hnull]
  decide

/-- What is not present in front of the scan is unused. -/
theorem Scanned.unused (h : Scanned gdt i) (hi : i < gdt.length)
    (hp : contains gdt[i] PRESENT = false) : Unused gdt i :=
  ⟨hi, hp, h.head⟩

/-- The second words are those behind a system descriptor. -/
theorem second_succ (hi : i < gdt.length) :
    second gdt (i + 1) = (!second gdt i && isSystem gdt[i]) := by
  rw [second, List.getD_eq_getElem?_getD, List.getElem?_eq_getElem hi]
  rfl

/-- What is present is used. -/
theorem not_unused_of_present (hi : i < gdt.length) (hp : contains gdt[i] PRESENT = true) :
    ¬ Unused gdt i := by
  intro hu
  obtain ⟨_, hpresent, _⟩ := hu
  rw [hp] at hpresent
  cases hpresent

/-- A code or data descriptor is passed in one step. -/
theorem Scanned.user (h : Scanned gdt i) (hi : i < gdt.length) (hp : contains gdt[i] PRESENT = true)
    (ht : contains gdt[i] TYPE = true) : Scanned gdt (i + 1) := by
  refine ⟨by omega, ?_, fun j hj hj' => ?_⟩
  · rw [second_succ hi, isSystem, ht]
    simp
  · rcases Nat.lt_succ_iff_lt_or_eq.mp hj' with hlt | rfl
    · exact h.used j hj hlt
    · exact not_unused_of_present hi hp

/-- A system descriptor is passed with its second half. -/
theorem Scanned.system (h : Scanned gdt i) (hi : i < gdt.length)
    (hp : contains gdt[i] PRESENT = true) (ht : contains gdt[i] TYPE = false) :
    Scanned gdt (i + 2) := by
  have hsecond : second gdt (i + 1) = true := by
    rw [second_succ hi, h.head, isSystem, hp, ht]
    rfl
  refine ⟨by omega, ?_, fun j hj hj' => ?_⟩
  · rw [second, hsecond]
    rfl
  · rcases Nat.lt_trichotomy j i with hlt | rfl | hgt
    · exact h.used j hj hlt
    · exact not_unused_of_present hi hp
    · intro hu
      obtain ⟨_, _, hhead⟩ := hu
      rw [show j = i + 1 by omega, hsecond] at hhead
      cases hhead

/-- Nothing is left at the end of the table. -/
theorem Scanned.full (h : Scanned gdt i) (hi : gdt.length ≤ i) (hj : 1 ≤ j) : ¬ Unused gdt j := by
  intro hu
  have hlt := hu.lt
  exact h.used j hj (by omega) hu

/-! ## One insertion -/

/-- Room for one word. -/
theorem room_one : Room gdt 1 i ↔ 1 ≤ i ∧ Unused gdt i := by
  unfold Room
  refine and_congr_right fun _ => ⟨fun h => h 0 Nat.one_pos, fun h k hk => ?_⟩
  rw [Nat.lt_one_iff.mp hk]
  exact h

/-- The first branch takes the first unused slot. -/
theorem userLoop_spec (seg : BitVec 64) (gdt : List (BitVec 64)) : ∀ i, Scanned gdt i →
    (∃ j, Room gdt 1 j ∧ SegDesc.userLoop seg gdt i = (.ok j, gdt.set j seg)) ∨
    (∀ j, ¬ Room gdt 1 j) ∧ SegDesc.userLoop seg gdt i = (.error (), gdt)
  | i, hs => by
    unfold SegDesc.userLoop
    by_cases hi : i < gdt.length
    · rw [dif_pos hi]
      cases hp : contains gdt[i] PRESENT with
      | false =>
        left
        refine ⟨i, room_one.mpr ⟨hs.pos, hs.unused hi hp⟩, ?_⟩
        simp [hp]
      | true =>
        cases ht : contains gdt[i] TYPE with
        | false =>
          simp only [hp, ht, Bool.not_true, Bool.not_false, Bool.false_eq_true, if_false, if_true]
          exact userLoop_spec seg gdt (i + 2) (hs.system hi hp ht)
        | true =>
          simp only [hp, ht, Bool.not_true, Bool.false_eq_true, if_false]
          exact userLoop_spec seg gdt (i + 1) (hs.user hi hp ht)
    · rw [dif_neg hi]
      refine Or.inr ⟨fun j hroom => ?_, rfl⟩
      obtain ⟨hj, hu⟩ := room_one.mp hroom
      exact hs.full (Nat.le_of_not_lt hi) hj hu
  termination_by i => gdt.length - i
  decreasing_by all_goals omega

/-- The second branch finds the first unused slot as well, and takes the slot in front
of it. -/
theorem sysLoop_spec (segLo segHi : BitVec 64) (gdt : List (BitVec 64)) : ∀ i, Scanned gdt i →
    (∃ j, Scanned gdt j ∧ Room gdt 1 j ∧ SegDesc.sysLoop segLo segHi gdt i false =
      (.ok (j - 1), (gdt.set (j - 1) segLo).set j segHi)) ∨
    (∀ j, ¬ Room gdt 1 j) ∧ SegDesc.sysLoop segLo segHi gdt i false = (.error (), gdt)
  | i, hs => by
    unfold SegDesc.sysLoop
    by_cases hi : i < gdt.length
    · rw [dif_pos hi]
      cases hp : contains gdt[i] PRESENT with
      | false =>
        left
        refine ⟨i, hs, room_one.mpr ⟨hs.pos, hs.unused hi hp⟩, ?_⟩
        -- the same slot a second time
        unfold SegDesc.sysLoop
        simp [hi, hp]
      | true =>
        cases ht : contains gdt[i] TYPE with
        | false =>
          simp only [hp, ht, Bool.not_true, Bool.not_false, Bool.false_eq_true, if_false, if_true]
          exact sysLoop_spec segLo segHi gdt (i + 2) (hs.system hi hp ht)
        | true =>
          simp only [hp, ht, Bool.not_true, Bool.false_eq_true, if_false]
          exact sysLoop_spec segLo segHi gdt (i + 1) (hs.user hi hp ht)
    · rw [dif_neg hi]
      refine Or.inr ⟨fun j hroom => ?_, rfl⟩
      obtain ⟨hj, hu⟩ := room_one.mp hroom
      exact hs.full (Nat.le_of_not_lt hi) hj hu
  termination_by i => gdt.length - i
  decreasing_by all_goals omega

/-- One word is placed. -/
theorem placed_set (hi : i < gdt.length) (seg : BitVec 64) :
    Placed [seg] i gdt (gdt.set i seg) := by
  refine ⟨List.length_set, fun k hk => ?_, fun j hj => ?_⟩
  · rw [show k = 0 from Nat.lt_one_iff.mp hk, Nat.add_zero, List.getElem?_set_self hi]
    rfl
  · rw [List.getElem?_set_ne]
    simp only [List.length_singleton] at hj
    omega

/-- A descriptor of one word goes where there is room. -/
theorem inserts_user (h : Gdt gdt) (seg : BitVec 64) : Inserts (.userSeg seg) gdt := by
  unfold Inserts SegDesc.tryInsertIntoGdt
  rcases userLoop_spec seg gdt 1 h.scanned with ⟨j, hroom, hrun⟩ | ⟨hnone, hrun⟩
  · simp only [hrun]
    exact ⟨hroom, placed_set (room_one.mp hroom).2.lt seg⟩
  · simp only [hrun]
    exact ⟨trivial, hnone⟩

/-- One of two words is inserted properly only if there is no room for one word. -/
theorem inserts_sys_iff (h : Gdt gdt) (segLo segHi : BitVec 64) :
    Inserts (.sysSeg segLo segHi) gdt ↔ ∀ i, ¬ Room gdt 1 i := by
  unfold Inserts SegDesc.tryInsertIntoGdt
  rcases sysLoop_spec segLo segHi gdt 1 h.scanned with ⟨j, hs, hroom, hrun⟩ | ⟨hnone, hrun⟩
  · simp only [hrun]
    constructor
    · intro hins
      obtain ⟨⟨hpos, hslots⟩, _⟩ := hins
      exact absurd (hslots 0 Nat.two_pos) (hs.used (j - 1 + 0) hpos (by omega))
    · intro hnone
      exact absurd hroom (hnone j)
  · simp only [hrun]
    refine ⟨fun _ => hnone, fun _ => ⟨trivial, fun i hroom => hnone i ⟨hroom.1, fun k hk => ?_⟩⟩⟩
    exact hroom.2 k (Nat.lt_succ_of_lt hk)

theorem inserts_iff (h : Gdt gdt) (d : SegDesc) :
    Inserts d gdt ↔ (d.System → ∀ i, ¬ Room gdt 1 i) := by
  cases d with
  | userSeg seg => exact ⟨fun _ hsys => hsys.elim, fun _ => inserts_user h seg⟩
  | sysSeg segLo segHi =>
    rw [inserts_sys_iff h]
    exact ⟨fun hnone _ => hnone, fun hnone => hnone trivial⟩

/-! ## Many insertions -/

/-- The table after some insertions. -/
def inserted (gdt : List (BitVec 64)) (ds : List SegDesc) : List (BitVec 64) :=
  ds.foldl (fun gdt d => (d.tryInsertIntoGdt gdt).2) gdt

/-- The descriptors are valid and the system descriptors among them come when no slot is
unused. -/
def Safe (gdt : List (BitVec 64)) : List SegDesc → Prop
  | [] => True
  | d :: ds => (d.Valid ∧ (d.System → ∀ i, ¬ Room gdt 1 i)) ∧ Safe (d.tryInsertIntoGdt gdt).2 ds

/-- Each insertion does what it should, and its descriptor is there in the end. -/
def Kept (gdt : List (BitVec 64)) (ds : List SegDesc) : Prop :=
  ∀ {ds₁ d ds₂}, ds = ds₁ ++ d :: ds₂ → Inserts d (inserted gdt ds₁) ∧
    ∀ {i}, (d.tryInsertIntoGdt (inserted gdt ds₁)).1 = .ok i →
      ∀ k < d.words.length, (inserted gdt ds)[i + k]? = d.words[k]?

theorem safe_append {ds₂ : List SegDesc} : ∀ {ds₁ : List SegDesc} {gdt : List (BitVec 64)},
    Safe gdt (ds₁ ++ ds₂) ↔ Safe gdt ds₁ ∧ Safe (inserted gdt ds₁) ds₂ := by
  intro ds₁
  induction ds₁ with
  | nil => exact fun {gdt} => (true_and _).symm.to_iff
  | cons d ds ih =>
    intro gdt
    show _ ∧ Safe _ (ds ++ ds₂) ↔
      (_ ∧ Safe _ ds) ∧ Safe (inserted (d.tryInsertIntoGdt gdt).2 ds) ds₂
    rw [ih, and_assoc (c := Safe (inserted (d.tryInsertIntoGdt gdt).2 ds) ds₂)]

/-- Marking an unused slot as a code or data descriptor does not move any second half. -/
theorem second_set (hu : Unused gdt j) {seg : BitVec 64} (hseg : isSystem seg = false) (i : Nat) :
    second (gdt.set j seg) i = second gdt i := by
  obtain ⟨hj, hp, _⟩ := hu
  induction i with
  | zero => rfl
  | succ i ih =>
    rw [second, second, ih, List.getD_eq_getElem?_getD, List.getD_eq_getElem?_getD]
    by_cases hij : j = i
    · subst hij
      have hold : isSystem gdt[j] = false := by
        rw [isSystem, hp]
        rfl
      rw [List.getElem?_set_self hj, List.getElem?_eq_getElem hj, Option.getD_some,
        Option.getD_some,
        hseg, hold]
    · rw [List.getElem?_set_ne hij]

/-- A safe insertion leaves the slots in use alone, and the slots it fills are in use. -/
structure Grown (d : SegDesc) (gdt gdt' : List (BitVec 64)) : Prop where
  table : Gdt gdt'
  keeps : ∀ {j}, 1 ≤ j → ¬ Unused gdt j → gdt'[j]? = gdt[j]? ∧ ¬ Unused gdt' j
  fills : ∀ {i}, (d.tryInsertIntoGdt gdt).1 = .ok i →
    1 ≤ i ∧ ∀ k < d.words.length, gdt'[i + k]? = d.words[k]? ∧ ¬ Unused gdt' (i + k)

theorem Gdt.grown (h : Gdt gdt) {d : SegDesc} (hd : d.Valid)
    (hsys : d.System → ∀ i, ¬ Room gdt 1 i) :
    Grown d gdt (d.tryInsertIntoGdt gdt).2 := by
  have hfull : (d.tryInsertIntoGdt gdt) = (.error (), gdt) →
      Grown d gdt (d.tryInsertIntoGdt gdt).2 := by
    intro hrun
    rw [hrun]
    refine ⟨h, fun _ hj => ⟨rfl, hj⟩, fun {i} hok => ?_⟩
    rw [hrun] at hok
    cases hok
  cases d with
  | sysSeg segLo segHi =>
    rcases sysLoop_spec segLo segHi gdt 1 h.scanned with ⟨j, _, hroom, _⟩ | ⟨_, hrun⟩
    · exact absurd hroom (hsys trivial j)
    · exact hfull hrun
  | userSeg seg =>
    rcases userLoop_spec seg gdt 1 h.scanned with ⟨j, hroom, hrun⟩ | ⟨_, hrun⟩
    · obtain ⟨hj, hu⟩ := room_one.mp hroom
      have hlt := hu.lt
      have hseg : isSystem seg = false := by
        rw [isSystem, hd.2]
        simp
      -- the new word is no system descriptor, so the pairs behind it stay pairs
      have hsecond := second_set hu hseg
      have hnew : ¬ Unused (gdt.set j seg) j := by
        refine not_unused_of_present (by rw [List.length_set]; exact hlt) ?_
        rw [List.getElem_set_self]
        exact hd.1
      have hrun' : (SegDesc.userSeg seg).tryInsertIntoGdt gdt = (.ok j, gdt.set j seg) := hrun
      rw [hrun']
      refine ⟨⟨?_, ?_⟩, fun {i} _ hi => ?_, fun {i} hok => ?_⟩
      · rw [List.getElem?_set_ne (by omega)]
        exact h.null
      · rw [List.length_set, hsecond]
        exact h.whole
      · have hne : j ≠ i := fun heq => hi (heq ▸ hu)
        refine ⟨List.getElem?_set_ne hne, fun hu' => hi ?_⟩
        obtain ⟨hi', hp, hhead⟩ := hu'
        rw [List.getElem_set_ne hne] at hp
        rw [hsecond] at hhead
        exact ⟨by rwa [List.length_set] at hi', hp, hhead⟩
      · rw [hrun'] at hok
        cases hok
        refine ⟨hj, fun k hk => ?_⟩
        rw [show k = 0 from Nat.lt_one_iff.mp hk]
        exact ⟨List.getElem?_set_self hlt, hnew⟩
    · exact hfull hrun

/-- Slots in use keep their words through any number of safe insertions. -/
theorem Gdt.inserted : ∀ {ds : List SegDesc} {gdt : List (BitVec 64)}, Gdt gdt → Safe gdt ds →
    Gdt (inserted gdt ds) ∧ ∀ {j}, 1 ≤ j → ¬ Unused gdt j →
      (Segmentation.inserted gdt ds)[j]? = gdt[j]? := by
  intro ds
  induction ds with
  | nil => exact fun h _ => ⟨h, fun _ _ => rfl⟩
  | cons d ds ih =>
    intro gdt h hsafe
    obtain ⟨⟨hd, hsys⟩, hrest⟩ := hsafe
    have hgrown := h.grown hd hsys
    obtain ⟨hgdt, hkept⟩ := ih hgrown.table hrest
    refine ⟨hgdt, fun hj hused => ?_⟩
    obtain ⟨hword, hused'⟩ := hgrown.keeps hj hused
    exact (hkept hj hused').trans hword

theorem Safe.kept (h : Gdt gdt) {ds : List SegDesc} (hsafe : Safe gdt ds) : Kept gdt ds := by
  intro ds₁ d ds₂ hds
  subst hds
  obtain ⟨hfirst, ⟨hd, hsys⟩, hrest⟩ := safe_append.mp hsafe
  have hgdt := (h.inserted hfirst).1
  have hgrown := hgdt.grown hd hsys
  refine ⟨(inserts_iff hgdt d).mpr hsys, fun {i} hok k hk => ?_⟩
  obtain ⟨hi, hfills⟩ := hgrown.fills hok
  obtain ⟨hword, hused⟩ := hfills k hk
  have hkept := (hgrown.table.inserted hrest).2 (Nat.le_add_right_of_le hi) hused
  rw [Segmentation.inserted, List.foldl_append, List.foldl_cons]
  exact hkept.trans hword

/-- `try_insert_into_gdt` only touches unused slots, and does so if there are enough of them,
exactly for code and data descriptors and in a table without unused slots. Safe insertions
keep every descriptor inserted before. -/
theorem insertion_safe_iff (h : Gdt gdt) :
    (∀ d, Inserts d gdt ↔ (d.System → ∀ i, ¬ Room gdt 1 i)) ∧ ∀ ds, Safe gdt ds → Kept gdt ds :=
  ⟨inserts_iff h, fun _ hsafe => hsafe.kept h⟩

/-- A null descriptor, a code descriptor of the kernel and two unused slots. -/
def oneUser : List (BitVec 64) := [0, 0x00209c0000000000, 0, 0]

theorem oneUser_gdt : Gdt oneUser := ⟨rfl, by decide⟩

theorem oneUser_room : Room oneUser 1 2 := room_one.mpr ⟨by decide, by decide, by decide, by decide⟩

/-- A system descriptor takes the slot of the code descriptor. -/
theorem code_descriptor_lost : Gdt oneUser ∧ ¬ Inserts (.sysSeg 0x0000890000000067 0) oneUser ∧
    (SegDesc.sysSeg 0x0000890000000067 0).tryInsertIntoGdt oneUser =
      (.ok 1, [0, 0x0000890000000067, 0, 0]) := by
  refine ⟨oneUser_gdt, fun hins => ?_, ?_⟩
  · exact (inserts_sys_iff oneUser_gdt _ _).mp hins 2 oneUser_room
  · simp [SegDesc.tryInsertIntoGdt, SegDesc.sysLoop, oneUser, contains, PRESENT, TYPE]

/-- A data descriptor is inserted, and one more, and no system descriptor is tried. -/
theorem insertion_safe_sample : Gdt oneUser ∧
    Safe oneUser [.userSeg 0x0000900000000000, .userSeg 0x0000900000000000] ∧
    Kept oneUser [.userSeg 0x0000900000000000, .userSeg 0x0000900000000000] := by
  have hvalid : (SegDesc.userSeg 0x0000900000000000).Valid := ⟨by decide, by decide⟩
  have hsafe : Safe oneUser [.userSeg 0x0000900000000000, .userSeg 0x0000900000000000] :=
    ⟨⟨hvalid, fun hsys => hsys.elim⟩, ⟨hvalid, fun hsys => hsys.elim⟩, trivial⟩
  exact ⟨oneUser_gdt, hsafe, (insertion_safe_iff oneUser_gdt).2 _ hsafe⟩

end Tauos.Amd64.Segmentation
