import Tauos.Mapper.MapOffset

/-!
# What a leaf entry decodes to

`map_offset` takes the flags of a leaf as those of a 4 KiB page, and adapts them to the level:
bit 7 is the high bit of the PAT index in a page table, and the page size above, where the index
has bit 12 instead. That bit is inside of the address mask, and `get_paddr` does not know the level.

> `leafEntry_decodes_iff`: the address is lost exactly above level 1 with a PAT index from 4 on.
-/

namespace Tauos.Mapper

open Tauos.Rust Tauos.Amd64

/-- The entry is for a large page: bit 7, when not in a page table. -/
def LargePage (lvl : Nat) (pte : PTE) : Prop := pte.contains PTE.PS = true ∧ lvl ≠ PT_LVL

/-- The index into the PAT register, from the bits that hold it at the level. -/
def patIndex (lvl : Nat) (pte : PTE) : Nat :=
  (pte.contains PTE.PWT).toNat + 2 * (pte.contains PTE.PCD).toNat +
    4 * (pte.contains (if lvl = PT_LVL then PTE.PAT else PTE.PAT_PS)).toNat

/-- The entry says what was mapped. -/
structure Decodes (lvl paddr patIdx : Nat) (pte : PTE) : Prop where
  present : pte.contains PTE.P = true
  largePage : LargePage lvl pte ↔ 1 < lvl
  patIndex : patIndex lvl pte = patIdx
  getPaddr : pte.getPaddr = paddr

/-- No address bits, and none of those that hold the page size and the PAT index. -/
def OtherFlags (flags : PTE) : Prop :=
  flags &&& (PTE.BASE_MASK ||| PTE.PWT ||| PTE.PCD ||| PTE.PAT) = 0

instance (flags : PTE) : Decidable (OtherFlags flags) := inferInstanceAs (Decidable (_ = _))

/-! ## Bits -/

section Bits

theorem and_two_pow_ne_zero {n k : Nat} : n &&& 1 <<< k ≠ 0 ↔ n.testBit k = true := by
  rw [Nat.one_shiftLeft, Nat.and_two_pow]
  cases n.testBit k <;> simp

theorem testBit_PWT (i : Nat) : PTE.PWT.testBit i = decide (i = 3) := by
  rw [show PTE.PWT = 2 ^ 3 from rfl, Nat.testBit_two_pow, decide_eq_decide]
  exact eq_comm

theorem testBit_PCD (i : Nat) : PTE.PCD.testBit i = decide (i = 4) := by
  rw [show PTE.PCD = 2 ^ 4 from rfl, Nat.testBit_two_pow, decide_eq_decide]
  exact eq_comm

/-- Both names of bit 7. -/
theorem testBit_PAT (i : Nat) : PTE.PAT.testBit i = decide (i = 7) := by
  rw [show PTE.PAT = 2 ^ 7 from rfl, Nat.testBit_two_pow, decide_eq_decide]
  exact eq_comm

theorem testBit_fromPat (patIdx i : Nat) : (PTE.fromPat patIdx false).testBit i =
    (decide (i = 3) && patIdx.testBit 0 || decide (i = 4) && patIdx.testBit 1 ||
      decide (i = 7) && patIdx.testBit 2) := by
  unfold PTE.fromPat
  simp only [and_two_pow_ne_zero]
  cases patIdx.testBit 0 <;> cases patIdx.testBit 1 <;> cases patIdx.testBit 2 <;>
    simp [testBit_PWT, testBit_PCD, testBit_PAT, Nat.testBit_or]

theorem contains_PWT {pte : PTE} : pte.contains PTE.PWT = pte.testBit 3 := contains_two_pow (k := 3)

theorem contains_PCD {pte : PTE} : pte.contains PTE.PCD = pte.testBit 4 := contains_two_pow (k := 4)

theorem contains_PAT_PS {pte : PTE} : pte.contains PTE.PAT_PS = pte.testBit 12 :=
  contains_two_pow (k := 12)

theorem fromPat_bits {patIdx : Nat} (h : patIdx < 8) :
    ((PTE.fromPat patIdx false).testBit 3).toNat +
      2 * ((PTE.fromPat patIdx false).testBit 4).toNat +
      4 * ((PTE.fromPat patIdx false).testBit 7).toNat = patIdx := by
  revert patIdx
  decide

theorem fromPat_high_iff {patIdx : Nat} (h : patIdx < 8) :
    (PTE.fromPat patIdx false).testBit 7 = true ↔ ¬ patIdx < 4 := by
  revert patIdx
  decide

theorem OtherFlags.testBit {flags : PTE} (h : OtherFlags flags) (i : Nat)
    (hi : i = 3 ∨ i = 4 ∨ i = 7 ∨ 12 ≤ i ∧ i < 52) : flags.testBit i = false := by
  have hbit := congrArg (Nat.testBit · i) h
  simp only [Nat.testBit_and, Nat.testBit_or, testBit_BASE_MASK, testBit_PWT, testBit_PCD,
    testBit_PAT, Nat.zero_testBit] at hbit
  rcases hi with rfl | rfl | rfl | hi
  · simpa using hbit
  · simpa using hbit
  · simpa using hbit
  · simpa [hi] using hbit

/-- The flags of a leaf have no bit of an address. -/
theorem OtherFlags.leaves {flags : PTE} (h : OtherFlags flags) (patIdx : Nat) :
    (PTE.fromPat patIdx false ||| flags) &&& PTE.BASE_MASK = 0 := by
  apply Nat.eq_of_testBit_eq
  intro i
  rw [Nat.testBit_and, Nat.testBit_or, testBit_fromPat, testBit_BASE_MASK, Nat.zero_testBit]
  by_cases hi : 12 ≤ i ∧ i < 52
  · have h3 : i ≠ 3 := by omega
    have h4 : i ≠ 4 := by omega
    have h7 : i ≠ 7 := by omega
    simp [h3, h4, h7, h.testBit i (by omega)]
  · simp [hi]

theorem testBit_of_dvd {paddr k i : Nat} (h : 2 ^ k ∣ paddr) (hi : i < k) :
    paddr.testBit i = false := by
  obtain ⟨c, rfl⟩ := h
  rw [Nat.mul_comm, Nat.testBit_mul_two_pow]
  simp [Nat.not_le.mpr hi]

end Bits

/-! ## Entries -/

section Entries

variable {paddr patIdx lvl i : Nat} {flags leaves : PTE}

theorem leafEntry_value (lvl : Nat) (leaves : PTE) (hal : PTE_SIZE ∣ paddr) (hlt : paddr < 2 ^ 52) :
    leafEntry leaves lvl paddr = .ok (if lvl = PT_LVL then PTE.P ||| paddr ||| leaves
      else if (PTE.P ||| paddr ||| leaves).testBit 7 then PTE.P ||| paddr ||| leaves ||| PTE.PAT_PS
      else PTE.P ||| paddr ||| leaves ||| PTE.PS) := by
  unfold leafEntry
  rw [fromPaddr_of hal hlt, ok_bind, show PTE.PAT = PTE.PS from rfl]
  simp only [contains_PS]
  by_cases hlvl : lvl = PT_LVL
  · rw [if_neg (not_not.mpr hlvl), if_pos hlvl]
    rfl
  · rw [if_pos hlvl, if_neg hlvl]
    split <;> rfl

theorem page_dvd_frame (h1 : 1 ≤ lvl) (h : pageSize lvl ∣ paddr) : PTE_SIZE ∣ paddr := by
  refine dvd_trans ?_ h
  rw [pageSize_eq, show PTE_SIZE = 2 ^ 12 from rfl]
  exact pow_dvd_pow 2 (by omega)

/-- Below the page size, the bits of the PAT index are those of `from_pat`. -/
theorem testBit_entry (patIdx : Nat) (hal : pageSize lvl ∣ paddr) (hflags : OtherFlags flags)
    (i : Nat) (hi : i = 3 ∨ i = 4 ∨ i = 7 ∨ i = 12) (hlow : i < lvl * 9 + 3) :
    (PTE.P ||| paddr ||| (PTE.fromPat patIdx false ||| flags)).testBit i =
      (PTE.fromPat patIdx false).testBit i := by
  rw [pageSize_eq] at hal
  have h0 : 0 ≠ i := by omega
  rw [Nat.testBit_or, Nat.testBit_or, Nat.testBit_or, testBit_P, testBit_of_dvd hal hlow,
    hflags.testBit i (by omega), decide_eq_false h0]
  simp

theorem present_entry {extra : PTE} :
    PTE.contains (PTE.P ||| paddr ||| leaves ||| extra) PTE.P = true := by
  rw [contains_P, Nat.testBit_or, Nat.testBit_or, Nat.testBit_or, testBit_P]
  rfl

/-- An entry of a page table. -/
theorem decodes_page (hal : pageSize PT_LVL ∣ paddr) (hlt : paddr < 2 ^ 52) (hidx : patIdx < 8)
    (hflags : OtherFlags flags) :
    Decodes PT_LVL paddr patIdx (PTE.P ||| paddr ||| (PTE.fromPat patIdx false ||| flags)) := by
  have hbit := testBit_entry patIdx hal hflags
  refine ⟨?_, ⟨fun h => absurd rfl h.2, fun h => absurd h (by decide)⟩, ?_,
    getPaddr_entry (page_dvd_frame (le_refl 1) hal) hlt (hflags.leaves patIdx)⟩
  · rw [contains_P, Nat.testBit_or, Nat.testBit_or, testBit_P]
    rfl
  · unfold patIndex
    rw [if_pos rfl, show PTE.PAT = PTE.PS from rfl, contains_PWT, contains_PCD, contains_PS,
      hbit 3 (by omega) (by decide), hbit 4 (by omega) (by decide), hbit 7 (by omega) (by decide)]
    exact fromPat_bits hidx

section Large

variable (hlvl : 1 < lvl) (hal : pageSize lvl ∣ paddr) (hlt : paddr < 2 ^ 52)
  (hflags : OtherFlags flags)
include hlvl hal hflags

/-- The entry of a large page holds the index in the bits of its level. -/
theorem patIndex_large (hidx : patIdx < 8) {extra : PTE}
    (hextra : ∀ i, extra.testBit i = true → i = 7 ∨ i = 12)
    (h12 : extra.testBit 12 = (PTE.fromPat patIdx false).testBit 7) :
    patIndex lvl (PTE.P ||| paddr ||| (PTE.fromPat patIdx false ||| flags) ||| extra) = patIdx := by
  have hbit := testBit_entry patIdx hal hflags
  have h3 : extra.testBit 3 = false := by
    by_contra hc
    have := hextra 3 (by simpa using hc)
    omega
  have h4 : extra.testBit 4 = false := by
    by_contra hc
    have := hextra 4 (by simpa using hc)
    omega
  have hne : lvl ≠ PT_LVL := Nat.ne_of_gt hlvl
  unfold patIndex
  rw [if_neg hne, contains_PWT, contains_PCD, contains_PAT_PS, Nat.testBit_or _ extra 3,
    Nat.testBit_or _ extra 4, Nat.testBit_or _ extra 12, hbit 3 (by omega) (by omega),
    hbit 4 (by omega) (by omega), hbit 12 (by omega) (by omega), h3, h4, h12,
    testBit_fromPat patIdx 12]
  simpa using fromPat_bits hidx

include hlt in
/-- With the high bit of the index clear, the page size is added. -/
theorem decodes_large (hidx : patIdx < 8) (hsmall : (PTE.fromPat patIdx false).testBit 7 = false) :
    Decodes lvl paddr patIdx
      (PTE.P ||| paddr ||| (PTE.fromPat patIdx false ||| flags) ||| PTE.PS) := by
  have hne : lvl ≠ PT_LVL := Nat.ne_of_gt hlvl
  have hPS : ∀ i, PTE.PS.testBit i = decide (i = 7) := testBit_PAT
  refine ⟨present_entry, ⟨fun _ => hlvl, fun _ => ⟨?_, hne⟩⟩, ?_, ?_⟩
  · rw [contains_PS, Nat.testBit_or, hPS]
    exact Bool.or_true _
  · refine patIndex_large hlvl hal hflags hidx (fun i hi => ?_) ?_
    · rw [hPS] at hi
      exact Or.inl (of_decide_eq_true hi)
    · rw [hPS, hsmall]
      rfl
  · rw [Nat.lor_assoc]
    refine getPaddr_entry (page_dvd_frame hlvl.le hal) hlt ?_
    rw [Nat.and_or_distrib_right, hflags.leaves]
    rfl

omit hflags in
/-- With it set, bit 12 goes into the address. -/
theorem getPaddr_large :
    PTE.getPaddr (PTE.P ||| paddr ||| (PTE.fromPat patIdx false ||| flags) ||| PTE.PAT_PS)
      ≠ paddr := by
  intro heq
  have hbit := congrArg (Nat.testBit · 12) heq
  rw [pageSize_eq] at hal
  simp only [PTE.getPaddr, Nat.testBit_and, Nat.testBit_or, testBit_BASE_MASK,
    testBit_of_dvd hal (show 12 < lvl * 9 + 3 by omega)] at hbit
  rw [show PTE.PAT_PS.testBit 12 = true by decide] at hbit
  simp at hbit

end Large

/-- The entry of `map_offset` for the flags of a 4 KiB page, at any level. -/
theorem leafEntry_decodes_iff (h1 : 1 ≤ lvl) (h3 : lvl ≤ 3) (hal : pageSize lvl ∣ paddr)
    (hlt : paddr < 2 ^ 52) (hidx : patIdx < 8) (hflags : OtherFlags flags) :
    (∃ e, leafEntry (PTE.fromPat patIdx false ||| flags) lvl paddr = .ok e ∧
      Decodes lvl paddr patIdx e) ↔ lvl = 1 ∨ patIdx < 4 := by
  have hvalue := leafEntry_value lvl (PTE.fromPat patIdx false ||| flags)
    (page_dvd_frame h1 hal) hlt
  rcases Nat.eq_or_lt_of_le h1 with rfl | hlvl
  · rw [if_pos (show 1 = PT_LVL from rfl)] at hvalue
    exact ⟨fun _ => Or.inl rfl, fun _ => ⟨_, hvalue, decodes_page hal hlt hidx hflags⟩⟩
  · have hne : lvl ≠ PT_LVL := Nat.ne_of_gt hlvl
    rw [if_neg hne, testBit_entry patIdx hal hflags 7 (by omega) (by omega)] at hvalue
    have hiff := fromPat_high_iff hidx
    cases hhigh : (PTE.fromPat patIdx false).testBit 7 with
    | false =>
      rw [hhigh] at hvalue hiff
      have hsmall : patIdx < 4 := by simpa using hiff
      exact ⟨fun _ => Or.inr hsmall,
        fun _ => ⟨_, hvalue, decodes_large hlvl hal hlt hflags hidx hhigh⟩⟩
    | true =>
      rw [hhigh] at hvalue
      constructor
      · rintro ⟨e, he, hdecodes⟩
        rw [hvalue] at he
        cases he
        exact absurd hdecodes.getPaddr (getPaddr_large hlvl hal)
      · intro h
        exact absurd (h.resolve_left hne) (hiff.mp hhigh)

end Entries

/-- A page of 2 MiB that is write-through. -/
theorem leafEntry_decodes_writeThrough :
    ∃ e, leafEntry (PTE.fromPat 1 false ||| PTE.RW) 2 0x200000 = .ok e ∧ Decodes 2 0x200000 1 e :=
  (leafEntry_decodes_iff (by decide) (by decide) (by decide) (by decide) (by decide)
    (by decide)).mpr
    (Or.inr (by decide))

/-- A page of 2 MiB that is write-combining. -/
theorem leafEntry_writeCombining_not_decodes :
    ¬ ∃ e, leafEntry (PTE.fromPat 4 false ||| PTE.RW) 2 0x200000 = .ok e ∧
      Decodes 2 0x200000 4 e := by
  rintro ⟨e, he, hdecodes⟩
  have hvalue : leafEntry (PTE.fromPat 4 false ||| PTE.RW) 2 0x200000 = .ok 0x201083 := by
    decide
  rw [hvalue] at he
  cases he
  exact absurd hdecodes.getPaddr (by decide)

end Tauos.Mapper
