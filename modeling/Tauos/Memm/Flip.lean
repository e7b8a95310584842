import Tauos.Memm.Ops

/-!
# A wrong bit in the bitmap

What `dealloc` and `release` do on a state that is right but for one bit. The
bit is that of a `Pair`: the halves of exponent `e₀` of the block at `c`. As long
as neither half is free as a whole (`Clear`) nobody reads the bit, and the run
is the run on the right state with the bit still wrong in the end
(`dealloc_flip`, `release_flip`). The moment one half becomes free, `dealloc`
takes the other one for a listed buddy and unlinks a node that is in no list.

`extend` leaves such a bit behind (`Tauos.Memm.Relocate`).
-/

namespace Tauos.Memm.Talloc

open Tauos.Rust Tauos.Utils Tauos.Buddy

variable {K J e₀ : Nat} {c : Int} {t : Talloc FreeLists}

/-! ## Toggles commute -/

/-- Two flips of a bit cancel. -/
theorem flipBit_flipBit {i : Nat} (hi : i / 8 < t.store.bitmap.length) :
    (t.flipBit i).flipBit i = t := by
  unfold flipBit
  dsimp only
  rw [getD_set hi, if_pos rfl, List.set_set, BitVec.xor_assoc, BitVec.xor_self, BitVec.xor_zero]
  congr 2
  rw [List.getD_eq_getElem?_getD, List.getElem?_eq_getElem hi]
  exact List.set_getElem_self hi

/-- The order of two flips does not matter. -/
theorem flipBit_comm {i j : Nat} (hi : i / 8 < t.store.bitmap.length)
    (hj : j / 8 < t.store.bitmap.length) : (t.flipBit i).flipBit j = (t.flipBit j).flipBit i := by
  unfold flipBit
  dsimp only
  congr 2
  rw [getD_set hi, getD_set hj]
  by_cases h : i / 8 = j / 8
  · rw [if_pos h, if_pos h.symm, h, List.set_set, List.set_set, BitVec.xor_assoc, BitVec.xor_assoc,
      BitVec.xor_comm (1#8 <<< (i % 8))]
  · rw [if_neg h, if_neg (Ne.symm h), List.set_comm _ _ h]

/-- A flip before a block is added is one after. -/
theorem added_flipBit {i j : Nat} (hi : i / 8 < t.store.bitmap.length)
    (hj : j / 8 < t.store.bitmap.length) (g : Nat) (node : Int) :
    (t.flipBit j).added g i node = (t.added g i node).flipBit j :=
  (flipBit_comm (t := setList { t with avails := t.avails ||| (1 <<< g) } g (node :: t.list g))
    hi hj).symm

/-- And before one is removed. -/
theorem removed_flipBit {i j : Nat} (hi : i / 8 < t.store.bitmap.length)
    (hj : j / 8 < t.store.bitmap.length) (g : Nat) (node : Int) :
    (t.flipBit j).removed g i node = (t.removed g i node).flipBit j := by
  unfold removed
  show flipBit (setList
    (if (t.list g).length ≤ 1 then (t.flipBit j).clearAvail g else t.flipBit j)
    g ((t.list g).erase node)) i = _
  by_cases hl : (t.list g).length ≤ 1
  · rw [if_pos hl, if_pos hl]
    exact (flipBit_comm (t := (t.clearAvail g).setList g ((t.list g).erase node)) hi hj).symm
  · rw [if_neg hl, if_neg hl]
    exact (flipBit_comm (t := t.setList g ((t.list g).erase node)) hi hj).symm

/-! ## The pair of the bit -/

/-- The two halves of exponent `e₀` of the aligned block at `c`. -/
structure Pair (a : Arena) (K J e₀ : Nat) (c : Int) : Prop where
  nat : Natural a K J
  lt : e₀ < K
  le : J ≤ e₀
  aligned : Aligned (e₀ + 1) c
  lo : a.arenaBase ≤ c
  hi : c + 2 ^ e₀ ≤ a.arenaBase + a.arenaSize

/-- No listed block is as large as a half of the pair and meets it. -/
def Clear (K e₀ : Nat) (c : Int) (t : Talloc FreeLists) : Prop :=
  ∀ e b, t.FreeBlock K e b → e₀ ≤ e → ∀ x, Within e b x → ¬ Within (e₀ + 1) c x

/-- One half of the pair is inside the set. -/
def HalfIn (e₀ : Nat) (c : Int) (F : Int → Prop) : Prop :=
  (∀ x, Within e₀ c x → F x) ∨ ∀ x, Within e₀ (c + 2 ^ e₀) x → F x

section Pair

variable {a : Arena}

/-- The pair is in the arena. -/
theorem Pair.lt_end (h : Pair a K J e₀ c) : c < a.arenaBase + 2 ^ K := by
  have h1 := h.hi
  have h2 := h.nat.cast_pow
  have h3 := two_pow_pos e₀
  omega

/-- Its bit is in the bitmap. -/
theorem Pair.bit_lt (h : Pair t.toArena K J e₀ c) (hinv : Inv K J t) :
    bitIndex K t.arenaBase e₀ c / 8 < t.store.bitmap.length :=
  hinv.bit_lt_of_span h.le h.lt h.lo h.lt_end

/-- A half is a block of exponent `e₀` that meets the pair. -/
theorem Pair.half (h : Pair a K J e₀ c) {b x : Int} (ha : Aligned e₀ b) (hx : Within e₀ b x)
    (hxc : Within (e₀ + 1) c x) : b = c ∨ b = c + 2 ^ e₀ := by
  have hpar : parent e₀ c = c := if_pos h.aligned
  have hbud : buddy e₀ c = c + 2 ^ e₀ := if_pos h.aligned
  have halc : Aligned e₀ c := h.aligned.mono (Nat.le_succ _)
  rw [← hpar, within_parent, hbud] at hxc
  rcases hxc with hxc | hxc
  · exact Or.inl (ha.eq_of_within halc hx hxc)
  · exact Or.inr (ha.eq_of_within halc.add hx hxc)

/-- The bit of the pair is the bit of its halves alone. -/
theorem Pair.index_iff (h : Pair a K J e₀ c) {e : Nat} {b : Int} (he : e < K) (ha : Aligned e b)
    (hlo : a.arenaBase ≤ b) (hhi : b < a.arenaBase + 2 ^ K) :
    bitIndex K a.arenaBase e b = bitIndex K a.arenaBase e₀ c ↔
      e = e₀ ∧ (b = c ∨ b = c + 2 ^ e₀) := by
  rw [bitIndex_inj h.nat.base he h.lt hlo hhi h.lo h.lt_end]
  refine and_congr_right fun hee => ?_
  subst hee
  rw [floorBlock_of_aligned h.aligned]
  constructor
  · intro hfl
    have hin := within_floorBlock (e + 1) b
    rw [hfl] at hin
    exact h.half ha (within_base e b) hin
  · intro hb
    refine (aligned_floorBlock _ _).eq_of_within h.aligned (within_floorBlock (e + 1) b) ?_
    have hs := two_pow_succ e
    have hpos := two_pow_pos e
    rcases hb with rfl | rfl
    · exact within_base _ _
    · exact ⟨by omega, by omega⟩

/-- In the canonical state the pair is clear exactly when neither half is free. -/
theorem Pair.not_clear_iff (h : Pair a K J e₀ c) (hinv : Inv K J t) :
    ¬ Clear K e₀ c t ↔ HalfIn e₀ c (Covers (t.FreeBlock K)) := by
  have hs := two_pow_succ e₀
  have hpos := two_pow_pos e₀
  have halc : Aligned e₀ c := h.aligned.mono (Nat.le_succ _)
  constructor
  · intro hnc
    by_contra hcon
    refine hnc fun e b hF hle x hx hxc => hcon ?_
    have hal := hinv.canon.aligned hF
    rcases Nat.eq_or_lt_of_le hle with rfl | hlt
    · rcases h.half hal hx hxc with rfl | rfl
      · exact Or.inl fun z hz => ⟨_, _, hF, hz⟩
      · exact Or.inr fun z hz => ⟨_, _, hF, hz⟩
    · -- a larger block holds both halves
      refine Or.inl fun z hz => ⟨e, b, hF, ?_⟩
      exact h.aligned.within_of_nested hal hlt hxc hx ⟨hz.1, by have := hz.2; omega⟩
  · have key : ∀ {b : Int}, Aligned e₀ b → Within (e₀ + 1) c b →
        (∀ x, Within e₀ b x → Covers (t.FreeBlock K) x) → ¬ Clear K e₀ c t := by
      intro b hb hbc hcov hclear
      obtain ⟨e, b', hF, hle, hin⟩ := hinv.canon.exists_containing hb hcov
      exact hclear e b' hF hle b (hin b (within_base _ _)) hbc
    intro hhalf
    rcases hhalf with hcov | hcov
    · exact key halc (within_base _ _) hcov
    · exact key halc.add ⟨by omega, by omega⟩ hcov

/-- The pair's bit is not set in a clear state. -/
theorem Pair.bit_clear (h : Pair t.toArena K J e₀ c) (hinv : Inv K J t) (hc : Clear K e₀ c t) :
    getBit t.store.bitmap (bitIndex K t.arenaBase e₀ c) = false := by
  have hs := two_pow_succ e₀
  have hpos := two_pow_pos e₀
  have hbud : buddy e₀ c = c + 2 ^ e₀ := if_pos h.aligned
  rw [← Bool.not_eq_true, hinv.bit_iff h.lt (h.aligned.mono (Nat.le_succ _)) h.lo h.lt_end, hbud]
  intro hF
  rcases hF with hF | hF
  · exact hc _ _ hF (Nat.le_refl _) c (within_base _ _) (within_base _ _)
  · exact hc _ _ hF (Nat.le_refl _) (c + 2 ^ e₀) (within_base _ _) ⟨by omega, by omega⟩

end Pair

/-! ## `dealloc` and `release` -/

/-- `r`, reached from `t`, is what a run that starts with the wrong bit reaches too,
or that run stops where one half of the pair is free. -/
def Shadowed (K e₀ : Nat) (c : Int) (i : Nat) (r : Talloc FreeLists)
    (run : Except Fault (Talloc FreeLists)) : Prop :=
  (run = .ok (r.flipBit i) ∧ Clear K e₀ c r) ∨ (run = .error .undefined ∧ ¬ Clear K e₀ c r)

/-- A half of the pair is taken for one with a listed buddy. -/
theorem Pair.takeBuddy_flip (h : Pair t.toArena K J e₀ c) (hc : Clear K e₀ c t)
    {b : Int} (hb : b = c ∨ b = c + 2 ^ e₀) (g i : Nat) (hg : K - e₀ = g) :
    (t.flipBit i).takeBuddy g i b (2 ^ e₀) = .error .undefined := by
  have hK := h.nat.hK
  have hlt := h.lt
  have hlo := h.lo
  have hhi := h.hi
  have hs := two_pow_succ e₀
  have hpos := two_pow_pos e₀
  have halc : Aligned e₀ c := h.aligned.mono (Nat.le_succ _)
  have hbud : buddy e₀ c = c + 2 ^ e₀ := if_pos h.aligned
  -- the buddy is the other half, which is in no list
  have hother : Aligned e₀ b ∧ (buddy e₀ b = c ∨ buddy e₀ b = c + 2 ^ e₀) := by
    rcases hb with rfl | rfl
    · exact ⟨halc, Or.inr hbud⟩
    · refine ⟨halc.add, Or.inl ?_⟩
      rw [← hbud]
      exact buddy_buddy halc
  obtain ⟨hab, hbb⟩ := hother
  have hin : InIsize (buddy e₀ b) := by
    rcases hbb with hbb | hbb
    · rw [hbb]; exact h.nat.inIsize hlo (by omega)
    · rw [hbb]; exact h.nat.inIsize (by omega) hhi
  have hmem : buddy e₀ b ∉ (t.flipBit i).list g := by
    intro hm
    have hF : t.FreeBlock K e₀ (buddy e₀ b) := ⟨Nat.le_of_lt hlt, by rw [hg]; exact hm⟩
    refine hc _ _ hF (Nat.le_refl _) _ (within_base _ _) ?_
    rcases hbb with hbb | hbb
    · rw [hbb]; exact within_base _ _
    · rw [hbb]; exact ⟨by omega, by omega⟩
  unfold takeBuddy
  rw [merge_ptrs (by omega) hab hin]
  show ((t.flipBit i).removeBlock g i (buddy e₀ b) >>= _) = _
  rw [removeBlock_of_not_mem hmem]
  rfl

/-- The buddy of a block away from the pair is taken as on the right state. -/
theorem Inv.takeBuddy_flip (h : Inv K J t) {e : Nat} {b : Int} (hJ : J ≤ e) (he : e < K)
    (ha : Aligned e b) (hb : t.Holds e b) (hF : t.FreeBlock K e (buddy e b)) {j : Nat}
    (hj : j / 8 < t.store.bitmap.length) :
    (t.flipBit j).takeBuddy (K - e) (bitIndex K t.arenaBase e b) b (2 ^ e)
      = .ok (parent e b,
          (t.removed (K - e) (bitIndex K t.arenaBase e b) (buddy e b)).flipBit j) := by
  have hK := h.nat.hK
  have hi := h.bit_lt hJ he hb
  have hi' : bitIndex K t.arenaBase e b / 8 < (t.flipBit j).store.bitmap.length := by
    rw [show (t.flipBit j).store.bitmap.length = t.store.bitmap.length from List.length_set ..]
    exact hi
  obtain ⟨hlo, hhi⟩ := h.holds hF
  have hpos := two_pow_pos e
  unfold takeBuddy
  rw [merge_ptrs (by omega) ha (h.nat.inIsize hlo (by omega))]
  show (removeBlock (t.flipBit j) _ _ (buddy e b) >>= _) = _
  rw [removeBlock_eq (t := t.flipBit j) hF.2 hi', removed_flipBit hi hj]
  rfl

/-- A half that is freed is not clear of the pair. -/
theorem Pair.not_clear_added (h : Pair t.toArena K J e₀ c) {b : Int} (hb : b = c ∨ b = c + 2 ^ e₀)
    {i : Nat} (hgl : K - e₀ < t.store.llists.length) : ¬ Clear K e₀ c (t.added (K - e₀) i b) := by
  intro hcr
  have hF := (freeBlock_added (i := i) (b := b) (Nat.le_of_lt h.lt) hgl e₀ b).mpr
    (Or.inl ⟨rfl, rfl⟩)
  refine hcr e₀ b hF (Nat.le_refl _) b (within_base _ _) ?_
  have hs := two_pow_succ e₀
  have hpos := two_pow_pos e₀
  rcases hb with rfl | rfl
  · exact within_base _ _
  · exact ⟨by omega, by omega⟩

/-- The parent of a block away from the pair, when the buddy is free, is away from it too. -/
theorem Clear.parent (hc : Clear K e₀ c t) {e : Nat} {b : Int}
    (hF : t.FreeBlock K e (buddy e b))
    (hapart : e₀ ≤ e → ∀ x, Within e b x → ¬ Within (e₀ + 1) c x) :
    e + 1 ≤ e₀ ∨ ∀ x, Within (e + 1) (parent e b) x → ¬ Within (e₀ + 1) c x := by
  rcases Nat.lt_or_ge e e₀ with hlt | hge
  · exact Or.inl hlt
  · refine Or.inr fun x hx hxc => ?_
    rcases within_parent.mp hx with hx | hx
    · exact hapart hge x hx hxc
    · exact hc e (buddy e b) hF hge x hx hxc

/-- `dealloc`'s loop beside the wrong bit. The induction follows
`deallocLoop_spec`; what it adds is that a block too large for the pair stays
away from it, so that the bit is read for a half of the pair only. -/
theorem deallocLoop_flip : ∀ (g : Nat) {t : Talloc FreeLists} {e : Nat} {b y : Int},
    Pair t.toArena K J e₀ c → Inv K J t → Clear K e₀ c t → J ≤ e → e ≤ K → K - e = g →
    Aligned e b → t.Holds e b → (∀ x, Within e b x → ¬ Covers (t.FreeBlock K) x) →
    Within K t.arenaBase y → ¬ Within e b y → ¬ Covers (t.FreeBlock K) y →
    (e ≤ e₀ ∨ ∀ x, Within e b x → ¬ Within (e₀ + 1) c x) →
    ∃ r, deallocLoop g b (2 ^ e) t = .ok r ∧
      Shadowed K e₀ c (bitIndex K t.arenaBase e₀ c) r
        (deallocLoop g b (2 ^ e) (t.flipBit (bitIndex K t.arenaBase e₀ c))) := by
  intro g
  induction g with
  | zero =>
    intro t e b y _ h _ _ heK hg _ hb _ hy hny _ _
    have := h.exp_lt_of_reserved heK hb hy hny
    omega
  | succ g ih =>
    intro t e b y hp h hc hJ heK hg ha hb hfree hy hny hyf haway
    have he : e < K := by omega
    have hi := h.bit_lt hJ he hb
    have hj := hp.bit_lt h
    have hoff := h.offset he hb
    have hoff' : (t.flipBit (bitIndex K t.arenaBase e₀ c)).bitmapOffset b (2 ^ e)
        = .ok (bitIndex K t.arenaBase e b) := hoff
    have hpi := hp.index_iff he ha hb.1 (h.nat.lt_of_holds hb)
    have hflip : getBit (t.flipBit (bitIndex K t.arenaBase e₀ c)).store.bitmap
        (bitIndex K t.arenaBase e b) = (getBit t.store.bitmap (bitIndex K t.arenaBase e b)
          ^^ decide (bitIndex K t.arenaBase e₀ c = bitIndex K t.arenaBase e b)) :=
      getBit_flipBit hj _
    have hi' : bitIndex K t.arenaBase e b / 8
        < (t.flipBit (bitIndex K t.arenaBase e₀ c)).store.bitmap.length := by
      rw [show (t.flipBit (bitIndex K t.arenaBase e₀ c)).store.bitmap.length
        = t.store.bitmap.length from List.length_set ..]
      exact hi
    have hgl := h.idx_lt hJ
    dsimp only [deallocLoop]
    rw [hoff, hoff']
    show ∃ r, (t.readBitflag (bitIndex K t.arenaBase e b) >>= _) = _ ∧ Shadowed _ _ _ _ _
      (readBitflag (t.flipBit _) (bitIndex K t.arenaBase e b) >>= _)
    rw [readBitflag_eq hi, readBitflag_eq hi', hflip]
    show ∃ r, (if getBit t.store.bitmap (bitIndex K t.arenaBase e b) = true then _ else _) = _ ∧
      Shadowed _ _ _ _ _ (if (getBit t.store.bitmap (bitIndex K t.arenaBase e b) ^^
        decide (bitIndex K t.arenaBase e₀ c = bitIndex K t.arenaBase e b)) = true then _ else _)
    by_cases hsame : bitIndex K t.arenaBase e b = bitIndex K t.arenaBase e₀ c
    · -- the block is a half of the pair, and becomes free on the right state
      obtain ⟨rfl, hbc⟩ := hpi.mp hsame
      rw [hsame, hp.bit_clear h hc]
      refine ⟨t.added (K - e) (bitIndex K t.arenaBase e c) b, ?_,
        Or.inr ⟨?_, hp.not_clear_added hbc hgl⟩⟩
      · rw [if_neg (by decide), ← hg]
        exact addBlockNext_eq hgl hj b
      · rw [if_pos (by simp), hp.takeBuddy_flip hc hbc _ _ hg]
        rfl
    · rw [decide_eq_false (Ne.symm hsame), Bool.xor_false]
      -- from exponent `e₀` on, the block is away from the pair
      have hapart : e₀ ≤ e → ∀ x, Within e b x → ¬ Within (e₀ + 1) c x := by
        intro hle
        rcases haway with hle' | haway
        · obtain rfl : e = e₀ := Nat.le_antisymm hle' hle
          exact fun x hx hxc => hsame (hpi.mpr ⟨rfl, hp.half ha hx hxc⟩)
        · exact haway
      by_cases hbit : getBit t.store.bitmap (bitIndex K t.arenaBase e b) = true
      · have hF : t.FreeBlock K e (buddy e b) := by
          rcases (h.bit_iff he ha hb.1 (h.nat.lt_of_holds hb)).mp hbit with hF | hF
          · exact absurd hF (h.not_free_of_covers hfree)
          · exact hF
        have hbud := h.holds hF
        have hidx := h.bitIndex_buddy he ha hb hbud
        have hinv := removed_inv h hF
        have hcov := covers_removed h (i := bitIndex K t.arenaBase e (buddy e b)) hF
        have hfbr := freeBlock_removed (i := bitIndex K t.arenaBase e (buddy e b)) hF (h.nodup _)
        have hsh := removed_shape (t := t) (h.bit_lt hJ he hbud) (bitIndex_ne_zero _ _ _ _) (K - e)
          (buddy e b)
        rw [hidx] at hinv hcov hsh hfbr
        have hstep := h.takeBuddy_eq he ha hb hF
        have hstep' := h.takeBuddy_flip hJ he ha hb hF hj
        rw [hg] at hstep hstep'
        generalize hr : t.removed (K - e) (bitIndex K t.arenaBase e b) (buddy e b) = t₁ at *
        rw [show t.removed (g + 1) (bitIndex K t.arenaBase e b) (buddy e b) = t₁ by rw [← hr, hg]]
          at hstep hstep'
        have harena := hsh.arena
        have hclear₁ : Clear K e₀ c t₁ := fun e' b' hF' => hc e' b' ((hfbr e' b').mp hF').1
        have hnext := ih (t := t₁) (e := e + 1) (b := parent e b) (y := y)
          (by rw [harena]; exact hp)
          hinv hclear₁ (by omega) (by omega) (by omega) (aligned_parent ha)
          (by rw [harena]; exact h.holds_parent hb hbud)
          (fun x => not_covers_parent hfree hcov) (by rw [harena]; exact hy)
          (not_within_parent hny hF hyf) (fun hcy => hyf ((hcov y).mp hcy).1)
          (hc.parent hF hapart)
        rw [harena] at hnext
        obtain ⟨r, hrun, hshadow⟩ := hnext
        refine ⟨r, ?_, ?_⟩
        · rw [if_pos hbit, hstep]
          show deallocLoop g (parent e b) (2 ^ e <<< 1) t₁ = _
          rw [Nat.shiftLeft_eq, ← Nat.pow_add]
          exact hrun
        · rw [if_pos hbit, hstep']
          show Shadowed _ _ _ _ _ (deallocLoop g (parent e b) (2 ^ e <<< 1) (t₁.flipBit _))
          rw [Nat.shiftLeft_eq, ← Nat.pow_add]
          exact hshadow
      · rw [if_neg hbit, if_neg hbit, ← hg]
        refine ⟨_, addBlockNext_eq hgl hi b, Or.inl ⟨?_, ?_⟩⟩
        · rw [addBlockNext_eq (t := t.flipBit _) hgl hi', added_flipBit hi hj]
        · intro e' b' hF' hle
          rcases (freeBlock_added heK hgl e' b').mp hF' with ⟨rfl, rfl⟩ | hF'
          · exact hapart hle
          · exact hc e' b' hF' hle

/-- Half of the pair in a larger set. -/
theorem HalfIn.mono {F G : Int → Prop} (h : HalfIn e₀ c F) (hsub : ∀ x, F x → G x) :
    HalfIn e₀ c G :=
  h.imp (fun hF x hx => hsub x (hF x hx)) (fun hF x hx => hsub x (hF x hx))

section Release

variable {y z : Int} {m : Slice}

/-- Freeing one more block of the slice beside the wrong bit. -/
theorem Releasable.turn_flip (h : Releasable K J y m t) (hp : Pair t.toArena K J e₀ c)
    (hz : Within (e₀ + 1) c z) (hzo : ¬ (spanFirst J m ≤ z ∧ z < spanAcme J m)) {p : Int}
    {u : Talloc FreeLists} {k : Nat} (hu : Released K J (spanFirst J m) p t u)
    (hc : Clear K e₀ c u) (hp' : spanFirst J m ≤ p) (hJk : J ≤ k) (hak : Aligned k p)
    (hpk : p + 2 ^ k ≤ spanAcme J m) :
    ∃ u', Released K J (spanFirst J m) (p + 2 ^ k) t u' ∧
      Shadowed K e₀ c (bitIndex K t.arenaBase e₀ c) u'
        ((u.flipBit (bitIndex K t.arenaBase e₀ c)).dealloc p ⟨2 ^ k, 1⟩) := by
  obtain ⟨u', hd, hu'⟩ := h.turn hu hp' hJk hak hpk
  obtain ⟨hkK, hin, hfree, hyp, hyf⟩ := h.turn_pre hu hp' hpk
  have hK := h.inv.nat.hK
  have harena := hu.shape.arena
  have hsize : u.layoutToSize ⟨2 ^ k, 1⟩ = 2 ^ k :=
    layoutToSize_block hu.inv.nat.smlst hJk (by omega)
  have hrun : ∀ v : Talloc FreeLists, v.toArena = u.toArena →
      v.dealloc p ⟨2 ^ k, 1⟩ = deallocLoop (K - k) p (2 ^ k) v := by
    intro v hv
    dsimp only [dealloc]
    rw [hv, hsize, hu.inv.nat.blockGranularity hkK]
    rfl
  -- a block larger than a half would hold the whole pair, and `z` with it
  have haway : k ≤ e₀ ∨ ∀ x, Within k p x → ¬ Within (e₀ + 1) c x := by
    rcases Nat.lt_or_ge e₀ k with hlt | hge
    · refine Or.inr fun x hx hxc => hzo ?_
      obtain ⟨h1, h2⟩ := hp.aligned.within_of_nested hak hlt hxc hx hz
      exact ⟨by omega, by omega⟩
    · exact Or.inl hge
  obtain ⟨r, hr, hshadow⟩ := deallocLoop_flip (y := y) (K - k) (by rw [harena]; exact hp) hu.inv hc
    hJk hkK rfl hak hin hfree (by rw [harena]; exact h.other) hyp hyf haway
  rw [hrun u rfl, hr] at hd
  cases hd
  refine ⟨u', hu', ?_⟩
  rw [hrun (u.flipBit (bitIndex K t.arenaBase e₀ c)) rfl]
  rw [harena] at hshadow
  exact hshadow

/-- `release` beside the wrong bit: the right state with the bit still wrong, or
the run stops, at the latest where one half of the pair is free. -/
theorem release_flip (h : Releasable K J y m t) (hp : Pair t.toArena K J e₀ c)
    (hc : Clear K e₀ c t) (hz : Within (e₀ + 1) c z)
    (hzo : ¬ (spanFirst J m ≤ z ∧ z < spanAcme J m)) :
    (∃ r, (t.flipBit (bitIndex K t.arenaBase e₀ c)).release m
        = .ok (r.flipBit (bitIndex K t.arenaBase e₀ c)) ∧
      Released K J (spanFirst J m) (spanAcme J m) t r ∧ Clear K e₀ c r ∧
      (spanAcme J m = 0 → spanBase J m = 0)) ∨
    ((t.flipBit (bitIndex K t.arenaBase e₀ c)).release m = .error .undefined ∧
      HalfIn e₀ c (fun x => (spanFirst J m ≤ x ∧ x < spanAcme J m) ∨ Covers (t.FreeBlock K) x)) ∨
    ((t.flipBit (bitIndex K t.arenaBase e₀ c)).release m = .error .overflow ∧
      spanBase J m < spanAcme J m ∧ (spanAcme J m = 0 ∨ ¬ t.Low48)) := by
  obtain ⟨hf1, hf2⟩ := h.first_bounds
  have hkeeps : Keeps J (spanAcme J m)
      (fun p u => spanFirst J m ≤ p ∧ ∃ r, u = r.flipBit (bitIndex K t.arenaBase e₀ c) ∧
        Released K J (spanFirst J m) p t r ∧ Clear K e₀ c r)
      (fun f => f = .undefined ∧
        HalfIn e₀ c (fun x => (spanFirst J m ≤ x ∧ x < spanAcme J m) ∨
          Covers (t.FreeBlock K) x)) := by
    refine ⟨fun {p u k} hu hJk hak hpk => ?_⟩
    obtain ⟨hfp, r, rfl, hr, hcr⟩ := hu
    have hpos := two_pow_pos k
    obtain ⟨u', hu', hok | ⟨herr, hncl⟩⟩ := h.turn_flip hp hz hzo hr hcr hfp hJk hak hpk
    · exact Or.inl ⟨_, hok.1, by omega, u', rfl, hu', hok.2⟩
    · refine Or.inr ⟨_, herr, rfl, ?_⟩
      refine ((hp.not_clear_iff hu'.inv).mp hncl).mono fun x hx => ?_
      rcases (hu'.covers x).mp hx with hx | hx
      · exact Or.inl ⟨hx.1, by omega⟩
      · exact Or.inr hx
  rcases h.inside.release_rule hkeeps ⟨le_refl _, t, rfl, Released.refl h.inv _, hc⟩
      rfl with
    ⟨u', hrun, ⟨_, r, rfl, hr, hcr⟩, hz0⟩ | ⟨f, hrun, rfl, hhalf⟩ | hedge
  · exact Or.inl ⟨r, hrun, hr, hcr, hz0⟩
  · exact Or.inr (Or.inl ⟨hrun, hhalf⟩)
  · exact Or.inr (Or.inr hedge)

end Release

end Tauos.Memm.Talloc
