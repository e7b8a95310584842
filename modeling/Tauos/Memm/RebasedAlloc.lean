import Tauos.Memm.BestFit
import Tauos.Memm.Rebase

/-!
# `alloc` in an arena that starts one block late

`Memm.Rebase` has `dealloc`, `release` and `new`. With the handler that refuses, `alloc` does in the
late arena as well what it does in the aligned one (`alloc_rebased`), so that it hands out aligned
blocks there too.
-/

namespace Tauos.Memm

open Tauos.Rust Tauos.Utils Tauos.Buddy

namespace Talloc

variable {K J e g : Nat} {t t' : Talloc FreeLists} {base : Int}

/-- The first block of a list at another base. -/
theorem removeBlockNext_rebased (hoff : SameOffsets t.toArena J K base) (hJ : J ≤ e) (hK : e ≤ K)
    {r : Int × Talloc FreeLists} (h : t.removeBlockNext g (2 ^ e) = .ok r) :
    (t.rebased base).removeBlockNext g (2 ^ e) = .ok (r.1, r.2.rebased base) := by
  obtain ⟨sole, hsole, h⟩ := bind_ok h
  obtain ⟨node, hnode, h⟩ := bind_ok h
  obtain ⟨store, hunlink, h⟩ := bind_ok h
  obtain ⟨i, hi, h⟩ := bind_ok h
  obtain ⟨t₁, htoggle, h⟩ := bind_ok h
  cases h
  unfold removeBlockNext
  rw [show Store.sentinelSole (t.rebased base) g = .ok sole from hsole, ok_bind]
  have hclear : (if sole = true then (t.rebased base).clearAvail g else t.rebased base)
      = rebased (if sole = true then t.clearAvail g else t) base := by cases sole <;> rfl
  have harena : (if sole = true then t.clearAvail g else t).toArena = t.toArena := by
    cases sole <;> rfl
  dsimp only at hnode hunlink hi htoggle ⊢
  rw [hclear]
  generalize (if sole = true then t.clearAvail g else t) = u at hnode hunlink hi htoggle harena
  have hoffset : Arena.bitmapOffset { u.toArena with arenaBase := base } node (2 ^ e) = .ok i := by
    rw [harena] at hi ⊢
    exact (hoff e hJ hK node).trans hi
  rw [show Store.sentinelNext (u.rebased base) g = .ok node from hnode, ok_bind,
    show Store.unlink (u.rebased base) g node = .ok store from hunlink, ok_bind,
    show Arena.bitmapOffset (u.rebased base).toArena node (2 ^ e) = .ok i from hoffset, ok_bind,
    show toggleBitflag { u.rebased base with store := store } i = .ok (t₁.rebased base) from
      toggleBitflag_rebased htoggle]
  rfl

/-- A block is split at another base. -/
theorem breakDown_rebased {b : Int} : ∀ (count : Nat) {t : Talloc FreeLists} {g e : Nat},
    SameOffsets t.toArena J K base → e ≤ K → J + count ≤ e + 1 →
    breakDown b count g (2 ^ e) t = .ok t' →
    breakDown b count g (2 ^ e) (t.rebased base) = .ok (t'.rebased base) := by
  intro count
  induction count with
  | zero =>
    intro t g e _ _ _ h
    cases h
    rfl
  | succ count ih =>
    intro t g e hoff hK hcount h
    obtain ⟨i, hi, h⟩ := bind_ok h
    obtain ⟨t₁, hadd, h⟩ := bind_ok h
    dsimp only [breakDown]
    rw [show (t.rebased base).bitmapOffset (wrappingAdd b (2 ^ e : Nat)) (2 ^ e) = .ok i from
      (hoff e (by omega) hK _).trans hi, ok_bind, addBlockNext_rebased hadd, ok_bind]
    have harena : t₁.toArena = t.toArena := addBlockNext_arena hadd
    cases e with
    | zero =>
      -- the last block
      obtain rfl : count = 0 := by omega
      cases h
      rfl
    | succ e =>
      have hhalf : 2 ^ (e + 1) >>> 1 = 2 ^ e := by
        rw [Nat.shiftRight_eq_div_pow, pow_one, Nat.pow_succ, Nat.mul_div_cancel _ (by omega)]
      rw [hhalf] at h ⊢
      exact ih (by rw [harena]; exact hoff) (by omega) (by omega) h

/-- `alloc` under the refusing handler. -/
theorem alloc_rebased {ω : Type} {l : Layout} (h : Inv K J t) (hl : l.Valid) (h0 : l.size ≠ 0)
    (hoff : SameOffsets t.toArena J K base) {w w' : ω} {fuel : Nat} {r : Option Int}
    (hrun : alloc mapperOomHandler (fuel + 1) w t l = .ok (r, w', t')) :
    alloc mapperOomHandler (fuel + 1) w (t.rebased base) l = .ok (r, w', t'.rebased base) := by
  have hs := h.soundAt
  obtain ⟨e, hsize, hJe, _⟩ := layoutToSize_spec (a := t.toArena) hl h0 hs.smlst hs.hJ
  have hsize' : (t.rebased base).layoutToSize l = 2 ^ e := hsize
  by_cases hlt : t.arenaSize < 2 ^ e
  · dsimp only [alloc, growLoop] at hrun ⊢
    rw [hsize, if_pos hlt] at hrun
    rw [hsize', if_pos (show (t.rebased base).arenaSize < 2 ^ e from hlt)]
    cases hrun
    rfl
  obtain ⟨heK, hg⟩ := hs.granularity (Nat.not_lt.mp hlt)
  have hblock : allocBlock mapperOomHandler l (2 ^ e) (fuel + 1) w t = .ok (r, w', t') := by
    dsimp only [alloc, growLoop] at hrun
    rwa [hsize, if_neg hlt] at hrun
  have halloc : alloc mapperOomHandler (fuel + 1) w (t.rebased base) l
      = allocBlock mapperOomHandler l (2 ^ e) (fuel + 1) w (t.rebased base) := by
    dsimp only [alloc, growLoop]
    rw [hsize', if_neg (show ¬ (t.rebased base).arenaSize < 2 ^ e from hlt)]
    rfl
  rw [halloc]
  unfold allocBlock at hblock ⊢
  rw [hg, ok_bind] at hblock
  rw [show (t.rebased base).blockGranularity (2 ^ e) = .ok (K - e) from hg, ok_bind]
  by_cases hex : t.avails &&& (1 <<< (K - e)) ≠ 0
  · rw [if_pos hex] at hblock
    rw [if_pos (show (t.rebased base).avails &&& (1 <<< (K - e)) ≠ 0 from hex)]
    obtain ⟨⟨node, t₁⟩, hrem, hblock⟩ := bind_ok hblock
    obtain ⟨p, hp, hblock⟩ := bind_ok hblock
    cases hblock
    rw [removeBlockNext_rebased hoff hJe heK hrem, ok_bind]
    dsimp only at hp ⊢
    rw [hp]
    rfl
  · rw [if_neg hex, findLoop_refusing] at hblock
    rw [if_neg (show ¬ ((t.rebased base).avails &&& (1 <<< (K - e)) ≠ 0) from hex),
      findLoop_refusing]
    by_cases hz : t.avails &&& ((1 <<< (K - e)) - 1) = 0
    · rw [if_pos hz] at hblock
      rw [if_pos (show (t.rebased base).avails &&& ((1 <<< (K - e)) - 1) = 0 from hz)]
      cases hblock
      rfl
    · rw [if_neg hz, ok_bind] at hblock
      rw [if_neg (show ¬ (t.rebased base).avails &&& ((1 <<< (K - e)) - 1) = 0 from hz), ok_bind]
      -- the block that is split has exponent `e'`
      obtain ⟨e', hlt', he'K, hlog, _⟩ := h.larger hz
      have hsizeOf : t.arenaSizePow2 >>> (K - e') = 2 ^ e' := by
        rw [hs.blockSize (by omega), Nat.sub_sub_self he'K]
      have hhalf : 2 ^ e' >>> 1 = 2 ^ (e' - 1) := by
        obtain ⟨k, rfl⟩ : ∃ k, e' = k + 1 := ⟨e' - 1, by omega⟩
        rw [Nat.shiftRight_eq_div_pow, pow_one, Nat.pow_succ, Nat.mul_div_cancel _ (by omega)]
        rfl
      dsimp only at hblock ⊢
      rw [show fastNon0Log2 ((t.rebased base).avails &&& ((1 <<< (K - e)) - 1)) = K - e' from hlog,
        show (t.rebased base).arenaSizePow2 >>> (K - e') = 2 ^ e' from hsizeOf, hhalf]
      rw [hlog, hsizeOf, hhalf] at hblock
      obtain ⟨⟨node, t₁⟩, hrem, hblock⟩ := bind_ok hblock
      obtain ⟨t₂, hbreak, hblock⟩ := bind_ok hblock
      obtain ⟨p, hp, hblock⟩ := bind_ok hblock
      cases hblock
      have harena : t₁.toArena = t.toArena := removeBlockNext_arena hrem
      rw [removeBlockNext_rebased hoff (by omega) he'K hrem, ok_bind]
      dsimp only at hp hbreak ⊢
      rw [breakDown_rebased _ (by rw [harena]; exact hoff) (by omega) (by omega) hbreak, ok_bind, hp]
      rfl

end Talloc

end Tauos.Memm
