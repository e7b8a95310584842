import Tauos.Out.FrameBuffer

/-!
# What `write_bitmap` draws, and where

`write_bitmap` takes the byte of a pixel from `bit_offset + row * stride` and the
bit in that byte from `bit_offset` alone. The two agree when the rows of the
bitmap are whole bytes apart.

> `draws_bitmap_iff`: the exact condition on the bits of the source under which
> the picture is the one the arguments describe.

Its assertions are checked once, and nothing in the loops is. The one for the
right edge adds `width / 8` to `dst_x`, as if `width` counted bits and the
screen bytes.

> `assertions_sufficient_iff`: the exact condition under which the assertions
> imply that every access is inside, and do not underflow themselves.
-/

namespace Tauos.Out.FrameBuffer

open Tauos.Rust

variable {a b : FrameBuffer} {src : List (BitVec 8)} {offset width height stride dstX dstY : Nat}
  {c₀ c₁ : Color}

/-! ## The assertions -/

theorem checkBitmap_ok_iff (ha : a.Valid) :
    a.checkBitmap src offset width height stride dstX dstY = .ok () ↔
    BitmapFits a src offset width height stride dstX dstY := by
  constructor
  · intro h
    obtain ⟨bits, hbits, h⟩ := bind_ok h
    obtain ⟨area, harea, h⟩ := bind_ok h
    obtain ⟨total, htotal, h⟩ := bind_ok h
    obtain ⟨gap, hgap, h⟩ := bind_ok h
    obtain ⟨span, hspan, h⟩ := bind_ok h
    obtain ⟨_, hroom, h⟩ := bind_ok h
    obtain ⟨right, hright, h⟩ := bind_ok h
    obtain ⟨_, hcolumns, h⟩ := bind_ok h
    obtain ⟨bottom, hbottom, h⟩ := bind_ok h
    obtain ⟨h1, rfl⟩ := usizeMul_ok hbits
    obtain ⟨_, rfl⟩ := usizeMul_ok harea
    obtain ⟨h2, rfl⟩ := usizeAdd_ok htotal
    obtain ⟨h3, rfl⟩ := usizeSub_ok hgap
    obtain ⟨h4, rfl⟩ := usizeSub_ok hspan
    obtain ⟨_, rfl⟩ := usizeAdd_ok hright
    obtain ⟨_, rfl⟩ := usizeAdd_ok hbottom
    exact ⟨h1, h2, h3, h4, of_decide_eq_true (ensure_ok hroom),
      of_decide_eq_true (ensure_ok hcolumns),
      of_decide_eq_true (ensure_ok h)⟩
  · intro h
    exact h.check ha

/-! ## The picture -/

/-- Bit `p` of the source, the most significant bit of a byte first. -/
def bitAt (src : List (BitVec 8)) (p : Nat) : Bool := (src.getD (p / 8) 0).getLsbD (7 - p % 8)

/-- `write_bitmap` returns, and the pixels of the rectangle are the bits of the source
from `offset` on, `stride` bits from row to row. -/
def DrawsBitmap (a : FrameBuffer) (src : List (BitVec 8))
    (offset width height stride dstX dstY : Nat)
    (c₀ c₁ : Color) : Prop :=
  ∃ b, a.writeBitmap src offset width height stride dstX dstY c₀ c₁ = .ok b ∧
    Painted a (Rect dstX width dstY height) (fun x y => colorToPixel
      (if bitAt src (offset + (y - dstY) * stride + (x - dstX)) then c₁ else c₀) a.format) b

/-- The bit `write_bitmap` looks at is in the right byte, at the place `bit_offset` has in
its own byte. -/
theorem bitmapBit_eq (src : List (BitVec 8)) (offset stride col row : Nat) :
    bitmapBit src offset stride col row
      = bitAt src ((offset + row * stride + col) / 8 * 8 + (offset + col) % 8) := by
  have hpos : col + offset + row * stride = offset + row * stride + col := by omega
  have hbyte : ((offset + row * stride + col) / 8 * 8 + (offset + col) % 8) / 8
      = (offset + row * stride + col) / 8 := by omega
  have hbit : ((offset + row * stride + col) / 8 * 8 + (offset + col) % 8) % 8
      = (col + offset) % 8 := by omega
  unfold bitmapBit bitAt
  rw [hbyte, hbit, hpos]

/-- With rows that are whole bytes apart it is the right bit. -/
theorem bitPlace_of_dvd (h : 8 ∣ stride) (row col : Nat) :
    (offset + row * stride + col) / 8 * 8 + (offset + col) % 8 = offset + row * stride + col := by
  obtain ⟨k, rfl⟩ := h
  have hmul : row * (8 * k) = 8 * (row * k) := by ring
  rw [hmul]
  omega

theorem colorToPixel_inj {c c' : Color} {format : PixelFormat}
    (h : colorToPixel c format = colorToPixel c' format) : c = c' := by
  cases c
  cases c'
  cases format <;> simp_all [colorToPixel]

/-- The picture is right if and only if the assertions do not overflow, and either the two
colours are the same or the source has the same bit in the place that is looked at as in
the right one, for every pixel. -/
theorem draws_bitmap_iff (ha : a.Valid) (hstride : width ≤ stride) (hheight : 0 < height)
    (hx : dstX + width ≤ a.width) (hy : dstY + height ≤ a.height)
    (hsrc : offset + (height - 1) * stride + width ≤ src.length * 8) :
    DrawsBitmap a src offset width height stride dstX dstY c₀ c₁ ↔
      (src.length * 8 < 2 ^ 64 ∧ offset + stride * height < 2 ^ 64) ∧
      (c₀ = c₁ ∨ ∀ row < height, ∀ col < width,
        bitAt src ((offset + row * stride + col) / 8 * 8 + (offset + col) % 8)
          = bitAt src (offset + row * stride + col)) := by
  have hmul : (height - 1) * stride + stride = stride * height := by
    obtain ⟨k, rfl⟩ := Nat.exists_eq_add_of_lt hheight
    rw [Nat.zero_add, Nat.add_sub_cancel]
    ring
  constructor
  · intro hdraws
    obtain ⟨b, hrun, hb⟩ := hdraws
    obtain ⟨_, hcheck, _⟩ := bind_ok hrun
    have hfits := (checkBitmap_ok_iff ha).mp hcheck
    refine ⟨⟨hfits.bits, hfits.total⟩, ?_⟩
    by_cases hcolor : c₀ = c₁
    · exact Or.inl hcolor
    right
    intro row hrow col hcol
    -- what is drawn is known, so the pixel tells which bit was taken
    obtain ⟨b', hrun', hb'⟩ := ha.writeBitmap hfits hx c₀ c₁
    rw [hrun] at hrun'
    cases hrun'
    have hin : Rect dstX width dstY height (dstX + col) (dstY + row) := by
      unfold Rect
      omega
    have hsame := (hb.inside (by omega) (by omega) hin).symm.trans
      (hb'.inside (by omega) (by omega) hin)
    have hbits := colorToPixel_inj hsame
    rw [Nat.add_sub_cancel_left, Nat.add_sub_cancel_left, bitmapBit_eq] at hbits
    split at hbits
    next h1 =>
      split at hbits
      next h2 => rw [h1, h2]
      next => exact absurd hbits.symm hcolor
    next h1 =>
      split at hbits
      next => exact absurd hbits hcolor
      next h2 => rw [Bool.not_eq_true] at h1 h2; rw [h1, h2]
  · intro hcond
    obtain ⟨⟨hbits, htotal⟩, hagree⟩ := hcond
    have hfits : BitmapFits a src offset width height stride dstX dstY :=
      ⟨hbits, htotal, hstride, by omega, by omega, by omega, hy⟩
    obtain ⟨b, hrun, hb⟩ := ha.writeBitmap hfits hx c₀ c₁
    refine ⟨b, hrun, hb.shape, fun {x y} hxw hyh hin => ?_, hb.outside⟩
    rw [hb.inside hxw hyh hin, bitmapBit_eq]
    rcases hagree with rfl | hagree
    · simp
    · unfold Rect at hin
      rw [hagree (y - dstY) (by omega) (x - dstX) (by omega)]

/-- A black screen of one column and two rows. -/
def column : FrameBuffer := ⟨List.replicate 8 0, 1, 2, 4, .rgba⟩

theorem column_valid : column.Valid := ⟨by decide, by decide, by decide, by decide, by decide⟩

/-- The bits 1 and 0 as a column: with a stride of one bit both pixels become white. -/
theorem packed_rows_drawn_wrong : column.Valid ∧ 0 + 2 ≤ column.height ∧
    ¬ DrawsBitmap column [0x80] 0 1 2 1 0 0 Color.BLACK Color.WHITE := by
  refine ⟨column_valid, by decide, fun hdraws => ?_⟩
  obtain ⟨b, hrun, hb⟩ := hdraws
  have hwhite : column.writeBitmap [0x80] 0 1 2 1 0 0 Color.BLACK Color.WHITE
      = .ok ⟨List.replicate 8 255, 1, 2, 4, .rgba⟩ := by decide
  rw [hrun] at hwhite
  cases hwhite
  have hblack := hb.inside (x := 0) (y := 1) (by decide) (by decide) (by unfold Rect; decide)
  revert hblack
  decide

/-- The same column with a byte for each row. -/
theorem draws_bitmap_bytes : column.Valid ∧
    DrawsBitmap column [0x80, 0x00] 0 1 2 8 0 0 Color.BLACK Color.WHITE := by
  refine ⟨column_valid,
    (draws_bitmap_iff column_valid (by decide) (by decide) (by decide) (by decide)
    (by decide)).mpr ⟨by decide, Or.inr fun row _ col _ => ?_⟩⟩
  rw [bitPlace_of_dvd (by decide)]

/-! ## The accesses -/

/-- The indices of one pass: the byte of the source and the first byte of the pixel. -/
def bitmapAccess (fb : FrameBuffer) (offset stride dstX dstY row col : Nat) :
    Except Fault (Nat × Nat) := do
  let bitOffset ← usizeAdd col offset
  let pixel ← fb.offset (← usizeAdd dstX col) (← usizeAdd dstY row)
  let bit ← usizeAdd bitOffset (← usizeMul row stride)
  return (bit / 8, pixel)

/-- These are all accesses of `write_bitmap`: it reads the byte and writes the pixel. -/
theorem writeBitmap_eq (a : FrameBuffer) (src : List (BitVec 8))
    (offset width height stride dstX dstY : Nat) (c₀ c₁ : Color) :
    a.writeBitmap src offset width height stride dstX dstY c₀ c₁ = (do
      a.checkBitmap src offset width height stride dstX dstY
      forRange 0 height (fun row fb => forRange 0 width (fun col fb => do
        let access ← fb.bitmapAccess offset stride dstX dstY row col
        let byte ← getByte src access.1
        fb.write access.2 (if byte &&& 1#8 <<< (7 - (col + offset) % 8) ≠ 0
          then colorToPixel c₁ a.format else colorToPixel c₀ a.format)) fb) a) := by
  have hpass : ∀ row col (fb : FrameBuffer), (do
      let bitOffset ← usizeAdd col offset
      let pixel ← fb.offset (← usizeAdd dstX col) (← usizeAdd dstY row)
      let byte ← getByte src ((← usizeAdd bitOffset (← usizeMul row stride)) / 8)
      fb.write pixel (if byte &&& 1#8 <<< (7 - bitOffset % 8) ≠ 0 then colorToPixel c₁ a.format
        else colorToPixel c₀ a.format)) = (do
      let access ← fb.bitmapAccess offset stride dstX dstY row col
      let byte ← getByte src access.1
      fb.write access.2 (if byte &&& 1#8 <<< (7 - (col + offset) % 8) ≠ 0
        then colorToPixel c₁ a.format else colorToPixel c₀ a.format)) := by
    intro row col fb
    unfold bitmapAccess
    by_cases hlt : col + offset < 2 ^ 64
    · rw [usizeAdd_of_lt hlt]
      simp only [ok_bind, bind_assoc, pure_bind]
    · rw [usizeAdd, if_neg hlt]
      rfl
  unfold writeBitmap
  simp only [hpass]

/-- One pass reads inside the source and writes a visible pixel. -/
structure InBounds (a : FrameBuffer) (src : List (BitVec 8))
(offset stride dstX dstY row col : Nat) :
    Prop where
  access : ∃ i p, a.bitmapAccess offset stride dstX dstY row col = .ok (i, p) ∧ i < src.length ∧
    p + 4 ≤ a.buffer.length
  column : dstX + col < a.width
  row : dstY + row < a.height

/-- What the assertions are for: past them all accesses are inside, and with rows that do
not overlap they do not underflow. -/
structure AssertionsSuffice (a : FrameBuffer) (src : List (BitVec 8))
    (offset width height stride dstX dstY : Nat) : Prop where
  inside : a.checkBitmap src offset width height stride dstX dstY = .ok () →
    ∀ row < height, ∀ col < width, InBounds a src offset stride dstX dstY row col
  total : width ≤ stride →
    a.checkBitmap src offset width height stride dstX dstY ≠ .error .underflow

theorem BitmapFits.inBounds (h : BitmapFits a src offset width height stride dstX dstY)
    (ha : a.Valid)
    (hx : dstX + width ≤ a.width) {row col : Nat} (hrow : row < height) (hcol : col < width) :
    InBounds a src offset stride dstX dstY row col := by
  have hbits := h.bits
  have hlt := h.bit_lt hrow hcol
  have hy := h.rows
  refine ⟨⟨(col + offset + row * stride) / 8, _, ?_, ?_,
      ha.inside (x := dstX + col) (y := dstY + row) (by omega) (by omega)⟩,
    by omega, by omega⟩
  · unfold bitmapAccess
    rw [usizeAdd_of_lt (by omega), ok_bind, ha.addX (by omega), ok_bind, ha.addY (by omega),
      ok_bind,
      ha.offset (by omega) (by omega), ok_bind, usizeMul_of_lt (by omega), ok_bind,
      usizeAdd_of_lt (by omega)]
    rfl
  · omega

/-- Only a bitmap without rows makes the first assertion underflow. -/
theorem checkBitmap_underflow_iff (hoffset : offset < 2 ^ 64) (hstride : width ≤ stride) :
    a.checkBitmap src offset width height stride dstX dstY = .error .underflow ↔
      src.length * 8 < 2 ^ 64 ∧ height = 0 ∧ offset < stride - width := by
  constructor
  · intro h
    rcases bind_error h with hmul | ⟨bits, hmul, h⟩
    · cases usizeMul_error hmul
    obtain ⟨hbits, rfl⟩ := usizeMul_ok hmul
    rcases bind_error h with hmul | ⟨area, harea, h⟩
    · cases usizeMul_error hmul
    obtain ⟨_, rfl⟩ := usizeMul_ok harea
    rcases bind_error h with hadd | ⟨total, htotal, h⟩
    · cases usizeAdd_error hadd
    obtain ⟨_, rfl⟩ := usizeAdd_ok htotal
    rcases bind_error h with hsub | ⟨gap, hgap, h⟩
    · exact absurd (usizeSub_error hsub) (Nat.not_lt.mpr hstride)
    obtain ⟨_, rfl⟩ := usizeSub_ok hgap
    rcases bind_error h with hsub | ⟨span, _, h⟩
    · have hlt := usizeSub_error hsub
      have hzero : height = 0 := by
        by_contra hne
        have hle : stride * 1 ≤ stride * height :=
          Nat.mul_le_mul_left _ (Nat.pos_of_ne_zero hne)
        omega
      subst hzero
      exact ⟨hbits, rfl, by omega⟩
    · -- what is left can overflow or fail, but not underflow
      rcases bind_error h with hcheck | ⟨_, _, h⟩
      · cases ensure_error hcheck
      rcases bind_error h with hadd | ⟨_, _, h⟩
      · cases usizeAdd_error hadd
      rcases bind_error h with hcheck | ⟨_, _, h⟩
      · cases ensure_error hcheck
      rcases bind_error h with hadd | ⟨_, _, h⟩
      · cases usizeAdd_error hadd
      · cases ensure_error h
  · intro h
    obtain ⟨hbits, rfl, hlt⟩ := h
    unfold checkBitmap
    rw [usizeMul_of_lt hbits, ok_bind, usizeMul_of_lt (by omega), ok_bind,
      usizeAdd_of_lt (by omega),
      ok_bind, usizeSub_of_le hstride, ok_bind, usizeSub, if_neg (by omega)]
    rfl

/-- The assertions suffice if and only if a bitmap they let through ends at the right edge
of the screen, or is empty, and they are not asked about a bitmap without rows in front of
whose start there is no room for the gap between two rows. -/
theorem assertions_sufficient_iff (ha : a.Valid) (hoffset : offset < 2 ^ 64) :
    AssertionsSuffice a src offset width height stride dstX dstY ↔
      (a.checkBitmap src offset width height stride dstX dstY = .ok () →
        height = 0 ∨ width = 0 ∨ dstX + width ≤ a.width) ∧
      ¬ (src.length * 8 < 2 ^ 64 ∧ height = 0 ∧ offset < stride - width) := by
  constructor
  · intro h
    obtain ⟨hinside, htotal⟩ := h
    refine ⟨fun hcheck => ?_, fun hunder => ?_⟩
    · by_contra hcon
      push Not at hcon
      obtain ⟨hheight, hwidth, hright⟩ := hcon
      have hlast := (hinside hcheck 0 (by omega) (width - 1) (by omega)).column
      omega
    · have hstride : width ≤ stride := by omega
      exact htotal hstride ((checkBitmap_underflow_iff hoffset hstride).mpr hunder)
  · intro h
    obtain ⟨hright, hunder⟩ := h
    refine ⟨fun hcheck row hrow col hcol => ?_, fun hstride herr => ?_⟩
    · have hfits := (checkBitmap_ok_iff ha).mp hcheck
      have hx : dstX + width ≤ a.width := by
        have hcases := hright hcheck
        omega
      exact hfits.inBounds ha hx hrow hcol
    · exact hunder ((checkBitmap_underflow_iff hoffset hstride).mp herr)

/-- Two columns on a screen that has one: the assertions hold, the second pixel is beside
the screen. -/
theorem right_edge_crossed : column.Valid ∧
    column.checkBitmap [0xC0] 0 2 1 8 0 0 = .ok () ∧
    ¬ AssertionsSuffice column [0xC0] 0 2 1 8 0 0 := by
  refine ⟨column_valid, by decide, fun h => ?_⟩
  have hcolumn := (h.inside (by decide) 0 (by decide) 1 (by decide)).column
  revert hcolumn
  decide

/-- A black screen of four columns and three rows, with a gap behind each row. -/
def grid : FrameBuffer := ⟨List.replicate 60 0, 4, 3, 20, .rgba⟩

theorem grid_valid : grid.Valid := ⟨by decide, by decide, by decide, by decide, by decide⟩

/-- Three columns and two rows up to the right edge: the assertions hold, and suffice. -/
theorem assertions_sufficient_grid : grid.Valid ∧
    grid.checkBitmap [0xA0, 0x40] 0 3 2 8 1 1 = .ok () ∧
    AssertionsSuffice grid [0xA0, 0x40] 0 3 2 8 1 1 :=
  ⟨grid_valid, by decide, (assertions_sufficient_iff grid_valid (by decide)).mpr
    ⟨fun _ => by decide, by decide⟩⟩

end Tauos.Out.FrameBuffer
