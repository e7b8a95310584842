import Tauos.Rust.Bytes

/-!
# PSF fonts

`utils/psf.rs`. A font file is a header of eight little-endian `u32` and, from
`header_size` on, glyphs of `glyph_size` bytes each. `PsfFont::new` reads the
header and keeps the whole file; `get_glyph` cuts out one glyph.

A row of a glyph takes whole bytes, and its leftmost pixel is the most
significant bit: `ink` is the picture this describes.
-/

namespace Tauos.Utils

open Tauos.Rust

/-- The header of a font. -/
structure PsfFontHeader where
  magic : BitVec 32
  version : BitVec 32
  headerSize : BitVec 32
  flags : BitVec 32
  glyphCount : BitVec 32
  glyphSize : BitVec 32
  height : BitVec 32
  width : BitVec 32
  deriving DecidableEq, Repr

/-- The header with the bytes of the file. -/
structure PsfFont where
  header : PsfFontHeader
  data : List (BitVec 8)
  deriving DecidableEq, Repr

namespace PsfFont

/-- `PSF_FONT_MAGIC`. -/
def PSF_FONT_MAGIC : BitVec 32 := 0x864ab572

/-- `data[i]`, bounds checked. -/
def index (data : List (BitVec 8)) (i : Nat) : Except Fault (BitVec 8) :=
  match data[i]? with
  | some v => .ok v
  | none => .error .assertion

/-- Four bytes from `i` on as a little-endian `u32`. -/
def sliceToU32 (i : Nat) (data : List (BitVec 8)) : Except Fault (BitVec 32) := do
  let b0 ← index data i
  let b1 ← index data (i + 1)
  let b2 ← index data (i + 2)
  let b3 ← index data (i + 3)
  return b3 ++ b2 ++ b1 ++ b0

/-- `PsfFont::new`. -/
def new (data : List (BitVec 8)) : Except Fault PsfFont := do
  let magic ← sliceToU32 0 data
  ensure (decide (magic = PSF_FONT_MAGIC))
  let header : PsfFontHeader := {
    magic
    version := ← sliceToU32 4 data
    headerSize := ← sliceToU32 8 data
    flags := ← sliceToU32 12 data
    glyphCount := ← sliceToU32 16 data
    glyphSize := ← sliceToU32 20 data
    height := ← sliceToU32 24 data
    width := ← sliceToU32 28 data }
  return ⟨header, data⟩

/-- `PsfFont::get_glyph`; `none` when the file ends before the glyph does. -/
def getGlyph (f : PsfFont) (i : Nat) : Except Fault (Option (List (BitVec 8))) := do
  let offset ← usizeAdd f.header.headerSize.toNat (← usizeMul f.header.glyphSize.toNat i)
  let acme ← usizeAdd offset f.header.glyphSize.toNat
  return if acme ≤ f.data.length then some ((f.data.drop offset).take f.header.glyphSize.toNat)
    else none

/-- `header.width as usize`. -/
def width (f : PsfFont) : Nat := f.header.width.toNat

/-- `header.height as usize`. -/
def height (f : PsfFont) : Nat := f.header.height.toNat

/-- Bytes in a row of a glyph. -/
def rowBytes (f : PsfFont) : Nat := (f.width + 7) / 8

/-- The pixel of glyph `i` in the given row and column is set. -/
def ink (f : PsfFont) (i row col : Nat) : Bool :=
  (f.data.getD (f.header.headerSize.toNat + f.header.glyphSize.toNat * i + row * f.rowBytes + col / 8)
    0).getLsbD (7 - col % 8)

/-- Glyph `i` is in the file. -/
def Has (f : PsfFont) (i : Nat) : Prop :=
  f.header.headerSize.toNat + f.header.glyphSize.toNat * i + f.header.glyphSize.toNat ≤
    f.data.length

instance (f : PsfFont) (i : Nat) : Decidable (f.Has i) := inferInstanceAs (Decidable (_ ≤ _))

/-- A font as the format describes it: a glyph is `height` rows, and the file holds
`glyph_count` of them. -/
structure Valid (f : PsfFont) : Prop where
  width : 0 < f.width
  height : 0 < f.height
  glyphSize : f.header.glyphSize.toNat = f.height * f.rowBytes
  glyphs : f.header.headerSize.toNat + f.header.glyphCount.toNat * f.header.glyphSize.toNat
    ≤ f.data.length
  /-- What Rust promises of a slice. -/
  len : f.data.length < 2 ^ 63

variable {f : PsfFont}

/-- The width is a word of 32 bits. -/
theorem width_lt (f : PsfFont) : f.width < 2 ^ 32 := f.header.width.isLt

/-- A valid font has all its glyphs. -/
theorem Valid.has (h : f.Valid) {i : Nat} (hi : i < f.header.glyphCount.toNat) : f.Has i := by
  have hlen := h.glyphs
  have hmul : (i + 1) * f.header.glyphSize.toNat ≤
      f.header.glyphCount.toNat * f.header.glyphSize.toNat :=
    Nat.mul_le_mul_right _ hi
  unfold Has
  rw [Nat.add_mul, Nat.one_mul, Nat.mul_comm i] at hmul
  omega

/-- The bytes of glyph `i`. -/
def glyph (f : PsfFont) (i : Nat) : List (BitVec 8) :=
  (f.data.drop (f.header.headerSize.toNat + f.header.glyphSize.toNat * i)).take
    f.header.glyphSize.toNat

/-- A glyph has the size of the header. -/
theorem Has.length_glyph {i : Nat} (h : f.Has i) :
    (f.glyph i).length = f.header.glyphSize.toNat := by
  unfold Has at h
  rw [glyph, List.length_take, List.length_drop]
  omega

/-- The bytes of a glyph in the file. -/
theorem getD_glyph {i k : Nat} (hk : k < f.header.glyphSize.toNat) : (f.glyph i).getD k 0
    = f.data.getD (f.header.headerSize.toNat + f.header.glyphSize.toNat * i + k) 0 := by
  rw [glyph, List.getD_eq_getElem?_getD, List.getD_eq_getElem?_getD, List.getElem?_take, if_pos hk,
    List.getElem?_drop]

/-- `get_glyph` of a `char`: the offsets do not overflow. -/
theorem getGlyph_eq {i : Nat} (hi : i < 2 ^ 21) :
    f.getGlyph i = .ok (if f.Has i then some (f.glyph i) else none) := by
  have h1 := f.header.headerSize.isLt
  have h2 := f.header.glyphSize.isLt
  have hmul : f.header.glyphSize.toNat * i < 2 ^ 32 * 2 ^ 21 := Nat.mul_lt_mul'' h2 hi
  unfold getGlyph Has
  rw [usizeMul_of_lt (by omega), ok_bind, usizeAdd_of_lt (by omega), ok_bind,
    usizeAdd_of_lt (by omega), ok_bind]
  rfl

end PsfFont

end Tauos.Utils
