import Tauos.Out.Console
import Tauos.Out.FrameBuffer
import Tauos.Utils.Psf

/-!
# The terminal

`out/terminal.rs`: a frame buffer, a font and a column. A character is drawn at
the bottom of the screen, and a new line scrolls the whole screen up by the
height of a glyph.

> `Shows t c`: the visible pixels of `t` are the picture of the console `c`, and
> its column is the length of the current line of `c`.

`new_line` and `write_char` are `newLine` and `put` of the console under this
relation, whatever the dimensions of screen and font. `write_str` is not always
a run of them: it replaces every character above `glyph_count` by glyph 0 before
`write_char` looks for a newline. A newline has the code 10, so with fewer than
10 glyphs it is drawn as glyph 0.
-/

namespace Tauos.Out

open Tauos.Rust Tauos.Utils

structure Term1 where
  fb : FrameBuffer
  font : PsfFont
  charCol : Nat
  deriving DecidableEq, Repr

namespace Term1

/-- `Term1::new_line`. -/
def newLine (t : Term1) : Except Fault Term1 := do
  let fb ← t.fb.internalBlt 0 t.font.height t.fb.width (← usizeSub t.fb.height t.font.height) 0 0
  let fb ← fb.fillRect 0 (← usizeSub fb.height t.font.height) fb.width t.font.height Color.BLACK
  return { t with fb, charCol := 0 }

/-- A new line when the next character does not fit on the current one. -/
def wrap (t : Term1) : Except Fault Term1 := do
  if t.fb.width < (← usizeMul (← usizeAdd t.charCol 1) t.font.width) then t.newLine else return t

/-- The glyph of `c` at the current column. -/
def drawGlyph (t : Term1) (c : Nat) : Except Fault Term1 := do
  match ← t.font.getGlyph c with
  | none => .error .assertion
  | some glyph =>
    let stride := (maskDown (← usizeAdd t.font.width 7 : Nat) 8).toNat
    let fb ← t.fb.writeBitmap glyph 0 t.font.width t.font.height stride
      (← usizeMul t.charCol t.font.width) (← usizeSub t.fb.height t.font.height)
      Color.BLACK Color.WHITE
    return { t with fb, charCol := ← usizeAdd t.charCol 1 }

/-- `Term1::write_char`. -/
def writeChar (t : Term1) (c : Nat) : Except Fault Term1 := do
  if c = '\n'.toNat then t.newLine
  else
    let t ← t.wrap
    t.drawGlyph c

/-- The body of the loop of `Term1::write_str`. -/
def writeScalar (t : Term1) (ch : Char) : Except Fault Term1 :=
  let c := ch.toNat
  if t.font.header.glyphCount.toNat < c then t.writeChar 0 else t.writeChar c

def writeChars : List Char → Term1 → Except Fault Term1
  | [], t => .ok t
  | ch :: s, t => do
    let t ← t.writeScalar ch
    writeChars s t

/-- `Term1::write_str`. -/
def writeStr (t : Term1) (s : String) : Except Fault Term1 := writeChars s.toList t

/-- Characters in a line. -/
def columns (t : Term1) : Nat := t.fb.width / t.font.width

/-- A screen with room for a glyph. -/
structure Valid (t : Term1) : Prop where
  fb : t.fb.Valid
  font : t.font.Valid
  width : t.font.width ≤ t.fb.width
  height : t.font.height ≤ t.fb.height

/-- Same dimensions, same font. -/
structure SameShape (t t' : Term1) : Prop where
  fb : t.fb.SameShape t'.fb
  font : t'.font = t.font

/-- The colour of a pixel of the picture of a console. -/
def picture (t : Term1) (c : Console Nat) (x y : Nat) : Pixel :=
  colorToPixel (if c.lit t.font.ink t.font.width t.font.height t.fb.height x y then Color.WHITE
    else Color.BLACK) t.fb.format

/-- The screen is the picture of the console. -/
structure Shows (t : Term1) (c : Console Nat) : Prop where
  pixel : ∀ {x y}, x < t.fb.width → y < t.fb.height → t.fb.pixel x y = t.picture c x y
  col : t.charCol = c.line.length

variable {t t' t'' : Term1} {c : Console Nat}

theorem SameShape.refl (t : Term1) : SameShape t t := ⟨FrameBuffer.SameShape.refl t.fb, rfl⟩

theorem SameShape.trans (h : SameShape t t') (h' : SameShape t' t'') : SameShape t t'' :=
  ⟨h.fb.trans h'.fb, h'.font.trans h.font⟩

theorem SameShape.valid (h : SameShape t t') (ht : t.Valid) : t'.Valid := by
  refine ⟨h.fb.valid ht.fb, ?_, ?_, ?_⟩
  · rw [h.font]
    exact ht.font
  · rw [h.font, h.fb.width]
    exact ht.width
  · rw [h.font, h.fb.height]
    exact ht.height

theorem SameShape.columns (h : SameShape t t') : t'.columns = t.columns := by
  rw [Term1.columns, Term1.columns, h.font, h.fb.width]

theorem SameShape.picture (h : SameShape t t') (c : Console Nat) (x y : Nat) :
    t'.picture c x y = t.picture c x y := by
  rw [Term1.picture, Term1.picture, h.font, h.fb.height, h.fb.format]

theorem Valid.columns_pos (h : t.Valid) : 0 < t.columns := Nat.div_pos h.width h.font.width

/-- A screen with pixels is no wider than its buffer. -/
theorem Valid.width_lt (h : t.Valid) : t.fb.width < 2 ^ 63 := by
  have hlen := h.fb.len
  have hstride := h.fb.stride
  have hrow : t.fb.stride * 1 ≤ t.fb.stride * t.fb.height :=
    Nat.mul_le_mul_left _ (h.font.height.trans_le h.height)
  rw [h.fb.buffer] at hlen
  omega

/-- The test for a full line. -/
theorem Valid.wrap_iff (h : t.Valid) (n : Nat) :
    t.fb.width < (n + 1) * t.font.width ↔ t.columns ≤ n := by
  have hpos := h.font.width
  rw [← Nat.not_le, ← Nat.le_div_iff_mul_le hpos]
  unfold Term1.columns
  omega

/-! ## One step -/

/-- `new_line` scrolls by one glyph and blanks the bottom of the screen. -/
theorem newLine_run (hfb : t.fb.Valid) (hle : t.font.height ≤ t.fb.height) :
    ∃ fb₁ fb₂, t.newLine = .ok { t with fb := fb₂, charCol := 0 } ∧
      t.fb.Painted (fun _ y => y < t.fb.height - t.font.height)
        (fun x y => t.fb.pixel x (y + t.font.height)) fb₁ ∧
      fb₁.Painted (FrameBuffer.Rect 0 fb₁.width (fb₁.height - t.font.height) t.font.height)
        (fun _ _ => colorToPixel Color.BLACK fb₁.format) fb₂ := by
  obtain ⟨fb₁, hblt, h₁⟩ := hfb.scroll hle
  have hh₁ := h₁.shape.height
  obtain ⟨fb₂, hfill, h₂⟩ := (h₁.valid hfb).fillRect (x := 0) (y := fb₁.height - t.font.height)
    (w := fb₁.width) (h := t.font.height) (by omega) (by omega) Color.BLACK
  refine ⟨fb₁, fb₂, ?_, h₁, h₂⟩
  unfold Term1.newLine
  rw [usizeSub_of_le hle, ok_bind, hblt, ok_bind, usizeSub_of_le (by omega), ok_bind, hfill]
  rfl

/-- `new_line` starts a new line. -/
theorem Valid.newLine (h : t.Valid) (hs : t.Shows c) :
    ∃ t', t.newLine = .ok t' ∧ SameShape t t' ∧ t'.Shows c.newLine := by
  have hle := h.height
  have hpos : 0 < t.font.height := h.font.height
  obtain ⟨fb₁, fb₂, hrun, h₁, h₂⟩ := newLine_run h.fb hle
  have hh₁ := h₁.shape.height
  have hw₁ := h₁.shape.width
  have hsh : SameShape t { t with fb := fb₂, charCol := 0 } := ⟨h₁.shape.trans h₂.shape, rfl⟩
  refine ⟨{ t with fb := fb₂, charCol := 0 }, hrun, hsh, ?_, rfl⟩
  intro x y hx hy
  rw [show (FrameBuffer.width _) = t.fb.width from hsh.fb.width] at hx
  rw [show (FrameBuffer.height _) = t.fb.height from hsh.fb.height] at hy
  rw [hsh.picture, picture, c.lit_newLine hpos hle hy]
  show fb₂.pixel x y = _
  by_cases hup : y < t.fb.height - t.font.height
  · rw [if_pos hup, h₂.outside (by omega) (by omega) (by unfold FrameBuffer.Rect; omega),
      h₁.inside hx hy hup]
    exact hs.pixel hx (by omega)
  · rw [if_neg hup, h₂.inside (by omega) (by omega) (by unfold FrameBuffer.Rect; omega),
      h₁.shape.format]
    rfl

/-- The bits from one row of a glyph to the next. -/
theorem stride_eq (f : PsfFont) :
    (maskDown ((f.width + 7 : Nat) : Int) 8).toNat = f.rowBytes * 8 := by
  have hlt := f.width_lt
  have hmask : maskDown ((f.width + 7 : Nat) : Int) 8 = ((f.rowBytes * 8 : Nat) : Int) := by
    rw [show (8 : Nat) = 2 ^ 3 from rfl, maskDown_two_pow ⟨by omega, by omega⟩ (by norm_num)]
    unfold PsfFont.rowBytes
    push_cast
    rfl
  rw [hmask, Int.toNat_natCast]

/-- The bits of a glyph, as `write_bitmap` looks at them, are its picture. -/
theorem Valid.bitmapBit (h : t.Valid) {i row col : Nat} (hrow : row < t.font.height)
    (hcol : col < t.font.width) :
    FrameBuffer.bitmapBit (t.font.glyph i) 0 (t.font.rowBytes * 8) col row =
      t.font.ink i row col := by
  have hidx : (col + 0 + row * (t.font.rowBytes * 8)) / 8 = row * t.font.rowBytes + col / 8 := by
    rw [show row * (t.font.rowBytes * 8) = row * t.font.rowBytes * 8 by ring]
    omega
  have hlt : row * t.font.rowBytes + col / 8 < t.font.header.glyphSize.toNat := by
    have hmul : (row + 1) * t.font.rowBytes ≤ t.font.height * t.font.rowBytes :=
      Nat.mul_le_mul_right _ hrow
    have hcol8 : col / 8 < t.font.rowBytes := by
      unfold PsfFont.rowBytes
      omega
    rw [h.font.glyphSize]
    rw [Nat.add_mul, Nat.one_mul] at hmul
    omega
  rw [FrameBuffer.bitmapBit, PsfFont.ink, hidx, PsfFont.getD_glyph hlt, Nat.add_zero,
    ← Nat.add_assoc]

/-- `write_char` makes room on the current line. -/
theorem Valid.wrap (h : t.Valid) (hs : t.Shows c) (hline : c.line.length ≤ t.columns) :
    ∃ t' c', t.wrap = .ok t' ∧ SameShape t t' ∧ t'.Shows c' ∧ c'.line.length < t.columns ∧
      ∀ ch, c'.put t.columns ch = c.put t.columns ch := by
  have hpos := h.columns_pos
  have hcol := hs.col
  have hwidth := t.font.width_lt
  have hcols : t.columns * t.font.width ≤ t.fb.width := Nat.div_mul_le_self ..
  have hmul : t.charCol * t.font.width ≤ t.columns * t.font.width :=
    Nat.mul_le_mul_right _ (by omega)
  have hstart : t.charCol ≤ t.charCol * t.font.width := Nat.le_mul_of_pos_right _ h.font.width
  have hlt := h.width_lt
  have hrun : t.wrap = if t.fb.width < (t.charCol + 1) * t.font.width then t.newLine
      else .ok t := by
    unfold Term1.wrap
    rw [usizeAdd_of_lt (by omega), ok_bind, usizeMul_of_lt (by rw [Nat.add_mul]; omega)]
    rfl
  rw [hrun]
  by_cases hfull : t.fb.width < (t.charCol + 1) * t.font.width
  · rw [if_pos hfull]
    rw [h.wrap_iff, hcol] at hfull
    obtain ⟨t', hnew, hsh, hs'⟩ := h.newLine hs
    exact ⟨t', c.newLine, hnew, hsh, hs', hpos, fun ch => (Console.put_of_full hpos hfull ch).symm⟩
  · rw [if_neg hfull]
    rw [h.wrap_iff] at hfull
    exact ⟨t, c, rfl, SameShape.refl t, hs, by omega, fun _ => rfl⟩

/-- A glyph that ends in front of the right edge passes the assertions of `write_bitmap`.
One without rows does if its rows had no gaps. -/
theorem glyph_fits (hsize : t.font.header.glyphSize.toNat = t.font.height * t.font.rowBytes)
    (hle : t.font.height ≤ t.fb.height) (hgap : t.font.height = 0 → 8 ∣ t.font.width) {i n : Nat}
    (hhas : t.font.Has i) (hn : n * t.font.width + t.font.width ≤ t.fb.width) :
    t.fb.BitmapFits (t.font.glyph i) 0 t.font.width t.font.height (t.font.rowBytes * 8)
      (n * t.font.width) (t.fb.height - t.font.height) := by
  have hlt := t.font.header.glyphSize.isLt
  have hlen := hhas.length_glyph
  have hbits : t.font.rowBytes * 8 * t.font.height = t.font.header.glyphSize.toNat * 8 := by
    rw [hsize]
    ring
  have hrow : t.font.width ≤ t.font.rowBytes * 8 := by
    unfold PsfFont.rowBytes
    omega
  have hspan : t.font.rowBytes * 8 - t.font.width ≤ 0 + t.font.rowBytes * 8 * t.font.height := by
    by_cases hzero : t.font.height = 0
    · have hdvd := hgap hzero
      unfold PsfFont.rowBytes
      omega
    · have hrows : t.font.rowBytes * 8 * 1 ≤ t.font.rowBytes * 8 * t.font.height :=
        Nat.mul_le_mul_left _ (Nat.pos_of_ne_zero hzero)
      omega
  refine ⟨?_, ?_, hrow, hspan, ?_, ?_, ?_⟩ <;> omega

/-- `Term1::write_char` draws what `write_bitmap` does. -/
theorem drawGlyph_run {i : Nat} {fb : FrameBuffer} (hi : i < 2 ^ 21) (hhas : t.font.Has i)
    (hle : t.font.height ≤ t.fb.height) (hcol : t.charCol + 1 < 2 ^ 64)
    (hx : t.charCol * t.font.width < 2 ^ 64)
    (hrun : t.fb.writeBitmap (t.font.glyph i) 0 t.font.width t.font.height (t.font.rowBytes * 8)
      (t.charCol * t.font.width) (t.fb.height - t.font.height) Color.BLACK Color.WHITE = .ok fb) :
    t.drawGlyph i = .ok { t with fb := fb, charCol := t.charCol + 1 } := by
  have hwidth := t.font.width_lt
  unfold Term1.drawGlyph
  rw [PsfFont.getGlyph_eq hi, ok_bind, if_pos hhas]
  dsimp only
  rw [usizeAdd_of_lt (by omega), ok_bind, stride_eq, usizeMul_of_lt hx, ok_bind,
    usizeSub_of_le hle, ok_bind, hrun, ok_bind, usizeAdd_of_lt hcol]
  rfl

/-- A glyph at the end of a line with room. -/
theorem Valid.drawGlyph (h : t.Valid) (hs : t.Shows c) (hroom : c.line.length < t.columns)
    {i : Nat} (hi : i < 2 ^ 21) (hhas : t.font.Has i) :
    ∃ t', t.drawGlyph i = .ok t' ∧ SameShape t t' ∧ t'.Shows (c.put t.columns i) := by
  have hle := h.height
  have hcol := hs.col
  have hx : t.charCol * t.font.width + t.font.width ≤ t.fb.width := by
    have hnot := (h.wrap_iff t.charCol).not.mpr (by omega)
    rw [Nat.add_mul, Nat.one_mul] at hnot
    omega
  have hfits := glyph_fits h.font.glyphSize hle (fun hzero => absurd hzero h.font.height.ne')
    hhas hx
  obtain ⟨fb, hrun, hp⟩ := h.fb.writeBitmap hfits hx Color.BLACK Color.WHITE
  have hsh : SameShape t { t with fb := fb, charCol := t.charCol + 1 } := ⟨hp.shape, rfl⟩
  refine ⟨{ t with fb := fb, charCol := t.charCol + 1 }, ?_, hsh, ?_, ?_⟩
  · have hlt := h.width_lt
    have hstart : t.charCol ≤ t.charCol * t.font.width := Nat.le_mul_of_pos_right _ h.font.width
    exact drawGlyph_run hi hhas hle (by omega) (by omega) hrun
  · intro x y hx hy
    rw [show (FrameBuffer.width _) = t.fb.width from hsh.fb.width] at hx
    rw [show (FrameBuffer.height _) = t.fb.height from hsh.fb.height] at hy
    rw [hsh.picture, picture, c.lit_put h.font.width h.font.height hle hroom i hy, ← hcol]
    show fb.pixel x y = _
    split
    next hin =>
      rw [hp.inside hx hy (by unfold FrameBuffer.Rect; omega), h.bitmapBit (by omega) (by omega)]
    next hout =>
      rw [hp.outside hx hy (by unfold FrameBuffer.Rect; omega)]
      exact hs.pixel hx hy
  · rw [Console.put_of_room hroom, List.length_append]
    show t.charCol + 1 = _
    rw [hcol]
    rfl

/-- `write_char` of a character with a glyph. -/
theorem Valid.writeChar (h : t.Valid) (hs : t.Shows c) (hline : c.line.length ≤ t.columns) {i : Nat}
    (hne : i ≠ '\n'.toNat) (hi : i < 2 ^ 21) (hhas : t.font.Has i) :
    ∃ t', t.writeChar i = .ok t' ∧ SameShape t t' ∧ t'.Shows (c.put t.columns i) := by
  obtain ⟨t₁, c₁, hwrap, hsh₁, hs₁, hroom, hput⟩ := h.wrap hs hline
  rw [← hsh₁.columns] at hroom
  rw [← hsh₁.font] at hhas
  obtain ⟨t₂, hdraw, hsh₂, hs₂⟩ := (hsh₁.valid h).drawGlyph hs₁ hroom hi hhas
  rw [hsh₁.columns, hput] at hs₂
  refine ⟨t₂, ?_, hsh₁.trans hsh₂, hs₂⟩
  unfold Term1.writeChar
  rw [if_neg hne, hwrap]
  exact hdraw

/-! ## Strings -/

/-- The characters of the text are newlines or have a glyph. -/
def Printable (f : PsfFont) (s : List Char) : Prop :=
  ∀ ch ∈ s, ch = '\n' ∨ ch.toNat < f.header.glyphCount.toNat

/-- A newline survives the replacement of characters without a glyph. -/
def KeepsNewlines (f : PsfFont) (s : List Char) : Prop :=
  '\n'.toNat ≤ f.header.glyphCount.toNat ∨ '\n' ∉ s

theorem toNat_lt (ch : Char) : ch.toNat < 2 ^ 21 := by
  have hvalid : ch.toNat < 0xD800 ∨ 0xDFFF < ch.toNat ∧ ch.toNat < 0x110000 := ch.valid
  omega

/-- One character of `write_str`. -/
theorem Valid.writeScalar (h : t.Valid) (hs : t.Shows c) (hline : c.line.length ≤ t.columns)
    {ch : Char}
    (hch : ch = '\n' ∨ ch.toNat < t.font.header.glyphCount.toNat)
    (hnl : ch = '\n' → '\n'.toNat ≤ t.font.header.glyphCount.toNat) :
    ∃ t', t.writeScalar ch = .ok t' ∧ SameShape t t' ∧ t'.Shows (c.type t.columns ch) := by
  dsimp only [Term1.writeScalar]
  by_cases heq : ch = '\n'
  · subst heq
    obtain ⟨t', hrun, hsh, hs'⟩ := h.newLine hs
    refine ⟨t', ?_, hsh, ?_⟩
    · rw [if_neg (Nat.not_lt.mpr (hnl rfl))]
      exact hrun
    · rw [Console.type, if_pos rfl]
      exact hs'
  · have hlt := hch.resolve_left heq
    have hne : ch.toNat ≠ '\n'.toNat := fun hc => heq (Char.toNat_inj.mp hc)
    rw [if_neg (by omega), Console.type, if_neg heq]
    exact h.writeChar hs hline hne (toNat_lt ch) (h.font.has hlt)

/-- The loop of `write_str` types one character after the other. -/
theorem Valid.writeChars : ∀ (s : List Char) {t : Term1} {c : Console Nat}, t.Valid → t.Shows c →
    c.line.length ≤ t.columns → Printable t.font s → KeepsNewlines t.font s →
    ∃ t', Term1.writeChars s t = .ok t' ∧ SameShape t t' ∧
      t'.Shows (s.foldl (Console.type t.columns) c) := by
  intro s
  induction s with
  | nil =>
    intro t c h hs _ _ _
    exact ⟨t, rfl, SameShape.refl t, hs⟩
  | cons ch s ih =>
    intro t c h hs hline hprint hkeep
    have hnl : ch = '\n' → '\n'.toNat ≤ t.font.header.glyphCount.toNat := by
      intro heq
      refine hkeep.resolve_right fun hc => hc ?_
      rw [heq]
      exact List.mem_cons_self ..
    obtain ⟨t₁, hrun, hsh, hs₁⟩ := h.writeScalar hs hline (hprint ch (List.mem_cons_self ..)) hnl
    have hline₁ := c.length_line_type h.columns_pos ch
    rw [← hsh.columns] at hline₁
    have hprint₁ : Printable t₁.font s := by
      rw [hsh.font]
      exact fun ch' hch' => hprint ch' (List.mem_cons_of_mem _ hch')
    have hkeep₁ : KeepsNewlines t₁.font s := by
      rw [KeepsNewlines, hsh.font]
      exact hkeep.imp_right fun hc hmem => hc (List.mem_cons_of_mem _ hmem)
    rw [← hsh.columns] at hs₁
    obtain ⟨t', hrest, hsh', hs'⟩ := ih (hsh.valid h) hs₁ hline₁ hprint₁ hkeep₁
    refine ⟨t', ?_, hsh.trans hsh', ?_⟩
    · dsimp only [Term1.writeChars]
      rw [hrun, ok_bind]
      exact hrest
    · rw [hsh.columns] at hs'
      exact hs'

/-- A terminal before anything is written: a black screen and column 0. -/
structure Fresh (t : Term1) : Prop extends Valid t where
  col : t.charCol = 0
  black : ∀ {x y}, x < t.fb.width → y < t.fb.height →
    t.fb.pixel x y = colorToPixel Color.BLACK t.fb.format

/-- After `write_str` the screen shows the text. -/
def Refines (t : Term1) (s : String) : Prop :=
  ∃ t', t.writeStr s = .ok t' ∧ SameShape t t' ∧
    t'.Shows (Console.text (t.fb.width / t.font.width) s)

theorem Fresh.shows (h : t.Fresh) : t.Shows Console.empty := by
  refine ⟨fun hx hy => ?_, h.col⟩
  rw [h.black hx hy, picture, Console.lit_empty]
  rfl

/-- A newline that does not survive is drawn. -/
theorem newline_lost (hlt : t.font.header.glyphCount.toNat < '\n'.toNat) :
    ¬ t.Refines "\n" := by
  intro hrefines
  obtain ⟨t', hrun, _, hs⟩ := hrefines
  have hcol : t'.charCol = 0 := hs.col
  obtain ⟨t₁, hwrite, hret⟩ := bind_ok (show (do
    let t ← t.writeScalar '\n'
    Term1.writeChars [] t) = .ok t' from hrun)
  cases hret
  dsimp only [Term1.writeScalar] at hwrite
  rw [if_pos hlt] at hwrite
  obtain ⟨t₂, _, hdraw⟩ := bind_ok (show (do let t ← t.wrap; t.drawGlyph 0) = .ok t' from hwrite)
  obtain ⟨glyph, _, hdraw⟩ := bind_ok hdraw
  cases glyph with
  | none => cases hdraw
  | some glyph =>
    obtain ⟨n, _, hdraw⟩ := bind_ok hdraw
    obtain ⟨x, _, hdraw⟩ := bind_ok hdraw
    obtain ⟨y, _, hdraw⟩ := bind_ok hdraw
    obtain ⟨fb, _, hdraw⟩ := bind_ok hdraw
    obtain ⟨col, hadd, hdraw⟩ := bind_ok hdraw
    cases hdraw
    unfold usizeAdd at hadd
    split at hadd
    · cases hadd
      cases hcol
    · cases hadd

/-- `write_str` shows every printable text exactly with fonts of at least 10 glyphs; with
fewer glyphs it shows those without a newline. -/
theorem write_str_refines (h : t.Fresh) :
    (∀ s, Printable t.font s.toList → KeepsNewlines t.font s.toList → t.Refines s) ∧
    ((∀ s, Printable t.font s.toList → t.Refines s) ↔
      '\n'.toNat ≤ t.font.header.glyphCount.toNat) := by
  have hkeeps : ∀ s, Printable t.font s.toList → KeepsNewlines t.font s.toList → t.Refines s := by
    intro s hprint hkeep
    exact h.toValid.writeChars s.toList h.shows (Nat.zero_le _) hprint hkeep
  refine ⟨hkeeps, fun hall => ?_, fun hle s hprint => hkeeps s hprint (Or.inl hle)⟩
  by_contra hlt
  refine newline_lost (Nat.not_le.mp hlt) (hall "\n" ?_)
  intro ch hch
  exact Or.inl (List.mem_singleton.mp hch)

/-! ### A font with one glyph -/

/-- A black screen of 2 by 2 pixels, and a font of `n` glyphs that are one white pixel
each. -/
def sample (n : BitVec 32) : Term1 where
  fb := ⟨List.replicate 16 0, 2, 2, 8, .rgba⟩
  font := ⟨⟨PsfFont.PSF_FONT_MAGIC, 0, 32, 0, n, 1, 1, 1⟩,
    List.replicate 32 0 ++ List.replicate n.toNat 0x80⟩
  charCol := 0

theorem sample_fresh (n : BitVec 32) : (sample n).Fresh := by
  have hn := n.isLt
  have hlen : (sample n).font.data.length = 32 + n.toNat := by
    dsimp only [sample]
    rw [List.length_append, List.length_replicate, List.length_replicate]
  have hblack : ∀ x < 2, ∀ y < 2, (sample n).fb.pixel x y = colorToPixel Color.BLACK .rgba := by
    show ∀ x < 2, ∀ y < 2, pixelAt (List.replicate 16 0) (x * 4 + y * 8) = _
    decide
  have hfb : (sample n).fb.Valid := by
    show FrameBuffer.Valid ⟨List.replicate 16 0, 2, 2, 8, .rgba⟩
    exact ⟨by decide, by decide, by decide, by decide, by decide⟩
  have hfont : (sample n).font.Valid := by
    refine ⟨show 0 < 1 by decide, show 0 < 1 by decide, show 1 = 1 * ((1 + 7) / 8) by decide, ?_,
      ?_⟩
    · rw [hlen]
      show 32 + n.toNat * 1 ≤ _
      omega
    · omega
  exact ⟨⟨hfb, hfont, show 1 ≤ 2 by decide, show 1 ≤ 2 by decide⟩, rfl,
    fun {x y} hx hy => hblack x hx y hy⟩

/-- With one glyph, a newline moves the column to 1. -/
theorem newline_drawn : (sample 1).Fresh ∧ Printable (sample 1).font "\n".toList ∧
    ¬ (sample 1).Refines "\n" := by
  refine ⟨sample_fresh 1, ?_, newline_lost (by decide)⟩
  intro ch hch
  exact Or.inl (List.mem_singleton.mp hch)

theorem write_str_refines_sample :
    (sample 16).Fresh ∧ (sample 16).Refines "\x01\x02\x03\n\x04" := by
  have hprint : Printable (sample 16).font "\x01\x02\x03\n\x04".toList := by
    show ∀ ch ∈ ['\x01', '\x02', '\x03', '\n', '\x04'], ch = '\n' ∨ ch.toNat < 16
    simp
  exact ⟨sample_fresh 16, (write_str_refines (sample_fresh 16)).1 _ hprint (Or.inl (by decide))⟩

end Term1

end Tauos.Out
