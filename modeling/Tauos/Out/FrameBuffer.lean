import Tauos.Rust.Bytes
import Tauos.Rust.Loop

/-!
# The frame buffer

`out/framebuffer.rs`. A frame buffer is a byte slice of `height` rows, `stride`
bytes apart, whose first `width` pixels of four bytes are visible. The drawing
functions compute byte offsets and write through unchecked pointers, so a pixel
outside the slice faults.

> `Painted a P c b`: `b` is `a` with the visible pixels of the region `P`
> replaced by the picture `c`.

All three drawing functions are a loop over rows around a loop over columns that
writes one pixel in each pass. `paint` is the rule for that shape: a pass only
has to be right in the state where everything before it, row by row, is painted.
This is what an overlapping copy needs, where a pass reads what earlier passes
may have overwritten.
-/

namespace Tauos.Out

open Tauos.Rust

/-! ## Pixels -/

/-- `[u8; 4]`. -/
structure Pixel where
  b0 : BitVec 8
  b1 : BitVec 8
  b2 : BitVec 8
  b3 : BitVec 8
  deriving DecidableEq, Repr

/-- `PixelFormat`: the order of the channels. -/
inductive PixelFormat
  | rgba
  | bgra
  | argb
  | abgr
  deriving DecidableEq, Repr

/-- `Color`. -/
structure Color where
  red : BitVec 8
  green : BitVec 8
  blue : BitVec 8
  alpha : BitVec 8
  deriving DecidableEq, Repr

def Color.WHITE : Color := ⟨255, 255, 255, 255⟩

def Color.BLACK : Color := ⟨0, 0, 0, 0⟩

/-- The bytes of a colour in a format. -/
def colorToPixel (color : Color) : PixelFormat → Pixel
  | .rgba => ⟨color.red, color.green, color.blue, color.alpha⟩
  | .bgra => ⟨color.blue, color.green, color.red, color.alpha⟩
  | .argb => ⟨color.alpha, color.red, color.green, color.blue⟩
  | .abgr => ⟨color.alpha, color.blue, color.green, color.red⟩

/-- The four bytes at `i`. -/
def pixelAt (buffer : List (BitVec 8)) (i : Nat) : Pixel :=
  ⟨buffer.getD i 0, buffer.getD (i + 1) 0, buffer.getD (i + 2) 0, buffer.getD (i + 3) 0⟩

/-- The buffer with the four bytes at `i` replaced. -/
def setPixelAt (buffer : List (BitVec 8)) (i : Nat) (p : Pixel) : List (BitVec 8) :=
  (((buffer.set i p.b0).set (i + 1) p.b1).set (i + 2) p.b2).set (i + 3) p.b3

@[simp] theorem length_setPixelAt (buffer : List (BitVec 8)) (i : Nat) (p : Pixel) :
    (setPixelAt buffer i p).length = buffer.length := by
  simp [setPixelAt]

theorem getD_setPixelAt {buffer : List (BitVec 8)} {i : Nat} (h : i + 4 ≤ buffer.length) (p : Pixel)
    (j : Nat) : (setPixelAt buffer i p).getD j 0 = if i + 3 = j then p.b3
      else if i + 2 = j then p.b2
      else if i + 1 = j then p.b1 else if i = j then p.b0 else buffer.getD j 0 := by
  unfold setPixelAt
  rw [getD_set (by simp; omega), getD_set (by simp; omega), getD_set (by simp; omega),
    getD_set (by omega)]

/-- What is written is read. -/
theorem pixelAt_setPixelAt {buffer : List (BitVec 8)} {i : Nat} (h : i + 4 ≤ buffer.length)
    (p : Pixel) : pixelAt (setPixelAt buffer i p) i = p := by
  simp only [pixelAt, getD_setPixelAt h]
  simp

/-- A pixel elsewhere is as it was. -/
theorem pixelAt_setPixelAt_of_apart {buffer : List (BitVec 8)} {i j : Nat}
    (h : i + 4 ≤ buffer.length) (hij : i + 4 ≤ j ∨ j + 4 ≤ i) (p : Pixel) :
    pixelAt (setPixelAt buffer i p) j = pixelAt buffer j := by
  have hout : ∀ k < 4, (setPixelAt buffer i p).getD (j + k) 0 = buffer.getD (j + k) 0 := by
    intro k hk
    rw [getD_setPixelAt h, if_neg (by omega), if_neg (by omega), if_neg (by omega),
      if_neg (by omega)]
  have hout0 := hout 0 (by omega)
  rw [Nat.add_zero] at hout0
  simp only [pixelAt, hout0, hout 1 (by omega), hout 2 (by omega), hout 3 (by omega)]

/-! ## The buffer and its functions -/

/-- `FrameBuffer`, with the bytes of its buffer. -/
structure FrameBuffer where
  buffer : List (BitVec 8)
  width : Nat
  height : Nat
  stride : Nat
  format : PixelFormat
  deriving DecidableEq, Repr

namespace FrameBuffer

/-- `x * 4 + y * self.stride`. -/
def offset (fb : FrameBuffer) (x y : Nat) : Except Fault Nat := do
  usizeAdd (← usizeMul x 4) (← usizeMul y fb.stride)

/-- `self.buffer.get_unchecked_mut(i).cast::<[u8; 4]>().read()`. -/
def read (fb : FrameBuffer) (i : Nat) : Except Fault Pixel :=
  if i + 4 ≤ fb.buffer.length then .ok (pixelAt fb.buffer i) else .error .undefined

/-- `self.buffer.get_unchecked_mut(i).cast::<[u8; 4]>().write(p)`. -/
def write (fb : FrameBuffer) (i : Nat) (p : Pixel) : Except Fault FrameBuffer :=
  if i + 4 ≤ fb.buffer.length then .ok { fb with buffer := setPixelAt fb.buffer i p }
  else .error .undefined

/-- `internal_blt`. -/
def internalBlt (fb : FrameBuffer) (srcX srcY width height dstX dstY : Nat) :
    Except Fault FrameBuffer :=
  forRange 0 height (fun row fb => forRange 0 width (fun col fb => do
    let src ← fb.offset (← usizeAdd srcX col) (← usizeAdd srcY row)
    let dst ← fb.offset (← usizeAdd dstX col) (← usizeAdd dstY row)
    fb.write dst (← fb.read src)) fb) fb

/-- The assertions at the head of `write_bitmap`. -/
def checkBitmap (fb : FrameBuffer) (src : List (BitVec 8))
    (offset width height stride dstX dstY : Nat) :
    Except Fault Unit := do
  let bits ← usizeMul src.length 8
  let span ← usizeSub (← usizeAdd offset (← usizeMul stride height)) (← usizeSub stride width)
  ensure (decide (span ≤ bits))
  ensure (decide ((← usizeAdd dstX (width / 8)) ≤ fb.width))
  ensure (decide ((← usizeAdd dstY height) ≤ fb.height))

/-- `write_bitmap`; `offset`, `width` and `stride` are in bits of `src`. -/
def writeBitmap (fb : FrameBuffer) (src : List (BitVec 8))
    (offset width height stride dstX dstY : Nat)
    (dstZeroColor dstOneColor : Color) : Except Fault FrameBuffer := do
  fb.checkBitmap src offset width height stride dstX dstY
  let zeroPixel := colorToPixel dstZeroColor fb.format
  let onePixel := colorToPixel dstOneColor fb.format
  forRange 0 height (fun row fb => forRange 0 width (fun col fb => do
    let bitOffset ← usizeAdd col offset
    let pixel ← fb.offset (← usizeAdd dstX col) (← usizeAdd dstY row)
    let byte ← getByte src ((← usizeAdd bitOffset (← usizeMul row stride)) / 8)
    fb.write pixel (if byte &&& 1#8 <<< (7 - bitOffset % 8) ≠ 0 then onePixel else zeroPixel)) fb)
    fb

/-- `fill_rect`. -/
def fillRect (fb : FrameBuffer) (x y width height : Nat) (color : Color) :
    Except Fault FrameBuffer := do
  ensure (decide ((← usizeAdd x width) ≤ fb.width))
  ensure (decide ((← usizeAdd y height) ≤ fb.height))
  let pixel := colorToPixel color fb.format
  forRange y (y + height) (fun row fb => forRange 0 width (fun col fb => do
    fb.write (← fb.offset (← usizeAdd x col) row) pixel) fb) fb

/-- The visible pixel in column `x` of row `y`. -/
def pixel (fb : FrameBuffer) (x y : Nat) : Pixel := pixelAt fb.buffer (x * 4 + y * fb.stride)

/-- The rows do not overlap, and the slice is as long as its dimensions say. -/
structure Valid (fb : FrameBuffer) : Prop where
  stride : 4 * fb.width ≤ fb.stride
  buffer : fb.buffer.length = fb.stride * fb.height
  /-- What Rust promises of a slice. -/
  len : fb.buffer.length < 2 ^ 63
  /-- The dimensions are `usize`. -/
  width : fb.width < 2 ^ 64
  height : fb.height < 2 ^ 64

/-- Same dimensions and format. -/
structure SameShape (a b : FrameBuffer) : Prop where
  width : b.width = a.width
  height : b.height = a.height
  stride : b.stride = a.stride
  format : b.format = a.format
  buffer : b.buffer.length = a.buffer.length

variable {a b c : FrameBuffer}

theorem SameShape.refl (a : FrameBuffer) : SameShape a a := ⟨rfl, rfl, rfl, rfl, rfl⟩

theorem SameShape.trans (h : SameShape a b) (h' : SameShape b c) : SameShape a c :=
  ⟨h'.width.trans h.width, h'.height.trans h.height, h'.stride.trans h.stride,
    h'.format.trans h.format, h'.buffer.trans h.buffer⟩

theorem SameShape.valid (h : SameShape a b) (ha : a.Valid) : b.Valid := by
  refine ⟨?_, ?_, ?_, ?_, ?_⟩
  · rw [h.width, h.stride]
    exact ha.stride
  · rw [h.buffer, h.stride, h.height]
    exact ha.buffer
  · rw [h.buffer]
    exact ha.len
  · rw [h.width]
    exact ha.width
  · rw [h.height]
    exact ha.height

/-- A visible pixel lies in the slice. -/
theorem Valid.inside (h : a.Valid) {x y : Nat} (hx : x < a.width) (hy : y < a.height) :
    x * 4 + y * a.stride + 4 ≤ a.buffer.length := by
  have hs := h.stride
  have hrow : (y + 1) * a.stride ≤ a.height * a.stride := Nat.mul_le_mul_right _ hy
  rw [Nat.add_mul, Nat.one_mul] at hrow
  rw [h.buffer, Nat.mul_comm a.stride]
  omega

/-- No arithmetic of the offset of a pixel overflows. -/
theorem Valid.offset (h : a.Valid) {x y : Nat} (hx : x < a.width) (hy : y < a.height) :
    a.offset x y = .ok (x * 4 + y * a.stride) := by
  have hin := h.inside hx hy
  have hlen := h.len
  unfold FrameBuffer.offset
  rw [usizeMul_of_lt (by omega), ok_bind, usizeMul_of_lt (by omega), ok_bind,
    usizeAdd_of_lt (by omega)]

/-- A pixel of the screen can be read. -/
theorem Valid.read (h : a.Valid) {x y : Nat} (hx : x < a.width) (hy : y < a.height) :
    a.read (x * 4 + y * a.stride) = .ok (a.pixel x y) := if_pos (h.inside hx hy)

/-- `a` with one visible pixel replaced. -/
def put (fb : FrameBuffer) (x y : Nat) (p : Pixel) : FrameBuffer :=
  { fb with buffer := setPixelAt fb.buffer (x * 4 + y * fb.stride) p }

/-- A pixel of the screen can be written. -/
theorem Valid.write (h : a.Valid) {x y : Nat} (hx : x < a.width) (hy : y < a.height) (p : Pixel) :
    a.write (x * 4 + y * a.stride) p = .ok (a.put x y p) := if_pos (h.inside hx hy)

theorem put_sameShape (fb : FrameBuffer) (x y : Nat) (p : Pixel) : SameShape fb (fb.put x y p) :=
  ⟨rfl, rfl, rfl, rfl, length_setPixelAt ..⟩

theorem Valid.pixel_put (h : a.Valid) {x y : Nat} (hx : x < a.width) (hy : y < a.height)
    (p : Pixel) :
    (a.put x y p).pixel x y = p := pixelAt_setPixelAt (h.inside hx hy) p

theorem Valid.pixel_put_of_ne (h : a.Valid) {x y x' y' : Nat} (hx : x < a.width) (hy : y < a.height)
    (hx' : x' < a.width) (hne : x' ≠ x ∨ y' ≠ y) (p : Pixel) :
    (a.put x y p).pixel x' y' = a.pixel x' y' := by
  have hs := h.stride
  refine pixelAt_setPixelAt_of_apart (h.inside hx hy) ?_ p
  show _ + 4 ≤ x' * 4 + y' * a.stride ∨ x' * 4 + y' * a.stride + 4 ≤ _
  -- rows are `stride` apart, and a row of visible pixels is no longer than that
  have hrow : ∀ {i j : Nat}, i < j → i * a.stride + a.stride ≤ j * a.stride := by
    intro i j hij
    have := Nat.mul_le_mul_right a.stride (Nat.succ_le_of_lt hij)
    rwa [Nat.succ_mul] at this
  rcases Nat.lt_trichotomy y y' with hlt | rfl | hgt
  · have := hrow hlt
    omega
  · omega
  · have := hrow hgt
    omega

/-! ## Painting -/

/-- `b` is `a` with the visible pixels of `P` replaced by the picture `c`. -/
structure Painted (a : FrameBuffer) (P : Nat → Nat → Prop) (c : Nat → Nat → Pixel)
(b : FrameBuffer) :
    Prop where
  shape : SameShape a b
  inside : ∀ {x y}, x < a.width → y < a.height → P x y → b.pixel x y = c x y
  outside : ∀ {x y}, x < a.width → y < a.height → ¬ P x y → b.pixel x y = a.pixel x y

variable {P Q : Nat → Nat → Prop} {p : Nat → Nat → Pixel}

theorem Painted.refl (a : FrameBuffer) (hP : ∀ x y, ¬ P x y) : Painted a P p a :=
  ⟨SameShape.refl a, fun _ _ h => absurd h (hP _ _), fun _ _ _ => rfl⟩

theorem Painted.congr (h : Painted a P p b) (hPQ : ∀ x y, P x y ↔ Q x y) : Painted a Q p b :=
  ⟨h.shape, fun hx hy hQ => h.inside hx hy ((hPQ _ _).mpr hQ),
    fun hx hy hQ => h.outside hx hy (fun hP => hQ ((hPQ _ _).mp hP))⟩

/-- One more pixel. -/
theorem Painted.put (h : Painted a P p b) (ha : a.Valid) {x y : Nat} (hx : x < a.width)
    (hy : y < a.height) :
    Painted a (fun x' y' => (x' = x ∧ y' = y) ∨ P x' y') p (b.put x y (p x y)) := by
  have hb := h.shape.valid ha
  have hx' : x < b.width := by rw [h.shape.width]; exact hx
  have hy' : y < b.height := by rw [h.shape.height]; exact hy
  refine ⟨h.shape.trans (put_sameShape ..), fun {x' y'} hxw hyh hP => ?_,
    fun {x' y'} hxw hyh hP => ?_⟩
  · by_cases heq : x' = x ∧ y' = y
    · obtain ⟨rfl, rfl⟩ := heq
      exact hb.pixel_put hx' hy' _
    · rw [hb.pixel_put_of_ne hx' hy' (by rw [h.shape.width]; exact hxw) (by omega)]
      exact h.inside hxw hyh (hP.resolve_left heq)
  · rw [hb.pixel_put_of_ne hx' hy' (by rw [h.shape.width]; exact hxw) (by omega)]
    exact h.outside hxw hyh (fun hc => hP (Or.inr hc))

/-- A rectangle, and in it the pixels before column `col` of row `row`, row by row. -/
def Rect (x w y h : Nat) (x' y' : Nat) : Prop := x ≤ x' ∧ x' < x + w ∧ y ≤ y' ∧ y' < y + h

/-- The pixels that a loop over rows and columns has passed when it is at `row` and `col`. -/
def Before (x w y row col : Nat) (x' y' : Nat) : Prop :=
  x ≤ x' ∧ x' < x + w ∧ y ≤ y' ∧ (y' < row ∨ (y' = row ∧ x' < x + col))

/-- Two nested loops that write the pixel in column `x + col` of row `y + row` in the
pass for `row` and `col`. -/
theorem paint {f : Nat → Nat → FrameBuffer → Except Fault FrameBuffer} (ha : a.Valid)
    {x w y lo hi : Nat} (hle : lo ≤ hi) (hw : x + w ≤ a.width) (hh : y + hi ≤ a.height)
    (hpass : ∀ {row col b}, lo ≤ row → row < hi → col < w →
      Painted a (Before x w (y + lo) (y + row) col) p b →
      f row col b = .ok (b.put (x + col) (y + row) (p (x + col) (y + row)))) :
    ∃ b, forRange lo hi (fun row fb => forRange 0 w (f row) fb) a = .ok b ∧
      Painted a (Rect x w (y + lo) (hi - lo)) p b := by
  have hrows : ∀ {row b}, lo ≤ row → row < hi →
      Painted a (Before x w (y + lo) (y + row) 0) p b →
      ∃ b', forRange 0 w (f row) b = .ok b' ∧
        Painted a (Before x w (y + lo) (y + (row + 1)) 0) p b' := by
    intro row b hlo hhi hb
    have hcols : ∀ {col b}, 0 ≤ col → col < w → Painted a (Before x w (y + lo) (y + row) col) p b →
        ∃ b', f row col b = .ok b' ∧ Painted a (Before x w (y + lo) (y + row) (col + 1)) p b' := by
      intro col b _ hcol hb
      refine ⟨_, hpass hlo hhi hcol hb, ?_⟩
      refine (hb.put ha (x := x + col) (y := y + row) (by omega) (by omega)).congr fun x' y' => ?_
      unfold Before
      omega
    obtain ⟨b', hrun, hb'⟩ := forRange_inv (I := fun col b =>
      Painted a (Before x w (y + lo) (y + row) col) p b) (Nat.zero_le w) hb hcols
    refine ⟨b', hrun, hb'.congr fun x' y' => ?_⟩
    unfold Before
    omega
  have hstart : Painted a (Before x w (y + lo) (y + lo) 0) p a := by
    refine Painted.refl a fun x' y' hc => ?_
    unfold Before at hc
    omega
  obtain ⟨b, hrun, hb⟩ := forRange_inv (I := fun row b =>
    Painted a (Before x w (y + lo) (y + row) 0) p b) hle hstart hrows
  refine ⟨b, hrun, hb.congr fun x' y' => ?_⟩
  unfold Before Rect
  omega

/-! ## The drawing functions -/

theorem Valid.addX (h : a.Valid) {x col : Nat} (hx : x + col < a.width) :
    usizeAdd x col = .ok (x + col) := usizeAdd_of_lt (hx.trans h.width)

theorem Valid.addY (h : a.Valid) {y row : Nat} (hy : y + row < a.height) :
    usizeAdd y row = .ok (y + row) := usizeAdd_of_lt (hy.trans h.height)

theorem Painted.valid (h : Painted a P p b) (ha : a.Valid) : b.Valid := h.shape.valid ha

/-- Scrolling up by `k` rows: a row is read before it is overwritten. -/
theorem Valid.scroll (ha : a.Valid) {k : Nat} (hkh : k ≤ a.height) :
    ∃ b, a.internalBlt 0 k a.width (a.height - k) 0 0 = .ok b ∧
      Painted a (fun _ y => y < a.height - k) (fun x y => a.pixel x (y + k)) b := by
  have hpass : ∀ {row col b}, 0 ≤ row → row < a.height - k → col < a.width →
      Painted a (Before 0 a.width (0 + 0) (0 + row) col) (fun x y => a.pixel x (y + k)) b →
      (do
        let src ← b.offset (← usizeAdd 0 col) (← usizeAdd k row)
        let dst ← b.offset (← usizeAdd 0 col) (← usizeAdd 0 row)
        b.write dst (← b.read src)) =
          .ok (b.put (0 + col) (0 + row) (a.pixel (0 + col) (0 + row + k))) := by
    intro row col b _ hrow hcol hb
    have hbv := hb.valid ha
    have hx : 0 + col < b.width := by rw [hb.shape.width]; omega
    have hy : 0 + row < b.height := by rw [hb.shape.height]; omega
    have hy' : k + row < b.height := by rw [hb.shape.height]; omega
    have hsrc : b.pixel (0 + col) (k + row) = a.pixel (0 + col) (0 + row + k) := by
      rw [hb.outside (by omega) (by omega) (by unfold Before; omega)]
      congr 1
      omega
    rw [hbv.addX hx, ok_bind, hbv.addY hy', ok_bind, hbv.offset hx hy', ok_bind, ok_bind,
      hbv.addY hy,
      ok_bind, hbv.offset hx hy, ok_bind, hbv.read hx hy', ok_bind, hsrc, hbv.write hx hy]
  obtain ⟨b, hrun, hb⟩ := paint ha (Nat.zero_le (a.height - k)) (by omega) (by omega) hpass
  refine ⟨b, hrun, ⟨hb.shape, fun hx hy hP => hb.inside hx hy ?_,
    fun hx hy hP => hb.outside hx hy ?_⟩⟩
  · unfold Rect
    omega
  · unfold Rect
    omega

/-- `fill_rect` of a visible rectangle. -/
theorem Valid.fillRect (ha : a.Valid) {x y w h : Nat} (hw : x + w ≤ a.width) (hh : y + h ≤ a.height)
    (color : Color) : ∃ b, a.fillRect x y w h color = .ok b ∧
      Painted a (Rect x w y h) (fun _ _ => colorToPixel color a.format) b := by
  have hwidth := ha.width
  have hheight := ha.height
  have hpass : ∀ {row col b}, y ≤ row → row < y + h → col < w →
      Painted a (Before x w (0 + y) (0 + row) col) (fun _ _ => colorToPixel color a.format) b →
      (do b.write (← b.offset (← usizeAdd x col) row) (colorToPixel color a.format))
        = .ok (b.put (x + col) (0 + row) (colorToPixel color a.format)) := by
    intro row col b _ hrow hcol hb
    have hbv := hb.valid ha
    have hx : x + col < b.width := by rw [hb.shape.width]; omega
    have hy : row < b.height := by rw [hb.shape.height]; omega
    rw [hbv.addX hx, ok_bind, hbv.offset hx hy, ok_bind, hbv.write hx hy, Nat.zero_add]
  obtain ⟨b, hrun, hb⟩ := paint ha (Nat.le_add_right y h) hw (by omega) hpass
  refine ⟨b, ?_, hb.congr fun x' y' => ?_⟩
  · unfold FrameBuffer.fillRect
    rw [usizeAdd_of_lt (by omega), ok_bind, usizeAdd_of_lt (by omega)]
    simp only [ensure, hw, hh, decide_true, if_true, ok_bind]
    exact hrun
  · unfold Rect
    omega

/-- The bit `write_bitmap` looks at for a pixel of its bitmap. -/
def bitmapBit (src : List (BitVec 8)) (offset stride col row : Nat) : Bool :=
  (src.getD ((col + offset + row * stride) / 8) 0).getLsbD (7 - (col + offset) % 8)

/-- The assertions of `write_bitmap` hold and do not overflow. -/
structure BitmapFits (fb : FrameBuffer) (src : List (BitVec 8))
    (offset width height stride dstX dstY : Nat) : Prop where
  bits : src.length * 8 < 2 ^ 64
  total : offset + stride * height < 2 ^ 64
  row : width ≤ stride
  span : stride - width ≤ offset + stride * height
  room : offset + stride * height - (stride - width) ≤ src.length * 8
  columns : dstX + width / 8 ≤ fb.width
  rows : dstY + height ≤ fb.height

variable {src : List (BitVec 8)} {offset width height stride dstX dstY : Nat}

/-- The assertions pass for a bitmap that fits. -/
theorem BitmapFits.check (h : BitmapFits a src offset width height stride dstX dstY)
    (ha : a.Valid) :
    a.checkBitmap src offset width height stride dstX dstY = .ok () := by
  have hw := ha.width
  have hh := ha.height
  obtain ⟨h1, h2, h3, h4, h5, h6, h7⟩ := h
  unfold checkBitmap
  rw [usizeMul_of_lt h1, ok_bind, usizeMul_of_lt (by omega), ok_bind, usizeAdd_of_lt h2, ok_bind,
    usizeSub_of_le h3, ok_bind, usizeSub_of_le h4, ok_bind, usizeAdd_of_lt (by omega),
    usizeAdd_of_lt (by omega)]
  simp only [ensure, h5, h6, h7, decide_true, if_true, ok_bind]

/-- The bits of a bitmap lie in its source. -/
theorem BitmapFits.bit_lt (h : BitmapFits a src offset width height stride dstX dstY)
    {row col : Nat}
    (hrow : row < height) (hcol : col < width) : col + offset + row * stride < src.length * 8 := by
  have h3 := h.row
  have h5 := h.room
  have hmul : (row + 1) * stride ≤ height * stride := Nat.mul_le_mul_right _ hrow
  rw [Nat.add_mul, Nat.one_mul, Nat.mul_comm height] at hmul
  omega

/-- The branch of the source is on the bit of the bitmap. -/
theorem masked_color (v : BitVec 8) {k : Nat} (hk : k < 8) (c₀ c₁ : Color) (format : PixelFormat) :
    (if v &&& 1#8 <<< k ≠ 0 then colorToPixel c₁ format else colorToPixel c₀ format)
      = colorToPixel (if v.getLsbD k then c₁ else c₀) format := by
  rw [← and_one_shiftLeft_ne_zero v hk]
  by_cases hz : v &&& 1#8 <<< k ≠ 0
  · rw [if_pos hz, if_pos (bne_iff_ne.mpr hz)]
  · rw [if_neg hz, if_neg (fun hc => hz (bne_iff_ne.mp hc))]

/-- `write_bitmap` paints the bits it looks at. -/
theorem Valid.writeBitmap (ha : a.Valid) (h : BitmapFits a src offset width height stride dstX dstY)
    (hw : dstX + width ≤ a.width) (c₀ c₁ : Color) :
    ∃ b, a.writeBitmap src offset width height stride dstX dstY c₀ c₁ = .ok b ∧
      Painted a (Rect dstX width dstY height) (fun x y => colorToPixel
        (if bitmapBit src offset stride (x - dstX) (y - dstY) then c₁ else c₀) a.format) b := by
  have hbits := h.bits
  have hpass : ∀ {row col b}, 0 ≤ row → row < height → col < width →
      Painted a (Before dstX width (dstY + 0) (dstY + row) col) (fun x y => colorToPixel
        (if bitmapBit src offset stride (x - dstX) (y - dstY) then c₁ else c₀) a.format) b →
      (do
        let bitOffset ← usizeAdd col offset
        let pixel ← b.offset (← usizeAdd dstX col) (← usizeAdd dstY row)
        let byte ← getByte src ((← usizeAdd bitOffset (← usizeMul row stride)) / 8)
        b.write pixel (if byte &&& 1#8 <<< (7 - bitOffset % 8) ≠ 0 then colorToPixel c₁ a.format
          else colorToPixel c₀ a.format)) = .ok (b.put (dstX + col) (dstY + row) (colorToPixel
            (if bitmapBit src offset stride (dstX + col - dstX) (dstY + row - dstY) then c₁ else c₀)
            a.format)) := by
    intro row col b _ hrow hcol hb
    have hbv := hb.valid ha
    have hdst := h.rows
    have hx : dstX + col < b.width := by rw [hb.shape.width]; omega
    have hy : dstY + row < b.height := by rw [hb.shape.height]; omega
    have hlt := h.bit_lt hrow hcol
    rw [usizeAdd_of_lt (by omega), ok_bind, hbv.addX hx, ok_bind, hbv.addY hy, ok_bind,
      hbv.offset hx hy, ok_bind, usizeMul_of_lt (by omega), ok_bind, usizeAdd_of_lt (by omega),
        ok_bind,
      getByte_of_lt (by omega), ok_bind, masked_color _ (show 7 - (col + offset) % 8 < 8 by omega),
      hbv.write hx hy, Nat.add_sub_cancel_left, Nat.add_sub_cancel_left]
    rfl
  obtain ⟨b, hrun, hb⟩ := paint ha (Nat.zero_le height) hw h.rows hpass
  refine ⟨b, ?_, hb⟩
  unfold FrameBuffer.writeBitmap
  rw [h.check ha, ok_bind]
  exact hrun

end FrameBuffer

end Tauos.Out
