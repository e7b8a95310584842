import Tauos.Out.Bitmap
import Tauos.Out.Terminal

/-!
# Printing never panics, but for one character

`write_str` sends every character above `glyph_count` to glyph 0. The glyphs are
numbered from 0, so the character whose code is `glyph_count` itself has no glyph
either, and the `unwrap` in `write_char` panics.

> `printing_completes_iff`: the texts that `write_str` gets through, for every
> font file of exactly `glyph_count` glyphs and every column reached by earlier
> writes.

The other conditions there are about glyphs without pixels: without rows, the
gap at the end of a row makes an assertion of `write_bitmap` underflow, and
without columns a line never ends and `char_col` can overflow.
-/

namespace Tauos.Out.Term1

open Tauos.Rust Tauos.Utils

/-- A screen with room for a glyph, and a font file of exactly `glyph_count` glyphs. -/
structure Fitted (t : Term1) : Prop where
  fb : t.fb.Valid
  stride : t.fb.stride < 2 ^ 64
  glyphSize : t.font.header.glyphSize.toNat = t.font.height * t.font.rowBytes
  data : t.font.data.length =
    t.font.header.headerSize.toNat + t.font.header.glyphCount.toNat * t.font.header.glyphSize.toNat
  count : 0 < t.font.header.glyphCount.toNat
  width : t.font.width ≤ t.fb.width
  height : t.font.height ≤ t.fb.height

/-- The terminals that earlier writes lead to. -/
inductive Written : Term1 → Prop
  | start {t : Term1} : t.Fitted → t.charCol = 0 → Written t
  | write {t t' : Term1} {s : String} : Written t → t.writeStr s = .ok t' → Written t'

/-- A newline that `write_char` gets to see. -/
def Breaks (f : PsfFont) (ch : Char) : Prop :=
  ch = '\n' ∧ '\n'.toNat ≤ f.header.glyphCount.toNat

instance (f : PsfFont) (ch : Char) : Decidable (Breaks f ch) := inferInstanceAs (Decidable (_ ∧ _))

/-- `char_col` of a line that never wraps. -/
def advance (f : PsfFont) (col : Nat) (ch : Char) : Nat := if Breaks f ch then 0 else col + 1

/-- The character is a newline, or can be drawn: its code is not `glyph_count` if glyphs have
pixels, and if they have no rows they have no gap either. -/
def Writable (f : PsfFont) (ch : Char) : Prop :=
  Breaks f ch ∨
    (ch.toNat = f.header.glyphCount.toNat → f.width = 0 ∨ f.height = 0) ∧
    (f.height = 0 → 8 ∣ f.width)

/-- A character without a glyph becomes character 0. -/
def shown (f : PsfFont) (ch : Char) : Char :=
  if ch ≠ '\n' ∧ f.header.glyphCount.toNat ≤ ch.toNat then '\x00' else ch

/-- `write_str` returns, and characters without a glyph are drawn as glyph 0. -/
def Prints (t : Term1) (s : String) : Prop :=
  ∃ t', t.writeStr s = .ok t' ∧ writeChars (s.toList.map (shown t.font)) t = .ok t'

/-- A fitted terminal at a column on the screen. -/
structure Ready (t : Term1) : Prop extends Fitted t where
  col : t.charCol < 2 ^ 64
  line : t.charCol * t.font.width ≤ t.fb.width

variable {t t' : Term1} {ch : Char}

theorem SameShape.fitted (h : SameShape t t') (ht : t.Fitted) : t'.Fitted := by
  refine ⟨h.fb.valid ht.fb, ?_, ?_, ?_, ?_, ?_, ?_⟩
  · rw [h.fb.stride]
    exact ht.stride
  · rw [h.font]
    exact ht.glyphSize
  · rw [h.font]
    exact ht.data
  · rw [h.font]
    exact ht.count
  · rw [h.font, h.fb.width]
    exact ht.width
  · rw [h.font, h.fb.height]
    exact ht.height

/-! ## One character -/

theorem Fitted.newLine (h : t.Fitted) :
    ∃ t', t.newLine = .ok t' ∧ SameShape t t' ∧ t'.charCol = 0 := by
  obtain ⟨fb₁, fb₂, hrun, h₁, h₂⟩ := newLine_run h.fb h.height
  exact ⟨_, hrun, ⟨h₁.shape.trans h₂.shape, rfl⟩, rfl⟩

/-- `write_char` makes room for a glyph. -/
theorem Ready.wrap (h : t.Ready) (hcol : t.charCol + 1 < 2 ^ 64) : ∃ t', t.wrap = .ok t' ∧
    SameShape t t' ∧ t'.charCol + 1 < 2 ^ 64 ∧
    t'.charCol * t'.font.width + t'.font.width ≤ t'.fb.width ∧
    (t.font.width = 0 → t'.charCol = t.charCol) := by
  have hline := h.line
  have hwidth := h.width
  have hstride := h.stride
  have hfb := h.fb.stride
  have hsum : (t.charCol + 1) * t.font.width = t.charCol * t.font.width + t.font.width := by ring
  have hrun : t.wrap = if t.fb.width < (t.charCol + 1) * t.font.width then t.newLine
      else .ok t := by
    unfold Term1.wrap
    rw [usizeAdd_of_lt hcol, ok_bind, usizeMul_of_lt (by omega)]
    rfl
  rw [hrun]
  by_cases hfull : t.fb.width < (t.charCol + 1) * t.font.width
  · rw [if_pos hfull]
    obtain ⟨t', hnew, hsh, hzero⟩ := h.newLine
    refine ⟨t', hnew, hsh, by omega, ?_, fun hw => ?_⟩
    · rw [hzero, hsh.font, hsh.fb.width]
      omega
    · rw [hw, Nat.mul_zero] at hfull
      omega
  · rw [if_neg hfull]
    exact ⟨t, rfl, SameShape.refl t, hcol, by omega, fun _ => rfl⟩

theorem Fitted.glyphSize_eq_zero (h : t.Fitted) :
    t.font.header.glyphSize.toNat = 0 ↔ t.font.width = 0 ∨ t.font.height = 0 := by
  have hrow : t.font.rowBytes = 0 ↔ t.font.width = 0 := by
    unfold PsfFont.rowBytes
    omega
  rw [h.glyphSize, Nat.mul_eq_zero, hrow, or_comm]

/-- The file has the glyphs below `glyph_count`, and any number of empty ones. -/
theorem Fitted.has_iff (h : t.Fitted) (i : Nat) :
    t.font.Has i ↔ (t.font.width = 0 ∨ t.font.height = 0) ∨ i < t.font.header.glyphCount.toNat := by
  rw [← h.glyphSize_eq_zero, PsfFont.Has, h.data]
  have hsum : t.font.header.glyphSize.toNat * i + t.font.header.glyphSize.toNat
      = (i + 1) * t.font.header.glyphSize.toNat := by ring
  rw [Nat.add_assoc, hsum, Nat.add_le_add_iff_left]
  rcases Nat.eq_zero_or_pos t.font.header.glyphSize.toNat with hzero | hpos
  · simp [hzero]
  · rw [Nat.mul_le_mul_right_iff hpos]
    omega

/-- A glyph in front of the right edge is drawn, if it has rows or no gap. -/
theorem Fitted.drawGlyph (h : t.Fitted) (hcol : t.charCol + 1 < 2 ^ 64)
    (hline : t.charCol * t.font.width + t.font.width ≤ t.fb.width) {i : Nat} (hi : i < 2 ^ 21)
    (hhas : t.font.Has i) (hgap : t.font.height = 0 → 8 ∣ t.font.width) :
    ∃ t', t.drawGlyph i = .ok t' ∧ SameShape t t' ∧ t'.charCol = t.charCol + 1 := by
  have hfits := glyph_fits h.glyphSize h.height hgap hhas hline
  obtain ⟨fb, hrun, hp⟩ := h.fb.writeBitmap hfits hline Color.BLACK Color.WHITE
  have hwidth := h.fb.width
  exact ⟨_, drawGlyph_run hi hhas h.height hcol (by omega) hrun, ⟨hp.shape, rfl⟩, rfl⟩

/-- The conditions are needed. -/
theorem Fitted.of_drawGlyph (h : t.Fitted) {i : Nat} (hi : i < 2 ^ 21)
    (hrun : t.drawGlyph i = .ok t') :
    t.font.Has i ∧ (t.font.height = 0 → 8 ∣ t.font.width) := by
  have hwidth := t.font.width_lt
  unfold Term1.drawGlyph at hrun
  rw [PsfFont.getGlyph_eq hi, ok_bind] at hrun
  by_cases hhas : t.font.Has i
  · refine ⟨hhas, fun hzero => ?_⟩
    rw [if_pos hhas] at hrun
    dsimp only at hrun
    rw [usizeAdd_of_lt (by omega), ok_bind, stride_eq] at hrun
    obtain ⟨x, _, hrun⟩ := bind_ok hrun
    obtain ⟨y, _, hrun⟩ := bind_ok hrun
    obtain ⟨fb, hwrite, _⟩ := bind_ok hrun
    obtain ⟨_, hcheck, _⟩ := bind_ok hwrite
    have hspan := ((FrameBuffer.checkBitmap_ok_iff h.fb).mp hcheck).span
    rw [hzero, Nat.mul_zero] at hspan
    unfold PsfFont.rowBytes at hspan
    omega
  · rw [if_neg hhas] at hrun
    cases hrun

/-- The code that `write_str` passes on is not a newline, unless the character is one that
`write_char` gets to see. -/
theorem writeScalar_eq (t : Term1) (ch : Char) : t.writeScalar ch =
    if Breaks t.font ch then t.newLine else (do
      let t₁ ← t.wrap
      t₁.drawGlyph (if t.font.header.glyphCount.toNat < ch.toNat then 0 else ch.toNat)) := by
  have hcode : ch.toNat = '\n'.toNat ↔ ch = '\n' := Char.toNat_inj
  unfold Term1.writeScalar Term1.writeChar
  dsimp only
  by_cases hlarge : t.font.header.glyphCount.toNat < ch.toNat
  · have hbreaks : ¬ Breaks t.font ch := by
      intro hb
      obtain ⟨rfl, hle⟩ := hb
      omega
    rw [if_pos hlarge, if_neg hbreaks, if_neg (by decide)]
    simp only [if_pos hlarge]
  · rw [if_neg hlarge]
    by_cases hnl : ch = '\n'
    · have hbreaks : Breaks t.font ch := ⟨hnl, by subst hnl; omega⟩
      rw [if_pos (hcode.mpr hnl), if_pos hbreaks]
    · have hbreaks : ¬ Breaks t.font ch := fun hb => hnl hb.1
      rw [if_neg (fun hc => hnl (hcode.mp hc)), if_neg hbreaks]
      simp only [if_neg hlarge]

/-- What a character needs in a given column. -/
def Passes (t : Term1) (ch : Char) : Prop :=
  Writable t.font ch ∧ (t.font.width = 0 → advance t.font t.charCol ch < 2 ^ 64)

/-- All empty glyphs look the same. -/
theorem drawGlyph_of_empty {i j : Nat} (hempty : t.font.header.glyphSize.toNat = 0)
    (hi : i < 2 ^ 21)
    (hj : j < 2 ^ 21) (hhas : t.font.Has i) (hhas' : t.font.Has j) :
    t.drawGlyph i = t.drawGlyph j := by
  have hglyph : t.font.glyph i = t.font.glyph j := by
    unfold PsfFont.glyph
    rw [hempty, List.take_zero, List.take_zero]
  unfold Term1.drawGlyph
  rw [PsfFont.getGlyph_eq hi, PsfFont.getGlyph_eq hj, if_pos hhas, if_pos hhas', hglyph]

/-- One character of `write_str`. -/
theorem Ready.writeScalar (h : t.Ready) (hp : t.Passes ch) :
    ∃ t', t.writeScalar ch = .ok t' ∧ t.writeScalar (shown t.font ch) = .ok t' ∧ t'.Ready ∧
      t'.font = t.font ∧ (t.font.width = 0 → t'.charCol = advance t.font t.charCol ch) := by
  obtain ⟨hwritable, hover⟩ := hp
  -- a character that breaks the line draws nothing
  by_cases hb : Breaks t.font ch
  · obtain ⟨t', hrun, hsh, hzero⟩ := h.newLine
    have hshown : shown t.font ch = ch := if_neg (fun hc => hc.1 hb.1)
    have hscalar : t.writeScalar ch = .ok t' := by
      rw [writeScalar_eq, if_pos hb]
      exact hrun
    refine ⟨t', hscalar, by rw [hshown]; exact hscalar, ⟨hsh.fitted h.toFitted, ?_, ?_⟩, hsh.font,
      fun _ => ?_⟩
    · rw [hzero]
      norm_num
    · rw [hzero, Nat.zero_mul]
      exact Nat.zero_le _
    · rw [advance, if_pos hb]
      exact hzero
  obtain ⟨hcount, hgap⟩ := hwritable.resolve_left hb
  have hcol : t.charCol + 1 < 2 ^ 64 := by
    rcases Nat.eq_zero_or_pos t.font.width with hw | hw
    · have hlt := hover hw
      rwa [advance, if_neg hb] at hlt
    · have hstart : t.charCol ≤ t.charCol * t.font.width := Nat.le_mul_of_pos_right _ hw
      have hline := h.line
      have hstride := h.stride
      have hfb := h.fb.stride
      omega
  -- any other one goes to the next line if this one is full
  obtain ⟨t₁, hwrap, hsh₁, hcol₁, hline₁, hkeep⟩ := h.wrap hcol
  have hfit₁ := hsh₁.fitted h.toFitted
  have hpos := h.count
  have hlt := toNat_lt ch
  generalize hcode : (if t.font.header.glyphCount.toNat < ch.toNat then 0 else ch.toNat) = code
  -- the glyph that is drawn exists, also if the code is one past the last
  have hcode' : code < 2 ^ 21 ∧ t₁.font.Has code := by
    rw [hfit₁.has_iff, hsh₁.font, ← hcode]
    split
    next => exact ⟨by norm_num, Or.inr hpos⟩
    next hle =>
      refine ⟨hlt, ?_⟩
      by_cases heq : ch.toNat = t.font.header.glyphCount.toNat
      · exact Or.inl (hcount heq)
      · exact Or.inr (by omega)
  obtain ⟨t', hdraw, hsh', hcol'⟩ := hfit₁.drawGlyph hcol₁ hline₁ hcode'.1 hcode'.2
    (by rw [hsh₁.font]; exact hgap)
  refine ⟨t', ?_, ?_, ⟨hsh'.fitted hfit₁, by omega, ?_⟩, hsh'.font.trans hsh₁.font, fun hw => ?_⟩
  · rw [writeScalar_eq, if_neg hb, hcode, hwrap]
    exact hdraw
  · by_cases hmiss : ch ≠ '\n' ∧ t.font.header.glyphCount.toNat ≤ ch.toNat
    · -- the code passed on is 0, or all glyphs are empty
      have hnul : ¬ Breaks t.font '\x00' := fun hc => absurd hc.1 (by decide)
      rw [shown, if_pos hmiss, writeScalar_eq, if_neg hnul,
        if_neg (show ¬ t.font.header.glyphCount.toNat < '\x00'.toNat from Nat.not_lt_zero _), hwrap]
      show t₁.drawGlyph 0 = .ok t'
      rw [← hdraw]
      by_cases hlarge : t.font.header.glyphCount.toNat < ch.toNat
      · rw [if_pos hlarge] at hcode
        rw [hcode]
      · have hempty := hcount (by omega)
        rw [← hsh₁.font] at hempty
        exact drawGlyph_of_empty (hfit₁.glyphSize_eq_zero.mpr hempty) (by norm_num) hcode'.1
          ((hfit₁.has_iff 0).mpr (Or.inl hempty)) hcode'.2
    · rw [shown, if_neg hmiss, writeScalar_eq, if_neg hb, hcode, hwrap]
      exact hdraw
  · rw [hcol', hsh'.font, hsh'.fb.width, Nat.add_mul, Nat.one_mul]
    exact hline₁
  · rw [hcol', hkeep hw, advance, if_neg hb]

theorem Ready.of_writeScalar (h : t.Ready) (hrun : t.writeScalar ch = .ok t') : t.Passes ch := by
  rw [writeScalar_eq] at hrun
  by_cases hb : Breaks t.font ch
  · refine ⟨Or.inl hb, fun _ => ?_⟩
    rw [advance, if_pos hb]
    norm_num
  · rw [if_neg hb] at hrun
    obtain ⟨t₁, hwrap, hdraw⟩ := bind_ok hrun
    have hcol : t.charCol + 1 < 2 ^ 64 := by
      obtain ⟨n, hadd, _⟩ := bind_ok hwrap
      exact (usizeAdd_ok hadd).1
    obtain ⟨t₂, hwrap', hsh, _⟩ := h.wrap hcol
    rw [hwrap] at hwrap'
    cases hwrap'
    have hi : (if t.font.header.glyphCount.toNat < ch.toNat then 0 else ch.toNat) < 2 ^ 21 := by
      split
      · norm_num
      · exact toNat_lt ch
    obtain ⟨hhas, hgap⟩ := (hsh.fitted h.toFitted).of_drawGlyph hi hdraw
    rw [(hsh.fitted h.toFitted).has_iff] at hhas
    rw [hsh.font] at hhas hgap
    refine ⟨Or.inr ⟨fun hcount => ?_, hgap⟩, fun _ => ?_⟩
    · rw [if_neg (by omega)] at hhas
      exact hhas.resolve_right (by omega)
    · rw [advance, if_neg hb]
      exact hcol

/-! ## Strings -/

/-- The characters of a text pass, one after the other. -/
def AllPass (f : PsfFont) (col : Nat) (s : List Char) : Prop :=
  (∀ ch ∈ s, Writable f ch) ∧
  (f.width = 0 → ∀ n ≤ s.length, (s.take n).foldl (advance f) col < 2 ^ 64)

theorem allPass_cons {f : PsfFont} {col : Nat} {s : List Char} (hcol : col < 2 ^ 64) :
    AllPass f col (ch :: s) ↔ (Writable f ch ∧ (f.width = 0 → advance f col ch < 2 ^ 64)) ∧
      AllPass f (advance f col ch) s := by
  constructor
  · intro h
    obtain ⟨hw, hover⟩ := h
    refine ⟨⟨hw ch (List.mem_cons_self ..), fun hzero => ?_⟩,
      fun ch' hch' => hw ch' (List.mem_cons_of_mem _ hch'), fun hzero n hn => ?_⟩
    · exact hover hzero 1 (by rw [List.length_cons]; omega)
    · exact hover hzero (n + 1) (by rw [List.length_cons]; omega)
  · intro h
    obtain ⟨⟨hch, hone⟩, hw, hover⟩ := h
    refine ⟨fun ch' hch' => ?_, fun hzero n hn => ?_⟩
    · rcases List.mem_cons.mp hch' with rfl | hch'
      · exact hch
      · exact hw ch' hch'
    · cases n with
      | zero => exact hcol
      | succ n => exact hover hzero n (by rw [List.length_cons] at hn; omega)

/-- Only a font without columns looks at the column. -/
theorem allPass_congr {f : PsfFont} {col col' : Nat} {s : List Char}
    (h : f.width = 0 → col' = col) :
    AllPass f col' s ↔ AllPass f col s := by
  unfold AllPass
  refine and_congr_right fun _ => forall_congr' fun hzero => ?_
  rw [h hzero]

/-- The loop of `write_str` goes through if and only if every character passes. -/
theorem Ready.writeChars : ∀ (s : List Char) {t : Term1}, t.Ready →
    (AllPass t.font t.charCol s → ∃ t', Term1.writeChars s t = .ok t' ∧
      Term1.writeChars (s.map (shown t.font)) t = .ok t' ∧ t'.Ready) ∧
    ∀ {t'}, Term1.writeChars s t = .ok t' → AllPass t.font t.charCol s := by
  intro s
  induction s with
  | nil =>
    intro t h
    refine ⟨fun _ => ⟨t, rfl, rfl, h⟩, fun {t'} _ => ⟨fun ch hch => ?_, fun _ n _ => ?_⟩⟩
    · exact absurd hch List.not_mem_nil
    · rw [List.take_nil]
      exact h.col
  | cons ch s ih =>
    intro t h
    rw [allPass_cons h.col]
    refine ⟨fun hpass => ?_, fun {t'} hrun => ?_⟩
    · obtain ⟨hch, hs⟩ := hpass
      obtain ⟨t₁, hrun, hrun', h₁, hfont, hcol⟩ := h.writeScalar hch
      have hs₁ : AllPass t₁.font t₁.charCol s := by
        rw [hfont, allPass_congr hcol]
        exact hs
      obtain ⟨t', hrest, hrest', h'⟩ := (ih h₁).1 hs₁
      rw [hfont] at hrest'
      refine ⟨t', ?_, ?_, h'⟩
      · show (t.writeScalar ch >>= fun t => Term1.writeChars s t) = _
        rw [hrun]
        exact hrest
      · show (t.writeScalar (shown t.font ch) >>=
          fun t₁ => Term1.writeChars (s.map (shown t.font)) t₁) = _
        rw [hrun']
        exact hrest'
    · obtain ⟨t₁, hscalar, hrest⟩ := bind_ok hrun
      have hch := h.of_writeScalar hscalar
      obtain ⟨t₂, hrun₂, _, h₁, hfont, hcol⟩ := h.writeScalar hch
      rw [hscalar] at hrun₂
      cases hrun₂
      have hs := (ih h₁).2 hrest
      rw [hfont, allPass_congr hcol] at hs
      exact ⟨hch, hs⟩

theorem Written.ready (h : Written t) : t.Ready := by
  induction h with
  | start hfit hcol =>
    refine ⟨hfit, ?_, ?_⟩
    · rw [hcol]
      norm_num
    · rw [hcol, Nat.zero_mul]
      exact Nat.zero_le _
  | @write t t' s _ hrun ih =>
    obtain ⟨hok, hpass⟩ := ih.writeChars s.toList
    obtain ⟨t₁, hrun₁, _, h₁⟩ := hok (hpass hrun)
    have hsame : t.writeStr s = .ok t₁ := hrun₁
    rw [hrun] at hsame
    cases hsame
    exact h₁

/-- `write_str` gets through a text if and only if every character of it is a newline, or
does not have the code `glyph_count` (if glyphs have pixels); a font without rows also needs
rows without gaps, and one without columns lines that do not overflow. -/
theorem printing_completes_iff (h : Written t) (s : String) :
    t.Prints s ↔ AllPass t.font t.charCol s.toList := by
  obtain ⟨hok, hpass⟩ := h.ready.writeChars s.toList
  constructor
  · intro hprints
    obtain ⟨t', hrun, _⟩ := hprints
    exact hpass hrun
  · intro hall
    obtain ⟨t', hrun, hrun', _⟩ := hok hall
    exact ⟨t', hrun, hrun'⟩

theorem sample_fitted {n : BitVec 32} (hn : 0 < n.toNat) : (sample n).Fitted := by
  obtain ⟨⟨hfb, hfont, hw, hh⟩, _⟩ := sample_fresh n
  refine ⟨hfb, show 8 < 2 ^ 64 by norm_num, hfont.glyphSize, ?_, hn, hw, hh⟩
  have hlen : (sample n).font.data.length = 32 + n.toNat := by
    dsimp only [sample]
    rw [List.length_append, List.length_replicate, List.length_replicate]
  rw [hlen]
  exact congrArg (32 + ·) (Nat.mul_one _).symm

/-- A font of 65 glyphs, and the letter `A`. -/
theorem letter_panics : Written (sample 65) ∧ ¬ (sample 65).Prints "A" := by
  have hwritten : Written (sample 65) := .start (sample_fitted (by decide)) rfl
  refine ⟨hwritten, fun hprints => ?_⟩
  obtain ⟨t', hrun, _⟩ := hprints
  have hpass := (hwritten.ready.writeChars "A".toList).2 hrun
  rcases hpass.1 'A' (by decide) with hbreaks | ⟨hcount, _⟩
  · exact absurd hbreaks.1 (by decide)
  · have hempty := hcount (by decide)
    revert hempty
    decide

theorem printing_completes_sample : Written (sample 66) ∧ (sample 66).Prints "A\nZ" := by
  have hwritten : Written (sample 66) := .start (sample_fitted (by decide)) rfl
  refine ⟨hwritten, (printing_completes_iff hwritten _).mpr ⟨fun ch hch => ?_, fun hzero => ?_⟩⟩
  · right
    have hne : ∀ ch ∈ "A\nZ".toList, ch.toNat ≠ 66 := by simp
    refine ⟨fun hcount => absurd hcount (hne ch hch), fun hzero => ?_⟩
    revert hzero
    decide
  · revert hzero
    decide

end Tauos.Out.Term1
