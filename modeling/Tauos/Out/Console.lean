import Mathlib.Data.List.Basic

/-!
# A text console

What a terminal is for: lines of characters, the current line at the bottom. A
character goes to the end of the current line, or starts a new line when the
current one is full.

A console is drawn on a grid of pixels by cells of `w` by `h` pixels, bottom
aligned: `lit` says which pixels are set, given the picture `ink` of each
character. A line that does not fit on the grid any more is cut off at the top.
`lit_newLine` and `lit_put` say how the picture changes: a new line moves
everything up by one cell, a character changes one cell.
-/

namespace Tauos.Out

/-- The current line, and the lines above it, the latest first. -/
structure Console (α : Type) where
  line : List α
  above : List (List α)
  deriving DecidableEq, Repr

namespace Console

variable {α : Type} {ink : α → Nat → Nat → Bool} {w h height cols : Nat}

/-- Nothing is typed yet. -/
def empty : Console α := ⟨[], []⟩

/-- The current line moves up. -/
def newLine (c : Console α) : Console α := ⟨[], c.line :: c.above⟩

/-- One character, on a console of `cols` columns. -/
def put (cols : Nat) (c : Console α) (ch : α) : Console α :=
  if c.line.length < cols then { c with line := c.line ++ [ch] } else ⟨[ch], c.line :: c.above⟩

/-- The character in column `j` of the line `k` above the current one. -/
def cell (c : Console α) (k j : Nat) : Option α := ((c.line :: c.above)[k]?).bind fun l => l[j]?

/-- The pixel in column `x` of row `y` is set, on a grid of `height` rows. -/
def lit (ink : α → Nat → Nat → Bool) (w h height : Nat) (c : Console α) (x y : Nat) : Bool :=
  match c.cell ((height - 1 - y) / h) (x / w) with
  | some ch => ink ch (h - 1 - (height - 1 - y) % h) (x % w)
  | none => false

/-- Nothing is lit on an empty console. -/
theorem lit_empty (x y : Nat) : (empty : Console α).lit ink w h height x y = false := by
  have hcell : ∀ k j, (empty : Console α).cell k j = none := by
    intro k j
    cases k with
    | zero => rfl
    | succ k => rfl
  rw [lit, hcell]

/-- A full line is left by a new line. -/
theorem put_of_full {c : Console α} (hcols : 0 < cols) (hfull : cols ≤ c.line.length) (ch : α) :
    c.put cols ch = c.newLine.put cols ch := by
  unfold put
  rw [if_neg (Nat.not_lt.mpr hfull), if_pos (show c.newLine.line.length < cols from hcols)]
  rfl

theorem put_of_room {c : Console α} (hroom : c.line.length < cols) (ch : α) :
    c.put cols ch = ⟨c.line ++ [ch], c.above⟩ := if_pos hroom

/-- The rows of the current line. -/
theorem bottom_row (hle : h ≤ height) {y : Nat} (hy : y < height) (hbot : height - h ≤ y) :
    (height - 1 - y) / h = 0 ∧ h - 1 - (height - 1 - y) % h = y - (height - h) := by
  refine ⟨Nat.div_eq_of_lt (by omega), ?_⟩
  rw [Nat.mod_eq_of_lt (by omega)]
  omega

/-- A new line moves the picture up by one cell and leaves the bottom one blank. -/
theorem lit_newLine (c : Console α) (hh : 0 < h) (hle : h ≤ height) {x y : Nat} (hy : y < height) :
    c.newLine.lit ink w h height x y
      = if y < height - h then c.lit ink w h height x (y + h) else false := by
  split
  next hup =>
    have hrow : height - 1 - y = height - 1 - (y + h) + h := by omega
    have hcell : c.newLine.cell ((height - 1 - (y + h)) / h + 1) (x / w)
        = c.cell ((height - 1 - (y + h)) / h) (x / w) := rfl
    unfold lit
    rw [hrow, Nat.add_div_right _ hh, Nat.add_mod_right, hcell]
  next hbot =>
    obtain ⟨hdiv, _⟩ := bottom_row hle hy (Nat.not_lt.mp hbot)
    rw [lit, hdiv]
    rfl

/-- A character on the current line changes one cell. -/
theorem lit_put (c : Console α) (hw : 0 < w) (hh : 0 < h) (hle : h ≤ height)
    (hroom : c.line.length < cols) (ch : α) {x y : Nat} (hy : y < height) :
    (c.put cols ch).lit ink w h height x y
      = if c.line.length * w ≤ x ∧ x < c.line.length * w + w ∧ height - h ≤ y
        then ink ch (y - (height - h)) (x - c.line.length * w) else c.lit ink w h height x y := by
  rw [put_of_room hroom]
  have hcol : x / w = c.line.length ↔ c.line.length * w ≤ x ∧ x < c.line.length * w + w := by
    rw [Nat.div_eq_iff hw]
    omega
  by_cases hbot : height - h ≤ y
  · obtain ⟨hdiv, hmod⟩ := bottom_row hle hy hbot
    have hnew : (⟨c.line ++ [ch], c.above⟩ : Console α).cell 0 (x / w) = (c.line ++ [ch])[x / w]? :=
      rfl
    have hold : c.cell 0 (x / w) = c.line[x / w]? := rfl
    unfold lit
    rw [hdiv, hmod, hnew, hold]
    by_cases heq : x / w = c.line.length
    · obtain ⟨h1, h2⟩ := hcol.mp heq
      have hmodx : x % w = x - c.line.length * w := by
        have hsplit := Nat.div_add_mod x w
        rw [heq, Nat.mul_comm] at hsplit
        omega
      rw [if_pos ⟨h1, h2, hbot⟩, heq, List.getElem?_concat_length, hmodx]
    · rw [if_neg (fun hc => heq (hcol.mpr ⟨hc.1, hc.2.1⟩))]
      rcases Nat.lt_or_ge (x / w) c.line.length with hlt | hge
      · rw [List.getElem?_append_left hlt]
      · rw [List.getElem?_eq_none (by simp; omega), List.getElem?_eq_none hge]
  · -- the lines above are the same
    rw [if_neg (fun hc => hbot hc.2.2)]
    have hpos : 0 < (height - 1 - y) / h := Nat.div_pos (by omega) hh
    obtain ⟨k, hk⟩ := Nat.exists_eq_succ_of_ne_zero (Nat.pos_iff_ne_zero.mp hpos)
    unfold lit
    rw [hk]
    rfl

theorem length_line_put (c : Console α) (hcols : 0 < cols) (ch : α) :
    (c.put cols ch).line.length ≤ cols := by
  unfold put
  split
  next hroom =>
    rw [List.length_append]
    exact hroom
  next => exact hcols

/-! ## Text -/

/-- One character of a text, by its code. -/
def type (cols : Nat) (c : Console Nat) (ch : Char) : Console Nat :=
  if ch = '\n' then c.newLine else c.put cols ch.toNat

theorem length_line_type (c : Console Nat) (hcols : 0 < cols) (ch : Char) :
    (c.type cols ch).line.length ≤ cols := by
  unfold type
  split
  next => exact Nat.zero_le cols
  next => exact c.length_line_put hcols ch.toNat

/-- The console after a text. -/
def text (cols : Nat) (s : String) : Console Nat := s.toList.foldl (type cols) empty

end Console

end Tauos.Out
