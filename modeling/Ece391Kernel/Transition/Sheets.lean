import Mathlib.Logic.Function.Basic

/-!
# A sheet of paper and a window on it

A `Sheet` has rows of `w` cells and no last row. It is written at its head, which moves right and,
after the last column or at a newline, to the next row. A screen of `h` rows that scrolls shows the
end of the sheet: `Window` says that its cells and its cursor are those of the sheet from row
`firstRow` on. The rules below say when the three things that a screen can do keep this up: to write
a cell, to move the cursor, and to scroll.
-/

namespace Ece391Kernel.Transition

variable {α : Type}

/-- The cells by row and column, and the head at column `x` of row `y`. -/
structure Sheet (α : Type) where
  cell : Nat → Nat → α
  x : Nat
  y : Nat

namespace Sheet

/-- The sheet that continues a screen of `h` rows with blank rows. -/
def below (h : Nat) (blank : α) (cell : Nat → Nat → α) (x y : Nat) : Sheet α :=
  ⟨fun row col => if row < h then cell row col else blank, x, y⟩

/-- Write a cell at the head, which stays. -/
def mark (s : Sheet α) (c : α) : Sheet α :=
  { s with cell := Function.update s.cell s.y (Function.update (s.cell s.y) s.x c) }

/-- Move the head to the beginning of the next row. -/
def newRow (s : Sheet α) : Sheet α := { s with x := 0, y := s.y + 1 }

/-- Move the head one column to the right, in rows of `w` columns. -/
def advance (w : Nat) (s : Sheet α) : Sheet α :=
  if s.x + 1 < w then { s with x := s.x + 1 } else s.newRow

/-- Write one character, which may be a newline. -/
def write (w : Nat) (newline : α → Bool) (s : Sheet α) (c : α) : Sheet α :=
  if newline c then s.newRow else (s.mark c).advance w

/-- The first row that a window of `h` rows shows. -/
def firstRow (h : Nat) (s : Sheet α) : Nat := s.y - (h - 1)

theorem mark_cell (s : Sheet α) (c : α) (row col : Nat) :
    (s.mark c).cell row col = if row = s.y ∧ col = s.x then c else s.cell row col := by
  show Function.update s.cell s.y (Function.update (s.cell s.y) s.x c) row col = _
  by_cases hrow : row = s.y
  · subst hrow
    by_cases hcol : col = s.x
    · subst hcol
      simp
    · simp [hcol]
  · simp [hrow]

end Sheet

/-- A screen of `h` rows of `w` cells, with its cursor at column `x` of row `y`, shows the end of
the sheet. The sheet is blank below the screen. -/
structure Window (w h : Nat) (blank : α) (cell : Nat → Nat → α) (x y : Nat) (s : Sheet α) :
    Prop where
  column : x = s.x
  row : y + s.firstRow h = s.y
  inside : x < w ∧ y < h
  cells : ∀ row col, row < h → col < w → cell row col = s.cell (s.firstRow h + row) col
  below : ∀ row col, h ≤ row → s.y < row → col < w → s.cell row col = blank

namespace Window

variable {w h : Nat} {blank : α} {cell cell' : Nat → Nat → α} {x y : Nat} {s : Sheet α}

/-- The cursor is at or above the last row, and above it only when nothing has scrolled. -/
theorem firstRow_eq_zero (hw : Window w h blank cell x y s) (hy : y + 1 < h) :
    s.firstRow h = 0 := by
  have hrow := hw.row
  have hdef : s.firstRow h = s.y - (h - 1) := rfl
  omega

/-- A screen shows the sheet that continues it with blank rows. -/
theorem start (hx : x < w) (hy : y < h) :
    Window w h blank cell x y (Sheet.below h blank cell x y) := by
  have hfirst : y - (h - 1) = 0 := by omega
  refine ⟨rfl, ?_, ⟨hx, hy⟩, fun row col hrow _ => ?_, fun row col hrow _ _ => ?_⟩
  · show y + (y - (h - 1)) = y
    rw [hfirst, Nat.add_zero]
  · show cell row col = if y - (h - 1) + row < h then cell (y - (h - 1) + row) col else blank
    rw [hfirst, Nat.zero_add, if_pos hrow]
  · exact if_neg (Nat.not_lt.2 hrow)

/-- Writing a cell at the cursor. -/
theorem mark (hw : Window w h blank cell x y s) {c : α}
    (hcell : ∀ row col, row < h → col < w →
      cell' row col = if row = y ∧ col = x then c else cell row col) :
    Window w h blank cell' x y (s.mark c) := by
  have hrow := hw.row
  refine ⟨hw.column, hrow, hw.inside, fun row col hr hc => ?_, fun row col hr hlow hc => ?_⟩
  · have hiff : (row = y ∧ col = x) ↔ (s.firstRow h + row = s.y ∧ col = s.x) := by
      rw [hw.column]
      omega
    rw [hcell row col hr hc, hw.cells row col hr hc]
    show _ = (s.mark c).cell (s.firstRow h + row) col
    rw [Sheet.mark_cell]
    simp only [hiff]
  · rw [Sheet.mark_cell, if_neg]
    · exact hw.below row col hr hlow hc
    · intro hhead
      exact absurd hhead.1 (Nat.ne_of_gt hlow)

/-- Moving the cursor inside its row. -/
theorem right (hw : Window w h blank cell x y s) (hx : x + 1 < w) :
    Window w h blank cell (x + 1) y { s with x := s.x + 1 } :=
  ⟨congrArg (· + 1) hw.column, hw.row, ⟨hx, hw.inside.2⟩, hw.cells, hw.below⟩

/-- Moving the cursor to the next row of the screen. -/
theorem newRow (hw : Window w h blank cell x y s) (hy : y + 1 < h) :
    Window w h blank cell 0 (y + 1) s.newRow := by
  have hfirst := hw.firstRow_eq_zero hy
  have hrow := hw.row
  have hin := hw.inside
  have hfirst' : s.newRow.firstRow h = s.firstRow h := by
    show s.y + 1 - (h - 1) = s.firstRow h
    omega
  refine ⟨rfl, ?_, ⟨by omega, hy⟩, fun row col hr hc => ?_, fun row col hr hlow hc => ?_⟩
  · rw [hfirst']
    show y + 1 + s.firstRow h = s.y + 1
    omega
  · rw [hfirst']
    exact hw.cells row col hr hc
  · exact hw.below row col hr (Nat.lt_of_succ_lt hlow) hc

/-- Scrolling, with the cursor in the last row of the screen. -/
theorem scroll (hw : Window w h blank cell x y s) (hy : y + 1 = h)
    (hcell : ∀ row col, row < h → col < w →
      cell' row col = if row + 1 < h then cell (row + 1) col else blank) :
    Window w h blank cell' 0 y s.newRow := by
  have hrow := hw.row
  have hin := hw.inside
  have hdef : s.firstRow h = s.y - (h - 1) := rfl
  have hfirst' : s.newRow.firstRow h = s.firstRow h + 1 := by
    show s.y + 1 - (h - 1) = s.firstRow h + 1
    omega
  refine ⟨rfl, ?_, ⟨by omega, hin.2⟩, fun row col hr hc => ?_, fun row col hr hlow hc => ?_⟩
  · rw [hfirst']
    show y + (s.firstRow h + 1) = s.y + 1
    omega
  · rw [hcell row col hr hc, hfirst']
    have hnext : s.firstRow h + 1 + row = s.firstRow h + (row + 1) := by omega
    rw [hnext]
    by_cases hlast : row + 1 < h
    · rw [if_pos hlast]
      exact hw.cells (row + 1) col hlast hc
    · -- the row that comes into sight is below the head
      rw [if_neg hlast]
      exact (hw.below (s.firstRow h + (row + 1)) col (by omega) (by omega) hc).symm
  · exact hw.below row col hr (Nat.lt_of_succ_lt hlow) hc

end Window

end Ece391Kernel.Transition
