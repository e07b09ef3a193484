import Mathlib.Tactic.Common
import Mathlib.Logic.Function.Basic

/-!
# A private text screen

What one terminal is meant to be: a page of 25 rows of 80 cells, two bytes a cell, and a cursor.
`Screen.putc` writes one byte at the cursor, advances, wraps and scrolls. Nothing here mentions
the shared video page, the backing pages or the other terminals; the code of `lib.c` is compared
with this screen in `Devices.Display`.
-/

namespace Ece391Kernel

/-! ## Constants of `lib.c` -/

@[simp] def numCols : Nat := 80
@[simp] def numRows : Nat := 25
@[simp] def attrib : UInt8 := 0x7
@[simp] def blank : UInt8 := 0x20

/-- The contents of one 4 KB page, by offset; only offsets below 4096 matter. -/
abbrev Page := Nat → UInt8

/-- The page after every row but the first moved one row up. Only characters move; the last row
becomes blank with its attributes. -/
def scrollPage (p : Page) : Page := fun r =>
  if r < 3840 then (if r % 2 = 0 then p (r + 160) else p r)
  else if r < 4000 then (if r % 2 = 0 then blank else attrib)
  else p r

/-- The page with a character and its attribute in the cell at column `x` of row `y`. -/
def putCellPage (x y : Nat) (c : UInt8) (p : Page) : Page :=
  Function.update (Function.update p ((numCols * y + x) * 2) c) ((numCols * y + x) * 2 + 1) attrib

/-- `'\n'` and `'\r'` move to the next row, every other byte is written to a cell. -/
def isNewline (c : UInt8) : Bool := c == 0x0A || c == 0x0D

/-- The column after writing a byte in column `x`. -/
def nextX (x : Nat) (c : UInt8) : Nat := if isNewline c then 0 else (x + 1) % numCols

/-- The row after writing a byte at column `x` of row `y`; it may be 25, below the screen. -/
def nextY (x y : Nat) (c : UInt8) : Nat :=
  if isNewline c then y + 1 else if x = 79 then y + 1 else y

/-- The page after writing a byte at column `x` of row `y`. -/
def writePage (x y : Nat) (c : UInt8) (p : Page) : Page :=
  if isNewline c then p else putCellPage x y c p

theorem nextX_le (x : Nat) (c : UInt8) : nextX x c ≤ 79 := by
  simp only [nextX, numCols]
  split <;> omega

theorem nextY_le {y : Nat} (hy : y ≤ 24) (x : Nat) (c : UInt8) : nextY x y c ≤ 25 := by
  simp only [nextY]
  split_ifs <;> omega

/-- A terminal's own screen: its page and its cursor. -/
@[ext] structure Screen where
  page : Page
  x : Nat
  y : Nat

namespace Screen

/-- The cursor lies on the screen. -/
structure InBounds (s : Screen) : Prop where
  x : s.x ≤ 79
  y : s.y ≤ 24

/-- Write one byte at the cursor and advance; scroll when the cursor leaves the last row. -/
def putc (s : Screen) (c : UInt8) : Screen :=
  if nextY s.x s.y c = numRows then ⟨scrollPage (writePage s.x s.y c s.page), 0, 24⟩
  else ⟨writePage s.x s.y c s.page, nextX s.x c, nextY s.x s.y c⟩

theorem putc_of_ne {s : Screen} {c : UInt8} (h : nextY s.x s.y c ≠ 25) :
    s.putc c = ⟨writePage s.x s.y c s.page, nextX s.x c, nextY s.x s.y c⟩ :=
  if_neg h

theorem putc_of_eq {s : Screen} {c : UInt8} (h : nextY s.x s.y c = 25) :
    s.putc c = ⟨scrollPage (writePage s.x s.y c s.page), 0, 24⟩ :=
  if_pos h

theorem putc_in_bounds {s : Screen} (h : s.InBounds) (c : UInt8) : (s.putc c).InBounds := by
  have hy := nextY_le h.y s.x c
  by_cases hlast : nextY s.x s.y c = 25
  · rw [putc_of_eq hlast]
    exact ⟨Nat.zero_le _, Nat.le_refl _⟩
  · rw [putc_of_ne hlast]
    exact ⟨nextX_le _ _, by simp only; omega⟩

end Screen

end Ece391Kernel
