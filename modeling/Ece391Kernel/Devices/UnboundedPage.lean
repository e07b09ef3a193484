import Ece391Kernel.Devices.Screens
import Ece391Kernel.Transition.Sheets

/-!
# `terminal_write` on an unbounded page

What a screen of 25 rows loses when it scrolls is what stands above the window on a page without a
last row. `putc_window` says that one `putc` keeps the screen a window on such a page, whether it
writes a cell, wraps, or scrolls; `terminalWrite_shows` is the same for a whole `terminal_write`.
-/

namespace Ece391Kernel

open Transition

/-! ## The characters of a page -/

/-- The character in a cell. -/
def charAt (p : Page) (row col : Nat) : UInt8 := p ((numCols * row + col) * 2)

theorem charAt_eq (p : Page) (row col : Nat) : charAt p row col = p ((80 * row + col) * 2) := rfl

theorem charAt_putCellPage {x y row col : Nat} (hx : x < 80) (hcol : col < 80) (c : UInt8)
    (p : Page) :
    charAt (putCellPage x y c p) row col = if row = y ∧ col = x then c else charAt p row col := by
  rw [charAt_eq, charAt_eq]
  simp only [putCellPage, numCols]
  rw [Function.update_of_ne (by omega)]
  by_cases hcell : row = y ∧ col = x
  · rw [if_pos hcell, hcell.1, hcell.2, Function.update_self]
  · rw [if_neg hcell, Function.update_of_ne (by omega)]

theorem charAt_scrollPage {row col : Nat} (hrow : row < 25) (hcol : col < 80) (p : Page) :
    charAt (scrollPage p) row col = if row + 1 < 25 then charAt p (row + 1) col else blank := by
  have hchar : (80 * row + col) * 2 % 2 = 0 := by omega
  rw [charAt_eq, charAt_eq]
  simp only [scrollPage]
  by_cases hlast : row + 1 < 25
  · have hup : (80 * row + col) * 2 + 160 = (80 * (row + 1) + col) * 2 := by omega
    rw [if_pos (by omega), if_pos hchar, if_pos hlast, hup]
  · rw [if_neg (by omega), if_pos (by omega), if_pos hchar, if_neg hlast]

/-! ## One byte -/

/-- A screen is the window on a page. -/
def Screen.Shows (s : Screen) (page : Sheet UInt8) : Prop :=
  Window 80 25 blank (charAt s.page) s.x s.y page

/-- The page that continues a screen below with blank rows, and its head at the cursor. -/
def Screen.unbounded (s : Screen) : Sheet UInt8 := Sheet.below 25 blank (charAt s.page) s.x s.y

/-- Write bytes at the head of a page. -/
def writeSheet (page : Sheet UInt8) (buf : List UInt8) : Sheet UInt8 :=
  buf.foldl (Sheet.write 80 isNewline) page

theorem Screen.unbounded_shows {s : Screen} (hx : s.x < 80) (hy : s.y < 25) :
    s.Shows s.unbounded :=
  Window.start hx hy

/-- From the cursor to the beginning of the next row, or of the last row after a scroll. -/
theorem Screen.Shows.newRow {p : Page} {x y : Nat} {page : Sheet UInt8}
    (h : Window 80 25 blank (charAt p) x y page) :
    Screen.Shows (if y + 1 = 25 then ⟨scrollPage p, 0, 24⟩ else ⟨p, 0, y + 1⟩) page.newRow := by
  have hy := h.inside.2
  by_cases hlast : y + 1 = 25
  · obtain rfl : y = 24 := by omega
    rw [if_pos hlast]
    exact h.scroll hlast fun row col hrow hcol => charAt_scrollPage hrow hcol p
  · rw [if_neg hlast]
    exact h.newRow (by omega)

/-- One `putc` keeps the screen a window on the page. -/
theorem Screen.putc_window {s : Screen} {page : Sheet UInt8} (h : s.Shows page) (c : UInt8) :
    (s.putc c).Shows (page.write 80 isNewline c) := by
  have hwindow : Window 80 25 blank (charAt s.page) s.x s.y page := h
  have hin := hwindow.inside
  by_cases hc : isNewline c = true
  · have hnext : nextY s.x s.y c = s.y + 1 := if_pos hc
    have hcol : nextX s.x c = 0 := if_pos hc
    have hpage : writePage s.x s.y c s.page = s.page := if_pos hc
    have hwrite : page.write 80 isNewline c = page.newRow := if_pos hc
    rw [hwrite, Screen.putc, hnext, hcol, hpage]
    exact Screen.Shows.newRow hwindow
  · have hpage : writePage s.x s.y c s.page = putCellPage s.x s.y c s.page := if_neg hc
    have hwrite : page.write 80 isNewline c = (page.mark c).advance 80 := if_neg hc
    have hmark : Window 80 25 blank (charAt (putCellPage s.x s.y c s.page)) s.x s.y
        (page.mark c) :=
      hwindow.mark fun row col _ hcol => charAt_putCellPage hin.1 hcol c s.page
    have hcolumn : s.x = page.x := hwindow.column
    rw [hwrite, Screen.putc, hpage]
    by_cases hwrap : s.x = 79
    · have hnext : nextY s.x s.y c = s.y + 1 := (if_neg hc).trans (if_pos hwrap)
      have hcol : nextX s.x c = 0 := by
        rw [nextX, if_neg hc, hwrap]
        rfl
      have hadvance : (page.mark c).advance 80 = (page.mark c).newRow :=
        if_neg (show ¬ page.x + 1 < 80 by omega)
      rw [hadvance, hnext, hcol]
      exact Screen.Shows.newRow hmark
    · have hnext : nextY s.x s.y c = s.y := (if_neg hc).trans (if_neg hwrap)
      have hcol : nextX s.x c = s.x + 1 := by
        rw [nextX, if_neg hc]
        simp only [numCols]
        omega
      have hadvance : (page.mark c).advance 80 = { page.mark c with x := page.x + 1 } :=
        if_pos (show page.x + 1 < 80 by omega)
      have hsame : s.y ≠ numRows := by
        simp only [numRows]
        omega
      rw [hadvance, hnext, hcol, if_neg hsame]
      exact hmark.right (by omega)

/-- Any number of `putc` keep the screen a window on the page. -/
theorem Screen.puts_window {s : Screen} {page : Sheet UInt8} (h : s.Shows page)
    (buf : List UInt8) : (buf.foldl Screen.putc s).Shows (writeSheet page buf) := by
  induction buf generalizing s page with
  | nil => exact h
  | cons c buf ih => exact ih (Screen.putc_window h c)

/-! ## A whole `terminal_write` -/

namespace Display

variable {d : Display}

/-- As `puts_view`, for the terminal in service alone: the other cursors may be anywhere. -/
theorem puts_view_service {service cur : Nat} (hservice : service < 3) (buf : List UInt8)
    (hin : (d.view cur service).InBounds) :
    (d.puts service cur buf).view cur service = buf.foldl Screen.putc (d.view cur service) := by
  induction buf generalizing d with
  | nil => rfl
  | cons c buf ih =>
      have hspec := putc_spec hservice cur hin.x hin.y c
      have hview : (d.putc service cur c).view cur service = (d.view cur service).putc c := by
        apply Screen.ext
        · exact hspec.page
        · simp [view, hspec.termCursorX]
        · simp [view, hspec.termCursorY]
      have hrest := ih (d := d.putc service cur c)
        (hview ▸ Screen.putc_in_bounds hin c)
      rw [hview] at hrest
      exact hrest

end Display

namespace Devices

/-- The screen is rows `k` to `k + 24` of the page with `k = max 0 (row - 24)` for the row of the
head, and the cursor is where the head is. -/
structure ShowsEnd (s : Screen) (page : Sheet UInt8) : Prop where
  chars : ∀ row col, row < 25 → col < 80 →
    charAt s.page row col = page.cell (page.y - 24 + row) col
  x : s.x = page.x
  y : s.y = page.y - (page.y - 24)

/-- `terminal_write` shows the end of the page that its bytes are written on. -/
theorem terminalWrite_shows (d : Devices) (buf : List UInt8)
    (hservice : d.term.termInService < 3) (hx : (d.screenOf d.term.termInService).x < 80)
    (hy : (d.screenOf d.term.termInService).y < 25) :
    ShowsEnd ((d.terminalWrite buf).screenOf d.term.termInService)
      (writeSheet (d.screenOf d.term.termInService).unbounded buf) := by
  have hview : (d.terminalWrite buf).screenOf d.term.termInService =
      buf.foldl Screen.putc (d.screenOf d.term.termInService) := by
    show (d.puts buf).screenOf d.term.termInService = _
    rw [screenOf, puts_disp, puts_term]
    exact Display.puts_view_service hservice buf ⟨Nat.le_of_lt_succ hx, Nat.le_of_lt_succ hy⟩
  have hwindow := Screen.puts_window (Screen.unbounded_shows hx hy) buf
  rw [← hview] at hwindow
  have hrow := Window.row hwindow
  refine ⟨Window.cells hwindow, Window.column hwindow, ?_⟩
  simp only [Sheet.firstRow] at hrow
  omega

/-- From boot, 30 lines: the last one wraps. -/
theorem terminalWrite_shows_boot :
    ShowsEnd (((boot fun _ => 0).terminalWrite
        (List.replicate 29 10 ++ List.replicate 81 65)).screenOf 0)
      (writeSheet ((boot fun _ => 0).screenOf 0).unbounded
        (List.replicate 29 10 ++ List.replicate 81 65)) :=
  terminalWrite_shows (boot fun _ => 0) _ (by decide) (by decide) (by decide)

end Devices

end Ece391Kernel
