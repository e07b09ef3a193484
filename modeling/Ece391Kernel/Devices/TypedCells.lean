import Ece391Kernel.Devices.Keystrokes

/-!
# Typed cells and what is ahead of them

The cells of a typed line are consecutive, apart from the last column, which keys never fill. While
nothing but keys and `terminal_write` has drawn on a cleared screen, every cell ahead of the cursor
is blank: `putc_ahead` and `newLine_ahead` for the operations that move the cursor.
-/

namespace Ece391Kernel

/-! ## The cells of a typed line -/

/-- The cells typed from cell `base` on, without the last column, the last one first. -/
def typedCells (base : Int) : Nat → List Int
  | 0 => []
  | n + 1 => if (base + n) % 80 = 79 then typedCells base n else (base + n) :: typedCells base n

theorem typedCells_last_column {base : Int} {n : Nat} (h : (base + n) % 80 = 79) :
    typedCells base (n + 1) = typedCells base n :=
  if_pos h

theorem typedCells_succ {base : Int} {n : Nat} (h : (base + n) % 80 ≠ 79) :
    typedCells base (n + 1) = (base + n) :: typedCells base n :=
  if_neg h

/-- A scroll moves all cells up a row. -/
theorem typedCells_scroll (base : Int) (n : Nat) :
    (typedCells base n).map (fun cell : Int => cell - numCols) = typedCells (base - numCols) n := by
  induction n with
  | zero => rfl
  | succ n ih =>
      have hcol : (base - numCols + n) % 80 = (base + n) % 80 := by
        simp only [numCols]
        omega
      by_cases h : (base + n) % 80 = 79
      · rw [typedCells_last_column h, typedCells_last_column (hcol.trans h), ih]
      · have hcell : base + n - numCols = base - numCols + n := by omega
        rw [typedCells_succ h, typedCells_succ (hcol ▸ h), List.map_cons, ih, hcell]

theorem mem_typedCells {base cell : Int} {n : Nat} :
    cell ∈ typedCells base n ↔ base ≤ cell ∧ cell < base + n ∧ cell % 80 ≠ 79 := by
  induction n with
  | zero =>
      refine iff_of_false List.not_mem_nil fun h => ?_
      omega
  | succ n ih =>
      by_cases h : (base + n) % 80 = 79
      · rw [typedCells_last_column h, ih]
        omega
      · rw [typedCells_succ h, List.mem_cons, ih]
        omega

/-- The last typed cells are the ones from cell `base` to before cell `next`. -/
def TypedTo (pending : List Int) (base next : Int) : Prop :=
  ∃ (n : Nat) (rest : List Int), next = base + n ∧ pending = typedCells base n ++ rest

/-- The typed cells after a cell has been blanked. -/
def erasedCells (pending : List Int) (cell : Int) : List Int :=
  if pending.head? = some cell then pending.tail else pending

namespace TypedTo

variable {pending : List Int} {base next : Int}

theorem empty (pending : List Int) (base : Int) : TypedTo pending base base :=
  ⟨0, pending, (Int.add_zero base).symm, rfl⟩

theorem le (h : TypedTo pending base next) : base ≤ next := by
  obtain ⟨n, rest, rfl, rfl⟩ := h
  omega

/-- Some character is typed unless the line is empty. -/
theorem ne_nil (h : TypedTo pending base next) (hbase : base % 80 ≠ 79) (hlt : base < next) :
    pending ≠ [] := by
  obtain ⟨n, rest, rfl, rfl⟩ := h
  have hmem : base ∈ typedCells base n := mem_typedCells.2 ⟨Int.le_refl base, hlt, hbase⟩
  exact List.append_ne_nil_of_left_ne_nil (List.ne_nil_of_mem hmem) rest

/-- Typing in a cell that is not in the last column. -/
theorem type (h : TypedTo pending base next) (hcol : next % 80 ≠ 79) :
    TypedTo (next :: pending) base (next + 1) := by
  obtain ⟨n, rest, rfl, rfl⟩ := h
  refine ⟨n + 1, rest, by omega, ?_⟩
  rw [typedCells_succ hcol]
  rfl

/-- Nothing is typed in the last column. -/
theorem skip (h : TypedTo pending base next) (hcol : next % 80 = 79) :
    TypedTo pending base (next + 1) := by
  obtain ⟨n, rest, rfl, rfl⟩ := h
  refine ⟨n + 1, rest, by omega, ?_⟩
  rw [typedCells_last_column hcol]

theorem scroll (h : TypedTo pending base next) :
    TypedTo (pending.map fun cell => cell - numCols) (base - numCols) (next - numCols) := by
  obtain ⟨n, rest, rfl, rfl⟩ := h
  refine ⟨n, rest.map fun cell => cell - numCols, by omega, ?_⟩
  rw [List.map_append, typedCells_scroll]

/-- The cell before the next one is the last typed one, or in the last column. -/
theorem head (h : TypedTo pending base next) (hlt : base < next) (hcol : (next - 1) % 80 ≠ 79) :
    pending.head? = some (next - 1) := by
  obtain ⟨n, rest, rfl, rfl⟩ := h
  obtain ⟨m, rfl⟩ : ∃ m, n = m + 1 := Nat.exists_eq_succ_of_ne_zero (by omega)
  have hcell : base + (m + 1 : Nat) - 1 = base + m := by omega
  rw [hcell] at hcol ⊢
  rw [typedCells_succ hcol]
  rfl

/-- Blanking a cell that is none of the last typed ones leaves those alone. -/
theorem erase_behind (h : TypedTo pending base next) {cell : Int}
    (hcell : next ≤ cell ∨ cell % 80 = 79) : TypedTo (erasedCells pending cell) base next := by
  obtain ⟨n, rest, rfl, rfl⟩ := h
  unfold erasedCells
  cases htyped : typedCells base n with
  | nil =>
      split
      · exact ⟨n, rest.tail, rfl, by rw [htyped]; rfl⟩
      · exact ⟨n, rest, rfl, by rw [htyped]⟩
  | cons last cells =>
      have hlast := mem_typedCells.1 (htyped ▸ List.mem_cons_self : last ∈ typedCells base n)
      have hne : ¬ (last :: cells ++ rest).head? = some cell := by
        intro heq
        have hsame : last = cell := Option.some.inj heq
        omega
      rw [if_neg hne]
      exact ⟨n, rest, rfl, by rw [htyped]⟩

/-- Blanking the cell before the next one. -/
theorem erase_last (h : TypedTo pending base next) (hlt : base < next) :
    TypedTo (erasedCells pending (next - 1)) base (next - 1) := by
  by_cases hcol : (next - 1) % 80 = 79
  · refine erase_behind ?_ (.inr hcol)
    obtain ⟨n, rest, rfl, rfl⟩ := h
    obtain ⟨m, rfl⟩ : ∃ m, n = m + 1 := Nat.exists_eq_succ_of_ne_zero (by omega)
    have hcell : base + (m + 1 : Nat) - 1 = base + m := by omega
    rw [hcell] at hcol ⊢
    exact ⟨m, rest, rfl, by rw [typedCells_last_column hcol]⟩
  · rw [erasedCells, if_pos (h.head hlt hcol)]
    obtain ⟨n, rest, rfl, rfl⟩ := h
    obtain ⟨m, rfl⟩ : ∃ m, n = m + 1 := Nat.exists_eq_succ_of_ne_zero (by omega)
    have hcell : base + (m + 1 : Nat) - 1 = base + m := by omega
    rw [hcell] at hcol ⊢
    exact ⟨m, rest, rfl, by rw [typedCells_succ hcol]; rfl⟩

end TypedTo

/-! ## The screen ahead of the cursor -/

/-- The second page is the first one with a character in a cell. -/
structure PutAt (cell : Int) (c : UInt8) (p p' : Page) : Prop where
  char : ∀ i : Nat, i < 2000 → p' (2 * i) = if cell = i then c else p (2 * i)
  attr : ∀ i : Nat, i < 2000 → p' (2 * i + 1) = if cell = i then attrib else p (2 * i + 1)

theorem PutAt.attrib {cell : Int} {c : UInt8} {p p' : Page} (h : PutAt cell c p p') {i : Nat}
    (hattr : p (2 * i + 1) = attrib) (hi : i < 2000) : p' (2 * i + 1) = attrib := by
  rw [h.attr i hi, hattr, ite_self]

/-- All cells have the same attributes; from cell `next` on, and in the last column from cell
`base` on, there are only blanks. -/
structure BlankFrom (p : Page) (base next : Int) : Prop where
  attr : ∀ i : Nat, i < 2000 → p (2 * i + 1) = attrib
  char : ∀ i : Nat, i < 2000 → base ≤ i → next ≤ i ∨ i % 80 = 79 → p (2 * i) = blank

namespace BlankFrom

variable {p p' : Page} {base next cell : Int}

/-- What is ahead of a cell is blank. -/
theorem ahead (h : BlankFrom p base next) (hbase : base ≤ cell) (hnext : next ≤ cell) :
    BlankFrom p cell cell :=
  ⟨h.attr, fun i hi hle _ => h.char i hi (by omega) (.inl (by omega))⟩

/-- Skipping cells. -/
theorem mono {next' : Int} (h : BlankFrom p base next) (hnext : next ≤ next') :
    BlankFrom p base next' :=
  ⟨h.attr, fun i hi hbase hahead => h.char i hi hbase (by omega)⟩

/-- Typing in the next cell. -/
theorem type {c : UInt8} (h : BlankFrom p base next) (hput : PutAt next c p p')
    (hcol : next % 80 ≠ 79) : BlankFrom p' base (next + 1) := by
  constructor
  · exact fun i hi => hput.attrib (h.attr i hi) hi
  · intro i hi hbase hahead
    rw [hput.char i hi, if_neg (by omega)]
    exact h.char i hi hbase (by omega)

/-- Printing in the next cell, when only what is ahead matters. -/
theorem typeAhead {c : UInt8} (h : BlankFrom p next next) (hput : PutAt next c p p') :
    BlankFrom p' (next + 1) (next + 1) := by
  constructor
  · exact fun i hi => hput.attrib (h.attr i hi) hi
  · intro i hi hbase _
    rw [hput.char i hi, if_neg (by omega)]
    exact h.char i hi (by omega) (.inl (by omega))

/-- Blanking the last cell or the next one. -/
theorem erase (h : BlankFrom p base next) (hput : PutAt cell blank p p') (hnext : next ≤ cell + 1) :
    BlankFrom p' base cell := by
  constructor
  · exact fun i hi => hput.attrib (h.attr i hi) hi
  · intro i hi hbase hahead
    rw [hput.char i hi]
    split
    · rfl
    · exact h.char i hi hbase (by omega)

theorem scroll (h : BlankFrom p base next) :
    BlankFrom (scrollPage p) (base - numCols) (next - numCols) := by
  simp only [numCols]
  constructor
  · intro i hi
    unfold scrollPage
    have hodd : ¬ (2 * i + 1) % 2 = 0 := by omega
    rw [if_neg hodd, if_neg hodd]
    split_ifs with hrow
    · exact h.attr i hi
    · rfl
    · omega
  · intro i hi hbase hahead
    have hcell : 2 * i + 160 = 2 * (i + 80) := by omega
    unfold scrollPage
    by_cases hrow : 2 * i < 3840
    · rw [if_pos hrow, if_pos (by omega), hcell]
      exact h.char (i + 80) (by omega) (by omega) (by omega)
    · rw [if_neg hrow, if_pos (by omega), if_pos (by omega)]

end BlankFrom

/-! ## Printing on the grid -/

namespace Display

variable {d : Display} {term : Nat}

/-- The shared coordinates are on the screen, or right behind the end of a row. -/
structure OnGrid (d : Display) : Prop where
  xLo : 0 ≤ d.screenX
  xHi : d.screenX ≤ 80
  yLo : 0 ≤ d.screenY
  yHi : d.screenY ≤ 24
  edge : d.screenX = 80 → d.screenY ≤ 23

/-- The cell at the shared coordinates. -/
def nextCell (d : Display) : Int := numCols * d.screenY + d.screenX

/-- VGA memory. -/
def vga (d : Display) : Page := d.video.page vimMemIndex

theorem onGrid_moveTo {y : Int} (hy : 0 ≤ y) (hy' : y ≤ 24) : (d.moveTo term 0 y).OnGrid := by
  refine ⟨Int.le_refl 0, ?_, hy, hy', fun hedge => ?_⟩
  · show (0 : Int) ≤ 80
    omega
  · cases hedge

theorem AtCursor.wrapBeforePrint (h : d.AtCursor term) :
    (d.wrapBeforePrint term).AtCursor term := by
  unfold Display.wrapBeforePrint
  split_ifs
  · exact atCursor_moveTo
  · exact atCursor_moveTo
  · exact h

/-- Once it has wrapped, a key is not in the last column. -/
theorem wrapBeforePrint_screenX : (d.wrapBeforePrint term).screenX ≠ numCols - 1 ∧
    (numCols - 1 ≤ (d.wrapBeforePrint term).screenX → numCols - 1 ≤ d.screenX) := by
  unfold Display.wrapBeforePrint
  split_ifs with hx hy
  · refine ⟨fun h => ?_, fun _ => Int.le_of_eq hx.symm⟩
    cases h
  · refine ⟨fun h => ?_, fun _ => Int.le_of_eq hx.symm⟩
    cases h
  · exact ⟨hx, id⟩

theorem putCell_putAt (hframe : frameOf d.video.pageTableVid0 = vimMemIndex) (x y : Int)
    (c : UInt8) : PutAt (numCols * y + x) c d.vga
      (({ d with video := d.video.putCell x y c } : Display).vga) :=
  ⟨fun _ hi => (Video.putCell_page hframe x y c hi).1,
    fun _ hi => (Video.putCell_page hframe x y c hi).2⟩

theorem i32_u32 {x : Int} (hx : 0 ≤ x) (hx' : x ≤ 80) : i32 (u32 x) = x := by
  have hu : u32 x = x.toNat := by
    simp only [u32]
    omega
  rw [hu, i32_of_lt (by omega)]
  omega

/-- What printing a byte makes of VGA memory and of the coordinates. -/
inductive PutcGrid (p : Page) (x y : Int) (c : UInt8) : Page → Int → Int → Prop where
  | lineScroll : isNewline c = true → y = 24 → PutcGrid p x y c (scrollPage p) 0 24
  | line : isNewline c = true → y ≠ 24 → PutcGrid p x y c p 0 (y + 1)
  | charScroll (p' : Page) : isNewline c = false → x = 79 ∧ y = 24 →
      PutAt (numCols * y + x) c p p' → PutcGrid p x y c (scrollPage p') 0 24
  | char (p' : Page) : isNewline c = false → ¬ (x = 79 ∧ y = 24) →
      PutAt (numCols * y + x) c p p' →
      PutcGrid p x y c p' ((x + 1) % 80) (if 79 ≤ x then y + 1 else y)

/-- The cell write of `putc` for a character, from a column on the grid. -/
theorem putcWrite_char {c : UInt8} (hx : 0 ≤ d.screenX) (hc : isNewline c = false) :
    d.putcWrite c =
      (decide (24 < if 79 ≤ d.screenX then d.screenY + 1 else d.screenY),
        { d with
          video := d.video.putCell d.screenX d.screenY c
          screenX := (d.screenX + 1) % 80
          screenY := if 79 ≤ d.screenX then d.screenY + 1 else d.screenY }) := by
  have hno : ¬ isNewline c = true := Bool.eq_false_iff.1 hc
  have hcol : (d.screenX + 1).tmod numCols = (d.screenX + 1) % 80 :=
    Int.tmod_eq_emod_of_nonneg (by omega)
  have hcarry : ((d.screenX + 1) % 80).tdiv numCols = 0 := by
    rw [Int.tdiv_eq_ediv_of_nonneg (by omega)]
    simp only [numCols]
    omega
  have hrow : (if (numCols : Int) - 1 < d.screenX + 1 then d.screenY + 1 else d.screenY) =
      if 79 ≤ d.screenX then d.screenY + 1 else d.screenY := by
    simp only [numCols]
    split_ifs <;> omega
  simp only [putcWrite, if_neg hno, hcol, hcarry, hrow, Int.add_zero]
  rfl

/-- The cell write and the scroll of `putc`, from coordinates on the grid. -/
theorem putcBody_grid (h : d.OnGrid) (hframe : frameOf d.video.pageTableVid0 = vimMemIndex)
    (c : UInt8) : PutcGrid d.vga d.screenX d.screenY c (d.putcBody c).vga (d.putcBody c).screenX
      (d.putcBody c).screenY := by
  obtain ⟨hxLo, hxHi, hyLo, hyHi, hedge⟩ := h
  unfold putcBody
  by_cases hc : isNewline c = true
  · by_cases hlast : d.screenY = numRows - 1
    · have hwrite : d.putcWrite c = (true, d) := by rw [putcWrite, if_pos hc, if_pos hlast]
      have hscroll : (d.putcScroll c).vga = scrollPage d.vga := by
        show (d.putcScroll c).video.page vimMemIndex = _
        rw [putcScroll_video]
        exact Video.scroll_page hframe
      have hrow : (d.putcScroll c).screenY = 24 := by
        rw [putcScroll, if_pos hc]
        exact hlast
      rw [hwrite, if_pos rfl, hscroll, putcScroll_screenX, hrow]
      exact .lineScroll hc hlast
    · have hwrite : d.putcWrite c = (false, d.setScreenCoords 0 (d.screenY + 1)) := by
        rw [putcWrite, if_pos hc, if_neg hlast]
      rw [hwrite, if_neg Bool.false_ne_true]
      exact .line hc hlast
  · have hput := putCell_putAt hframe d.screenX d.screenY c
    have hnew : isNewline c = false := Bool.eq_false_iff.2 hc
    have hwrite := putcWrite_char (d := d) hxLo hnew
    rw [hwrite]
    -- From column 80 of a row above the last one, the character goes to the next row.
    by_cases hfull : d.screenX = 79 ∧ d.screenY = 24
    · have hdue : 24 < if 79 ≤ d.screenX then d.screenY + 1 else d.screenY := by
        split_ifs <;> omega
      simp only [hdue, decide_true, if_true]
      generalize hd' : ({ d with
        video := d.video.putCell d.screenX d.screenY c
        screenX := (d.screenX + 1) % 80
        screenY := if 79 ≤ d.screenX then d.screenY + 1 else d.screenY } : Display) = d'
      have hframe' : frameOf d'.video.pageTableVid0 = vimMemIndex := hd' ▸ hframe
      have hscroll : (d'.putcScroll c).vga = scrollPage d'.vga := by
        show (d'.putcScroll c).video.page vimMemIndex = _
        rw [putcScroll_video]
        exact Video.scroll_page hframe'
      have hrow24 : (d'.putcScroll c).screenY = 24 := by
        rw [putcScroll, if_neg hc]
        rfl
      rw [hscroll, putcScroll_screenX, hrow24]
      exact .charScroll _ hnew hfull (hd' ▸ hput)
    · have hdue : ¬ 24 < if 79 ≤ d.screenX then d.screenY + 1 else d.screenY := by
        split_ifs <;> omega
      simp only [hdue, decide_false, Bool.false_eq_true, if_false]
      exact .char _ hnew hfull hput

theorem cursorCheck_grid (h : d.OnGrid) (hcursor : d.AtCursor term) :
    (d.cursorCheck term term).2.screenX = d.screenX ∧
      (d.cursorCheck term term).2.screenY = d.screenY := by
  have hyHi := h.yHi
  constructor
  · show i32 (d.termCursorX term) = d.screenX
    rw [hcursor.x, i32_u32 h.xLo h.xHi]
  · show i32 (d.termCursorY term) = d.screenY
    rw [hcursor.y, i32_u32 h.yLo (by omega)]

theorem putc_grid (h : d.OnGrid) (hcursor : d.AtCursor term) (c : UInt8) :
    PutcGrid d.vga d.screenX d.screenY c (d.putc term term c).vga (d.putc term term c).screenX
      (d.putc term term c).screenY := by
  obtain ⟨hx, hy⟩ := cursorCheck_grid h hcursor
  have hgrid : (d.cursorCheck term term).2.OnGrid :=
    ⟨hx ▸ h.xLo, hx ▸ h.xHi, hy ▸ h.yLo, hy ▸ h.yHi, hx ▸ hy ▸ h.edge⟩
  have hframe : frameOf (d.cursorCheck term term).2.video.pageTableVid0 = vimMemIndex := by
    show frameOf (vidEntry term term) = vimMemIndex
    rw [vidEntry, if_pos rfl, frameOf_vgaEntry]
  have hvga : (d.putc term term c).vga = ((d.cursorCheck term term).2.putcBody c).vga := by
    rw [putc_eq, vga, putcFinish_video]
    rfl
  have hbody := putcBody_grid hgrid hframe c
  rw [hx, hy] at hbody
  rw [hvga, putc_eq, putcFinish_screenX, putcFinish_screenY]
  exact hbody

/-- Printing stays on the screen, with blanks ahead. -/
theorem PutcGrid.ahead {p p' : Page} {x y x' y' : Int} {c : UInt8}
    (h : PutcGrid p x y c p' x' y') (hx : 0 ≤ x) (hx' : x ≤ 80) (hy : 0 ≤ y) (hy' : y ≤ 24)
    (hedge : x = 80 → y ≤ 23) (hblank : BlankFrom p (numCols * y + x) (numCols * y + x)) :
    (0 ≤ x' ∧ x' ≤ 79 ∧ 0 ≤ y' ∧ y' ≤ 24) ∧
      BlankFrom p' (numCols * y' + x') (numCols * y' + x') := by
  cases h with
  | lineScroll _ hrow =>
      refine ⟨by omega, hblank.scroll.ahead ?_ ?_⟩ <;>
        simp only [numCols] <;>
        omega
  | line _ hrow =>
      refine ⟨by omega, hblank.ahead ?_ ?_⟩ <;>
        simp only [numCols] <;>
        omega
  | charScroll p' _ hlast hput =>
      refine ⟨by omega, (hblank.typeAhead hput).scroll.ahead ?_ ?_⟩ <;>
        simp only [numCols] <;>
        omega
  | char p' _ hlast hput =>
      have hcell : numCols * (if 79 ≤ x then y + 1 else y) + (x + 1) % 80 =
          numCols * y + x + 1 := by
        simp only [numCols]
        split_ifs <;> omega
      refine ⟨?_, ?_⟩
      · split_ifs <;> omega
      · rw [hcell]
        exact hblank.typeAhead hput

theorem putc_ahead (h : d.OnGrid) (hcursor : d.AtCursor term)
    (hblank : BlankFrom d.vga d.nextCell d.nextCell) (c : UInt8) :
    (d.putc term term c).OnGrid ∧
      BlankFrom (d.putc term term c).vga (d.putc term term c).nextCell
        (d.putc term term c).nextCell := by
  obtain ⟨⟨hxLo, hxHi, hyLo, hyHi⟩, hblank'⟩ :=
    (putc_grid h hcursor c).ahead h.xLo h.xHi h.yLo h.yHi h.edge hblank
  exact ⟨⟨hxLo, by omega, hyLo, hyHi, fun hedge => by omega⟩, hblank'⟩

theorem puts_ahead (h : d.OnGrid) (hcursor : d.AtCursor term)
    (hblank : BlankFrom d.vga d.nextCell d.nextCell) (s : List UInt8) :
    (d.puts term term s).OnGrid ∧
      BlankFrom (d.puts term term s).vga (d.puts term term s).nextCell
        (d.puts term term s).nextCell := by
  induction s generalizing d with
  | nil => exact ⟨h, hblank⟩
  | cons c s ih =>
      obtain ⟨hgrid, hblank'⟩ := putc_ahead h hcursor hblank c
      exact ih hgrid atCursor_putc hblank'

/-- Enter goes to a new row, with blanks ahead. -/
theorem newLine_ahead (h : d.OnGrid) (hcursor : d.AtCursor term)
    (hframe : frameOf d.video.pageTableVid0 = vimMemIndex)
    (hblank : BlankFrom d.vga d.nextCell d.nextCell) :
    (d.newLine term).screenX = 0 ∧ (d.newLine term).OnGrid ∧
      BlankFrom (d.newLine term).vga (d.newLine term).nextCell (d.newLine term).nextCell := by
  have hxHi := h.xHi
  have hyLo := h.yLo
  have hyHi := h.yHi
  have hrow : i32 (d.termCursorY term) = d.screenY := by rw [hcursor.y, i32_u32 hyLo (by omega)]
  unfold newLine
  rw [hrow]
  by_cases hlast : d.screenY = numRows - 1
  · have hnext : d.nextCell - numCols ≤ numCols * d.screenY + 0 := by
      simp only [nextCell, numCols, numRows] at hlast ⊢
      have hedge := h.edge
      omega
    have hscroll : (d.scroll.moveTo term 0 d.screenY).vga = scrollPage d.vga :=
      Video.scroll_page hframe
    rw [if_pos hlast]
    refine ⟨rfl, onGrid_moveTo hyLo hyHi, ?_⟩
    rw [hscroll]
    exact hblank.scroll.ahead hnext hnext
  · have hnext : d.nextCell ≤ numCols * (d.screenY + 1) + 0 := by
      simp only [nextCell, numCols]
      omega
    have hrow : d.screenY + 1 ≤ 24 := by
      simp only [numRows] at hlast
      omega
    rw [if_neg hlast]
    exact ⟨rfl, onGrid_moveTo (by omega) hrow, hblank.ahead hnext hnext⟩

end Display

end Ece391Kernel
