import Ece391Kernel.Devices.Erasing
import Ece391Kernel.Devices.SentLines

/-!
# What a keystroke takes from the other terminals

A printable key and Backspace read `screen_x` and `screen_y`, which belong to whichever terminal
printed last, and Backspace also reads where that terminal's output ended. Enter reads only the
cursor of the displayed terminal. `keystroke_same_iff` compares one keystroke in two reachable
states that look the same to the user of the displayed terminal.
-/

namespace Ece391Kernel

open Transition

/-! ## Displays that draw alike -/

namespace Video

theorem store_page_congr {v w : Video} (hpage : v.page vimMemIndex = w.page vimMemIndex)
    (hv : frameOf v.pageTableVid0 = vimMemIndex) (hw : frameOf w.pageTableVid0 = vimMemIndex)
    (off : Int) (b : UInt8) :
    (v.store off b).page vimMemIndex = (w.store off b).page vimMemIndex := by
  funext r
  by_cases hr : r < fourKb
  · rw [store_page hv off b hr, store_page hw off b hr, hpage]
  · simp only [page, if_neg hr]

theorem scroll_page {v : Video} (hv : frameOf v.pageTableVid0 = vimMemIndex) :
    v.scroll.page vimMemIndex = scrollPage (v.page vimMemIndex) := by
  rw [(scroll_acts v).page vimMemIndex (by decide), if_pos hv.symm]

end Video

/-- Writing the first cell of the last row leaves every other byte alone. -/
theorem putCellPage_last_row {r : Nat} (hchar : r ≠ 3840) (hattrib : r ≠ 3841) (c : UInt8)
    (p : Page) : putCellPage 0 24 c p r = p r := by
  show Function.update (Function.update p 3840 c) 3841 attrib r = p r
  rw [Function.update_of_ne hattrib, Function.update_of_ne hchar]

namespace Screen

variable {s t : Screen} {c : UInt8}

/-- Printing in the first column. -/
theorem putc_of_first_column (hx : s.x = 0) (hy : s.y ≤ 24) (hc : isNewline c = false) :
    s.putc c = ⟨putCellPage 0 s.y c s.page, 1, s.y⟩ := by
  have hrow : nextY s.x s.y c = s.y := by simp [nextY, hc, hx]
  have hcol : nextX s.x c = 1 := by simp [nextX, hc, hx]
  rw [putc_of_ne (by omega), hrow, hcol, writePage, hc, hx]
  rfl

/-- Only printing in the first column leads to the second one. -/
theorem first_column_of_putc (hx : s.x ≤ 79) (hc : isNewline c = false) (h : (s.putc c).x = 1) :
    s.x = 0 := by
  by_cases hlast : nextY s.x s.y c = 25
  · rw [putc_of_eq hlast] at h
    cases h
  · rw [putc_of_ne hlast] at h
    simp only [nextX, hc, numCols, Bool.false_eq_true, if_false] at h
    omega

/-- A character printed in the first column comes out the same only there, and only on a screen
that differs in no other cell. -/
theorem eq_of_putc (hx : s.x = 0) (hy : s.y ≤ 24) (ht : t.InBounds) (hc : isNewline c = false)
    (h : s.putc c = t.putc c) :
    t.x = 0 ∧ t.y = s.y ∧ putCellPage 0 s.y c s.page = putCellPage 0 s.y c t.page := by
  have hs := putc_of_first_column hx hy hc
  have htx : t.x = 0 := first_column_of_putc ht.x hc (by rw [← h, hs])
  have htputc := putc_of_first_column htx ht.y hc
  rw [hs, htputc] at h
  obtain ⟨hpage, -, hrow⟩ := Screen.mk.inj h
  rw [← hrow] at hpage
  exact ⟨htx, hrow.symm, hpage⟩

end Screen

namespace Display

/-- What Enter does to the display. -/
def newLine (d : Display) (term : Nat) : Display :=
  if i32 (d.termCursorY term) = numRows - 1 then d.scroll.moveTo term 0 (i32 (d.termCursorY term))
  else d.moveTo term 0 (i32 (d.termCursorY term) + 1)

/-- Two displays that show the same screen and cursor while `term` is displayed. -/
structure SameShown (term : Nat) (a b : Display) : Prop where
  page : a.video.page vimMemIndex = b.video.page vimMemIndex
  cursorX : a.termCursorX term = b.termCursorX term
  cursorY : a.termCursorY term = b.termCursorY term

/-- VGA memory is mapped on both displays. -/
structure BothMapped (a b : Display) : Prop where
  left : frameOf a.video.pageTableVid0 = vimMemIndex
  right : frameOf b.video.pageTableVid0 = vimMemIndex

/-- Both displays have VGA memory mapped, show the same, and agree on the shared coordinates, so
whatever is drawn next comes out the same. -/
structure Alike (term : Nat) (a b : Display) : Prop where
  shown : SameShown term a b
  mapped : BothMapped a b
  x : a.screenX = b.screenX
  y : a.screenY = b.screenY

variable {a b : Display} {term : Nat}

theorem SameShown.scroll (h : SameShown term a b) (hm : BothMapped a b) :
    SameShown term a.scroll b.scroll := by
  refine ⟨?_, h.cursorX, h.cursorY⟩
  show a.video.scroll.page vimMemIndex = b.video.scroll.page vimMemIndex
  rw [Video.scroll_page hm.left, Video.scroll_page hm.right, h.page]

theorem BothMapped.scroll (hm : BothMapped a b) : BothMapped a.scroll b.scroll := by
  constructor
  · show frameOf a.video.scroll.pageTableVid0 = vimMemIndex
    rw [(Video.scroll_acts a.video).entry]
    exact hm.left
  · show frameOf b.video.scroll.pageTableVid0 = vimMemIndex
    rw [(Video.scroll_acts b.video).entry]
    exact hm.right

theorem SameShown.moveTo (h : SameShown term a b) (hm : BothMapped a b) (x y : Int) :
    Alike term (a.moveTo term x y) (b.moveTo term x y) := by
  refine ⟨⟨h.page, ?_, ?_⟩, ⟨hm.left, hm.right⟩, rfl, rfl⟩
  · exact (atCursor_moveTo (d := a)).x.trans (atCursor_moveTo (d := b)).x.symm
  · exact (atCursor_moveTo (d := a)).y.trans (atCursor_moveTo (d := b)).y.symm

theorem Alike.putCell (h : Alike term a b) (x y : Int) (c : UInt8) :
    Alike term { a with video := a.video.putCell x y c }
      { b with video := b.video.putCell x y c } := by
  refine ⟨⟨?_, h.shown.cursorX, h.shown.cursorY⟩, ⟨h.mapped.left, h.mapped.right⟩, h.x, h.y⟩
  have hfirst := Video.store_page_congr h.shown.page h.mapped.left h.mapped.right
    (Video.cellOffset x y) c
  exact Video.store_page_congr hfirst h.mapped.left h.mapped.right _ attrib

theorem Alike.setScreenCoords (h : Alike term a b) (x y : Int) :
    Alike term (a.setScreenCoords x y) (b.setScreenCoords x y) :=
  ⟨⟨h.shown.page, h.shown.cursorX, h.shown.cursorY⟩, ⟨h.mapped.left, h.mapped.right⟩, rfl, rfl⟩

theorem Alike.clearChar (h : Alike term a b) : Alike term a.clearChar b.clearChar := by
  have hput := h.putCell a.screenX a.screenY blank
  refine ⟨⟨?_, h.shown.cursorX, h.shown.cursorY⟩, ⟨h.mapped.left, h.mapped.right⟩, h.x, h.y⟩
  show (a.video.putCell a.screenX a.screenY blank).page vimMemIndex =
    (b.video.putCell b.screenX b.screenY blank).page vimMemIndex
  rw [← h.x, ← h.y]
  exact hput.shown.page

theorem SameShown.cursorCheck (h : SameShown term a b) :
    Alike term (a.cursorCheck term term).2 (b.cursorCheck term term).2 := by
  have hframe : frameOf (vidEntry term term) = vimMemIndex := by
    rw [vidEntry, if_pos rfl]
    exact frameOf_vgaEntry
  refine ⟨⟨h.page, h.cursorX, h.cursorY⟩, ⟨hframe, hframe⟩, ?_, ?_⟩
  · exact congrArg i32 h.cursorX
  · exact congrArg i32 h.cursorY

theorem Alike.putcWrite (h : Alike term a b) (c : UInt8) :
    (a.putcWrite c).1 = (b.putcWrite c).1 ∧ Alike term (a.putcWrite c).2 (b.putcWrite c).2 := by
  have hput := h.putCell a.screenX a.screenY c
  unfold Display.putcWrite
  rw [← h.x, ← h.y]
  split_ifs
  · exact ⟨rfl, h⟩
  · exact ⟨rfl, h.setScreenCoords _ _⟩
  · exact ⟨rfl, ⟨hput.shown.page, h.shown.cursorX, h.shown.cursorY⟩,
      ⟨hput.mapped.left, hput.mapped.right⟩, rfl, rfl⟩

theorem Alike.scroll (h : Alike term a b) : Alike term a.scroll b.scroll :=
  ⟨h.shown.scroll h.mapped, h.mapped.scroll, h.x, h.y⟩

theorem Alike.putcBody (h : Alike term a b) (c : UInt8) :
    Alike term (a.putcBody c) (b.putcBody c) := by
  obtain ⟨hfull, hwrite⟩ := h.putcWrite c
  unfold Display.putcBody Display.putcScroll
  rw [hfull, ← hwrite.y]
  split_ifs
  · exact hwrite.scroll.setScreenCoords _ _
  · exact hwrite.scroll.setScreenCoords _ _
  · exact hwrite

theorem Alike.putcFinish (h : Alike term a b) (flag : Bool) :
    Alike term (a.putcFinish term flag) (b.putcFinish term flag) := by
  refine ⟨⟨?_, ?_, ?_⟩, ⟨?_, ?_⟩, ?_, ?_⟩
  · simpa only [putcFinish_video] using h.shown.page
  · simp only [putcFinish_termCursorX, Function.update_self, h.x]
  · simp only [putcFinish_termCursorY, Function.update_self, h.y]
  · simpa only [putcFinish_video] using h.mapped.left
  · simpa only [putcFinish_video] using h.mapped.right
  · simpa only [putcFinish_screenX] using h.x
  · simpa only [putcFinish_screenY] using h.y

/-- Printing for the displayed terminal depends on nothing but what it shows. -/
theorem SameShown.putc (h : SameShown term a b) (c : UInt8) :
    Alike term (a.putc term term c) (b.putc term term c) := by
  rw [putc_eq, putc_eq]
  exact (h.cursorCheck.putcBody c).putcFinish _

/-- So does Enter. -/
theorem SameShown.newLine (h : SameShown term a b) (hm : BothMapped a b) :
    Alike term (a.newLine term) (b.newLine term) := by
  unfold Display.newLine
  rw [← h.cursorY]
  split_ifs
  · exact (h.scroll hm).moveTo hm.scroll _ _
  · exact h.moveTo hm _ _

/-! ## The text cursor -/

/-- The text cursor is at the shared coordinates. -/
def CaretAt (d : Display) : Prop :=
  d.vgaCursor = u32 (d.screenY * numCols + d.screenX) % 0x10000

theorem caretAt_putc {d : Display} (c : UInt8) : (d.putc term term c).CaretAt := by
  have hflag : (d.cursorCheck term term).1 = true := decide_eq_true rfl
  rw [putc_eq, hflag]
  rfl

theorem caretAt_newLine {d : Display} : (d.newLine term).CaretAt := by
  unfold newLine
  split <;> rfl

theorem Alike.caret (h : Alike term a b) (ha : a.CaretAt) (hb : b.CaretAt) :
    a.vgaCursor = b.vgaCursor := by
  rw [ha, hb, h.x, h.y]

/-! ## Printable keys -/

/-- The cursor that a printable key prints at: the next row when the shared column is the last
one, and the cursor of the displayed terminal otherwise. -/
def printPlace (d : Display) (term : Nat) : Nat × Nat :=
  if d.screenX = numCols - 1 then
    (0, u32 (if d.screenY = numRows - 1 then d.screenY else d.screenY + 1))
  else (d.termCursorX term, d.termCursorY term)

/-- A printable key scrolls first when the shared coordinates are the last cell. -/
def ScrollsFirst (d : Display) : Prop := d.screenX = numCols - 1 ∧ d.screenY = numRows - 1

instance (d : Display) : Decidable d.ScrollsFirst :=
  inferInstanceAs (Decidable (d.screenX = numCols - 1 ∧ d.screenY = numRows - 1))

/-- Scrolling changes no byte but those of the first cell of the last row. -/
def ScrollStable (p : Page) : Prop := ∀ r, r ≠ 3840 → r ≠ 3841 → scrollPage p r = p r

/-- A printable key prints at the same cursor, and scrolls on both displays or on neither, unless
scrolling makes no difference. -/
def SamePrint (term : Nat) (a b : Display) : Prop :=
  a.printPlace term = b.printPlace term ∧
    ((a.ScrollsFirst ↔ b.ScrollsFirst) ∨ ScrollStable (a.video.page vimMemIndex))

/-- What a printable key finds after the line has wrapped. -/
structure Wrapped (d : Display) (term : Nat) (d' : Display) : Prop where
  page : d'.video.page vimMemIndex =
    if d.ScrollsFirst then scrollPage (d.video.page vimMemIndex) else d.video.page vimMemIndex
  cursorX : d'.termCursorX term = (d.printPlace term).1
  cursorY : d'.termCursorY term = (d.printPlace term).2

theorem wrapBeforePrint_wrapped {d : Display} (term : Nat)
    (hframe : frameOf d.video.pageTableVid0 = vimMemIndex) :
    d.Wrapped term (d.wrapBeforePrint term) := by
  unfold wrapBeforePrint
  by_cases hx : d.screenX = numCols - 1
  · by_cases hy : d.screenY = numRows - 1
    · have hscrolls : d.ScrollsFirst := ⟨hx, hy⟩
      have hplace : d.printPlace term = (0, u32 d.screenY) := by
        rw [printPlace, if_pos hx, if_pos hy]
      rw [if_pos hx, if_pos hy]
      refine ⟨?_, ?_, ?_⟩
      · rw [if_pos hscrolls]
        exact Video.scroll_page hframe
      · rw [hplace]
        exact atCursor_moveTo.x
      · rw [hplace]
        exact atCursor_moveTo.y
    · have hscrolls : ¬ d.ScrollsFirst := fun h => hy h.2
      have hplace : d.printPlace term = (0, u32 (d.screenY + 1)) := by
        rw [printPlace, if_pos hx, if_neg hy]
      rw [if_pos hx, if_neg hy]
      refine ⟨?_, ?_, ?_⟩
      · rw [if_neg hscrolls]
        rfl
      · rw [hplace]
        exact atCursor_moveTo.x
      · rw [hplace]
        exact atCursor_moveTo.y
  · have hscrolls : ¬ d.ScrollsFirst := fun h => hx h.1
    rw [if_neg hx]
    refine ⟨?_, ?_, ?_⟩
    · rw [if_neg hscrolls]
    · rw [printPlace, if_neg hx]
    · rw [printPlace, if_neg hx]

theorem Alike.symm (h : Alike term a b) : Alike term b a :=
  ⟨⟨h.shown.page.symm, h.shown.cursorX.symm, h.shown.cursorY.symm⟩,
    ⟨h.mapped.right, h.mapped.left⟩, h.x.symm, h.y.symm⟩

theorem SameShown.symm (h : SameShown term a b) : SameShown term b a :=
  ⟨h.page.symm, h.cursorX.symm, h.cursorY.symm⟩

/-- From cursors on the screen, printing comes out the same when it does on private screens. -/
theorem alike_of_putc {c : UInt8} (hterm : term < 3)
    (ha : (a.view term term).InBounds) (hb : (b.view term term).InBounds)
    (h : (a.view term term).putc c = (b.view term term).putc c) :
    Alike term (a.putc term term c) (b.putc term term c) := by
  have hbase : screenBase term term = vimMemIndex := if_pos rfl
  have hsa := putc_spec hterm term ha.x ha.y c
  have hsb := putc_spec hterm term hb.x hb.y c
  refine ⟨⟨?_, ?_, ?_⟩, ⟨?_, ?_⟩, ?_, ?_⟩
  · rw [← hbase, hsa.page, hsb.page, h]
  · rw [hsa.termCursorX, hsb.termCursorX, Function.update_self, Function.update_self, h]
  · rw [hsa.termCursorY, hsb.termCursorY, Function.update_self, Function.update_self, h]
  · rw [hsa.entry, frameOf_vidEntry hterm, hbase]
  · rw [hsb.entry, frameOf_vidEntry hterm, hbase]
  · rw [hsa.screenX, hsb.screenX, h]
  · rw [hsa.screenY, hsb.screenY, h]

theorem Wrapped.view {d d' : Display} (h : d.Wrapped term d') :
    d'.view term term = ⟨if d.ScrollsFirst then scrollPage (d.video.page vimMemIndex)
      else d.video.page vimMemIndex, (d.printPlace term).1, (d.printPlace term).2⟩ := by
  have hbase : screenBase term term = vimMemIndex := if_pos rfl
  rw [Display.view, hbase, h.page, h.cursorX, h.cursorY]

theorem printPlace_scrolls {d : Display} (h : d.ScrollsFirst) : d.printPlace term = (0, 24) := by
  rw [printPlace, if_pos h.1, if_pos h.2, h.2]
  rfl

/-- Where scrolling makes no difference, a display that scrolls first prints like one that does
not. -/
theorem print_stable {c : UInt8} (hterm : term < 3) (hc : isNewline c = false)
    (h : SameShown term a b) (hm : BothMapped a b)
    (hplace : a.printPlace term = b.printPlace term) (ha : a.ScrollsFirst) (hb : ¬ b.ScrollsFirst)
    (hstable : ScrollStable (a.video.page vimMemIndex)) :
    Alike term ((a.wrapBeforePrint term).putc term term c)
      ((b.wrapBeforePrint term).putc term term c) := by
  have hva := (wrapBeforePrint_wrapped term hm.left).view
  have hvb := (wrapBeforePrint_wrapped term hm.right).view
  rw [if_pos ha, printPlace_scrolls ha] at hva
  rw [if_neg hb, ← hplace, printPlace_scrolls ha, ← h.page] at hvb
  -- The pages differ in at most the first cell of the last row, where the character goes.
  refine alike_of_putc hterm ?_ ?_ ?_
  · rw [hva]
    exact ⟨Nat.zero_le 79, Nat.le_refl 24⟩
  · rw [hvb]
    exact ⟨Nat.zero_le 79, Nat.le_refl 24⟩
  · rw [hva, hvb, Screen.putc_of_first_column rfl (Nat.le_refl 24) hc,
      Screen.putc_of_first_column rfl (Nat.le_refl 24) hc]
    have hpage : putCellPage 0 24 c (scrollPage (a.video.page vimMemIndex)) =
        putCellPage 0 24 c (a.video.page vimMemIndex) := by
      funext r
      by_cases hchar : r = 3840
      · rw [hchar]
        rfl
      · by_cases hattrib : r = 3841
        · rw [hattrib]
          rfl
        · rw [putCellPage_last_row hchar hattrib, putCellPage_last_row hchar hattrib]
          exact hstable r hchar hattrib
    simp only [hpage]

/-- A printable key comes out the same where it prints at the same cursor. -/
theorem SamePrint.alike {c : UInt8} (hterm : term < 3) (hc : isNewline c = false)
    (h : SameShown term a b) (hm : BothMapped a b) (hsame : SamePrint term a b) :
    Alike term ((a.wrapBeforePrint term).putc term term c)
      ((b.wrapBeforePrint term).putc term term c) := by
  obtain ⟨hplace, hscroll⟩ := hsame
  by_cases hiff : a.ScrollsFirst ↔ b.ScrollsFirst
  · have hwa := wrapBeforePrint_wrapped term hm.left
    have hwb := wrapBeforePrint_wrapped term hm.right
    refine SameShown.putc ⟨?_, ?_, ?_⟩ c
    · rw [hwa.page, hwb.page, h.page]
      simp only [hiff]
    · rw [hwa.cursorX, hwb.cursorX, hplace]
    · rw [hwa.cursorY, hwb.cursorY, hplace]
  · have hstable := hscroll.resolve_left hiff
    by_cases ha : a.ScrollsFirst
    · have hb : ¬ b.ScrollsFirst := fun hb => hiff ⟨fun _ => hb, fun _ => ha⟩
      exact print_stable hterm hc h hm hplace ha hb hstable
    · have hb : b.ScrollsFirst := by
        by_contra hb
        exact hiff ⟨fun h => absurd h ha, fun h => absurd h hb⟩
      exact (print_stable hterm hc h.symm ⟨hm.right, hm.left⟩ hplace.symm hb ha
        (h.page ▸ hstable)).symm

theorem InRange.view (h : a.InRange) (hterm : term < 3) : (a.view term term).InBounds :=
  ⟨(h.cursors term hterm).1, (h.cursors term hterm).2⟩

/-- Where one of two displays prints in the first column, a character comes out the same only if
both print there. -/
theorem samePrint_of_first {c : UInt8} (hc : isNewline c = false) (h : SameShown term a b)
    (hm : BothMapped a b)
    (hwa : ((a.wrapBeforePrint term).view term term).InBounds)
    (hwb : ((b.wrapBeforePrint term).view term term).InBounds) (hfirst : a.screenX = numCols - 1)
    (heq : ((a.wrapBeforePrint term).view term term).putc c =
      ((b.wrapBeforePrint term).view term term).putc c) : SamePrint term a b := by
  have hva := (wrapBeforePrint_wrapped term hm.left).view
  have hvb := (wrapBeforePrint_wrapped term hm.right).view
  have hcol : (a.printPlace term).1 = 0 := by rw [printPlace, if_pos hfirst]
  rw [hva] at hwa heq
  rw [hvb] at hwb heq
  obtain ⟨hx, hy, hpage⟩ := Screen.eq_of_putc hcol hwa.y hwb hc heq
  refine ⟨Prod.ext (hcol.trans hx.symm) hy.symm, ?_⟩
  by_cases hiff : a.ScrollsFirst ↔ b.ScrollsFirst
  · exact .inl hiff
  · refine .inr fun r hchar hattrib => ?_
    -- One display scrolls, so both print in the last row, and the pages differ by a scroll.
    have hrow : (a.printPlace term).2 = 24 := by
      by_cases ha : a.ScrollsFirst
      · rw [printPlace_scrolls ha]
      · have hb : b.ScrollsFirst := by
          by_contra hb
          exact hiff ⟨fun h => absurd h ha, fun h => absurd h hb⟩
        exact hy.symm.trans (by rw [printPlace_scrolls hb])
    simp only [hrow] at hpage
    have hr := congrFun hpage r
    rw [putCellPage_last_row hchar hattrib, putCellPage_last_row hchar hattrib, ← h.page] at hr
    by_cases ha : a.ScrollsFirst
    · have hb : ¬ b.ScrollsFirst := fun hb => hiff ⟨fun _ => hb, fun _ => ha⟩
      rw [if_pos ha, if_neg hb] at hr
      exact hr
    · have hb : b.ScrollsFirst := by
        by_contra hb
        exact hiff ⟨fun h => absurd h ha, fun h => absurd h hb⟩
      rw [if_neg ha, if_pos hb] at hr
      exact hr.symm

theorem SamePrint.symm (h : SameShown term a b) (hsame : SamePrint term a b) :
    SamePrint term b a := by
  refine ⟨hsame.1.symm, ?_⟩
  rcases hsame.2 with hiff | hstable
  · exact .inl hiff.symm
  · exact .inr (h.page ▸ hstable)

/-- On the screen, a printable key comes out the same only where it prints at the same cursor. -/
theorem samePrint_of_shown {c : UInt8} (hterm : term < 3) (hc : isNewline c = false)
    (h : SameShown term a b) (hm : BothMapped a b) (ha : a.InRange) (hb : b.InRange)
    (hout : SameShown term ((a.wrapBeforePrint term).putc term term c)
      ((b.wrapBeforePrint term).putc term term c)) : SamePrint term a b := by
  have hbase : screenBase term term = vimMemIndex := if_pos rfl
  have hwa := ha.wrapBeforePrint term
  have hwb := hb.wrapBeforePrint term
  have heq : ((a.wrapBeforePrint term).view term term).putc c =
      ((b.wrapBeforePrint term).view term term).putc c := by
    have hva := putc_view hterm term hwa.cursors c term
    have hvb := putc_view hterm term hwb.cursors c term
    rw [if_pos rfl] at hva hvb
    rw [← hva, ← hvb, Display.view, Display.view, hbase, hout.page, hout.cursorX, hout.cursorY]
  by_cases hfirst : a.screenX = numCols - 1
  · exact samePrint_of_first hc h hm (hwa.view hterm) (hwb.view hterm) hfirst heq
  · by_cases hfirst' : b.screenX = numCols - 1
    · exact (samePrint_of_first hc h.symm ⟨hm.right, hm.left⟩ (hwb.view hterm) (hwa.view hterm)
        hfirst' heq.symm).symm h.symm
    -- Neither wraps, so neither scrolls first, and both print at the cursor shown.
    · refine ⟨?_, .inl ⟨fun hscroll => absurd hscroll.1 hfirst,
        fun hscroll => absurd hscroll.1 hfirst'⟩⟩
      rw [printPlace, printPlace, if_neg hfirst, if_neg hfirst', h.cursorX, h.cursorY]

end Display

namespace LineState

/-- The same pending line of the same terminal. -/
structure SameLine (l l' : LineState) : Prop where
  buf : ∀ i, i < maxBuf → l.buf i = l'.buf i
  idx : l.idx = l'.idx
  cur : l.cur = l'.cur

variable {l l' : LineState}

theorem SameLine.erase (h : l.SameLine l') : (l.apply .erase).SameLine (l'.apply .erase) := by
  refine ⟨fun i hi => ?_, congrArg (· - 1) h.idx, h.cur⟩
  show Function.update l.buf l.idx.toNat 0 i = Function.update l'.buf l'.idx.toNat 0 i
  rw [h.idx, Function.update_apply, Function.update_apply, h.buf i hi]

theorem SameLine.flush (h : l.SameLine l') : l.flush.SameLine l'.flush := by
  refine ⟨fun i hi => ?_, rfl, h.cur⟩
  simp only [LineState.flush, if_pos hi]

theorem SameLine.enter (h : l.SameLine l') : (l.apply .enter).SameLine (l'.apply .enter) :=
  ⟨h.flush.buf, h.flush.idx, h.cur⟩

theorem SameLine.push (h : l.SameLine l') (c : UInt8) :
    (l.apply (.char c)).SameLine (l'.apply (.char c)) := by
  show (l.push c).SameLine (l'.push c)
  unfold LineState.push
  rw [← h.idx]
  generalize hl : (if 127 < l.idx then l.flush else l) = m
  generalize hl' : (if 127 < l.idx then l'.flush else l') = m'
  have hm : m.SameLine m' := by
    rw [← hl, ← hl']
    split
    · exact h.flush
    · exact h
  refine ⟨fun i hi => ?_, congrArg (· + 1) hm.idx, hm.cur⟩
  show Function.update m.buf m.idx.toNat c i = Function.update m'.buf m'.idx.toNat c i
  rw [hm.idx, Function.update_apply, Function.update_apply, hm.buf i hi]

end LineState

namespace Devices

variable {d : Devices}

/-! ## The display after a keystroke -/

theorem kbEnter_disp (cur : Nat) : (d.kbEnter cur).disp = d.disp.newLine cur := by
  unfold kbEnter Display.newLine
  by_cases hlast : i32 (d.disp.termCursorY cur) = numRows - 1
  · have hlast' : i32 ((d.sendBuffer d.kbd.kbdBuf).disp.termCursorY cur) = numRows - 1 := hlast
    simp only [if_pos hlast, if_pos hlast']
    rfl
  · have hlast' : ¬ i32 ((d.sendBuffer d.kbd.kbdBuf).disp.termCursorY cur) = numRows - 1 := hlast
    simp only [if_neg hlast, if_neg hlast']
    rfl

theorem kbPress_enter_disp (cur : Nat) (stray : Option Int) :
    (d.kbPress cur enterKey stray).disp = d.disp.newLine cur := by
  rw [kbPress_enter, kbEnter_disp]

theorem kbPress_print_disp {c : UInt8} (hc : 0x20 ≤ c ∧ c < 0x7F)
    (hctrl : d.kbd.ctrlPressed = false) (cur : Nat) (stray : Option Int) :
    (d.kbPress cur c stray).disp = (d.disp.wrapBeforePrint cur).putc d.term.termInService
      d.term.curTermNum (d.kbd.shiftChar c) := by
  rw [kbPress_print hc hctrl]
  rfl

/-- The display after the press of a key. -/
theorem keyboardHandler_press_disp {scancode : UInt8} (hpress : scancode &&& 0x80 = 0)
    (stray : Option Int) : (d.keyboardHandler scancode stray).disp =
      (d.kbBegin.kbOverride.kbPress d.term.curTermNum (kbdusChar scancode) stray).disp.setVidEntry
        d.disp.video.pageTableVid0 := by
  have hmake : ¬ scancode &&& 0x80 ≠ 0 := fun hne => hne hpress
  show ((d.kbBegin.kbOverride.kbScancode d.term.curTermNum scancode stray).disp).setVidEntry _ = _
  rw [kbScancode, if_neg hmake]

theorem keyboardHandler_enter_disp {scancode : UInt8} (hpress : scancode &&& 0x80 = 0)
    (hc : kbdusChar scancode = enterKey) (stray : Option Int) :
    (d.keyboardHandler scancode stray).disp =
      ((d.disp.setVidEntry vgaEntry).newLine d.term.curTermNum).setVidEntry
        d.disp.video.pageTableVid0 := by
  have hdisp : d.kbBegin.kbOverride.disp = d.disp.setVidEntry vgaEntry := kbOverride_disp _
  rw [keyboardHandler_press_disp hpress, hc, kbPress_enter_disp, hdisp]

theorem keyboardHandler_print_disp {scancode : UInt8} (hpress : scancode &&& 0x80 = 0)
    (hc : 0x20 ≤ kbdusChar scancode ∧ kbdusChar scancode < 0x7F)
    (hctrl : d.kbd.ctrlPressed = false) (stray : Option Int) :
    (d.keyboardHandler scancode stray).disp =
      (((d.disp.setVidEntry vgaEntry).wrapBeforePrint d.term.curTermNum).putc d.term.curTermNum
        d.term.curTermNum (d.kbd.shiftChar (kbdusChar scancode))).setVidEntry
          d.disp.video.pageTableVid0 := by
  have hdisp : d.kbBegin.kbOverride.disp = d.disp.setVidEntry vgaEntry := kbOverride_disp _
  have hcur : d.kbBegin.kbOverride.term.curTermNum = d.term.curTermNum := kbOverride_curTermNum _
  have hservice : d.kbBegin.kbOverride.term.termInService = d.term.curTermNum :=
    kbOverride_termInService _
  have hflags : d.kbBegin.kbOverride.kbd.ctrlPressed = d.kbd.ctrlPressed ∧
      d.kbBegin.kbOverride.kbd.shiftChar (kbdusChar scancode) =
        d.kbd.shiftChar (kbdusChar scancode) := by
    unfold kbOverride
    split <;> exact ⟨rfl, rfl⟩
  rw [keyboardHandler_press_disp hpress, kbPress_print_disp hc (hflags.1.trans hctrl), hdisp,
    hcur, hservice, hflags.2]

theorem shiftChar_not_newline (k : Keyboard) {c : UInt8} (hc : 0x20 ≤ c ∧ c < 0x7F) :
    isNewline (k.shiftChar c) = false := by
  have hle := le_shiftChar k hc
  have hfeed : k.shiftChar c ≠ 0x0A := fun heq => absurd (heq ▸ hle) (by decide)
  have hreturn : k.shiftChar c ≠ 0x0D := fun heq => absurd (heq ▸ hle) (by decide)
  simp only [isNewline, Bool.or_eq_false_iff, beq_eq_false_iff_ne]
  exact ⟨hfeed, hreturn⟩

/-! ## One keystroke in two states -/

/-- The key is a printable character typed without Ctrl, Backspace or Enter. -/
def IsKeystroke (d : Devices) (scancode : UInt8) : Prop :=
  scancode &&& 0x80 = 0 ∧ (kbdusChar scancode = enterKey ∨ kbdusChar scancode = backspaceKey ∨
    (0x20 ≤ kbdusChar scancode ∧ kbdusChar scancode < 0x7F) ∧ d.kbd.ctrlPressed = false)

/-- Two states show the same screen, cursor and pending line to the user of the displayed
terminal. -/
structure SameView (d₁ d₂ : Devices) : Prop where
  cur : d₁.term.curTermNum = d₂.term.curTermNum
  screen : d₁.screenOf d₁.term.curTermNum = d₂.screenOf d₂.term.curTermNum
  buf : ∀ i, i < maxBuf → d₁.kbd.kbdBuf i = d₂.kbd.kbdBuf i
  idx : d₁.kbd.kbdBufIdx = d₂.kbd.kbdBufIdx

/-- They also agree on the modifier keys. -/
structure Agrees (d₁ d₂ : Devices) : Prop extends SameView d₁ d₂ where
  shift : d₁.kbd.shiftPressed = d₂.kbd.shiftPressed
  capslock : d₁.kbd.capslockPressed = d₂.kbd.capslockPressed
  ctrl : d₁.kbd.ctrlPressed = d₂.kbd.ctrlPressed
  alt : d₁.kbd.altPressed = d₂.kbd.altPressed

/-- A key has had the same effect in both: what the user sees is the same, and the text cursor is
in the same place. -/
structure SameEffect (d₁ d₂ : Devices) : Prop extends SameView d₁ d₂ where
  caret : d₁.disp.vgaCursor = d₂.disp.vgaCursor

/-- Backspace goes to the same place: the shared rows are equal, and either both moves lead to the
row above or both lead to the same column of this one. -/
def SameErase (d₁ d₂ : Devices) : Prop :=
  d₁.disp.screenY = d₂.disp.screenY ∧
    match d₁.eraseMove, d₂.eraseMove with
    | .stay, .stay => d₁.disp.screenX = d₂.disp.screenX
    | .left, .left => d₁.disp.screenX = d₂.disp.screenX
    | .stay, .left => d₁.disp.screenX = d₂.disp.screenX - 1
    | .left, .stay => d₁.disp.screenX - 1 = d₂.disp.screenX
    | .up, .up => True
    | .up, .stay => False
    | .up, .left => False
    | .stay, .up => False
    | .left, .up => False

/-- What a keystroke reads of the shared coordinates and of the place where typing started comes
to the same in both states. Enter reads neither. -/
def SameReading (d₁ d₂ : Devices) (scancode : UInt8) : Prop :=
  (kbdusChar scancode = backspaceKey → SameErase d₁ d₂) ∧
    (0x20 ≤ kbdusChar scancode ∧ kbdusChar scancode < 0x7F →
      Display.SamePrint d₁.term.curTermNum d₁.disp d₂.disp)

variable {d₁ d₂ : Devices} {scancode : UInt8}

theorem SameView.shown (h : SameView d₁ d₂) :
    Display.SameShown d₁.term.curTermNum d₁.disp d₂.disp := by
  have hscreen := h.screen
  rw [screenOf_displayed, screenOf_displayed, ← h.cur] at hscreen
  obtain ⟨hpage, hx, hy⟩ := Screen.mk.inj hscreen
  exact ⟨hpage, hx, hy⟩

theorem screen_of_shown (hcur : d₁.term.curTermNum = d₂.term.curTermNum)
    (h : Display.SameShown d₁.term.curTermNum d₁.disp d₂.disp) :
    d₁.screenOf d₁.term.curTermNum = d₂.screenOf d₂.term.curTermNum := by
  rw [screenOf_displayed, screenOf_displayed, ← hcur, h.page, h.cursorX, h.cursorY]

/-- What a keystroke does to the line. -/
theorem keyActions_keystroke (hkey : d.IsKeystroke scancode) (stray : Option Int) :
    d.keyActions (.key scancode stray) =
      if kbdusChar scancode = backspaceKey then [.erase]
      else if kbdusChar scancode = enterKey then [.enter]
      else [.char (d.kbd.shiftChar (kbdusChar scancode))] := by
  have hmake : ¬ scancode &&& 0x80 ≠ 0 := fun hne => hne hkey.1
  simp only [keyActions, if_neg hmake, pressActions]
  rcases hkey.2 with henter | hback | ⟨hprint, hctrl⟩
  · rw [henter]
    rfl
  · rw [hback]
    rfl
  · simp only [if_pos hprint, hctrl, Bool.false_eq_true, if_false]

theorem shiftChar_agrees (h : Agrees d₁ d₂) (c : UInt8) :
    d₁.kbd.shiftChar c = d₂.kbd.shiftChar c := by
  unfold Keyboard.shiftChar
  rw [h.shift, h.capslock]

theorem IsKeystroke.agrees (hkey : d₁.IsKeystroke scancode) (h : Agrees d₁ d₂) :
    d₂.IsKeystroke scancode := by
  refine ⟨hkey.1, hkey.2.imp_right fun hrest => hrest.imp_right fun hprint => ⟨hprint.1, ?_⟩⟩
  rw [← h.ctrl]
  exact hprint.2

theorem IsKeystroke.ctrl (hkey : d.IsKeystroke scancode)
    (hprint : 0x20 ≤ kbdusChar scancode ∧ kbdusChar scancode < 0x7F) :
    d.kbd.ctrlPressed = false := by
  rcases hkey.2 with henter | hback | hrest
  · rw [henter] at hprint
    exact absurd hprint.1 (by decide)
  · rw [hback] at hprint
    exact absurd hprint.1 (by decide)
  · exact hrest.2

theorem keyActions_agrees (h : Agrees d₁ d₂) (hkey : d₁.IsKeystroke scancode)
    (stray : Option Int) :
    d₂.keyActions (.key scancode stray) = d₁.keyActions (.key scancode stray) := by
  rw [keyActions_keystroke (hkey.agrees h), keyActions_keystroke hkey, shiftChar_agrees h]

theorem keystroke_cur (hkey : d.IsKeystroke scancode) (stray : Option Int) :
    (d.keyboardHandler scancode stray).term.curTermNum = d.term.curTermNum := by
  have hstep := lineState_step d (.key scancode stray)
  rw [keyActions_keystroke hkey] at hstep
  have hcur : (d.keyboardHandler scancode stray).lineState.cur = d.lineState.cur := by
    show (consoleStep d (.key scancode stray)).lineState.cur = d.lineState.cur
    rw [hstep]
    split_ifs
    · rfl
    · rfl
    · exact LineState.push_cur _ _
  exact hcur

/-- A keystroke leaves the displayed terminal and treats its pending line alike in both states. -/
theorem SameView.after_key (h : Agrees d₁ d₂) (hkey : d₁.IsKeystroke scancode)
    (stray : Option Int)
    (hscreen : Display.SameShown d₁.term.curTermNum (d₁.keyboardHandler scancode stray).disp
      (d₂.keyboardHandler scancode stray).disp) :
    SameView (d₁.keyboardHandler scancode stray) (d₂.keyboardHandler scancode stray) := by
  have hstep₁ := lineState_step d₁ (.key scancode stray)
  have hstep₂ := lineState_step d₂ (.key scancode stray)
  rw [keyActions_agrees h hkey] at hstep₂
  have hsame : d₁.lineState.SameLine d₂.lineState := ⟨h.buf, h.idx, h.cur⟩
  have hactions := keyActions_keystroke hkey stray
  have hline : (consoleStep d₁ (.key scancode stray)).lineState.SameLine
      (consoleStep d₂ (.key scancode stray)).lineState := by
    rw [hstep₁, hstep₂, hactions]
    split_ifs
    · exact hsame.erase
    · exact hsame.enter
    · exact hsame.push _
  refine ⟨hline.cur, ?_, hline.buf, hline.idx⟩
  rw [← keystroke_cur hkey stray] at hscreen
  exact screen_of_shown hline.cur hscreen

theorem SameErase.target (h : SameErase d₁ d₂) : d₁.eraseTarget = d₂.eraseTarget := by
  obtain ⟨hrow, hcol⟩ := h
  unfold eraseTarget
  cases hmove₁ : d₁.eraseMove <;> cases hmove₂ : d₂.eraseMove <;>
    simp only [hmove₁, hmove₂] at hcol ⊢
  · rw [hrow, hcol]
  · rw [hrow, hcol]
  · rw [hrow, hcol]
  · rw [hrow, hcol]
  · rw [hrow]

/-- Backspace goes to the row above only below the first row. -/
theorem eraseMove_up (h : d.disp.InRange) (hmove : d.eraseMove = .up) : 1 ≤ d.disp.screenY := by
  have hy := h.yLo
  unfold eraseMove at hmove
  split_ifs at hmove with hcorner hcol hrow
  have hpos : 0 < u32 d.disp.screenY := Nat.lt_of_le_of_lt (Nat.zero_le _) hrow
  simp only [u32] at hpos
  omega

/-- On the screen, Backspace leaves the same cursor only where it goes to the same place. -/
theorem sameErase_of_cursor (h₁ : d₁.disp.InRange) (h₂ : d₂.disp.InRange)
    (hx : u32 d₁.eraseTarget.1 = u32 d₂.eraseTarget.1)
    (hy : u32 d₁.eraseTarget.2 = u32 d₂.eraseTarget.2) : SameErase d₁ d₂ := by
  have hup₁ := eraseMove_up h₁
  have hup₂ := eraseMove_up h₂
  obtain ⟨hx₁, hx₁', hy₁, hy₁', -, -⟩ := h₁
  obtain ⟨hx₂, hx₂', hy₂, hy₂', -, -⟩ := h₂
  unfold SameErase
  unfold eraseTarget at hx hy
  -- Nine pairs of moves; going up leads to column 80, where no other move from the screen leads.
  cases hmove₁ : d₁.eraseMove <;> cases hmove₂ : d₂.eraseMove <;>
    simp only [hmove₁, hmove₂, u32, numCols, true_implies, reduceCtorEq, false_implies,
      and_true] at * <;>
    omega

/-- The display after a keystroke is the same where its reading is. -/
theorem alike_after_key (h : Agrees d₁ d₂) (hcur : d₁.term.curTermNum < 3)
    (hkey : d₁.IsKeystroke scancode) (hreading : SameReading d₁ d₂ scancode)
    (stray : Option Int) :
    Display.SameShown d₁.term.curTermNum (d₁.keyboardHandler scancode stray).disp
        (d₂.keyboardHandler scancode stray).disp ∧
      (d₁.keyboardHandler scancode stray).disp.vgaCursor =
        (d₂.keyboardHandler scancode stray).disp.vgaCursor := by
  have hshown : Display.SameShown d₁.term.curTermNum (d₁.disp.setVidEntry vgaEntry)
      (d₂.disp.setVidEntry vgaEntry) := ⟨h.shown.page, h.shown.cursorX, h.shown.cursorY⟩
  have hmapped : Display.BothMapped (d₁.disp.setVidEntry vgaEntry)
      (d₂.disp.setVidEntry vgaEntry) := ⟨frameOf_vgaEntry, frameOf_vgaEntry⟩
  have hkey₂ := hkey.agrees h
  -- Enter reads nothing but what is shown; the other two use the condition.
  rcases hkey.2 with henter | hback | ⟨hprint, hctrl⟩
  · have halike := hshown.newLine hmapped
    rw [keyboardHandler_enter_disp hkey.1 henter, keyboardHandler_enter_disp hkey.1 henter, ← h.cur]
    exact ⟨⟨halike.shown.page, halike.shown.cursorX, halike.shown.cursorY⟩,
      halike.caret Display.caretAt_newLine Display.caretAt_newLine⟩
  · have hb : isBackspace scancode := ⟨hkey.1, hback⟩
    have halike := (hshown.moveTo hmapped d₁.eraseTarget.1 d₁.eraseTarget.2).clearChar
    rw [keyboardHandler_backspace_disp hb, keyboardHandler_backspace_disp hb, ← h.cur,
      ← (hreading.1 hback).target]
    exact ⟨⟨halike.shown.page, halike.shown.cursorX, halike.shown.cursorY⟩, rfl⟩
  · have hline : isNewline (d₁.kbd.shiftChar (kbdusChar scancode)) = false :=
      shiftChar_not_newline d₁.kbd hprint
    have halike := Display.SamePrint.alike hcur hline hshown hmapped (hreading.2 hprint)
    rw [keyboardHandler_print_disp hkey.1 hprint hctrl,
      keyboardHandler_print_disp hkey.1 hprint (h.ctrl ▸ hctrl), ← h.cur, ← shiftChar_agrees h]
    exact ⟨⟨halike.shown.page, halike.shown.cursorX, halike.shown.cursorY⟩,
      halike.caret (Display.caretAt_putc _) (Display.caretAt_putc _)⟩

/-- On the screen, a keystroke shows the same only where its reading is the same. -/
theorem sameReading_of_shown (h : Agrees d₁ d₂) (hcur : d₁.term.curTermNum < 3)
    (hkey : d₁.IsKeystroke scancode) (h₁ : d₁.disp.InRange) (h₂ : d₂.disp.InRange)
    (stray : Option Int)
    (hout : Display.SameShown d₁.term.curTermNum (d₁.keyboardHandler scancode stray).disp
      (d₂.keyboardHandler scancode stray).disp) : SameReading d₁ d₂ scancode := by
  constructor
  · intro hback
    have hb : isBackspace scancode := ⟨hkey.1, hback⟩
    rw [keyboardHandler_backspace_disp hb, keyboardHandler_backspace_disp hb, ← h.cur] at hout
    refine sameErase_of_cursor h₁ h₂ ?_ ?_
    · have hx := hout.cursorX
      exact Display.atCursor_moveTo.x.symm.trans (hx.trans Display.atCursor_moveTo.x)
    · have hy := hout.cursorY
      exact Display.atCursor_moveTo.y.symm.trans (hy.trans Display.atCursor_moveTo.y)
  · intro hprint
    have hctrl : d₁.kbd.ctrlPressed = false := hkey.ctrl hprint
    have hline : isNewline (d₁.kbd.shiftChar (kbdusChar scancode)) = false :=
      shiftChar_not_newline d₁.kbd hprint
    rw [keyboardHandler_print_disp hkey.1 hprint hctrl,
      keyboardHandler_print_disp hkey.1 hprint (h.ctrl ▸ hctrl), ← h.cur,
      ← shiftChar_agrees h] at hout
    have hsame := Display.samePrint_of_shown hcur hline
      (a := d₁.disp.setVidEntry vgaEntry) (b := d₂.disp.setVidEntry vgaEntry)
      ⟨h.shown.page, h.shown.cursorX, h.shown.cursorY⟩ ⟨frameOf_vgaEntry, frameOf_vgaEntry⟩
      (h₁.setVidEntry vgaEntry) (h₂.setVidEntry vgaEntry) ⟨hout.page, hout.cursorX, hout.cursorY⟩
    exact hsame

/-- The states of runs from boot. -/
def Reachable (d : Devices) : Prop :=
  ∃ (mem : Nat → UInt8) (es : List ConsoleEvent), es.foldl consoleStep (boot mem) = d

theorem Reachable.terms_in (h : d.Reachable) : d.TermsIn := by
  obtain ⟨mem, es, rfl⟩ := h
  have hstart : (boot mem).TermsIn := boot_terms_in mem
  revert hstart
  generalize boot mem = d
  induction es generalizing d with
  | nil => exact id
  | cons e es ih => exact fun h => ih _ (consoleStep_terms_in h e)

/-- In a reachable state and any other that looks the same to the user of the displayed terminal, a
keystroke has the same effect if it reads the same there, and, while the cursors are on the
screen, only then. -/
theorem keystroke_same_iff (hreach : d₁.Reachable) (h : Agrees d₁ d₂)
    (hkey : d₁.IsKeystroke scancode) (stray : Option Int) :
    (SameReading d₁ d₂ scancode →
      SameEffect (d₁.keyboardHandler scancode stray) (d₂.keyboardHandler scancode stray)) ∧
    (d₁.disp.InRange → d₂.disp.InRange →
      SameEffect (d₁.keyboardHandler scancode stray) (d₂.keyboardHandler scancode stray) →
      SameReading d₁ d₂ scancode) := by
  have hcur := hreach.terms_in.cur
  constructor
  · intro hreading
    obtain ⟨hshown, hcaret⟩ := alike_after_key h hcur hkey hreading stray
    exact ⟨SameView.after_key h hkey stray hshown, hcaret⟩
  · intro hin₁ hin₂ heffect
    refine sameReading_of_shown h hcur hkey hin₁ hin₂ stray ?_
    rw [← keystroke_cur hkey stray]
    exact heffect.shown

/-- Only processes of terminals that are not displayed write, and no key is pressed. -/
def Unseen (d : Devices) : ConsoleEvent → Prop
  | .key _ _ => False
  | .serve _ => True
  | .launch _ => True
  | .write _ => d.term.termInService ≠ d.term.curTermNum

/-- A process of terminal 1 writes `x` while terminal 0 is displayed. -/
def hiddenWrite : List ConsoleEvent :=
  [.serve secondTerm, .write ['x'.toUInt8], .serve firstTerm]

theorem serve_screenOf (d : Devices) (service term : Nat) :
    (d.serve service).screenOf term = d.screenOf term := rfl

/-- It changes nothing that the user of terminal 0 sees. -/
theorem hiddenWrite_agrees :
    Agrees (boot fun _ => 0) (hiddenWrite.foldl consoleStep (boot fun _ => 0)) := by
  have hviewable : ((boot fun _ => 0).serve 1).Viewable :=
    ⟨(boot_in_range fun _ => 0).cursors, ⟨Nat.zero_lt_succ 2, Nat.one_lt_succ_succ 1⟩⟩
  have hscreen : ((((boot fun _ => 0).serve 1).terminalWrite ['x'.toUInt8]).serve 0).screenOf 0 =
      (boot fun _ => 0).screenOf 0 := by
    rw [serve_screenOf, ← serve_screenOf (boot fun _ => 0) 1 0]
    exact viewStep_screenOf hviewable (.write ['x'.toUInt8]) 0
  exact ⟨⟨rfl, hscreen.symm, fun _ _ => rfl, rfl⟩, rfl, rfl, rfl, rfl⟩

/-- After it, `a` has the effect on terminal 0 that it would have had before. -/
theorem keystroke_same_iff_a : SameEffect ((boot fun _ => 0).keyboardHandler 0x1E none)
    ((hiddenWrite.foldl consoleStep (boot fun _ => 0)).keyboardHandler 0x1E none) := by
  have hkey : (boot fun _ => 0).IsKeystroke 0x1E := ⟨rfl, .inr (.inr ⟨by decide, rfl⟩)⟩
  have hplace : (boot fun _ => 0).disp.printPlace 0 =
      (hiddenWrite.foldl consoleStep (boot fun _ => 0)).disp.printPlace 0 := by decide +kernel
  have hscrolls : (boot fun _ => 0).disp.ScrollsFirst ↔
      (hiddenWrite.foldl consoleStep (boot fun _ => 0)).disp.ScrollsFirst := by
    constructor
    · rintro ⟨hx, -⟩
      cases hx
    · rintro ⟨hx, -⟩
      cases hx
  refine (keystroke_same_iff ⟨fun _ => 0, [], rfl⟩ hiddenWrite_agrees hkey none).1
    ⟨fun hback => ?_, fun _ => ⟨hplace, .inl hscrolls⟩⟩
  cases hback

/-- After the hidden write, Backspace moves the cursor of terminal 0 to that of terminal 1. -/
theorem hidden_write_seen : ¬ ∀ (mem : Nat → UInt8) (es es₁ es₂ : List ConsoleEvent)
    (scancode : UInt8) (stray : Option Int),
    Meets consoleStep Unseen (es.foldl consoleStep (boot mem)) es₁ →
    Meets consoleStep Unseen (es.foldl consoleStep (boot mem)) es₂ →
    Agrees (es₁.foldl consoleStep (es.foldl consoleStep (boot mem)))
      (es₂.foldl consoleStep (es.foldl consoleStep (boot mem))) →
    (es₁.foldl consoleStep (es.foldl consoleStep (boot mem))).IsKeystroke scancode →
    SameEffect
      ((es₁.foldl consoleStep (es.foldl consoleStep (boot mem))).keyboardHandler scancode stray)
      ((es₂.foldl consoleStep (es.foldl consoleStep (boot mem))).keyboardHandler scancode
        stray) := by
  intro h
  have hother : (1 : Nat) ≠ 0 := Nat.one_ne_zero
  have hunseen : Meets consoleStep Unseen (boot fun _ => 0) hiddenWrite :=
    ⟨trivial, hother, trivial, trivial⟩
  have heffect := h (fun _ => 0) [] [] hiddenWrite 0x0E none trivial hunseen hiddenWrite_agrees
    ⟨rfl, .inr (.inl rfl)⟩
  exact absurd (congrArg Screen.x heffect.screen) (by decide +kernel)

end Devices

end Ece391Kernel
