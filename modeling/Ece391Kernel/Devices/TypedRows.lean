import Ece391Kernel.Devices.TypedCells

/-!
# Lines that Backspace erases cell by cell

On a screen cleared at boot, Backspace obeys its law as long as no typed line wraps that started
to the right of column 0: the cells typed since typing started are then the cells before the
cursor, apart from the last column. A line that starts in column 0 may wrap and scroll; the row
where typing started is not updated when the screen scrolls, so Backspace may stop early, but it
never goes too far (`backspaceLaw_of_wrapOk`).
-/

namespace Ece391Kernel

open Transition

/-! ## Where typing started -/

namespace Devices

variable {d : Devices} {term : Nat}

/-- The globals of the keyboard handler that say where typing started. -/
def marks (d : Devices) : Nat × Nat × Bool :=
  (d.kbd.xStart, d.kbd.yStart, d.term.overrideStart)

theorem startOfTyping_of_marks {x y : Nat} (h : d.marks = (x, y, false)) :
    d.startOfTyping = (x, y) := by
  obtain ⟨hx, hrest⟩ := Prod.ext_iff.1 h
  obtain ⟨hy, hover⟩ := Prod.ext_iff.1 hrest
  have hno : d.term.overrideStart = false := hover
  rw [startOfTyping, hno, if_neg Bool.false_ne_true]
  exact Prod.ext hx hy

theorem kbOverride_marks (d : Devices) :
    d.kbOverride.marks = (d.startOfTyping.1, d.startOfTyping.2, false) := by
  unfold kbOverride startOfTyping
  split
  · rfl
  · next hno => exact congrArg _ (congrArg _ (Bool.eq_false_iff.2 hno))

theorem kbPrint_marks (c : UInt8) : (d.kbPrint term c).marks = d.marks := by
  show ((d.kbd.pushChar c).xStart, (d.kbd.pushChar c).yStart, d.term.overrideStart) = d.marks
  unfold Keyboard.pushChar
  split <;> rfl

theorem press_marks (c : UInt8) : ({ d with kbd := d.kbd.press c } : Devices).marks = d.marks := by
  unfold marks Keyboard.press
  simp only
  split_ifs <;> rfl

theorem release_marks (c : UInt8) :
    ({ d with kbd := d.kbd.release c } : Devices).marks = d.marks := by
  unfold marks Keyboard.release
  split_ifs <;> rfl

/-- On a single terminal only Enter moves the place where typing started. -/
theorem kbPress_marks (h : d.Single term) {c : UInt8} (hctrl : c ≠ ctrlKey) (halt : c ≠ altKey)
    (henter : c ≠ enterKey) (stray : Option Int) : (d.kbPress term c stray).marks = d.marks := by
  by_cases hc : 0x20 ≤ c ∧ c < 0x7F
  · rw [kbPress_print hc h.ctrl, kbPrint_marks, press_marks]
  · by_cases hback : c = backspaceKey
    · rw [hback, kbPress_backspace]
      exact press_marks backspaceKey
    · have hpressed := h.pressed hctrl halt
      rw [kbPress_other hback henter hc, kbSwitch_of_released hpressed.alt, press_marks]

theorem kbPress_enter_marks (stray : Option Int) : (d.kbPress term enterKey stray).marks =
    (0, u32 (d.kbPress term enterKey stray).disp.screenY, d.term.overrideStart) := by
  rw [kbPress_enter]
  rfl

/-- Enter makes the place it goes to the one where typing starts. -/
theorem keyboardHandler_enter_start {scancode : UInt8} (hpress : scancode &&& 0x80 = 0)
    (hc : kbdusChar scancode = enterKey) (stray : Option Int) :
    (d.keyboardHandler scancode stray).startOfTyping =
      (0, u32 (d.keyboardHandler scancode stray).disp.screenY) := by
  have hmake : ¬ scancode &&& 0x80 ≠ 0 := fun hne => hne hpress
  have hoverride : d.kbBegin.kbOverride.term.overrideStart = false :=
    congrArg (fun m => m.2.2) (kbOverride_marks d.kbBegin)
  have hbody : (d.kbBegin.kbOverride.kbScancode d.term.curTermNum scancode stray).marks =
      (0, u32 (d.kbBegin.kbOverride.kbScancode d.term.curTermNum scancode stray).disp.screenY,
        false) := by
    rw [kbScancode, if_neg hmake, hc, kbPress_enter_marks, hoverride]
  exact startOfTyping_of_marks (d := d.keyboardHandler scancode stray) hbody

theorem keyboardHandler_start (h : d.Single term) {scancode : UInt8} {stray : Option Int}
    (he : IsEditing (.key scancode stray))
    (henter : scancode &&& 0x80 = 0 → kbdusChar scancode ≠ enterKey) :
    (d.keyboardHandler scancode stray).startOfTyping = d.startOfTyping := by
  have hmarks : d.kbBegin.kbOverride.marks = (d.startOfTyping.1, d.startOfTyping.2, false) :=
    kbOverride_marks d.kbBegin
  have hbody : (d.kbBegin.kbOverride.kbScancode d.term.curTermNum scancode stray).marks =
      (d.startOfTyping.1, d.startOfTyping.2, false) := by
    rw [← hmarks, kbScancode]
    split_ifs with hrel
    · exact release_marks _
    · obtain ⟨hctrl, halt⟩ := he (not_not.1 hrel)
      rw [h.cur]
      exact kbPress_marks h.override hctrl halt (henter (not_not.1 hrel)) stray
  exact startOfTyping_of_marks (d := d.keyboardHandler scancode stray) hbody

/-! ## The operations of the keys -/

theorem switchTarget_unrequested {c : UInt8} (h : requestedTerm c = none) :
    d.switchTarget c = none := by
  simp only [switchTarget, h, Option.filter_none, ite_self]

theorem kbSwitchOps_unrequested {c : UInt8} (h : requestedTerm c = none) (cur : Nat) :
    d.kbSwitchOps cur c = [] := by
  simp only [kbSwitchOps, switchTarget_unrequested h]

theorem kbCtrlOps_of_released (h : d.kbd.ctrlPressed = false) (cur : Nat) (c : UInt8)
    (stray : Option Int) : d.kbCtrlOps cur c stray = [] := by
  rw [kbCtrlOps, h, if_neg Bool.false_ne_true]

theorem kbPressOps_backspace (h : d.Single term) (stray : Option Int) :
    d.kbPressOps term backspaceKey stray = d.kbBackspaceOps := by
  have henter : ¬ backspaceKey = enterKey := by decide
  have hrequested : requestedTerm backspaceKey = none := rfl
  have hctrl : backspaceKey ≠ ctrlKey := by decide
  have halt : backspaceKey ≠ altKey := by decide
  unfold kbPressOps
  generalize hd1 : ({ d with kbd := d.kbd.press backspaceKey } : Devices) = d1
  have h1 : d1.Single term := hd1 ▸ h.pressed hctrl halt
  have hno : (d1.kbBackspace term).kbd.printMe = false := by
    show d1.kbd.printMe = false
    rw [← hd1, press_printMe]
    rfl
  simp only [kbSwitch_unrequested hrequested, kbCtrl_of_released h1.ctrl,
    kbSwitchOps_unrequested hrequested, kbCtrlOps_of_released h1.ctrl, if_true, if_neg henter, hno,
    Bool.false_eq_true, if_false, List.nil_append, List.append_nil]
  rw [← hd1]
  rfl

theorem kbPressOps_print (h : d.Single term) {c : UInt8} (hc : 0x20 ≤ c ∧ c < 0x7F)
    (stray : Option Int) : d.kbPressOps term c stray =
      (if d.disp.screenX = numCols - 1 ∧ d.disp.screenY = numRows - 1 then [VideoOp.scroll]
        else []) ++ (d.disp.wrapBeforePrint term).putcOps term term (d.kbd.shiftChar c) := by
  have hback : c ≠ backspaceKey := ne_of_printable hc (.inl (by decide))
  have henter : c ≠ enterKey := ne_of_printable hc (.inl (by decide))
  have hctrl : c ≠ ctrlKey := ne_of_printable hc (.inr (by decide))
  have halt : c ≠ altKey := ne_of_printable hc (.inr (by decide))
  have hrequested : requestedTerm c = none := requestedTerm_printable hc.2
  have hpress := press_printable d.kbd hc
  unfold kbPressOps
  generalize hd1 : ({ d with kbd := d.kbd.press c } : Devices) = d1
  have h1 : d1.Single term := hd1 ▸ h.pressed hctrl halt
  have hprint : d1.kbd.printMe = true := by
    rw [← hd1, hpress]
    exact decide_eq_true h.ctrl
  have hshift : d1.kbd.shiftChar c = d.kbd.shiftChar c := by
    rw [← hd1, hpress]
    rfl
  have hdisp : d1.disp = d.disp := hd1 ▸ rfl
  simp only [kbSwitch_of_released h1.alt, kbCtrl_of_released h1.ctrl,
    kbSwitchOps_unrequested hrequested, kbCtrlOps_of_released h1.ctrl, if_neg hback,
    if_neg henter, hprint, if_true, List.nil_append, hshift, kbPrintOps, hdisp, h1.service, h1.cur]

/-- Any other key draws nothing. -/
theorem kbPressOps_other (h : d.Single term) {c : UInt8} (hctrl : c ≠ ctrlKey) (halt : c ≠ altKey)
    (hback : c ≠ backspaceKey) (henter : c ≠ enterKey) (hc : ¬ (0x20 ≤ c ∧ c < 0x7F))
    (stray : Option Int) : d.kbPressOps term c stray = [] := by
  unfold kbPressOps
  generalize hd1 : ({ d with kbd := d.kbd.press c } : Devices) = d1
  have h1 : d1.Single term := hd1 ▸ h.pressed hctrl halt
  have hno : d1.kbd.printMe = false := by
    rw [← hd1, press_printMe]
    exact decide_eq_false fun hprint => hc ⟨hprint.1, hprint.2.1⟩
  have hswitch : d1.kbSwitchOps term c = [] := by
    simp only [kbSwitchOps, switchTarget, h1.alt, Bool.false_eq_true, if_false]
  simp only [kbSwitch_of_released h1.alt, kbCtrl_of_released h1.ctrl, hswitch,
    kbCtrlOps_of_released h1.ctrl, if_neg hback, if_neg henter, hno, Bool.false_eq_true, if_false,
    List.nil_append]

theorem kbPress_other_disp (h : d.Single term) {c : UInt8} (hctrl : c ≠ ctrlKey)
    (halt : c ≠ altKey) (hback : c ≠ backspaceKey) (henter : c ≠ enterKey)
    (hc : ¬ (0x20 ≤ c ∧ c < 0x7F)) (stray : Option Int) :
    (d.kbPress term c stray).disp = d.disp := by
  rw [kbPress_other hback henter hc, kbSwitch_of_released (h.pressed hctrl halt).alt]

/-- The operations of a key press, between the two rewrites of the entry. -/
theorem consoleOps_press (h : d.Single term) {scancode : UInt8} (hpress : scancode &&& 0x80 = 0)
    (stray : Option Int) : d.consoleOps (.key scancode stray) =
      .map vgaEntry :: (d.kbBegin.kbOverride.kbPressOps term (kbdusChar scancode) stray ++
        [.map d.disp.video.pageTableVid0]) := by
  have hmake : ¬ scancode &&& 0x80 ≠ 0 := fun hne => hne hpress
  show VideoOp.map vgaEntry :: (d.kbBegin.kbOverride.kbScancodeOps d.term.curTermNum scancode stray
    ++ [.map d.disp.video.pageTableVid0]) = _
  rw [kbScancodeOps, if_neg hmake, h.cur]

theorem kbBackspaceOps_override (d : Devices) : d.kbBegin.kbOverride.kbBackspaceOps =
    [.putCell d.eraseTarget.1 d.eraseTarget.2 blank] := by
  have hstart : (d.kbBegin.kbOverride.kbd.xStart, d.kbBegin.kbOverride.kbd.yStart) =
      d.startOfTyping := kbOverride_start _
  have hx : d.kbBegin.kbOverride.kbd.xStart = d.startOfTyping.1 := congrArg Prod.fst hstart
  have hy : d.kbBegin.kbOverride.kbd.yStart = d.startOfTyping.2 := congrArg Prod.snd hstart
  have hdisp : d.kbBegin.kbOverride.disp = d.disp.setVidEntry vgaEntry := kbOverride_disp _
  have htarget : (d.disp.setVidEntry vgaEntry).backspaceTarget d.startOfTyping.1
      d.startOfTyping.2 = d.eraseTarget := backspaceTarget_start
  simp only [kbBackspaceOps, hdisp, hx, hy, htarget]

end Devices

/-! ## The typed cells after a key -/

namespace Typing

variable {s : Typing} {term : Nat} {scancode : UInt8}

theorem pendingAfter_backspace (h : s.dev.Single term) (hb : Devices.isBackspace scancode)
    (stray : Option Int) : s.pendingAfter (.key scancode stray) =
      erasedCells s.pending (numCols * s.dev.eraseTarget.2 + s.dev.eraseTarget.1) := by
  have hne : ¬ [KeyAction.erase] = [.enter] := by decide
  rw [pendingAfter, Devices.keyActions_backspace hb, if_neg hne, Devices.consoleOps_press h hb.1,
    hb.2, Devices.kbPressOps_backspace h.override, Devices.kbBackspaceOps_override]
  rfl

/-- A printable key that does not scroll once it has wrapped adds the cell it writes. -/
theorem pendingAfter_print (h : s.dev.Single term) (hpress : scancode &&& 0x80 = 0)
    (hc : 0x20 ≤ kbdusChar scancode ∧ kbdusChar scancode < 0x7F) (stray : Option Int)
    {w : Display} (hw : (s.dev.disp.setVidEntry vgaEntry).wrapBeforePrint term = w)
    (hgrid : w.OnGrid) (hcursor : w.AtCursor term) (hfits : 79 ≤ w.screenX → w.screenY ≤ 23) :
    s.pendingAfter (.key scancode stray) = w.nextCell ::
      if s.dev.disp.ScrollsFirst then s.pending.map fun cell => cell - numCols else s.pending := by
  generalize hd0 : s.dev.kbBegin.kbOverride = d0
  have h0 : d0.Single term := hd0 ▸ h.override
  have hdisp : d0.disp = s.dev.disp.setVidEntry vgaEntry :=
    hd0 ▸ Devices.kbOverride_disp s.dev.kbBegin
  have hline := Devices.shiftChar_not_newline d0.kbd hc
  obtain ⟨hx, hy⟩ := Display.cursorCheck_grid hgrid hcursor
  have hflag : ((w.cursorCheck term term).2.putcWrite (d0.kbd.shiftChar (kbdusChar scancode))).1 =
      false := by
    rw [Display.putcWrite_char (hx ▸ hgrid.xLo) hline, hx, hy]
    have hyHi := hgrid.yHi
    refine decide_eq_false ?_
    split_ifs with hend
    · have hlow := hfits hend
      omega
    · omega
  have hputc : w.putcOps term term (d0.kbd.shiftChar (kbdusChar scancode)) =
      [.map (vidEntry term term), .putCell w.screenX w.screenY
        (d0.kbd.shiftChar (kbdusChar scancode))] := by
    simp only [Display.putcOps, hline, hflag, Bool.false_eq_true, if_false, hx, hy,
      List.append_nil]
  have hkey : s.dev.IsKeystroke scancode := ⟨hpress, .inr (.inr ⟨hc, h.ctrl⟩)⟩
  have hback : kbdusChar scancode ≠ backspaceKey :=
    Devices.ne_of_printable hc (.inl (by decide))
  have henter : kbdusChar scancode ≠ enterKey :=
    Devices.ne_of_printable hc (.inl (by decide))
  have hne : ¬ [KeyAction.char (s.dev.kbd.shiftChar (kbdusChar scancode))] = [.enter] := by
    intro heq
    cases heq
  rw [pendingAfter, Devices.keyActions_keystroke hkey, if_neg hback, if_neg henter, if_neg hne,
    Devices.consoleOps_press h hpress, hd0, Devices.kbPressOps_print h0 hc, hdisp, hw, hputc]
  by_cases hscroll : s.dev.disp.ScrollsFirst
  · have hlast : (s.dev.disp.setVidEntry vgaEntry).screenX = numCols - 1 ∧
        (s.dev.disp.setVidEntry vgaEntry).screenY = numRows - 1 := hscroll
    rw [if_pos hlast, if_pos hscroll]
    rfl
  · have hlast : ¬ ((s.dev.disp.setVidEntry vgaEntry).screenX = numCols - 1 ∧
        (s.dev.disp.setVidEntry vgaEntry).screenY = numRows - 1) := hscroll
    rw [if_neg hlast, if_neg hscroll]
    rfl

/-- A key that is neither printable nor Backspace nor Enter leaves the typed cells alone. -/
theorem pendingAfter_other (h : s.dev.Single term) {stray : Option Int}
    (he : Devices.IsEditing (.key scancode stray))
    (hother : scancode &&& 0x80 = 0 → kbdusChar scancode ≠ backspaceKey ∧
      kbdusChar scancode ≠ enterKey ∧ ¬ (0x20 ≤ kbdusChar scancode ∧ kbdusChar scancode < 0x7F)) :
    s.pendingAfter (.key scancode stray) = s.pending := by
  have hops : s.dev.consoleOps (.key scancode stray) =
      [.map vgaEntry, .map s.dev.disp.video.pageTableVid0] := by
    by_cases hrel : scancode &&& 0x80 = 0
    · obtain ⟨hctrl, halt⟩ := he hrel
      obtain ⟨hback, henter, hc⟩ := hother hrel
      rw [Devices.consoleOps_press h hrel,
        Devices.kbPressOps_other h.override hctrl halt hback henter hc]
      rfl
    · show VideoOp.map vgaEntry :: (s.dev.kbBegin.kbOverride.kbScancodeOps s.dev.term.curTermNum
        scancode stray ++ [.map s.dev.disp.video.pageTableVid0]) = _
      rw [Devices.kbScancodeOps, if_pos hrel]
      rfl
  have hactions : s.dev.keyActions (.key scancode stray) ≠ [.enter] := by
    rw [Devices.keyActions]
    split_ifs with hrel
    · exact (List.cons_ne_nil _ _).symm
    · obtain ⟨hback, henter, hc⟩ := hother (not_not.1 hrel)
      have hswitch : s.dev.switchTarget (kbdusChar scancode) = none := by
        rw [Devices.switchTarget, h.alt, if_neg Bool.false_ne_true]
      rw [Devices.pressActions, if_neg hback, if_neg henter, if_neg hc, hswitch]
      exact (List.cons_ne_nil _ _).symm
  rw [pendingAfter, if_neg hactions, hops]
  rfl

end Typing

/-! ## The line on the screen -/

/-- The line being typed starts in column `start.1` of row `row`, and its cells reach up to the
cursor. A line that starts to the right of column 0 stays in its row. `start.2` is where the row
was before the screen scrolled. -/
structure RowsAt (d : Display) (pending : List Int) (start : Nat × Nat) (row : Int) : Prop where
  grid : d.OnGrid
  rowStart : row ≤ start.2
  rowCursor : row ≤ d.screenY
  first : start.1 ≠ 0 → row = start.2 ∧ d.screenY = row ∧ start.1 ≤ d.screenX ∧
    (d.screenX = 80 → start.1 = 80)
  typed : TypedTo pending (numCols * row + start.1) d.nextCell
  ahead : BlankFrom d.vga (numCols * row + start.1) d.nextCell

namespace RowsAt

variable {d : Display} {pending : List Int} {start : Nat × Nat} {row : Int} {term : Nat}

theorem setVidEntry (h : RowsAt d pending start row) (entry : Nat) :
    RowsAt (d.setVidEntry entry) pending start row :=
  ⟨⟨h.grid.xLo, h.grid.xHi, h.grid.yLo, h.grid.yHi, h.grid.edge⟩, h.rowStart, h.rowCursor,
    h.first, h.typed, h.ahead⟩

/-- A line of which nothing has been typed. -/
theorem empty (hgrid : d.OnGrid) (hahead : BlankFrom d.vga d.nextCell d.nextCell)
    (pending : List Int) : RowsAt d pending (u32 d.screenX, u32 d.screenY) d.screenY := by
  have hxLo := hgrid.xLo
  have hxHi := hgrid.xHi
  have hyLo := hgrid.yLo
  have hyHi := hgrid.yHi
  have hx : (u32 d.screenX : Int) = d.screenX := by
    simp only [u32]
    omega
  have hy : (u32 d.screenY : Int) = d.screenY := by
    simp only [u32]
    omega
  have hbase : numCols * d.screenY + (u32 d.screenX : Int) = d.nextCell := by
    rw [hx]
    rfl
  refine ⟨hgrid, by omega, by omega, fun _ => by omega, ?_, ?_⟩
  · rw [hbase]
    exact .empty pending _
  · rw [hbase]
    exact hahead

/-- What is ahead of the cursor is blank. -/
theorem blankAhead (h : RowsAt d pending start row) : BlankFrom d.vga d.nextCell d.nextCell :=
  h.ahead.ahead h.typed.le (Int.le_refl _)

/-- Wrapping before a printable key skips the last column. -/
theorem wrap (h : RowsAt d pending start row) (hframe : frameOf d.video.pageTableVid0 = vimMemIndex)
    (hstart : numCols - 1 ≤ d.screenX → start.1 = 0) (term : Nat) :
    ∃ row', RowsAt (d.wrapBeforePrint term)
      (if d.ScrollsFirst then pending.map fun cell => cell - numCols else pending) start row' := by
  obtain ⟨hgrid, hrowStart, hrowCursor, hfirst, htyped, hahead⟩ := h
  have hyLo := hgrid.yLo
  have hyHi := hgrid.yHi
  unfold Display.wrapBeforePrint
  by_cases hx : d.screenX = numCols - 1
  · have hzero : start.1 = 0 := hstart (Int.le_of_eq hx.symm)
    have hcell : d.nextCell = numCols * d.screenY + 79 := by
      rw [Display.nextCell, hx]
      rfl
    have hlast : d.nextCell % 80 = 79 := by
      rw [hcell]
      simp only [numCols]
      omega
    rw [if_pos hx]
    by_cases hy : d.screenY = numRows - 1
    · have hscrolls : d.ScrollsFirst := ⟨hx, hy⟩
      have hnext : (d.scroll.moveTo term 0 d.screenY).nextCell = d.nextCell + 1 - numCols := by
        rw [hcell, hy]
        rfl
      have hvga : (d.scroll.moveTo term 0 d.screenY).vga = scrollPage d.vga :=
        Video.scroll_page hframe
      have hbase : numCols * (row - 1) + (start.1 : Int) = numCols * row + start.1 - numCols := by
        simp only [numCols]
        omega
      rw [if_pos hy, if_pos hscrolls]
      -- The screen scrolls under the line, but the recorded row stays.
      refine ⟨row - 1, Display.onGrid_moveTo hyLo hyHi, by omega, ?_, fun hne => absurd hzero hne,
        ?_, ?_⟩
      · show row - 1 ≤ d.screenY
        omega
      · rw [hnext, hbase]
        exact (htyped.skip hlast).scroll
      · rw [hnext, hvga, hbase]
        exact (hahead.mono (Int.le_add_one (Int.le_refl _))).scroll
    · have hscrolls : ¬ d.ScrollsFirst := fun hscrolls => hy hscrolls.2
      have hnext : (d.moveTo term 0 (d.screenY + 1)).nextCell = d.nextCell + 1 := by
        rw [hcell]
        show numCols * (d.screenY + 1) + 0 = _
        simp only [numCols]
        omega
      rw [if_neg hy, if_neg hscrolls]
      have hrow : d.screenY + 1 ≤ 24 := by
        simp only [numRows] at hy
        omega
      refine ⟨row, Display.onGrid_moveTo (by omega) hrow, hrowStart, ?_,
        fun hne => absurd hzero hne, ?_, ?_⟩
      · show row ≤ d.screenY + 1
        omega
      · rw [hnext]
        exact htyped.skip hlast
      · rw [hnext]
        exact hahead.mono (Int.le_add_one (Int.le_refl _))
  · have hscrolls : ¬ d.ScrollsFirst := fun hscrolls => hx hscrolls.1
    rw [if_neg hx, if_neg hscrolls]
    exact ⟨row, hgrid, hrowStart, hrowCursor, hfirst, htyped, hahead⟩

/-- A printable key adds the cell before the cursor it leaves. -/
theorem print (h : RowsAt d pending start row) (hcursor : d.AtCursor term) {c : UInt8}
    (hc : isNewline c = false) (hcol : d.screenX ≠ numCols - 1)
    (hstart : numCols - 1 ≤ d.screenX → start.1 = 0) :
    RowsAt (d.putc term term c) (d.nextCell :: pending) start row := by
  obtain ⟨hgrid, hrowStart, hrowCursor, hfirst, htyped, hahead⟩ := h
  have hxLo := hgrid.xLo
  have hxHi := hgrid.xHi
  have hyLo := hgrid.yLo
  have hyHi := hgrid.yHi
  have hedge := hgrid.edge
  have hcell : d.nextCell % 80 ≠ 79 := by
    simp only [Display.nextCell, numCols] at hcol ⊢
    omega
  have hgrid' := Display.putc_grid hgrid hcursor c
  simp only [numCols] at hcol hstart
  generalize hd' : d.putc term term c = d' at hgrid' ⊢
  generalize hvga : d'.vga = p' at hgrid'
  generalize hx' : d'.screenX = x' at hgrid'
  generalize hy' : d'.screenY = y' at hgrid'
  cases hgrid' with
  | lineScroll hnew _ => exact absurd hnew (Bool.eq_false_iff.1 hc)
  | line hnew _ => exact absurd hnew (Bool.eq_false_iff.1 hc)
  -- The key has left the last column, where alone `putc` scrolls.
  | charScroll _ _ hlast _ => omega
  | char _ _ _ hput =>
      have hnext : d'.nextCell = d.nextCell + 1 := by
        simp only [Display.nextCell, hx', hy', numCols]
        split_ifs <;> omega
      refine ⟨⟨?_, ?_, ?_, ?_, ?_⟩, hrowStart, ?_, ?_, ?_, ?_⟩
      · rw [hx']
        omega
      · rw [hx']
        omega
      · rw [hy']
        split_ifs <;> omega
      · rw [hy']
        split_ifs <;> omega
      · rw [hx', hy']
        intro _
        omega
      · rw [hy']
        split_ifs <;> omega
      · intro hne
        obtain ⟨hrow, hsame, hle, -⟩ := hfirst hne
        have hshort : ¬ 79 ≤ d.screenX := fun hlong => hne (hstart (by omega))
        rw [hx', hy', if_neg hshort]
        omega
      · rw [hnext]
        exact htyped.type hcell
      · rw [hnext, hvga]
        exact hahead.type hput hcell

/-! ### Backspace -/

variable {dev : Devices}

/-- Backspace goes to the left only if there is a typed character. -/
theorem left (h : RowsAt dev.disp pending dev.startOfTyping row) (hmove : dev.eraseMove = .left) :
    1 ≤ dev.disp.screenX ∧ (dev.startOfTyping.1 ≠ 0 → dev.startOfTyping.1 < dev.disp.screenX) ∧
      (numCols * row + dev.startOfTyping.1 : Int) % 80 ≠ 79 ∧
      numCols * row + dev.startOfTyping.1 < dev.disp.nextCell := by
  have hxLo := h.grid.xLo
  have hxHi := h.grid.xHi
  have hrow := h.rowCursor
  have hfirst := h.first
  have hx : (u32 dev.disp.screenX : Int) = dev.disp.screenX := by
    simp only [u32]
    omega
  unfold Devices.eraseMove at hmove
  split_ifs at hmove with hcorner hcol
  simp only [Display.nextCell, numCols]
  by_cases hzero : dev.startOfTyping.1 = 0
  · rw [hzero] at hcol ⊢
    omega
  -- A line that starts further right has stayed in its row, to the right of its start.
  · obtain ⟨hsame, hy, hle, hend⟩ := hfirst hzero
    omega

/-- Backspace goes up only if typing started in column 0 of a row above. -/
theorem up (h : RowsAt dev.disp pending dev.startOfTyping row) (hmove : dev.eraseMove = .up) :
    dev.startOfTyping.1 = 0 ∧ dev.disp.screenX = 0 ∧ row < dev.disp.screenY ∧
      0 < dev.disp.screenY := by
  have hxLo := h.grid.xLo
  have hxHi := h.grid.xHi
  have hyLo := h.grid.yLo
  have hyHi := h.grid.yHi
  have hrow := h.rowStart
  have hx : (u32 dev.disp.screenX : Int) = dev.disp.screenX := by
    simp only [u32]
    omega
  have hy : (u32 dev.disp.screenY : Int) = dev.disp.screenY := by
    simp only [u32]
    omega
  unfold Devices.eraseMove at hmove
  split_ifs at hmove with hcorner hcol hbelow
  have hzero : dev.startOfTyping.1 = 0 := by
    by_contra hne
    obtain ⟨hsame, hcursor, -, -⟩ := h.first hne
    omega
  omega

/-- Some typed character is left where Backspace does not stay. -/
theorem pending_ne_nil (h : RowsAt dev.disp pending dev.startOfTyping row)
    (hmove : dev.eraseMove ≠ .stay) : pending ≠ [] := by
  have hbase : (numCols * row + dev.startOfTyping.1 : Int) % 80 ≠ 79 ∧
      numCols * row + dev.startOfTyping.1 < dev.disp.nextCell := by
    cases hcase : dev.eraseMove with
    | stay => exact absurd hcase hmove
    | left => exact (h.left hcase).2.2
    | up =>
        obtain ⟨hzero, hx, hrow, -⟩ := h.up hcase
        simp only [Display.nextCell, hzero, hx, numCols]
        omega
  exact h.typed.ne_nil hbase.1 hbase.2

/-- The cell at the cursor after a Backspace. -/
theorem target (h : RowsAt dev.disp pending dev.startOfTyping row) :
    numCols * dev.eraseTarget.2 + dev.eraseTarget.1 =
      if dev.eraseMove = .left then dev.disp.nextCell - 1 else dev.disp.nextCell := by
  cases hmove : dev.eraseMove with
  | stay =>
      simp only [Devices.eraseTarget, hmove]
      rfl
  | left =>
      simp only [Devices.eraseTarget, hmove, Display.nextCell, if_true]
      omega
  | up =>
      obtain ⟨-, hx, -, -⟩ := h.up hmove
      simp only [Devices.eraseTarget, hmove, Display.nextCell, hx, numCols, reduceCtorEq, if_false]
      omega

/-- What is typed up to the cell that Backspace blanks. -/
theorem typed_erase (h : RowsAt dev.disp pending dev.startOfTyping row) :
    TypedTo (erasedCells pending (numCols * dev.eraseTarget.2 + dev.eraseTarget.1))
      (numCols * row + dev.startOfTyping.1)
      (numCols * dev.eraseTarget.2 + dev.eraseTarget.1) := by
  rw [h.target]
  split
  · next hmove => exact h.typed.erase_last (h.left hmove).2.2.2
  · exact h.typed.erase_behind (.inl (Int.le_refl _))

/-- Where Backspace goes, the line still starts in its row. -/
theorem erase_place (h : RowsAt dev.disp pending dev.startOfTyping row) {d' : Display}
    (hx : d'.screenX = dev.eraseTarget.1) (hy : d'.screenY = dev.eraseTarget.2) :
    d'.OnGrid ∧ row ≤ d'.screenY ∧ (dev.startOfTyping.1 ≠ 0 → row = dev.startOfTyping.2 ∧
      d'.screenY = row ∧ dev.startOfTyping.1 ≤ d'.screenX ∧
        (d'.screenX = 80 → dev.startOfTyping.1 = 80)) := by
  have hleft := h.left
  have hup := h.up
  obtain ⟨⟨hxLo, hxHi, hyLo, hyHi, hedge⟩, hrowStart, hrowCursor, hfirst, -, -⟩ := h
  cases hmove : dev.eraseMove with
  | stay =>
      simp only [Devices.eraseTarget, hmove] at hx hy
      rw [hx, hy]
      exact ⟨⟨hx ▸ hxLo, hx ▸ hxHi, hy ▸ hyLo, hy ▸ hyHi, hx ▸ hy ▸ hedge⟩, hrowCursor, hfirst⟩
  | left =>
      obtain ⟨hpos, hlt, -⟩ := hleft hmove
      simp only [Devices.eraseTarget, hmove] at hx hy
      refine ⟨⟨by omega, by omega, by omega, by omega, by omega⟩, by omega, fun hne => ?_⟩
      have hstart := hfirst hne
      have hright := hlt hne
      omega
  | up =>
      obtain ⟨hzero, hcol, hrow, hpos⟩ := hup hmove
      simp only [Devices.eraseTarget, hmove, numCols] at hx hy
      exact ⟨⟨by omega, by omega, by omega, by omega, by omega⟩, by omega,
        fun hne => absurd hzero hne⟩

/-- After a Backspace the cells of the line still reach up to the cursor. -/
theorem erase (h : RowsAt dev.disp pending dev.startOfTyping row) {d' : Display}
    (hx : d'.screenX = dev.eraseTarget.1) (hy : d'.screenY = dev.eraseTarget.2)
    (hput : PutAt (numCols * dev.eraseTarget.2 + dev.eraseTarget.1) blank dev.disp.vga d'.vga) :
    RowsAt d' (erasedCells pending (numCols * dev.eraseTarget.2 + dev.eraseTarget.1))
      dev.startOfTyping row := by
  have hnext : d'.nextCell = numCols * dev.eraseTarget.2 + dev.eraseTarget.1 := by
    rw [Display.nextCell, hx, hy]
  have hbehind : dev.disp.nextCell ≤ numCols * dev.eraseTarget.2 + dev.eraseTarget.1 + 1 := by
    rw [h.target]
    split <;> omega
  have hahead := h.ahead.erase hput hbehind
  have htyped := h.typed_erase
  obtain ⟨hgrid, hrow, hfirst⟩ := h.erase_place hx hy
  refine ⟨hgrid, h.rowStart, hrow, hfirst, ?_, ?_⟩
  · rw [hnext]
    exact htyped
  · rw [hnext]
    exact hahead

end RowsAt

namespace Typing

variable {s : Typing} {term : Nat} {row : Int} {scancode : UInt8}

/-- A single terminal with a line on its screen. -/
structure Rows (s : Typing) (term : Nat) (row : Int) : Prop where
  single : s.dev.Single term
  line : RowsAt s.dev.disp s.pending s.dev.startOfTyping row

/-- A printable key does not wrap a line that started to the right of column 0. -/
def WrapOk (s : Typing) : ConsoleEvent → Prop
  | .key scancode _ => scancode &&& 0x80 = 0 →
      0x20 ≤ kbdusChar scancode ∧ kbdusChar scancode < 0x7F →
        numCols - 1 ≤ s.dev.disp.screenX → s.dev.startOfTyping.1 = 0
  | .serve _ => True
  | .launch _ => True
  | .write _ => True

/-- A cell that is ahead of the cursor, or in the last column, may be blanked. -/
theorem Rows.mayBlank (h : s.Rows term row) {cell : Int}
    (hbase : numCols * row + s.dev.startOfTyping.1 ≤ cell)
    (hcell : s.dev.disp.nextCell ≤ cell ∨ cell % 80 = 79) : s.MayBlank cell := by
  refine .inr fun i hi hat => ?_
  have hchar := h.line.ahead.char i hi (hat ▸ hbase) (by omega)
  have hattr := h.line.ahead.attr i hi
  rw [screen, Devices.screenOf_displayed]
  exact Prod.ext hchar hattr

/-- Every Backspace finds the cell typed last, or a blank one, where the handler looks. -/
theorem Rows.eraseMatches (h : s.Rows term row) (e : ConsoleEvent) : s.EraseMatches e := by
  cases e with
  | key scancode stray =>
      intro _
      have hle := h.line.typed.le
      cases hmove : s.dev.eraseMove with
      | stay => exact h.mayBlank hle (.inl (Int.le_refl _))
      | left =>
          obtain ⟨-, -, -, hlt⟩ := h.line.left hmove
          refine ⟨h.line.pending_ne_nil (by rw [hmove]; exact EraseMove.noConfusion), ?_⟩
          show s.MayBlank (s.dev.disp.nextCell - 1)
          by_cases hcol : (s.dev.disp.nextCell - 1) % 80 = 79
          · exact h.mayBlank (by omega) (.inr hcol)
          · exact .inl (h.line.typed.head hlt hcol)
      | up =>
          obtain ⟨-, hx, -, -⟩ := h.line.up hmove
          have hcell : s.dev.disp.nextCell = numCols * s.dev.disp.screenY := by
            rw [Display.nextCell, hx, Int.add_zero]
          refine ⟨h.line.pending_ne_nil (by rw [hmove]; exact EraseMove.noConfusion), ?_⟩
          rw [← hcell]
          exact h.mayBlank hle (.inl (Int.le_refl _))
  | serve _ => trivial
  | launch _ => trivial
  | write _ => trivial

/-! ## The line after an event -/

theorem Rows.backspace (h : s.Rows term row) (hb : Devices.isBackspace scancode)
    (stray : Option Int) : RowsAt (s.dev.keyboardHandler scancode stray).disp
      (s.pendingAfter (.key scancode stray)) (s.dev.keyboardHandler scancode stray).startOfTyping
      row := by
  have hctrl : backspaceKey ≠ ctrlKey := by decide
  have halt : backspaceKey ≠ altKey := by decide
  have henter : backspaceKey ≠ enterKey := by decide
  have he : Devices.IsEditing (.key scancode stray) := fun _ => hb.2 ▸ ⟨hctrl, halt⟩
  rw [pendingAfter_backspace h.single hb,
    Devices.keyboardHandler_start h.single he fun _ => hb.2 ▸ henter,
    Devices.keyboardHandler_backspace_disp hb]
  refine RowsAt.setVidEntry (h.line.erase ?_ ?_ ?_) _
  · rfl
  · rfl
  · exact Display.putCell_putAt (d := s.dev.disp.setVidEntry vgaEntry) frameOf_vgaEntry _ _ blank

theorem Rows.print (h : s.Rows term row) (hpress : scancode &&& 0x80 = 0)
    (hc : 0x20 ≤ kbdusChar scancode ∧ kbdusChar scancode < 0x7F) (stray : Option Int)
    (hwrap : s.WrapOk (.key scancode stray)) :
    ∃ row', RowsAt (s.dev.keyboardHandler scancode stray).disp
      (s.pendingAfter (.key scancode stray)) (s.dev.keyboardHandler scancode stray).startOfTyping
      row' := by
  have hctrl : kbdusChar scancode ≠ ctrlKey :=
    Devices.ne_of_printable hc (.inr (by decide))
  have halt : kbdusChar scancode ≠ altKey :=
    Devices.ne_of_printable hc (.inr (by decide))
  have henter : kbdusChar scancode ≠ enterKey :=
    Devices.ne_of_printable hc (.inl (by decide))
  have hframe : frameOf (s.dev.disp.setVidEntry vgaEntry).video.pageTableVid0 = vimMemIndex :=
    frameOf_vgaEntry
  have hstart : numCols - 1 ≤ (s.dev.disp.setVidEntry vgaEntry).screenX →
      s.dev.startOfTyping.1 = 0 := hwrap hpress hc
  have hcursor : (s.dev.disp.setVidEntry vgaEntry).AtCursor term :=
    ⟨h.single.cursor.x, h.single.cursor.y⟩
  obtain ⟨row', hrows⟩ := (h.line.setVidEntry vgaEntry).wrap hframe hstart term
  generalize hw : (s.dev.disp.setVidEntry vgaEntry).wrapBeforePrint term = w at hrows
  have hwcursor : w.AtCursor term := hw ▸ hcursor.wrapBeforePrint
  obtain ⟨hcol, hlong⟩ : w.screenX ≠ numCols - 1 ∧
      (numCols - 1 ≤ w.screenX → numCols - 1 ≤ s.dev.disp.screenX) := by
    rw [← hw]
    exact Display.wrapBeforePrint_screenX
  have hfits : 79 ≤ w.screenX → w.screenY ≤ 23 := by
    intro hend
    have hxHi := hrows.grid.xHi
    have hedge := hrows.grid.edge
    simp only [numCols] at hcol
    omega
  have hline := Devices.shiftChar_not_newline s.dev.kbd hc
  have he : Devices.IsEditing (.key scancode stray) := fun _ => ⟨hctrl, halt⟩
  refine ⟨row', ?_⟩
  rw [pendingAfter_print h.single hpress hc stray hw hrows.grid hwcursor hfits,
    Devices.keyboardHandler_start h.single he fun _ => henter,
    Devices.keyboardHandler_print_disp hpress hc h.single.ctrl, h.single.cur, hw]
  exact (hrows.print hwcursor hline hcol fun hend => hstart (hlong hend)).setVidEntry _

theorem Rows.enter (h : s.Rows term row) (hpress : scancode &&& 0x80 = 0)
    (hc : kbdusChar scancode = enterKey) (stray : Option Int) :
    ∃ row', RowsAt (s.dev.keyboardHandler scancode stray).disp
      (s.pendingAfter (.key scancode stray)) (s.dev.keyboardHandler scancode stray).startOfTyping
      row' := by
  have hline := h.line.setVidEntry vgaEntry
  have hcursor : (s.dev.disp.setVidEntry vgaEntry).AtCursor term :=
    ⟨h.single.cursor.x, h.single.cursor.y⟩
  obtain ⟨hcol, hgrid, hahead⟩ :=
    Display.newLine_ahead hline.grid hcursor frameOf_vgaEntry hline.blankAhead
  have hempty := RowsAt.empty hgrid hahead (s.pendingAfter (.key scancode stray))
  have hzero : u32 0 = 0 := rfl
  rw [hcol, hzero] at hempty
  rw [Devices.keyboardHandler_enter_start hpress hc, Devices.keyboardHandler_enter_disp hpress hc,
    h.single.cur]
  exact ⟨_, hempty.setVidEntry _⟩

/-- A key that is neither printable nor Backspace nor Enter. -/
theorem Rows.other (h : s.Rows term row) {stray : Option Int}
    (he : Devices.IsEditing (.key scancode stray))
    (hother : scancode &&& 0x80 = 0 → kbdusChar scancode ≠ backspaceKey ∧
      kbdusChar scancode ≠ enterKey ∧ ¬ (0x20 ≤ kbdusChar scancode ∧ kbdusChar scancode < 0x7F)) :
    RowsAt (s.dev.keyboardHandler scancode stray).disp
      (s.pendingAfter (.key scancode stray)) (s.dev.keyboardHandler scancode stray).startOfTyping
      row := by
  have hdisp : (s.dev.keyboardHandler scancode stray).disp =
      (s.dev.disp.setVidEntry vgaEntry).setVidEntry s.dev.disp.video.pageTableVid0 := by
    have hoverride : s.dev.kbBegin.kbOverride.disp = s.dev.disp.setVidEntry vgaEntry :=
      Devices.kbOverride_disp _
    by_cases hpress : scancode &&& 0x80 = 0
    · obtain ⟨hctrl, halt⟩ := he hpress
      obtain ⟨hback, henter, hc⟩ := hother hpress
      rw [Devices.keyboardHandler_press_disp hpress, h.single.cur,
        Devices.kbPress_other_disp h.single.override hctrl halt hback henter hc, hoverride]
    · show ((s.dev.kbBegin.kbOverride.kbScancode s.dev.term.curTermNum scancode
        stray).disp).setVidEntry _ = _
      rw [Devices.kbScancode, if_pos hpress, ← hoverride]
  rw [pendingAfter_other h.single he hother,
    Devices.keyboardHandler_start h.single he fun hpress => (hother hpress).2.1, hdisp]
  exact (h.line.setVidEntry vgaEntry).setVidEntry _

theorem Rows.write (h : s.Rows term row) (buf : List UInt8) :
    ∃ row', RowsAt (s.dev.terminalWrite buf).disp (s.pendingAfter (.write buf))
      (s.dev.terminalWrite buf).startOfTyping row' := by
  obtain ⟨hgrid, hahead⟩ :=
    Display.puts_ahead h.line.grid h.single.cursor h.line.blankAhead buf
  have hdisp : (s.dev.terminalWrite buf).disp = s.dev.disp.puts term term buf := by
    show (s.dev.puts buf).disp = _
    rw [Devices.puts_disp, h.single.service, h.single.cur]
  have hstart : (s.dev.terminalWrite buf).startOfTyping =
      (u32 (s.dev.terminalWrite buf).disp.screenX,
        u32 (s.dev.terminalWrite buf).disp.screenY) := rfl
  rw [hstart, hdisp]
  exact ⟨_, RowsAt.empty hgrid hahead _⟩

/-- Any event of a single terminal keeps the line one whose cells reach up to the cursor, unless it
wraps one that started to the right of column 0. -/
theorem Rows.step (h : s.Rows term row) {e : ConsoleEvent} (he : Devices.IsEditing e)
    (hwrap : s.WrapOk e) : ∃ row', (s.step e).Rows term row' := by
  have hsingle := Devices.consoleStep_single h.single he
  suffices hline : ∃ row', RowsAt (consoleStep s.dev e).disp (s.pendingAfter e)
      (consoleStep s.dev e).startOfTyping row' by
    obtain ⟨row', hline⟩ := hline
    exact ⟨row', hsingle, hline⟩
  cases e with
  | key scancode stray =>
      by_cases hpress : scancode &&& 0x80 = 0
      · by_cases hback : kbdusChar scancode = backspaceKey
        · exact ⟨row, h.backspace ⟨hpress, hback⟩ stray⟩
        · by_cases henter : kbdusChar scancode = enterKey
          · exact h.enter hpress henter stray
          · by_cases hc : 0x20 ≤ kbdusChar scancode ∧ kbdusChar scancode < 0x7F
            · exact h.print hpress hc stray hwrap
            · exact ⟨row, h.other he fun _ => ⟨hback, henter, hc⟩⟩
      · exact ⟨row, h.other he fun hmake => absurd hmake hpress⟩
  | serve _ => exact he.elim
  | launch _ => exact he.elim
  | write buf => exact h.write buf

/-- The screen is cleared, as `terminal_open` leaves it. -/
def Cleared (mem : Nat → UInt8) : Prop :=
  ∀ i : Nat, i < 2000 → mem (vimMemIndex + 2 * i) = blank ∧ mem (vimMemIndex + (2 * i + 1)) = attrib

theorem start_rows {mem : Nat → UInt8} (hmem : Cleared mem) : (start mem).Rows 0 0 := by
  have hblank : BlankFrom (start mem).dev.disp.vga 0 0 := by
    constructor
    · intro i hi
      have hodd : 2 * i + 1 < fourKb := by
        simp only [fourKb]
        omega
      show (start mem).dev.disp.video.page vimMemIndex (2 * i + 1) = attrib
      rw [Video.page, if_pos hodd]
      exact (hmem i hi).2
    · intro i hi _ _
      have heven : 2 * i < fourKb := by
        simp only [fourKb]
        omega
      show (start mem).dev.disp.video.page vimMemIndex (2 * i) = blank
      rw [Video.page, if_pos heven]
      exact (hmem i hi).1
  have hgrid : (start mem).dev.disp.OnGrid := by
    refine ⟨Int.le_refl 0, ?_, Int.le_refl 0, ?_, fun hedge => ?_⟩
    · show (0 : Int) ≤ 80
      omega
    · show (0 : Int) ≤ 24
      omega
    · cases hedge
  exact ⟨boot_single mem, RowsAt.empty hgrid hblank []⟩

/-- On a cleared screen, every Backspace of a run erases only what was typed last if no line wraps
that starts to the right of column 0. Lines that start in column 0 may wrap and scroll. -/
theorem backspaceLaw_of_wrapOk {mem : Nat → UInt8} (hmem : Cleared mem) (es : List ConsoleEvent)
    (hes : ∀ e ∈ es, Devices.IsEditing e) (hwrap : Meets step WrapOk (start mem) es) :
    Meets step BackspaceLaw (start mem) es := by
  refine hwrap.imp (I := fun s => ∃ row, s.Rows 0 row) ?_ ?_ hes ⟨0, start_rows hmem⟩
  · rintro s e ⟨row, h⟩ he hok
    exact h.step he hok
  · rintro s e ⟨row, h⟩ _ _
    exact (backspaceLaw_iff h.single e).2 (h.eraseMatches e)

end Typing

end Ece391Kernel
