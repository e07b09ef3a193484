import Ece391Kernel.Devices.VideoOps
import Ece391Kernel.Devices.Screens

/-!
# What Backspace erases

On a single terminal, the cells of the characters typed on the current line are followed through
the operations that `consoleOps` lists: a printable key adds the cell it writes, a scroll moves all
cells up a row, Enter starts a new line, and a Backspace that blanks the last cell removes it.

The handler knows none of these cells. It compares the shared coordinates with the place where
typing started, and moves one cell to the left, to the row above, or not at all. `erases_last_iff`:
every Backspace of a run changes at most the cell typed last exactly when this cell, or a blank
one, is where the handler looks for it.
-/

namespace Ece391Kernel

open Transition

/-! ## Stores through the VGA mapping -/

theorem frameOf_vgaEntry : frameOf vgaEntry = vimMemIndex := by decide

namespace Video

variable {v : Video}

/-- While `video_mem` reaches VGA memory, a store at any offset changes at most that byte of it. -/
theorem store_page (hframe : frameOf v.pageTableVid0 = vimMemIndex) (off : Int) (b : UInt8)
    {r : Nat} (hr : r < fourKb) :
    (v.store off b).page vimMemIndex r = if off = r then b else v.page vimMemIndex r := by
  simp only [page, if_pos hr]
  by_cases hfirst : 0 ≤ off ∧ off < (fourKb : Nat)
  · rw [store_mem hfirst.1 hfirst.2, hframe, Function.update_apply]
    have hiff : vimMemIndex + r = vimMemIndex + off.toNat ↔ off = r := by omega
    simp only [hiff]
  · rw [if_neg (by omega : ¬ off = r)]
    by_cases hmore : (fourKb : Nat) ≤ off ∧ off < 4 * (fourKb : Nat)
    · have haddress : v.address off = some (vimMemIndex + off.toNat) := by
        rw [address, if_neg hfirst, if_pos hmore]
      simp only [store, haddress]
      exact Function.update_of_ne (by omega) ..
    · have haddress : v.address off = none := by
        rw [address, if_neg hfirst, if_neg hmore]
      simp only [store, haddress]

/-- The two bytes of a visible cell after a cell has been written. -/
theorem putCell_page (hframe : frameOf v.pageTableVid0 = vimMemIndex) (x y : Int) (c : UInt8)
    {i : Nat} (hi : i < 2000) :
    (v.putCell x y c).page vimMemIndex (2 * i) =
        (if numCols * y + x = i then c else v.page vimMemIndex (2 * i)) ∧
      (v.putCell x y c).page vimMemIndex (2 * i + 1) =
        if numCols * y + x = i then attrib else v.page vimMemIndex (2 * i + 1) := by
  have hfirst : frameOf (v.store (cellOffset x y) c).pageTableVid0 = vimMemIndex := hframe
  have heven : 2 * i < fourKb := by
    simp only [fourKb]
    omega
  have hodd : 2 * i + 1 < fourKb := by
    simp only [fourKb]
    omega
  have hchar : cellOffset x y = (2 * i : Nat) ↔ (numCols * y + x : Int) = i := by
    simp only [cellOffset]
    omega
  have hattrib : cellOffset x y + 1 = (2 * i + 1 : Nat) ↔ (numCols * y + x : Int) = i := by
    simp only [cellOffset]
    omega
  have hother : ¬ cellOffset x y + 1 = (2 * i : Nat) := by
    simp only [cellOffset]
    omega
  have hother' : ¬ cellOffset x y = (2 * i + 1 : Nat) := by
    simp only [cellOffset]
    omega
  unfold putCell
  rw [store_page hfirst _ _ heven, store_page hfirst _ _ hodd, store_page hframe _ _ heven,
    store_page hframe _ _ hodd, if_neg hother, if_neg hother']
  simp only [hchar, hattrib, and_self]

end Video

namespace Display

variable {d : Display}

/-- The cursor of a terminal is where the shared coordinates are. -/
structure AtCursor (d : Display) (term : Nat) : Prop where
  x : d.termCursorX term = u32 d.screenX
  y : d.termCursorY term = u32 d.screenY

theorem atCursor_moveTo {term : Nat} {x y : Int} : (d.moveTo term x y).AtCursor term :=
  ⟨Function.update_self .., Function.update_self ..⟩

theorem atCursor_clearChar {term : Nat} (h : d.AtCursor term) : d.clearChar.AtCursor term :=
  ⟨h.x, h.y⟩

theorem atCursor_putc {service cur : Nat} {c : UInt8} :
    (d.putc service cur c).AtCursor service := by
  rw [putc_eq]
  constructor
  · rw [putcFinish_termCursorX, putcFinish_screenX]
    exact Function.update_self ..
  · rw [putcFinish_termCursorY, putcFinish_screenY]
    exact Function.update_self ..

theorem AtCursor.puts {service cur : Nat} (h : d.AtCursor service) (s : List UInt8) :
    (d.puts service cur s).AtCursor service := by
  induction s generalizing d with
  | nil => exact h
  | cons c s ih => exact ih atCursor_putc

end Display

namespace Screen

/-- Character and attribute of a cell, counted row by row. -/
def cell (s : Screen) (i : Nat) : UInt8 × UInt8 := (s.page (2 * i), s.page (2 * i + 1))

end Screen

/-! ## Where Backspace goes -/

/-- Backspace stays where it is, goes one cell to the left, or goes to the row above. -/
inductive EraseMove where
  | stay
  | left
  | up
deriving DecidableEq

namespace Devices

variable {d : Devices}

/-- The move of a Backspace found in this state. -/
def eraseMove (d : Devices) : EraseMove :=
  if d.disp.screenX = 0 ∧ d.disp.screenY = 0 then .stay
  else if u32 d.disp.screenX ≠ d.startOfTyping.1 then .left
  else if d.startOfTyping.2 < u32 d.disp.screenY then .up
  else .stay

/-- The coordinates that the move leads to. -/
def eraseTarget (d : Devices) : Int × Int :=
  match d.eraseMove with
  | .stay => (d.disp.screenX, d.disp.screenY)
  | .left => (d.disp.screenX - 1, d.disp.screenY)
  | .up => (numCols, d.disp.screenY - 1)

theorem backspaceTarget_start :
    d.disp.backspaceTarget d.startOfTyping.1 d.startOfTyping.2 = d.eraseTarget := by
  unfold Display.backspaceTarget eraseTarget eraseMove
  split_ifs <;> rfl

/-- The display after a Backspace. -/
theorem keyboardHandler_backspace_disp {scancode : UInt8} (hb : isBackspace scancode)
    (stray : Option Int) :
    (d.keyboardHandler scancode stray).disp =
      (((d.disp.setVidEntry vgaEntry).moveTo d.term.curTermNum d.eraseTarget.1
        d.eraseTarget.2).clearChar).setVidEntry d.disp.video.pageTableVid0 := by
  have hdisp : d.kbBegin.kbOverride.disp = d.disp.setVidEntry vgaEntry := kbOverride_disp _
  have hstart : (d.kbBegin.kbOverride.kbd.xStart, d.kbBegin.kbOverride.kbd.yStart) =
      d.startOfTyping := kbOverride_start _
  have hx : d.kbBegin.kbOverride.kbd.xStart = d.startOfTyping.1 := congrArg Prod.fst hstart
  have hy : d.kbBegin.kbOverride.kbd.yStart = d.startOfTyping.2 := congrArg Prod.snd hstart
  have htarget : (d.disp.setVidEntry vgaEntry).backspaceTarget d.startOfTyping.1
      d.startOfTyping.2 = d.eraseTarget := backspaceTarget_start
  have hpress : ¬ scancode &&& 0x80 ≠ 0 := fun hne => hne hb.1
  show ((d.kbBegin.kbOverride.kbScancode d.term.curTermNum scancode stray).disp).setVidEntry _ = _
  unfold kbScancode
  rw [if_neg hpress, hb.2, kbPress_backspace_disp]
  unfold kbBackspace
  simp only [hdisp, hx, hy, htarget]

theorem keyActions_backspace {scancode : UInt8} (hb : isBackspace scancode) (stray : Option Int) :
    d.keyActions (.key scancode stray) = [.erase] := by
  have hpress : ¬ scancode &&& 0x80 ≠ 0 := fun hne => hne hb.1
  simp only [keyActions, pressActions, if_neg hpress, hb.2, if_true]

theorem keyboardHandler_backspace_cur {scancode : UInt8} (hb : isBackspace scancode)
    (stray : Option Int) :
    (d.keyboardHandler scancode stray).term.curTermNum = d.term.curTermNum := by
  have hstep := lineState_step d (.key scancode stray)
  rw [keyActions_backspace hb stray] at hstep
  exact congrArg LineState.cur hstep

/-- The logical screen of the displayed terminal is in VGA memory. -/
theorem screenOf_displayed (d : Devices) :
    d.screenOf d.term.curTermNum = ⟨d.disp.video.page vimMemIndex,
      d.disp.termCursorX d.term.curTermNum, d.disp.termCursorY d.term.curTermNum⟩ := by
  have hbase : screenBase d.term.curTermNum d.term.curTermNum = vimMemIndex := if_pos rfl
  simp only [screenOf, Display.view, hbase]

/-- The displayed screen after a Backspace. -/
structure Erased (d : Devices) (s : Screen) : Prop where
  cell : ∀ i, i < 2000 → s.cell i =
    if numCols * d.eraseTarget.2 + d.eraseTarget.1 = i then (blank, attrib)
    else (d.screenOf d.term.curTermNum).cell i
  x : s.x = u32 d.eraseTarget.1
  y : s.y = u32 d.eraseTarget.2

theorem keyboardHandler_erased {scancode : UInt8} (hb : isBackspace scancode)
    (stray : Option Int) :
    d.Erased ((d.keyboardHandler scancode stray).screenOf d.term.curTermNum) := by
  have hshown := screenOf_displayed (d.keyboardHandler scancode stray)
  rw [keyboardHandler_backspace_cur hb, keyboardHandler_backspace_disp hb] at hshown
  rw [hshown]
  refine ⟨fun i hi => ?_, ?_, ?_⟩
  · have hframe : frameOf (d.disp.setVidEntry vgaEntry).video.pageTableVid0 = vimMemIndex :=
      frameOf_vgaEntry
    have hcell := Video.putCell_page hframe d.eraseTarget.1 d.eraseTarget.2 blank hi
    rw [screenOf_displayed]
    by_cases hat : numCols * d.eraseTarget.2 + d.eraseTarget.1 = i
    · rw [if_pos hat, if_pos hat] at hcell
      rw [if_pos hat]
      exact Prod.ext hcell.1 hcell.2
    · rw [if_neg hat, if_neg hat] at hcell
      rw [if_neg hat]
      exact Prod.ext hcell.1 hcell.2
  · exact Function.update_self ..
  · exact Function.update_self ..

/-! ## A single terminal -/

/-- The events of a single terminal: its writes, and every key but Ctrl and Alt. -/
def IsEditing : ConsoleEvent → Prop
  | .write _ => True
  | .key scancode _ =>
      scancode &&& 0x80 = 0 → kbdusChar scancode ≠ ctrlKey ∧ kbdusChar scancode ≠ altKey
  | .serve _ => False
  | .launch _ => False

/-- The terminal is displayed and in service, its cursor is where the shared coordinates are, and
neither Ctrl nor Alt is down. -/
structure Single (d : Devices) (term : Nat) : Prop where
  cur : d.term.curTermNum = term
  service : d.term.termInService = term
  ctrl : d.kbd.ctrlPressed = false
  alt : d.kbd.altPressed = false
  cursor : d.disp.AtCursor term

theorem press_ctrlPressed (k : Keyboard) {c : UInt8} (hc : c ≠ ctrlKey) :
    (k.press c).ctrlPressed = k.ctrlPressed := by
  unfold Keyboard.press
  simp only [if_neg hc]
  split_ifs <;> rfl

theorem release_ctrlPressed {k : Keyboard} (h : k.ctrlPressed = false) (c : UInt8) :
    (k.release c).ctrlPressed = false := by
  unfold Keyboard.release
  split_ifs
  · exact h
  · rfl
  · exact h
  · exact h

theorem release_altPressed {k : Keyboard} (h : k.altPressed = false) (c : UInt8) :
    (k.release c).altPressed = false := by
  unfold Keyboard.release
  split_ifs
  · exact h
  · exact h
  · rfl
  · exact h

theorem pushChar_ctrlPressed (k : Keyboard) (c : UInt8) :
    (k.pushChar c).ctrlPressed = k.ctrlPressed := by
  unfold Keyboard.pushChar
  split <;> rfl

theorem pushChar_altPressed (k : Keyboard) (c : UInt8) :
    (k.pushChar c).altPressed = k.altPressed := by
  unfold Keyboard.pushChar
  split <;> rfl

theorem kbSwitch_of_released (h : d.kbd.altPressed = false) (cur : Nat) (c : UInt8) :
    d.kbSwitch cur c = d := by
  unfold kbSwitch
  rw [h]

variable {term : Nat}

theorem Single.backspace (h : d.Single term) : (d.kbBackspace term).Single term :=
  ⟨h.cur, h.service, h.ctrl, h.alt, Display.atCursor_clearChar Display.atCursor_moveTo⟩

theorem Single.enter (h : d.Single term) : (d.kbEnter term).Single term :=
  ⟨h.cur, h.service, h.ctrl, h.alt, Display.atCursor_moveTo⟩

theorem Single.print (h : d.Single term) (c : UInt8) : (d.kbPrint term c).Single term := by
  refine ⟨h.cur, h.service, ?_, ?_, ?_⟩
  · exact (pushChar_ctrlPressed d.kbd c).trans h.ctrl
  · exact (pushChar_altPressed d.kbd c).trans h.alt
  · show ((d.disp.wrapBeforePrint term).putc d.term.termInService d.term.curTermNum c).AtCursor term
    rw [h.service]
    exact Display.atCursor_putc

theorem Single.pressed (h : d.Single term) {c : UInt8} (hctrl : c ≠ ctrlKey) (halt : c ≠ altKey) :
    ({ d with kbd := d.kbd.press c } : Devices).Single term :=
  ⟨h.cur, h.service, (press_ctrlPressed d.kbd hctrl).trans h.ctrl,
    (press_altPressed d.kbd halt).trans h.alt, h.cursor⟩

theorem Single.press (h : d.Single term) {c : UInt8} (hctrl : c ≠ ctrlKey) (halt : c ≠ altKey)
    (stray : Option Int) : (d.kbPress term c stray).Single term := by
  unfold kbPress
  generalize hd0 : ({ d with kbd := d.kbd.press c } : Devices) = d0
  have h0 : d0.Single term := hd0 ▸ h.pressed hctrl halt
  simp only [kbSwitch_of_released h0.alt, kbCtrl_of_released h0.ctrl]
  generalize hd1 : (if c = backspaceKey then d0.kbBackspace term else d0) = d1
  have h1 : d1.Single term := by
    rw [← hd1]
    split
    · exact h0.backspace
    · exact h0
  generalize hd2 : (if c = enterKey then d1.kbEnter term else d1) = d2
  have h2 : d2.Single term := by
    rw [← hd2]
    split
    · exact h1.enter
    · exact h1
  split
  · exact h2.print _
  · exact h2

theorem Single.override (h : d.Single term) : d.kbBegin.kbOverride.Single term := by
  unfold kbOverride
  split
  · exact ⟨h.cur, h.cur, h.ctrl, h.alt, ⟨h.cursor.x, h.cursor.y⟩⟩
  · exact ⟨h.cur, h.cur, h.ctrl, h.alt, ⟨h.cursor.x, h.cursor.y⟩⟩

theorem Single.write (h : d.Single term) (buf : List UInt8) :
    (d.terminalWrite buf).Single term := by
  have hterm : (d.puts buf).term = d.term := puts_term d buf
  have hkbd : (d.puts buf).kbd = d.kbd := puts_kbd d buf
  refine ⟨?_, ?_, ?_, ?_, ?_⟩
  · exact (congrArg Terminal.curTermNum hterm).trans h.cur
  · exact (congrArg Terminal.termInService hterm).trans h.service
  · exact (congrArg Keyboard.ctrlPressed hkbd).trans h.ctrl
  · exact (congrArg Keyboard.altPressed hkbd).trans h.alt
  · show (d.puts buf).disp.AtCursor term
    rw [puts_disp, h.service]
    exact h.cursor.puts buf

/-- The events of a single terminal keep it one. -/
theorem consoleStep_single (h : d.Single term) {e : ConsoleEvent} (he : IsEditing e) :
    (consoleStep d e).Single term := by
  cases e with
  | key scancode stray =>
      have hbegin : d.kbBegin.kbOverride.Single term := h.override
      have hbody : (d.kbBegin.kbOverride.kbScancode d.term.curTermNum scancode stray).Single
          term := by
        unfold kbScancode
        split_ifs with hrel
        · exact ⟨hbegin.cur, hbegin.service, release_ctrlPressed hbegin.ctrl _,
            release_altPressed hbegin.alt _, hbegin.cursor⟩
        · obtain ⟨hctrl, halt⟩ := he (not_not.1 hrel)
          rw [h.cur]
          exact hbegin.press hctrl halt stray
      exact ⟨hbody.cur, h.service, hbody.ctrl, hbody.alt, ⟨hbody.cursor.x, hbody.cursor.y⟩⟩
  | serve _ => exact he.elim
  | launch _ => exact he.elim
  | write buf => exact h.write buf

end Devices

/-! ## The characters typed on the line -/

/-- A single terminal with the cells of the characters typed on the current line and not erased,
the last one first. Cells are counted row by row from the top of the present screen, so a cell
that has scrolled off has a negative number. -/
structure Typing where
  dev : Devices
  pending : List Int

namespace Typing

/-- What an operation of an event makes of the typed cells. `action` is what the event does to the
line: a character is typed in the cell it is written to, and the last cell is erased when
Backspace blanks it. -/
def track (action : Option KeyAction) (pending : List Int) : VideoOp → List Int
  | .scroll => pending.map fun cell => cell - numCols
  | .putCell x y _ =>
      match action with
      | some (.char _) => (numCols * y + x) :: pending
      | some .erase => if pending.head? = some (numCols * y + x) then pending.tail else pending
      | some .enter => pending
      | some (.switch _) => pending
      | none => pending
  | .map _ => pending
  | .clear => pending
  | .copyPage _ _ => pending
  | .reloadCr3 => pending

/-- The typed cells after an event. Enter starts a new line. -/
def pendingAfter (s : Typing) (e : ConsoleEvent) : List Int :=
  if s.dev.keyActions e = [.enter] then []
  else (s.dev.consoleOps e).foldl (track (s.dev.keyActions e).head?) s.pending

/-- One event. -/
def step (s : Typing) (e : ConsoleEvent) : Typing := ⟨consoleStep s.dev e, s.pendingAfter e⟩

/-- At boot nothing is typed. -/
def start (mem : Nat → UInt8) : Typing := ⟨Devices.boot mem, []⟩

/-- The screen of the terminal. -/
def screen (s : Typing) : Screen := s.dev.screenOf s.dev.term.curTermNum

/-- From one screen to the next, no cell but the one typed last has changed, and nothing at all,
the cursor included, when no typed character is left. -/
structure ErasesLast (pending : List Int) (before after : Screen) : Prop where
  cell : ∀ i : Nat, i < 2000 → pending.head? ≠ some (i : Int) → after.cell i = before.cell i
  idle : pending = [] → after.x = before.x ∧ after.y = before.y

/-- The event is not a Backspace, or it is one that erases only what was typed last. -/
def BackspaceLaw (s : Typing) : ConsoleEvent → Prop
  | .key scancode stray => Devices.isBackspace scancode →
      ErasesLast s.pending s.screen (s.step (.key scancode stray)).screen
  | .serve _ => True
  | .launch _ => True
  | .write _ => True

/-- A cell is the one typed last, or it is off the screen or blank. Off the screen includes the
cells before the first one, where no page is present: there the handler page-faults before it can
change a cell. -/
def MayBlank (s : Typing) (cell : Int) : Prop :=
  s.pending.head? = some cell ∨
    ∀ i : Nat, i < 2000 → cell = i → s.screen.cell i = (blank, attrib)

/-- The event is not a Backspace, or it finds, where the handler looks for the last character,
the cell typed last or a blank one: at the cursor if Backspace stays, before the cursor if it goes
to the left, at the start of the row if it goes to the row above. It goes nowhere when no typed
character is left. -/
def EraseMatches (s : Typing) : ConsoleEvent → Prop
  | .key scancode _ => Devices.isBackspace scancode →
      match s.dev.eraseMove with
      | .stay => s.MayBlank (numCols * s.dev.disp.screenY + s.dev.disp.screenX)
      | .left => s.pending ≠ [] ∧
          s.MayBlank (numCols * s.dev.disp.screenY + s.dev.disp.screenX - 1)
      | .up => s.pending ≠ [] ∧ s.MayBlank (numCols * s.dev.disp.screenY)
  | .serve _ => True
  | .launch _ => True
  | .write _ => True

variable {s : Typing}

/-- Blanking a cell changes no other cell, and not that one either if it is blank already. -/
theorem erased_cells_iff {after : Screen} (h : s.dev.Erased after) :
    (∀ i : Nat, i < 2000 → s.pending.head? ≠ some (i : Int) → after.cell i = s.screen.cell i) ↔
      s.MayBlank (numCols * s.dev.eraseTarget.2 + s.dev.eraseTarget.1) := by
  constructor
  · intro hcell
    by_cases hlast : s.pending.head? =
        some (numCols * s.dev.eraseTarget.2 + s.dev.eraseTarget.1)
    · exact .inl hlast
    · refine .inr fun i hi hat => ?_
      rw [← hcell i hi (hat ▸ hlast), h.cell i hi, if_pos hat]
  · intro hblank i hi hne
    rw [h.cell i hi]
    split
    · next hat =>
      rcases hblank with hlast | hblank
      · exact absurd (hat ▸ hlast) hne
      · exact (hblank i hi hat).symm
    · rfl

/-- The cursor does not move exactly when Backspace stays. -/
theorem erased_cursor_iff {term : Nat} (hs : s.dev.Single term) {after : Screen}
    (h : s.dev.Erased after) : (after.x = s.screen.x ∧ after.y = s.screen.y) ↔
      s.dev.eraseMove = .stay := by
  have hx : s.screen.x = u32 s.dev.disp.screenX := by
    rw [screen, Devices.screenOf_displayed, hs.cur]
    exact hs.cursor.x
  have hy : s.screen.y = u32 s.dev.disp.screenY := by
    rw [screen, Devices.screenOf_displayed, hs.cur]
    exact hs.cursor.y
  rw [h.x, h.y, hx, hy]
  unfold Devices.eraseTarget
  cases s.dev.eraseMove with
  | stay => exact ⟨fun _ => rfl, fun _ => ⟨rfl, rfl⟩⟩
  | left =>
      -- Columns one apart are different 32-bit values, on the screen or not.
      constructor
      · intro heq
        simp only [u32] at heq
        omega
      · intro hstay
        cases hstay
  | up =>
      constructor
      · intro heq
        simp only [u32] at heq
        omega
      · intro hstay
        cases hstay

/-- A Backspace on a single terminal obeys the law exactly when the handler looks at the right
cell. -/
theorem backspaceLaw_iff {term : Nat} (hs : s.dev.Single term) (e : ConsoleEvent) :
    s.BackspaceLaw e ↔ s.EraseMatches e := by
  cases e with
  | key scancode stray =>
      refine forall_congr' fun hb => ?_
      have hscreen : (s.step (.key scancode stray)).screen =
          (s.dev.keyboardHandler scancode stray).screenOf s.dev.term.curTermNum := by
        show (s.dev.keyboardHandler scancode stray).screenOf
          (s.dev.keyboardHandler scancode stray).term.curTermNum = _
        rw [Devices.keyboardHandler_backspace_cur hb]
      have herased := Devices.keyboardHandler_erased (d := s.dev) hb stray
      rw [← hscreen] at herased
      have hcells := erased_cells_iff herased
      have hcursor := erased_cursor_iff hs herased
      have hlaw : ErasesLast s.pending s.screen (s.step (.key scancode stray)).screen ↔
          s.MayBlank (numCols * s.dev.eraseTarget.2 + s.dev.eraseTarget.1) ∧
            (s.pending = [] → s.dev.eraseMove = .stay) := by
        rw [← hcells, ← hcursor]
        exact ⟨fun h => ⟨h.cell, h.idle⟩, fun h => ⟨h.1, h.2⟩⟩
      rw [hlaw]
      -- Only a Backspace that stays leaves the cursor, so otherwise a character must be pending.
      unfold Devices.eraseTarget
      cases s.dev.eraseMove with
      | stay => exact and_iff_left fun _ => rfl
      | left =>
          have hcell : numCols * s.dev.disp.screenY + (s.dev.disp.screenX - 1) =
              numCols * s.dev.disp.screenY + s.dev.disp.screenX - 1 := by omega
          simp only [hcell, reduceCtorEq, imp_false]
          exact and_comm
      | up =>
          have hcell : numCols * (s.dev.disp.screenY - 1) + numCols =
              numCols * s.dev.disp.screenY := by
            simp only [numCols]
            omega
          simp only [hcell, reduceCtorEq, imp_false]
          exact and_comm
  | serve _ => exact Iff.rfl
  | launch _ => exact Iff.rfl
  | write _ => exact Iff.rfl

theorem boot_single (mem : Nat → UInt8) : (Devices.boot mem).Single 0 :=
  ⟨rfl, rfl, rfl, rfl, ⟨rfl, rfl⟩⟩

/-- On a single terminal, every Backspace of a run erases only what was typed last exactly when
every Backspace finds it, or a blank cell, where the handler looks. -/
theorem erases_last_iff (mem : Nat → UInt8) (es : List ConsoleEvent)
    (hes : ∀ e ∈ es, Devices.IsEditing e) :
    Meets step BackspaceLaw (start mem) es ↔ Meets step EraseMatches (start mem) es :=
  meets_congr (I := fun s => s.dev.Single 0) (fun _ _ h he => Devices.consoleStep_single h he)
    (fun _ e h _ => backspaceLaw_iff h e) es hes (boot_single mem)

theorem isBackspace_make : Devices.isBackspace 0x0E := ⟨rfl, rfl⟩

theorem isEditing_a : Devices.IsEditing (.key 0x1E none) := by
  intro _
  constructor <;> decide

theorem isEditing_backspace : Devices.IsEditing (.key 0x0E none) := by
  intro _
  constructor <;> decide

/-- `a`, and a Backspace that erases it. -/
def typeAndErase : List ConsoleEvent := [.key 0x1E none, .key 0x0E none]

theorem erases_last_iff_typed : Meets step BackspaceLaw (start fun _ => 0) typeAndErase := by
  refine (erases_last_iff _ typeAndErase fun e he => ?_).2
    ⟨fun hb => ?_, fun _ => ?_, trivial⟩
  · rcases List.mem_cons.1 he with rfl | he
    · exact isEditing_a
    · rw [List.mem_singleton.1 he]
      exact isEditing_backspace
  · exact absurd hb.2 (by decide)
  · have hmove : (step (start fun _ => 0) (.key 0x1E none)).dev.eraseMove = .left := by
      decide +kernel
    rw [hmove]
    exact ⟨by decide +kernel, .inl (by decide +kernel)⟩

/-- A prompt of 79 characters, `a`, which wraps to the next row, and three Backspaces. -/
def eraseIntoPrompt : List ConsoleEvent :=
  [.write (List.replicate 79 0x3E), .key 0x1E none, .key 0x0E none, .key 0x0E none,
    .key 0x0E none]

/-- The third Backspace erases the last character of the prompt. -/
theorem prompt_erased : ¬ ∀ (mem : Nat → UInt8) (es : List ConsoleEvent),
    (∀ e ∈ es, Devices.IsEditing e) → Meets step BackspaceLaw (start mem) es := by
  intro h
  have hediting : ∀ e ∈ eraseIntoPrompt, Devices.IsEditing e := by
    intro e he
    simp only [eraseIntoPrompt, List.mem_cons, List.not_mem_nil, or_false] at he
    rcases he with rfl | rfl | rfl | rfl | rfl
    · trivial
    · exact isEditing_a
    · exact isEditing_backspace
    · exact isEditing_backspace
    · exact isEditing_backspace
  obtain ⟨-, -, -, -, hlaw, -⟩ := h (fun _ => 0) eraseIntoPrompt hediting
  have hcell := (hlaw isBackspace_make).cell 78 (by decide) (by decide +kernel)
  exact absurd hcell (by decide +kernel)

end Typing

end Ece391Kernel
