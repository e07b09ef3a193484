import Ece391Kernel.Devices.State

/-!
# The keyboard interrupt handler

`keyboard_handler` in the order of the source, one definition for each of its parts. The handler
runs behind an interrupt gate, so it is one atomic step (also for the two clock tests, CTRL-1 and
CTRL-2, although the RTC functions they call enable interrupts again). While it runs,
`page_table_vid[0]` maps VGA memory and the displayed terminal counts as the terminal in service;
both are restored at the end.
-/

namespace Ece391Kernel

/-! ## The scancode table -/

@[simp] def shiftKey : UInt8 := 128
@[simp] def capslockKey : UInt8 := 129
@[simp] def backspaceKey : UInt8 := 0x08
@[simp] def ctrlKey : UInt8 := 130
@[simp] def enterKey : UInt8 := 0x0A
@[simp] def f1Key : UInt8 := 131
@[simp] def f2Key : UInt8 := 132
@[simp] def f3Key : UInt8 := 133
@[simp] def altKey : UInt8 := 134

/-- `kbdus`, the US layout; the entries after the last one listed are 0. -/
def kbdus : List UInt8 :=
  [0, 27, '1'.toUInt8, '2'.toUInt8, '3'.toUInt8, '4'.toUInt8, '5'.toUInt8, '6'.toUInt8,
    '7'.toUInt8, '8'.toUInt8, '9'.toUInt8, '0'.toUInt8, '-'.toUInt8, '='.toUInt8, backspaceKey,
    0x09, 'q'.toUInt8, 'w'.toUInt8, 'e'.toUInt8, 'r'.toUInt8, 't'.toUInt8, 'y'.toUInt8,
    'u'.toUInt8, 'i'.toUInt8, 'o'.toUInt8, 'p'.toUInt8, '['.toUInt8, ']'.toUInt8, enterKey,
    ctrlKey, 'a'.toUInt8, 's'.toUInt8, 'd'.toUInt8, 'f'.toUInt8, 'g'.toUInt8, 'h'.toUInt8,
    'j'.toUInt8, 'k'.toUInt8, 'l'.toUInt8, ';'.toUInt8, 0x27, '`'.toUInt8, shiftKey, 0x5C,
    'z'.toUInt8, 'x'.toUInt8, 'c'.toUInt8, 'v'.toUInt8, 'b'.toUInt8, 'n'.toUInt8, 'm'.toUInt8,
    ','.toUInt8, '.'.toUInt8, '/'.toUInt8, shiftKey, '*'.toUInt8, altKey, ' '.toUInt8,
    capslockKey, f1Key, f2Key, f3Key, 0, 0, 0, 0, 0, 0, 0, 0, 0, 0, 0, 0, '-'.toUInt8, 0, 0, 0,
    '+'.toUInt8]

/-- The table entry of a make code. -/
def kbdusChar (scancode : UInt8) : UInt8 := kbdus.getD scancode.toNat 0

/-- `freqs`, the frequencies that CTRL-1 cycles through. -/
def freqs : List Nat := [2, 4, 8, 16, 32, 64, 128, 256, 512, 1024]

/-- The second `switch` over the character: what Shift makes of a key that is not a letter. -/
def shifted : List (UInt8 × UInt8) :=
  [('`'.toUInt8, '~'.toUInt8), ('1'.toUInt8, '!'.toUInt8), ('2'.toUInt8, '@'.toUInt8),
    ('3'.toUInt8, '#'.toUInt8), ('4'.toUInt8, '$'.toUInt8), ('5'.toUInt8, '%'.toUInt8),
    ('6'.toUInt8, '^'.toUInt8), ('7'.toUInt8, '&'.toUInt8), ('8'.toUInt8, '*'.toUInt8),
    ('9'.toUInt8, '('.toUInt8), ('0'.toUInt8, ')'.toUInt8), ('-'.toUInt8, '_'.toUInt8),
    ('='.toUInt8, '+'.toUInt8), ('['.toUInt8, 0x7B), (']'.toUInt8, 0x7D), (0x5C, '|'.toUInt8),
    (';'.toUInt8, ':'.toUInt8), (0x27, 0x22), (','.toUInt8, '<'.toUInt8),
    ('.'.toUInt8, '>'.toUInt8), ('/'.toUInt8, '?'.toUInt8)]

namespace Keyboard

/-- `kbd_buf[kbd_buf_idx--] = 0`; the index is a `uint8_t` and wraps. -/
def eraseChar (k : Keyboard) : Keyboard :=
  { k with
    kbdBuf := Function.update k.kbdBuf k.kbdBufIdx.toNat 0
    kbdBufIdx := k.kbdBufIdx - 1
    kbdAccesses := k.kbdBufIdx.toNat :: k.kbdAccesses }

/-- `flush_kbd_buf`. -/
def flushKbdBuf (k : Keyboard) : Keyboard :=
  { k with kbdBuf := fun i => if i < maxBuf then 0 else k.kbdBuf i, kbdBufIdx := 0 }

/-- `kbd_buf[kbd_buf_idx++] = scan_char`, after flushing a full buffer. -/
def pushChar (k : Keyboard) (c : UInt8) : Keyboard :=
  let k := if 127 < k.kbdBufIdx then k.flushKbdBuf else k
  { k with
    kbdBuf := Function.update k.kbdBuf k.kbdBufIdx.toNat c
    kbdBufIdx := k.kbdBufIdx + 1
    kbdAccesses := k.kbdBufIdx.toNat :: k.kbdAccesses }

/-- The two stages that rewrite the character of a key. -/
def shiftChar (k : Keyboard) (c : UInt8) : UInt8 :=
  let c := if (k.shiftPressed ^^ k.capslockPressed) ∧ 0x60 < c ∧ c < 0x7B then c - 0x20 else c
  if k.shiftPressed then (shifted.lookup c).getD c else c

/-- A release of Shift, Ctrl or Alt clears its flag. -/
def release (k : Keyboard) (c : UInt8) : Keyboard :=
  if c = shiftKey then { k with shiftPressed := false }
  else if c = ctrlKey then { k with ctrlPressed := false }
  else if c = altKey then { k with altPressed := false }
  else k

/-- `print_me` and the modifier flags on a press. `print_me` is decided before a press of Ctrl
sets its own flag. -/
def press (k : Keyboard) (c : UInt8) : Keyboard :=
  let k := { k with printMe := 0x20 ≤ c ∧ c < 0x7F ∧ k.ctrlPressed = false }
  if c = shiftKey then { k with shiftPressed := true }
  else if c = capslockKey then { k with capslockPressed := !k.capslockPressed }
  else if c = ctrlKey then { k with ctrlPressed := true }
  else if c = altKey then { k with altPressed := true }
  else k

end Keyboard

/-- `memcpy` of one whole page of video memory to another. -/
def Video.copyPage (v : Video) (dst src : Nat) : Video :=
  { v with mem := fun a => if dst ≤ a ∧ a < dst + fourKb then v.mem (src + (a - dst)) else v.mem a }

namespace Display

/-- Store the coordinates as the cursor of `term` (`term_cursor_x[term] = get_screen_x()`). -/
def saveCursor (d : Display) (term : Nat) : Display := d.termCursorUpdate term

/-- Move the text cursor and the write position, and make them the cursor of `term`. -/
def moveTo (d : Display) (term : Nat) (x y : Int) : Display :=
  ((d.updateCursor x y).setScreenCoords x y).saveCursor term

/-- Save the displayed screen in its backing page, show the other terminal's, and move to its
cursor. -/
def switchTerm (d : Display) (cur new : Nat) : Display :=
  let video := (d.video.copyPage (vimMemIndex + (cur + 1) * fourKb) vimMemIndex).copyPage
    vimMemIndex (vimMemIndex + (new + 1) * fourKb)
  let x := i32 (d.termCursorX new)
  let y := i32 (d.termCursorY new)
  ({ d with video }.setScreenCoords x y).updateCursor x y

/-- Where Backspace moves the cursor, given where typing started. -/
def backspaceTarget (d : Display) (xStart yStart : Nat) : Int × Int :=
  if d.screenX = 0 ∧ d.screenY = 0 then (d.screenX, d.screenY)
  else if u32 d.screenX ≠ xStart then (d.screenX - 1, d.screenY)
  else if yStart < u32 d.screenY then (numCols, d.screenY - 1)
  else (d.screenX, d.screenY)

/-- Clear the screen and move to its top left corner. -/
def clearScreen (d : Display) (term : Nat) : Display := d.clear.moveTo term 0 0

/-- Before a printable character in the last column: go to a new line. -/
def wrapBeforePrint (d : Display) (term : Nat) : Display :=
  if d.screenX = numCols - 1 then
    if d.screenY = numRows - 1 then d.scroll.moveTo term 0 d.screenY
    else d.moveTo term 0 (d.screenY + 1)
  else d

end Display

namespace Devices

/-- The terminal that ALT with this key asks for. -/
def requestedTerm (c : UInt8) : Option Nat :=
  if c = f1Key then some 0 else if c = f2Key then some 1 else if c = f3Key then some 2 else none

/-- ALT-Fx. -/
def kbSwitch (d : Devices) (cur : Nat) (c : UInt8) : Devices :=
  match d.kbd.altPressed, requestedTerm c with
  | true, some new =>
    if cur = new then d
    else
      { d with
        disp := d.disp.switchTerm cur new
        kbd := { d.kbd with
          termBufs := Function.update d.kbd.termBufs cur fun i =>
            if i < maxBuf then d.kbd.kbdBuf i else d.kbd.termBufs cur i
          kbdBuf := fun i => if i < maxBuf then d.kbd.termBufs new i else d.kbd.kbdBuf i }
        term := { d.term with curTermNum := new } }
  | _, _ => d

/-- CTRL-1, a test of the clock. `stray` is what the uninitialised `buf` points to. -/
def kbFreqTest (d : Devices) (cur : Nat) (stray : Option Int) : Devices :=
  let d := { d with disp := d.disp.clearScreen cur }
  let idx := if d.kbd.freqIdx + 1 = freqs.length then 0 else d.kbd.freqIdx + 1
  let freq := freqs.getD idx 0
  let d := { d with kbd := { d.kbd with freqIdx := idx } }
  let d := d.puts (chars "Testing freq: " ++ chars (toString freq) ++ chars "\n")
  (d.rtcWrite stray freq).2

/-- CTRL-L, CTRL-1 and CTRL-2. -/
def kbCtrl (d : Devices) (cur : Nat) (c : UInt8) (stray : Option Int) : Devices :=
  if d.kbd.ctrlPressed then
    if c = 'l'.toUInt8 then { d with disp := d.disp.clearScreen cur }
    else if c = '1'.toUInt8 then d.kbFreqTest cur stray
    else if c = '2'.toUInt8 then ((d.puts (chars "\nResetting RTC!\n")).rtcClose.2).rtcOpen.2
    else d
  else d

/-- Backspace. -/
def kbBackspace (d : Devices) (cur : Nat) : Devices :=
  let target := d.disp.backspaceTarget d.kbd.xStart d.kbd.yStart
  { d with
    disp := (d.disp.moveTo cur target.1 target.2).clearChar
    kbd := d.kbd.eraseChar }

/-- Enter: send the line, and go to the start of the next row. -/
def kbEnter (d : Devices) (cur : Nat) : Devices :=
  let d := d.sendBuffer d.kbd.kbdBuf
  let currY := i32 (d.disp.termCursorY cur)
  let (currY, disp) := if currY = numRows - 1 then (currY, d.disp.scroll) else (currY + 1, d.disp)
  { d with
    disp := disp.moveTo cur 0 currY
    kbd := { d.kbd.flushKbdBuf with xStart := 0, yStart := u32 currY } }

/-- Echo a printable character and append it to the keyboard buffer. -/
def kbPrint (d : Devices) (cur : Nat) (c : UInt8) : Devices :=
  let d := { d with disp := d.disp.wrapBeforePrint cur }
  let d := d.putc c
  { d with kbd := d.kbd.pushChar c }

/-- The branch of `keyboard_handler` for a key press. -/
def kbPress (d : Devices) (cur : Nat) (c : UInt8) (stray : Option Int) : Devices :=
  let d := { d with kbd := d.kbd.press c }
  let d := d.kbSwitch cur c
  let d := d.kbCtrl cur c stray
  let d := if c = backspaceKey then d.kbBackspace cur else d
  let d := if c = enterKey then d.kbEnter cur else d
  let c := d.kbd.shiftChar c
  if d.kbd.printMe then d.kbPrint cur c else d

/-- Take over the start of typing from a `terminal_write` since the last key. -/
def kbOverride (d : Devices) : Devices :=
  if d.term.overrideStart then
    { d with
      kbd := { d.kbd with xStart := d.term.xStartTw, yStart := d.term.yStartTw }
      term := { d.term with overrideStart := false } }
  else d

/-- The start of `keyboard_handler`: make `video_mem` reach the displayed screen, and count the
displayed terminal as the one in service. -/
def kbBegin (d : Devices) : Devices :=
  { d with
    disp := d.disp.setVidEntry vgaEntry
    term := { d.term with termInService := d.term.curTermNum } }

/-- The release and press branches of `keyboard_handler`. -/
def kbScancode (d : Devices) (cur : Nat) (scancode : UInt8) (stray : Option Int) : Devices :=
  if scancode &&& 0x80 ≠ 0 then
    { d with kbd := d.kbd.release (kbdusChar (scancode &&& 0x7F)) }
  else d.kbPress cur (kbdusChar scancode) stray

/-- `keyboard_handler`, on the scancode read from the keyboard port. -/
def keyboardHandler (d : Devices) (scancode : UInt8) (stray : Option Int) : Devices :=
  let tempVidmap := d.disp.video.pageTableVid0
  let termSave := d.term.termInService
  let d := d.kbBegin.kbOverride.kbScancode d.term.curTermNum scancode stray
  { d with
    disp := d.disp.setVidEntry tempVidmap
    term := { d.term with termInService := termSave } }

end Devices

end Ece391Kernel
