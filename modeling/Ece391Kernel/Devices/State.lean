import Ece391Kernel.Devices.Display

/-!
# The device state and the output functions above `putc`

The globals of `keyboard.c`, `terminal.c` and `rtc.c` beside the display, and the functions that
print through `putc`: `puts`, `terminal_write`, and the RTC functions, which report errors on the
screen. Ports and interrupt masks that no modelled code reads back are left out.
-/

namespace Ece391Kernel

/-- `MAX_BUF` and `BUFSIZE`. -/
@[simp] def maxBuf : Nat := 128

/-- The globals of `keyboard.c` beside the terminal cursors. `kbdAccesses` lists the indices at
which `kbd_buf` was written one byte at a time, the most recent first. -/
structure Keyboard where
  termBufs : Nat → Nat → UInt8
  shiftPressed : Bool
  capslockPressed : Bool
  ctrlPressed : Bool
  altPressed : Bool
  printMe : Bool
  kbdBuf : Nat → UInt8
  kbdBufIdx : UInt8
  xStart : Nat
  yStart : Nat
  freqIdx : Nat
  kbdAccesses : List Nat

/-- The globals of `terminal.c`. -/
structure Terminal where
  terminalBuf : Nat → UInt8
  bufSent : Bool
  xStartTw : Nat
  yStartTw : Nat
  overrideStart : Bool
  curTermNum : Nat
  termInService : Nat

/-- The flags of `rtc.c` and register A of the clock. -/
structure Rtc where
  rtcOpened : Bool
  readWait : Bool
  registerA : Nat

/-- Everything the keyboard handler, the terminal driver and the RTC driver share. -/
structure Devices where
  disp : Display
  kbd : Keyboard
  term : Terminal
  rtc : Rtc

/-- The terminals of ALT-F1 and ALT-F2. -/
def firstTerm : Fin 3 := 0
def secondTerm : Fin 3 := 1

/-- The characters of a string literal, without the terminating NUL. -/
def chars (s : String) : List UInt8 := s.toList.map Char.toUInt8

namespace Devices

/-- `putc` as called anywhere in the kernel: for the terminal in service. -/
def putc (d : Devices) (c : UInt8) : Devices :=
  { d with disp := d.disp.putc d.term.termInService d.term.curTermNum c }

/-- `puts`. -/
def puts (d : Devices) (s : List UInt8) : Devices := s.foldl putc d

/-- `terminal_write`: print every byte, then remember where typing may start. -/
def terminalWrite (d : Devices) (buf : List UInt8) : Devices :=
  let d := d.puts buf
  { d with
    term := { d.term with
      xStartTw := u32 d.disp.screenX
      yStartTw := u32 d.disp.screenY
      overrideStart := true } }

/-- `rtc_open`: mark the clock as opened and select 2 Hz. -/
def rtcOpen (d : Devices) : Int × Devices :=
  (0, { d with
    rtc := { d.rtc with rtcOpened := true, registerA := d.rtc.registerA &&& 0xF0 ||| 0x0F } })

/-- `rtc_close`. -/
def rtcClose (d : Devices) : Int × Devices :=
  if d.rtc.rtcOpened then (0, { d with rtc := { d.rtc with rtcOpened := false } })
  else (-1, d.puts (chars "The RTC is already closed.\n"))

/-- The rate select bits of the ten frequencies that `rtc_write` accepts. -/
def selectBits : List (Int × Nat) :=
  [(2, 0x0F), (4, 0x0E), (8, 0x0D), (16, 0x0C), (32, 0x0B), (64, 0x0A), (128, 0x09), (256, 0x08),
    (512, 0x07), (1024, 0x06)]

/-- `rtc_write`. `freq` is the `int` that `buf` points to, or `none` when `buf` is NULL. -/
def rtcWrite (d : Devices) (freq : Option Int) (nbytes : Int) : Int × Devices :=
  match freq with
  | none => (-1, d)
  | some freq =>
    if nbytes ≠ 4 then (-1, d)
    else if freq < 2 ∨ 1024 < freq then (-1, d.puts (chars "This frequency is out of range.\n"))
    else match selectBits.lookup freq with
      | none => (-1, d.puts (chars "Frequency given is invalid.\n"))
      | some bits => (0, { d with
          rtc := { d.rtc with registerA := bits ||| (d.rtc.registerA &&& 0xF0) } })

/-- `send_buffer`: hand the keyboard buffer to `terminal_read`. -/
def sendBuffer (d : Devices) (buf : Nat → UInt8) : Devices :=
  { d with
    term := { d.term with
      terminalBuf := fun i => if i < maxBuf then buf i else d.term.terminalBuf i
      bufSent := true } }

/-- The state at the first system call: `initialize_page`, `rtc_init`, `terminal_open` and
`init_term_cursor` have run. `mem` is what the video pages hold. -/
def boot (mem : Nat → UInt8) : Devices where
  disp :=
    { screenX := 0, screenY := 0, termCursorX := fun _ => 0, termCursorY := fun _ => 0
      video := { pageTableVid0 := vgaEntry, mem, stores := [] }, vgaCursor := 0 }
  kbd :=
    { termBufs := fun _ _ => 0, shiftPressed := false, capslockPressed := false
      ctrlPressed := false, altPressed := false, printMe := false, kbdBuf := fun _ => 0
      kbdBufIdx := 0, xStart := 0, yStart := 0, freqIdx := 0, kbdAccesses := [] }
  term :=
    { terminalBuf := fun _ => 0, bufSent := false, xStartTw := 0, yStartTw := 0
      overrideStart := false, curTermNum := 0, termInService := 0 }
  rtc := { rtcOpened := true, readWait := false, registerA := 0x2F }

/-! ## What printing leaves alone -/

@[simp] theorem puts_kbd (d : Devices) (s : List UInt8) : (d.puts s).kbd = d.kbd := by
  induction s generalizing d with
  | nil => rfl
  | cons c s ih => exact ih (d.putc c)

@[simp] theorem puts_term (d : Devices) (s : List UInt8) : (d.puts s).term = d.term := by
  induction s generalizing d with
  | nil => rfl
  | cons c s ih => exact ih (d.putc c)

theorem puts_disp (d : Devices) (s : List UInt8) :
    (d.puts s).disp = d.disp.puts d.term.termInService d.term.curTermNum s := by
  induction s generalizing d with
  | nil => rfl
  | cons c s ih => exact ih (d.putc c)

end Devices

end Ece391Kernel
