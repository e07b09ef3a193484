import Ece391Kernel.Devices.Console

/-!
# Editing a line

`LineState` is the part of the devices that line editing uses: `kbd_buf`, `kbd_buf_idx`, the saved
buffers, the displayed terminal, and `terminal_buf`. `keyActions` says what a key does to it, and
`lineState_step` that `keyboard_handler` does just that.
-/

namespace Ece391Kernel

open Transition

/-! ## What keys do to a line -/

/-- What one key press does to the line being typed. -/
inductive KeyAction where
  | char (c : UInt8)
  | erase
  | enter
  | switch (new : Nat)
deriving DecidableEq

/-- The globals that line editing reads and writes. -/
@[ext] structure LineState where
  buf : Nat → UInt8
  idx : UInt8
  saved : Nat → Nat → UInt8
  cur : Nat
  sent : Nat → UInt8

namespace LineState

/-- `flush_kbd_buf`. -/
def flush (s : LineState) : LineState :=
  { s with buf := fun i => if i < maxBuf then 0 else s.buf i, idx := 0 }

/-- Append a character, after flushing a full buffer. -/
def push (s : LineState) (c : UInt8) : LineState :=
  let s := if 127 < s.idx then s.flush else s
  { s with buf := Function.update s.buf s.idx.toNat c, idx := s.idx + 1 }

theorem push_cur (l : LineState) (c : UInt8) : (l.push c).cur = l.cur := by
  unfold push
  split <;> rfl

theorem push_saved (l : LineState) (c : UInt8) : (l.push c).saved = l.saved := by
  unfold push
  split <;> rfl

/-- The effect of one action. -/
def apply (s : LineState) : KeyAction → LineState
  | .char c => s.push c
  | .erase => { s with buf := Function.update s.buf s.idx.toNat 0, idx := s.idx - 1 }
  | .enter =>
      { s.flush with sent := fun i => if i < maxBuf then s.buf i else s.sent i }
  | .switch new =>
      { s with
        saved := Function.update s.saved s.cur fun i =>
          if i < maxBuf then s.buf i else s.saved s.cur i
        buf := fun i => if i < maxBuf then s.saved new i else s.buf i
        cur := new }

/-- No character is pending, and the next one goes to the first cell. -/
structure Empty (s : LineState) : Prop where
  buf : ∀ i, i < maxBuf → s.buf i = 0
  idx : s.idx = 0

end LineState

namespace Devices

variable {d : Devices}

/-- The line-editing part of the devices. -/
def lineState (d : Devices) : LineState :=
  ⟨d.kbd.kbdBuf, d.kbd.kbdBufIdx, d.kbd.termBufs, d.term.curTermNum, d.term.terminalBuf⟩

/-- The terminal that a press of the key with this table entry switches to. -/
def switchTarget (d : Devices) (c : UInt8) : Option Nat :=
  if d.kbd.altPressed then (requestedTerm c).filter (d.term.curTermNum ≠ ·) else none

/-- What a press of the key with this table entry does to the line. -/
def pressActions (d : Devices) (c : UInt8) : List KeyAction :=
  if c = backspaceKey then [.erase]
  else if c = enterKey then [.enter]
  else if 0x20 ≤ c ∧ c < 0x7F then
    if d.kbd.ctrlPressed then [] else [.char (d.kbd.shiftChar c)]
  else (d.switchTarget c).toList.map .switch

/-- What a console event does to the line. -/
def keyActions (d : Devices) : ConsoleEvent → List KeyAction
  | .key scancode _ =>
      if scancode &&& 0x80 ≠ 0 then [] else d.pressActions (kbdusChar scancode)
  | _ => []

/-! ## The handler, part by part -/

theorem kbOverride_lineState (d : Devices) : d.kbOverride.lineState = d.lineState := by
  unfold kbOverride
  split <;> rfl

theorem puts_lineState (d : Devices) (s : List UInt8) : (d.puts s).lineState = d.lineState := by
  simp [lineState]

theorem kbSwitch_none {c : UInt8} (h : d.switchTarget c = none) :
    d.kbSwitch d.term.curTermNum c = d := by
  unfold kbSwitch
  split
  · next new halt hnew =>
    by_cases heq : d.term.curTermNum = new
    · rw [if_pos heq]
    · simp [switchTarget, halt, hnew, heq] at h
  · rfl

theorem switchTarget_some {c : UInt8} {new : Nat} (h : d.switchTarget c = some new) :
    d.kbd.altPressed = true ∧ requestedTerm c = some new ∧ d.term.curTermNum ≠ new := by
  unfold switchTarget at h
  split_ifs at h with halt
  obtain ⟨hnew, hne⟩ := Option.filter_eq_some_iff.1 h
  exact ⟨halt, hnew, of_decide_eq_true hne⟩

theorem kbSwitch_some {c : UInt8} {new : Nat} (h : d.switchTarget c = some new) :
    (d.kbSwitch d.term.curTermNum c).lineState = d.lineState.apply (.switch new) := by
  obtain ⟨halt, hnew, hne⟩ := switchTarget_some h
  simp only [kbSwitch, halt, hnew, if_neg hne]
  rfl

theorem kbCtrl_lineState (cur : Nat) (c : UInt8) (stray : Option Int) :
    (d.kbCtrl cur c stray).lineState = d.lineState := by
  obtain ⟨_, hkbd⟩ := d.kbCtrl_kbd cur c stray
  simp only [lineState, hkbd, kbCtrl_term]

theorem kbPrint_lineState (cur : Nat) (c : UInt8) :
    (d.kbPrint cur c).lineState = d.lineState.apply (.char c) := by
  show LineState.mk (d.kbd.pushChar c).kbdBuf (d.kbd.pushChar c).kbdBufIdx
    (d.kbd.pushChar c).termBufs d.term.curTermNum d.term.terminalBuf = d.lineState.push c
  unfold Keyboard.pushChar LineState.push
  by_cases hfull : 127 < d.kbd.kbdBufIdx
  · have hfull' : 127 < d.lineState.idx := hfull
    rw [if_pos hfull, if_pos hfull']
    rfl
  · have hfull' : ¬ 127 < d.lineState.idx := hfull
    rw [if_neg hfull, if_neg hfull']
    rfl

/-- A press only changes flags. -/
theorem press_lineState (c : UInt8) :
    ({ d with kbd := d.kbd.press c } : Devices).lineState = d.lineState := by
  unfold lineState Keyboard.press
  simp only
  split_ifs <;> rfl

theorem press_altPressed (k : Keyboard) {c : UInt8} (hc : c ≠ altKey) :
    (k.press c).altPressed = k.altPressed := by
  unfold Keyboard.press
  simp only [if_neg hc]
  split_ifs <;> rfl

/-- The press that sets the ALT flag asks for no terminal. -/
theorem press_switchTarget (c : UInt8) :
    ({ d with kbd := d.kbd.press c } : Devices).switchTarget c = d.switchTarget c := by
  by_cases halt : c = altKey
  · have hnone : requestedTerm c = none := by
      subst halt
      decide
    simp [switchTarget, hnone]
  · simp only [switchTarget, press_altPressed d.kbd halt]

theorem kbPress_backspace_lineState (stray : Option Int) :
    (d.kbPress d.term.curTermNum backspaceKey stray).lineState = d.lineState.apply .erase := by
  rw [kbPress_backspace, ← press_lineState (d := d) backspaceKey]
  rfl

theorem kbPress_enter_lineState (stray : Option Int) :
    (d.kbPress d.term.curTermNum enterKey stray).lineState = d.lineState.apply .enter := by
  rw [kbPress_enter, ← press_lineState (d := d) enterKey]
  rfl

theorem kbPress_printable_lineState {c : UInt8} (hc : 0x20 ≤ c ∧ c < 0x7F)
    (stray : Option Int) :
    (d.kbPress d.term.curTermNum c stray).lineState =
      if d.kbd.ctrlPressed then d.lineState
      else d.lineState.apply (.char (d.kbd.shiftChar c)) := by
  by_cases hctrl : d.kbd.ctrlPressed = true
  · rw [kbPress_command hc hctrl, kbCtrl_lineState, press_lineState, if_pos hctrl]
  · rw [kbPress_print hc (Bool.eq_false_iff.2 hctrl), kbPrint_lineState, press_lineState,
      if_neg hctrl]

/-- Any other key does nothing to the line, unless it switches terminals. -/
theorem kbPress_other_lineState {c : UInt8} (hback : c ≠ backspaceKey) (henter : c ≠ enterKey)
    (hc : ¬ (0x20 ≤ c ∧ c < 0x7F)) (stray : Option Int) :
    (d.kbPress d.term.curTermNum c stray).lineState =
      ((d.switchTarget c).toList.map .switch).foldl LineState.apply d.lineState := by
  rw [kbPress_other hback henter hc, ← press_switchTarget, ← press_lineState (d := d) c]
  generalize hd0 : ({ d with kbd := d.kbd.press c } : Devices) = d0
  have hcur : d.term.curTermNum = d0.term.curTermNum := hd0 ▸ rfl
  rw [hcur]
  cases hswitch : d0.switchTarget c with
  | none =>
      rw [kbSwitch_none hswitch]
      rfl
  | some new => exact kbSwitch_some hswitch

/-- The branch of the handler for a press does what `pressActions` says. -/
theorem kbPress_lineState (c : UInt8) (stray : Option Int) :
    (d.kbPress d.term.curTermNum c stray).lineState =
      (d.pressActions c).foldl LineState.apply d.lineState := by
  unfold pressActions
  by_cases hback : c = backspaceKey
  · subst hback
    exact kbPress_backspace_lineState stray
  · by_cases henter : c = enterKey
    · subst henter
      exact kbPress_enter_lineState stray
    · rw [if_neg hback, if_neg henter]
      by_cases hc : 0x20 ≤ c ∧ c < 0x7F
      · rw [kbPress_printable_lineState hc, if_pos hc]
        split <;> rfl
      · rw [kbPress_other_lineState hback henter hc, if_neg hc]

theorem release_lineState (c : UInt8) :
    ({ d with kbd := d.kbd.release c } : Devices).lineState = d.lineState := by
  unfold lineState Keyboard.release
  split_ifs <;> rfl

/-- What a press does depends on flags that the start of the handler leaves alone. -/
theorem kbOverride_pressActions (d : Devices) (c : UInt8) :
    d.kbOverride.pressActions c = d.pressActions c := by
  unfold kbOverride
  split <;> rfl

/-- `keyboard_handler`, and every other console event, does to the line what `keyActions` says. -/
theorem lineState_step (d : Devices) (e : ConsoleEvent) :
    (consoleStep d e).lineState = (d.keyActions e).foldl LineState.apply d.lineState := by
  cases e with
  | key scancode stray =>
      have hbegin : d.kbBegin.kbOverride.lineState = d.lineState := kbOverride_lineState _
      have hcur : d.kbBegin.kbOverride.term.curTermNum = d.term.curTermNum :=
        kbOverride_curTermNum _
      show (d.kbBegin.kbOverride.kbScancode d.term.curTermNum scancode stray).lineState = _
      simp only [kbScancode, keyActions]
      by_cases hrel : scancode &&& 0x80 ≠ 0
      · rw [if_pos hrel, if_pos hrel]
        exact (release_lineState _).trans hbegin
      · rw [if_neg hrel, if_neg hrel, ← hcur, kbPress_lineState, kbOverride_pressActions, hbegin]
        rfl
  | serve term => rfl
  | launch term => rfl
  | write buf => exact puts_lineState d buf

/-- The line-editing part after a sequence of events. -/
theorem lineState_run (d : Devices) (es : List ConsoleEvent) :
    (es.foldl consoleStep d).lineState =
      (emitted consoleStep keyActions d es).foldl LineState.apply d.lineState :=
  foldl_view lineState (I := fun _ => True) (fun _ _ _ => trivial)
    (fun d e _ => lineState_step d e) es trivial

end Devices

end Ece391Kernel
