import Ece391Kernel.Devices.HalfTyped

/-!
# What a key types

The handler has one flag for both Shift keys and one for both Ctrl keys, and takes the prefix 0xE0
for the release of a key that does not exist. Beside the devices we keep which keys of the keyboard
are held down. `types_right_iff` gives the sequences of scancodes in which the flags say what is
held, and each key types its character of the US layout: no key is released while the other one of
its kind is held, no key with a prefix is taken for Shift or Caps Lock, and Shift is not held for
the minus of the keypad.
-/

namespace Ece391Kernel

open Transition

/-! ## The keyboard -/

/-- A key: its make code, which may come after the prefix 0xE0. -/
structure ScanKey where
  ext : Bool
  code : UInt8
deriving DecidableEq

/-- What the scancodes so far say: whether the last one was the prefix, which keys are held, and
whether Caps Lock has sent an odd number of make codes. -/
structure Keys where
  pre : Bool
  held : ScanKey → Bool
  caps : Bool

/-- The byte 0xE0. -/
def prefixByte : UInt8 := 0xE0

/-- Whether a scancode is a make code. -/
def isMake (scancode : UInt8) : Bool := scancode &&& 0x80 = 0

namespace Keys

/-- Nothing is held. -/
def idle : Keys := ⟨false, fun _ => false, false⟩

/-- The key that a scancode other than the prefix belongs to. -/
def key (k : Keys) (scancode : UInt8) : ScanKey := ⟨k.pre, scancode &&& 0x7F⟩

/-- One scancode. -/
def next (k : Keys) (scancode : UInt8) : Keys :=
  if scancode = prefixByte then { k with pre := true }
  else
    { pre := false
      held := Function.update k.held (k.key scancode) (isMake scancode)
      caps := if k.key scancode = ⟨false, 0x3A⟩ ∧ isMake scancode = true then !k.caps else k.caps }

/-- One of the two Shift keys is held. -/
def shift (k : Keys) : Bool := k.held ⟨false, 0x2A⟩ || k.held ⟨false, 0x36⟩

/-- One of the two Ctrl keys is held; the right one has a prefix. -/
def ctrl (k : Keys) : Bool := k.held ⟨false, 0x1D⟩ || k.held ⟨true, 0x1D⟩

end Keys

/-- The keys of the US layout that print, with what they print without and with Shift. The last
three are on the keypad, as is the asterisk. -/
def usKeys : List (UInt8 × UInt8 × UInt8) :=
  [(0x02, '1'.toUInt8, '!'.toUInt8), (0x03, '2'.toUInt8, '@'.toUInt8),
    (0x04, '3'.toUInt8, '#'.toUInt8), (0x05, '4'.toUInt8, '$'.toUInt8),
    (0x06, '5'.toUInt8, '%'.toUInt8), (0x07, '6'.toUInt8, '^'.toUInt8),
    (0x08, '7'.toUInt8, '&'.toUInt8), (0x09, '8'.toUInt8, '*'.toUInt8),
    (0x0A, '9'.toUInt8, '('.toUInt8), (0x0B, '0'.toUInt8, ')'.toUInt8),
    (0x0C, '-'.toUInt8, '_'.toUInt8), (0x0D, '='.toUInt8, '+'.toUInt8),
    (0x10, 'q'.toUInt8, 'Q'.toUInt8), (0x11, 'w'.toUInt8, 'W'.toUInt8),
    (0x12, 'e'.toUInt8, 'E'.toUInt8), (0x13, 'r'.toUInt8, 'R'.toUInt8),
    (0x14, 't'.toUInt8, 'T'.toUInt8), (0x15, 'y'.toUInt8, 'Y'.toUInt8),
    (0x16, 'u'.toUInt8, 'U'.toUInt8), (0x17, 'i'.toUInt8, 'I'.toUInt8),
    (0x18, 'o'.toUInt8, 'O'.toUInt8), (0x19, 'p'.toUInt8, 'P'.toUInt8),
    (0x1A, '['.toUInt8, 0x7B), (0x1B, ']'.toUInt8, 0x7D),
    (0x1E, 'a'.toUInt8, 'A'.toUInt8), (0x1F, 's'.toUInt8, 'S'.toUInt8),
    (0x20, 'd'.toUInt8, 'D'.toUInt8), (0x21, 'f'.toUInt8, 'F'.toUInt8),
    (0x22, 'g'.toUInt8, 'G'.toUInt8), (0x23, 'h'.toUInt8, 'H'.toUInt8),
    (0x24, 'j'.toUInt8, 'J'.toUInt8), (0x25, 'k'.toUInt8, 'K'.toUInt8),
    (0x26, 'l'.toUInt8, 'L'.toUInt8), (0x27, ';'.toUInt8, ':'.toUInt8), (0x28, 0x27, 0x22),
    (0x29, '`'.toUInt8, '~'.toUInt8), (0x2B, 0x5C, '|'.toUInt8),
    (0x2C, 'z'.toUInt8, 'Z'.toUInt8), (0x2D, 'x'.toUInt8, 'X'.toUInt8),
    (0x2E, 'c'.toUInt8, 'C'.toUInt8), (0x2F, 'v'.toUInt8, 'V'.toUInt8),
    (0x30, 'b'.toUInt8, 'B'.toUInt8), (0x31, 'n'.toUInt8, 'N'.toUInt8),
    (0x32, 'm'.toUInt8, 'M'.toUInt8), (0x33, ','.toUInt8, '<'.toUInt8),
    (0x34, '.'.toUInt8, '>'.toUInt8), (0x35, '/'.toUInt8, '?'.toUInt8),
    (0x37, '*'.toUInt8, '*'.toUInt8), (0x39, ' '.toUInt8, ' '.toUInt8),
    (0x4A, '-'.toUInt8, '-'.toUInt8), (0x4E, '+'.toUInt8, '+'.toUInt8)]

/-- The character that a key prints. Letters use Shift and Caps Lock, other keys only Shift. -/
def usChar (code : UInt8) (shift caps : Bool) : Option UInt8 :=
  (usKeys.lookup code).map fun (plain, shifted) =>
    if 0x60 < plain ∧ plain < 0x7B then (if shift ^^ caps then shifted else plain)
    else if shift then shifted else plain

/-- `kbdus` has a printable character for the key. -/
def IsPrintable (code : UInt8) : Prop := 0x20 ≤ kbdusChar code ∧ kbdusChar code < 0x7F

instance (code : UInt8) : Decidable (IsPrintable code) := inferInstanceAs (Decidable (_ ∧ _))

/-! ## The tables -/

/-- The two rewriting stages, as a function of the flags. -/
def rewritten (shift caps : Bool) (c : UInt8) : UInt8 :=
  let c := if (shift ^^ caps) ∧ 0x60 < c ∧ c < 0x7B then c - 0x20 else c
  if shift then (shifted.lookup c).getD c else c

theorem shiftChar_eq (k : Keyboard) (c : UInt8) :
    k.shiftChar c = rewritten k.shiftPressed k.capslockPressed c := rfl

/-- A property of all bytes can be checked of all numbers below 256. -/
theorem forall_byte {P : UInt8 → Prop} (h : ∀ n, n < 256 → P (UInt8.ofNat n)) (b : UInt8) :
    P b := by
  have hb := h b.toNat b.toNat_lt
  rwa [UInt8.ofNat_toNat] at hb

/-- The handler rewrites the entry of `kbdus` to the character of the layout, but for the minus of
the keypad, for which it takes the underscore. -/
theorem rewritten_usChar (code : UInt8) : IsPrintable code → ∀ shift caps,
    usChar code shift caps = some (if code = 0x4A ∧ shift = true then '-'.toUInt8
      else rewritten shift caps (kbdusChar code)) := by
  revert code
  refine forall_byte ?_
  decide +kernel

theorem kbdus_shift (scancode : UInt8) : kbdusChar (scancode &&& 0x7F) = shiftKey ↔
    scancode &&& 0x7F = 0x2A ∨ scancode &&& 0x7F = 0x36 := by
  revert scancode
  refine forall_byte ?_
  decide +kernel

theorem kbdus_ctrl (scancode : UInt8) :
    kbdusChar (scancode &&& 0x7F) = ctrlKey ↔ scancode &&& 0x7F = 0x1D := by
  revert scancode
  refine forall_byte ?_
  decide +kernel

theorem kbdus_capslock (scancode : UInt8) :
    kbdusChar (scancode &&& 0x7F) = capslockKey ↔ scancode &&& 0x7F = 0x3A := by
  revert scancode
  refine forall_byte ?_
  decide +kernel

/-- The prefix is taken for a key that is not in the table. -/
theorem kbdus_prefixByte : kbdusChar (prefixByte &&& 0x7F) = 0 := by decide

/-- A make code is the code of its key. -/
theorem make_code (scancode : UInt8) :
    scancode &&& 0x80 = 0 → scancode &&& 0x7F = scancode := by
  revert scancode
  refine forall_byte ?_
  decide +kernel

/-! ## The flags after a scancode -/

/-- What a scancode does to the flags of Shift, Caps Lock and Ctrl. -/
def modsAfter (scancode : UInt8) (m : Bool × Bool × Bool) : Bool × Bool × Bool :=
  let c := kbdusChar (scancode &&& 0x7F)
  (if c = shiftKey then isMake scancode else m.1,
    if c = capslockKey ∧ isMake scancode = true then !m.2.1 else m.2.1,
    if c = ctrlKey then isMake scancode else m.2.2)

theorem press_mods_eq (k : Keyboard) (c : UInt8) : (k.press c).mods =
    (if c = shiftKey then true else k.shiftPressed,
      if c = capslockKey then !k.capslockPressed else k.capslockPressed,
      if c = ctrlKey then true else k.ctrlPressed) := by
  have hdistinct : shiftKey ≠ capslockKey ∧ shiftKey ≠ ctrlKey ∧ capslockKey ≠ ctrlKey ∧
      altKey ≠ shiftKey := by decide
  obtain ⟨h1, h2, h3, -⟩ := hdistinct
  unfold Keyboard.press Keyboard.mods
  dsimp only
  by_cases hshift : c = shiftKey
  · subst hshift
    rw [if_pos rfl, if_pos rfl, if_neg h1, if_neg h2]
  · by_cases hcaps : c = capslockKey
    · subst hcaps
      rw [if_neg hshift, if_pos rfl, if_neg hshift, if_pos rfl, if_neg h3]
    · by_cases hctrl : c = ctrlKey
      · subst hctrl
        rw [if_neg hshift, if_neg hcaps, if_pos rfl, if_neg hshift, if_neg hcaps, if_pos rfl]
      · rw [if_neg hshift, if_neg hcaps, if_neg hctrl, if_neg hshift, if_neg hcaps, if_neg hctrl]
        split_ifs <;> rfl

theorem release_mods_eq (k : Keyboard) (c : UInt8) : (k.release c).mods =
    (if c = shiftKey then false else k.shiftPressed, k.capslockPressed,
      if c = ctrlKey then false else k.ctrlPressed) := by
  have hne : shiftKey ≠ ctrlKey := by decide
  unfold Keyboard.release Keyboard.mods
  by_cases hshift : c = shiftKey
  · subst hshift
    rw [if_pos rfl, if_pos rfl, if_neg hne]
  · by_cases hctrl : c = ctrlKey
    · subst hctrl
      rw [if_neg hshift, if_pos rfl, if_neg hshift, if_pos rfl]
    · rw [if_neg hshift, if_neg hctrl, if_neg hshift, if_neg hctrl]
      split_ifs <;> rfl

/-- `keyboard_handler` and the flags. -/
theorem key_mods (d : Devices) (scancode : UInt8) (stray : Option Int) :
    (consoleStep d (.key scancode stray)).kbd.mods = modsAfter scancode d.kbd.mods := by
  have hbegin : d.kbBegin.kbOverride.kbd.mods = d.kbd.mods := Devices.kbOverride_mods _
  obtain ⟨hshift, hcaps, hctrl⟩ : d.kbBegin.kbOverride.kbd.shiftPressed = d.kbd.shiftPressed ∧
      d.kbBegin.kbOverride.kbd.capslockPressed = d.kbd.capslockPressed ∧
      d.kbBegin.kbOverride.kbd.ctrlPressed = d.kbd.ctrlPressed :=
    ⟨congrArg Prod.fst hbegin, congrArg (fun m => m.2.1) hbegin,
      congrArg (fun m => m.2.2) hbegin⟩
  show (d.kbBegin.kbOverride.kbScancode d.term.curTermNum scancode stray).kbd.mods = _
  unfold Devices.kbScancode
  by_cases hmake : scancode &&& 0x80 = 0
  · have htrue : isMake scancode = true := decide_eq_true hmake
    rw [if_neg (not_not.2 hmake), Devices.kbPress_press_mods, press_mods_eq, hshift, hcaps, hctrl]
    simp only [modsAfter, htrue, make_code scancode hmake, and_true]
    rfl
  · have hfalse : isMake scancode = false := decide_eq_false hmake
    rw [if_pos hmake]
    show (Keyboard.release _ _).mods = _
    rw [release_mods_eq, hshift, hcaps, hctrl]
    simp only [modsAfter, hfalse, Bool.false_eq_true, and_false, if_false]
    rfl

/-! ## Keys and flags together -/

/-- The devices, and the keys that are held. -/
structure Typist where
  dev : Devices
  keys : Keys

namespace Typist

/-- One event; only a scancode is about the keys. -/
def next (s : Typist) (e : ConsoleEvent) : Typist where
  dev := consoleStep s.dev e
  keys := match e with
    | .key scancode _ => s.keys.next scancode
    | .serve _ => s.keys
    | .launch _ => s.keys
    | .write _ => s.keys

/-- From boot, with no key held. -/
def start (mem : Nat → UInt8) : Typist := ⟨Devices.boot mem, .idle⟩

/-- The flags say which keys are held, and the parity of Caps Lock. -/
structure FlagsRight (s : Typist) : Prop where
  shift : s.dev.kbd.shiftPressed = s.keys.shift
  caps : s.dev.kbd.capslockPressed = s.keys.caps
  ctrl : s.dev.kbd.ctrlPressed = s.keys.ctrl

/-- The make code of a key of the table with a printable character appends the character of the
layout to the line; while Ctrl is held it leaves the line alone. -/
def TypesRight (s : Typist) : ConsoleEvent → Prop
  | .key scancode stray =>
      isMake scancode = true → s.keys.pre = false → IsPrintable scancode →
        (s.keys.ctrl = true →
          (consoleStep s.dev (.key scancode stray)).lineState = s.dev.lineState) ∧
        (s.keys.ctrl = false → ∃ c, usChar scancode s.keys.shift s.keys.caps = some c ∧
          (consoleStep s.dev (.key scancode stray)).lineState = s.dev.lineState.push c)
  | .serve _ => True
  | .launch _ => True
  | .write _ => True

/-- A key types what it should, and the flags are right after it. -/
def Right (s : Typist) (e : ConsoleEvent) : Prop := s.TypesRight e ∧ (s.next e).FlagsRight

/-- A code that is taken for Shift leaves a Shift key held if and only if it is a make code, and so
for Ctrl; a make code that is taken for Caps Lock has no prefix; and the minus of the keypad is not
pressed while Shift is held without Ctrl. -/
structure CodeOk (k : Keys) (scancode : UInt8) : Prop where
  shift : kbdusChar (scancode &&& 0x7F) = shiftKey → (k.next scancode).shift = isMake scancode
  ctrl : kbdusChar (scancode &&& 0x7F) = ctrlKey → (k.next scancode).ctrl = isMake scancode
  caps : kbdusChar (scancode &&& 0x7F) = capslockKey → isMake scancode = true → k.pre = false
  minus : scancode = 0x4A → k.pre = false → k.shift = true → k.ctrl = true

/-- The condition on an event. -/
def EventOk (s : Typist) : ConsoleEvent → Prop
  | .key scancode _ => CodeOk s.keys scancode
  | .serve _ => True
  | .launch _ => True
  | .write _ => True

variable {s : Typist}

/-! ## The flags -/

theorem next_shift_of_ne (k : Keys) {scancode : UInt8}
    (h : kbdusChar (scancode &&& 0x7F) ≠ shiftKey) : (k.next scancode).shift = k.shift := by
  obtain ⟨hleft, hright⟩ := not_or.1 fun hor => h ((kbdus_shift scancode).2 hor)
  unfold Keys.next
  by_cases hpre : scancode = prefixByte
  · rw [if_pos hpre]
    rfl
  · have hne : ∀ code, scancode &&& 0x7F ≠ code → (⟨false, code⟩ : ScanKey) ≠ k.key scancode :=
      fun code hcode heq => hcode (congrArg ScanKey.code heq).symm
    rw [if_neg hpre]
    simp only [Keys.shift, Function.update_of_ne (hne 0x2A hleft),
      Function.update_of_ne (hne 0x36 hright)]

theorem next_ctrl_of_ne (k : Keys) {scancode : UInt8}
    (h : kbdusChar (scancode &&& 0x7F) ≠ ctrlKey) : (k.next scancode).ctrl = k.ctrl := by
  have hcode : scancode &&& 0x7F ≠ 0x1D := fun heq => h ((kbdus_ctrl scancode).2 heq)
  unfold Keys.next
  by_cases hpre : scancode = prefixByte
  · rw [if_pos hpre]
    rfl
  · have hne : ∀ ext, (⟨ext, 0x1D⟩ : ScanKey) ≠ k.key scancode :=
      fun ext heq => hcode (congrArg ScanKey.code heq).symm
    rw [if_neg hpre]
    simp only [Keys.ctrl, Function.update_of_ne (hne false), Function.update_of_ne (hne true)]

/-- Caps Lock itself has no prefix. -/
theorem next_caps (k : Keys) (scancode : UInt8) : (k.next scancode).caps =
    if kbdusChar (scancode &&& 0x7F) = capslockKey ∧ isMake scancode = true ∧ k.pre = false then
      !k.caps
    else k.caps := by
  unfold Keys.next
  by_cases hpre : scancode = prefixByte
  · have hzero : kbdusChar (scancode &&& 0x7F) ≠ capslockKey := by
      rw [hpre, kbdus_prefixByte]
      decide
    rw [if_pos hpre, if_neg fun h => hzero h.1]
  · have hkey : k.key scancode = ⟨false, 0x3A⟩ ↔
        kbdusChar (scancode &&& 0x7F) = capslockKey ∧ k.pre = false := by
      rw [kbdus_capslock, Keys.key, ScanKey.mk.injEq]
      exact and_comm
    rw [if_neg hpre]
    simp only [hkey]
    congr 1
    rw [eq_iff_iff]
    constructor
    · intro h
      exact ⟨h.1.1, h.2, h.1.2⟩
    · intro h
      exact ⟨⟨h.1, h.2.2⟩, h.2.1⟩

/-- The flags stay right exactly when the codes of the modifiers are as they should be. -/
theorem flagsRight_key_iff (h : s.FlagsRight) (scancode : UInt8) (stray : Option Int) :
    (s.next (.key scancode stray)).FlagsRight ↔
      (kbdusChar (scancode &&& 0x7F) = shiftKey →
        (s.keys.next scancode).shift = isMake scancode) ∧
      (kbdusChar (scancode &&& 0x7F) = ctrlKey →
        (s.keys.next scancode).ctrl = isMake scancode) ∧
      (kbdusChar (scancode &&& 0x7F) = capslockKey → isMake scancode = true →
        s.keys.pre = false) := by
  have hmods := key_mods s.dev scancode stray
  have hshift : (s.next (.key scancode stray)).dev.kbd.shiftPressed =
      if kbdusChar (scancode &&& 0x7F) = shiftKey then isMake scancode else s.keys.shift :=
    h.shift ▸ congrArg Prod.fst hmods
  have hcaps : (s.next (.key scancode stray)).dev.kbd.capslockPressed =
      if kbdusChar (scancode &&& 0x7F) = capslockKey ∧ isMake scancode = true then !s.keys.caps
      else s.keys.caps :=
    h.caps ▸ congrArg (fun m => m.2.1) hmods
  have hctrl : (s.next (.key scancode stray)).dev.kbd.ctrlPressed =
      if kbdusChar (scancode &&& 0x7F) = ctrlKey then isMake scancode else s.keys.ctrl :=
    h.ctrl ▸ congrArg (fun m => m.2.2) hmods
  constructor
  · intro hright
    refine ⟨fun hc => ?_, fun hc => ?_, fun hc hmake => ?_⟩
    · rw [if_pos hc] at hshift
      exact hright.shift.symm.trans hshift
    · rw [if_pos hc] at hctrl
      exact hright.ctrl.symm.trans hctrl
    · have hflag := hright.caps
      rw [hcaps, if_pos ⟨hc, hmake⟩] at hflag
      have hkeys : (!s.keys.caps) = (s.keys.next scancode).caps := hflag
      rw [next_caps] at hkeys
      by_contra hpre
      rw [if_neg fun hand => hpre hand.2.2] at hkeys
      exact absurd hkeys (by cases s.keys.caps <;> decide)
  · rintro ⟨hs, hct, hcp⟩
    refine ⟨?_, ?_, ?_⟩
    · show _ = (s.keys.next scancode).shift
      rw [hshift]
      split_ifs with hc
      · exact (hs hc).symm
      · exact (next_shift_of_ne s.keys hc).symm
    · show _ = (s.keys.next scancode).caps
      rw [hcaps, next_caps]
      by_cases hc : kbdusChar (scancode &&& 0x7F) = capslockKey ∧ isMake scancode = true
      · rw [if_pos hc, if_pos ⟨hc.1, hc.2, hcp hc.1 hc.2⟩]
      · rw [if_neg hc, if_neg fun hand => hc ⟨hand.1, hand.2.1⟩]
    · show _ = (s.keys.next scancode).ctrl
      rw [hctrl]
      split_ifs with hc
      · exact (hct hc).symm
      · exact (next_ctrl_of_ne s.keys hc).symm

/-! ## The character -/

/-- Appending tells characters apart. -/
theorem push_injective {l : LineState} {c c' : UInt8} (h : l.push c = l.push c') : c = c' := by
  unfold LineState.push at h
  have hbuf := congrArg LineState.buf h
  simpa using congrFun hbuf (if 127 < l.idx then l.flush else l).idx.toNat

/-- A key that prints does nothing else to the line. -/
theorem key_lineState (d : Devices) (scancode : UInt8) (stray : Option Int)
    (hmake : isMake scancode = true) (hprint : IsPrintable scancode) :
    (consoleStep d (.key scancode stray)).lineState =
      if d.kbd.ctrlPressed then d.lineState
      else d.lineState.push (d.kbd.shiftChar (kbdusChar scancode)) := by
  have hpress : ¬ scancode &&& 0x80 ≠ 0 := not_not.2 (of_decide_eq_true hmake)
  have hback : kbdusChar scancode ≠ backspaceKey :=
    Devices.ne_of_printable hprint (.inl (by decide))
  have henter : kbdusChar scancode ≠ enterKey := Devices.ne_of_printable hprint (.inl (by decide))
  rw [d.lineState_step, Devices.keyActions, if_neg hpress, Devices.pressActions, if_neg hback,
    if_neg henter, if_pos (show 0x20 ≤ kbdusChar scancode ∧ kbdusChar scancode < 0x7F from hprint)]
  split <;> rfl

/-- With the right flags a key types the right character, unless it is the minus of the keypad with
Shift. -/
theorem typesRight_key_iff (h : s.FlagsRight) (scancode : UInt8) (stray : Option Int) :
    s.TypesRight (.key scancode stray) ↔
      (scancode = 0x4A → s.keys.pre = false → s.keys.shift = true → s.keys.ctrl = true) := by
  have hline := key_lineState s.dev scancode stray
  rw [h.ctrl, shiftChar_eq, h.shift, h.caps] at hline
  constructor
  · intro htypes hminus hpre hshift
    by_contra hctrl
    subst hminus
    have hfree : s.keys.ctrl = false := Bool.eq_false_iff.2 hctrl
    obtain ⟨c, hchar, hpush⟩ := (htypes rfl hpre (by decide)).2 hfree
    rw [hline rfl (by decide), hfree, if_neg Bool.false_ne_true] at hpush
    rw [rewritten_usChar 0x4A (by decide), if_pos ⟨rfl, hshift⟩, Option.some_inj] at hchar
    have heq := push_injective hpush
    rw [← hchar, hshift] at heq
    revert heq
    generalize s.keys.caps = caps
    revert caps
    decide +kernel
  · intro hminus hmake hpre hprint
    rw [hline hmake hprint]
    refine ⟨fun hctrl => ?_, fun hctrl => ?_⟩
    · rw [hctrl, if_pos rfl]
    · have hother : ¬ (scancode = 0x4A ∧ s.keys.shift = true) := by
        intro hand
        rw [hminus hand.1 hpre hand.2] at hctrl
        cases hctrl
      refine ⟨rewritten s.keys.shift s.keys.caps (kbdusChar scancode), ?_, ?_⟩
      · rw [rewritten_usChar scancode hprint, if_neg hother]
      · rw [hctrl, if_neg Bool.false_ne_true]

/-! ## Runs -/

/-- In a state with the right flags, an event is right exactly when its scancode is as it should
be. -/
theorem right_iff (h : s.FlagsRight) (e : ConsoleEvent) : s.Right e ↔ s.EventOk e := by
  cases e with
  | key scancode stray =>
      rw [Right, typesRight_key_iff h, flagsRight_key_iff h]
      constructor
      · rintro ⟨hminus, hshift, hctrl, hcaps⟩
        exact ⟨hshift, hctrl, hcaps, hminus⟩
      · rintro ⟨hshift, hctrl, hcaps, hminus⟩
        exact ⟨hminus, hshift, hctrl, hcaps⟩
  | serve term => exact ⟨fun _ => trivial, fun _ => ⟨trivial, ⟨h.shift, h.caps, h.ctrl⟩⟩⟩
  | launch term => exact ⟨fun _ => trivial, fun _ => ⟨trivial, ⟨h.shift, h.caps, h.ctrl⟩⟩⟩
  | write buf =>
      have hkbd : (consoleStep s.dev (.write buf)).kbd = s.dev.kbd := Devices.puts_kbd s.dev buf
      refine ⟨fun _ => trivial, fun _ => ⟨trivial, ⟨?_, ?_, ?_⟩⟩⟩
      · exact (congrArg Keyboard.shiftPressed hkbd).trans h.shift
      · exact (congrArg Keyboard.capslockPressed hkbd).trans h.caps
      · exact (congrArg Keyboard.ctrlPressed hkbd).trans h.ctrl

/-- From boot, every key types what it should and the flags are right after every event, exactly in
the runs whose scancodes are all as they should be. -/
theorem types_right_iff (mem : Nat → UInt8) (es : List ConsoleEvent) :
    Meets next Right (start mem) es ↔ Meets next EventOk (start mem) es :=
  meets_law_iff (I := FlagsRight) (fun _ e h => right_iff h e) (fun _ _ h => h.2) es ⟨rfl, rfl, rfl⟩

/-- Both Shift keys go down, the right one goes up, and the left one is still held when A goes
down: a small letter is appended. -/
theorem second_shift_lost : ¬ ∀ (mem : Nat → UInt8) (es : List ConsoleEvent),
    Meets next TypesRight (start mem) es := by
  intro hall
  have hmeets := hall (fun _ => 0) [.key 0x2A none, .key 0x36 none, .key 0xB6 none, .key 0x1E none]
  obtain ⟨c, hchar, hpush⟩ := (hmeets.2.2.2.1 rfl rfl (by decide)).2 rfl
  have hupper : usChar 0x1E true false = some 'A'.toUInt8 := by decide
  have heq : 'A'.toUInt8 = c := Option.some_inj.1 (hupper.symm.trans hchar)
  have hcell := congrFun (congrArg LineState.buf hpush) 0
  subst heq
  revert hcell
  decide +kernel

end Typist

end Ece391Kernel
