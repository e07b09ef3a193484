import Mathlib.Data.List.GetD
import Ece391Kernel.Devices.LineEditing

/-!
# Half-typed lines on several terminals

Characters and Enter on the three terminals, with ALT-Fx switches between them. A switch saves
`kbd_buf` and loads the buffer of the other terminal, but `kbd_buf_idx` stays what it is. In every
run whose characters find the index at the end of the line they are typed on, the lines sent on a
terminal are those that its own keys send when they are typed alone (`lines_eq_alone`): a half-typed
line survives what is typed elsewhere. Where the index is wrong, it does not (`line_mangled`).
-/

namespace Ece391Kernel

open Transition

/-- The key is typed on a line: a character or Enter. -/
def KeyAction.isTyped : KeyAction → Bool
  | .char _ => true
  | .enter => true
  | _ => false

/-- The characters pending after one key. -/
def typeKey (line : List UInt8) : KeyAction → List UInt8
  | .char c => line ++ [c]
  | .enter => []
  | .erase | .switch _ => line

/-- The flags that decide what a key types. -/
def Keyboard.mods (k : Keyboard) : Bool × Bool × Bool :=
  (k.shiftPressed, k.capslockPressed, k.ctrlPressed)

/-- No key of Shift, Caps Lock, Ctrl or Backspace, pressed or released. -/
def ConsoleEvent.Plain : ConsoleEvent → Prop
  | .key scancode _ =>
      if scancode &&& 0x80 ≠ 0 then kbdusChar (scancode &&& 0x7F) ∉ [shiftKey, ctrlKey]
      else kbdusChar scancode ∉ [shiftKey, capslockKey, ctrlKey, backspaceKey]
  | _ => True

instance : DecidablePred ConsoleEvent.Plain := fun e =>
  match e with
  | .key scancode _ =>
      inferInstanceAs (Decidable (if scancode &&& 0x80 ≠ 0 then
        kbdusChar (scancode &&& 0x7F) ∉ [shiftKey, ctrlKey]
        else kbdusChar scancode ∉ [shiftKey, capslockKey, ctrlKey, backspaceKey]))
  | .serve _ => inferInstanceAs (Decidable True)
  | .launch _ => inferInstanceAs (Decidable True)
  | .write _ => inferInstanceAs (Decidable True)

namespace Devices

variable {d a : Devices}

/-! ## What is sent and what is typed where -/

/-- The line that an event sends: what `terminal_buf` holds after it. -/
def sentLine (d : Devices) (e : ConsoleEvent) : List (List UInt8) :=
  if .enter ∈ d.keyActions e then [(List.range maxBuf).map (consoleStep d e).term.terminalBuf]
  else []

/-- The line that an event sends while `t` is displayed. -/
def sentOn (t : Nat) (d : Devices) (e : ConsoleEvent) : List (List UInt8) :=
  if d.term.curTermNum = t then d.sentLine e else []

/-- The event, if it is a key typed while `t` is displayed. -/
def typedOn (t : Nat) (d : Devices) (e : ConsoleEvent) : List ConsoleEvent :=
  if d.term.curTermNum = t ∧ (d.keyActions e).any KeyAction.isTyped = true then [e] else []

/-- The lines sent by Enter while `t` is displayed. -/
def linesOn (t : Nat) (d : Devices) (es : List ConsoleEvent) : List (List UInt8) :=
  emitted consoleStep (sentOn t) d es

/-- All lines sent by Enter. -/
def lines (d : Devices) (es : List ConsoleEvent) : List (List UInt8) :=
  emitted consoleStep sentLine d es

/-- The keys typed while `t` is displayed. -/
def ownKeys (t : Nat) (d : Devices) (es : List ConsoleEvent) : List ConsoleEvent :=
  emitted consoleStep (typedOn t) d es

/-! ## The shift flags -/

theorem kbSwitch_mods (cur : Nat) (c : UInt8) : (d.kbSwitch cur c).kbd.mods = d.kbd.mods := by
  obtain ⟨_, _, hkbd⟩ := d.kbSwitch_kbd cur c
  rw [hkbd]
  rfl

theorem kbCtrl_mods (cur : Nat) (c : UInt8) (stray : Option Int) :
    (d.kbCtrl cur c stray).kbd.mods = d.kbd.mods := by
  obtain ⟨_, hkbd⟩ := d.kbCtrl_kbd cur c stray
  rw [hkbd]
  rfl

theorem kbPrint_mods (cur : Nat) (c : UInt8) : (d.kbPrint cur c).kbd.mods = d.kbd.mods := by
  show (d.kbd.pushChar c).mods = d.kbd.mods
  unfold Keyboard.pushChar
  split <;> rfl

theorem kbOverride_mods (d : Devices) : d.kbOverride.kbd.mods = d.kbd.mods := by
  unfold kbOverride
  split <;> rfl

theorem press_mods (k : Keyboard) {c : UInt8} (hshift : c ≠ shiftKey) (hcaps : c ≠ capslockKey)
    (hctrl : c ≠ ctrlKey) : (k.press c).mods = k.mods := by
  simp only [Keyboard.press, if_neg hshift, if_neg hcaps, if_neg hctrl]
  split <;> rfl

theorem kbBackspace_mods (cur : Nat) : (d.kbBackspace cur).kbd.mods = d.kbd.mods := rfl

theorem kbEnter_mods (cur : Nat) : (d.kbEnter cur).kbd.mods = d.kbd.mods := rfl

/-- After the flags are set, nothing in the branch for a press changes them. -/
theorem kbPress_press_mods (cur : Nat) (c : UInt8) (stray : Option Int) :
    (d.kbPress cur c stray).kbd.mods = (d.kbd.press c).mods := by
  unfold kbPress
  generalize hd0 : ({ d with kbd := d.kbd.press c } : Devices) = d0
  have hmods : ((d0.kbSwitch cur c).kbCtrl cur c stray).kbd.mods = (d.kbd.press c).mods := by
    rw [kbCtrl_mods, kbSwitch_mods, ← hd0]
  dsimp only
  split_ifs <;> simp only [kbPrint_mods, kbEnter_mods, kbBackspace_mods, hmods]

theorem kbPress_mods (cur : Nat) {c : UInt8} (hshift : c ≠ shiftKey) (hcaps : c ≠ capslockKey)
    (hctrl : c ≠ ctrlKey) (stray : Option Int) :
    (d.kbPress cur c stray).kbd.mods = d.kbd.mods :=
  (kbPress_press_mods cur c stray).trans (press_mods d.kbd hshift hcaps hctrl)

/-- Plain keys leave the flags alone. -/
theorem consoleStep_mods {e : ConsoleEvent} (he : e.Plain) :
    (consoleStep d e).kbd.mods = d.kbd.mods := by
  cases e with
  | key scancode stray =>
      have hbegin : d.kbBegin.kbOverride.kbd.mods = d.kbd.mods := kbOverride_mods _
      show (d.kbBegin.kbOverride.kbScancode d.term.curTermNum scancode stray).kbd.mods = _
      unfold kbScancode
      simp only [ConsoleEvent.Plain] at he
      by_cases hrel : scancode &&& 0x80 ≠ 0
      · simp only [if_pos hrel, List.mem_cons, List.not_mem_nil, or_false, not_or] at he
        rw [if_pos hrel, ← hbegin]
        simp only [Keyboard.release, if_neg he.1, if_neg he.2]
        split <;> rfl
      · simp only [if_neg hrel, List.mem_cons, List.not_mem_nil, or_false, not_or] at he
        rw [if_neg hrel, kbPress_mods _ he.1 he.2.1 he.2.2.1, hbegin]
  | serve term => rfl
  | launch term => rfl
  | write buf => exact congrArg Keyboard.mods (puts_kbd d buf)

/-! ## The action of a plain key -/

/-- What a plain event does: nothing, a character, Enter, or a switch to another terminal. -/
theorem keyActions_plain {e : ConsoleEvent} (he : e.Plain) :
    d.keyActions e = [] ∨ (∃ c, d.keyActions e = [.char c]) ∨ d.keyActions e = [.enter] ∨
      ∃ new, d.keyActions e = [.switch new] ∧ new ≠ d.term.curTermNum ∧ new < 3 := by
  cases e with
  | key scancode stray =>
      simp only [ConsoleEvent.Plain] at he
      simp only [keyActions]
      by_cases hrel : scancode &&& 0x80 ≠ 0
      · exact .inl (if_pos hrel)
      · simp only [if_neg hrel, List.mem_cons, List.not_mem_nil, or_false, not_or] at he
        simp only [if_neg hrel, pressActions, if_neg he.2.2.2]
        split_ifs
        · exact .inr (.inr (.inl rfl))
        · exact .inl rfl
        · exact .inr (.inl ⟨_, rfl⟩)
        · cases htarget : d.switchTarget (kbdusChar scancode) with
          | none => exact .inl rfl
          | some new =>
              unfold switchTarget at htarget
              split_ifs at htarget
              obtain ⟨hreq, hne⟩ := Option.filter_eq_some_iff.1 htarget
              exact .inr (.inr (.inr ⟨new, rfl, (of_decide_eq_true hne).symm,
                requestedTerm_lt hreq⟩))
  | serve term => exact .inl rfl
  | launch term => exact .inl rfl
  | write buf => exact .inl rfl

theorem shiftChar_mods {k k' : Keyboard} (h : k'.mods = k.mods) (c : UInt8) :
    k'.shiftChar c = k.shiftChar c := by
  have hshift : k'.shiftPressed = k.shiftPressed := congrArg Prod.fst h
  have hcaps : k'.capslockPressed = k.capslockPressed := congrArg (fun m => m.2.1) h
  simp only [Keyboard.shiftChar, hshift, hcaps]

/-- What is typed depends on the flags only. -/
theorem keyActions_typed (hmods : a.kbd.mods = d.kbd.mods) {e : ConsoleEvent} {k : KeyAction}
    (hk : k.isTyped = true) (h : d.keyActions e = [k]) : a.keyActions e = [k] := by
  have hctrl : a.kbd.ctrlPressed = d.kbd.ctrlPressed := congrArg (fun m => m.2.2) hmods
  cases e with
  | key scancode stray =>
      simp only [keyActions, pressActions, shiftChar_mods hmods, hctrl] at h ⊢
      split_ifs at h ⊢
      · exact h
      · exact h
      · exact h
      · -- a switch types nothing
        cases htarget : d.switchTarget (kbdusChar scancode) with
        | none =>
            rw [htarget] at h
            cases h
        | some new =>
            rw [htarget] at h
            cases h
            cases hk
  | serve term => cases h
  | launch term => cases h
  | write buf => cases h

end Devices

/-! ## The buffers -/

namespace LineState

/-- `kbd_buf` holds the line of the displayed terminal, and the saved buffers those of the
others. -/
structure Saves (l : LineState) (pending : Nat → List UInt8) : Prop where
  cur : l.cur < 3
  buf : ∀ i, i < maxBuf → l.buf i = (pending l.cur).getD i 0
  saved : ∀ t, t < 3 → t ≠ l.cur → ∀ i, i < maxBuf → l.saved t i = (pending t).getD i 0

variable {l : LineState} {line : List UInt8} {pending : Nat → List UInt8}

/-- A character at the end of the line. -/
theorem push_buf (hidx : l.idx.toNat = line.length) (hlength : line.length ≤ 127)
    (hbuf : ∀ i, i < maxBuf → l.buf i = line.getD i 0) (c : UInt8) :
    (l.push c).idx.toNat = (line ++ [c]).length ∧
      ∀ i, i < maxBuf → (l.push c).buf i = (line ++ [c]).getD i 0 := by
  have hroom : ¬ 127 < l.idx := by
    rw [UInt8.lt_iff_toNat_lt, hidx]
    exact Nat.not_lt.2 hlength
  have hone : (1 : UInt8).toNat = 1 := rfl
  simp only [push, if_neg hroom]
  refine ⟨?_, fun i hi => ?_⟩
  · simp only [UInt8.toNat_add, List.length_append, List.length_singleton, hidx]
    omega
  · rw [Function.update_apply, hidx]
    split_ifs with hlast
    · rw [hlast, List.getD_append_right _ _ _ _ (Nat.le_refl _), Nat.sub_self]
      rfl
    · rw [hbuf i hi]
      by_cases hlt : i < line.length
      · rw [List.getD_append _ _ _ _ hlt]
      · rw [List.getD_eq_default _ _ (Nat.not_lt.1 hlt), List.getD_eq_default]
        simp only [List.length_append, List.length_singleton]
        omega

/-- What becomes of the line of the displayed terminal does not concern the others. -/
theorem Saves.update {l' : LineState} (h : l.Saves pending) (hcur : l'.cur = l.cur)
    (hsaved : l'.saved = l.saved) (hbuf : ∀ i, i < maxBuf → l'.buf i = line.getD i 0) :
    l'.Saves (Function.update pending l.cur line) where
  cur := hcur ▸ h.cur
  buf := by
    rw [hcur, Function.update_self]
    exact hbuf
  saved := by
    intro t ht hne
    rw [hcur] at hne
    rw [Function.update_of_ne hne, hsaved]
    exact h.saved t ht hne

/-- A switch saves one line and loads another. -/
theorem Saves.switch (h : l.Saves pending) {new : Nat} (hnew : new < 3) (hne : new ≠ l.cur) :
    (l.apply (.switch new)).Saves pending where
  cur := hnew
  buf := by
    intro i hi
    show (if i < maxBuf then l.saved new i else l.buf i) = _
    rw [if_pos hi]
    exact h.saved new hnew hne i hi
  saved := by
    intro t ht htnew i hi
    show Function.update l.saved l.cur _ t i = _
    by_cases hcur : t = l.cur
    · subst hcur
      rw [Function.update_self, if_pos hi]
      exact h.buf i hi
    · rw [Function.update_of_ne hcur]
      exact h.saved t ht hcur i hi

end LineState

/-! ## The run, with the characters pending on each terminal -/

/-- The devices, and the characters pending on each terminal. -/
structure Typed where
  dev : Devices
  pending : Nat → List UInt8

namespace Typed

/-- One event; what it types is pending on the displayed terminal. -/
def next (s : Typed) (e : ConsoleEvent) : Typed where
  dev := consoleStep s.dev e
  pending := Function.update s.pending s.dev.term.curTermNum
    ((s.dev.keyActions e).foldl typeKey (s.pending s.dev.term.curTermNum))

/-- Nothing is pending. -/
def start (d : Devices) : Typed := ⟨d, fun _ => []⟩

/-- At most 127 characters are pending on each terminal. -/
def Short (s : Typed) : Prop := ∀ t, t < 3 → (s.pending t).length ≤ 127

/-- A character is typed at the end of the pending line. -/
def InPlace (s : Typed) (e : ConsoleEvent) : Prop :=
  (s.dev.keyActions e).any (fun a => a matches .char _) = true →
    s.dev.kbd.kbdBufIdx.toNat = (s.pending s.dev.term.curTermNum).length

instance : DecidablePred Short := fun s =>
  inferInstanceAs (Decidable (∀ t, t < 3 → (s.pending t).length ≤ 127))

instance (s : Typed) (e : ConsoleEvent) : Decidable (s.InPlace e) :=
  inferInstanceAs (Decidable (_ → _))

/-- Typing alone what is typed on `t` has led to the same line, at the end of which the index
stands. -/
structure Alone (t : Nat) (s : Typed) (a : Devices) : Prop where
  mods : a.kbd.mods = s.dev.kbd.mods
  idx : a.lineState.idx.toNat = (s.pending t).length
  buf : ∀ i, i < maxBuf → a.lineState.buf i = (s.pending t).getD i 0

variable {s : Typed} {a : Devices} {t : Nat} {e : ConsoleEvent}

/-- What Enter sends is the padded line. -/
theorem sentLine_enter {d : Devices} {line : List UInt8} (h : d.keyActions e = [.enter])
    (hbuf : ∀ i, i < maxBuf → d.lineState.buf i = line.getD i 0) :
    d.sentLine e = [(List.range maxBuf).map fun i => line.getD i 0] := by
  have hstep := d.lineState_step e
  rw [h] at hstep
  have hsent : (consoleStep d e).term.terminalBuf = (d.lineState.apply .enter).sent :=
    congrArg LineState.sent hstep
  rw [Devices.sentLine, h, if_pos (List.mem_singleton.2 rfl), hsent]
  refine congrArg (fun l => [l]) (List.map_congr_left fun i hi => ?_)
  have hi' : i < maxBuf := List.mem_range.1 hi
  rw [← hbuf i hi']
  exact if_pos hi'

theorem sentLine_other {d : Devices} (h : .enter ∉ d.keyActions e) : d.sentLine e = [] :=
  if_neg h

/-! ## One event -/

/-- The buffers keep holding the lines. -/
theorem saves_next (h : s.dev.lineState.Saves s.pending) (hshort : s.Short) (he : e.Plain)
    (hin : s.InPlace e) : (s.next e).dev.lineState.Saves (s.next e).pending := by
  have hstep := s.dev.lineState_step e
  show (consoleStep s.dev e).lineState.Saves (Function.update s.pending s.dev.lineState.cur
    ((s.dev.keyActions e).foldl typeKey (s.pending s.dev.lineState.cur)))
  obtain hact | ⟨c, hact⟩ | hact | ⟨new, hact, hne, hnew⟩ := s.dev.keyActions_plain he
  · rw [hstep, hact]
    exact h.update rfl rfl h.buf
  · have hidx := hin (by rw [hact]; rfl)
    obtain ⟨-, hbuf⟩ := LineState.push_buf hidx (hshort _ h.cur) h.buf c
    rw [hstep, hact]
    exact h.update (LineState.push_cur _ c) (LineState.push_saved _ c) hbuf
  · rw [hstep, hact]
    exact h.update rfl rfl fun i hi => if_pos hi
  · rw [hstep, hact]
    simp only [List.foldl_cons, List.foldl_nil, typeKey, Function.update_eq_self]
    exact h.switch hnew hne

/-- An event that types nothing on `t`. -/
theorem Alone.skip (ha : Alone t s a) (he : e.Plain)
    (hpending : (s.next e).pending t = s.pending t) : Alone t (s.next e) a where
  mods := ha.mods.trans (Devices.consoleStep_mods he).symm
  idx := by rw [hpending]; exact ha.idx
  buf := by rw [hpending]; exact ha.buf

/-- A key typed on `t`, and the same key typed alone. -/
theorem Alone.type (ha : Alone t s a) (he : e.Plain) {k : KeyAction} (hk : k.isTyped = true)
    (hact : s.dev.keyActions e = [k]) (hcur : s.dev.term.curTermNum = t)
    (hidx : (a.lineState.apply k).idx.toNat = (typeKey (s.pending t) k).length)
    (hbuf : ∀ i, i < maxBuf → (a.lineState.apply k).buf i = (typeKey (s.pending t) k).getD i 0) :
    Alone t (s.next e) (consoleStep a e) := by
  have hline : (consoleStep a e).lineState = a.lineState.apply k := by
    rw [a.lineState_step e, Devices.keyActions_typed ha.mods hk hact]
    rfl
  have hpending : (s.next e).pending t = typeKey (s.pending t) k := by
    show Function.update s.pending s.dev.term.curTermNum _ t = _
    rw [hcur, Function.update_self, hact]
    rfl
  refine ⟨?_, ?_, ?_⟩
  · exact (Devices.consoleStep_mods he).trans (ha.mods.trans (Devices.consoleStep_mods he).symm)
  · rw [hline, hpending]
    exact hidx
  · rw [hline, hpending]
    exact hbuf

/-- What is typed alone keeps up with what is typed on `t`, and sends the same. -/
theorem Alone.next (ha : Alone t s a) (h : s.dev.lineState.Saves s.pending) (hshort : s.Short)
    (ht : t < 3) (he : e.Plain) :
    s.dev.sentOn t e = emitted consoleStep Devices.sentLine a (s.dev.typedOn t e) ∧
      Alone t (s.next e) ((s.dev.typedOn t e).foldl consoleStep a) := by
  -- Keys while another terminal is displayed are left out, and so are switches.
  by_cases hcur : s.dev.term.curTermNum = t
  · rw [Devices.sentOn, if_pos hcur, Devices.typedOn]
    obtain hact | ⟨c, hact⟩ | hact | ⟨new, hact, -, -⟩ := s.dev.keyActions_plain he
    · rw [hact, sentLine_other (by rw [hact]; exact List.not_mem_nil),
        if_neg fun h => Bool.false_ne_true h.2]
      refine ⟨rfl, ha.skip he ?_⟩
      show Function.update s.pending s.dev.term.curTermNum _ t = _
      rw [hcur, Function.update_self, hact]
      rfl
    · have hact' := Devices.keyActions_typed ha.mods rfl hact
      have hno : ∀ d : Devices, d.keyActions e = [.char c] → d.sentLine e = [] := fun d hd =>
        sentLine_other (by rw [hd]; simp)
      obtain ⟨hidx, hbuf⟩ := LineState.push_buf ha.idx (hshort t ht) ha.buf c
      rw [hact, if_pos ⟨hcur, rfl⟩, hno _ hact]
      refine ⟨?_, ha.type he rfl hact hcur hidx hbuf⟩
      rw [emitted, hno _ hact']
      rfl
    · have hact' := Devices.keyActions_typed ha.mods rfl hact
      have hbuf := h.buf
      rw [show s.dev.lineState.cur = t from hcur] at hbuf
      rw [hact, if_pos ⟨hcur, rfl⟩, sentLine_enter hact hbuf]
      refine ⟨?_, ha.type he rfl hact hcur rfl fun i hi => if_pos hi⟩
      rw [emitted, sentLine_enter hact' ha.buf]
      rfl
    · rw [hact, sentLine_other (by rw [hact]; simp), if_neg fun h => Bool.false_ne_true h.2]
      refine ⟨rfl, ha.skip he ?_⟩
      show Function.update s.pending s.dev.term.curTermNum _ t = _
      rw [hcur, Function.update_self, hact]
      rfl
  · rw [Devices.sentOn, if_neg hcur, Devices.typedOn, if_neg fun h => hcur h.1]
    refine ⟨rfl, ha.skip he ?_⟩
    exact Function.update_of_ne (Ne.symm hcur) _ _

/-- The whole run. -/
theorem linesOn_eq {es : List ConsoleEvent} (ha : Alone t s a)
    (h : s.dev.lineState.Saves s.pending) (ht : t < 3) (hplain : ∀ e ∈ es, e.Plain)
    (hshort : Always Typed.next Short s es) (hin : Meets Typed.next InPlace s es) :
    s.dev.linesOn t es = a.lines (s.dev.ownKeys t es) := by
  induction es generalizing s a with
  | nil => rfl
  | cons e es ih =>
      obtain ⟨he, hplain'⟩ := List.forall_mem_cons.1 hplain
      obtain ⟨hsent, ha'⟩ := ha.next h hshort.1 ht he
      have hrest := ih ha' (saves_next h hshort.1 he hin.1) hplain' hshort.2 hin.2
      show s.dev.sentOn t e ++ (s.next e).dev.linesOn t es =
        emitted consoleStep Devices.sentLine a (s.dev.typedOn t e ++ (s.next e).dev.ownKeys t es)
      rw [emitted_append, hsent, hrest]
      rfl

/-- No line has been begun on any terminal. -/
structure Fresh (d : Devices) : Prop where
  cur : d.term.curTermNum < 3
  line : d.lineState.Empty
  saved : ∀ t, t < 3 → ∀ i, i < maxBuf → d.lineState.saved t i = 0

/-- In every run of characters, Enters and switches whose characters find the index at the end of
the line they are typed on, the lines sent on a terminal are those that its own keys send when
they are typed alone. -/
theorem lines_eq_alone {d : Devices} {es : List ConsoleEvent} (hfresh : Fresh d)
    (hplain : ∀ e ∈ es, e.Plain) (hshort : Always Typed.next Short (start d) es)
    (hin : Meets Typed.next InPlace (start d) es) (ht : t < 3) :
    d.linesOn t es = d.lines (d.ownKeys t es) := by
  have halone : Alone t (start d) d :=
    ⟨rfl, by rw [hfresh.line.idx]; rfl, fun i hi => hfresh.line.buf i hi⟩
  exact linesOn_eq halone ⟨hfresh.cur, fun i hi => hfresh.line.buf i hi,
    fun t ht _ i hi => hfresh.saved t ht i hi⟩ ht hplain hshort hin

theorem boot_fresh (mem : Nat → UInt8) : Fresh (Devices.boot mem) :=
  ⟨Nat.zero_lt_succ 2, ⟨fun _ _ => rfl, rfl⟩, fun _ _ _ _ => rfl⟩

/-- `a` on terminal 0, a look at terminal 1 with ALT-F2 and ALT-F1, and `b` and Enter. -/
def resumedLine : List ConsoleEvent :=
  [.key 0x1E none, .key 0x38 none, .key 0x3C none, .key 0x3B none, .key 0xB8 none, .key 0x30 none,
    .key 0x1C none]

theorem lines_eq_alone_resumed :
    (Devices.boot fun _ => 0).linesOn 0 resumedLine =
      (Devices.boot fun _ => 0).lines ((Devices.boot fun _ => 0).ownKeys 0 resumedLine) :=
  lines_eq_alone (boot_fresh _) (by decide) (by decide +kernel) (by decide +kernel) (by decide)

/-- `a` on terminal 0, ALT-F2, and `b` and Enter on terminal 1. -/
def halfLine : List ConsoleEvent :=
  [.key 0x1E none, .key 0x38 none, .key 0x3C none, .key 0x30 none, .key 0x1C none]

/-- The `b` goes to the second cell of the buffer of terminal 1. -/
theorem line_mangled :
    ¬ ∀ (d : Devices) (es : List ConsoleEvent) (t : Nat), Fresh d → (∀ e ∈ es, e.Plain) →
      Always Typed.next Short (start d) es → t < 3 →
      d.linesOn t es = d.lines (d.ownKeys t es) := by
  intro h
  have heq := h (Devices.boot fun _ => 0) halfLine 1 (boot_fresh _) (by decide)
    (by decide +kernel) (by decide)
  have hfirst := congrArg (fun ls => (ls.headD []).headD 0) heq
  exact absurd hfirst (by decide +kernel)

end Typed

end Ece391Kernel
