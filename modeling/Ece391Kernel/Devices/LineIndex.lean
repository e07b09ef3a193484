import Ece391Kernel.Devices.LineEditing

/-!
# `kbd_buf_idx`

The index is one byte. A character finds it past the buffer only when the line is full, and then
starts the line over; Backspace uses it as it is and steps it back, from 0 to 255; ALT-Fx exchanges
the buffers but not their indices. `index_ok_iff` gives the runs of keys in which the index is the
number of characters pending on the displayed terminal and `kbd_buf` is never accessed behind its
end.
-/

namespace Ece391Kernel

open Transition

/-! ## The index through the handler -/

/-- `kbd_buf_idx`, and the indices at which `kbd_buf` was accessed one byte at a time, the most
recent first. All other accesses are to the whole buffer, cells 0 to 127. -/
@[ext] structure BufIndex where
  idx : UInt8
  accesses : List Nat

namespace BufIndex

/-- Write at the index. -/
def access (s : BufIndex) : BufIndex := { s with accesses := s.idx.toNat :: s.accesses }

/-- The effect of one action. -/
def apply (s : BufIndex) : KeyAction → BufIndex
  | .char _ =>
      let s := if 127 < s.idx then { s with idx := 0 } else s
      { s.access with idx := s.idx + 1 }
  | .erase => { s.access with idx := s.idx - 1 }
  | .enter => { s with idx := 0 }
  | .switch _ => s

end BufIndex

/-- The index and the accesses so far. -/
def Keyboard.index (k : Keyboard) : BufIndex := ⟨k.kbdBufIdx, k.kbdAccesses⟩

theorem Keyboard.pushChar_index (k : Keyboard) (c c' : UInt8) :
    (k.pushChar c).index = k.index.apply (.char c') := by
  unfold pushChar BufIndex.apply
  by_cases hfull : 127 < k.kbdBufIdx
  · have hfull' : 127 < k.index.idx := hfull
    rw [if_pos hfull, if_pos hfull']
    rfl
  · have hfull' : ¬ 127 < k.index.idx := hfull
    rw [if_neg hfull, if_neg hfull']
    rfl

theorem Keyboard.press_index (k : Keyboard) (c : UInt8) : (k.press c).index = k.index := by
  unfold press
  dsimp only
  split_ifs <;> rfl

theorem Keyboard.release_index (k : Keyboard) (c : UInt8) : (k.release c).index = k.index := by
  unfold release
  split_ifs <;> rfl

namespace Devices

variable {d : Devices}

theorem kbSwitch_index (cur : Nat) (c : UInt8) : (d.kbSwitch cur c).kbd.index = d.kbd.index := by
  obtain ⟨_, _, hkbd⟩ := d.kbSwitch_kbd cur c
  rw [hkbd]
  rfl

theorem kbCtrl_index (cur : Nat) (c : UInt8) (stray : Option Int) :
    (d.kbCtrl cur c stray).kbd.index = d.kbd.index := by
  obtain ⟨_, hkbd⟩ := d.kbCtrl_kbd cur c stray
  rw [hkbd]
  rfl

theorem kbOverride_index (d : Devices) : d.kbOverride.kbd.index = d.kbd.index := by
  unfold kbOverride
  split <;> rfl

theorem press_index (d : Devices) (c : UInt8) :
    ({ d with kbd := d.kbd.press c } : Devices).kbd.index = d.kbd.index :=
  d.kbd.press_index c

/-- A press accesses the buffer as its action says. -/
theorem kbPress_index (cur : Nat) (c : UInt8) (stray : Option Int) :
    (d.kbPress cur c stray).kbd.index = (d.pressActions c).foldl BufIndex.apply d.kbd.index := by
  unfold pressActions
  by_cases hback : c = backspaceKey
  · subst hback
    rw [if_pos rfl, kbPress_backspace, ← press_index d backspaceKey]
    rfl
  · rw [if_neg hback]
    by_cases henter : c = enterKey
    · subst henter
      rw [if_pos rfl, kbPress_enter, ← press_index d enterKey]
      rfl
    · rw [if_neg henter]
      by_cases hc : 0x20 ≤ c ∧ c < 0x7F
      · rw [if_pos hc]
        by_cases hctrl : d.kbd.ctrlPressed = true
        · rw [if_pos hctrl, kbPress_command hc hctrl, kbCtrl_index, press_index]
          rfl
        · rw [if_neg hctrl, kbPress_print hc (Bool.eq_false_iff.2 hctrl), ← press_index d c]
          exact (d.kbd.press c).pushChar_index _ (d.kbd.shiftChar c)
      · rw [if_neg hc, kbPress_other hback henter hc, kbSwitch_index, press_index]
        cases d.switchTarget c with
        | none => rfl
        | some new => rfl

/-- What a console event does to the index. -/
theorem index_step (d : Devices) (e : ConsoleEvent) :
    (consoleStep d e).kbd.index = (d.keyActions e).foldl BufIndex.apply d.kbd.index := by
  cases e with
  | key scancode stray =>
      have hbegin : d.kbBegin.kbOverride.kbd.index = d.kbd.index := kbOverride_index _
      show (d.kbBegin.kbOverride.kbScancode d.term.curTermNum scancode stray).kbd.index = _
      simp only [kbScancode, keyActions]
      by_cases hrel : scancode &&& 0x80 ≠ 0
      · rw [if_pos hrel, if_pos hrel]
        exact (Keyboard.release_index _ _).trans hbegin
      · rw [if_neg hrel, if_neg hrel, kbPress_index, kbOverride_pressActions, hbegin]
        rfl
  | serve term => rfl
  | launch term => rfl
  | write buf => exact congrArg Keyboard.index (puts_kbd d buf)

end Devices

/-! ## Characters pending on each terminal -/

/-- The characters pending on a line after one key. A character on a full line starts it over. -/
def pendKey (line : List UInt8) : KeyAction → List UInt8
  | .char c => if line.length ≤ 127 then line ++ [c] else [c]
  | .erase => line.dropLast
  | .enter => []
  | .switch _ => line

/-- The devices, and the characters pending on each terminal. -/
structure Pending where
  dev : Devices
  lines : Nat → List UInt8

namespace Pending

/-- The line of the displayed terminal. -/
def line (s : Pending) : List UInt8 := s.lines s.dev.term.curTermNum

/-- One event; what it does to a line it does to that of the displayed terminal. -/
def next (s : Pending) (e : ConsoleEvent) : Pending where
  dev := consoleStep s.dev e
  lines := Function.update s.lines s.dev.term.curTermNum
    ((s.dev.keyActions e).foldl pendKey s.line)

/-- From boot, with nothing pending. -/
def start (mem : Nat → UInt8) : Pending := ⟨Devices.boot mem, fun _ => []⟩

/-- The index is the number of pending characters, and all accesses were inside the buffer. -/
structure IndexOk (s : Pending) : Prop where
  idx : s.dev.kbd.kbdBufIdx.toNat = s.line.length
  accesses : ∀ i ∈ s.dev.kbd.kbdAccesses, i ≤ 127

/-- What an action must find: Backspace at least one character and not a full line, and a switch
as many characters on the other terminal as on this one. -/
def ActionOk (s : Pending) : KeyAction → Prop
  | .erase => 1 ≤ s.line.length ∧ s.line.length ≤ 127
  | .switch new => (s.lines new).length = s.line.length
  | .char _ => True
  | .enter => True

/-- The actions of an event find what they must. -/
def EventOk (s : Pending) (e : ConsoleEvent) : Prop := ∀ a ∈ s.dev.keyActions e, s.ActionOk a

/-- No line is longer than the buffer. -/
def Fits (s : Pending) : Prop := ∀ t, (s.lines t).length ≤ 128

variable {s : Pending} {e : ConsoleEvent}

theorem pendKey_length {line : List UInt8} (h : line.length ≤ 128) (a : KeyAction) :
    (pendKey line a).length ≤ 128 := by
  cases a with
  | char c =>
      simp only [pendKey]
      split_ifs with hroom
      · rw [List.length_append, List.length_singleton]
        omega
      · rw [List.length_singleton]
        omega
  | erase =>
      simp only [pendKey, List.length_dropLast]
      omega
  | enter => exact Nat.zero_le _
  | switch new => exact h

/-- A key does at most one thing. -/
theorem keyActions_cases (d : Devices) (e : ConsoleEvent) :
    d.keyActions e = [] ∨ ∃ a, d.keyActions e = [a] := by
  cases e with
  | key scancode stray =>
      simp only [Devices.keyActions, Devices.pressActions]
      split_ifs
      · exact .inl rfl
      · exact .inr ⟨_, rfl⟩
      · exact .inr ⟨_, rfl⟩
      · exact .inl rfl
      · exact .inr ⟨_, rfl⟩
      · cases d.switchTarget (kbdusChar scancode) with
        | none => exact .inl rfl
        | some new => exact .inr ⟨_, rfl⟩
  | serve term => exact .inl rfl
  | launch term => exact .inl rfl
  | write buf => exact .inl rfl

theorem next_fits (h : s.Fits) (e : ConsoleEvent) : (s.next e).Fits := by
  intro t
  show (Function.update s.lines s.dev.term.curTermNum _ t).length ≤ 128
  by_cases ht : t = s.dev.term.curTermNum
  · subst ht
    rw [Function.update_self]
    rcases keyActions_cases s.dev e with hnone | ⟨a, ha⟩
    · rw [hnone]
      exact h _
    · rw [ha]
      exact pendKey_length (h _) a
  · rw [Function.update_of_ne ht]
    exact h t

/-- The index and the accesses match a line. -/
def Matches (i : BufIndex) (line : List UInt8) : Prop :=
  i.idx.toNat = line.length ∧ ∀ j ∈ i.accesses, j ≤ 127

/-- A character always leaves the index right: where the line is full, it starts over. -/
theorem Matches.char {i : BufIndex} {line : List UInt8} (h : Matches i line)
    (hfits : line.length ≤ 128) (c : UInt8) :
    Matches (i.apply (.char c)) (pendKey line (.char c)) := by
  obtain ⟨hidx, haccesses⟩ := h
  have hone : (1 : UInt8).toNat = 1 := rfl
  by_cases hroom : line.length ≤ 127
  · have hlow : ¬ 127 < i.idx := by
      rw [UInt8.lt_iff_toNat_lt, hidx]
      exact Nat.not_lt.2 hroom
    simp only [BufIndex.apply, if_neg hlow, pendKey, if_pos hroom]
    refine ⟨?_, fun j hj => ?_⟩
    · simp only [UInt8.toNat_add, hone, hidx, List.length_append, List.length_singleton]
      omega
    · rcases List.mem_cons.1 hj with heq | hold
      · omega
      · exact haccesses j hold
  · have hhigh : 127 < i.idx := by
      rw [UInt8.lt_iff_toNat_lt, hidx]
      exact Nat.not_le.1 hroom
    simp only [BufIndex.apply, if_pos hhigh, pendKey, if_neg hroom]
    refine ⟨rfl, fun j hj => ?_⟩
    rcases List.mem_cons.1 hj with heq | hold
    · rw [heq]
      exact Nat.zero_le _
    · exact haccesses j hold

/-- Backspace leaves it right exactly when there is a character and the line is not full. -/
theorem Matches.erase_iff {i : BufIndex} {line : List UInt8} (h : Matches i line)
    (hfits : line.length ≤ 128) :
    Matches (i.apply .erase) (pendKey line .erase) ↔ 1 ≤ line.length ∧ line.length ≤ 127 := by
  obtain ⟨hidx, haccesses⟩ := h
  have hone : (1 : UInt8).toNat = 1 := rfl
  have hlt := i.idx.toNat_lt
  have hnext : (i.apply .erase).idx.toNat = (256 - 1 + line.length) % 256 := by
    show (i.idx - 1).toNat = _
    rw [UInt8.toNat_sub, hone, hidx]
  have hlength : (pendKey line .erase).length = line.length - 1 := List.length_dropLast
  constructor
  · intro hafter
    have heq := hafter.1
    have haccess := hafter.2 i.idx.toNat List.mem_cons_self
    omega
  · intro hroom
    refine ⟨by omega, fun j hj => ?_⟩
    rcases List.mem_cons.1 hj with heq | hold
    · omega
    · exact haccesses j hold

/-- The terminal displayed after an event. -/
theorem next_cur (s : Pending) (e : ConsoleEvent) : (s.next e).dev.term.curTermNum =
    ((s.dev.keyActions e).foldl LineState.apply s.dev.lineState).cur :=
  congrArg LineState.cur (s.dev.lineState_step e)

theorem next_index (s : Pending) (e : ConsoleEvent) : (s.next e).dev.kbd.index =
    (s.dev.keyActions e).foldl BufIndex.apply s.dev.kbd.index :=
  s.dev.index_step e

theorem indexOk_iff_matches : s.IndexOk ↔ Matches s.dev.kbd.index s.line :=
  ⟨fun h => ⟨h.idx, h.accesses⟩, fun h => ⟨h.1, h.2⟩⟩

/-- An action on the line of the displayed terminal. -/
theorem next_line {a : KeyAction} (ha : s.dev.keyActions e = [a])
    (hcur : (s.next e).dev.term.curTermNum = s.dev.term.curTermNum) :
    (s.next e).line = pendKey s.line a := by
  show (Function.update s.lines s.dev.term.curTermNum _) (s.next e).dev.term.curTermNum = _
  rw [hcur, Function.update_self, ha]
  rfl

/-- One event keeps the index right exactly when its action finds what it must. -/
theorem next_indexOk_iff (hfits : s.Fits) (h : s.IndexOk) (e : ConsoleEvent) :
    (s.next e).IndexOk ↔ s.EventOk e := by
  have hmatches := indexOk_iff_matches.1 h
  have hline : s.line.length ≤ 128 := hfits _
  have hcur := s.next_cur e
  have hindex := s.next_index e
  rw [indexOk_iff_matches, hindex, EventOk]
  rcases keyActions_cases s.dev e with hnone | ⟨a, ha⟩
  · have hsame : (s.next e).line = s.line := by
      rw [hnone] at hcur
      show (Function.update s.lines s.dev.term.curTermNum _) (s.next e).dev.term.curTermNum = _
      rw [hcur, hnone]
      exact Function.update_self ..
    rw [hnone, hsame]
    exact ⟨fun _ _ hmem => absurd hmem List.not_mem_nil, fun _ => hmatches⟩
  · rw [ha] at hcur ⊢
    simp only [List.mem_singleton, forall_eq]
    cases a with
    | char c =>
        rw [next_line ha (hcur.trans (LineState.push_cur _ c))]
        exact ⟨fun _ => trivial, fun _ => hmatches.char hline c⟩
    | erase =>
        rw [next_line ha hcur]
        exact hmatches.erase_iff hline
    | enter =>
        rw [next_line ha hcur]
        exact ⟨fun _ => trivial, fun _ => ⟨rfl, hmatches.2⟩⟩
    | switch new =>
        -- the index stays, and the line is the one pending on the other terminal
        have hnew : (s.next e).line = s.lines new := by
          show (Function.update s.lines s.dev.term.curTermNum _)
            (s.next e).dev.term.curTermNum = _
          rw [hcur, ha]
          exact congrFun (Function.update_eq_self s.dev.term.curTermNum s.lines) new
        have hidx : s.dev.kbd.index.idx.toNat = s.line.length := hmatches.1
        rw [hnew]
        constructor
        · intro hafter
          have heq : s.dev.kbd.index.idx.toNat = (s.lines new).length := hafter.1
          exact heq.symm.trans hidx
        · intro heq
          exact ⟨hidx.trans heq.symm, hmatches.2⟩

/-! ## Whole runs -/

/-- From boot, the index is the number of pending characters and no access is behind the end of
`kbd_buf`, exactly in the runs where each Backspace finds a character and a line that is not full,
and each switch as many characters on the other terminal. -/
theorem index_ok_iff (mem : Nat → UInt8) (es : List ConsoleEvent) :
    Always next IndexOk (start mem) es ↔ Meets next EventOk (start mem) es := by
  refine always_iff_meets (I := Fits) (fun s e h => next_fits h e)
    (fun s e hfits h => next_indexOk_iff hfits h e) es (fun t => Nat.zero_le _) ⟨rfl, ?_⟩
  intro i hi
  exact absurd hi List.not_mem_nil

/-- Backspace on the empty line after boot leaves the index at 255, and a second one accesses
`kbd_buf[255]`. -/
theorem backspace_wraps : ¬ ∀ (mem : Nat → UInt8) (es : List ConsoleEvent),
    Always next IndexOk (start mem) es := by
  intro hall
  have hrun := hall (fun _ => 0) [.key 0x0E none, .key 0x0E none]
  have hlast := hrun.last
  have haccess := hlast.accesses 255 (by decide +kernel)
  omega

end Pending

end Ece391Kernel
