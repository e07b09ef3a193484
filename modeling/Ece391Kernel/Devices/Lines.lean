import Ece391Kernel.Devices.Console

/-!
# Lines from the keyboard to `terminal_read`

One buffer and one flag serve three terminals. `terminal_read` runs with interrupts enabled, so
it is taken apart into the steps between which a key or a tick may come. `taken` records every
byte that a call copies out of the buffer, together with the line it belongs to.

`lines_delivered` gives the runs in which every line reaches its own terminal and one call only.
Those that never switch terminals between an Enter and the end of the read are among them
(`delivered_between_switches`).
-/

namespace Ece391Kernel

open Transition

/-- Where the process of a terminal is inside `terminal_read`. `n` is `num_bytes`; from `copy` on
it is clamped to the size of the buffer, and `buf` is what has been copied. -/
inductive ReadPc where
  | idle
  | testSent (n : Int)
  | testTerm (n : Int)
  | copy (n : Int) (buf : List UInt8)
  | reset (n : Int) (buf : List UInt8)

/-- A byte of line number `line`, entered while terminal `entered` was displayed, that call number
`call`, made by the process of terminal `reader`, has copied. -/
structure Taken where
  line : Nat
  entered : Nat
  reader : Nat
  call : Nat
  byte : UInt8

/-- The devices, one reading process for each terminal, and what the log needs: how many lines
have been entered, where the last one was entered, and the number of each terminal's call. -/
structure ReadState where
  dev : Devices
  pc : Nat → ReadPc
  callOf : Nat → Nat
  calls : Nat
  lineNo : Nat
  lineTerm : Nat
  taken : List Taken

/-- A console event; or the process in service takes the next step of `terminal_read`, which
begins a call for `n` bytes when it is not inside one. -/
inductive ReadEvent where
  | console (e : ConsoleEvent)
  | read (n : Int)

/-- The scancode is the make code of Enter. -/
def isEnter (scancode : UInt8) : Prop :=
  scancode &&& 0x80 = 0 ∧ kbdusChar scancode = enterKey

instance (scancode : UInt8) : Decidable (isEnter scancode) :=
  inferInstanceAs (Decidable (_ ∧ _))

/-- The event enters a line. -/
def ConsoleEvent.entersLine : ConsoleEvent → Bool
  | .key scancode _ => isEnter scancode
  | _ => false

namespace ReadState

/-- The process of terminal `t` goes on at `pc`. -/
def goto (s : ReadState) (t : Nat) (pc : ReadPc) : ReadState :=
  { s with pc := Function.update s.pc t pc }

/-- The process of terminal `t` begins a call. -/
def beginCall (s : ReadState) (t : Nat) (n : Int) : ReadState :=
  { s.goto t (.testSent n) with
    callOf := Function.update s.callOf t s.calls
    calls := s.calls + 1 }

/-- The process of terminal `t` copies one byte. -/
def takeByte (s : ReadState) (t : Nat) (n : Int) (buf : List UInt8) : ReadState :=
  let byte := s.dev.term.terminalBuf buf.length
  { s.goto t (.copy n (buf ++ [byte])) with
    taken := ⟨s.lineNo, s.lineTerm, t, s.callOf t, byte⟩ :: s.taken }

/-- `buf_sent = 0`, and return `n` with what was copied. -/
def finishRead (s : ReadState) (t : Nat) : ReadState :=
  { s.goto t .idle with dev := { s.dev with term := { s.dev.term with bufSent := false } } }

/-- The next step of `terminal_read` by the process of the terminal in service. -/
def readStep (s : ReadState) (n : Int) : ReadState :=
  let t := s.dev.term.termInService
  match s.pc t with
  | .idle => s.beginCall t n
  | .testSent n => if s.dev.term.bufSent then s.goto t (.testTerm n) else s
  | .testTerm n =>
      if s.dev.term.curTermNum = t then s.goto t (.copy (if maxBuf < n then maxBuf else n) [])
      else s.goto t (.testSent n)
  | .copy n buf => if buf.length < n then s.takeByte t n buf else s.goto t (.reset n buf)
  | .reset _ _ => s.finishRead t

/-- A console event; the log notes when it enters a line. -/
def consoleEvent (s : ReadState) (e : ConsoleEvent) : ReadState :=
  let s' := { s with dev := consoleStep s.dev e }
  if e.entersLine then { s' with lineNo := s.lineNo + 1, lineTerm := s.dev.term.curTermNum }
  else s'

/-- From boot, with no process reading. -/
def start (mem : Nat → UInt8) : ReadState where
  dev := Devices.boot mem
  pc := fun _ => .idle
  callOf := fun _ => 0
  calls := 0
  lineNo := 0
  lineTerm := 0
  taken := []

/-- Every line reaches a process of the terminal it was entered on, and one call only. -/
structure Delivered (s : ReadState) : Prop where
  terminal : ∀ b ∈ s.taken, b.reader = b.entered
  once : ∀ b ∈ s.taken, ∀ b' ∈ s.taken, b.line = b'.line → b.call = b'.call

end ReadState

/-- One event. -/
def readNext (s : ReadState) : ReadEvent → ReadState
  | .console e => s.consoleEvent e
  | .read n => s.readStep n

/-- The process is past the test of `buf_sent` and `cur_term_num`, with bytes left to copy. -/
def ReadPc.Copying : ReadPc → Prop
  | .copy n buf => buf.length < n
  | _ => False

/-- The test of a `terminal_read` succeeds only for the terminal on which the last line was
entered, and no line is entered while a process of another terminal is copying. -/
def LineGuard (s : ReadState) : ReadEvent → Prop
  | .console e => e.entersLine = true → ∀ t, t ≠ s.dev.term.curTermNum → ¬ (s.pc t).Copying
  | .read _ =>
      match s.pc s.dev.term.termInService with
      | .testTerm _ =>
          s.dev.term.curTermNum = s.dev.term.termInService →
            s.lineTerm = s.dev.term.termInService
      | _ => True

/-! ## Only Enter and `terminal_read` touch the buffer and its flag -/

namespace Devices

variable {d : Devices}

theorem kbSwitch_bufSent (cur : Nat) (c : UInt8) :
    (d.kbSwitch cur c).term.bufSent = d.term.bufSent := by
  unfold kbSwitch
  split
  · split <;> rfl
  · rfl

theorem kbPress_bufSent (cur : Nat) {c : UInt8} (hc : c ≠ enterKey) (stray : Option Int) :
    (d.kbPress cur c stray).term.bufSent = d.term.bufSent := by
  unfold kbPress
  generalize hd : ({ d with kbd := d.kbd.press c } : Devices) = d0
  have hd0 : d0.term.bufSent = d.term.bufSent := hd ▸ rfl
  have hctrl : ((d0.kbSwitch cur c).kbCtrl cur c stray).term.bufSent = d.term.bufSent := by
    rw [kbCtrl_term, kbSwitch_bufSent, hd0]
  simp only [if_neg hc]
  split_ifs <;> exact hctrl

theorem kbOverride_bufSent (d : Devices) : d.kbOverride.term.bufSent = d.term.bufSent := by
  unfold kbOverride
  split <;> rfl

theorem keyboardHandler_bufSent {scancode : UInt8} (hno : ¬ isEnter scancode)
    (stray : Option Int) :
    (d.keyboardHandler scancode stray).term.bufSent = d.term.bufSent := by
  have hbegin : d.kbBegin.kbOverride.term.bufSent = d.term.bufSent := kbOverride_bufSent _
  show (d.kbBegin.kbOverride.kbScancode d.term.curTermNum scancode stray).term.bufSent = _
  unfold kbScancode
  split_ifs with hrel
  · exact hbegin
  · rw [kbPress_bufSent _ fun hc => hno ⟨not_not.1 hrel, hc⟩]
    exact hbegin

theorem consoleStep_bufSent {e : ConsoleEvent} (he : e.entersLine = false) :
    (consoleStep d e).term.bufSent = d.term.bufSent := by
  cases e with
  | key scancode stray => exact keyboardHandler_bufSent (of_decide_eq_false he) stray
  | serve term => rfl
  | launch term => rfl
  | write buf =>
      show (d.puts buf).term.bufSent = _
      rw [puts_term]

/-- A key that requests no terminal leaves the displayed one. -/
theorem kbPress_cur {c : UInt8} (hc : requestedTerm c = none) (cur : Nat) (stray : Option Int) :
    (d.kbPress cur c stray).term.curTermNum = d.term.curTermNum := by
  unfold kbPress
  generalize hd : ({ d with kbd := d.kbd.press c } : Devices) = d0
  have hd0 : d0.term.curTermNum = d.term.curTermNum := hd ▸ rfl
  have hswitch : d0.kbSwitch cur c = d0 := by
    rw [kbSwitch, hc]
    split
    · contradiction
    · rfl
  have hctrl : ((d0.kbSwitch cur c).kbCtrl cur c stray).term.curTermNum = d.term.curTermNum := by
    rw [kbCtrl_term, hswitch, hd0]
  dsimp only
  split_ifs <;> exact hctrl

/-- Enter is such a key. -/
theorem consoleStep_enter_cur {e : ConsoleEvent} (he : e.entersLine = true) :
    (consoleStep d e).term.curTermNum = d.term.curTermNum := by
  cases e with
  | key scancode stray =>
      obtain ⟨hpress, henter⟩ : isEnter scancode := of_decide_eq_true he
      show (d.kbBegin.kbOverride.kbScancode d.term.curTermNum scancode stray).term.curTermNum = _
      rw [kbScancode, if_neg (not_not.2 hpress), henter, kbPress_cur rfl, kbOverride_curTermNum]
      rfl
  | serve term => cases he
  | launch term => cases he
  | write buf => cases he

end Devices

/-! ## The invariant -/

/-- The process has passed the test and not yet reset the flag. -/
def ReadPc.PastTest : ReadPc → Prop
  | .copy _ _ => True
  | .reset _ _ => True
  | _ => False

/-- The process has not seen the flag set. -/
def ReadPc.Waiting : ReadPc → Prop
  | .idle => True
  | .testSent _ => True
  | _ => False

theorem ReadPc.Copying.not_waiting {pc : ReadPc} (h : pc.Copying) : ¬ pc.Waiting := by
  cases pc with
  | copy n buf => exact id
  | _ => exact h.elim

namespace ReadState

/-- What holds in runs that meet `LineGuard`. The current line has been taken by no call, or by
the one that is past its test now, or the call that took it has reset the flag. -/
structure LineInv (s : ReadState) : Prop where
  own : ∀ t, (s.pc t).Copying → s.lineTerm = t
  known : ∀ b ∈ s.taken, b.line ≤ s.lineNo
  current : ∀ b ∈ s.taken, b.line = s.lineNo →
    (s.pc s.lineTerm).PastTest ∧ b.call = s.callOf s.lineTerm ∨
      s.dev.term.bufSent = false ∧ (s.pc s.lineTerm).Waiting
  delivered : s.Delivered

variable {s : ReadState}

theorem start_lineInv (mem : Nat → UInt8) : (start mem).LineInv where
  own := fun _ h => h.elim
  known := fun _ h => absurd h List.not_mem_nil
  current := fun _ h => absurd h List.not_mem_nil
  delivered := ⟨fun _ h => absurd h List.not_mem_nil, fun _ h => absurd h List.not_mem_nil⟩

/-- Moving the process of `t` keeps the invariant when the new point copies only a line of `t`,
and a call that has the current line of `t` is still accounted for. -/
theorem LineInv.goto (h : s.LineInv) {t : Nat} {pc : ReadPc}
    (hown : pc.Copying → s.lineTerm = t)
    (hcur : s.lineTerm = t → ∀ b ∈ s.taken, b.line = s.lineNo →
      pc.PastTest ∧ b.call = s.callOf t ∨ s.dev.term.bufSent = false ∧ pc.Waiting) :
    (s.goto t pc).LineInv where
  own := by
    intro u hu
    by_cases heq : u = t
    · subst heq
      exact hown (by simpa [ReadState.goto] using hu)
    · exact h.own u (by simpa [ReadState.goto, Function.update_of_ne heq] using hu)
  known := h.known
  current := by
    intro b hb hline
    show (Function.update s.pc t pc s.lineTerm).PastTest ∧ b.call = s.callOf s.lineTerm ∨
      s.dev.term.bufSent = false ∧ (Function.update s.pc t pc s.lineTerm).Waiting
    by_cases heq : s.lineTerm = t
    · rw [heq, Function.update_self]
      exact hcur heq b hb hline
    · rw [Function.update_of_ne heq]
      exact h.current b hb hline
  delivered := ⟨h.delivered.terminal, h.delivered.once⟩

theorem beginCall_lineInv (h : s.LineInv) {t : Nat} (hpc : s.pc t = .idle) (n : Int) :
    (s.beginCall t n).LineInv := by
  have hgoto : (s.goto t (.testSent n)).LineInv := by
    refine h.goto (fun hc => hc.elim) fun heq b hb hline => ?_
    obtain ⟨hpast, -⟩ | ⟨hsent, -⟩ := h.current b hb hline
    · rw [heq, hpc] at hpast
      exact hpast.elim
    · exact .inr ⟨hsent, trivial⟩
  refine ⟨hgoto.own, hgoto.known, fun b hb hline => ?_,
    ⟨hgoto.delivered.terminal, hgoto.delivered.once⟩⟩
  obtain ⟨hpast, hcall⟩ | hwait := hgoto.current b hb hline
  · -- the call that is past its test is not the one that begins here
    have hne : s.lineTerm ≠ t := by
      rintro rfl
      simp [ReadState.goto, ReadPc.PastTest] at hpast
    refine .inl ⟨hpast, hcall.trans ?_⟩
    show s.callOf s.lineTerm = Function.update s.callOf t s.calls s.lineTerm
    rw [Function.update_of_ne hne]
  · exact .inr hwait

theorem testSent_lineInv (h : s.LineInv) {t : Nat} {n : Int} (hpc : s.pc t = .testSent n)
    (hsent : s.dev.term.bufSent = true) : (s.goto t (.testTerm n)).LineInv := by
  refine h.goto (fun hc => hc.elim) fun heq b hb hline => ?_
  obtain ⟨hpast, -⟩ | ⟨hno, -⟩ := h.current b hb hline
  · rw [heq, hpc] at hpast
    exact hpast.elim
  · rw [hno] at hsent
    contradiction

/-- A process that is about to compare the terminals has not taken the line it would copy, and
no other call has. -/
theorem not_taken_of_testTerm (h : s.LineInv) {t : Nat} {n : Int} (hpc : s.pc t = .testTerm n)
    (heq : s.lineTerm = t) : ∀ b ∈ s.taken, b.line ≠ s.lineNo := by
  intro b hb hline
  obtain ⟨hpast, -⟩ | ⟨-, hwait⟩ := h.current b hb hline
  · rw [heq, hpc] at hpast
    exact hpast
  · rw [heq, hpc] at hwait
    exact hwait

theorem takeByte_lineInv (h : s.LineInv) {t : Nat} {n : Int} {buf : List UInt8}
    (hpc : s.pc t = .copy n buf) (hlt : buf.length < n) : (s.takeByte t n buf).LineInv := by
  have hterm : s.lineTerm = t := h.own t (by rw [hpc]; exact hlt)
  have hcall : ∀ b ∈ s.taken, b.line = s.lineNo → b.call = s.callOf t := by
    intro b hb hline
    obtain ⟨-, hcall⟩ | ⟨-, hwait⟩ := h.current b hb hline
    · rw [hcall, hterm]
    · rw [hterm, hpc] at hwait
      exact hwait.elim
  -- The new byte belongs to the line and to the call of `t`, like the ones before it.
  refine ⟨fun u hu => ?_, fun b hb => ?_, fun b hb hline => ?_, ?_, ?_⟩
  · by_cases heq : u = t
    · rw [heq]
      exact hterm
    · have hu' : (s.pc u).Copying := by
        simpa [ReadState.takeByte, ReadState.goto, Function.update_of_ne heq] using hu
      exact h.own u hu'
  · rcases List.mem_cons.1 hb with rfl | hb
    · exact Nat.le_refl _
    · exact h.known b hb
  · refine .inl ⟨?_, ?_⟩
    · show (Function.update s.pc t _ s.lineTerm).PastTest
      rw [hterm, Function.update_self]
      trivial
    · show b.call = s.callOf s.lineTerm
      rw [hterm]
      rcases List.mem_cons.1 hb with rfl | hb
      · rfl
      · exact hcall b hb hline
  · intro b hb
    rcases List.mem_cons.1 hb with rfl | hb
    · exact hterm.symm
    · exact h.delivered.terminal b hb
  · intro b hb b' hb' hline
    rcases List.mem_cons.1 hb with rfl | hb <;> rcases List.mem_cons.1 hb' with rfl | hb'
    · rfl
    · exact (hcall b' hb' hline.symm).symm
    · exact hcall b hb hline
    · exact h.delivered.once b hb b' hb' hline

theorem finishRead_lineInv (h : s.LineInv) {t : Nat} {n : Int} {buf : List UInt8}
    (hpc : s.pc t = .reset n buf) : (s.finishRead t).LineInv := by
  refine ⟨fun u hu => ?_, h.known, fun b hb hline => ?_,
    ⟨h.delivered.terminal, h.delivered.once⟩⟩
  · by_cases heq : u = t
    · subst heq
      simp [ReadState.finishRead, ReadState.goto, ReadPc.Copying] at hu
    · have hu' : (s.pc u).Copying := by
        simpa [ReadState.finishRead, ReadState.goto, Function.update_of_ne heq] using hu
      exact h.own u hu'
  · show (Function.update s.pc t .idle s.lineTerm).PastTest ∧ b.call = s.callOf s.lineTerm ∨
      false = false ∧ (Function.update s.pc t .idle s.lineTerm).Waiting
    -- The call of the line's own terminal is over; any other leaves the line where it was.
    by_cases heq : s.lineTerm = t
    · rw [heq, Function.update_self]
      exact .inr ⟨rfl, trivial⟩
    · rw [Function.update_of_ne heq]
      obtain hpast | ⟨-, hwait⟩ := h.current b hb hline
      · exact .inl hpast
      · exact .inr ⟨rfl, hwait⟩

/-- Every step of `terminal_read` that meets the guard keeps the invariant. -/
theorem readStep_lineInv (h : s.LineInv) (n : Int) (hguard : LineGuard s (.read n)) :
    (s.readStep n).LineInv := by
  dsimp only [LineGuard] at hguard
  dsimp only [readStep]
  cases hpc : s.pc s.dev.term.termInService with
  | idle => exact beginCall_lineInv h hpc n
  | testSent m =>
      dsimp only
      split
      · next hsent => exact testSent_lineInv h hpc hsent
      · exact h
  | testTerm m =>
      rw [hpc] at hguard
      dsimp only
      split
      · -- the test succeeds: no call has the line yet
        next hterm =>
        refine h.goto (fun _ => hguard hterm) fun heq b hb hline => ?_
        exact absurd hline (not_taken_of_testTerm h hpc heq b hb)
      · refine h.goto False.elim fun heq b hb hline => ?_
        exact absurd hline (not_taken_of_testTerm h hpc heq b hb)
  | copy m buf =>
      dsimp only
      split
      · next hlt => exact takeByte_lineInv h hpc hlt
      · refine h.goto False.elim fun heq b hb hline => ?_
        obtain ⟨-, hcall⟩ | ⟨-, hwait⟩ := h.current b hb hline
        · rw [heq] at hcall
          exact .inl ⟨trivial, hcall⟩
        · rw [heq, hpc] at hwait
          exact hwait.elim
  | reset m buf => exact finishRead_lineInv h hpc

/-- A console event that meets the guard keeps the invariant: a line entered gets a new number. -/
theorem consoleEvent_lineInv (h : s.LineInv) {e : ConsoleEvent}
    (hguard : LineGuard s (.console e)) : (s.consoleEvent e).LineInv := by
  unfold consoleEvent
  cases he : e.entersLine with
  | true =>
      simp only [if_true]
      refine ⟨fun u hu => ?_, fun b hb => Nat.le_succ_of_le (h.known b hb), fun b hb hline => ?_,
        ⟨h.delivered.terminal, h.delivered.once⟩⟩
      · by_contra hne
        exact hguard he u (fun heq => hne heq.symm) hu
      · have hle := h.known b hb
        simp only at hline
        omega
  | false =>
      have hsent := Devices.consoleStep_bufSent (d := s.dev) he
      simp only [Bool.false_eq_true, if_false]
      refine ⟨h.own, h.known, fun b hb hline => ?_, ⟨h.delivered.terminal, h.delivered.once⟩⟩
      simpa only [hsent] using h.current b hb hline

theorem readNext_lineInv (h : s.LineInv) {e : ReadEvent} (hguard : LineGuard s e) :
    (readNext s e).LineInv := by
  cases e with
  | console e => exact consoleEvent_lineInv h hguard
  | read n => exact readStep_lineInv h n hguard

/-- In every run from boot that meets the guard, every line is copied only by a process of the
terminal it was entered on, and by one call only. -/
theorem lines_delivered (mem : Nat → UInt8) (es : List ReadEvent)
    (h : Meets readNext LineGuard (start mem) es) : (es.foldl readNext (start mem)).Delivered :=
  (h.invariant (fun _ _ h hguard => readNext_lineInv h hguard) (start_lineInv mem)).delivered

/-- `a` and Enter on terminal 0, a call by terminal 0 that copies two bytes, and after its end
Alt-F2 and a call by terminal 1. -/
def readOwnLine : List ReadEvent :=
  [.console (.key 0x1E none), .console (.key 0x1C none), .read 2, .read 2, .read 2, .read 2,
    .read 2, .read 2, .read 2, .console (.key 0x38 none), .console (.key 0x3C none),
    .console (.serve secondTerm), .read 2, .read 2]

theorem lines_delivered_own :
    (readOwnLine.foldl readNext (start fun _ => 0)).Delivered := by
  have hmodifier : (ConsoleEvent.key 0x38 none).entersLine ≠ true := by decide
  have hswitch : (ConsoleEvent.key 0x3C none).entersLine ≠ true := by decide
  have hserve : (ConsoleEvent.serve secondTerm).entersLine ≠ true := by decide
  exact lines_delivered _ readOwnLine ⟨fun _ _ _ h => h, fun _ _ _ h => h, trivial, trivial,
    fun _ => rfl, trivial, trivial, trivial, trivial, fun h => absurd h hmodifier,
    fun h => absurd h hswitch, fun h => absurd h hserve, trivial, trivial, trivial⟩

/-- A line entered on terminal 0; Alt-F2 shows terminal 1, whose process then reads. -/
def readOtherLine : List ReadEvent :=
  [.console (.key 0x1C none), .console (.key 0x38 none), .console (.key 0x3C none),
    .console (.serve secondTerm), .read 1, .read 1, .read 1, .read 1]

/-- The process of terminal 1 gets the line of terminal 0. -/
theorem line_misdelivered :
    ¬ ∀ (mem : Nat → UInt8) (es : List ReadEvent), (es.foldl readNext (start mem)).Delivered := by
  intro h
  have hterm := (h (fun _ => 0) readOtherLine).terminal ⟨1, 0, 1, 0, 0⟩ (List.mem_singleton.2 rfl)
  contradiction

/-! ## Runs that switch between lines only -/

/-- A line is waiting, or a process has seen the flag set and has not returned. -/
def Busy (s : ReadState) : Prop := s.dev.term.bufSent = true ∨ ∃ t, ¬ (s.pc t).Waiting

/-- The displayed terminal is not switched between an Enter and the end of the read that it
lets begin. -/
def SwitchesBetweenLines (s : ReadState) : ReadEvent → Prop
  | .console e =>
      (consoleStep s.dev e).term.curTermNum ≠ s.dev.term.curTermNum → ¬ s.Busy
  | .read _ => True

/-- Until the line has been read, its terminal is displayed. -/
def LineShown (s : ReadState) : Prop := s.Busy → s.dev.term.curTermNum = s.lineTerm

theorem start_lineShown (mem : Nat → UInt8) : (start mem).LineShown := fun _ => rfl

theorem readStep_terms (s : ReadState) (n : Int) :
    (s.readStep n).dev.term.curTermNum = s.dev.term.curTermNum ∧
      (s.readStep n).lineTerm = s.lineTerm := by
  unfold readStep
  dsimp only
  split
  · exact ⟨rfl, rfl⟩
  · split <;> exact ⟨rfl, rfl⟩
  · split <;> exact ⟨rfl, rfl⟩
  · split <;> exact ⟨rfl, rfl⟩
  · exact ⟨rfl, rfl⟩

/-- Only a process that finds the flag set begins to take a line. -/
theorem busy_of_readStep {n : Int} (h : (s.readStep n).Busy) : s.Busy := by
  by_cases hwait : (s.pc s.dev.term.termInService).Waiting
  · unfold readStep at h
    dsimp only at h
    cases hpc : s.pc s.dev.term.termInService with
    | idle =>
        rw [hpc] at h
        refine h.imp id ?_
        rintro ⟨t, ht⟩
        by_cases heq : t = s.dev.term.termInService
        · rw [heq] at ht
          exact absurd (by simp [beginCall, goto, ReadPc.Waiting]) ht
        · refine ⟨t, ?_⟩
          simpa only [beginCall, goto, Function.update_of_ne heq] using ht
    | testSent m =>
        rw [hpc] at h
        dsimp only at h
        by_cases hsent : s.dev.term.bufSent = true
        · exact .inl hsent
        · rwa [if_neg hsent] at h
    | testTerm m => exact absurd hwait (by simp [hpc, ReadPc.Waiting])
    | copy m buf => exact absurd hwait (by simp [hpc, ReadPc.Waiting])
    | reset m buf => exact absurd hwait (by simp [hpc, ReadPc.Waiting])
  · exact .inr ⟨_, hwait⟩

/-- A switch finds nothing to read, and nothing else changes the displayed terminal. -/
theorem readNext_lineShown (h : s.LineShown) {e : ReadEvent} (hswitch : SwitchesBetweenLines s e) :
    (readNext s e).LineShown := by
  cases e with
  | console e =>
      show (s.consoleEvent e).LineShown
      unfold consoleEvent
      cases he : e.entersLine with
      | true =>
          intro _
          exact Devices.consoleStep_enter_cur he
      | false =>
          intro hbusy
          have hbusy' : s.Busy := hbusy.imp (Devices.consoleStep_bufSent he).symm.trans id
          have hsame : (consoleStep s.dev e).term.curTermNum = s.dev.term.curTermNum := by
            by_contra hne
            exact hswitch hne hbusy'
          exact hsame.trans (h hbusy')
  | read n =>
      intro hbusy
      obtain ⟨hcur, hline⟩ := s.readStep_terms n
      exact hcur.trans ((h (busy_of_readStep hbusy)).trans hline.symm)

/-- While the terminal of the line is displayed, every step meets the guard. -/
theorem LineInv.guard (h : s.LineInv) (hshown : s.LineShown) (e : ReadEvent) : LineGuard s e := by
  cases e with
  | console e =>
      intro _ t hne hcopy
      have hcur := hshown (.inr ⟨t, ReadPc.Copying.not_waiting hcopy⟩)
      exact hne (hcur.trans (h.own t hcopy)).symm
  | read n =>
      unfold LineGuard
      cases hpc : s.pc s.dev.term.termInService with
      | testTerm m =>
          intro hterm
          have hpast : ¬ (s.pc s.dev.term.termInService).Waiting := by
            rw [hpc]
            exact id
          exact (hshown (.inr ⟨_, hpast⟩)).symm.trans hterm
      | _ => trivial

/-- In every run from boot that never switches terminals between an Enter and the end of the read,
every line is copied only by a process of its own terminal, and by one call only. -/
theorem delivered_between_switches (mem : Nat → UInt8) (es : List ReadEvent)
    (h : Meets readNext SwitchesBetweenLines (start mem) es) :
    (es.foldl readNext (start mem)).Delivered := by
  have hrun : (es.foldl readNext (start mem)).LineInv ∧ (es.foldl readNext (start mem)).LineShown :=
    h.invariant (I := fun s => s.LineInv ∧ s.LineShown)
      (fun s e hs hswitch => ⟨readNext_lineInv hs.1 (hs.1.guard hs.2 e),
        readNext_lineShown hs.2 hswitch⟩)
      ⟨start_lineInv mem, start_lineShown mem⟩
  exact hrun.1.delivered

end ReadState

end Ece391Kernel
