import Ece391Kernel.Devices.Screens

/-!
# `putc` interrupted between its steps

`putc` runs with interrupts enabled, and `screen_x` and `screen_y` are not saved by `pit_handler`.
Here the steps of `putc` are taken one at a time, by the process of the terminal in service, with
ticks between them. `Private` is the same sequence of steps on a screen of the terminal's own;
`Matches` relates the two, and it is kept by every step that finds the coordinates it needs as the
terminal's previous step left them (`CoordsKept`).
-/

namespace Ece391Kernel

open Transition

/-- Where a process is inside `putc`. `flag` says that its terminal was found displayed. -/
inductive PutcPc where
  | idle
  | write (flag : Bool) (c : UInt8)
  | scroll (flag : Bool) (c : UInt8)
  | finish (flag : Bool)

/-- One writing process for each terminal. `left` records the coordinates `screen_x`, `screen_y`
that each terminal's last step left; no step reads it. -/
structure PutcState where
  disp : Display
  service : Fin 3
  pc : Fin 3 → PutcPc
  left : Fin 3 → Int × Int

/-- A tick puts a terminal in service; or the process in service takes its next step, with `c`
the byte to write when this begins a new `putc`. -/
inductive PutcEvent where
  | tick (term : Fin 3)
  | advance (c : UInt8)

/-- The next step of `putc`. -/
def Display.advance (d : Display) (service cur : Nat) (c : UInt8) : PutcPc → PutcPc × Display
  | .idle => (.write (d.cursorCheck service cur).1 c, (d.cursorCheck service cur).2)
  | .write flag c =>
      (if (d.putcWrite c).1 then .scroll flag c else .finish flag, (d.putcWrite c).2)
  | .scroll flag c => (.finish flag, d.putcScroll c)
  | .finish flag => (.idle, d.putcFinish service flag)

/-- One event, with `cur` displayed. -/
def putcNext (cur : Nat) (s : PutcState) : PutcEvent → PutcState
  | .tick term => { s with disp := s.disp.setVidEntry (vidEntry term cur), service := term }
  | .advance c =>
      let r := s.disp.advance s.service cur c (s.pc s.service)
      { s with
        disp := r.2
        pc := Function.update s.pc s.service r.1
        left := Function.update s.left s.service (r.2.screenX, r.2.screenY) }

/-- No process is inside `putc`, and the screen of the terminal in service is mapped. -/
def PutcState.start (d : Display) (service : Fin 3) (cur : Nat) : PutcState where
  disp := d.setVidEntry (vidEntry service cur)
  service := service
  pc := fun _ => .idle
  left := fun _ => (0, 0)

/-- The coordinates are `l`, as far as the next step uses them: a newline does not read the
column, and `scroll` resets it. -/
def PutcPc.Finds (d : Display) (l : Int × Int) : PutcPc → Prop
  | .idle => True
  | .write _ c => d.screenY = l.2 ∧ (isNewline c = false → d.screenX = l.1)
  | .scroll _ c => isNewline c = true → d.screenY = l.2
  | .finish _ => d.screenX = l.1 ∧ d.screenY = l.2

/-- A step inside `putc` finds the coordinates it needs as its terminal's previous step left
them. -/
def CoordsKept (s : PutcState) : PutcEvent → Prop
  | .tick _ => True
  | .advance _ => (s.pc s.service).Finds s.disp (s.left s.service)

/-! ## The steps on a private screen -/

/-- A private screen with a process inside `putc`; `target` is where the cursor will be. -/
structure Private where
  pc : PutcPc
  screen : Screen
  target : Nat × Nat

/-- One step on the private screen. -/
def Private.advance (p : Private) (flag : Bool) (c : UInt8) : Private :=
  match p.pc with
  | .idle => { p with pc := .write flag c }
  | .write flag c =>
      let page := writePage p.screen.x p.screen.y c p.screen.page
      if nextY p.screen.x p.screen.y c = 25 then
        ⟨.scroll flag c, { p.screen with page }, (0, 24)⟩
      else
        ⟨.finish flag, { p.screen with page },
          (nextX p.screen.x c, nextY p.screen.x p.screen.y c)⟩
  | .scroll flag _ => { p with pc := .finish flag, screen.page := scrollPage p.screen.page }
  | .finish _ => { p with pc := .idle, screen.x := p.target.1, screen.y := p.target.2 }

/-- What the private screen knows about the coordinates that the terminal's last step left. -/
def Private.Knows (p : Private) (l : Int × Int) : Prop :=
  match p.pc with
  | .idle => True
  | .write _ _ => l = ((p.screen.x : Int), (p.screen.y : Int))
  | .scroll _ c => (isNewline c = true → l.2 = 24) ∧ p.target = (0, 24)
  | .finish _ => l = ((p.target.1 : Int), (p.target.2 : Int)) ∧ p.target.1 ≤ 79 ∧ p.target.2 ≤ 24

/-- The component of a terminal in the shared state is this private screen. -/
structure Matches (cur : Nat) (s : PutcState) (t : Fin 3) (p : Private) : Prop where
  pc : s.pc t = p.pc
  screen : s.disp.view cur t = p.screen
  inBounds : p.screen.InBounds
  knows : p.Knows (s.left t)

/-- The screen of the terminal in service is mapped. -/
def Mapped (cur : Nat) (s : PutcState) : Prop :=
  s.disp.video.pageTableVid0 = vidEntry s.service cur

namespace Display

variable {d : Display} {cur : Nat}

/-- What a step of `putc` for `service` leaves alone. -/
structure Frame (cur : Nat) (service : Nat) (d d' : Display) : Prop where
  entry : d'.video.pageTableVid0 = d.video.pageTableVid0
  view : ∀ t, t ≠ service → d'.view cur t = d.view cur t

theorem frame_of_acts {service : Nat} {d' : Display} {f : Page → Page} (hservice : service < 3)
    (hentry : d.video.pageTableVid0 = vidEntry service cur) (hacts : d.video.Acts d'.video f)
    (hx : d'.termCursorX = d.termCursorX) (hy : d'.termCursorY = d.termCursorY) :
    d.Frame cur service d' := by
  refine ⟨hacts.entry, fun t ht => Screen.ext ?_ (by simp [view, hx]) (by simp [view, hy])⟩
  have hpage := hacts.page _ (screenBase_aligned t cur)
  rwa [hentry, frameOf_vidEntry hservice,
    if_neg fun heq => ht (screenBase_injective heq)] at hpage

theorem page_of_acts {service : Nat} {d' : Display} {f : Page → Page} (hservice : service < 3)
    (hentry : d.video.pageTableVid0 = vidEntry service cur) (hacts : d.video.Acts d'.video f)
    (hx : d'.termCursorX = d.termCursorX) (hy : d'.termCursorY = d.termCursorY) :
    d'.view cur service = { d.view cur service with page := f (d.view cur service).page } := by
  refine Screen.ext ?_ (by simp [view, hx]) (by simp [view, hy])
  have hpage := hacts.page _ (screenBase_aligned service cur)
  rwa [hentry, frameOf_vidEntry hservice, if_pos rfl] at hpage

end Display

/-- A step of `putc` for `service` on the shared display is the step from `p` to `p'`. -/
structure StepMatches (d : Display) (service cur : Nat) (r : PutcPc × Display) (p' : Private) :
    Prop where
  pc : r.1 = p'.pc
  screen : r.2.view cur service = p'.screen
  inBounds : p'.screen.InBounds
  knows : p'.Knows (r.2.screenX, r.2.screenY)
  frame : d.Frame cur service r.2

section Steps

variable {d : Display} {service cur : Nat} {p : Private} {l : Int × Int} {flag : Bool} {c : UInt8}

theorem advance_idle (hpc : p.pc = .idle) (hentry : d.video.pageTableVid0 = vidEntry service cur)
    (hscreen : d.view cur service = p.screen) (hin : p.screen.InBounds) (c : UInt8) :
    StepMatches d service cur (d.advance service cur c .idle)
      (p.advance (decide (service = cur)) c) := by
  have hx : d.termCursorX service = p.screen.x := congrArg Screen.x hscreen
  have hy : d.termCursorY service = p.screen.y := congrArg Screen.y hscreen
  have hbx := hin.x
  have hby := hin.y
  simp only [Private.advance, hpc]
  refine ⟨rfl, hscreen, hin, ?_, ⟨hentry.symm, fun _ _ => rfl⟩⟩
  show ((d.cursorCheck service cur).2.screenX, (d.cursorCheck service cur).2.screenY) = _
  rw [Display.cursorCheck_screenX (by omega), Display.cursorCheck_screenY (by omega), hx, hy]

theorem advance_write (hservice : service < 3) (hpc : p.pc = .write flag c)
    (hentry : d.video.pageTableVid0 = vidEntry service cur)
    (hscreen : d.view cur service = p.screen) (hin : p.screen.InBounds) (hknows : p.Knows l)
    (hfinds : p.pc.Finds d l) (c' : UInt8) :
    StepMatches d service cur (d.advance service cur c' (.write flag c))
      (p.advance (decide (service = cur)) c') := by
  simp only [Private.Knows, hpc] at hknows
  simp only [PutcPc.Finds, hpc, hknows] at hfinds
  have h := Display.putcWrite_spec hin.x hin.y hfinds.2 hfinds.1
  have hview := Display.page_of_acts hservice hentry h.acts h.termCursorX h.termCursorY
  rw [hscreen] at hview
  have hframe := Display.frame_of_acts hservice hentry h.acts h.termCursorX h.termCursorY
  simp only [Private.advance, hpc, Display.advance]
  by_cases hfull : nextY p.screen.x p.screen.y c = 25
  · have hf := h.full_iff.2 hfull
    rw [if_pos hf, if_pos hfull]
    refine ⟨rfl, hview, ⟨hin.x, hin.y⟩, ⟨fun hc => ?_, rfl⟩, hframe⟩
    have hy := h.scrollY hf
    rwa [Display.putcScroll, if_pos hc] at hy
  · have hf : (d.putcWrite c).1 = false :=
      Bool.eq_false_iff.2 fun hf => hfull (h.full_iff.1 hf)
    have hle := nextY_le hin.y p.screen.x c
    rw [if_neg (by simp [hf]), if_neg hfull]
    refine ⟨rfl, hview, ⟨hin.x, hin.y⟩, ⟨?_, nextX_le _ _, by simp only; omega⟩, hframe⟩
    rw [h.screenX hf, h.screenY hf]

theorem advance_scroll (hservice : service < 3) (hpc : p.pc = .scroll flag c)
    (hentry : d.video.pageTableVid0 = vidEntry service cur)
    (hscreen : d.view cur service = p.screen) (hin : p.screen.InBounds) (hknows : p.Knows l)
    (hfinds : p.pc.Finds d l) (c' : UInt8) :
    StepMatches d service cur (d.advance service cur c' (.scroll flag c))
      (p.advance (decide (service = cur)) c') := by
  simp only [Private.Knows, hpc] at hknows
  obtain ⟨hrow, htarget⟩ := hknows
  simp only [PutcPc.Finds, hpc] at hfinds
  have hacts : d.video.Acts (d.putcScroll c).video scrollPage := by
    rw [Display.putcScroll_video]
    exact Video.scroll_acts d.video
  have hx := Display.putcScroll_termCursorX d c
  have hy := Display.putcScroll_termCursorY d c
  have hview := Display.page_of_acts hservice hentry hacts hx hy
  rw [hscreen] at hview
  simp only [Private.advance, hpc, Display.advance]
  refine ⟨rfl, hview, ⟨hin.x, hin.y⟩, ?_, Display.frame_of_acts hservice hentry hacts hx hy⟩
  simp only [Private.Knows, htarget, Display.putcScroll_screenX]
  refine ⟨?_, by decide, by decide⟩
  by_cases hc : isNewline c = true
  · rw [Display.putcScroll, if_pos hc]
    exact Prod.ext rfl ((hfinds hc).trans (hrow hc))
  · rw [Display.putcScroll, if_neg hc]
    rfl

theorem advance_finish (hpc : p.pc = .finish flag)
    (hscreen : d.view cur service = p.screen) (hknows : p.Knows l)
    (hfinds : p.pc.Finds d l) (c' : UInt8) :
    StepMatches d service cur (d.advance service cur c' (.finish flag))
      (p.advance (decide (service = cur)) c') := by
  simp only [Private.Knows, hpc] at hknows
  obtain ⟨hl, hx, hy⟩ := hknows
  simp only [PutcPc.Finds, hpc, hl] at hfinds
  have hpage : d.video.page (screenBase service cur) = p.screen.page := congrArg Screen.page hscreen
  simp only [Private.advance, hpc, Display.advance]
  refine ⟨rfl, Screen.ext ?_ ?_ ?_, ⟨hx, hy⟩, trivial, ?_, ?_⟩
  · simpa [Display.view] using hpage
  · simp only [Display.view, Display.putcFinish_termCursorX, Function.update_self, hfinds.1]
    exact u32_natCast (by omega)
  · simp only [Display.view, Display.putcFinish_termCursorY, Function.update_self, hfinds.2]
    exact u32_natCast (by omega)
  · rw [Display.putcFinish_video]
  · intro t ht
    simp [Display.view, Function.update_of_ne ht]

/-- One step of the process in service is one step of its private screen, and it leaves the other
terminals alone. -/
theorem advance_matches (hservice : service < 3)
    (hentry : d.video.pageTableVid0 = vidEntry service cur)
    (hscreen : d.view cur service = p.screen) (hin : p.screen.InBounds) (hknows : p.Knows l)
    (hfinds : p.pc.Finds d l) (c : UInt8) :
    StepMatches d service cur (d.advance service cur c p.pc)
      (p.advance (decide (service = cur)) c) := by
  cases hpc : p.pc with
  | idle => exact advance_idle hpc hentry hscreen hin c
  | write flag c' => exact advance_write hservice hpc hentry hscreen hin hknows hfinds c
  | scroll flag c' => exact advance_scroll hservice hpc hentry hscreen hin hknows hfinds c
  | finish flag => exact advance_finish hpc hscreen hknows hfinds c

end Steps

/-! ## Whole runs -/

/-- The bytes that a step of the process of `t` is given; one for each step it takes. -/
def ownSteps (t : Fin 3) (s : PutcState) : PutcEvent → List UInt8
  | .tick _ => []
  | .advance c => if s.service = t then [c] else []

/-- The byte that the process of `t` begins to write. -/
def begun (t : Fin 3) (s : PutcState) : PutcEvent → List UInt8
  | .tick _ => []
  | .advance c =>
      if s.service = t then match s.pc t with
        | .idle => [c]
        | _ => []
      else []

/-- The steps of `t` executed alone, from the same state. -/
def aloneRun (cur : Nat) (t : Fin 3) (s : PutcState) (steps : List UInt8) : PutcState :=
  (steps.map PutcEvent.advance).foldl (putcNext cur) (putcNext cur s (.tick t))

section Runs

variable {cur : Nat} {s : PutcState}

theorem putcNext_mapped {p : Fin 3 → Private} (hmap : Mapped cur s)
    (hm : ∀ t, Matches cur s t (p t)) {e : PutcEvent} (hkept : CoordsKept s e) :
    Mapped cur (putcNext cur s e) ∧ ∀ t, Matches cur (putcNext cur s e) t
      ((ownSteps t s e).foldl (fun p c => p.advance (decide ((t : Nat) = cur)) c) (p t)) := by
  cases e with
  | tick term => exact ⟨rfl, fun t => ⟨(hm t).pc, (hm t).screen, (hm t).inBounds, (hm t).knows⟩⟩
  | advance c =>
      have hs := hm s.service
      have hstep := advance_matches s.service.isLt hmap hs.screen hs.inBounds hs.knows
        (hs.pc ▸ hkept) c
      rw [← hs.pc] at hstep
      refine ⟨hstep.frame.entry.trans hmap, fun t => ?_⟩
      by_cases ht : s.service = t
      · subst ht
        rw [ownSteps, if_pos rfl]
        refine ⟨?_, hstep.screen, hstep.inBounds, ?_⟩
        · simpa [putcNext] using hstep.pc
        · simpa [putcNext] using hstep.knows
      · have hne : t ≠ s.service := fun h => ht h.symm
        rw [ownSteps, if_neg ht]
        refine ⟨?_, ?_, (hm t).inBounds, ?_⟩
        · simpa [putcNext, Function.update_of_ne hne] using (hm t).pc
        · have hview := hstep.frame.view t fun h => hne (Fin.ext h)
          exact hview.trans (hm t).screen
        · simpa [putcNext, Function.update_of_ne hne] using (hm t).knows

/-- After a run whose steps keep the coordinates, every terminal's component is its private
screen after that terminal's own steps. -/
theorem run_matches {p : Fin 3 → Private} (es : List PutcEvent) (hmap : Mapped cur s)
    (hm : ∀ t, Matches cur s t (p t)) (hkept : Meets (putcNext cur) CoordsKept s es) (t : Fin 3) :
    Matches cur (es.foldl (putcNext cur) s) t
      ((emitted (putcNext cur) (ownSteps t) s es).foldl
        (fun p c => p.advance (decide ((t : Nat) = cur)) c) (p t)) := by
  induction es generalizing s p with
  | nil => exact hm t
  | cons e es ih =>
      obtain ⟨hmap', hm'⟩ := putcNext_mapped hmap hm hkept.1
      rw [emitted, List.foldl_append]
      exact ih hmap' hm' hkept.2

/-- A process that is not interrupted finds the coordinates it left. -/
theorem advance_finds (s : PutcState) (c : UInt8) :
    CoordsKept (putcNext cur s (.advance c)) (.advance c) := by
  simp only [CoordsKept, putcNext, Function.update_self]
  generalize (s.disp.advance s.service cur c (s.pc s.service)).1 = pc
  cases pc with
  | idle => trivial
  | write => exact ⟨rfl, fun _ => rfl⟩
  | scroll => exact fun _ => rfl
  | finish => exact ⟨rfl, rfl⟩

theorem alone_meets (steps : List UInt8)
    (hfinds : (s.pc s.service).Finds s.disp (s.left s.service)) :
    Meets (putcNext cur) CoordsKept s (steps.map PutcEvent.advance) := by
  induction steps generalizing s with
  | nil => trivial
  | cons c steps ih => exact ⟨hfinds, ih (advance_finds s c)⟩

theorem alone_ownSteps (steps : List UInt8) :
    emitted (putcNext cur) (ownSteps s.service) s (steps.map PutcEvent.advance) = steps := by
  induction steps generalizing s with
  | nil => rfl
  | cons c steps ih =>
      have hrest := ih (s := putcNext cur s (.advance c))
      simp only [List.map_cons, emitted, ownSteps, if_true, List.singleton_append]
      exact congrArg (c :: ·) hrest

/-- The private screen after the bytes `bs`, the last of which may still be in progress. -/
def Private.Wrote (s₀ : Screen) (bs : List UInt8) (p : Private) : Prop :=
  match p.pc with
  | .idle => p.screen = bs.foldl Screen.putc s₀
  | .write _ c => ∃ bs', bs = bs' ++ [c] ∧ p.screen = bs'.foldl Screen.putc s₀
  | .scroll _ c => ∃ bs' s, bs = bs' ++ [c] ∧ s = bs'.foldl Screen.putc s₀ ∧
      nextY s.x s.y c = 25 ∧ p.target = (0, 24) ∧
      p.screen = { s with page := writePage s.x s.y c s.page }
  | .finish _ => { p.screen with x := p.target.1, y := p.target.2 } = bs.foldl Screen.putc s₀

/-- The byte that a step of the private process begins to write. -/
def Private.begins (p : Private) (c : UInt8) : List UInt8 :=
  match p.pc with
  | .idle => [c]
  | _ => []

theorem wrote_advance {s₀ : Screen} {bs : List UInt8} {p : Private} (h : p.Wrote s₀ bs)
    (flag : Bool) (c : UInt8) : (p.advance flag c).Wrote s₀ (bs ++ p.begins c) := by
  obtain ⟨pc, screen, target⟩ := p
  cases pc with
  | idle => exact ⟨bs, rfl, h⟩
  | write flag' c' =>
      obtain ⟨bs', rfl, hscreen⟩ := h
      simp only [Private.begins, List.append_nil, Private.advance]
      simp only at hscreen
      split
      · next hfull => exact ⟨bs', screen, rfl, hscreen, hfull, rfl, rfl⟩
      · next hfull =>
        show Screen.mk _ _ _ = _
        rw [List.foldl_append, ← hscreen]
        exact (Screen.putc_of_ne hfull).symm
  | scroll flag' c' =>
      obtain ⟨bs', s, rfl, hs, hfull, htarget, hscreen⟩ := h
      simp only at hscreen htarget
      show Screen.mk _ _ _ = _
      rw [Private.begins, List.append_nil, List.foldl_append, ← hs, htarget, hscreen]
      exact (Screen.putc_of_eq hfull).symm
  | finish flag' =>
      simp only [Private.begins, List.append_nil]
      exact h

/-- In a run whose steps keep the coordinates, the private screen of `t` has written the bytes
that the process of `t` began to write. -/
theorem run_wrote {p : Fin 3 → Private} {s₀ : Screen} {bs : List UInt8} (es : List PutcEvent)
    (hmap : Mapped cur s) (hm : ∀ t, Matches cur s t (p t))
    (hkept : Meets (putcNext cur) CoordsKept s es) (t : Fin 3) (hw : (p t).Wrote s₀ bs) :
    ((emitted (putcNext cur) (ownSteps t) s es).foldl
      (fun p c => p.advance (decide ((t : Nat) = cur)) c) (p t)).Wrote s₀
        (bs ++ emitted (putcNext cur) (begun t) s es) := by
  induction es generalizing s p bs with
  | nil => simpa [emitted] using hw
  | cons e es ih =>
      obtain ⟨hmap', hm'⟩ := putcNext_mapped hmap hm hkept.1
      have hstep : ((ownSteps t s e).foldl
          (fun p c => p.advance (decide ((t : Nat) = cur)) c) (p t)).Wrote s₀
            (bs ++ begun t s e) := by
        cases e with
        | tick term => simpa [ownSteps, begun] using hw
        | advance c =>
            by_cases ht : s.service = t
            · have hbegun : begun t s (.advance c) = (p t).begins c := by
                rw [begun, if_pos ht, (hm t).pc]
                rfl
              rw [hbegun, ownSteps, if_pos ht]
              exact wrote_advance hw _ c
            · rw [ownSteps, begun, if_neg ht, if_neg ht, List.append_nil]
              exact hw
      rw [emitted, emitted, List.foldl_append, ← List.append_assoc]
      exact ih hmap' hm' hkept.2 hstep

end Runs

/-- The private screens of a state in which no process is inside `putc`. -/
def startPrivate (cur : Nat) (d : Display) (t : Fin 3) : Private :=
  ⟨.idle, d.view cur t, (0, 0)⟩

theorem start_matches {d : Display} (hd : d.CursorsIn) (service : Fin 3) (cur : Nat) (t : Fin 3) :
    Matches cur (PutcState.start d service cur) t (startPrivate cur d t) :=
  ⟨rfl, rfl, ⟨(hd t t.isLt).1, (hd t t.isLt).2⟩, trivial⟩

theorem start_mapped (d : Display) (service : Fin 3) (cur : Nat) :
    Mapped cur (PutcState.start d service cur) := rfl

/-- In every run whose steps keep the coordinates, every terminal's screen and cursor are those of
its own steps executed alone, and outside `putc` they are what its bytes make of its screen. -/
theorem interleaved_alone {d : Display} (hd : d.CursorsIn) (service : Fin 3) (cur : Nat)
    (es : List PutcEvent)
    (hkept : Meets (putcNext cur) CoordsKept (PutcState.start d service cur) es) (t : Fin 3) :
    let s := PutcState.start d service cur
    let s' := es.foldl (putcNext cur) s
    s'.disp.view cur t =
      (aloneRun cur t s (emitted (putcNext cur) (ownSteps t) s es)).disp.view cur t ∧
    (s'.pc t = .idle →
      s'.disp.view cur t =
        (emitted (putcNext cur) (begun t) s es).foldl Screen.putc (d.view cur t)) := by
  intro s s'
  have hshared := run_matches es (start_mapped d service cur) (start_matches hd service cur) hkept t
  have hwrote := run_wrote es (start_mapped d service cur) (start_matches hd service cur) hkept t
    (show (startPrivate cur d t).Wrote (d.view cur t) [] from rfl)
  generalize hp : (emitted (putcNext cur) (ownSteps t) s es).foldl
    (fun p c => p.advance (decide ((t : Nat) = cur)) c) (startPrivate cur d t) = p at hshared hwrote
  refine ⟨?_, fun hidle => ?_⟩
  · have halone := run_matches ((emitted (putcNext cur) (ownSteps t) s es).map PutcEvent.advance)
      (s := PutcState.start d t cur) (start_mapped d t cur) (start_matches hd t cur)
      (alone_meets _ trivial) t
    rw [show emitted (putcNext cur) (ownSteps t) (PutcState.start d t cur) _ = _ from
      alone_ownSteps (s := PutcState.start d t cur) _, hp] at halone
    exact hshared.screen.trans halone.screen.symm
  · have hpc : p.pc = .idle := hshared.pc.symm.trans hidle
    simp only [Private.Wrote, hpc] at hwrote
    exact hshared.screen.trans hwrote

/-- Terminal 0 is inside `putc` when terminal 1 writes a whole byte. -/
def leakingRun : List PutcEvent :=
  [.advance 97, .tick secondTerm, .advance 98, .advance 98, .advance 98, .tick firstTerm,
    .advance 97, .advance 97]

/-- Terminal 0 then writes at the coordinates of terminal 1. -/
theorem interleaving_leaks :
    ¬ ∀ (d : Display) (service : Fin 3) (cur : Nat) (es : List PutcEvent) (t : Fin 3),
      d.CursorsIn →
      (es.foldl (putcNext cur) (PutcState.start d service cur)).disp.view cur t =
        (aloneRun cur t (PutcState.start d service cur)
          (emitted (putcNext cur) (ownSteps t) (PutcState.start d service cur) es)).disp.view
            cur t := by
  intro h
  have hview := h (Devices.boot fun _ => 0).disp 0 0 leakingRun 0 (Devices.boot_in_range _).cursors
  exact absurd (congrArg Screen.x hview) (by decide)

/-- Terminals 0 and 1 write in turn, each finishing its byte before the tick. -/
def inTurnRun : List PutcEvent :=
  [.advance 97, .advance 97, .advance 97, .tick secondTerm, .advance 98, .advance 98,
    .advance 98]

theorem interleaved_alone_in_turn :
    let s := PutcState.start (Devices.boot fun _ => 0).disp 0 0
    let s' := inTurnRun.foldl (putcNext 0) s
    s'.disp.view 0 (0 : Fin 3) =
      (aloneRun 0 0 s (emitted (putcNext 0) (ownSteps 0) s inTurnRun)).disp.view 0 (0 : Fin 3) ∧
    (s'.pc 0 = .idle →
      s'.disp.view 0 (0 : Fin 3) =
        (emitted (putcNext 0) (begun 0) s inTurnRun).foldl Screen.putc
          ((Devices.boot fun _ => 0).disp.view 0 (0 : Fin 3))) := by
  have hkept : Meets (putcNext 0) CoordsKept
      (PutcState.start (Devices.boot fun _ => 0).disp 0 0) inTurnRun :=
    ⟨trivial, ⟨by decide, fun _ => by decide⟩, ⟨by decide, by decide⟩, trivial, trivial,
      ⟨by decide, fun _ => by decide⟩, ⟨by decide, by decide⟩, trivial⟩
  exact interleaved_alone (Devices.boot_in_range _).cursors 0 0 _ hkept 0

end Ece391Kernel
