import Ece391Kernel.Devices.Console

/-!
# Three independent screens on one display

Alt-Fx copies whole pages between VGA memory and the backing pages, and `putc` remaps
`page_table_vid[0]` for the terminal in service. `screens_independent` says that none of this can
be seen: whatever is interleaved, every terminal's logical screen is what its own writes make of a
private screen.
-/

namespace Ece391Kernel

open Transition

/-! ## Copying pages -/

namespace Video

theorem copyPage_page (v : Video) {dst src base : Nat} (hdst : dst % fourKb = 0)
    (hbase : base % fourKb = 0) :
    (v.copyPage dst src).page base = if base = dst then v.page src else v.page base := by
  simp only [fourKb] at hdst hbase
  funext r
  simp only [page, copyPage, fourKb]
  by_cases hr : r < 4096
  · by_cases heq : base = dst
    · subst heq
      simp [page, hr]
    · have hout : ¬ (dst ≤ base + r ∧ base + r < dst + 4096) := by omega
      rw [if_neg heq]
      simp [page, hr, hout]
  · by_cases heq : base = dst <;> simp [page, hr, heq]

end Video

namespace Display

variable {d : Display}

/-- What a switch makes of the pages: `cur` moves to its backing page, `new` to VGA memory. -/
theorem switchTerm_page {cur new : Nat} (hne : cur ≠ new) (term : Nat) :
    (d.switchTerm cur new).video.page (screenBase term new) =
      d.video.page (screenBase term cur) := by
  have hbacking : ∀ t, (vimMemIndex + (t + 1) * fourKb) % fourKb = 0 := by
    intro t
    simp only [vimMemIndex, fourKb]
    omega
  have hvga : vimMemIndex % fourKb = 0 := by decide
  have hvga_ne : ∀ t, vimMemIndex + (t + 1) * fourKb ≠ vimMemIndex := by
    intro t
    simp only [vimMemIndex, fourKb]
    omega
  show ((d.video.copyPage _ _).copyPage _ _).page _ = _
  rw [Video.copyPage_page _ hvga (screenBase_aligned term new)]
  unfold screenBase
  by_cases hnew : term = new
  · subst hnew
    rw [if_pos rfl, if_pos rfl, if_neg (Ne.symm hne),
      Video.copyPage_page _ (hbacking cur) (hbacking term), if_neg]
    simp only [vimMemIndex, fourKb]
    omega
  · rw [if_neg hnew, if_neg (hvga_ne term), Video.copyPage_page _ (hbacking cur) (hbacking term)]
    by_cases hcur : term = cur
    · rw [if_pos (by rw [hcur]), if_pos hcur]
    · rw [if_neg hcur, if_neg]
      simp only [vimMemIndex, fourKb]
      omega

/-- Switching the displayed terminal changes no logical screen. -/
theorem switchTerm_view {cur new : Nat} (hne : cur ≠ new) (term : Nat) :
    (d.switchTerm cur new).view new term = d.view cur term :=
  Screen.ext (switchTerm_page hne term) rfl rfl

theorem puts_view {service cur : Nat} (hservice : service < 3) (hd : d.CursorsIn)
    (s : List UInt8) (term : Nat) :
    (d.puts service cur s).view cur term =
      if term = service then s.foldl Screen.putc (d.view cur term) else d.view cur term := by
  induction s generalizing d with
  | nil => simp [puts]
  | cons c s ih =>
      have hrest := ih (putc_cursors_in hservice cur hd c)
      rw [putc_view hservice cur hd] at hrest
      simp only [puts, List.foldl_cons] at hrest ⊢
      rw [hrest]
      split <;> rfl

theorem puts_cursors_in {service cur : Nat} (hservice : service < 3) (hd : d.CursorsIn)
    (s : List UInt8) : (d.puts service cur s).CursorsIn := by
  induction s generalizing d with
  | nil => exact hd
  | cons c s ih => exact ih (putc_cursors_in hservice cur hd c)

end Display

/-! ## Keys that only switch terminals -/

namespace Devices

variable {d : Devices}

/-- The keys of an Alt-Fx switch. -/
def IsSwitchKey (c : UInt8) : Prop := c = altKey ∨ c = f1Key ∨ c = f2Key ∨ c = f3Key

/-- A switch key is no other key that the handler tests for, and it is not printable. -/
theorem switch_key_ne {c : UInt8} (hc : IsSwitchKey c) :
    c ≠ backspaceKey ∧ c ≠ enterKey ∧ ¬ (0x20 ≤ c ∧ c < 0x7F) := by
  obtain rfl | rfl | rfl | rfl := hc <;> decide

/-- A press of one of them does nothing but switch. -/
theorem kbPress_switch_key {c : UInt8} (hc : IsSwitchKey c) (cur : Nat) (stray : Option Int) :
    d.kbPress cur c stray = ({ d with kbd := d.kbd.press c } : Devices).kbSwitch cur c := by
  obtain ⟨hback, henter, hprint⟩ := switch_key_ne hc
  exact kbPress_other hback henter hprint cur stray

/-- The logical screen of a terminal. -/
def screenOf (d : Devices) (term : Nat) : Screen := d.disp.view d.term.curTermNum term

theorem kbSwitch_screenOf (c : UInt8) (term : Nat) :
    (d.kbSwitch d.term.curTermNum c).screenOf term = d.screenOf term := by
  unfold kbSwitch
  split
  · split
    · rfl
    · next hne => exact Display.switchTerm_view hne term
  · rfl

theorem kbSwitch_cursors_in (h : d.disp.CursorsIn) (cur : Nat) (c : UInt8) :
    (d.kbSwitch cur c).disp.CursorsIn := by
  unfold kbSwitch
  split
  · split
    · exact h
    · exact h
  · exact h

theorem kbOverride_screenOf (d : Devices) (term : Nat) :
    d.kbBegin.kbOverride.screenOf term = d.screenOf term := by
  have hdisp : d.kbBegin.kbOverride.disp = d.disp.setVidEntry vgaEntry := kbOverride_disp _
  have hcur : d.kbBegin.kbOverride.term.curTermNum = d.term.curTermNum := kbOverride_curTermNum _
  simp only [screenOf, hdisp, hcur]
  rfl

/-- The handler changes no logical screen on the press of a switch key. -/
theorem keyboardHandler_press_screenOf {scancode : UInt8} (hpress : scancode &&& 0x80 = 0)
    (hc : IsSwitchKey (kbdusChar scancode)) (stray : Option Int) (term : Nat) :
    (d.keyboardHandler scancode stray).screenOf term = d.screenOf term := by
  have hcur : d.kbBegin.kbOverride.term.curTermNum = d.term.curTermNum := kbOverride_curTermNum _
  show (d.kbBegin.kbOverride.kbScancode d.term.curTermNum scancode stray).screenOf term = _
  unfold kbScancode
  rw [if_neg (fun hne => hne hpress), kbPress_switch_key hc, ← kbOverride_screenOf d term, ← hcur]
  exact kbSwitch_screenOf (d := { d.kbBegin.kbOverride with
    kbd := d.kbBegin.kbOverride.kbd.press (kbdusChar scancode) }) _ term

theorem keyboardHandler_press_cursors_in (h : d.disp.CursorsIn) {scancode : UInt8}
    (hpress : scancode &&& 0x80 = 0) (hc : IsSwitchKey (kbdusChar scancode))
    (stray : Option Int) : (d.keyboardHandler scancode stray).disp.CursorsIn := by
  have hbegin : d.kbBegin.kbOverride.disp.CursorsIn := by
    rw [kbOverride_disp]
    exact h
  show (d.kbBegin.kbOverride.kbScancode d.term.curTermNum scancode stray).disp.CursorsIn
  unfold kbScancode
  rw [if_neg (fun hne => hne hpress), kbPress_switch_key hc]
  exact kbSwitch_cursors_in (d := { d.kbBegin.kbOverride with
    kbd := d.kbBegin.kbOverride.kbd.press (kbdusChar scancode) }) hbegin _ _

/-- A key release changes neither the display nor the terminal displayed. -/
theorem keyboardHandler_release {scancode : UInt8} (hrel : scancode &&& 0x80 ≠ 0)
    (stray : Option Int) (term : Nat) :
    (d.keyboardHandler scancode stray).screenOf term = d.screenOf term := by
  show (d.kbBegin.kbOverride.kbScancode d.term.curTermNum scancode stray).screenOf term = _
  unfold kbScancode
  rw [if_pos hrel]
  exact kbOverride_screenOf d term

theorem keyboardHandler_release_cursors_in (h : d.disp.CursorsIn) {scancode : UInt8}
    (hrel : scancode &&& 0x80 ≠ 0) (stray : Option Int) :
    (d.keyboardHandler scancode stray).disp.CursorsIn := by
  show (d.kbBegin.kbOverride.kbScancode d.term.curTermNum scancode stray).disp.CursorsIn
  unfold kbScancode
  rw [if_pos hrel]
  show d.kbBegin.kbOverride.disp.CursorsIn
  rw [kbOverride_disp]
  exact h

end Devices

/-! ## Runs of switches and writes -/

/-- Alt and the function keys going down, any key going up, a change of the terminal in service
(also to launch its shell),
and a `terminal_write` by a process of that terminal. -/
inductive ViewEvent where
  | altDown
  | fxDown (term : Fin 3)
  | keyUp (key : Fin 128)
  | serve (term : Fin 3)
  | launch (term : Fin 3)
  | write (buf : List UInt8)

namespace ViewEvent

/-- The console event; make codes 0x3B to 0x3D are F1 to F3, and bit 7 marks a release. -/
def toConsole : ViewEvent → ConsoleEvent
  | .altDown => .key 0x38 none
  | .fxDown term => .key (UInt8.ofNat (0x3B + term)) none
  | .keyUp key => .key (UInt8.ofNat (0x80 + key)) none
  | .serve term => .serve term
  | .launch term => .launch term
  | .write buf => .write buf

end ViewEvent

/-- One event. -/
def viewStep (d : Devices) (e : ViewEvent) : Devices := consoleStep d e.toConsole

/-- The bytes that an event makes a process of `term` write. -/
def writtenBy (term : Nat) (d : Devices) : ViewEvent → List UInt8
  | .write buf => if term = d.term.termInService then buf else []
  | _ => []

namespace Devices

variable {d : Devices}

/-- What every event of such a run preserves. -/
structure Viewable (d : Devices) : Prop where
  cursors : d.disp.CursorsIn
  terms : d.TermsIn

theorem fxDown_press (term : Fin 3) :
    UInt8.ofNat (0x3B + term) &&& 0x80 = 0 ∧
      IsSwitchKey (kbdusChar (UInt8.ofNat (0x3B + term))) := by
  refine ⟨?_, ?_⟩
  · revert term
    decide
  · right
    match term with
    | 0 => exact .inl rfl
    | 1 => exact .inr (.inl rfl)
    | 2 => exact .inr (.inr rfl)

theorem keyUp_release : ∀ key : Fin 128, UInt8.ofNat (0x80 + key) &&& 0x80 ≠ 0 := by
  decide

theorem viewStep_viewable (h : d.Viewable) (e : ViewEvent) : (viewStep d e).Viewable := by
  refine ⟨?_, consoleStep_terms_in h.terms _⟩
  cases e with
  | altDown =>
      exact keyboardHandler_press_cursors_in h.cursors (by decide) (.inl (by decide)) none
  | fxDown term =>
      exact keyboardHandler_press_cursors_in h.cursors (fxDown_press term).1 (fxDown_press term).2
        none
  | keyUp key => exact keyboardHandler_release_cursors_in h.cursors (keyUp_release key) none
  | serve term => exact h.cursors
  | launch term => exact h.cursors
  | write buf =>
      show (d.puts buf).disp.CursorsIn
      rw [puts_disp]
      exact Display.puts_cursors_in h.terms.service h.cursors buf

/-- An event changes a logical screen only by what it writes for that terminal. -/
theorem viewStep_screenOf (h : d.Viewable) (e : ViewEvent) (term : Nat) :
    (viewStep d e).screenOf term = (writtenBy term d e).foldl Screen.putc (d.screenOf term) := by
  cases e with
  | altDown => exact keyboardHandler_press_screenOf (by decide) (.inl (by decide)) none term
  | fxDown fx =>
      exact keyboardHandler_press_screenOf (fxDown_press fx).1 (fxDown_press fx).2 none term
  | keyUp key => exact keyboardHandler_release (keyUp_release key) none term
  | serve _ => rfl
  | launch _ => rfl
  | write buf =>
      have hdisp : (viewStep d (.write buf)).screenOf term =
          (d.disp.puts d.term.termInService d.term.curTermNum buf).view d.term.curTermNum term := by
        show (d.puts buf).screenOf term = _
        rw [screenOf, puts_disp, puts_term]
      rw [hdisp, Display.puts_view h.terms.service h.cursors, writtenBy]
      split <;> rfl

/-- After any run of switches, service changes and writes, every terminal's logical screen and
cursor are what its own writes alone make of a private screen. -/
theorem screens_independent (es : List ViewEvent) (h : d.Viewable) (term : Fin 3) :
    (es.foldl viewStep d).screenOf term =
      (emitted viewStep (writtenBy term) d es).foldl Screen.putc (d.screenOf term) :=
  foldl_view (I := Viewable) (fun d => d.screenOf term) (fun _ e h => viewStep_viewable h e)
    (fun _ e h => viewStep_screenOf h e term) es h

/-- From boot: terminals 1 and 2 write while terminal 0 and then terminal 1 is displayed. -/
theorem screens_independent_boot :
    ([.serve 1, .write [72], .altDown, .fxDown 1, .serve 2, .write [73, 10], .keyUp 0x38].foldl
      viewStep (boot fun _ => 0)).screenOf (1 : Fin 3) =
      (emitted viewStep (writtenBy (1 : Fin 3)) (boot fun _ => 0)
        [.serve 1, .write [72], .altDown, .fxDown 1, .serve 2, .write [73, 10], .keyUp 0x38]).foldl
        Screen.putc ((boot fun _ => 0).screenOf (1 : Fin 3)) :=
  screens_independent _ ⟨(boot_in_range _).cursors, boot_terms_in _⟩ 1

end Devices

end Ece391Kernel
