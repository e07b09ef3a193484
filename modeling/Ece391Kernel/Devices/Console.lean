import Ece391Kernel.Devices.Presses

/-!
# The console as a state machine, and the cursor staying on the screen

The events are keys, changes of the terminal in service as `pit_handler` makes them (also while
it launches the shells), and `terminal_write`. Erasing is the only operation that can move the
cursor off the screen: `cursor_safe_iff` gives the exact condition under which the coordinates
and all stores to video memory stay in range.
-/

namespace Ece391Kernel

open Transition

namespace Devices

/-- `pit_handler` puts a terminal in service and maps its screen. -/
def serve (d : Devices) (term : Nat) : Devices :=
  { d with
    disp := d.disp.setVidEntry (vidEntry term d.term.curTermNum)
    term := { d.term with termInService := term } }

/-- `pit_handler` prepares the screen of a terminal whose shell it is about to launch. -/
def serveNew (d : Devices) (term : Nat) : Devices :=
  { d with
    disp := (d.disp.setVidEntry (backingEntry term)).setScreenCoords 0 0
    term := { d.term with termInService := term } }

end Devices

/-- What can happen to the console. -/
inductive ConsoleEvent where
  | key (scancode : UInt8) (stray : Option Int)
  | serve (term : Fin 3)
  | launch (term : Fin 3)
  | write (buf : List UInt8)

/-- One event. `write` is a `terminal_write` of the terminal in service. -/
def consoleStep (d : Devices) : ConsoleEvent → Devices
  | .key scancode stray => d.keyboardHandler scancode stray
  | .serve term => d.serve term
  | .launch term => d.serveNew term
  | .write buf => d.terminalWrite buf

/-! ## Coordinates and stores in range -/

/-- The coordinates and all cursors lie on the screen, and so did every store. -/
structure Display.InRange (d : Display) : Prop where
  xLo : 0 ≤ d.screenX
  xHi : d.screenX ≤ 79
  yLo : 0 ≤ d.screenY
  yHi : d.screenY ≤ 24
  cursors : d.CursorsIn
  stores : d.video.StoresIn

namespace Display

variable {d : Display}

theorem InRange.setVidEntry (h : d.InRange) (entry : Nat) : (d.setVidEntry entry).InRange :=
  ⟨h.xLo, h.xHi, h.yLo, h.yHi, h.cursors, h.stores⟩

theorem InRange.setScreenCoords (h : d.InRange) {x y : Int} (hx : 0 ≤ x) (hx' : x ≤ 79)
    (hy : 0 ≤ y) (hy' : y ≤ 24) : (d.setScreenCoords x y).InRange :=
  ⟨hx, hx', hy, hy', h.cursors, h.stores⟩

theorem InRange.withVideo (h : d.InRange) {video : Video} (hstores : video.StoresIn) :
    ({ d with video } : Display).InRange :=
  ⟨h.xLo, h.xHi, h.yLo, h.yHi, h.cursors, hstores⟩

theorem InRange.scroll (h : d.InRange) : d.scroll.InRange :=
  h.withVideo (Video.stores_in_scroll h.stores)

theorem InRange.clear (h : d.InRange) : d.clear.InRange :=
  h.withVideo (Video.stores_in_clear h.stores)

theorem InRange.clearChar (h : d.InRange) : d.clearChar.InRange :=
  ⟨h.xLo, h.xHi, h.yLo, h.yHi, h.cursors,
    Video.stores_in_putCell h.stores h.xLo h.xHi h.yLo h.yHi _⟩

theorem u32_le {x n : Int} (hx : 0 ≤ x) (hx' : x ≤ n) (hn : n < 0x100000000) :
    (u32 x : Int) ≤ n := by
  simp only [u32]
  omega

/-- Moving to coordinates on the screen. -/
theorem InRange.moveTo (h : d.InRange) (term : Nat) {x y : Int} (hx : 0 ≤ x) (hx' : x ≤ 79)
    (hy : 0 ≤ y) (hy' : y ≤ 24) : (d.moveTo term x y).InRange := by
  refine ⟨hx, hx', hy, hy', fun t ht => ?_, h.stores⟩
  have hux := u32_le hx hx' (by decide)
  have huy := u32_le hy hy' (by decide)
  show Function.update d.termCursorX term (u32 x) t ≤ 79 ∧
    Function.update d.termCursorY term (u32 y) t ≤ 24
  by_cases heq : t = term
  · subst heq
    simp only [Function.update_self]
    omega
  · simp only [Function.update_of_ne heq]
    exact h.cursors t ht

theorem InRange.putcBody (h : d.InRange) (c : UInt8) : (d.putcBody c).video.StoresIn := by
  have hput := Video.stores_in_putCell h.stores h.xLo h.xHi h.yLo h.yHi c
  have hwrite : (d.putcWrite c).2.video.StoresIn := by
    unfold putcWrite
    split_ifs
    · exact h.stores
    · exact h.stores
    · exact hput
  unfold Display.putcBody
  split
  · simpa using Video.stores_in_scroll hwrite
  · exact hwrite

theorem InRange.putc (h : d.InRange) {service : Nat} (hservice : service < 3) (cur : Nat)
    (c : UInt8) : (d.putc service cur c).InRange := by
  obtain ⟨hx, hy⟩ := h.cursors service hservice
  have hspec := putc_spec hservice cur hx hy c
  have hbounds := Screen.putc_in_bounds (s := d.view cur service) ⟨hx, hy⟩ c
  have hbx := hbounds.x
  have hby := hbounds.y
  have hchecked : (d.cursorCheck service cur).2.InRange :=
    (h.setScreenCoords (by rw [i32_of_lt] <;> omega) (by rw [i32_of_lt] <;> omega)
      (by rw [i32_of_lt] <;> omega) (by rw [i32_of_lt] <;> omega)).setVidEntry _
  refine ⟨?_, ?_, ?_, ?_, putc_cursors_in hservice cur h.cursors c, ?_⟩
  · rw [hspec.screenX]
    omega
  · rw [hspec.screenX]
    omega
  · rw [hspec.screenY]
    omega
  · rw [hspec.screenY]
    omega
  · rw [putc_eq, putcFinish_video]
    exact hchecked.putcBody c

theorem InRange.wrapBeforePrint (h : d.InRange) (term : Nat) :
    (d.wrapBeforePrint term).InRange := by
  unfold Display.wrapBeforePrint
  split_ifs with hx hy
  · exact h.scroll.moveTo term (by decide) (by decide) h.yLo h.yHi
  · have := h.yLo
    have := h.yHi
    simp only [numRows] at hy
    exact h.moveTo term (by decide) (by decide) (by omega) (by omega)
  · exact h

theorem InRange.switchTerm (h : d.InRange) (cur : Nat) {new : Nat} (hnew : new < 3) :
    (d.switchTerm cur new).InRange := by
  obtain ⟨hx, hy⟩ := h.cursors new hnew
  refine ⟨?_, ?_, ?_, ?_, h.cursors, h.stores⟩ <;>
    simp only [Display.switchTerm, Display.updateCursor, Display.setScreenCoords] <;>
    rw [i32_of_lt] <;> omega

theorem InRange.puts (h : d.InRange) {service : Nat} (hservice : service < 3) (cur : Nat)
    (s : List UInt8) : (d.puts service cur s).InRange := by
  induction s generalizing d with
  | nil => exact h
  | cons c s ih => exact ih (h.putc hservice cur c)

end Display

namespace Devices

variable {d : Devices}

/-- The displayed terminal and the terminal in service are terminals. -/
structure TermsIn (d : Devices) : Prop where
  cur : d.term.curTermNum < 3
  service : d.term.termInService < 3

theorem puts_in_range (h : d.disp.InRange) (ht : d.term.termInService < 3) (s : List UInt8) :
    (d.puts s).disp.InRange := by
  rw [puts_disp]
  exact h.puts ht _ s

theorem rtcWrite_in_range (h : d.disp.InRange) (ht : d.term.termInService < 3) (freq : Option Int)
    (nbytes : Int) : (d.rtcWrite freq nbytes).2.disp.InRange := by
  unfold rtcWrite
  split
  · exact h
  · split_ifs
    · exact h
    · exact puts_in_range h ht _
    · split
      · exact puts_in_range h ht _
      · exact h

@[simp] theorem rtcWrite_term (freq : Option Int) (nbytes : Int) :
    (d.rtcWrite freq nbytes).2.term = d.term := by
  unfold rtcWrite
  split
  · rfl
  · split_ifs
    · rfl
    · exact puts_term _ _
    · split
      · exact puts_term _ _
      · rfl

theorem rtcClose_in_range (h : d.disp.InRange) (ht : d.term.termInService < 3) :
    d.rtcClose.2.disp.InRange := by
  unfold rtcClose
  split
  · exact h
  · exact puts_in_range h ht _

@[simp] theorem rtcClose_term : d.rtcClose.2.term = d.term := by
  unfold rtcClose
  split
  · rfl
  · exact puts_term _ _

theorem requestedTerm_lt {c : UInt8} {new : Nat} (h : requestedTerm c = some new) : new < 3 := by
  unfold requestedTerm at h
  split_ifs at h <;> simp at h <;> omega

theorem kbSwitch_in_range (h : d.disp.InRange) (cur : Nat) (c : UInt8) :
    (d.kbSwitch cur c).disp.InRange := by
  unfold kbSwitch
  split
  · next new _ hnew =>
    split
    · exact h
    · exact h.switchTerm cur (requestedTerm_lt hnew)
  · exact h

theorem kbSwitch_terms_in (h : d.TermsIn) (cur : Nat) (c : UInt8) :
    (d.kbSwitch cur c).TermsIn := by
  unfold kbSwitch
  split
  · next new _ hnew =>
    split
    · exact h
    · exact ⟨requestedTerm_lt hnew, h.service⟩
  · exact h

@[simp] theorem kbFreqTest_term (cur : Nat) (stray : Option Int) :
    (d.kbFreqTest cur stray).term = d.term := by
  simp [kbFreqTest]

@[simp] theorem kbCtrl_term (cur : Nat) (c : UInt8) (stray : Option Int) :
    (d.kbCtrl cur c stray).term = d.term := by
  unfold kbCtrl
  split_ifs <;> simp [rtcOpen]

theorem clearScreen_in_range {d : Display} (h : d.InRange) (cur : Nat) :
    (d.clearScreen cur).InRange :=
  h.clear.moveTo cur (by decide) (by decide) (by decide) (by decide)

theorem kbCtrl_in_range (h : d.disp.InRange) (ht : d.term.termInService < 3) (cur : Nat)
    (c : UInt8) (stray : Option Int) : (d.kbCtrl cur c stray).disp.InRange := by
  unfold kbCtrl
  split_ifs
  · exact clearScreen_in_range h cur
  · refine rtcWrite_in_range (puts_in_range ?_ ?_ _) ?_ _ _
    · exact clearScreen_in_range h cur
    · exact ht
    · simpa using ht
  · exact rtcClose_in_range (puts_in_range h ht _) (by simpa using ht)
  · exact h
  · exact h

theorem kbEnter_in_range (h : d.disp.InRange) {cur : Nat} (hcur : cur < 3) :
    (d.kbEnter cur).disp.InRange := by
  have hy := (h.cursors cur hcur).2
  have hi : i32 (d.disp.termCursorY cur) = d.disp.termCursorY cur := i32_of_lt (by omega)
  simp only [kbEnter, sendBuffer, hi]
  by_cases hlast : (d.disp.termCursorY cur : Int) = numRows - 1
  · rw [if_pos hlast]
    exact h.scroll.moveTo cur (by decide) (by decide) (by omega) (by omega)
  · rw [if_neg hlast]
    simp only [numRows] at hlast
    exact h.moveTo cur (by decide) (by decide) (by omega) (by simp only; omega)

theorem kbPrint_in_range (h : d.disp.InRange) (ht : d.term.termInService < 3) (cur : Nat)
    (c : UInt8) : (d.kbPrint cur c).disp.InRange :=
  (h.wrapBeforePrint cur).putc ht _ c

/-- A press of any key but Backspace keeps the display in range. -/
theorem kbPress_in_range (h : d.disp.InRange) (ht : d.TermsIn) {cur : Nat} (hcur : cur < 3)
    {c : UInt8} (hc : c ≠ backspaceKey) (stray : Option Int) :
    (d.kbPress cur c stray).disp.InRange := by
  unfold kbPress
  generalize hd1 : ({ d with kbd := d.kbd.press c } : Devices) = d1
  have h1 : d1.disp.InRange := hd1 ▸ h
  have ht1 : d1.TermsIn := hd1 ▸ ⟨ht.cur, ht.service⟩
  have h2 := kbSwitch_in_range h1 cur c
  have ht2 := kbSwitch_terms_in ht1 cur c
  have h3 := kbCtrl_in_range h2 ht2.service cur c stray
  have ht3 : ((d1.kbSwitch cur c).kbCtrl cur c stray).term.termInService < 3 := by
    simpa using ht2.service
  simp only [if_neg hc]
  by_cases henter : c = enterKey
  · simp only [if_pos henter]
    have h4 := kbEnter_in_range h3 hcur
    split
    · exact kbPrint_in_range h4 ht3 cur _
    · exact h4
  · simp only [if_neg henter]
    split
    · exact kbPrint_in_range h3 ht3 cur _
    · exact h3

/-- On the display, a press of Backspace only erases. -/
theorem kbPress_backspace_disp (cur : Nat) (stray : Option Int) :
    (d.kbPress cur backspaceKey stray).disp = (d.kbBackspace cur).disp := by
  rw [kbPress_backspace]
  rfl

/-- The column and row where typing started, as the next key will find them. -/
def startOfTyping (d : Devices) : Nat × Nat :=
  if d.term.overrideStart then (d.term.xStartTw, d.term.yStartTw) else (d.kbd.xStart, d.kbd.yStart)

/-- Backspace may be pressed: at the top left corner, to the right of the first column and not in
the column where typing started, or in that column on the row where typing started or above. -/
def EraseOk (d : Devices) : Prop :=
  d.disp.screenX = 0 ∧ d.disp.screenY = 0 ∨
    d.disp.screenX ≠ 0 ∧ u32 d.disp.screenX ≠ d.startOfTyping.1 ∨
    u32 d.disp.screenX = d.startOfTyping.1 ∧ u32 d.disp.screenY ≤ d.startOfTyping.2

/-- The scancode is the make code of Backspace. -/
def isBackspace (scancode : UInt8) : Prop :=
  scancode &&& 0x80 = 0 ∧ kbdusChar scancode = backspaceKey

/-- Erasing keeps the display in range exactly when the target of the cursor is on the screen. -/
theorem kbBackspace_in_range (h : d.disp.InRange) (cur : Nat) :
    (d.kbBackspace cur).disp.InRange ↔
      0 ≤ (d.disp.backspaceTarget d.kbd.xStart d.kbd.yStart).1 ∧
      (d.disp.backspaceTarget d.kbd.xStart d.kbd.yStart).1 ≤ 79 ∧
      0 ≤ (d.disp.backspaceTarget d.kbd.xStart d.kbd.yStart).2 ∧
      (d.disp.backspaceTarget d.kbd.xStart d.kbd.yStart).2 ≤ 24 := by
  constructor
  · intro h'
    exact ⟨h'.xLo, h'.xHi, h'.yLo, h'.yHi⟩
  · rintro ⟨hx, hx', hy, hy'⟩
    exact (h.moveTo cur hx hx' hy hy').clearChar

theorem backspaceTarget_in_range {d : Display} (h : d.InRange) (xStart yStart : Nat) :
    (0 ≤ (d.backspaceTarget xStart yStart).1 ∧ (d.backspaceTarget xStart yStart).1 ≤ 79 ∧
      0 ≤ (d.backspaceTarget xStart yStart).2 ∧ (d.backspaceTarget xStart yStart).2 ≤ 24) ↔
      (d.screenX = 0 ∧ d.screenY = 0 ∨ d.screenX ≠ 0 ∧ u32 d.screenX ≠ xStart ∨
        u32 d.screenX = xStart ∧ u32 d.screenY ≤ yStart) := by
  obtain ⟨hx, hx', hy, hy', -, -⟩ := h
  unfold Display.backspaceTarget
  split_ifs with hcorner hcol hrow
  · simp only
    omega
  · simp only
    omega
  · simp only [numCols]
    omega
  · simp only
    omega

/-! ## The whole handler and the other events -/

theorem kbOverride_disp (d : Devices) : d.kbOverride.disp = d.disp := by
  unfold kbOverride
  split <;> rfl

theorem kbOverride_curTermNum (d : Devices) : d.kbOverride.term.curTermNum = d.term.curTermNum := by
  unfold kbOverride
  split <;> rfl

theorem kbOverride_termInService (d : Devices) :
    d.kbOverride.term.termInService = d.term.termInService := by
  unfold kbOverride
  split <;> rfl

theorem kbOverride_start (d : Devices) :
    (d.kbOverride.kbd.xStart, d.kbOverride.kbd.yStart) = d.startOfTyping := by
  unfold kbOverride startOfTyping
  split <;> rfl

/-- Backspace keeps the display in range exactly when it finds `EraseOk`. -/
theorem kbScancode_backspace_in_range (h : d.disp.InRange) {scancode : UInt8}
    (hb : isBackspace scancode) (stray : Option Int) :
    (d.kbBegin.kbOverride.kbScancode d.term.curTermNum scancode stray).disp.InRange ↔
      d.EraseOk := by
  have hdisp : d.kbBegin.kbOverride.disp = d.disp.setVidEntry vgaEntry := kbOverride_disp _
  have hstart : (d.kbBegin.kbOverride.kbd.xStart, d.kbBegin.kbOverride.kbd.yStart) =
      d.startOfTyping := kbOverride_start _
  have hx : d.kbBegin.kbOverride.kbd.xStart = d.startOfTyping.1 := congrArg Prod.fst hstart
  have hy : d.kbBegin.kbOverride.kbd.yStart = d.startOfTyping.2 := congrArg Prod.snd hstart
  have h' : d.kbBegin.kbOverride.disp.InRange := hdisp ▸ h.setVidEntry _
  have hpress : ¬ scancode &&& 0x80 ≠ 0 := fun hne => hne hb.1
  unfold kbScancode
  rw [if_neg hpress, hb.2, kbPress_backspace_disp, kbBackspace_in_range h',
    backspaceTarget_in_range h', hx, hy, hdisp]
  rfl

theorem kbScancode_in_range (h : d.disp.InRange) (ht : d.TermsIn) {cur : Nat} (hcur : cur < 3)
    {scancode : UInt8} (hb : ¬ isBackspace scancode) (stray : Option Int) :
    (d.kbScancode cur scancode stray).disp.InRange := by
  unfold kbScancode
  split_ifs with hrel
  · exact h
  · exact kbPress_in_range h ht hcur (fun hc => hb ⟨not_not.1 hrel, hc⟩) stray

theorem kbBegin_terms_in (h : d.TermsIn) : d.kbBegin.kbOverride.TermsIn :=
  ⟨(kbOverride_curTermNum d.kbBegin).symm ▸ h.cur,
    (kbOverride_termInService d.kbBegin).symm ▸ h.cur⟩

/-- A key keeps the display in range unless it is a Backspace that does not find `EraseOk`. -/
theorem keyboardHandler_in_range (h : d.disp.InRange) (ht : d.TermsIn) (scancode : UInt8)
    (stray : Option Int) :
    (d.keyboardHandler scancode stray).disp.InRange ↔ (isBackspace scancode → d.EraseOk) := by
  have hbegin : d.kbBegin.kbOverride.disp.InRange := kbOverride_disp d.kbBegin ▸ h.setVidEntry _
  have hbody : (d.keyboardHandler scancode stray).disp.InRange ↔
      (d.kbBegin.kbOverride.kbScancode d.term.curTermNum scancode stray).disp.InRange :=
    ⟨fun h' => h'.setVidEntry _, fun h' => h'.setVidEntry _⟩
  rw [hbody]
  by_cases hb : isBackspace scancode
  · rw [kbScancode_backspace_in_range h hb]
    exact ⟨fun ok _ => ok, fun ok => ok hb⟩
  · exact ⟨fun _ hb' => absurd hb' hb,
      fun _ => kbScancode_in_range hbegin (kbBegin_terms_in ht) ht.cur hb stray⟩

theorem kbPress_curTermNum (h : d.term.curTermNum < 3) (cur : Nat) (c : UInt8)
    (stray : Option Int) : (d.kbPress cur c stray).term.curTermNum < 3 := by
  unfold kbPress
  generalize hd : ({ d with kbd := d.kbd.press c } : Devices) = d0
  have hd0 : d0.term.curTermNum < 3 := hd ▸ h
  have hswitch : (d0.kbSwitch cur c).term.curTermNum < 3 := by
    unfold kbSwitch
    split
    · next new _ hnew =>
      split
      · exact hd0
      · exact requestedTerm_lt hnew
    · exact hd0
  have hctrl : ((d0.kbSwitch cur c).kbCtrl cur c stray).term.curTermNum < 3 := by
    rwa [kbCtrl_term]
  dsimp only
  split_ifs <;> exact hctrl

/-- A key leaves both terminal numbers in range; the one in service is the one before. -/
theorem keyboardHandler_terms_in (h : d.TermsIn) (scancode : UInt8) (stray : Option Int) :
    (d.keyboardHandler scancode stray).TermsIn := by
  refine ⟨?_, h.service⟩
  have hcur : d.kbBegin.kbOverride.term.curTermNum < 3 := (kbBegin_terms_in h).cur
  show (d.kbBegin.kbOverride.kbScancode d.term.curTermNum scancode stray).term.curTermNum < 3
  unfold kbScancode
  split_ifs
  · exact hcur
  · exact kbPress_curTermNum hcur _ _ _

theorem terminalWrite_in_range (h : d.disp.InRange) (ht : d.TermsIn) (buf : List UInt8) :
    (d.terminalWrite buf).disp.InRange :=
  puts_in_range h ht.service buf

theorem terminalWrite_terms_in (h : d.TermsIn) (buf : List UInt8) :
    (d.terminalWrite buf).TermsIn := by
  refine ⟨?_, ?_⟩ <;> simp only [terminalWrite, puts_term]
  · exact h.cur
  · exact h.service

/-- Every console event keeps the terminal numbers in range. -/
theorem consoleStep_terms_in (h : d.TermsIn) (e : ConsoleEvent) : (consoleStep d e).TermsIn := by
  cases e with
  | key scancode stray => exact keyboardHandler_terms_in h scancode stray
  | serve term => exact ⟨h.cur, term.isLt⟩
  | launch term => exact ⟨h.cur, term.isLt⟩
  | write buf => exact terminalWrite_terms_in h buf

/-- The event is not a Backspace, or it finds the cursor where erasing is in range. -/
def EraseGuard (d : Devices) : ConsoleEvent → Prop
  | .key scancode _ => isBackspace scancode → d.EraseOk
  | _ => True

/-- A console event keeps the display in range exactly when it meets `EraseGuard`. -/
theorem consoleStep_in_range (ht : d.TermsIn) (h : d.disp.InRange) (e : ConsoleEvent) :
    (consoleStep d e).disp.InRange ↔ d.EraseGuard e := by
  cases e with
  | key scancode stray => exact keyboardHandler_in_range h ht scancode stray
  | serve term => exact ⟨fun _ => trivial, fun _ => h.setVidEntry _⟩
  | launch term =>
      exact ⟨fun _ => trivial, fun _ => (h.setVidEntry _).setScreenCoords (by decide) (by decide)
        (by decide) (by decide)⟩
  | write buf => exact ⟨fun _ => trivial, fun _ => terminalWrite_in_range h ht buf⟩

theorem boot_in_range (mem : Nat → UInt8) : (boot mem).disp.InRange :=
  ⟨Int.le_refl 0, Int.zero_le_ofNat 79, Int.le_refl 0, Int.zero_le_ofNat 24,
    fun _ _ => ⟨Nat.zero_le _, Nat.zero_le _⟩, fun _ h => absurd h List.not_mem_nil⟩

theorem boot_terms_in (mem : Nat → UInt8) : (boot mem).TermsIn :=
  ⟨Nat.zero_lt_succ 2, Nat.zero_lt_succ 2⟩

/-- From boot, the coordinates, the cursors and all stores stay in range throughout a sequence of
console events exactly when every Backspace in it finds `EraseOk`. -/
theorem cursor_safe_iff (mem : Nat → UInt8) (es : List ConsoleEvent) :
    Always consoleStep (fun d => d.disp.InRange) (boot mem) es ↔
      Meets consoleStep EraseGuard (boot mem) es :=
  always_iff_meets (I := TermsIn) (fun _ e h => consoleStep_terms_in h e)
    (fun _ e ht h => consoleStep_in_range ht h e) es (boot_terms_in mem) (boot_in_range mem)

/-- Terminal 1 prints a newline, terminal 0 prints `a`, and Alt-F2 shows terminal 1 with its
cursor in column 0 of row 1 while typing counts as started in column 1. -/
def eraseAtLineStart : List ConsoleEvent :=
  [.serve secondTerm, .write [0x0A], .serve firstTerm, .write ['a'.toUInt8], .key 0x38 none,
    .key 0x3C none, .key 0x0E none]

/-- Backspace in column 0 moves the cursor to column −1. -/
theorem cursor_leaves_screen :
    ¬ ∀ (mem : Nat → UInt8) (es : List ConsoleEvent),
      Always consoleStep (fun d => d.disp.InRange) (boot mem) es := by
  intro h
  have hlast := (h (fun _ => 0) eraseAtLineStart).last.xLo
  exact absurd hlast (by decide)

end Devices

end Ece391Kernel
