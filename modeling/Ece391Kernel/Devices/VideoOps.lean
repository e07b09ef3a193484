import Ece391Kernel.Transition.Translation
import Ece391Kernel.Devices.LineEditing

/-!
# Stores through a cached translation

What a console event does to video memory, as the sequence of its operations in the order of the
code: rewrites of entry 0 of `page_table_vid`, the functions that store through `video_mem`, the
copies of ALT-Fx, and the reload of CR3 at the end of a tick. `consoleOps_run` says that these
operations are all that happens to the video memory.

The CPU caches the translation of `video_mem` until CR3 is reloaded, which only ticks do.
`stores_coherent_iff`: every store reaches the page that the entry names at that moment exactly
when all events that draw between two ticks draw on the same page.
-/

namespace Ece391Kernel

open Transition

/-- An operation on entry 0 of `page_table_vid` or on video memory. -/
inductive VideoOp where
  | map (entry : Nat)
  | putCell (x y : Int) (c : UInt8)
  | scroll
  | clear
  | copyPage (dst src : Nat)
  | reloadCr3

namespace VideoOp

/-- What the operation does to the entry and to video memory. -/
def apply (v : Video) : VideoOp → Video
  | .map entry => { v with pageTableVid0 := entry }
  | .putCell x y c => v.putCell x y c
  | .scroll => v.scroll
  | .clear => v.clear
  | .copyPage dst src => v.copyPage dst src
  | .reloadCr3 => v

/-- What the operation does to the translation of `video_mem`. `memcpy` uses other pages. -/
def accesses : VideoOp → List (Access Nat)
  | .map entry => [.map (frameOf entry)]
  | .putCell _ _ _ => [.use]
  | .scroll => [.use]
  | .clear => [.use]
  | .copyPage _ _ => []
  | .reloadCr3 => [.reload]

end VideoOp

/-! ## The operations of the code -/

/-- The operations of `putc`. -/
def Display.putcOps (d : Display) (service cur : Nat) (c : UInt8) : List VideoOp :=
  let d := (d.cursorCheck service cur).2
  .map (vidEntry service cur) ::
    ((if isNewline c then [] else [.putCell d.screenX d.screenY c]) ++
      if (d.putcWrite c).1 then [.scroll] else [])

namespace Devices

variable (d : Devices)

/-- The operations of `puts`. -/
def putsOps (s : List UInt8) : List VideoOp :=
  emitted putc (fun d c => d.disp.putcOps d.term.termInService d.term.curTermNum c) d s

/-- The operations of `rtc_write`, which reports errors on the screen. -/
def rtcWriteOps (freq : Option Int) (nbytes : Int) : List VideoOp :=
  match freq with
  | none => []
  | some freq =>
    if nbytes ≠ 4 then []
    else if freq < 2 ∨ 1024 < freq then d.putsOps (chars "This frequency is out of range.\n")
    else match selectBits.lookup freq with
      | none => d.putsOps (chars "Frequency given is invalid.\n")
      | some _ => []

/-- The operations of `rtc_close`. -/
def rtcCloseOps : List VideoOp :=
  if d.rtc.rtcOpened then [] else d.putsOps (chars "The RTC is already closed.\n")

/-- The operations of an ALT-Fx key. -/
def kbSwitchOps (cur : Nat) (c : UInt8) : List VideoOp :=
  match d.switchTarget c with
  | some new =>
      [.copyPage (vimMemIndex + (cur + 1) * fourKb) vimMemIndex,
        .copyPage vimMemIndex (vimMemIndex + (new + 1) * fourKb)]
  | none => []

/-- The operations of CTRL-1. -/
def kbFreqTestOps (cur : Nat) (stray : Option Int) : List VideoOp :=
  let d := { d with disp := d.disp.clearScreen cur }
  let idx := if d.kbd.freqIdx + 1 = freqs.length then 0 else d.kbd.freqIdx + 1
  let freq := freqs.getD idx 0
  let d := { d with kbd := { d.kbd with freqIdx := idx } }
  let text := chars "Testing freq: " ++ chars (toString freq) ++ chars "\n"
  .clear :: (d.putsOps text ++ (d.puts text).rtcWriteOps stray freq)

/-- The operations of the CTRL keys. -/
def kbCtrlOps (cur : Nat) (c : UInt8) (stray : Option Int) : List VideoOp :=
  if d.kbd.ctrlPressed then
    if c = 'l'.toUInt8 then [.clear]
    else if c = '1'.toUInt8 then d.kbFreqTestOps cur stray
    else if c = '2'.toUInt8 then
      d.putsOps (chars "\nResetting RTC!\n") ++ (d.puts (chars "\nResetting RTC!\n")).rtcCloseOps
    else []
  else []

/-- The operations of Backspace. -/
def kbBackspaceOps : List VideoOp :=
  let target := d.disp.backspaceTarget d.kbd.xStart d.kbd.yStart
  [.putCell target.1 target.2 blank]

/-- The operations of Enter. -/
def kbEnterOps (cur : Nat) : List VideoOp :=
  if i32 (d.disp.termCursorY cur) = numRows - 1 then [.scroll] else []

/-- The operations of a printable key. -/
def kbPrintOps (cur : Nat) (c : UInt8) : List VideoOp :=
  (if d.disp.screenX = numCols - 1 ∧ d.disp.screenY = numRows - 1 then [.scroll] else []) ++
    (d.disp.wrapBeforePrint cur).putcOps d.term.termInService d.term.curTermNum c

/-- The operations of a key press. -/
def kbPressOps (cur : Nat) (c : UInt8) (stray : Option Int) : List VideoOp :=
  let pressed := { d with kbd := d.kbd.press c }
  let switched := pressed.kbSwitch cur c
  let controlled := switched.kbCtrl cur c stray
  let erased := if c = backspaceKey then controlled.kbBackspace cur else controlled
  let entered := if c = enterKey then erased.kbEnter cur else erased
  pressed.kbSwitchOps cur c ++ switched.kbCtrlOps cur c stray ++
    (if c = backspaceKey then controlled.kbBackspaceOps else []) ++
    (if c = enterKey then erased.kbEnterOps cur else []) ++
    if entered.kbd.printMe then entered.kbPrintOps cur (entered.kbd.shiftChar c) else []

/-- The operations between the two rewrites of the entry in `keyboard_handler`. -/
def kbScancodeOps (cur : Nat) (scancode : UInt8) (stray : Option Int) : List VideoOp :=
  if scancode &&& 0x80 ≠ 0 then [] else d.kbPressOps cur (kbdusChar scancode) stray

/-- The operations of an event. `pit_handler` ends with a reload of CR3; while it launches a shell,
`sys_execute` reloads it. -/
def consoleOps : ConsoleEvent → List VideoOp
  | .key scancode stray =>
      .map vgaEntry ::
        (d.kbBegin.kbOverride.kbScancodeOps d.term.curTermNum scancode stray ++
          [.map d.disp.video.pageTableVid0])
  | .serve term => [.map (vidEntry term d.term.curTermNum), .reloadCr3]
  | .launch term => [.map (backingEntry term), .reloadCr3]
  | .write buf => d.putsOps buf

/-- What an event does to the translation of `video_mem`. -/
def videoAccesses (e : ConsoleEvent) : List (Access Nat) :=
  (d.consoleOps e).flatMap VideoOp.accesses

end Devices

/-! ## The operations are what happens -/

namespace Display

variable {d : Display}

theorem putcOps_run (service cur : Nat) (c : UInt8) :
    (d.putc service cur c).video = (d.putcOps service cur c).foldl VideoOp.apply d.video := by
  rw [putc_eq, putcFinish_video]
  unfold putcBody putcOps
  generalize hd1 : (d.cursorCheck service cur).2 = d1
  have hvideo : d1.video = { d.video with pageTableVid0 := vidEntry service cur } := hd1 ▸ rfl
  have hwrite : (d1.putcWrite c).2.video =
      (if isNewline c then [] else [VideoOp.putCell d1.screenX d1.screenY c]).foldl VideoOp.apply
        d1.video := by
    unfold putcWrite
    split_ifs <;> rfl
  rw [List.foldl_cons, List.foldl_append]
  show _ = List.foldl _ (List.foldl _ { d.video with pageTableVid0 := vidEntry service cur } _) _
  rw [← hvideo, ← hwrite]
  split_ifs
  · exact putcScroll_video _ _
  · rfl

end Display

namespace Devices

variable {d : Devices}

theorem putsOps_run (s : List UInt8) :
    (d.puts s).disp.video = (d.putsOps s).foldl VideoOp.apply d.disp.video :=
  foldl_view (fun d : Devices => d.disp.video) (I := fun _ => True) (fun _ _ _ => trivial)
    (fun _ c _ => Display.putcOps_run _ _ c) s trivial

theorem rtcWriteOps_run (freq : Option Int) (nbytes : Int) :
    (d.rtcWrite freq nbytes).2.disp.video =
      (d.rtcWriteOps freq nbytes).foldl VideoOp.apply d.disp.video := by
  cases freq with
  | none => rfl
  | some freq =>
      simp only [rtcWrite, rtcWriteOps]
      by_cases hbytes : nbytes ≠ 4
      · rw [if_pos hbytes, if_pos hbytes]
        rfl
      · rw [if_neg hbytes, if_neg hbytes]
        by_cases hrange : freq < 2 ∨ 1024 < freq
        · rw [if_pos hrange, if_pos hrange]
          exact putsOps_run _
        · rw [if_neg hrange, if_neg hrange]
          cases selectBits.lookup freq with
          | none => exact putsOps_run _
          | some bits => rfl

theorem rtcCloseOps_run :
    d.rtcClose.2.disp.video = d.rtcCloseOps.foldl VideoOp.apply d.disp.video := by
  unfold rtcClose rtcCloseOps
  split_ifs
  · rfl
  · exact putsOps_run _

theorem kbSwitchOps_run (c : UInt8) :
    (d.kbSwitch d.term.curTermNum c).disp.video =
      (d.kbSwitchOps d.term.curTermNum c).foldl VideoOp.apply d.disp.video := by
  unfold kbSwitchOps
  cases htarget : d.switchTarget c with
  | none =>
      rw [kbSwitch_none htarget]
      rfl
  | some new =>
      obtain ⟨halt, hnew, hne⟩ := switchTarget_some htarget
      simp only [kbSwitch, halt, hnew, if_neg hne]
      rfl

theorem kbFreqTestOps_run (cur : Nat) (stray : Option Int) :
    (d.kbFreqTest cur stray).disp.video =
      (d.kbFreqTestOps cur stray).foldl VideoOp.apply d.disp.video := by
  unfold kbFreqTest kbFreqTestOps
  simp only [rtcWriteOps_run, putsOps_run, List.foldl_cons, List.foldl_append]
  rfl

theorem kbCtrlOps_run (cur : Nat) (c : UInt8) (stray : Option Int) :
    (d.kbCtrl cur c stray).disp.video =
      (d.kbCtrlOps cur c stray).foldl VideoOp.apply d.disp.video := by
  unfold kbCtrl kbCtrlOps
  split_ifs
  · rfl
  · exact kbFreqTestOps_run cur stray
  · show ((d.puts (chars "\nResetting RTC!\n")).rtcClose.2).disp.video = _
    rw [rtcCloseOps_run, putsOps_run, List.foldl_append]
  · rfl
  · rfl

theorem kbEnterOps_run (cur : Nat) :
    (d.kbEnter cur).disp.video = (d.kbEnterOps cur).foldl VideoOp.apply d.disp.video := by
  unfold kbEnter kbEnterOps
  by_cases hlast : i32 (d.disp.termCursorY cur) = numRows - 1
  · have hlast' : i32 ((d.sendBuffer d.kbd.kbdBuf).disp.termCursorY cur) = numRows - 1 := hlast
    simp only [if_pos hlast, if_pos hlast']
    rfl
  · have hlast' : ¬ i32 ((d.sendBuffer d.kbd.kbdBuf).disp.termCursorY cur) = numRows - 1 := hlast
    simp only [if_neg hlast, if_neg hlast']
    rfl

theorem kbPrintOps_run (cur : Nat) (c : UInt8) :
    (d.kbPrint cur c).disp.video = (d.kbPrintOps cur c).foldl VideoOp.apply d.disp.video := by
  show ((d.disp.wrapBeforePrint cur).putc d.term.termInService d.term.curTermNum c).video = _
  have hwrap : (d.disp.wrapBeforePrint cur).video =
      (if d.disp.screenX = numCols - 1 ∧ d.disp.screenY = numRows - 1 then
        [VideoOp.scroll] else []).foldl VideoOp.apply d.disp.video := by
    unfold Display.wrapBeforePrint
    split_ifs with hx hy hboth hboth hboth
    · rfl
    · exact absurd ⟨hx, hy⟩ hboth
    · exact absurd hboth.2 hy
    · rfl
    · exact absurd hboth.1 hx
    · rfl
  rw [Display.putcOps_run, kbPrintOps, List.foldl_append, ← hwrap]

theorem kbPressOps_run (c : UInt8) (stray : Option Int) :
    (d.kbPress d.term.curTermNum c stray).disp.video =
      (d.kbPressOps d.term.curTermNum c stray).foldl VideoOp.apply d.disp.video := by
  unfold kbPress kbPressOps
  dsimp only
  generalize hd0 : ({ d with kbd := d.kbd.press c } : Devices) = d0
  have hcur : d0.term.curTermNum = d.term.curTermNum := hd0 ▸ rfl
  have hvideo : d0.disp.video = d.disp.video := hd0 ▸ rfl
  generalize d.term.curTermNum = cur at hcur
  subst hcur
  have hctrl : ((d0.kbSwitch d0.term.curTermNum c).kbCtrl d0.term.curTermNum c stray).disp.video =
      (d0.kbSwitchOps d0.term.curTermNum c ++
        (d0.kbSwitch d0.term.curTermNum c).kbCtrlOps d0.term.curTermNum c stray).foldl
          VideoOp.apply d.disp.video := by
    rw [List.foldl_append, ← hvideo, ← kbSwitchOps_run, ← kbCtrlOps_run]
  generalize (d0.kbSwitch d0.term.curTermNum c).kbCtrl d0.term.curTermNum c stray = d2 at hctrl ⊢
  have hback : (if c = backspaceKey then d2.kbBackspace d0.term.curTermNum else d2).disp.video =
      (if c = backspaceKey then d2.kbBackspaceOps else []).foldl VideoOp.apply d2.disp.video := by
    split <;> rfl
  generalize (if c = backspaceKey then d2.kbBackspace d0.term.curTermNum else d2) = d3 at hback ⊢
  have henter : (if c = enterKey then d3.kbEnter d0.term.curTermNum else d3).disp.video =
      (if c = enterKey then d3.kbEnterOps d0.term.curTermNum else []).foldl VideoOp.apply
        d3.disp.video := by
    split
    · exact kbEnterOps_run _
    · rfl
  generalize (if c = enterKey then d3.kbEnter d0.term.curTermNum else d3) = d4 at henter ⊢
  rw [List.foldl_append, List.foldl_append, List.foldl_append, ← hctrl, ← hback, ← henter]
  split_ifs
  · exact kbPrintOps_run _ _
  · rfl

theorem kbScancodeOps_run (scancode : UInt8) (stray : Option Int) :
    (d.kbScancode d.term.curTermNum scancode stray).disp.video =
      (d.kbScancodeOps d.term.curTermNum scancode stray).foldl VideoOp.apply d.disp.video := by
  unfold kbScancode kbScancodeOps
  split_ifs
  · rfl
  · exact kbPressOps_run _ stray

/-- The operations of an event are all that happens to the entry and to video memory. -/
theorem consoleOps_run (e : ConsoleEvent) :
    (consoleStep d e).disp.video = (d.consoleOps e).foldl VideoOp.apply d.disp.video := by
  cases e with
  | key scancode stray =>
      have hcur : d.kbBegin.kbOverride.term.curTermNum = d.term.curTermNum :=
        kbOverride_curTermNum _
      have hvideo : d.kbBegin.kbOverride.disp.video =
          { d.disp.video with pageTableVid0 := vgaEntry } :=
        congrArg Display.video (kbOverride_disp _)
      show { (d.kbBegin.kbOverride.kbScancode d.term.curTermNum scancode stray).disp.video with
        pageTableVid0 := d.disp.video.pageTableVid0 } = _
      rw [← hcur, kbScancodeOps_run, hcur, consoleOps, List.foldl_cons, List.foldl_append, hvideo]
      rfl
  | serve term => rfl
  | launch term => rfl
  | write buf => exact putsOps_run buf

end Devices

/-! ## Which page the operations are meant for -/

/-- The operation does not map another page, and does not reload CR3. -/
def VideoOp.KeepsTo (page : Nat) : VideoOp → Prop
  | .map entry => frameOf entry = page
  | .reloadCr3 => False
  | _ => True

/-- Operations that keep to the page that the entry names. -/
theorem under_of_keepsTo {page : Nat} {ops : List VideoOp} (h : ∀ op ∈ ops, op.KeepsTo page) :
    Translation.Under page page (ops.flatMap VideoOp.accesses) ∧
      Translation.finalName page (ops.flatMap VideoOp.accesses) = page := by
  induction ops with
  | nil => exact ⟨trivial, rfl⟩
  | cons op ops ih =>
      obtain ⟨hop, hrest⟩ := List.forall_mem_cons.1 h
      obtain ⟨hunder, hfinal⟩ := ih hrest
      cases op with
      | map entry =>
          simp only [VideoOp.KeepsTo] at hop
          simp only [List.flatMap_cons, VideoOp.accesses, List.singleton_append,
            Translation.Under, Translation.finalName, hop]
          exact ⟨hunder, hfinal⟩
      | putCell x y c => exact ⟨⟨rfl, hunder⟩, hfinal⟩
      | scroll => exact ⟨⟨rfl, hunder⟩, hfinal⟩
      | clear => exact ⟨⟨rfl, hunder⟩, hfinal⟩
      | copyPage dst src => exact ⟨hunder, hfinal⟩
      | reloadCr3 => exact hop.elim

theorem Video.clearBody_entry (v : Video) (i : Nat) :
    (v.clearBody i).pageTableVid0 = v.pageTableVid0 := by
  unfold Video.clearBody
  rw [Video.store_entry, Video.store_entry]

theorem Video.clear_entry (v : Video) : v.clear.pageTableVid0 = v.pageTableVid0 := by
  unfold Video.clear
  refine forRange_invariant (P := fun _ (w : Video) => w.pageTableVid0 = v.pageTableVid0) rfl ?_
  intro i w _ hw
  rw [Video.clearBody_entry, hw]

/-- The accesses leave behind the entry that the operations leave. -/
theorem finalName_accesses (v : Video) (ops : List VideoOp) :
    Translation.finalName (frameOf v.pageTableVid0) (ops.flatMap VideoOp.accesses) =
      frameOf (ops.foldl VideoOp.apply v).pageTableVid0 := by
  induction ops generalizing v with
  | nil => rfl
  | cons op ops ih =>
      rw [List.foldl_cons, ← ih]
      cases op with
      | map entry => simp only [List.flatMap_cons, VideoOp.accesses, List.singleton_append,
          Translation.finalName, VideoOp.apply]
      | putCell x y c => rfl
      | scroll =>
          simp only [VideoOp.apply, (Video.scroll_acts v).entry]
          rfl
      | clear =>
          simp only [VideoOp.apply, Video.clear_entry v]
          rfl
      | copyPage dst src => rfl
      | reloadCr3 => rfl

namespace Devices

variable {d : Devices} {page : Nat}

/-- The page that `putc` uses. -/
def servedFrame (d : Devices) : Nat :=
  frameOf (vidEntry d.term.termInService d.term.curTermNum)

theorem putcOps_keepsTo (disp : Display) (service cur : Nat) (c : UInt8) :
    ∀ op ∈ disp.putcOps service cur c, op.KeepsTo (frameOf (vidEntry service cur)) := by
  intro op hop
  unfold Display.putcOps at hop
  simp only [List.mem_cons, List.mem_append] at hop
  rcases hop with rfl | hop | hop
  · rfl
  · split_ifs at hop
    · cases hop
    · rw [List.mem_singleton.1 hop]
      trivial
  · split_ifs at hop
    · rw [List.mem_singleton.1 hop]
      trivial
    · cases hop

theorem putsOps_keepsTo (s : List UInt8) : ∀ op ∈ d.putsOps s, op.KeepsTo d.servedFrame := by
  induction s generalizing d with
  | nil => exact fun _ h => absurd h List.not_mem_nil
  | cons c s ih =>
      intro op hop
      obtain hop | hop := List.mem_append.1 hop
      · exact putcOps_keepsTo _ _ _ c op hop
      · exact ih (d := d.putc c) op hop

theorem rtcWriteOps_keepsTo (freq : Option Int) (nbytes : Int) :
    ∀ op ∈ d.rtcWriteOps freq nbytes, op.KeepsTo d.servedFrame := by
  intro op hop
  unfold rtcWriteOps at hop
  split at hop
  · cases hop
  · split_ifs at hop
    · cases hop
    · exact putsOps_keepsTo _ op hop
    · split at hop
      · exact putsOps_keepsTo _ op hop
      · cases hop

theorem kbFreqTestOps_keepsTo (cur : Nat) (stray : Option Int) :
    ∀ op ∈ d.kbFreqTestOps cur stray, op.KeepsTo d.servedFrame := by
  intro op hop
  simp only [kbFreqTestOps, List.mem_cons, List.mem_append] at hop
  rcases hop with rfl | hop | hop
  · trivial
  · have hkeep := putsOps_keepsTo _ op hop
    exact hkeep
  · have hkeep := rtcWriteOps_keepsTo _ _ op hop
    simpa [servedFrame] using hkeep

theorem kbCtrlOps_keepsTo (cur : Nat) (c : UInt8) (stray : Option Int) :
    ∀ op ∈ d.kbCtrlOps cur c stray, op.KeepsTo d.servedFrame := by
  intro op hop
  unfold kbCtrlOps at hop
  split_ifs at hop
  · rw [List.mem_singleton.1 hop]
    trivial
  · exact kbFreqTestOps_keepsTo cur stray op hop
  · obtain hop | hop := List.mem_append.1 hop
    · exact putsOps_keepsTo _ op hop
    · unfold rtcCloseOps at hop
      split_ifs at hop
      · cases hop
      · have hkeep := putsOps_keepsTo _ op hop
        simpa [servedFrame] using hkeep
  · cases hop
  · cases hop

theorem requestedTerm_some {c : UInt8} (h : requestedTerm c ≠ none) :
    c = f1Key ∨ c = f2Key ∨ c = f3Key := by
  unfold requestedTerm at h
  split_ifs at h with h1 h2 h3
  · exact .inl h1
  · exact .inr (.inl h2)
  · exact .inr (.inr h3)
  · exact absurd rfl h

/-- A key that asks for a terminal does nothing with CTRL. -/
theorem kbCtrlOps_requested (cur : Nat) {c : UInt8} (h : requestedTerm c ≠ none)
    (stray : Option Int) : d.kbCtrlOps cur c stray = [] := by
  have hl : ¬ c = 'l'.toUInt8 := by rcases requestedTerm_some h with rfl | rfl | rfl <;> decide
  have h1 : ¬ c = '1'.toUInt8 := by rcases requestedTerm_some h with rfl | rfl | rfl <;> decide
  have h2 : ¬ c = '2'.toUInt8 := by rcases requestedTerm_some h with rfl | rfl | rfl <;> decide
  simp only [kbCtrlOps, if_neg hl, if_neg h1, if_neg h2, ite_self]

/-- A key that asks for a terminal prints nothing. -/
theorem press_printMe_requested (k : Keyboard) {c : UInt8} (h : requestedTerm c ≠ none) :
    (k.press c).printMe = false := by
  rw [press_printMe]
  refine decide_eq_false fun hprint => ?_
  exact h (requestedTerm_printable hprint.2.1)

theorem kbSwitchOps_keepsTo (cur : Nat) (c : UInt8) :
    ∀ op ∈ d.kbSwitchOps cur c, op.KeepsTo page := by
  intro op hop
  unfold kbSwitchOps at hop
  split at hop
  · simp only [List.mem_cons, List.not_mem_nil, or_false] at hop
    rcases hop with rfl | rfl <;> trivial
  · cases hop

theorem kbBackspaceOps_keepsTo : ∀ op ∈ d.kbBackspaceOps, op.KeepsTo page := by
  intro op hop
  rw [List.mem_singleton.1 hop]
  trivial

theorem kbEnterOps_keepsTo (cur : Nat) : ∀ op ∈ d.kbEnterOps cur, op.KeepsTo page := by
  intro op hop
  unfold kbEnterOps at hop
  split_ifs at hop
  · rw [List.mem_singleton.1 hop]
    trivial
  · cases hop

theorem kbPrintOps_keepsTo (cur : Nat) (c : UInt8) :
    ∀ op ∈ d.kbPrintOps cur c, op.KeepsTo d.servedFrame := by
  intro op hop
  obtain hop | hop := List.mem_append.1 hop
  · split_ifs at hop
    · rw [List.mem_singleton.1 hop]
      trivial
    · cases hop
  · exact putcOps_keepsTo _ _ _ c op hop

/-- Editing leaves `print_me` and both terminal numbers alone. -/
theorem kbEdit_same (cur : Nat) (b b' : Prop) [Decidable b] [Decidable b'] :
    let erased := if b then d.kbBackspace cur else d
    let entered := if b' then erased.kbEnter cur else erased
    entered.kbd.printMe = d.kbd.printMe ∧ entered.servedFrame = d.servedFrame := by
  dsimp only
  split_ifs <;> exact ⟨rfl, rfl⟩

/-- While the handler runs, the displayed terminal counts as the one in service. -/
theorem kbPressOps_keepsTo (h : d.term.termInService = d.term.curTermNum) (c : UInt8)
    (stray : Option Int) :
    ∀ op ∈ d.kbPressOps d.term.curTermNum c stray, op.KeepsTo (frameOf vgaEntry) := by
  intro op hop
  unfold kbPressOps at hop
  dsimp only at hop
  generalize hd0 : ({ d with kbd := d.kbd.press c } : Devices) = d0 at hop
  have hcur : d0.term.curTermNum = d.term.curTermNum := hd0 ▸ rfl
  have hserved : d0.servedFrame = frameOf vgaEntry := by
    rw [← hd0]
    simp only [servedFrame, h, vidEntry, if_true]
  rw [← hcur] at hop
  obtain ⟨hprint, hframe⟩ := kbEdit_same
    (d := (d0.kbSwitch d0.term.curTermNum c).kbCtrl d0.term.curTermNum c stray)
    d0.term.curTermNum (c = backspaceKey) (c = enterKey)
  simp only [List.mem_append, List.mem_ite_nil_right] at hop
  by_cases hreq : requestedTerm c = none
  · have hnone : d0.switchTarget c = none := by
      simp only [switchTarget, hreq, Option.filter_none, ite_self]
    rw [kbSwitch_none hnone] at hop hframe
    have hctrl : (d0.kbCtrl d0.term.curTermNum c stray).servedFrame = frameOf vgaEntry := by
      rw [← hserved, servedFrame, kbCtrl_term, servedFrame]
    rcases hop with (((hop | hop) | ⟨-, hop⟩) | ⟨-, hop⟩) | ⟨-, hop⟩
    · exact kbSwitchOps_keepsTo _ c op hop
    · exact hserved ▸ kbCtrlOps_keepsTo _ c stray op hop
    · exact kbBackspaceOps_keepsTo op hop
    · exact kbEnterOps_keepsTo _ op hop
    · exact hctrl ▸ hframe ▸ kbPrintOps_keepsTo _ _ op hop
  · -- an ALT-Fx key does nothing but copy
    have hno : d0.kbd.printMe = false := hd0 ▸ press_printMe_requested d.kbd hreq
    rw [kbCtrl_printMe, kbSwitch_printMe, hno] at hprint
    rw [kbCtrlOps_requested _ hreq, hprint] at hop
    rcases hop with (((hop | hop) | ⟨-, hop⟩) | ⟨-, hop⟩) | ⟨hprint, -⟩
    · exact kbSwitchOps_keepsTo _ c op hop
    · cases hop
    · exact kbBackspaceOps_keepsTo op hop
    · exact kbEnterOps_keepsTo _ op hop
    · cases hprint

theorem kbScancodeOps_keepsTo (h : d.term.termInService = d.term.curTermNum)
    (scancode : UInt8) (stray : Option Int) :
    ∀ op ∈ d.kbScancodeOps d.term.curTermNum scancode stray, op.KeepsTo (frameOf vgaEntry) := by
  unfold kbScancodeOps
  split_ifs
  · exact fun _ h => absurd h List.not_mem_nil
  · exact kbPressOps_keepsTo h _ stray

/-- The page that an event draws on: VGA memory, or the screen of the terminal in service. -/
def drawnPage (d : Devices) : ConsoleEvent → Nat
  | .key _ _ => frameOf vgaEntry
  | _ => d.servedFrame

theorem putsOps_under (s : List UInt8) (named : Nat) :
    Translation.Under d.servedFrame named ((d.putsOps s).flatMap VideoOp.accesses) := by
  cases s with
  | nil => exact trivial
  | cons c s => exact (under_of_keepsTo (d.putsOps_keepsTo (c :: s))).1

/-- Every event is a tick or uses only the page it draws on. -/
theorem videoAccesses_cases (d : Devices) (e : ConsoleEvent) :
    Translation.Under (d.drawnPage e) (frameOf d.disp.video.pageTableVid0) (d.videoAccesses e) ∨
      ∃ p, d.videoAccesses e = [.map p, .reload] := by
  cases e with
  | key scancode stray =>
      refine .inl ?_
      have hserved : d.kbBegin.kbOverride.term.termInService =
          d.kbBegin.kbOverride.term.curTermNum := by
        rw [kbOverride_termInService, kbOverride_curTermNum]
        rfl
      have hcur : d.kbBegin.kbOverride.term.curTermNum = d.term.curTermNum :=
        kbOverride_curTermNum _
      have hkeep := hcur ▸ kbScancodeOps_keepsTo hserved scancode stray
      obtain ⟨hunder, -⟩ := under_of_keepsTo hkeep
      simp only [videoAccesses, consoleOps, drawnPage, List.flatMap_cons, List.flatMap_append,
        VideoOp.accesses, List.singleton_append, Translation.Under, Translation.under_append]
      exact ⟨hunder, trivial⟩
  | serve term => exact .inr ⟨_, rfl⟩
  | launch term => exact .inr ⟨_, rfl⟩
  | write buf => exact .inl (putsOps_under buf _)

/-- Every store through `video_mem` in a sequence of events reaches the page that entry 0 of
`page_table_vid` names at that moment exactly when every event that draws draws on the page that
the CPU has cached since the last tick, if it has cached one. -/
theorem stores_coherent_iff (d : Devices) (cached : Option Nat) (es : List ConsoleEvent) :
    Meets Translation.next Translation.Coherent ⟨frameOf d.disp.video.pageTableVid0, cached⟩
        (emitted consoleStep videoAccesses d es) ↔
      Meets (Translation.track consoleStep videoAccesses drawnPage)
        (Translation.SamePage videoAccesses drawnPage) (d, cached) es := by
  have hname (d : Devices) (e : ConsoleEvent) :
      Translation.finalName (frameOf d.disp.video.pageTableVid0) (videoAccesses d e) =
        frameOf (consoleStep d e).disp.video.pageTableVid0 := by
    rw [videoAccesses, finalName_accesses, ← consoleOps_run]
  exact Translation.meets_emitted hname videoAccesses_cases es

/-- Terminal 1 is served and prints, and `a` is typed on terminal 0 before the next tick. -/
def echoInBackground : List ConsoleEvent :=
  [.serve secondTerm, .write ['a'.toUInt8], .key 0x1E none]

/-- The `a` is written to the backing page of terminal 1. -/
theorem echo_leaks :
    ¬ ∀ (d : Devices) (es : List ConsoleEvent),
      Meets Translation.next Translation.Coherent ⟨frameOf d.disp.video.pageTableVid0, none⟩
        (emitted consoleStep videoAccesses d es) := by
  intro h
  exact absurd (h (boot fun _ => 0) echoInBackground) (by decide +kernel)

end Devices

end Ece391Kernel
