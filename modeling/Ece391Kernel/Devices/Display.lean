import Ece391Kernel.Devices.Video

/-!
# The output side of `lib.c`

`putc` and what it uses. `screen_x` and `screen_y` are shared by all terminals; every `putc`
first loads them from the cursor of the terminal in service (`cursorCheck`) and stores them back
at the end (`termCursorUpdate`). `Display.putc` is composed of these steps in the order of the
source, so that an interrupt between two of them can be modelled.

`putc_view` is the comparison with a private screen: for the terminal in service `putc` is
`Screen.putc`, and no other terminal's screen or cursor changes.
-/

namespace Ece391Kernel

/-- Conversion of an `int` to `uint32_t`. -/
def u32 (i : Int) : Nat := (i % 0x100000000).toNat

/-- Conversion of a `uint32_t` to `int`. -/
def i32 (n : Nat) : Int := if n < 0x80000000 then n else n - 0x100000000

@[simp] theorem u32_natCast {n : Nat} (h : n < 0x100000000) : u32 (n : Int) = n := by
  simp only [u32]
  omega

@[simp] theorem i32_of_lt {n : Nat} (h : n < 0x80000000) : i32 n = n :=
  if_pos h

/-- The globals behind the screen: the coordinates of `lib.c`, the cursor of each terminal
(`term_cursor_x`, `term_cursor_y`), the video memory, and the cursor location register of the
VGA controller. -/
structure Display where
  screenX : Int
  screenY : Int
  termCursorX : Nat → Nat
  termCursorY : Nat → Nat
  video : Video
  vgaCursor : Nat

/-- `VIM_MEM_INDEX | RW | PRESENT | USER`. -/
def vgaEntry : Nat := vimMemIndex ||| rwFlag ||| presentFlag ||| userFlag

/-- `(VIM_MEM_INDEX + (term + 1) * FOUR_KB) | RW | PRESENT | USER`. -/
def backingEntry (term : Nat) : Nat :=
  (vimMemIndex + (term + 1) * fourKb) ||| rwFlag ||| presentFlag ||| userFlag

/-- The entry that makes `video_mem` reach the screen of `term` while `cur` is displayed. -/
def vidEntry (term cur : Nat) : Nat := if term = cur then vgaEntry else backingEntry term

/-- Where the screen of `term` is kept while `cur` is displayed. -/
def screenBase (term cur : Nat) : Nat :=
  if term = cur then vimMemIndex else vimMemIndex + (term + 1) * fourKb

namespace Display

/-- `set_screen_coords`. -/
def setScreenCoords (d : Display) (x y : Int) : Display := { d with screenX := x, screenY := y }

/-- `update_cursor`: the two bytes sent to the cursor location registers. -/
def updateCursor (d : Display) (x y : Int) : Display :=
  { d with vgaCursor := u32 (y * numCols + x) % 0x10000 }

/-- Rewrite entry 0 of `page_table_vid`. -/
def setVidEntry (d : Display) (entry : Nat) : Display :=
  { d with video := { d.video with pageTableVid0 := entry } }

/-- `clear_char`. -/
def clearChar (d : Display) : Display :=
  { d with video := d.video.clearChar d.screenX d.screenY }

/-- `scroll`. -/
def scroll (d : Display) : Display := { d with video := d.video.scroll }

/-- `clear`. -/
def clear (d : Display) : Display := { d with video := d.video.clear }

/-- `cursor_check`: load the coordinates of the terminal in service and map its screen. The flag
says whether that terminal is displayed. -/
def cursorCheck (d : Display) (service cur : Nat) : Bool × Display :=
  let d := d.setScreenCoords (i32 (d.termCursorX service)) (i32 (d.termCursorY service))
  (service = cur, d.setVidEntry (vidEntry service cur))

/-- The cell write and the coordinate update of `putc`. The flag says that `scroll` is due. -/
def putcWrite (d : Display) (c : UInt8) : Bool × Display :=
  if isNewline c then
    if d.screenY = numRows - 1 then (true, d)
    else (false, d.setScreenCoords 0 (d.screenY + 1))
  else
    let video := d.video.putCell d.screenX d.screenY c
    let x := d.screenX + 1
    let y := if numCols - 1 < x then d.screenY + 1 else d.screenY
    let x := x.tmod numCols
    let y := y + x.tdiv numCols
    (numRows - 1 < y, { d with video, screenX := x, screenY := y })

/-- `scroll` and the coordinates that `putc` sets after it. -/
def putcScroll (d : Display) (c : UInt8) : Display :=
  if isNewline c then d.scroll.setScreenCoords 0 d.screenY
  else d.scroll.setScreenCoords 0 (numRows - 1)

/-- `term_cursor_update`. -/
def termCursorUpdate (d : Display) (service : Nat) : Display :=
  { d with
    termCursorX := Function.update d.termCursorX service (u32 d.screenX)
    termCursorY := Function.update d.termCursorY service (u32 d.screenY) }

/-- The end of `putc`: move the cursor of a displayed terminal and store the coordinates. -/
def putcFinish (d : Display) (service : Nat) (flag : Bool) : Display :=
  let d := if flag then d.updateCursor d.screenX d.screenY else d
  d.termCursorUpdate service

/-- `putc`, with `service` in service and `cur` displayed. -/
def putc (d : Display) (service cur : Nat) (c : UInt8) : Display :=
  let (flag, d) := d.cursorCheck service cur
  let (full, d) := d.putcWrite c
  let d := if full then d.putcScroll c else d
  d.putcFinish service flag

/-- `puts`, on the characters before the terminating NUL. -/
def puts (d : Display) (service cur : Nat) (s : List UInt8) : Display :=
  s.foldl (fun d c => d.putc service cur c) d

/-! ## The screens -/

/-- The logical screen of `term`: VGA memory or its backing page, and its cursor. -/
def view (d : Display) (cur term : Nat) : Screen :=
  ⟨d.video.page (screenBase term cur), d.termCursorX term, d.termCursorY term⟩

/-- Every terminal's cursor lies on the screen. -/
def CursorsIn (d : Display) : Prop :=
  ∀ term, term < 3 → d.termCursorX term ≤ 79 ∧ d.termCursorY term ≤ 24

end Display

/-! ## The three screens are different pages -/

theorem screenBase_aligned (term cur : Nat) : screenBase term cur % fourKb = 0 := by
  simp only [screenBase, vimMemIndex, fourKb]
  split <;> omega

theorem screenBase_injective {s t cur : Nat} (h : screenBase s cur = screenBase t cur) : s = t := by
  simp only [screenBase, vimMemIndex, fourKb] at h
  split at h <;> split at h <;> omega

theorem frameOf_vidEntry {term : Nat} (hterm : term < 3) (cur : Nat) :
    frameOf (vidEntry term cur) = screenBase term cur := by
  unfold vidEntry screenBase
  split
  · decide
  · obtain rfl | rfl | rfl : term = 0 ∨ term = 1 ∨ term = 2 := by omega
    all_goals decide

namespace Display

variable {d : Display}

/-! ## The steps of `putc` -/

/-- What the cell write and coordinate update do from coordinates on the screen. When `scroll`
is due the coordinates are not final; `putcScroll` sets them. -/
structure WriteSpec (d : Display) (x y : Nat) (c : UInt8) (full : Bool) (d' : Display) : Prop where
  full_iff : full = true ↔ nextY x y c = 25
  screenX : full = false → d'.screenX = nextX x c
  screenY : full = false → d'.screenY = nextY x y c
  scrollY : full = true → (d'.putcScroll c).screenY = 24
  termCursorX : d'.termCursorX = d.termCursorX
  termCursorY : d'.termCursorY = d.termCursorY
  acts : d.video.Acts d'.video (writePage x y c)

theorem putcWrite_spec {x y : Nat} {c : UInt8} (hx : x ≤ 79) (hy : y ≤ 24)
    (hdx : isNewline c = false → d.screenX = x) (hdy : d.screenY = y) :
    WriteSpec d x y c (d.putcWrite c).1 (d.putcWrite c).2 := by
  have hid : writePage x y c = if isNewline c then id else putCellPage x y c := by
    unfold writePage
    split <;> rfl
  unfold putcWrite
  by_cases hc : isNewline c = true
  · rw [if_pos hc] at hid ⊢
    have hacts := hid ▸ Video.acts_refl d.video
    by_cases hlast : d.screenY = numRows - 1
    -- In the last row the coordinates stay until `putcScroll` sets them.
    · rw [if_pos hlast]
      have hy24 : y = 24 := by
        simp only [numRows] at hlast
        omega
      refine ⟨by simp [nextY, hc, hy24], by simp, by simp, ?_, rfl, rfl, hacts⟩
      simp [putcScroll, hc, setScreenCoords, scroll, hdy, hy24]
    · rw [if_neg hlast]
      have hy24 : y ≠ 24 := by
        rintro rfl
        exact hlast (by simpa using hdy)
      refine ⟨by simpa [nextY, hc] using hy24, ?_, ?_, by simp, rfl, rfl, hacts⟩
      · simp [setScreenCoords, nextX, hc]
      · simp [setScreenCoords, nextY, hc, hdy]
  · rw [if_neg hc] at hid ⊢
    replace hdx := hdx (Bool.not_eq_true _ ▸ hc)
    have hacts := hid ▸ hdx ▸ hdy ▸ Video.put_cell_acts d.video hx hy c
    have hmod : (d.screenX + 1).tmod numCols = nextX x c := by
      rw [hdx, Int.tmod_eq_emod_of_nonneg (by omega)]
      simp [nextX, hc]
    have hdiv : ((nextX x c : Nat) : Int).tdiv numCols = 0 := by
      have := nextX_le x c
      rw [Int.tdiv_eq_ediv_of_nonneg (by omega)]
      simp only [numCols]
      omega
    have hrow : (if (numCols : Int) - 1 < d.screenX + 1 then d.screenY + 1 else d.screenY) =
        (nextY x y c : Nat) := by
      simp only [hdx, hdy, nextY, hc, numCols]
      split_ifs <;> first | omega | simp_all
    simp only [hmod, hdiv, hrow, Int.add_zero]
    have hle := nextY_le hy x c
    refine ⟨?_, fun _ => rfl, fun _ => rfl, ?_, rfl, rfl, hacts⟩
    · rw [decide_eq_true_iff]
      simp only [numRows]
      omega
    · intro _
      simp [putcScroll, hc, setScreenCoords]

/-- `putc` from a cursor on the screen: what happens to every part of the display. -/
structure PutcSpec (d : Display) (service cur : Nat) (c : UInt8) (d' : Display) : Prop where
  screenX : d'.screenX = (((d.view cur service).putc c).x : Nat)
  screenY : d'.screenY = (((d.view cur service).putc c).y : Nat)
  termCursorX : d'.termCursorX =
    Function.update d.termCursorX service ((d.view cur service).putc c).x
  termCursorY : d'.termCursorY =
    Function.update d.termCursorY service ((d.view cur service).putc c).y
  entry : d'.video.pageTableVid0 = vidEntry service cur
  page : d'.video.page (screenBase service cur) = ((d.view cur service).putc c).page
  page_ne : ∀ base, base % fourKb = 0 → base ≠ screenBase service cur →
    d'.video.page base = d.video.page base

theorem cursorCheck_screenX {service : Nat} (hx : d.termCursorX service ≤ 79) (cur : Nat) :
    (d.cursorCheck service cur).2.screenX = d.termCursorX service :=
  i32_of_lt (by omega)

theorem cursorCheck_screenY {service : Nat} (hy : d.termCursorY service ≤ 24) (cur : Nat) :
    (d.cursorCheck service cur).2.screenY = d.termCursorY service :=
  i32_of_lt (by omega)

@[simp] theorem putcFinish_video (d : Display) (service : Nat) (flag : Bool) :
    (d.putcFinish service flag).video = d.video := by
  cases flag <;> rfl

@[simp] theorem putcFinish_screenX (d : Display) (service : Nat) (flag : Bool) :
    (d.putcFinish service flag).screenX = d.screenX := by
  cases flag <;> rfl

@[simp] theorem putcFinish_screenY (d : Display) (service : Nat) (flag : Bool) :
    (d.putcFinish service flag).screenY = d.screenY := by
  cases flag <;> rfl

@[simp] theorem putcFinish_termCursorX (d : Display) (service : Nat) (flag : Bool) :
    (d.putcFinish service flag).termCursorX =
      Function.update d.termCursorX service (u32 d.screenX) := by
  cases flag <;> rfl

@[simp] theorem putcFinish_termCursorY (d : Display) (service : Nat) (flag : Bool) :
    (d.putcFinish service flag).termCursorY =
      Function.update d.termCursorY service (u32 d.screenY) := by
  cases flag <;> rfl

/-- The cell write and the scroll together, before the coordinates are stored back. -/
def putcBody (d : Display) (c : UInt8) : Display :=
  if (d.putcWrite c).1 then (d.putcWrite c).2.putcScroll c else (d.putcWrite c).2

theorem putc_eq (d : Display) (service cur : Nat) (c : UInt8) :
    d.putc service cur c = ((d.cursorCheck service cur).2.putcBody c).putcFinish service
      (d.cursorCheck service cur).1 := rfl

/-- From coordinates on the screen, `putcBody` is `Screen.putc` on the mapped page. -/
structure BodySpec (d : Display) (x y : Nat) (c : UInt8) (d' : Display) : Prop where
  screenX : ∀ p, d'.screenX = ((⟨p, x, y⟩ : Screen).putc c).x
  screenY : ∀ p, d'.screenY = ((⟨p, x, y⟩ : Screen).putc c).y
  termCursorX : d'.termCursorX = d.termCursorX
  termCursorY : d'.termCursorY = d.termCursorY
  acts : d.video.Acts d'.video fun p => ((⟨p, x, y⟩ : Screen).putc c).page

@[simp] theorem putcScroll_screenX (d : Display) (c : UInt8) : (d.putcScroll c).screenX = 0 := by
  unfold putcScroll
  split <;> rfl

@[simp] theorem putcScroll_video (d : Display) (c : UInt8) :
    (d.putcScroll c).video = d.video.scroll := by
  unfold putcScroll
  split <;> rfl

@[simp] theorem putcScroll_termCursorX (d : Display) (c : UInt8) :
    (d.putcScroll c).termCursorX = d.termCursorX := by
  unfold putcScroll scroll
  generalize d.video.scroll = video
  split <;> rfl

@[simp] theorem putcScroll_termCursorY (d : Display) (c : UInt8) :
    (d.putcScroll c).termCursorY = d.termCursorY := by
  unfold putcScroll scroll
  generalize d.video.scroll = video
  split <;> rfl

theorem putcBody_spec {x y : Nat} (hx : x ≤ 79) (hy : y ≤ 24) (hdx : d.screenX = x)
    (hdy : d.screenY = y) (c : UInt8) : BodySpec d x y c (d.putcBody c) := by
  have h := putcWrite_spec (c := c) hx hy (fun _ => hdx) hdy
  unfold putcBody
  cases hfull : (d.putcWrite c).1 with
  | false =>
      have hy' : nextY x y c ≠ 25 := fun heq => by simpa [hfull] using h.full_iff.2 heq
      refine ⟨fun p => ?_, fun p => ?_, h.termCursorX, h.termCursorY, h.acts.congr ?_⟩
      · rw [Screen.putc_of_ne (s := ⟨p, x, y⟩) hy']
        exact h.screenX hfull
      · rw [Screen.putc_of_ne (s := ⟨p, x, y⟩) hy']
        exact h.screenY hfull
      · rw [Screen.putc_of_ne (s := ⟨_, x, y⟩) hy']
  | true =>
      have hy' : nextY x y c = 25 := h.full_iff.1 hfull
      have hscroll := h.acts.trans (Video.scroll_acts (d.putcWrite c).2.video)
      refine ⟨fun p => ?_, fun p => ?_, ?_, ?_, ?_⟩
      · rw [Screen.putc_of_eq (s := ⟨p, x, y⟩) hy']
        simp
      · rw [Screen.putc_of_eq (s := ⟨p, x, y⟩) hy']
        exact h.scrollY hfull
      · simpa using h.termCursorX
      · simpa using h.termCursorY
      · simp only [if_true, putcScroll_video]
        refine hscroll.congr ?_
        rw [Screen.putc_of_eq (s := ⟨_, x, y⟩) hy']
        rfl

theorem putc_spec {service : Nat} (hservice : service < 3) (cur : Nat)
    (hx : d.termCursorX service ≤ 79) (hy : d.termCursorY service ≤ 24) (c : UInt8) :
    PutcSpec d service cur c (d.putc service cur c) := by
  have h := putcBody_spec hx hy (cursorCheck_screenX hx cur) (cursorCheck_screenY hy cur) c
  have hbounds := Screen.putc_in_bounds (s := d.view cur service) ⟨hx, hy⟩ c
  have hframe : frameOf (d.cursorCheck service cur).2.video.pageTableVid0 =
      screenBase service cur := frameOf_vidEntry hservice cur
  have hpage : ∀ base, (d.cursorCheck service cur).2.video.page base = d.video.page base :=
    fun _ => rfl
  rw [putc_eq]
  refine ⟨?_, ?_, ?_, ?_, ?_, ?_, ?_⟩
  · rw [putcFinish_screenX]
    exact h.screenX _
  · rw [putcFinish_screenY]
    exact h.screenY _
  · have hsx := h.screenX (d.view cur service).page
    rw [putcFinish_termCursorX, hsx, h.termCursorX, u32_natCast]
    · rfl
    · exact Nat.lt_of_le_of_lt hbounds.x (by decide)
  · have hsy := h.screenY (d.view cur service).page
    rw [putcFinish_termCursorY, hsy, h.termCursorY, u32_natCast]
    · rfl
    · exact Nat.lt_of_le_of_lt hbounds.y (by decide)
  · rw [putcFinish_video, h.acts.entry]
    rfl
  · rw [putcFinish_video, h.acts.page _ (screenBase_aligned service cur), hframe, if_pos rfl,
      hpage]
    rfl
  · intro base hbase hne
    rw [putcFinish_video, h.acts.page base hbase, hframe, if_neg hne, hpage]

/-- For the terminal in service `putc` is `Screen.putc`; no other terminal's screen or cursor
changes. -/
theorem putc_view {service : Nat} (hservice : service < 3) (cur : Nat) (hd : d.CursorsIn)
    (c : UInt8) (term : Nat) :
    (d.putc service cur c).view cur term =
      if term = service then (d.view cur term).putc c else d.view cur term := by
  have h := putc_spec hservice cur (hd service hservice).1 (hd service hservice).2 c
  by_cases hterm : term = service
  · subst hterm
    rw [if_pos rfl]
    apply Screen.ext
    · exact h.page
    · simp [view, h.termCursorX]
    · simp [view, h.termCursorY]
  · rw [if_neg hterm]
    apply Screen.ext
    · exact h.page_ne _ (screenBase_aligned term cur) fun heq => hterm (screenBase_injective heq)
    · simp [view, h.termCursorX, Function.update_of_ne hterm]
    · simp [view, h.termCursorY, Function.update_of_ne hterm]

theorem putc_cursors_in {service : Nat} (hservice : service < 3) (cur : Nat)
    (hd : d.CursorsIn) (c : UInt8) : (d.putc service cur c).CursorsIn := by
  intro term hterm
  have hview := putc_view hservice cur hd c term
  have hbounds := Screen.putc_in_bounds (s := d.view cur term)
    ⟨(hd term hterm).1, (hd term hterm).2⟩ c
  have hx := congrArg Screen.x hview
  have hy := congrArg Screen.y hview
  simp only [view] at hx hy
  rw [hx, hy]
  split
  · exact ⟨hbounds.x, hbounds.y⟩
  · exact hd term hterm

end Display

end Ece391Kernel
