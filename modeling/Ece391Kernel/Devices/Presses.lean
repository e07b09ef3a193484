import Ece391Kernel.Devices.Keyboard

/-!
# The branch for a key press, key by key

The branch goes through ALT-Fx, the CTRL commands, Backspace, Enter and printing one after the
other, but a key reaches only one of them. What is proved about presses elsewhere starts from the
equations here.
-/

namespace Ece391Kernel

namespace Devices

variable {d : Devices} {c : UInt8}

/-! ## `print_me` and the flags -/

/-- The handler prints what is printable unless Ctrl is down. -/
theorem press_printMe (k : Keyboard) (c : UInt8) :
    (k.press c).printMe = decide (0x20 ≤ c ∧ c < 0x7F ∧ k.ctrlPressed = false) := by
  unfold Keyboard.press
  split_ifs <;> rfl

/-- A printable character is none of the other keys. -/
theorem ne_of_printable {key : UInt8} (hc : 0x20 ≤ c ∧ c < 0x7F)
    (hkey : key < 0x20 ∨ 0x7F ≤ key) : c ≠ key := by
  rintro rfl
  rcases hkey with hlow | hhigh
  · exact absurd hlow (UInt8.not_lt.2 hc.1)
  · exact absurd hc.2 (UInt8.not_lt.2 hhigh)

/-- A printable character sets none of the modifier keys. -/
theorem press_printable (k : Keyboard) (hc : 0x20 ≤ c ∧ c < 0x7F) :
    k.press c = { k with printMe := decide (k.ctrlPressed = false) } := by
  have hshift : c ≠ shiftKey := ne_of_printable hc (.inr (by decide))
  have hcaps : c ≠ capslockKey := ne_of_printable hc (.inr (by decide))
  have hctrl : c ≠ ctrlKey := ne_of_printable hc (.inr (by decide))
  have halt : c ≠ altKey := ne_of_printable hc (.inr (by decide))
  have hprint : decide (0x20 ≤ c ∧ c < 0x7F ∧ k.ctrlPressed = false) =
      decide (k.ctrlPressed = false) := by simp [hc]
  simp only [Keyboard.press, if_neg hshift, if_neg hcaps, if_neg hctrl, if_neg halt, hprint]

/-! ## Switching and commands -/

/-- ALT-Fx changes no more of the keyboard than its buffers. -/
theorem kbSwitch_kbd (cur : Nat) (c : UInt8) : ∃ termBufs kbdBuf,
    (d.kbSwitch cur c).kbd = { d.kbd with termBufs, kbdBuf } := by
  unfold kbSwitch
  split
  · split
    · exact ⟨_, _, rfl⟩
    · exact ⟨_, _, rfl⟩
  · exact ⟨_, _, rfl⟩

theorem kbSwitch_printMe (cur : Nat) (c : UInt8) :
    (d.kbSwitch cur c).kbd.printMe = d.kbd.printMe := by
  obtain ⟨_, _, hkbd⟩ := d.kbSwitch_kbd cur c
  rw [hkbd]

theorem requestedTerm_printable (hc : c < 0x7F) : requestedTerm c = none := by
  have h1 : c ≠ f1Key := by rintro rfl; exact absurd hc (by decide)
  have h2 : c ≠ f2Key := by rintro rfl; exact absurd hc (by decide)
  have h3 : c ≠ f3Key := by rintro rfl; exact absurd hc (by decide)
  simp only [requestedTerm, if_neg h1, if_neg h2, if_neg h3]

theorem kbSwitch_unrequested (h : requestedTerm c = none) (cur : Nat) :
    d.kbSwitch cur c = d := by
  unfold kbSwitch
  rw [h]
  cases d.kbd.altPressed <;> rfl

theorem rtcWrite_kbd (freq : Option Int) (nbytes : Int) :
    (d.rtcWrite freq nbytes).2.kbd = d.kbd := by
  unfold rtcWrite
  split
  · rfl
  · split_ifs
    · rfl
    · exact puts_kbd _ _
    · split
      · exact puts_kbd _ _
      · rfl

theorem rtcClose_kbd : d.rtcClose.2.kbd = d.kbd := by
  unfold rtcClose
  split
  · rfl
  · exact puts_kbd _ _

/-- A command changes no more of the keyboard than which frequency is tested next. -/
theorem kbCtrl_kbd (cur : Nat) (c : UInt8) (stray : Option Int) : ∃ freqIdx,
    (d.kbCtrl cur c stray).kbd = { d.kbd with freqIdx } := by
  unfold kbCtrl
  split_ifs
  · exact ⟨_, rfl⟩
  · exact ⟨_, (rtcWrite_kbd _ _).trans (puts_kbd _ _)⟩
  · exact ⟨_, rtcClose_kbd.trans (puts_kbd _ _)⟩
  · exact ⟨_, rfl⟩
  · exact ⟨_, rfl⟩

theorem kbCtrl_printMe (cur : Nat) (c : UInt8) (stray : Option Int) :
    (d.kbCtrl cur c stray).kbd.printMe = d.kbd.printMe := by
  obtain ⟨_, hkbd⟩ := d.kbCtrl_kbd cur c stray
  rw [hkbd]

theorem kbCtrl_of_released (h : d.kbd.ctrlPressed = false) (cur : Nat) (c : UInt8)
    (stray : Option Int) : d.kbCtrl cur c stray = d := by
  simp [kbCtrl, h]

/-- The commands are given with printable keys. -/
theorem kbCtrl_of_unprintable (hc : ¬ (0x20 ≤ c ∧ c < 0x7F)) (cur : Nat) (stray : Option Int) :
    d.kbCtrl cur c stray = d := by
  have hne : ∀ key : UInt8, 0x20 ≤ key ∧ key < 0x7F → c ≠ key := by
    rintro key hkey rfl
    exact hc hkey
  have hl : c ≠ 'l'.toUInt8 := hne _ (by decide)
  have h1 : c ≠ '1'.toUInt8 := hne _ (by decide)
  have h2 : c ≠ '2'.toUInt8 := hne _ (by decide)
  simp only [kbCtrl, if_neg hl, if_neg h1, if_neg h2, ite_self]

/-! ## The branch -/

/-- A printable key while Ctrl is not held. -/
theorem kbPress_print (hc : 0x20 ≤ c ∧ c < 0x7F) (hctrl : d.kbd.ctrlPressed = false) (cur : Nat)
    (stray : Option Int) : d.kbPress cur c stray =
      ({ d with kbd := d.kbd.press c } : Devices).kbPrint cur (d.kbd.shiftChar c) := by
  have hback : c ≠ backspaceKey := ne_of_printable hc (.inl (by decide))
  have henter : c ≠ enterKey := ne_of_printable hc (.inl (by decide))
  have hpress := press_printable d.kbd hc
  have hprint : (d.kbd.press c).printMe = true := by
    rw [hpress]
    exact decide_eq_true hctrl
  have hreleased : (d.kbd.press c).ctrlPressed = false := by
    rw [hpress]
    exact hctrl
  have hshift : (d.kbd.press c).shiftChar c = d.kbd.shiftChar c := by
    rw [hpress]
    rfl
  unfold kbPress
  dsimp only
  rw [kbSwitch_unrequested (requestedTerm_printable hc.2), kbCtrl_of_released hreleased,
    if_neg hback, if_neg henter, if_pos hprint, hshift]

/-- A printable key while Ctrl is held is at most a command. -/
theorem kbPress_command (hc : 0x20 ≤ c ∧ c < 0x7F) (hctrl : d.kbd.ctrlPressed = true) (cur : Nat)
    (stray : Option Int) : d.kbPress cur c stray =
      ({ d with kbd := d.kbd.press c } : Devices).kbCtrl cur c stray := by
  have hback : c ≠ backspaceKey := ne_of_printable hc (.inl (by decide))
  have henter : c ≠ enterKey := ne_of_printable hc (.inl (by decide))
  have hno : (({ d with kbd := d.kbd.press c } : Devices).kbCtrl cur c stray).kbd.printMe =
      false := by
    rw [kbCtrl_printMe, press_printMe, hctrl]
    simp
  unfold kbPress
  dsimp only
  rw [kbSwitch_unrequested (requestedTerm_printable hc.2), if_neg hback, if_neg henter, hno]
  exact if_neg Bool.false_ne_true

/-- Nothing is printed for a key that is not printable. -/
theorem kbPress_unprintable (hc : ¬ (0x20 ≤ c ∧ c < 0x7F)) (cur : Nat) (stray : Option Int) :
    d.kbPress cur c stray =
      let d := ({ d with kbd := d.kbd.press c } : Devices).kbSwitch cur c
      if c = backspaceKey then d.kbBackspace cur
      else if c = enterKey then d.kbEnter cur else d := by
  have hno : (({ d with kbd := d.kbd.press c } : Devices).kbSwitch cur c).kbd.printMe = false := by
    rw [kbSwitch_printMe, press_printMe]
    exact decide_eq_false fun h => hc ⟨h.1, h.2.1⟩
  unfold kbPress
  dsimp only at hno ⊢
  rw [kbCtrl_of_unprintable hc]
  generalize ({ d with kbd := d.kbd.press c } : Devices).kbSwitch cur c = d1 at hno ⊢
  have hnoBackspace : (d1.kbBackspace cur).kbd.printMe = false := hno
  have hnoEnter : (d1.kbEnter cur).kbd.printMe = false := hno
  by_cases hback : c = backspaceKey
  · have henter : ¬ c = enterKey := by
      rw [hback]
      decide
    rw [if_pos hback, if_neg henter, hnoBackspace, if_neg Bool.false_ne_true, if_pos hback]
  · rw [if_neg hback]
    by_cases henter : c = enterKey
    · rw [if_pos henter, hnoEnter, if_neg Bool.false_ne_true, if_neg hback]
    · rw [if_neg henter, hno, if_neg Bool.false_ne_true, if_neg hback]

theorem kbPress_backspace (cur : Nat) (stray : Option Int) :
    d.kbPress cur backspaceKey stray =
      ({ d with kbd := d.kbd.press backspaceKey } : Devices).kbBackspace cur := by
  have hrequested : requestedTerm backspaceKey = none := rfl
  rw [kbPress_unprintable (by decide), kbSwitch_unrequested hrequested]
  exact if_pos rfl

theorem kbPress_enter (cur : Nat) (stray : Option Int) : d.kbPress cur enterKey stray =
    ({ d with kbd := d.kbd.press enterKey } : Devices).kbEnter cur := by
  have hrequested : requestedTerm enterKey = none := rfl
  rw [kbPress_unprintable (by decide), kbSwitch_unrequested hrequested]
  rfl

/-- Any other key does at most switch terminals. -/
theorem kbPress_other (hback : c ≠ backspaceKey) (henter : c ≠ enterKey)
    (hc : ¬ (0x20 ≤ c ∧ c < 0x7F)) (cur : Nat) (stray : Option Int) : d.kbPress cur c stray =
      ({ d with kbd := d.kbd.press c } : Devices).kbSwitch cur c := by
  rw [kbPress_unprintable hc]
  exact (if_neg hback).trans (if_neg henter)

end Devices

end Ece391Kernel
