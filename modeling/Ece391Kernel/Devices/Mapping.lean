import Ece391Kernel.Devices.LineEditing

/-!
# The mapping behind the pointer of `sys_vidmap`

A program that called `sys_vidmap` draws through the page that entry 0 of `page_table_vid` names.
The entry is right when it names the screen of the terminal in service. Ticks and `putc` always
set it right; `keyboard_handler` restores the entry it found, also when it has switched terminals
since; `sys_vidmap` sets it for the terminal of the caller's PCB. `mapping_iff` is the condition
under which the entry stays right.
-/

namespace Ece391Kernel

open Transition

/-- What rewrites entry 0 of `page_table_vid` once the shells have started. -/
inductive MapEvent where
  | key (scancode : UInt8) (stray : Option Int)
  | tick (term : Fin 3)
  | putc (c : UInt8)
  | vidmap (procTerm : Fin 3)

/-- The make code of a key, as the entry of the table. -/
def pressed (scancode : UInt8) : Option UInt8 :=
  if scancode &&& 0x80 ≠ 0 then none else some (kbdusChar scancode)

namespace Devices

variable {d : Devices}

/-- The part of `sys_vidmap` that maps the screen of the caller's terminal. -/
def vidmap (d : Devices) (procTerm : Nat) : Devices :=
  { d with disp := d.disp.setVidEntry (vidEntry procTerm d.term.curTermNum) }

/-- One event. `vidmap` is a successful call by a process whose PCB names the terminal. -/
def mapStep (d : Devices) : MapEvent → Devices
  | .key scancode stray => d.keyboardHandler scancode stray
  | .tick term => d.serve term
  | .putc c => d.putc c
  | .vidmap procTerm => d.vidmap procTerm

/-- Entry 0 names the screen of the terminal in service. -/
def Mapped (d : Devices) : Prop :=
  d.disp.video.pageTableVid0 = vidEntry d.term.termInService d.term.curTermNum

instance (d : Devices) : Decidable d.Mapped := inferInstanceAs (Decidable (_ = _))

/-- An ALT-Fx key switches neither away from the terminal in service nor to it, and `sys_vidmap` is
called by a process of the terminal in service. -/
def KeepsMapping (d : Devices) : MapEvent → Prop
  | .key scancode _ => ∀ new ∈ (pressed scancode).bind d.switchTarget,
      d.term.termInService ≠ d.term.curTermNum ∧ d.term.termInService ≠ new
  | .vidmap procTerm => (procTerm : Nat) = d.term.termInService
  | _ => True

instance (d : Devices) (e : MapEvent) : Decidable (d.KeepsMapping e) :=
  match e with
  | .key scancode _ => inferInstanceAs (Decidable (∀ new ∈ (pressed scancode).bind d.switchTarget,
      d.term.termInService ≠ d.term.curTermNum ∧ d.term.termInService ≠ new))
  | .tick _ => inferInstanceAs (Decidable True)
  | .putc _ => inferInstanceAs (Decidable True)
  | .vidmap procTerm => inferInstanceAs (Decidable ((procTerm : Nat) = d.term.termInService))

/-! ## Entries name different screens -/

theorem vidEntry_eq_iff {s t cur : Nat} (hs : s < 3) (ht : t < 3) :
    vidEntry s cur = vidEntry t cur ↔ s = t := by
  constructor
  · intro h
    have hframe := congrArg frameOf h
    rw [frameOf_vidEntry hs, frameOf_vidEntry ht] at hframe
    exact screenBase_injective hframe
  · rintro rfl
    rfl

theorem vidEntry_eq_iff_shown {t cur new : Nat} (ht : t < 3) (hne : cur ≠ new) :
    vidEntry t cur = vidEntry t new ↔ t ≠ cur ∧ t ≠ new := by
  constructor
  · intro h
    have hframe := congrArg frameOf h
    rw [frameOf_vidEntry ht, frameOf_vidEntry ht] at hframe
    simp only [screenBase, vimMemIndex, fourKb] at hframe
    split_ifs at hframe <;> omega
  · rintro ⟨hcur, hnew⟩
    rw [vidEntry, vidEntry, if_neg hcur, if_neg hnew]

/-! ## One event -/

theorem switchTarget_low {c : UInt8} (hc : c < 0x7F) : d.switchTarget c = none := by
  simp only [switchTarget, requestedTerm_printable hc, Option.filter_none, ite_self]

theorem pressActions_cur (c : UInt8) :
    ((d.pressActions c).foldl LineState.apply d.lineState).cur =
      (d.switchTarget c).getD d.term.curTermNum := by
  unfold pressActions
  split_ifs with hback henter hc hctrl
  · rw [switchTarget_low (by rw [hback]; decide)]
    rfl
  · rw [switchTarget_low (by rw [henter]; decide)]
    rfl
  · rw [switchTarget_low hc.2]
    rfl
  · rw [switchTarget_low hc.2]
    exact LineState.push_cur _ _
  · cases d.switchTarget c <;> rfl

/-- The terminal displayed after a key. -/
theorem keyboardHandler_curTermNum (scancode : UInt8) (stray : Option Int) :
    (d.keyboardHandler scancode stray).term.curTermNum =
      (((pressed scancode).bind d.switchTarget).getD d.term.curTermNum) := by
  have hstep : (d.keyboardHandler scancode stray).term.curTermNum =
      ((d.keyActions (.key scancode stray)).foldl LineState.apply d.lineState).cur :=
    congrArg LineState.cur (d.lineState_step (.key scancode stray))
  rw [hstep]
  simp only [keyActions, pressed]
  split_ifs
  · rfl
  · exact pressActions_cur _

theorem mapStep_terms_in (h : d.TermsIn) (e : MapEvent) : (d.mapStep e).TermsIn := by
  cases e with
  | key scancode stray => exact keyboardHandler_terms_in h scancode stray
  | tick term => exact ⟨h.cur, term.isLt⟩
  | putc c => exact ⟨h.cur, h.service⟩
  | vidmap procTerm => exact ⟨h.cur, h.service⟩

/-- A key leaves the entry and the terminal in service as they were. -/
theorem key_mapped_iff (ht : d.TermsIn) (h : d.Mapped) (scancode : UInt8) (stray : Option Int) :
    (d.keyboardHandler scancode stray).Mapped ↔ d.KeepsMapping (.key scancode stray) := by
  show d.disp.video.pageTableVid0 = vidEntry d.term.termInService
    (d.keyboardHandler scancode stray).term.curTermNum ↔ _
  rw [h, keyboardHandler_curTermNum]
  cases htarget : (pressed scancode).bind d.switchTarget with
  | none => simp [KeepsMapping, htarget]
  | some new =>
      have hne : d.term.curTermNum ≠ new := by
        obtain ⟨c, -, hc⟩ := Option.bind_eq_some_iff.1 htarget
        unfold switchTarget at hc
        split_ifs at hc
        exact of_decide_eq_true (Option.filter_eq_some_iff.1 hc).2
      simp only [KeepsMapping, htarget, Option.getD_some, Option.mem_some_iff, forall_eq']
      exact vidEntry_eq_iff_shown ht.service hne

theorem putcBody_entry (d : Display) (c : UInt8) :
    (d.putcBody c).video.pageTableVid0 = d.video.pageTableVid0 := by
  have hwrite : (d.putcWrite c).2.video.pageTableVid0 = d.video.pageTableVid0 := by
    unfold Display.putcWrite
    split_ifs <;> rfl
  unfold Display.putcBody
  split
  · rw [Display.putcScroll_video, (Video.scroll_acts _).entry, hwrite]
  · exact hwrite

theorem putc_mapped (d : Devices) (c : UInt8) : (d.putc c).Mapped := by
  show (d.disp.putc d.term.termInService d.term.curTermNum c).video.pageTableVid0 = _
  rw [Display.putc_eq, Display.putcFinish_video, putcBody_entry]
  rfl

/-- An event keeps the entry right exactly when it meets `KeepsMapping`. -/
theorem mapStep_mapped_iff (ht : d.TermsIn) (h : d.Mapped) (e : MapEvent) :
    (d.mapStep e).Mapped ↔ d.KeepsMapping e := by
  cases e with
  | key scancode stray => exact key_mapped_iff ht h scancode stray
  | tick term => exact ⟨fun _ => trivial, fun _ => rfl⟩
  | putc c => exact ⟨fun _ => trivial, fun _ => putc_mapped d c⟩
  | vidmap procTerm => exact vidEntry_eq_iff procTerm.isLt ht.service

/-- The entry names the screen of the terminal in service after every event of a sequence exactly
when every event meets `KeepsMapping`. -/
theorem mapping_iff (ht : d.TermsIn) (h : d.Mapped) (es : List MapEvent) :
    Always mapStep Mapped d es ↔ Meets mapStep KeepsMapping d es :=
  always_iff_meets (I := TermsIn) (fun _ e ht => mapStep_terms_in ht e)
    (fun _ e ht h => mapStep_mapped_iff ht h e) es ht h

theorem boot_mapped (mem : Nat → UInt8) : (boot mem).Mapped := rfl

/-- A tick serves terminal 1, whose process maps the screen and prints, and `a` is typed. -/
theorem mapping_iff_served :
    Always mapStep Mapped (boot fun _ => 0)
      [.tick secondTerm, .vidmap secondTerm, .putc 0x61, .key 0x1E none] :=
  (mapping_iff (boot_terms_in _) (boot_mapped _) _).2
    ⟨trivial, rfl, trivial, by decide +kernel, trivial⟩

/-- ALT-F2 while terminal 0 is in service and displayed: the entry still names VGA memory, which
now shows terminal 1. -/
theorem mapping_goes_stale :
    ¬ ∀ (d : Devices) (es : List MapEvent), d.TermsIn → d.Mapped → Always mapStep Mapped d es := by
  intro h
  have hlast := (h (boot fun _ => 0) [.key 0x38 none, .key 0x3C none] (boot_terms_in _)
    (boot_mapped _)).last
  exact absurd hlast (by decide +kernel)

end Devices

end Ece391Kernel
