import Ece391Kernel.Boot.Paging
import Ece391Kernel.Devices.Mapping
import Ece391Kernel.Kernel.UserPointers
import Ece391Kernel.Kernel.Steps

/-!
# What a system call stores

A call of a process stores on its user page and, if it prints, has `video_mem` reach the screen of
the terminal in service: `Contained`. A `sys_execute` that starts a program stores in the frame of
the new process alone.
-/

namespace Ece391Kernel

open Transition

/-- The entry of `video_mem`. -/
def Devices.videoEntry (d : Devices) : Nat := d.disp.video.pageTableVid0

/-- The physical address lies in the frame of the process. -/
def InFrameOf (q x : Nat) : Prop := 0x800000 + q * 0x400000 ≤ x ∧ x < 0x800000 + (q + 1) * 0x400000

instance (q x : Nat) : Decidable (InFrameOf q x) := inferInstanceAs (Decidable (_ ∧ _))

theorem InFrameOf.unique {q r x : Nat} (h : InFrameOf q x) (h' : InFrameOf r x) : q = r := by
  obtain ⟨hlo, hhi⟩ := h
  obtain ⟨hlo', hhi'⟩ := h'
  omega

namespace Devices

/-- Printing leaves the entry alone or has it name the screen of the terminal in service. -/
theorem puts_videoEntry (d : Devices) (s : List UInt8) :
    (d.puts s).videoEntry = d.videoEntry ∨
      (d.puts s).videoEntry = vidEntry d.term.termInService d.term.curTermNum := by
  rcases List.eq_nil_or_concat s with rfl | ⟨s', c, rfl⟩
  · exact .inl rfl
  · refine .inr ?_
    have hlast : d.puts (s' ++ [c]) = (d.puts s').putc c := List.foldl_append ..
    have hmapped := putc_mapped (d.puts s') c
    rw [Mapped] at hmapped
    rw [List.concat_eq_append, hlast, videoEntry, hmapped]
    show vidEntry (d.puts s').term.termInService (d.puts s').term.curTermNum = _
    rw [puts_term]

theorem rtcWrite_videoEntry (d : Devices) (freq : Option Int) (nbytes : Int) :
    (d.rtcWrite freq nbytes).2.videoEntry = d.videoEntry ∨
      (d.rtcWrite freq nbytes).2.videoEntry = vidEntry d.term.termInService d.term.curTermNum := by
  unfold rtcWrite
  cases freq with
  | none => exact .inl rfl
  | some freq =>
      dsimp only
      split_ifs
      · exact .inl rfl
      · exact puts_videoEntry d _
      · split
        · exact puts_videoEntry d _
        · exact .inl rfl

theorem rtcClose_videoEntry (d : Devices) :
    d.rtcClose.2.videoEntry = d.videoEntry ∨
      d.rtcClose.2.videoEntry = vidEntry d.term.termInService d.term.curTermNum := by
  unfold rtcClose
  split_ifs
  · exact .inl rfl
  · exact puts_videoEntry d _

end Devices

namespace Kernel

variable {k k' : Kernel}

/-- The physical address lies on the page that the user page maps. -/
def OnUserPage (k : Kernel) (x : Nat) : Prop :=
  k.pageDirectory32 % 2 = 1 ∧ k.pageDirectory32 / fourMb * fourMb ≤ x ∧
    x < k.pageDirectory32 / fourMb * fourMb + fourMb

/-- With the page of a process mapped, this is its frame. -/
theorem OnUserPage.inFrame {q x : Nat} (h : k.OnUserPage x)
    (hpage : k.pageDirectory32 = frameEntry q) : InFrameOf q x := by
  obtain ⟨-, hlo, hhi⟩ := h
  rw [hpage, frameEntry_eq] at hlo hhi
  simp only [fourMb] at hlo hhi
  constructor
  · omega
  · omega

/-- A call by the process that runs, for itself. -/
structure Contained (k k' : Kernel) : Prop where
  own : k.OwnCall k'
  frames : ∀ x, k'.frames x = k.frames x ∨ k.OnUserPage x
  video : k'.dev.videoEntry = k.dev.videoEntry ∨
    k'.dev.videoEntry = vidEntry k.dev.term.termInService k.dev.term.curTermNum

theorem OwnCall.page (h : k.OwnCall k') : k'.pageDirectory32 = k.pageDirectory32 := by
  obtain ⟨dev, frames, dirLocation, fileDesc, -, rfl⟩ := h
  rfl

theorem OwnCall.terms (h : k.OwnCall k') : SameTerms k.dev k'.dev := by
  obtain ⟨dev, frames, dirLocation, fileDesc, hterms, rfl⟩ := h
  exact hterms

theorem Contained.refl (k : Kernel) : k.Contained k :=
  ⟨.refl k, fun _ => .inl rfl, .inl rfl⟩

theorem Contained.trans {k'' : Kernel} (h : k.Contained k') (h' : k'.Contained k'') :
    k.Contained k'' := by
  refine ⟨h.own.trans h'.own, ?_, ?_⟩
  · intro x
    rcases h'.frames x with hsame | hpage
    · rw [hsame]
      exact h.frames x
    · rw [OnUserPage, h.own.page] at hpage
      exact .inr hpage
  · rcases h'.video with hsame | hput
    · rw [hsame]
      exact h.video
    · rw [hput, h.own.terms.1, h.own.terms.2]
      exact .inr rfl

/-- Only devices change, and the entry of `video_mem` as by printing. -/
theorem Contained.of_dev {dev : Devices} (hterms : SameTerms k.dev dev)
    (hvideo : dev.videoEntry = k.dev.videoEntry ∨
      dev.videoEntry = vidEntry k.dev.term.termInService k.dev.term.curTermNum) :
    k.Contained { k with dev } :=
  ⟨.of_same hterms rfl, fun _ => .inl rfl, hvideo⟩

theorem Contained.setDesc (h : k.Contained k') (fd : Nat) (desc : FileDesc) :
    k.Contained (k'.setDesc fd desc) :=
  ⟨h.own.setDesc fd desc, h.frames, h.video⟩

/-- Only the place in the directory differs. -/
theorem Contained.setDirLocation (h : k.Contained k') (dirLocation : Nat) :
    k.Contained { k' with dirLocation } :=
  ⟨h.own.trans (.of_same ⟨rfl, rfl⟩ rfl), h.frames, h.video⟩

/-- A store that returns is on the user page. -/
theorem storeUser_contained {addr : Nat} {bytes : List UInt8}
    (h : k.storeUser addr bytes = some k') : k.Contained k' := by
  by_cases hnil : bytes = []
  · rw [storeUser, if_pos hnil] at h
    cases h
    exact .refl k
  · rw [storeUser, if_neg hnil] at h
    obtain ⟨base, hbase, hk'⟩ := Option.bind_eq_some_iff.1 h
    cases hk'
    refine ⟨.of_same ⟨rfl, rfl⟩ rfl, ?_, .inl rfl⟩
    intro x
    dsimp only
    split_ifs with hin
    · unfold userAddress at hbase
      split_ifs at hbase with hpage
      obtain ⟨haddr, hend, hpresent⟩ := hpage
      have hpos : 0 < bytes.length := List.length_pos_iff.2 hnil
      rw [← Option.some.inj hbase] at hin
      refine .inr ⟨hpresent, by omega, by omega⟩
    · exact .inl rfl

/-! ## The descriptor calls -/

theorem terminalRead_contained {buf : Nat} {nbytes : Int} {r : Int × List UInt8 × Kernel}
    (h : k.terminalRead buf nbytes = some r) : k.Contained r.2.2 := by
  obtain ⟨n, m, -, hstore, rfl⟩ := terminalRead_stores h
  have hstored := storeUser_contained hstore
  obtain ⟨frames, rfl⟩ := storeUser_frame hstore
  exact hstored.trans (.of_dev ⟨rfl, rfl⟩ (.inl rfl))

theorem sysRead_contained {fd : Int} {buf : Nat} {nbytes : Int} {r : Int × List UInt8 × Kernel}
    (h : k.sysRead fd buf nbytes = some r) : k.Contained r.2.2 := by
  cases sysRead_by h with
  | refused _ heq =>
      rw [heq]
      exact .refl k
  | terminal _ h => exact terminalRead_contained h
  | screen _ heq =>
      rw [heq]
      exact .refl k
  | file _ h =>
      obtain ⟨val, bytes, m, -, hstore, rfl⟩ := fread_stores h
      exact (storeUser_contained hstore).setDesc _ _
  | clock _ h =>
      cases h
      exact .of_dev ⟨rfl, rfl⟩ (.inl rfl)
  | dir _ h =>
      obtain ⟨-, rfl⟩ | ⟨dentry, m, -, hstore, rfl⟩ := dirRead_stores h
      · exact (Contained.refl k).setDirLocation 0
      · exact (storeUser_contained hstore).setDirLocation _

theorem sysWrite_contained {fd : Int} {buf : Nat} {nbytes : Int} {r : Int × Kernel}
    (h : k.sysWrite fd buf nbytes = some r) : k.Contained r.2 := by
  have hown := sysWrite_own h
  cases sysWrite_by h with
  | refused _ _ heq =>
      rw [heq]
      exact .refl k
  | terminal _ bytes _ heq =>
      rw [heq] at hown ⊢
      exact ⟨hown, fun _ => .inl rfl, Devices.puts_videoEntry k.dev bytes⟩
  | clock _ freq _ heq =>
      rw [heq] at hown ⊢
      exact ⟨hown, fun _ => .inl rfl, Devices.rtcWrite_videoEntry k.dev freq nbytes⟩

theorem closeWith_contained (k : Kernel) (fot : Fot) : k.Contained (k.closeWith fot).2 := by
  have hown := closeWith_own k fot
  cases fot with
  | rtc => exact ⟨hown, fun _ => .inl rfl, Devices.rtcClose_videoEntry k.dev⟩
  | _ => exact .refl k

theorem sysClose_contained {fd : Int} {r : Int × Kernel} (h : k.sysClose fd = some r) :
    k.Contained r.2 := by
  cases sysClose_by h with
  | refused _ heq =>
      rw [heq]
      exact .refl k
  | kept fot _ _ heq =>
      rw [heq]
      exact closeWith_contained k fot
  | closed fot _ _ heq =>
      rw [heq]
      exact (closeWith_contained k fot).setDesc _ _

theorem sysOpen_contained {filename : List UInt8} {r : Int × Kernel}
    (h : k.sysOpen filename = some r) : k.Contained r.2 := by
  have hown := sysOpen_own h
  cases sysOpen_by h with
  | missing _ heq =>
      rw [heq]
      exact .refl k
  | full _ heq =>
      rw [heq]
      exact .refl k
  | found dentry fd _ _ heq =>
      rw [heq] at hown ⊢
      unfold openAs at hown ⊢
      split_ifs at hown ⊢
      · exact ⟨hown, fun _ => .inl rfl, .inl rfl⟩
      · exact ⟨hown, fun _ => .inl rfl, .inl rfl⟩
      · exact ⟨hown, fun _ => .inl rfl, .inl rfl⟩
      · exact ⟨hown, fun _ => .inl rfl, .inl rfl⟩

/-- Every descriptor call. -/
theorem doCall_contained {call : DescCall} {r : Int × Kernel} (h : k.doCall call = some r) :
    k.Contained r.2 := by
  cases call with
  | openFile filename => exact sysOpen_contained h
  | close fd => exact sysClose_contained h
  | read fd buf nbytes =>
      simp only [doCall, Option.map_eq_some_iff] at h
      obtain ⟨r', hread, rfl⟩ := h
      exact sysRead_contained hread
  | write fd buf nbytes => exact sysWrite_contained h

/-! ## `sys_getargs` and `sys_vidmap` -/

theorem sysGetargs_contained {buf : Nat} {nbytes : Int} {r : Int × List UInt8 × Kernel}
    (h : k.sysGetargs buf nbytes = some r) : k.Contained r.2.2 := by
  simp only [sysGetargs, Option.bind_eq_bind, Option.bind_eq_some_iff] at h
  obtain ⟨⟨val, bytes⟩, -, m, hstore, heq⟩ := h
  cases heq
  exact storeUser_contained hstore

/-- `sys_vidmap` has `video_mem` reach the screen of the caller's terminal. -/
theorem sysVidmap_mapped {screenStart : Nat} {r : Int × List UInt8 × Kernel}
    (h : k.sysVidmap screenStart = some r) : r.2.2 = k ∨
      ({ k with dev := k.dev.vidmap k.currentPcb.termNumber } : Kernel).Contained r.2.2 := by
  unfold sysVidmap at h
  split_ifs at h
  · cases h
    exact .inl rfl
  · simp only [Option.bind_eq_bind, Option.bind_eq_some_iff] at h
    obtain ⟨m, hstore, heq⟩ := h
    cases heq
    exact .inr (storeUser_contained hstore)

/-! ## Steps of a process by itself -/

/-- A step of a process by itself is a store of its program, leaves the frames alone, or is a
call. -/
theorem ownNext_frames {e : OwnEvent} (h : k.ownNext e = some k') :
    (∃ frames, e = .store frames ∧ k'.frames = frames) ∨ k'.frames = k.frames ∨
      k.Contained k' := by
  cases e with
  | store frames =>
      simp only [ownNext, Option.ite_none_right_eq_some, Option.some.injEq] at h
      obtain ⟨-, rfl⟩ := h
      exact .inl ⟨frames, rfl, rfl⟩
  | call call =>
      simp only [ownNext, Option.ite_none_right_eq_some, Option.map_eq_some_iff] at h
      obtain ⟨-, r, hcall, rfl⟩ := h
      exact .inr (.inr (doCall_contained hcall))
  | fail args =>
      simp only [ownNext, Option.ite_none_right_eq_some] at h
      obtain ⟨-, hfail⟩ := h
      split at hfail
      · next hexec =>
        obtain ⟨-, rfl⟩ := sysExecute_ret hexec
        cases hfail
        exact .inr (.inl rfl)
      · cases hfail
  | key scancode stray =>
      cases h
      exact .inr (.inl rfl)
  | _ =>
      simp only [ownNext, Option.ite_none_right_eq_some, Option.some.injEq] at h
      obtain ⟨-, rfl⟩ := h
      exact .inr (.inl rfl)

/-! ## `sys_execute` and `sys_halt` -/

/-- The loader stores in the frame of the new process. -/
theorem executeNext_contained {args : ExecArgs} (h : k.executeNext args = some k') :
    k.InFrame ∧ ∃ process cmd frames, FirstFree k.procArr process ∧
      k' = k.started process cmd frames ∧
      ∀ x, frames x = k.frames x ∨ InFrameOf process x := by
  unfold executeNext at h
  split_ifs at h with hframe
  refine ⟨hframe, ?_⟩
  split at h
  · next entry k₁ hexec =>
    cases h
    obtain ⟨process, cmd, bytes, loaded, hfirst, -, hstore, heq⟩ := sysExecute_loaded hexec
    refine ⟨process, cmd, loaded.frames, hfirst, heq, fun x => ?_⟩
    exact ((storeUser_contained hstore).frames x).imp id fun hpage => hpage.inFrame rfl
  · cases h

theorem closeAll_contained (h : k.closeAll = some k') : k.Contained k' :=
  closeAll_rel Contained.refl Contained.trans sysClose_contained h

/-- A process other than the base shell closes its descriptors and gives up its slot. -/
theorem haltNext_contained {status : UInt8} {callerEbp : Nat} (hne : k.getProcessNumber ≠ 0)
    (h : k.haltNext status callerEbp = some k') :
    ∃ closed, k.Contained closed ∧ k' = closed.halted k.getProcessNumber callerEbp := by
  unfold haltNext at h
  split_ifs at h
  dsimp only [sysHalt] at h
  rw [if_neg hne] at h
  cases hclosed : k.closeAll with
  | none =>
      rw [hclosed] at h
      cases h
  | some closed =>
      rw [hclosed] at h
      cases h
      exact ⟨closed, closeAll_contained hclosed, rfl⟩

end Kernel

end Ece391Kernel
