import Ece391Kernel.Kernel.DescriptorRuns

/-!
# What an open descriptor holds

A descriptor keeps what its last occupant left in it until `sys_open` has gone through the `switch`
on the file type, and that `switch` knows three types. Here the image may hold any type. Beside the
kernel we note for which entry each descriptor was last opened; `opens_lawful_iff` says that the
descriptors hold what these entries say exactly in the runs where each `sys_open` that gets as far
as the `switch` finds one of the three types.
-/

namespace Ece391Kernel

open Transition

/-- The operation table and the inode number that `sys_open` is to set for an entry. -/
def Dentry.fields (dentry : Dentry) : Option (Fot × Nat) :=
  if dentry.fileType = typeRtc then some (.rtc, 0xFFFFFFFF)
  else if dentry.fileType = typeDir then some (.dir, 0xFFFFFFFF)
  else if dentry.fileType = typeFile then some (.file, dentry.inodeNum)
  else none

theorem Dentry.fields_isSome_iff (dentry : Dentry) :
    (∃ fields, dentry.fields = some fields) ↔ dentry.fileType ≤ 2 := by
  simp only [fields, typeRtc, typeDir, typeFile]
  split_ifs with hrtc hdir hfile
  · exact ⟨fun _ => by omega, fun _ => ⟨_, rfl⟩⟩
  · exact ⟨fun _ => by omega, fun _ => ⟨_, rfl⟩⟩
  · exact ⟨fun _ => by omega, fun _ => ⟨_, rfl⟩⟩
  · constructor
    · intro h
      obtain ⟨fields, h⟩ := h
      cases h
    · intro h
      omega

/-- The kernel, and the entry for which each descriptor of each process was last opened. -/
structure Opens where
  kernel : Kernel
  opened : Nat → Nat → Option Dentry

namespace Kernel

variable {k : Kernel}

/-! ## One `sys_open` -/

/-- The `switch` on one of the three types. -/
theorem openAs_fields {dentry : Dentry} {fot : Fot} {inode : Nat}
    (hfields : dentry.fields = some (fot, inode)) (fd : Nat) (d : FileDesc) :
    ∃ dev, k.openAs fd { d with flags := 1, filePosition := 0 } dentry =
      ((fd : Int), { k with dev }.setDesc fd ⟨some fot, inode, 0, 1⟩) := by
  unfold openAs
  simp only [Dentry.fields] at hfields
  split_ifs at hfields ⊢ with hrtc hdir hfile
  all_goals
    cases hfields
    exact ⟨_, rfl⟩

/-- The `switch` on any other type. -/
theorem openAs_other {dentry : Dentry} (hfields : dentry.fields = none) (fd : Nat) (d : FileDesc) :
    k.openAs fd d dentry = ((fd : Int), k.setDesc fd d) := by
  unfold openAs
  simp only [Dentry.fields] at hfields
  split_ifs at hfields ⊢ with hrtc hdir hfile
  rfl

/-- What a `sys_open` that returns has done: nothing, or it has gone through the `switch`. -/
theorem sysOpen_split {filename : List UInt8} {r : Int × Kernel}
    (h : k.sysOpen filename = some r) :
    (k.fs.readDentryByName filename = some none ∨ k.TableFull k.getProcessNumber) ∧ r = (-1, k) ∨
      ∃ dentry fd, k.fs.readDentryByName filename = some (some dentry) ∧
        k.LowestFree k.getProcessNumber fd ∧
        r = k.openAs fd { k.currentPcb.fileDesc fd with flags := 1, filePosition := 0 } dentry := by
  cases sysOpen_by h with
  | missing hfound heq => exact .inl ⟨.inl hfound, heq⟩
  | full hfull heq => exact .inl ⟨.inr (firstClosed_full hfull), heq⟩
  | found dentry fd hfound hfree heq =>
      exact .inr ⟨dentry, fd, hfound, firstClosed_lowest hfree, heq⟩

/-! ## Runs -/

/-- Note the entry that a successful open found. -/
def noteOpened (fs : FileSystem) (opened : Nat → Nat → Option Dentry) (e : DescEvent) :
    Nat → Nat → Option Dentry :=
  match e.call with
  | .openFile filename =>
      match fs.readDentryByName filename with
      | some (some dentry) =>
          if e.ret = -1 then opened
          else Function.update opened e.process
            (Function.update (opened e.process) e.ret.toNat (some dentry))
      | some none => opened
      | none => opened
  | .close _ => opened
  | .read _ _ _ => opened
  | .write _ _ _ => opened

/-- One call by one of the running processes. -/
def openStep (running : Nat → Prop) (s : Opens) (e : DescEvent) (s' : Opens) : Prop :=
  running e.process ∧
    (∃ k₀, Resumed s.kernel k₀ e.process ∧ k₀.doCall e.call = some (e.ret, s'.kernel)) ∧
    s'.opened = noteOpened s.kernel.fs s.opened e

/-- A descriptor has the table and the inode number for an entry. -/
def OpenedFor (d : FileDesc) (dentry : Dentry) : Prop :=
  ∃ fot, d.fotPtr = some fot ∧ dentry.fields = some (fot, d.inode)

/-- Descriptors 0 and 1 are those of the terminal, and each of 2 to 7 that has its flags set holds
what the entry says for which it was opened. -/
structure LiveTable (k : Kernel) (opened : Nat → Option Dentry) (process : Nat) : Prop where
  stdin : (k.desc process 0).flags = 1 ∧ (k.desc process 0).fotPtr = some .stdin
  stdout : (k.desc process 1).flags = 1 ∧ (k.desc process 1).fotPtr = some .stdout
  files : ∀ fd, 2 ≤ fd → fd < 8 → (k.desc process fd).flags = 0 ∨
    (k.desc process fd).flags = 1 ∧
      ∃ dentry, opened fd = some dentry ∧ OpenedFor (k.desc process fd) dentry

/-- What a `sys_open` may do: fail and change no descriptor, or set all fields of the one it
returns for the entry that it found. -/
def OpenLaw (s : Opens) (e : DescEvent) (filename : List UInt8) (s' : Opens) : Prop :=
  e.ret = -1 ∧ SameDescs s.kernel s'.kernel ∨
    ∃ (fd : Nat) (dentry : Dentry) (fot : Fot) (inode : Nat), e.ret = fd ∧
      s.kernel.fs.readDentryByName filename = some (some dentry) ∧
      dentry.fields = some (fot, inode) ∧
      s'.kernel.desc e.process fd = ⟨some fot, inode, 0, 1⟩ ∧
      OnlyDesc s.kernel s'.kernel e.process fd

/-- An open obeys its law, and after any call all live descriptors hold what they should. -/
def Lawful (running : Nat → Prop) (s : Opens) (e : DescEvent) (s' : Opens) : Prop :=
  (∀ filename, e.call = .openFile filename → OpenLaw s e filename s') ∧
    ∀ p, running p → LiveTable s'.kernel (s'.opened p) p

/-- An open that finds an entry and a free descriptor finds one of the three types. -/
def TypeKnown (s : Opens) (e : DescEvent) : Prop :=
  ∀ filename dentry, e.call = .openFile filename →
    s.kernel.fs.readDentryByName filename = some (some dentry) →
    s.kernel.TableFull e.process ∨ dentry.fileType ≤ 2

section Steps

variable {running : Nat → Prop} {s s' : Opens} {e : DescEvent} {opened : Nat → Option Dentry}
  {process : Nat}

/-! ## Tables under the calls -/

/-- What an open descriptor of a live table holds. -/
def HoldsEntry (opened : Option Dentry) (fot : Option Fot) (inode : Nat) : Prop :=
  ∃ dentry, opened = some dentry ∧ ∃ fot', fot = some fot' ∧ dentry.fields = some (fot', inode)

theorem LiveTable.table (h : k.LiveTable opened process) :
    k.DescTable (fun fd => HoldsEntry (opened fd)) process :=
  ⟨h.stdin, h.stdout, h.files⟩

theorem DescTable.live (h : k.DescTable (fun fd => HoldsEntry (opened fd)) process) :
    k.LiveTable opened process :=
  ⟨h.stdin, h.stdout, h.files⟩

/-- A descriptor that `sys_open` has filled for an entry of a known type. -/
theorem LiveTable.openFile {k' : Kernel} {all : Nat → Nat → Option Dentry} {fd inode : Nat}
    {dentry : Dentry} {fot : Fot} (h : k.LiveTable (all process) process) (hlo : 2 ≤ fd)
    (hfields : dentry.fields = some (fot, inode))
    (hown : k'.desc k.getProcessNumber fd = ⟨some fot, inode, 0, 1⟩)
    (honly : OnlyDesc k k' k.getProcessNumber fd) :
    k'.LiveTable ((Function.update all k.getProcessNumber
      (Function.update (all k.getProcessNumber) fd (some dentry))) process) process := by
  refine (h.table.openFile hlo honly hown (fun hprocess => ?_) fun fd' hne => ?_).live
  · rw [hprocess, Function.update_self]
    exact ⟨dentry, Function.update_self .., fot, rfl, hfields⟩
  · refine congrArg HoldsEntry ?_
    by_cases hprocess : process = k.getProcessNumber
    · rw [hprocess, Function.update_self, Function.update_of_ne fun hfd => hne ⟨hprocess, hfd⟩]
    · rw [Function.update_of_ne hprocess]

/-! ## One call -/

/-- The processes that run all have live tables. -/
def TablesLive (running : Nat → Prop) (s : Opens) : Prop :=
  ∀ p, running p → LiveTable s.kernel (s.opened p) p

theorem Resumed.live {k₀ : Kernel} (hr : Resumed k k₀ process) {q : Nat}
    (h : k.LiveTable opened q) : k₀.LiveTable opened q :=
  (h.table.same fun p fd => hr.desc p fd).live

theorem Resumed.full {k₀ : Kernel} (hr : Resumed k k₀ process)
    (h : k₀.TableFull k₀.getProcessNumber) : k.TableFull process := by
  intro fd hlo hhi
  rw [← hr.desc, ← hr.running]
  exact h fd hlo hhi

/-- A descriptor that is free when the process runs again was free before. -/
theorem Resumed.not_full {k₀ : Kernel} (hr : Resumed k k₀ process) {fd : Nat}
    (h : k₀.LowestFree k₀.getProcessNumber fd) : ¬ k.TableFull process := by
  intro hfull
  have hfree := h.free
  rw [hr.running, hr.desc] at hfree
  exact hfull fd h.lo h.hi hfree

/-- An open that fails notes nothing. -/
theorem noteOpened_failed (fs : FileSystem) (all : Nat → Nat → Option Dentry) (process : Nat)
    (filename : List UInt8) : noteOpened fs all ⟨process, .openFile filename, -1⟩ = all := by
  simp only [noteOpened]
  split <;> rfl

/-- An open that succeeds notes the entry. -/
theorem noteOpened_found {fs : FileSystem} {filename : List UInt8} {dentry : Dentry}
    (hfound : fs.readDentryByName filename = some (some dentry))
    (all : Nat → Nat → Option Dentry) (process fd : Nat) :
    noteOpened fs all ⟨process, .openFile filename, fd⟩ = Function.update all process
      (Function.update (all process) fd (some dentry)) := by
  have hret : ¬ ((fd : Int) = -1) := by omega
  simp only [noteOpened, hfound, if_neg hret, Int.toNat_natCast]

/-- The `switch` returns the descriptor, whatever the type. -/
theorem openAs_ret (k : Kernel) (fd : Nat) (d : FileDesc) (dentry : Dentry) :
    (k.openAs fd { d with flags := 1, filePosition := 0 } dentry).1 = fd := by
  cases hfields : dentry.fields with
  | none => rw [openAs_other hfields]
  | some fields =>
      obtain ⟨dev, hopen⟩ := openAs_fields (k := k) hfields fd d
      rw [hopen]

/-- An open is lawful exactly when a free descriptor meets one of the three types. -/
theorem Resumed.openFile_lawful {k₀ k' : Kernel} {ret : Int} {filename : List UInt8}
    (h : TablesLive running s) (hr : Resumed s.kernel k₀ process)
    (hcall : k₀.sysOpen filename = some (ret, k')) :
    Lawful running s ⟨process, .openFile filename, ret⟩
      ⟨k', noteOpened s.kernel.fs s.opened ⟨process, .openFile filename, ret⟩⟩ ↔
    TypeKnown s ⟨process, .openFile filename, ret⟩ := by
  rcases sysOpen_split hcall with ⟨hfails, heq⟩ | ⟨dentry, fd, hfound, hlowest, heq⟩
  · -- nothing was opened
    cases heq
    rw [noteOpened_failed]
    constructor
    · intro _ filename' dentry hname hfound
      cases hname
      rcases hfails with hnone | hfull
      · rw [hr.fs, hfound] at hnone
        cases hnone
      · exact .inl (hr.full hfull)
    · intro _
      refine ⟨fun filename' _ => .inl ⟨rfl, fun q fd => hr.desc q fd⟩, fun p hp => ?_⟩
      exact hr.live (h p hp)
  · have hret : ret = fd := (congrArg Prod.fst heq).trans (openAs_ret k₀ fd _ dentry)
    have hne : ¬ ((fd : Int) = -1) := by omega
    subst hret
    rw [hr.fs] at hfound
    constructor
    · intro hlawful filename' dentry' hname hfound'
      cases hname
      rcases hlawful.1 filename rfl with ⟨hfailed, -⟩ | ⟨_, _, fot, inode, -, hread, hfields, -⟩
      · exact absurd hfailed hne
      · rw [hread] at hfound'
        cases hfound'
        exact .inr ((Dentry.fields_isSome_iff _).1 ⟨_, hfields⟩)
    · intro hknown
      rcases hknown filename dentry rfl hfound with hfull | htype
      · exact absurd hfull (hr.not_full hlowest)
      · obtain ⟨⟨fot, inode⟩, hfields⟩ := (Dentry.fields_isSome_iff dentry).2 htype
        obtain ⟨dev, hopen⟩ := openAs_fields (k := k₀) hfields fd (k₀.currentPcb.fileDesc fd)
        obtain rfl : k' = ({ k₀ with dev } : Kernel).setDesc fd ⟨some fot, inode, 0, 1⟩ :=
          congrArg Prod.snd (heq.trans hopen)
        have hown : (({ k₀ with dev } : Kernel).setDesc fd ⟨some fot, inode, 0, 1⟩).desc
            k₀.getProcessNumber fd = ⟨some fot, inode, 0, 1⟩ := by
          rw [setDesc_desc, if_pos ⟨rfl, rfl⟩]
        have honly : OnlyDesc k₀ (({ k₀ with dev } : Kernel).setDesc fd ⟨some fot, inode, 0, 1⟩)
            k₀.getProcessNumber fd := by
          have hset := setDesc_onlyDesc ({ k₀ with dev } : Kernel) fd ⟨some fot, inode, 0, 1⟩
          exact ⟨hset.others, hset.fs⟩
        refine ⟨fun filename' hname => ?_, fun p hp => ?_⟩
        · cases hname
          have honly' := hr.only honly
          rw [hr.running] at hown honly'
          exact .inr ⟨fd, dentry, fot, inode, rfl, hfound, hfields, hown, honly'⟩
        · have hlive := (hr.live (h p hp)).openFile hlowest.lo hfields hown honly
          rw [hr.running] at hlive
          rw [noteOpened_found hfound]
          exact hlive

/-- A call that is no open is lawful when it keeps live tables live. -/
theorem Lawful.of_live {k' : Kernel} {call : DescCall} {ret : Int}
    (hcall : ∀ filename, call ≠ .openFile filename)
    (hlive : ∀ p, running p → k'.LiveTable (s.opened p) p)
    (hnote : noteOpened s.kernel.fs s.opened ⟨process, call, ret⟩ = s.opened) :
    Lawful running s ⟨process, call, ret⟩
      ⟨k', noteOpened s.kernel.fs s.opened ⟨process, call, ret⟩⟩ ↔
    TypeKnown s ⟨process, call, ret⟩ := by
  rw [hnote]
  constructor
  · intro _ filename _ hname
    exact absurd hname (hcall filename)
  · intro _
    exact ⟨fun filename hname => absurd hname (hcall filename), hlive⟩

/-- Where all tables are live, a call is lawful exactly when it is no open of an unknown type. -/
theorem openStep_lawful_iff (h : TablesLive running s) (hstep : openStep running s e s') :
    Lawful running s e s' ↔ TypeKnown s e := by
  obtain ⟨k', opened'⟩ := s'
  obtain ⟨process, call, ret⟩ := e
  obtain ⟨-, ⟨k₀, hr, hcall⟩, hnote⟩ := hstep
  dsimp only at hr hcall hnote
  subst hnote
  cases call with
  | openFile filename => exact hr.openFile_lawful h hcall
  | close fd =>
      refine Lawful.of_live (fun _ hname => by cases hname) (fun p hp => ?_) rfl
      exact ((hr.live (h p hp)).table.close (sysClose_spec hcall)).live
  | read fd buf nbytes =>
      simp only [doCall, Option.map_eq_some_iff] at hcall
      obtain ⟨r, hread, heq⟩ := hcall
      cases heq
      refine Lawful.of_live (fun _ hname => by cases hname) (fun p hp => ?_) rfl
      exact ((hr.live (h p hp)).table.read (sysRead_spec hread)).live
  | write fd buf nbytes =>
      refine Lawful.of_live (fun _ hname => by cases hname) (fun p hp => ?_) rfl
      exact ((hr.live (h p hp)).table.same (sysWrite_same hcall).1).live

end Steps

/-! ## Whole runs -/

/-- From fresh tables on, the calls of a run are all lawful exactly when each `sys_open` that finds
an entry and a free descriptor finds one of the three types. -/
theorem opens_lawful_iff (running : Nat → Prop) {s₀ s : Opens} {es : List DescEvent}
    (hfresh : ∀ p, running p → s₀.kernel.FreshTable p) :
    Run (fun s e s' => openStep running s e s' ∧ Lawful running s e s') s₀ es s ↔
      Run (Guarded TypeKnown (openStep running)) s₀ es s := by
  have hlaw : ∀ s e s', TablesLive running s → openStep running s e s' →
      (Lawful running s e s' ↔ TypeKnown s e) :=
    fun _ _ _ h hstep => openStep_lawful_iff h hstep
  have hkeep : ∀ s e s', Lawful running s e s' → TablesLive running s' :=
    fun _ _ _ hlawful => hlawful.2
  exact run_law_iff hlaw hkeep fun p hp => ((hfresh p hp).table _).live

/-- A call by the process that is running, with nothing in between. -/
theorem openStep_after (k : Kernel) (running : Nat → Prop) (opened : Nat → Nat → Option Dentry)
    (e : DescEvent) (hrunning : running e.process) (hprocess : k.getProcessNumber = e.process)
    (h : (k.doCall e.call).map Prod.fst = some e.ret) :
    openStep running ⟨k, opened⟩ e ⟨k.afterCall e.call, noteOpened k.fs opened e⟩ :=
  ⟨hrunning, ⟨k, ⟨rfl, rfl, hprocess⟩, doCall_eq h⟩, rfl⟩

/-- The first process opens its own program, which is a regular file. -/
theorem opens_lawful_iff_shell : ∃ s : Opens,
    Run (fun s e s' => openStep (fun p => p = 0) s e s' ∧ Lawful (fun p => p = 0) s e s')
      ⟨newShell, fun _ _ => none⟩ [⟨0, .openFile shellName, 2⟩] s := by
  have hstep := openStep_after newShell (fun p => p = 0) (fun _ _ => none)
    ⟨0, .openFile shellName, 2⟩ rfl (by decide) (by decide)
  refine ⟨_, (opens_lawful_iff (fun p => p = 0) ?_).2 (.single ⟨?_, hstep⟩)⟩
  · intro p hp
    subst hp
    exact newShell_fresh rfl
  · intro filename dentry hname hfound
    cases hname
    have hlookup := shellDirectory.readDentryByName_eq shellName
    rw [show newShell.fs = shellFs from rfl, hlookup, Option.some_inj] at hfound
    exact .inr (shellDirectory.lookup_type_le hfound)

/-- The small image with file type 3 in its directory entry. -/
def oddFs : FileSystem := smallFs ((96, 3) :: shellBytes)

/-- `sys_open` returns descriptor 2 for it, with flags 1 and the NULL table that was there. -/
theorem odd_type_opened : ¬ ∀ (running : Nat → Prop) (s₀ s : Opens) (es : List DescEvent),
    (∀ p, running p → s₀.kernel.FreshTable p) → Run (openStep running) s₀ es s →
    Run (fun s e s' => openStep running s e s' ∧ Lawful running s e s') s₀ es s := by
  intro hall
  have hfound : oddFs.readDentryByName shellName = some (some ⟨shellName, 3, 0⟩) := by
    decide +kernel
  have hstep := openStep_after { newShell with fs := oddFs } (fun p => p = 0) (fun _ _ => none)
    ⟨0, .openFile shellName, 2⟩ rfl (by decide) (by decide +kernel)
  have hrun := hall (fun p => p = 0) _ _ _ (fun p hp => ?_) (.single hstep)
  · cases hrun with
    | cons hlawful _ =>
        rcases hlawful.2.1 shellName rfl with
          ⟨hfailed, -⟩ | ⟨_, dentry, fot, inode, -, hread, hfields, -⟩
        · cases hfailed
        · have hread' : oddFs.readDentryByName shellName = some (some dentry) := hread
          rw [hfound] at hread'
          cases hread'
          cases hfields
  · subst hp
    exact newShell_fresh rfl

end Kernel

end Ece391Kernel
