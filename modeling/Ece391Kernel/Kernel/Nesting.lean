import Ece391Kernel.Kernel.Steps

/-!
# Nested `sys_execute` and `sys_halt`

Between the start of a program and its `sys_halt`, with no tick in between, the program makes calls
of its own and runs further programs, each of which ends before its parent goes on. `Kept` is what
such a program leaves alone, and `nested_run_restores` says that after the halt everything is for
the parent as it was before its `sys_execute`.
-/

namespace Ece391Kernel

open Transition

namespace Kernel

variable {k k' : Kernel} {p : Nat}

/-- A `sys_execute` that starts a program. -/
def Enter (k k' : Kernel) : Prop := ∃ args, k.executeNext args = some k'

/-- A `sys_halt`. -/
def Leave (k k' : Kernel) : Prop := ∃ status callerEbp, k.haltNext status callerEbp = some k'

/-- From a successful `sys_execute` to the `sys_halt` of the program it started. -/
def NestedRun (k k' : Kernel) : Prop :=
  ∃ k₁ k₂, k.Enter k₁ ∧ Nested OwnStep Enter Leave k₁ k₂ ∧ k₂.Leave k'

/-! ## What a program leaves alone -/

/-- The process still runs, the process table, the page mapping and `tss.esp0` are the same, and so
are the PCBs of the live processes, up to the descriptors of the process itself. -/
structure Kept (k k' : Kernel) (p : Nat) : Prop where
  runs : k'.RunsOn p
  procArr : k'.procArr = k.procArr
  page : k'.pageDirectory32 = k.pageDirectory32
  esp0 : k'.esp0 = k.esp0
  others : ∀ q, q ≠ p → k.procArr q ≠ .free → k'.pcb q = k.pcb q
  own : ∃ fileDesc, k'.pcb p = { k.pcb p with fileDesc }

theorem Kept.refl (h : k.RunsOn p) : Kept k k p :=
  ⟨h, rfl, rfl, rfl, fun _ _ _ => rfl, (k.pcb p).fileDesc, rfl⟩

theorem Kept.trans {k'' : Kernel} (h : Kept k k' p) (h' : Kept k' k'' p) : Kept k k'' p := by
  obtain ⟨fileDesc, hown⟩ := h.own
  obtain ⟨fileDesc', hown'⟩ := h'.own
  refine ⟨h'.runs, h'.procArr.trans h.procArr, h'.page.trans h.page, h'.esp0.trans h.esp0,
    fun q hne hlive => ?_, fileDesc', ?_⟩
  · rw [h'.others q hne (by rw [h.procArr]; exact hlive), h.others q hne hlive]
  · rw [hown', hown]

/-- Only registers, devices and memory change. -/
theorem Kept.registers (h : k.RunsOn p) (hpcb : k'.pcb = k.pcb) (harr : k'.procArr = k.procArr)
    (hpage : k'.pageDirectory32 = k.pageDirectory32) (hesp0 : k'.esp0 = k.esp0)
    (hstack : k'.mode = .kernel → InStack p k'.esp) : Kept k k' p := by
  refine ⟨⟨h.lt, ?_, ?_, hesp0.trans h.esp0, hstack⟩, harr, hpage, hesp0, fun q _ _ => ?_,
    (k.pcb p).fileDesc, ?_⟩
  · rw [harr]
    exact h.live
  · rw [harr]
    exact h.base
  · rw [hpcb]
  · rw [hpcb]

/-- A descriptor call. -/
theorem Kept.ownCall (h : k.RunsOn p) (hmode : k.mode = .kernel) (hown : k.OwnCall k') :
    Kept k k' p := by
  have hnum := h.number hmode
  obtain ⟨dev, frames, dirLocation, fileDesc, -, rfl⟩ := hown
  refine ⟨⟨h.lt, h.live, h.base, h.esp0, h.stack⟩, rfl, rfl, rfl, fun q hne _ => ?_, fileDesc, ?_⟩
  · rw [hnum]
    exact Function.update_of_ne hne _ _
  · dsimp only [currentPcb]
    rw [hnum, Function.update_self]

/-- Every step of its own. -/
theorem OwnStep.kept (hstep : OwnStep k k') (h : k.RunsOn p) : Kept k k' p := by
  obtain ⟨e, hnext⟩ := hstep
  cases e with
  | trap esp ebp =>
      simp only [ownNext, Option.ite_none_right_eq_some, Option.some.injEq] at hnext
      obtain ⟨⟨-, hat⟩, rfl⟩ := hnext
      exact .registers h rfl rfl rfl rfl fun _ => h.inStack hat
  | iret =>
      simp only [ownNext, Option.ite_none_right_eq_some, Option.some.injEq] at hnext
      obtain ⟨-, rfl⟩ := hnext
      exact .registers h rfl rfl rfl rfl nofun
  | code esp ebp =>
      simp only [ownNext, Option.ite_none_right_eq_some, Option.some.injEq] at hnext
      obtain ⟨⟨-, hat⟩, rfl⟩ := hnext
      exact .registers h rfl rfl rfl rfl fun _ => h.inStack hat
  | store frames =>
      simp only [ownNext, Option.ite_none_right_eq_some, Option.some.injEq] at hnext
      obtain ⟨-, rfl⟩ := hnext
      exact .registers h rfl rfl rfl rfl h.stack
  | key scancode stray =>
      cases hnext
      exact .registers h rfl rfl rfl rfl h.stack
  | call call =>
      simp only [ownNext, Option.ite_none_right_eq_some, Option.map_eq_some_iff] at hnext
      obtain ⟨hmode, r, hcall, rfl⟩ := hnext
      exact .ownCall h hmode (doCall_own hcall)
  | fail args =>
      simp only [ownNext, Option.ite_none_right_eq_some] at hnext
      obtain ⟨-, hfail⟩ := hnext
      split at hfail
      · next hexec =>
        obtain ⟨-, rfl⟩ := sysExecute_ret hexec
        cases hfail
        exact .refl h
      · cases hfail

/-! ## Across a call -/

/-- The program that a successful `sys_execute` starts is running. -/
theorem started_runsOn {process : Nat} {cmd : Command} {frames : Nat → UInt8}
    (hbase : k.procArr 0 ≠ .free) (hfirst : FirstFree k.procArr process) :
    (k.started process cmd frames).RunsOn process := by
  have hne : (0 : Nat) ≠ process := by
    rintro rfl
    exact hbase hfirst.free
  refine ⟨hfirst.lt, ?_, ?_, rfl, nofun⟩
  · show Function.update k.procArr process .running process ≠ .free
    rw [Function.update_self]
    nofun
  · show Function.update k.procArr process .running 0 ≠ .free
    rw [Function.update_of_ne hne]
    exact hbase

/-- Everything that a nested run must leave as it was. -/
structure Restored (k k' : Kernel) (p : Nat) : Prop where
  procArr : k'.procArr = k.procArr
  page : k'.pageDirectory32 = k.pageDirectory32
  esp0 : k'.esp0 = k.esp0
  number : k'.getProcessNumber = k.getProcessNumber
  pcb : ∀ q, k.procArr q ≠ .free → k'.pcb q = k.pcb q

/-- When the program started by `sys_execute` keeps what it should, its `sys_halt` restores the
rest. -/
theorem call_restores {k₁ k₂ : Kernel} (h : k.RunsOn p) (henter : k.Enter k₁)
    (hbody : ∀ q, k₁.RunsOn q → Kept k₁ k₂ q) (hleave : k₂.Leave k') :
    Restored k k' p ∧ k'.mode = .kernel ∧ InStack p k'.esp := by
  obtain ⟨args, hexec⟩ := henter
  obtain ⟨⟨hkernel, -, hebp⟩, process, cmd, frames, hfirst, rfl⟩ := executeNext_some hexec
  obtain ⟨status, callerEbp, hhalt⟩ := hleave
  have hnum := h.number hkernel
  have hkept := hbody process (started_runsOn h.base hfirst)
  -- The child is not the base shell, so its `sys_halt` gives up the slot.
  have hmode : k₂.mode = .kernel := haltNext_mode hhalt
  have hchild : k₂.getProcessNumber = process := hkept.runs.number hmode
  have hne : process ≠ 0 := by
    rintro rfl
    exact h.base hfirst.free
  obtain ⟨closed, hclosed, rfl⟩ := haltNext_some (by rw [hchild]; exact hne) hhalt
  rw [hchild]
  obtain ⟨dev, frames', dirLocation, fileDesc, -, rfl⟩ := hclosed
  obtain ⟨fileDesc', hpcb⟩ := hkept.own
  have hstart : (k.started process cmd frames).pcb process =
      k.newPcb k.getProcessNumber k.pageDirectory32 cmd := Function.update_self _ _ _
  rw [hstart] at hpcb
  have hstack : InStack p (k.ebp + 8) := by
    rw [hnum] at hebp
    exact hebp
  simp only [halted, currentPcb, hchild, Function.update_self, hpcb, hkept.procArr]
  refine ⟨⟨?_, rfl, ?_, ?_, fun q hlive => ?_⟩, hmode, hstack⟩
  · show Function.update (Function.update k.procArr process .running) process .free = k.procArr
    rw [Function.update_idem, ← hfirst.free, Function.update_eq_self]
  · show stackTop k.getProcessNumber = k.esp0
    rw [hnum, h.esp0]
  · show processNumberOf (k.ebp + 8) = k.getProcessNumber
    rw [processNumberOf_inStack h.lt hstack, hnum]
  · have hqne : q ≠ process := by
      rintro rfl
      exact hlive hfirst.free
    show Function.update k₂.pcb process _ q = k.pcb q
    rw [Function.update_of_ne hqne, hkept.others q hqne]
    · exact Function.update_of_ne hqne _ _
    · show Function.update k.procArr process .running q ≠ .free
      rw [Function.update_of_ne hqne]
      exact hlive

/-- Whatever a program does, it keeps what it should. -/
theorem nested_kept (hrun : Nested OwnStep Enter Leave k k') (h : k.RunsOn p) : Kept k k' p := by
  have hall : ∀ p, k.RunsOn p → Kept k k' p := by
    refine Nested.rule (R := fun k k' => ∀ p, k.RunsOn p → Kept k k' p) ?_ ?_ ?_ ?_ hrun
    · intro k p hp
      exact .refl hp
    · intro k k₁ k₂ hfirst hsecond p hp
      have hkept := hfirst p hp
      exact hkept.trans (hsecond p hkept.runs)
    · intro k k' hstep p hp
      exact hstep.kept hp
    · intro k k₁ k₂ k' henter hbody hleave p hp
      obtain ⟨hrestored, -, hstack⟩ := call_restores hp henter hbody hleave
      refine ⟨⟨hp.lt, ?_, ?_, hrestored.esp0.trans hp.esp0, fun _ => hstack⟩, hrestored.procArr,
        hrestored.page, hrestored.esp0, fun q _ => hrestored.pcb q, (k.pcb p).fileDesc, ?_⟩
      · rw [hrestored.procArr]
        exact hp.live
      · rw [hrestored.procArr]
        exact hp.base
      · rw [hrestored.pcb p hp.live]
  exact hall p h

/-- After a properly nested run of a program, its parent finds the process table, the page mapping,
`tss.esp0`, its process number and the PCBs of all live processes, its own included, as they were
before its `sys_execute`. The calls made in between have their buffers in the caller's user page. -/
theorem nested_run_restores (hp : k.RunsOn p) (hrun : NestedRun k k') :
    Restored k k' p ∧ k'.pcb p = k.pcb p ∧ k'.RunsOn p := by
  obtain ⟨k₁, k₂, henter, hbody, hleave⟩ := hrun
  obtain ⟨hrestored, -, hstack⟩ :=
    call_restores hp henter (fun q hq => nested_kept hbody hq) hleave
  refine ⟨hrestored, hrestored.pcb p hp.live, hp.lt, ?_, ?_, hrestored.esp0.trans hp.esp0,
    fun _ => hstack⟩
  · rw [hrestored.procArr]
    exact hp.live
  · rw [hrestored.procArr]
    exact hp.base

/-- The base shell in the kernel, about to execute. -/
def executingShell : Kernel :=
  { newShell with
    procArr := fun p => if p = 0 then .running else .free
    pageDirectory32 := frameEntry 0
    esp0 := stackTop 0 }

/-- The command "shell". -/
def shellArgs : ExecArgs where
  command := fun i => shellName.getD i 0
  above := []
  fileBuf := []

/-- The base shell executes a shell, which enters the kernel, opens a file and halts. -/
theorem nested_run_restores_shell : ∃ k', NestedRun executingShell k' ∧
    Restored executingShell k' 0 := by
  have hp : executingShell.RunsOn 0 := ⟨by decide, by decide, by decide, rfl, fun _ => by decide⟩
  have hdefined : ((executingShell.executeNext shellArgs).bind fun k₁ =>
      (k₁.ownNext (.trap 0x7FDF00 0x7FDF80)).bind fun k₂ =>
      (k₂.ownNext (.call (.openFile shellName))).bind fun k₃ => k₃.haltNext 0 0).isSome = true := by
    decide +kernel
  obtain ⟨k', hk'⟩ := Option.isSome_iff_exists.1 hdefined
  simp only [Option.bind_eq_some_iff] at hk'
  obtain ⟨k₁, hexec, k₂, htrap, k₃, hopen, hhalt⟩ := hk'
  have hrun : NestedRun executingShell k' :=
    ⟨k₁, k₃, ⟨_, hexec⟩, .own ⟨_, htrap⟩ (.own ⟨_, hopen⟩ (.nil k₃)), 0, 0, hhalt⟩
  exact ⟨k', hrun, (nested_run_restores hp hrun).1⟩

end Kernel

end Ece391Kernel
