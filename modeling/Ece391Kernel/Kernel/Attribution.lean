import Ece391Kernel.Kernel.Scheduling

/-!
# The terminal of a program and of its parent

`sys_execute` takes the terminal of a new program from the display and not from its parent.
`attributed_iff` is the exact condition on the runs after the start-up in which every program that
is not a root shell has the terminal of its parent all along.
-/

namespace Ece391Kernel

open Transition

variable {k k' : Kernel}

/-- The kernel, and the slots that still hold one of the three root shells. -/
@[ext] structure Rooted where
  kernel : Kernel
  root : Nat → Bool

/-- The root shells when the start-up is over. -/
def Rooted.start (k : Kernel) : Rooted := ⟨k, fun process => process < 3⟩

/-- A root shell is gone when it halts; the base shell does not. -/
def noteRoot (s : Rooted) : KernelEvent → Nat → Bool
  | .halt _ _ =>
      if s.kernel.getProcessNumber = 0 then s.root
      else Function.update s.root s.kernel.getProcessNumber false
  | _ => s.root

/-- A step of the kernel. -/
def rootStep (s : Rooted) (e : KernelEvent) (s' : Rooted) : Prop :=
  KernelStep s.kernel e s'.kernel ∧ s'.root = noteRoot s e

/-- The terminal that a PCB names. -/
def Kernel.term (k : Kernel) (process : Nat) : Nat := (k.pcb process).termNumber

/-- A live process that is not a root shell. -/
def Rooted.Program (s : Rooted) (q : Nat) : Prop :=
  s.kernel.procArr q ≠ .free ∧ s.root q = false

instance (s : Rooted) (q : Nat) : Decidable (s.Program q) := inferInstanceAs (Decidable (_ ∧ _))

/-- Every program has the terminal of its parent. -/
def Attributed (s : Rooted) : Prop :=
  ∀ q, q < maxProcesses → s.Program q →
    s.kernel.term q = s.kernel.term (s.kernel.pcb q).parentPid

instance (s : Rooted) : Decidable (Attributed s) :=
  inferInstanceAs (Decidable (∀ q, q < maxProcesses → _))

/-- A program is started while the terminal of its parent is displayed, in a slot that no program
of another terminal names as its parent. -/
def Inherits (s : Rooted) : KernelEvent → Prop
  | .execute _ => ∀ n, n < maxProcesses → Kernel.FirstFree s.kernel.procArr n →
      (s.kernel.getProcessNumber = n ∨
        s.kernel.term s.kernel.getProcessNumber = s.kernel.dev.term.curTermNum) ∧
      ∀ q, q < maxProcesses → s.Program q → (s.kernel.pcb q).parentPid = n →
        s.kernel.term q = s.kernel.dev.term.curTermNum
  | _ => True

instance (s : Rooted) (e : KernelEvent) : Decidable (Inherits s e) :=
  match e with
  | .execute _ => inferInstanceAs (Decidable (∀ n, n < maxProcesses → _))
  | .own _ | .halt _ _ | .tick _ _ _ => inferInstanceAs (Decidable True)

/-- All shells are launched, and root shells are live. -/
structure RootsOk (s : Rooted) : Prop where
  complete : missingShell s.kernel = none
  init : s.kernel.schedArrInit = true
  live : ∀ q, s.root q = true → s.kernel.procArr q ≠ .free

variable {s s' : Rooted} {e : KernelEvent}

/-! ## One step -/

theorem SamePcbs.term (h : SamePcbs k.pcb k'.pcb) (q : Nat) : k'.term q = k.term q := by
  obtain ⟨fileDesc, heq⟩ := h q
  rw [Kernel.term, Kernel.term, heq]

theorem SamePcbs.parentPid (h : SamePcbs k.pcb k'.pcb) (q : Nat) :
    (k'.pcb q).parentPid = (k.pcb q).parentPid := by
  obtain ⟨fileDesc, heq⟩ := h q
  rw [heq]

/-- Programs stay attributed when none is new and the PCBs differ only in their descriptors. -/
theorem Attributed.same (h : Attributed s) (hpcb : SamePcbs s.kernel.pcb s'.kernel.pcb)
    (hprogram : ∀ q, s'.Program q → s.Program q) : Attributed s' := by
  intro q hlt hq
  rw [hpcb.term, hpcb.parentPid, hpcb.term]
  exact h q hlt (hprogram q hq)

theorem missingShell_congr (h : k'.shellsRunning = k.shellsRunning) :
    missingShell k' = missingShell k := by
  rw [missingShell, missingShell, h]

/-- What a step other than `sys_execute` does to the process table. -/
structure Fewer (s s' : Rooted) : Prop where
  ok : RootsOk s'
  pcb : SamePcbs s.kernel.pcb s'.kernel.pcb
  program : ∀ q, s'.Program q → s.Program q

theorem rootStep_own (h : RootsOk s) {event : OwnEvent} (hstep : rootStep s (.own event) s') :
    Fewer s s' := by
  obtain ⟨hnext, hroot⟩ := hstep
  have hsame := ownStep_sameSched ⟨event, hnext⟩
  refine ⟨⟨?_, ?_, fun q hq => ?_⟩, hsame.pcb, fun q hq => ?_⟩
  · rw [missingShell_congr hsame.shellsRunning]
    exact h.complete
  · rw [hsame.init]
    exact h.init
  · rw [hroot] at hq
    rw [hsame.procArr]
    exact h.live q hq
  · rw [Rooted.Program, hsame.procArr, hroot] at hq
    exact hq

theorem rootStep_tick (h : RootsOk s) {esp ebp : Nat} {l : Launch}
    (hstep : rootStep s (.tick esp ebp l) s') : Fewer s s' := by
  obtain ⟨hnext, hroot⟩ := hstep
  have hticked := tick_complete h.complete hnext
  have hpcb := hticked.pcb h.init
  refine ⟨⟨?_, hticked.init, fun q hq => ?_⟩, ?_, fun q hq => ?_⟩
  · rw [missingShell_congr hticked.shellsRunning]
    exact h.complete
  · rw [hroot] at hq
    rw [hticked.procArr]
    exact h.live q hq
  · rw [hpcb]
    exact samePcbs_refl _
  · rw [Rooted.Program, hticked.procArr, hroot] at hq
    exact hq

theorem rootStep_halt (h : RootsOk s) {status : UInt8} {callerEbp : Nat}
    (hstep : rootStep s (.halt status callerEbp) s') : Fewer s s' := by
  obtain ⟨hnext, hroot⟩ := hstep
  dsimp only [noteRoot] at hroot
  by_cases hbase : s.kernel.getProcessNumber = 0
  · rw [if_pos hbase] at hroot
    rw [Rooted.ext (Kernel.haltNext_base hbase hnext) hroot]
    exact ⟨h, samePcbs_refl _, fun _ hq => hq⟩
  · rw [if_neg hbase] at hroot
    have hreaped := haltNext_reaped hbase hnext
    refine ⟨⟨?_, ?_, fun q hq => ?_⟩, hreaped.pcb, fun q hq => ?_⟩
    · rw [missingShell_congr hreaped.shellsRunning]
      exact h.complete
    · rw [hreaped.init]
      exact h.init
    · have hne : q ≠ s.kernel.getProcessNumber := by
        rintro rfl
        rw [hroot, Function.update_self] at hq
        cases hq
      rw [hroot, Function.update_of_ne hne] at hq
      rw [hreaped.procArr, Function.update_of_ne hne]
      exact h.live q hq
    · obtain ⟨hlive, hnot⟩ := hq
      have hne : q ≠ s.kernel.getProcessNumber := by
        rintro rfl
        rw [hreaped.procArr, Function.update_self] at hlive
        exact hlive rfl
      rw [hreaped.procArr, Function.update_of_ne hne] at hlive
      rw [hroot, Function.update_of_ne hne] at hnot
      exact ⟨hlive, hnot⟩

section Started

variable {n q : Nat} {cmd : Command} {frames : Nat → UInt8}

theorem started_term_self : (k.started n cmd frames).term n = k.dev.term.curTermNum := by
  simp only [Kernel.term, Kernel.started, Function.update_self, Kernel.newPcb]

theorem started_term_of_ne (hq : q ≠ n) : (k.started n cmd frames).term q = k.term q := by
  simp only [Kernel.term, Kernel.started, Function.update_of_ne hq]

theorem started_parentPid_self :
    ((k.started n cmd frames).pcb n).parentPid = k.getProcessNumber := by
  simp only [Kernel.started, Function.update_self, Kernel.newPcb]

theorem started_parentPid_of_ne (hq : q ≠ n) :
    ((k.started n cmd frames).pcb q).parentPid = (k.pcb q).parentPid := by
  simp only [Kernel.started, Function.update_of_ne hq]

theorem started_program_of_ne (hq : q ≠ n) :
    Rooted.Program ⟨s.kernel.started n cmd frames, s.root⟩ q ↔ s.Program q := by
  simp only [Rooted.Program, Kernel.started, Function.update_of_ne hq]

variable (hfirst : Kernel.FirstFree s.kernel.procArr n)

include hfirst

/-- When all programs are attributed after the start of one, the condition was met. -/
theorem started_inherits {args : ExecArgs} (hroot : s.root n = false)
    (hattr : Attributed ⟨s.kernel.started n cmd frames, s.root⟩) : Inherits s (.execute args) := by
  intro m hlt hm
  obtain rfl := hm.eq hfirst
  constructor
  · by_cases hcaller : s.kernel.getProcessNumber = m
    · exact .inl hcaller
    · have hnew := hattr m hlt ⟨by simp [Kernel.started], hroot⟩
      rw [started_term_self, started_parentPid_self, started_term_of_ne hcaller] at hnew
      exact .inr hnew.symm
  · intro q hlt' hq hparent
    have hne : q ≠ m := by
      rintro rfl
      exact hq.1 hfirst.free
    have hold := hattr q hlt' ((started_program_of_ne hne).2 hq)
    rw [started_term_of_ne hne, started_parentPid_of_ne hne, hparent, started_term_self] at hold
    exact hold

/-- Under the condition the new program has the terminal of its parent, and so has every program
whose parent's slot it took. -/
theorem started_attributed {args : ExecArgs} (hattr : Attributed s)
    (hguard : Inherits s (.execute args)) :
    Attributed ⟨s.kernel.started n cmd frames, s.root⟩ := by
  obtain ⟨hcaller, hchildren⟩ := hguard n hfirst.lt hfirst
  intro q hlt hq
  dsimp only
  by_cases hqn : q = n
  · subst hqn
    rw [started_parentPid_self, started_term_self]
    by_cases hown : s.kernel.getProcessNumber = q
    · rw [hown, started_term_self]
    · rw [started_term_of_ne hown]
      exact (hcaller.resolve_left hown).symm
  · have hq' := (started_program_of_ne hqn).1 hq
    rw [started_term_of_ne hqn, started_parentPid_of_ne hqn]
    by_cases hparent : (s.kernel.pcb q).parentPid = n
    · rw [hparent, started_term_self]
      exact hchildren q hlt hq' hparent
    · rw [started_term_of_ne hparent]
      exact hattr q hlt hq'

end Started

/-- The new program is attributed, and all the others stay so, exactly under the condition. -/
theorem rootStep_execute (h : RootsOk s) (hattr : Attributed s) {args : ExecArgs}
    (hstep : rootStep s (.execute args) s') :
    RootsOk s' ∧ (Attributed s' ↔ Inherits s (.execute args)) := by
  obtain ⟨hnext, hroot⟩ := hstep
  obtain ⟨k', root'⟩ := s'
  obtain ⟨-, n, cmd, frames, hfirst, heq⟩ := Kernel.executeNext_some hnext
  dsimp only at heq hroot
  subst heq hroot
  have hnotRoot : s.root n = false := by
    by_contra hroot
    exact h.live n (Bool.not_eq_false _ ▸ hroot) hfirst.free
  refine ⟨⟨h.complete, h.init, fun q hq => ?_⟩, started_inherits hfirst hnotRoot,
    started_attributed hfirst hattr⟩
  show Function.update s.kernel.procArr n .running q ≠ .free
  by_cases hqn : q = n
  · rw [hqn, Function.update_self]
    simp
  · rw [Function.update_of_ne hqn]
    exact h.live q hq

/-! ## Whole runs -/

/-- A step keeps the root shells live, and the programs attributed exactly when it meets the
condition. -/
theorem rootStep_iff (h : RootsOk s) (hattr : Attributed s) (hstep : rootStep s e s') :
    RootsOk s' ∧ (Attributed s' ↔ Inherits s e) := by
  have hfewer : Fewer s s' → Inherits s e → RootsOk s' ∧ (Attributed s' ↔ Inherits s e) :=
    fun hf hguard => ⟨hf.ok, fun _ => hguard, fun _ => hattr.same hf.pcb hf.program⟩
  cases e with
  | own event => exact hfewer (rootStep_own h hstep) trivial
  | execute args => exact rootStep_execute h hattr hstep
  | halt status callerEbp => exact hfewer (rootStep_halt h hstep) trivial
  | tick esp ebp l => exact hfewer (rootStep_tick h hstep) trivial

/-- When the start-up is over, the only live processes are the root shells. -/
theorem start_rootsOk {waiting : Nat → Option Sched} (hup : ShellsReady k waiting) :
    RootsOk (.start k) ∧ Attributed (.start k) := by
  have hready := ready_of_shellsReady hup
  refine ⟨⟨hready.complete, hready.init, fun q hq => ?_⟩, fun q hlt hq => ?_⟩
  · exact (hready.rep.shells q (of_decide_eq_true hq)).1
  · have hge : ¬ q < 3 := of_decide_eq_false hq.2
    exact absurd (hready.rep.taken q (by omega) hlt hq.1) List.not_mem_nil

/-- After the start-up every program has the terminal of its parent in all states of a run, if and
only if each program is started while the terminal of its parent is displayed, in a slot that no
program of another terminal names as its parent. -/
theorem attributed_iff {k₀ : Kernel} {waiting : Nat → Option Sched} (hup : ShellsReady k₀ waiting)
    (es : List KernelEvent) (s : Rooted) :
    Attributed (.start k₀) ∧ (Run (Within Attributed rootStep) (.start k₀) es s ↔
      Run (Guarded Inherits rootStep) (.start k₀) es s) := by
  obtain ⟨hok, hattr⟩ := start_rootsOk hup
  exact ⟨hattr, run_within_iff (I := RootsOk) (fun _ _ _ h ha hstep => rootStep_iff h ha hstep) hok
    hattr⟩

/-- A step that meets the condition, if it is possible. -/
def nextInherits (s : Rooted) (e : KernelEvent) : Option Rooted :=
  if Inherits s e then (s.kernel.next e).map fun k' => ⟨k', noteRoot s e⟩ else none

theorem nextInherits_run {es : List KernelEvent} (h : replay nextInherits s es = some s') :
    Run (Guarded Inherits rootStep) s es s' := by
  refine (replay_run h).mono fun s e s' hnext => ?_
  unfold nextInherits at hnext
  split at hnext
  · next hguard =>
    obtain ⟨k', hk', rfl⟩ := Option.map_eq_some_iff.1 hnext
    exact ⟨hguard, hk', rfl⟩
  · cases hnext

/-- The shell of terminal 0 executes a shell while terminal 0 is displayed. -/
theorem attributed_iff_once :
    ∃ k₀ s, Run (Within Attributed rootStep) (.start k₀) executeOnce s := by
  have hdefined : (bootedShells.bind fun k₀ =>
      replay nextInherits (.start k₀) executeOnce).isSome = true := by decide +kernel
  obtain ⟨s, hs⟩ := Option.isSome_iff_exists.1 hdefined
  obtain ⟨k₀, hboot, hrun⟩ := Option.bind_eq_some_iff.1 hs
  obtain ⟨waiting, hup⟩ := bootedShells_ready hboot
  exact ⟨k₀, s, (attributed_iff hup executeOnce s).2.2 (nextInherits_run hrun)⟩

/-- While terminal 0 is displayed, the shell of terminal 1 executes a shell. -/
theorem child_misattributed : ¬ ∀ (k₀ : Kernel) (waiting : Nat → Option Sched)
    (es : List KernelEvent) (s : Rooted), ShellsReady k₀ waiting → Run rootStep (.start k₀) es s →
    Attributed s := by
  intro h
  have hdefined : (bootedShells.bind fun k₀ => (k₀.next (.execute (bareLaunch 0 0).args)).filter
      fun k => ¬ Attributed ⟨k, fun process => process < 3⟩).isSome = true := by decide +kernel
  obtain ⟨k, hk⟩ := Option.isSome_iff_exists.1 hdefined
  simp only [Option.bind_eq_some_iff, Option.filter_eq_some_iff, decide_eq_true_eq] at hk
  obtain ⟨k₀, hboot, hexec, hbad⟩ := hk
  obtain ⟨waiting, hup⟩ := bootedShells_ready hboot
  exact hbad (h k₀ waiting [.execute (bareLaunch 0 0).args] _ hup (.single ⟨hexec, rfl⟩))

end Ece391Kernel
