import Ece391Kernel.Kernel.Scheduling

/-!
# The slots of the root shells

`get_next_proc` and `pit_handler` take slots 0 to 2 for the root shells of terminals 0 to 2, while
`sys_execute` gives out the lowest free slot and `sys_halt` protects the base shell only.
`roots_held_iff` is the exact condition on the runs from the first `sys_execute` on under which the
slots are as assumed, and then no tick switches to a process whose slot is free.
-/

namespace Ece391Kernel

open Transition

variable {k k' : Kernel}

/-- The kernel, the terminals whose root shell was launched, and the terminal whose root shell each
slot holds. -/
@[ext] structure Shells where
  kernel : Kernel
  launched : Nat → Bool
  holder : Nat → Option Nat

/-- The base shell was started in slot 0. -/
def Shells.start (k : Kernel) : Shells :=
  ⟨k, fun t => t = 0, fun process => if process = 0 then some 0 else none⟩

/-- The first free slot holds a new process. -/
def Shells.hold (s : Shells) (shell : Option Nat) : Nat → Option Nat :=
  match Kernel.findFree s.kernel.procArr 0 maxProcesses with
  | some process => Function.update s.holder process shell
  | none => s.holder

/-- Which terminals have launched their shell after an event. -/
def noteLaunched (s : Shells) : KernelEvent → Nat → Bool
  | .tick _ _ _ =>
      match missingShell s.kernel with
      | some t => Function.update s.launched t true
      | none => s.launched
  | _ => s.launched

/-- What the slots hold after an event. -/
def noteHolder (s : Shells) : KernelEvent → Nat → Option Nat
  | .own _ => s.holder
  | .execute _ => s.hold none
  | .halt _ _ =>
      if s.kernel.getProcessNumber = 0 then s.holder
      else Function.update s.holder s.kernel.getProcessNumber none
  | .tick _ _ _ =>
      match missingShell s.kernel with
      | some t => s.hold (some t)
      | none => s.holder

/-- A tick launches the shell that is missing. -/
def LaunchesMissing (k : Kernel) (e : KernelEvent) (k' : Kernel) : Prop :=
  match e with
  | .tick _ _ _ => missingShell k ≠ none → k'.mode = .user
  | _ => True

instance (k : Kernel) (e : KernelEvent) (k' : Kernel) : Decidable (LaunchesMissing k e k') :=
  match e with
  | .tick _ _ _ => inferInstanceAs (Decidable (missingShell k ≠ none → _))
  | .own _ | .execute _ | .halt _ _ => inferInstanceAs (Decidable True)

/-- A step of the kernel, where ticks launch the shells of terminals 1 and 2. -/
structure ShellStep (s : Shells) (e : KernelEvent) (s' : Shells) : Prop where
  next : KernelStep s.kernel e s'.kernel
  launches : LaunchesMissing s.kernel e s'.kernel
  launched : s'.launched = noteLaunched s e
  holder : s'.holder = noteHolder s e

/-- The root shell of each terminal that has launched it holds the slot of that number. -/
def RootsHeld (s : Shells) : Prop :=
  ∀ t, t < numTerms → s.launched t = true → s.holder t = some t ∧ s.kernel.procArr t ≠ .free

instance (s : Shells) : Decidable (RootsHeld s) :=
  inferInstanceAs (Decidable (∀ t, t < numTerms → _))

/-- A tick that launches a shell finds the slot of its number free and all lower ones in use, and a
root shell other than the base shell does not halt. -/
def KeepsRoots (s : Shells) : KernelEvent → Prop
  | .tick _ _ _ => ∀ t ∈ missingShell s.kernel, Kernel.FirstFree s.kernel.procArr t
  | .halt _ _ => s.kernel.getProcessNumber ≠ 0 → s.launched s.kernel.getProcessNumber = false
  | _ => True

instance (s : Shells) (e : KernelEvent) : Decidable (KeepsRoots s e) :=
  match e with
  | .tick _ _ _ => inferInstanceAs (Decidable (∀ t ∈ missingShell s.kernel, _))
  | .halt _ _ => inferInstanceAs (Decidable (_ → _))
  | .own _ | .execute _ => inferInstanceAs (Decidable True)

/-- The flags of the kernel say which shells were launched, and only those hold slots. -/
structure LaunchesOk (s : Shells) : Prop where
  base : s.launched 0 = true
  flags : s.launched 1 = s.kernel.shellsRunning 1 ∧ s.launched 2 = s.kernel.shellsRunning 2
  lt : ∀ t, s.launched t = true → t < numTerms
  holder : ∀ process t, s.holder process = some t → s.launched t = true

variable {s s' : Shells} {e : KernelEvent}

/-! ## One step -/

/-- A process that only gives up slots or changes nothing of the table keeps the flags. -/
theorem LaunchesOk.congr (h : LaunchesOk s)
    (hrunning : s'.kernel.shellsRunning = s.kernel.shellsRunning)
    (hlaunched : s'.launched = s.launched)
    (hholder : ∀ process t, s'.holder process = some t → s.holder process = some t) :
    LaunchesOk s' := by
  refine ⟨?_, ?_, fun t ht => ?_, fun process t ht => ?_⟩
  · rw [hlaunched]
    exact h.base
  · rw [hlaunched, hrunning]
    exact h.flags
  · rw [hlaunched] at ht
    exact h.lt t ht
  · rw [hlaunched]
    exact h.holder process t (hholder process t ht)

theorem shellStep_own (h : LaunchesOk s) (hheld : RootsHeld s) {event : OwnEvent}
    (hstep : ShellStep s (.own event) s') : LaunchesOk s' ∧ RootsHeld s' := by
  have hsame := ownStep_sameSched ⟨event, hstep.next⟩
  refine ⟨h.congr hsame.shellsRunning hstep.launched fun process t ht => ?_,
    fun t hlt ht => ?_⟩
  · rw [hstep.holder] at ht
    exact ht
  · rw [hstep.launched] at ht
    rw [hstep.holder, hsame.procArr]
    exact hheld t hlt ht

/-- The slot that a new process takes. -/
theorem hold_eq {n : Nat} (hfirst : Kernel.FirstFree s.kernel.procArr n) (shell : Option Nat) :
    s.hold shell = Function.update s.holder n shell := by
  rw [Shells.hold, hfirst.findFree_eq]

theorem shellStep_execute (h : LaunchesOk s) (hheld : RootsHeld s) {args : ExecArgs}
    (hstep : ShellStep s (.execute args) s') : LaunchesOk s' ∧ RootsHeld s' := by
  obtain ⟨-, n, cmd, frames, hfirst, heq⟩ := Kernel.executeNext_some hstep.next
  have hholder : s'.holder = Function.update s.holder n none := by
    rw [hstep.holder]
    exact hold_eq hfirst none
  have hlaunched : s'.launched = s.launched := hstep.launched
  refine ⟨h.congr (by rw [heq]; rfl) hlaunched fun process t ht => ?_, fun t hlt ht => ?_⟩
  · rw [hholder] at ht
    by_cases hn : process = n
    · rw [hn, Function.update_self] at ht
      cases ht
    · rw [Function.update_of_ne hn] at ht
      exact ht
  · rw [hlaunched] at ht
    obtain ⟨hshell, hlive⟩ := hheld t hlt ht
    -- the slot of a root shell is not free
    have hne : t ≠ n := by
      rintro rfl
      exact hlive hfirst.free
    rw [hholder, Function.update_of_ne hne, heq]
    refine ⟨hshell, ?_⟩
    show Function.update s.kernel.procArr n .running t ≠ .free
    rw [Function.update_of_ne hne]
    exact hlive

theorem shellStep_halt (h : LaunchesOk s) (hheld : RootsHeld s) {status : UInt8} {callerEbp : Nat}
    (hstep : ShellStep s (.halt status callerEbp) s') :
    LaunchesOk s' ∧ (RootsHeld s' ↔ KeepsRoots s (.halt status callerEbp)) := by
  have hlaunched : s'.launched = s.launched := hstep.launched
  have hholder := hstep.holder
  dsimp only [noteHolder] at hholder
  by_cases hbase : s.kernel.getProcessNumber = 0
  · rw [if_pos hbase] at hholder
    rw [Shells.ext (Kernel.haltNext_base hbase hstep.next) hlaunched hholder]
    exact ⟨h, fun _ hne => absurd hbase hne, fun _ => hheld⟩
  · rw [if_neg hbase] at hholder
    have hreaped := haltNext_reaped hbase hstep.next
    refine ⟨h.congr hreaped.shellsRunning hlaunched fun process t ht => ?_, fun hheld' _ => ?_,
      fun hguard t hlt ht => ?_⟩
    · rw [hholder] at ht
      by_cases hp : process = s.kernel.getProcessNumber
      · rw [hp, Function.update_self] at ht
        cases ht
      · rw [Function.update_of_ne hp] at ht
        exact ht
    · by_contra hroot
      have hroot' := Bool.not_eq_false _ ▸ hroot
      have hgone := (hheld' _ (h.lt _ hroot') (by rw [hlaunched]; exact hroot')).1
      rw [hholder, Function.update_self] at hgone
      cases hgone
    · rw [hlaunched] at ht
      have hne : t ≠ s.kernel.getProcessNumber := by
        rintro rfl
        rw [hguard hbase] at ht
        cases ht
      rw [hholder, hreaped.procArr, Function.update_of_ne hne, Function.update_of_ne hne]
      exact hheld t hlt ht

/-- A launch of the shell of terminal `t` in slot `n`. -/
structure NewShell (s s' : Shells) (t n : Nat) : Prop where
  first : Kernel.FirstFree s.kernel.procArr n
  terms : 1 ≤ t ∧ t < numTerms
  new : s.launched t = false
  launched : s'.launched = Function.update s.launched t true
  holder : s'.holder = Function.update s.holder n (some t)
  flags : s'.kernel.shellsRunning = Function.update s.kernel.shellsRunning t true
  procArr : s'.kernel.procArr = Function.update s.kernel.procArr n .running

theorem shellStep_launch (h : LaunchesOk s) {esp ebp t : Nat} {l : Launch}
    (hmissing : missingShell s.kernel = some t) (hstep : ShellStep s (.tick esp ebp l) s') :
    ∃ n, NewShell s s' t n := by
  obtain ⟨hlo, hhi, hrunning⟩ := missingShell_some hmissing
  have hmode := hstep.launches (by rw [hmissing]; nofun)
  obtain ⟨dev, n, cmd, frames, -, hfirst, heq⟩ :=
    pitHandler_user hmissing (next_tick hstep.next).2 hmode
  have hlaunched := hstep.launched
  have hholder := hstep.holder
  dsimp only [noteLaunched, noteHolder] at hlaunched hholder
  rw [hmissing] at hlaunched hholder
  dsimp only at hlaunched hholder
  rw [hold_eq hfirst] at hholder
  refine ⟨n, hfirst, ⟨by omega, hhi⟩, ?_, hlaunched, hholder, ?_, ?_⟩
  · obtain rfl | rfl : t = 1 ∨ t = 2 := by omega
    · rw [h.flags.1, hrunning]
    · rw [h.flags.2, hrunning]
  · rw [heq]
    rfl
  · rw [heq]
    rfl

section Launch

variable {t n : Nat} (hlaunch : NewShell s s' t n)

include hlaunch

theorem NewShell.launched_of {u : Nat} (hu : s.launched u = true) : s'.launched u = true := by
  rw [hlaunch.launched]
  by_cases hut : u = t
  · rw [hut, Function.update_self]
  · rw [Function.update_of_ne hut]
    exact hu

theorem NewShell.ok (h : LaunchesOk s) : LaunchesOk s' := by
  obtain ⟨hlo, hhi⟩ := hlaunch.terms
  simp only [numTerms] at hhi
  refine ⟨hlaunch.launched_of h.base, ?_, fun u hu => ?_, fun process u hu => ?_⟩
  · rw [hlaunch.launched, hlaunch.flags]
    obtain rfl | rfl : t = 1 ∨ t = 2 := by omega
    · exact ⟨rfl, h.flags.2⟩
    · exact ⟨h.flags.1, rfl⟩
  · rw [hlaunch.launched] at hu
    by_cases hut : u = t
    · rw [hut]
      exact hhi
    · rw [Function.update_of_ne hut] at hu
      exact h.lt u hu
  · rw [hlaunch.holder] at hu
    by_cases hp : process = n
    · rw [hp, Function.update_self] at hu
      cases hu
      rw [hlaunch.launched, Function.update_self]
    · rw [Function.update_of_ne hp] at hu
      exact hlaunch.launched_of (h.holder process u hu)

/-- A launch keeps the slots as assumed exactly when the new shell takes the slot of its number. -/
theorem NewShell.held_iff (h : LaunchesOk s) (hheld : RootsHeld s) :
    RootsHeld s' ↔ Kernel.FirstFree s.kernel.procArr t := by
  constructor
  · intro hheld'
    -- the new shell holds its slot, so it is the one that was taken
    have hnew : s'.launched t = true := by rw [hlaunch.launched, Function.update_self]
    have hself := (hheld' t hlaunch.terms.2 hnew).1
    rw [hlaunch.holder] at hself
    by_cases htn : t = n
    · rw [htn]
      exact hlaunch.first
    · rw [Function.update_of_ne htn] at hself
      have hold := h.holder t t hself
      rw [hlaunch.new] at hold
      cases hold
  · intro hfirst u hlt hu
    obtain rfl := hfirst.eq hlaunch.first
    rw [hlaunch.launched] at hu
    by_cases hut : u = t
    · rw [hut, hlaunch.holder, hlaunch.procArr, Function.update_self, Function.update_self]
      exact ⟨rfl, by simp⟩
    · rw [Function.update_of_ne hut] at hu
      rw [hlaunch.holder, hlaunch.procArr, Function.update_of_ne hut, Function.update_of_ne hut]
      exact hheld u hlt hu

end Launch

theorem shellStep_tick (h : LaunchesOk s) (hheld : RootsHeld s) {esp ebp : Nat} {l : Launch}
    (hstep : ShellStep s (.tick esp ebp l) s') :
    LaunchesOk s' ∧ (RootsHeld s' ↔ KeepsRoots s (.tick esp ebp l)) := by
  show LaunchesOk s' ∧
    (RootsHeld s' ↔ ∀ t ∈ missingShell s.kernel, Kernel.FirstFree s.kernel.procArr t)
  cases hmissing : missingShell s.kernel with
  | none =>
      have hticked := tick_complete hmissing hstep.next
      have hlaunched := hstep.launched
      have hholder := hstep.holder
      dsimp only [noteLaunched, noteHolder] at hlaunched hholder
      rw [hmissing] at hlaunched hholder
      dsimp only at hlaunched hholder
      refine ⟨h.congr hticked.shellsRunning hlaunched fun process t ht => hholder ▸ ht,
        fun _ t ht => ?_, fun _ t hlt ht => ?_⟩
      · cases ht
      · rw [hlaunched] at ht
        rw [hholder, hticked.procArr]
        exact hheld t hlt ht
  | some t =>
      obtain ⟨n, hlaunch⟩ := shellStep_launch h hmissing hstep
      refine ⟨hlaunch.ok h, ?_⟩
      rw [hlaunch.held_iff h hheld]
      simp only [Option.mem_some_iff, forall_eq']

/-- Slots stay as assumed exactly in the steps that meet the condition. -/
theorem shellStep_iff (h : LaunchesOk s) (hheld : RootsHeld s) (hstep : ShellStep s e s') :
    LaunchesOk s' ∧ (RootsHeld s' ↔ KeepsRoots s e) := by
  cases e with
  | own event =>
      obtain ⟨hok, hheld'⟩ := shellStep_own h hheld hstep
      exact ⟨hok, fun _ => trivial, fun _ => hheld'⟩
  | execute args =>
      obtain ⟨hok, hheld'⟩ := shellStep_execute h hheld hstep
      exact ⟨hok, fun _ => trivial, fun _ => hheld'⟩
  | halt status callerEbp => exact shellStep_halt h hheld hstep
  | tick esp ebp l => exact shellStep_tick h hheld hstep

/-! ## The process that a tick switches to -/

/-- `get_next_proc` returns a process below 3, or one whose slot is in use. -/
theorem getNextProc_cases (k : Kernel) (curTerm : Nat) :
    k.getNextProc curTerm < numTerms ∨ k.procArr (k.getNextProc curTerm) ≠ .free := by
  unfold Kernel.getNextProc
  refine forRange_invariant (P := fun _ r => r < numTerms ∨ k.procArr r ≠ .free) ?_ ?_
  · exact .inl (Nat.mod_lt _ (by decide))
  · intro i r _ hr
    split_ifs with hchild
    · exact .inr hchild.1
    · exact hr

/-- With all shells launched and in their slots, a tick switches to a process in use. -/
theorem tick_target (h : LaunchesOk s) (hheld : RootsHeld s)
    (hmissing : missingShell s.kernel = none) {esp ebp : Nat} {l : Launch}
    (htick : KernelStep s.kernel (.tick esp ebp l) k') :
    ∃ p, k'.esp0 = stackTop p ∧ k'.procArr p ≠ .free := by
  have hticked := tick_complete hmissing htick
  refine ⟨_, hticked.target, ?_⟩
  rw [hticked.procArr]
  obtain hshell | hlive := getNextProc_cases s.kernel
      (s.kernel.pcb (processNumberOf esp)).termNumber
  · have hall : ∀ t, t < numTerms → s.launched t = true := by
      intro t ht
      unfold missingShell at hmissing
      split_ifs at hmissing with hone htwo
      have hone' := Bool.not_eq_false _ ▸ hone
      have htwo' := Bool.not_eq_false _ ▸ htwo
      simp only [numTerms] at ht
      obtain rfl | rfl | rfl : t = 0 ∨ t = 1 ∨ t = 2 := by omega
      · exact h.base
      · exact h.flags.1.trans hone'
      · exact h.flags.2.trans htwo'
    exact (hheld _ hshell (hall _ hshell)).2
  · exact hlive

/-! ## Whole runs -/

/-- After the first `sys_execute` the base shell holds slot 0. -/
theorem start_held {fs : FileSystem} {video frames : Nat → UInt8} {pcb : Nat → Pcb}
    {esp ebp : Nat} {args : ExecArgs}
    (hboot : (Kernel.boot fs video pcb frames esp ebp).executeNext args = some k) :
    LaunchesOk (.start k) ∧ RootsHeld (.start k) := by
  have hstart := starting_base hboot
  refine ⟨⟨rfl, ?_, fun t ht => ?_, fun process t ht => ?_⟩, fun t _ ht => ?_⟩
  · exact ⟨(hstart.launched 1 (by omega)).symm, (hstart.launched 2 (by omega)).symm⟩
  · have hzero : t = 0 := of_decide_eq_true ht
    rw [hzero]
    decide
  · dsimp only [Shells.start] at ht
    split_ifs at ht
    cases ht
    rfl
  · have hzero : t = 0 := of_decide_eq_true ht
    rw [hzero]
    exact ⟨rfl, hstart.taken 0 (by omega)⟩

/-- From the first `sys_execute` on, with ticks that launch shells 1 and 2: the root shell of each
terminal holds the slot of its number from its launch onward, if and only if each launch finds that
slot free and all lower ones in use and no root shell but the base shell halts. In such runs no tick
switches to a process whose slot is free. -/
theorem roots_held_iff {fs : FileSystem} {video frames : Nat → UInt8} {pcb : Nat → Pcb}
    {esp ebp : Nat} {args : ExecArgs} {k₀ : Kernel}
    (hboot : (Kernel.boot fs video pcb frames esp ebp).executeNext args = some k₀)
    (es : List KernelEvent) (s : Shells) :
    RootsHeld (.start k₀) ∧
      (Run (Within RootsHeld ShellStep) (.start k₀) es s ↔
        Run (Guarded KeepsRoots ShellStep) (.start k₀) es s) ∧
      (Run (Guarded KeepsRoots ShellStep) (.start k₀) es s →
        missingShell s.kernel = none → ∀ esp ebp l k', KernelStep s.kernel (.tick esp ebp l) k' →
        ∃ p, k'.esp0 = stackTop p ∧ k'.procArr p ≠ .free) := by
  obtain ⟨hok, hheld⟩ := start_held hboot
  have hiff : Run (Within RootsHeld ShellStep) (.start k₀) es s ↔
      Run (Guarded KeepsRoots ShellStep) (.start k₀) es s :=
    run_within_iff (I := LaunchesOk) (fun _ _ _ h hp hstep => shellStep_iff h hp hstep) hok hheld
  refine ⟨hheld, hiff, fun hrun hmissing esp ebp l k' htick => ?_⟩
  obtain ⟨hok', hheld'⟩ : LaunchesOk s ∧ RootsHeld s :=
    Run.invariant (I := fun s => LaunchesOk s ∧ RootsHeld s)
      (fun _ _ _ ⟨h, hp⟩ hstep => ⟨(shellStep_iff h hp hstep.2).1,
        (shellStep_iff h hp hstep.2).2.2 hstep.1⟩) hrun ⟨hok, hheld⟩
  exact tick_target hok' hheld' hmissing htick

/-- A step that meets a condition and launches what is missing, if it is possible. -/
def nextShell (guard : Shells → KernelEvent → Prop) [∀ s e, Decidable (guard s e)] (s : Shells)
    (e : KernelEvent) : Option Shells :=
  ((s.kernel.next e).filter fun k' => guard s e ∧ LaunchesMissing s.kernel e k').map fun k' =>
    ⟨k', noteLaunched s e, noteHolder s e⟩

theorem nextShell_run {guard : Shells → KernelEvent → Prop} [∀ s e, Decidable (guard s e)]
    {es : List KernelEvent} (h : replay (nextShell guard) s es = some s') :
    Run (Guarded guard ShellStep) s es s' := by
  refine (replay_run h).mono fun s e s' hnext => ?_
  simp only [nextShell, Option.map_eq_some_iff, Option.filter_eq_some_iff,
    decide_eq_true_eq] at hnext
  obtain ⟨k', ⟨hk', hguard, hlaunches⟩, rfl⟩ := hnext
  exact ⟨hguard, hk', hlaunches, rfl, rfl⟩

/-- The small image after the first `sys_execute`. -/
def bootedBase : Option Kernel :=
  (Kernel.boot shellFs (fun _ => 0) (fun _ => Pcb.zero) (fun _ => 0) 0x7FFF00 0x7FFF80).executeNext
    (bareLaunch 0 0).args

/-- Two ticks launch the other shells, and a third one switches. -/
def launchTicks : List KernelEvent :=
  [.tick 0x7FFE00 0x7FFE80 (bareLaunch 0x7FFE00 0x7FFE80),
    .tick 0x7FDE00 0x7FDE80 (bareLaunch 0x7FDE00 0x7FDE80),
    .tick 0x7FBE00 0x7FBE80 (bareLaunch 0 0)]

theorem roots_held_iff_launch : ∃ k₀ s, bootedBase = some k₀ ∧
    Run (Within RootsHeld ShellStep) (.start k₀) launchTicks s := by
  have hdefined : (bootedBase.bind fun k₀ =>
      replay (nextShell KeepsRoots) (.start k₀) launchTicks).isSome = true := by decide +kernel
  obtain ⟨s, hs⟩ := Option.isSome_iff_exists.1 hdefined
  obtain ⟨k₀, hboot, hrun⟩ := Option.bind_eq_some_iff.1 hs
  exact ⟨k₀, s, hboot, (roots_held_iff hboot launchTicks s).2.1.2 (nextShell_run hrun)⟩

/-- The shell of terminal 1 is launched and halts. -/
def exitShell : List KernelEvent :=
  [.tick 0x7FFE00 0x7FFE80 (bareLaunch 0x7FFE00 0x7FFE80), .own (.trap 0x7FDF00 0x7FDF80),
    .halt 0 0]

/-- Its slot is free from then on. -/
theorem root_shell_exits : ¬ ∀ (fs : FileSystem) (video frames : Nat → UInt8) (pcb : Nat → Pcb)
    (esp ebp : Nat) (args : ExecArgs) (k₀ : Kernel) (es : List KernelEvent) (s : Shells),
    (Kernel.boot fs video pcb frames esp ebp).executeNext args = some k₀ →
    Run ShellStep (.start k₀) es s → RootsHeld s := by
  intro h
  have hdefined : (bootedBase.bind fun k₀ =>
      (replay (nextShell fun _ _ => True) (.start k₀) exitShell).filter
        fun s => ¬ RootsHeld s).isSome = true := by decide +kernel
  obtain ⟨s, hs⟩ := Option.isSome_iff_exists.1 hdefined
  simp only [Option.bind_eq_some_iff, Option.filter_eq_some_iff, decide_eq_true_eq] at hs
  obtain ⟨k₀, hboot, hrun, hbad⟩ := hs
  have hsteps := (nextShell_run hrun).mono fun _ _ _ hstep => hstep.2
  exact hbad (h _ _ _ _ _ _ _ k₀ exitShell s hboot hsteps)

end Ece391Kernel
