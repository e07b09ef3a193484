import Ece391Kernel.Kernel.StartUp

/-!
# Ticks, programs and display switches in any order

`InTurn` is the condition under which the scheduler keeps its invariant: a program is started while
its terminal is displayed, in a slot below that of the program that starts it, and the shells of
terminals 1 and 2 do not halt. In every run whose steps all meet it, each tick resumes one process
consistently (`ticks_consistent`) and saves and resumes contexts faithfully (`contexts_kept`).
-/

namespace Ece391Kernel

open Transition

variable {k k' : Kernel} {s : Stacks Nat}

/-- The condition on the state before a step. -/
def InTurn (k : Kernel) : KernelEvent → Prop
  | .execute _ => k.dev.term.curTermNum = k.service ∧
      (k.getProcessNumber < 3 ∨ ∀ n, Kernel.FirstFree k.procArr n → n < k.getProcessNumber)
  | .halt _ _ => k.getProcessNumber ≠ 1 ∧ k.getProcessNumber ≠ 2
  | _ => True

instance (k : Kernel) (e : KernelEvent) : Decidable (InTurn k e) := by
  cases e with
  | execute args =>
      have hslot : (∀ n, Kernel.FirstFree k.procArr n → n < k.getProcessNumber) ↔
          ∀ n, n < 6 → Kernel.FirstFree k.procArr n → n < k.getProcessNumber :=
        ⟨fun h n _ => h n, fun h n hfirst => h n hfirst.lt hfirst⟩
      exact decidable_of_iff (k.dev.term.curTermNum = k.service ∧ (k.getProcessNumber < 3 ∨
        ∀ n, n < 6 → Kernel.FirstFree k.procArr n → n < k.getProcessNumber))
        (and_congr_right fun _ => or_congr_right hslot.symm)
  | halt status callerEbp => exact inferInstanceAs (Decidable (_ ∧ _))
  | _ => exact inferInstanceAs (Decidable True)

/-- A step of the kernel. -/
def KernelStep (k : Kernel) (e : KernelEvent) (k' : Kernel) : Prop := k.next e = some k'

/-! ## Each step keeps the invariant -/

/-- Steps of the running process. -/
theorem Ready.own (h : Ready k s) (hstep : k.OwnStep k') : Ready k' s := by
  have hsame := ownStep_sameSched hstep
  have hkept := hstep.kept h.runsOn
  refine ⟨?_, ?_, ?_, ?_, ?_, ?_, ?_, ?_⟩
  · rw [hsame.procArr]
    exact h.rep.congr hsame.pcb
  · rw [hsame.init]
    exact h.init
  · rw [hsame.shellsRunning]
    exact h.launched
  · rw [hsame.service]
    exact h.service
  · rw [hsame.esp0, hsame.service]
    exact h.esp0
  · rw [hsame.page, hsame.service]
    exact h.page
  · rw [hsame.service]
    exact hkept.runs.stack
  · rw [hsame.schedArr, hsame.service]
    exact h.suspended

/-- A program goes on top of the stack of the terminal in service. -/
theorem Ready.execute (h : Ready k s) {args : ExecArgs} (hguard : InTurn k (.execute args))
    (hexec : k.executeNext args = some k') :
    ∃ n, Ready k' (s.push k.service n) ∧ k'.schedArr = k.schedArr ∧ k'.service = k.service := by
  obtain ⟨⟨hkernel, -, hebp⟩, n, cmd, frames, hfirst, rfl⟩ := Kernel.executeNext_some hexec
  obtain ⟨hdisplayed, hslot⟩ := hguard
  have hnum := h.runsOn.number hkernel
  rw [hnum] at hebp hslot
  have hbelow : topOf s k.service < 3 ∨ n < topOf s k.service :=
    hslot.imp id fun hall => hall n hfirst
  refine ⟨n, ⟨?_, h.init, h.launched, h.service, ?_, ?_, nofun, fun t ht hne => ?_⟩, rfl, rfl⟩
  · exact h.rep.spawn h.service hfirst.free hfirst.lt hbelow hdisplayed hnum h.page hebp
  · show stackTop n = stackTop (topOf (s.push k.service n) k.service)
    rw [topOf_push_self]
  · show frameEntry n = frameEntry (topOf (s.push k.service n) k.service)
    rw [topOf_push_self]
  · have hne' : t ≠ k.service := hne
    rw [topOf_push_of_ne hne']
    exact h.suspended t ht hne'

/-- The program on top goes, and the one below it is as it was before it started that program. -/
theorem Ready.halt (h : Ready k s) {status : UInt8} {callerEbp : Nat}
    (hguard : InTurn k (.halt status callerEbp)) (hhalt : k.haltNext status callerEbp = some k') :
    (∃ s', Ready k' s') ∧ k'.schedArr = k.schedArr ∧ k'.service = k.service := by
  have hmode := Kernel.haltNext_mode hhalt
  have hnum := h.runsOn.number hmode
  by_cases hbase : k.getProcessNumber = 0
  · rw [Kernel.haltNext_base hbase hhalt]
    exact ⟨⟨s, h⟩, rfl, rfl⟩
  · obtain ⟨closed, hclosed, rfl⟩ := Kernel.haltNext_some hbase hhalt
    have hsame := ownCall_sameSched hclosed
    -- Neither a shell nor the base shell, so a program that some other one started.
    obtain ⟨-, htop⟩ | ⟨rest, hcons⟩ := topOf_cases s k.service
    · obtain ⟨hone, htwo⟩ := hguard
      have hservice := h.service
      omega
    · have hrep := h.rep.congr hsame.pcb
      obtain ⟨hpid, hpage, hframe⟩ := hrep.parent h.service hcons
      rw [hnum]
      refine ⟨⟨s.pop k.service, ?_, ?_, ?_, ?_, ?_, ?_, fun _ => ?_, fun t ht hne => ?_⟩,
        hsame.schedArr, hsame.service⟩
      · show Represents (Function.update closed.procArr (topOf s k.service) .free) closed.pcb _
        rw [hsame.procArr]
        exact hrep.reap hcons
      · exact hsame.init.trans h.init
      · show closed.shellsRunning 1 = true ∧ closed.shellsRunning 2 = true
        rw [hsame.shellsRunning]
        exact h.launched
      · show closed.service < 3
        rw [hsame.service]
        exact h.service
      · show stackTop (closed.pcb (topOf s k.service)).parentPid =
          stackTop (topOf (s.pop k.service) closed.service)
        rw [hpid, hsame.service]
      · show (closed.pcb (topOf s k.service)).parentPhysAddr =
          frameEntry (topOf (s.pop k.service) closed.service)
        rw [hpage, hsame.service]
      · show InStack (topOf (s.pop k.service) closed.service)
          ((closed.pcb (topOf s k.service)).parentEbp + 8)
        rw [hsame.service]
        exact hframe
      · have hne' : t ≠ k.service := fun heq => hne (heq.trans hsame.service.symm)
        show InStack (topOf (s.pop k.service) t) (closed.schedArr t).esp ∧
          (closed.schedArr t).oteMb = frameEntry (topOf (s.pop k.service) t)
        rw [topOf_pop_of_ne hne', hsame.schedArr]
        exact h.suspended t ht hne'

theorem Ready.complete (h : Ready k s) : missingShell k = none := by
  rw [missingShell, h.launched.1, h.launched.2]
  rfl

/-- A tick gives the next terminal its turn. -/
theorem Ready.tick (h : Ready k s) {esp ebp : Nat} {l : Launch}
    (hnext : k.next (.tick esp ebp l) = some k') :
    Ready k' s ∧ Switched k k' ⟨esp, ebp, k.pageDirectory32⟩ ∧
      k'.service = (k.service + 1) % 3 := by
  obtain ⟨hat, htick⟩ := next_tick hnext
  have hservice := h.service
  have hstack := h.runsOn.inStack hat
  -- The handler finds the terminal in service in the PCB of the stack that it runs on.
  have hcurr : (k.pcb (processNumberOf esp)).termNumber = k.service := by
    rw [processNumberOf_inStack h.runsOn.lt hstack]
    exact h.rep.topOf_term h.service
  have hlt : (k.service + 1) % 3 < 3 := Nat.mod_lt _ (by omega)
  dsimp only [Kernel.pitHandler] at htick
  rw [hcurr, h.rep.getNextProc_eq_top, h.rep.termOf_topOf hlt] at htick
  have hinit : ¬ k.schedArrInit = false := by simp [h.init]
  rw [saveOrLaunch_complete h.complete, if_neg hinit] at htick
  cases htick
  -- Every terminal's context lies on the stack of its top process, the interrupted one included.
  have hsaved : ∀ t, t < 3 →
      InStack (topOf s t)
        (Function.update k.schedArr k.service ⟨esp, ebp, k.pageDirectory32⟩ t).esp ∧
      (Function.update k.schedArr k.service ⟨esp, ebp, k.pageDirectory32⟩ t).oteMb =
        frameEntry (topOf s t) := by
    intro t ht
    by_cases heq : t = k.service
    · subst heq
      rw [Function.update_self]
      exact ⟨hstack, h.page⟩
    · rw [Function.update_of_ne heq]
      exact h.suspended t ht heq
  exact ⟨⟨h.rep, h.init, h.launched, hlt, rfl, (hsaved _ hlt).2, fun _ => (hsaved _ hlt).1,
    fun t ht _ => hsaved t ht⟩, ⟨rfl, rfl, rfl⟩, rfl⟩

/-- Every step that meets the condition. -/
theorem Ready.step (h : Ready k s) {e : KernelEvent} (hstep : Guarded InTurn KernelStep k e k') :
    ∃ s', Ready k' s' := by
  obtain ⟨hguard, hnext⟩ := hstep
  cases e with
  | own e => exact ⟨s, h.own ⟨e, hnext⟩⟩
  | execute args =>
      obtain ⟨n, hready, -⟩ := h.execute hguard hnext
      exact ⟨_, hready⟩
  | halt status callerEbp => exact (h.halt hguard hnext).1
  | tick esp ebp l => exact ⟨s, (h.tick hnext).1⟩

/-- The invariant along a run from the end of the start-up. -/
theorem ready_of_run {k₀ : Kernel} {waiting : Nat → Option Sched} {es : List KernelEvent}
    (hup : ShellsReady k₀ waiting) (hrun : Run (Guarded InTurn KernelStep) k₀ es k) :
    ∃ s, Ready k s :=
  Run.invariant (I := fun k => ∃ s, Ready k s) (fun _ _ _ ⟨_, h⟩ hstep => h.step hstep) hrun
    ⟨_, ready_of_shellsReady hup⟩

/-! ## Consistent ticks -/

/-- One process has `tss.esp0`, the kernel stack in which the restored stack pointer lies, and the
mapping of the user page. -/
def Consistent (k : Kernel) : Prop :=
  ∃ p, p < maxProcesses ∧ k.esp0 = stackTop p ∧ InStack p (k.schedArr k.service).esp ∧
    k.esp = (k.schedArr k.service).esp ∧ k.pageDirectory32 = frameEntry p

/-- A tick that ends in the invariant is consistent. -/
theorem Ready.consistent (h : Ready k' s) {sched : Sched} (hswitched : Switched k k' sched) :
    Consistent k' := by
  have hesp : k'.esp = (k'.schedArr k'.service).esp := by rw [hswitched.resumed]
  refine ⟨topOf s k'.service, h.runsOn.lt, h.esp0, ?_, hesp, h.page⟩
  rw [← hesp]
  exact h.stack hswitched.kernel

/-- The end of the start-up is consistent, and so is every later tick of a run whose steps all meet
the condition. -/
theorem ticks_consistent {k₀ : Kernel} {waiting : Nat → Option Sched} {es : List KernelEvent}
    (hup : ShellsReady k₀ waiting) (hrun : Run (Guarded InTurn KernelStep) k₀ es k) :
    Consistent k₀ ∧ ∀ esp ebp l k', KernelStep k (.tick esp ebp l) k' → Consistent k' := by
  constructor
  · obtain ⟨k, before, esp, ebp, l, hstart, hnext, -⟩ := hup
    obtain ⟨hready, hswitched⟩ := (startUp_starting hstart).finish hnext
    exact hready.consistent hswitched
  · intro esp ebp l k' htick
    obtain ⟨s, hready⟩ := ready_of_run hup hrun
    obtain ⟨hready', hswitched, -⟩ := hready.tick htick
    exact hready'.consistent hswitched

instance (k : Kernel) : Decidable (Consistent k) :=
  inferInstanceAs (Decidable (∃ p, p < maxProcesses ∧ _))

/-- A step that meets the condition, if it is possible. -/
def nextInTurn (k : Kernel) (e : KernelEvent) : Option Kernel :=
  if InTurn k e then k.next e else none

theorem nextInTurn_run {k₀ : Kernel} {es : List KernelEvent}
    (h : replay nextInTurn k₀ es = some k) : Run (Guarded InTurn KernelStep) k₀ es k := by
  refine (replay_run h).mono fun k e k' hnext => ?_
  unfold nextInTurn at hnext
  split at hnext
  · next hguard => exact ⟨hguard, hnext⟩
  · cases hnext

/-- The shell of terminal 0 executes a shell in slot 3, which runs on after three ticks and
halts. -/
def executeOnce : List KernelEvent :=
  [.tick 0x7FDC00 0x7FDC80 (bareLaunch 0 0), .tick 0x7FBC00 0x7FBC80 (bareLaunch 0 0),
    .execute (bareLaunch 0 0).args, .tick 0x7F9F00 0x7F9F80 (bareLaunch 0 0),
    .tick 0x7FDC00 0x7FDC80 (bareLaunch 0 0), .tick 0x7FBC00 0x7FBC80 (bareLaunch 0 0),
    .halt 0 0]

/-- The tick after that run resumes the shell of terminal 1. -/
theorem ticks_consistent_once : ∃ k₀ waiting k k', ShellsReady k₀ waiting ∧
    Run (Guarded InTurn KernelStep) k₀ executeOnce k ∧
    KernelStep k (.tick 0x7FFC00 0x7FFC80 (bareLaunch 0 0)) k' ∧ Consistent k' := by
  have hdefined : (bootedShells.bind fun k₀ => (replay nextInTurn k₀ executeOnce).bind fun k =>
      k.next (.tick 0x7FFC00 0x7FFC80 (bareLaunch 0 0))).isSome = true := by decide +kernel
  obtain ⟨k', hk'⟩ := Option.isSome_iff_exists.1 hdefined
  simp only [Option.bind_eq_some_iff] at hk'
  obtain ⟨k₀, hboot, k, hrun, htick⟩ := hk'
  obtain ⟨waiting, hup⟩ := bootedShells_ready hboot
  exact ⟨k₀, waiting, k, k', hup, nextInTurn_run hrun, htick,
    (ticks_consistent hup (nextInTurn_run hrun)).2 _ _ _ _ htick⟩

/-- ALT-F2, then the shell of terminal 1 executes a shell, which executes another, and two ticks. -/
def executeTwice : List KernelEvent :=
  [.own (.key 0x38 none), .own (.key 0x3C none), .execute (bareLaunch 0 0).args,
    .own (.trap 0x7F9F00 0x7F9F80), .execute (bareLaunch 0 0).args,
    .tick 0x7F7F00 0x7F7F80 (bareLaunch 0 0), .tick 0x7FBC00 0x7FBC80 (bareLaunch 0 0)]

/-- The next tick restores a stack pointer of the second program with `tss.esp0` of the first. -/
theorem grandchild_inconsistent : ¬ ∀ (k₀ : Kernel) (waiting : Nat → Option Sched)
    (es : List KernelEvent) (k : Kernel), ShellsReady k₀ waiting → Run KernelStep k₀ es k →
    ∀ esp ebp l k', KernelStep k (.tick esp ebp l) k' → Consistent k' := by
  intro h
  have hdefined : ((bootedShells.bind fun k₀ => (replay Kernel.next k₀ executeTwice).bind fun k =>
      k.next (.tick 0x7FFC00 0x7FFC80 (bareLaunch 0 0))).filter
        fun k => ¬ Consistent k).isSome = true := by decide +kernel
  obtain ⟨k', hk'⟩ := Option.isSome_iff_exists.1 hdefined
  simp only [Option.filter_eq_some_iff, Option.bind_eq_some_iff, decide_eq_true_eq] at hk'
  obtain ⟨⟨k₀, hboot, k, hrun, htick⟩, hbad⟩ := hk'
  obtain ⟨waiting, hup⟩ := bootedShells_ready hboot
  exact hbad (h k₀ waiting executeTwice k hup (replay_run hrun) _ _ _ k' htick)

/-! ## Faithful contexts -/

/-- The kernel, and the contexts of the terminals that were interrupted and not yet resumed. -/
structure Traced where
  kernel : Kernel
  waiting : Nat → Option Sched

/-- What a step does to the contexts that wait: a tick interrupts the terminal in service and
resumes the one in service afterwards. -/
def noteTick (s : Traced) (e : KernelEvent) (k' : Kernel) : Nat → Option Sched :=
  match e with
  | .tick esp ebp _ =>
      Function.update
        (Function.update s.waiting s.kernel.service (some ⟨esp, ebp, s.kernel.pageDirectory32⟩))
        k'.service none
  | _ => s.waiting

/-- A step with the contexts that wait. -/
def TracedStep (s : Traced) (e : KernelEvent) (s' : Traced) : Prop :=
  KernelStep s.kernel e s'.kernel ∧ s'.waiting = noteTick s e s'.kernel

/-- A tick saves the interrupted context for the terminal in service, for which none waits, and for
no other; and it resumes the context that waits for the next terminal. -/
structure Faithful (s : Traced) (sched : Sched) (k' : Kernel) : Prop where
  saved : k'.schedArr s.kernel.service = sched
  others : ∀ t, t ≠ s.kernel.service → k'.schedArr t = s.kernel.schedArr t
  notLost : s.waiting s.kernel.service = none
  resumed : s.waiting k'.service = some ⟨k'.esp, k'.ebp, k'.pageDirectory32⟩

/-- Every context that waits is in `sched_arr`, and only the terminal in service has none. -/
structure Kept (s : Traced) : Prop where
  service : s.waiting s.kernel.service = none
  waiting : ∀ t, t < 3 → t ≠ s.kernel.service → s.waiting t = some (s.kernel.schedArr t)

/-- Ticks are faithful and keep the contexts. -/
theorem Ready.tick_faithful {t t' : Traced} (h : Ready t.kernel s) (hkept : Kept t) {esp ebp : Nat}
    {l : Launch} (hstep : TracedStep t (.tick esp ebp l) t') :
    Faithful t ⟨esp, ebp, t.kernel.pageDirectory32⟩ t'.kernel ∧ Kept t' := by
  obtain ⟨hnext, hwaiting⟩ := hstep
  obtain ⟨-, hswitched, hservice⟩ := h.tick hnext
  have hlt := h.service
  have hne : t'.kernel.service ≠ t.kernel.service := by omega
  have hlt' : t'.kernel.service < 3 := by omega
  dsimp only [noteTick] at hwaiting
  refine ⟨⟨?_, fun u hu => ?_, hkept.service, ?_⟩, ?_, fun u hu hune => ?_⟩
  · rw [hswitched.saved, Function.update_self]
  · rw [hswitched.saved, Function.update_of_ne hu]
  · rw [hkept.waiting _ hlt' hne, ← hswitched.resumed, hswitched.saved, Function.update_of_ne hne]
  · rw [hwaiting, Function.update_self]
  · rw [hwaiting, Function.update_of_ne hune, hswitched.saved]
    by_cases hut : u = t.kernel.service
    · rw [hut, Function.update_self, Function.update_self]
    · rw [Function.update_of_ne hut, Function.update_of_ne hut]
      exact hkept.waiting u hu hut

/-- No other step touches a context. -/
theorem Kept.same {t t' : Traced} (h : Kept t) (hsched : t'.kernel.schedArr = t.kernel.schedArr)
    (hservice : t'.kernel.service = t.kernel.service) (hwaiting : t'.waiting = t.waiting) :
    Kept t' := by
  refine ⟨?_, fun u hu hne => ?_⟩
  · rw [hwaiting, hservice]
    exact h.service
  · rw [hwaiting, hsched]
    exact h.waiting u hu (by rw [← hservice]; exact hne)

/-- Every step that meets the condition. -/
theorem traced_step {t t' : Traced} {e : KernelEvent} (h : Ready t.kernel s) (hkept : Kept t)
    (hstep : Guarded (fun t => InTurn t.kernel) TracedStep t e t') :
    (∃ s', Ready t'.kernel s') ∧ Kept t' := by
  obtain ⟨hguard, hnext, hwaiting⟩ := hstep
  refine ⟨h.step ⟨hguard, hnext⟩, ?_⟩
  cases e with
  | own e =>
      have hsame := ownStep_sameSched ⟨e, hnext⟩
      exact hkept.same hsame.schedArr hsame.service hwaiting
  | execute args =>
      obtain ⟨n, -, hsched, hservice⟩ := h.execute hguard hnext
      exact hkept.same hsched hservice hwaiting
  | halt status callerEbp =>
      obtain ⟨-, hsched, hservice⟩ := h.halt hguard hnext
      exact hkept.same hsched hservice hwaiting
  | tick esp ebp l => exact (h.tick_faithful hkept ⟨hnext, hwaiting⟩).2

/-- In every run whose steps all meet the condition, each context that waits is in `sched_arr`
untouched, and every tick is faithful: it saves where no context waits, and resumes a context that
waits and from then on waits no longer. -/
theorem contexts_kept {k₀ : Kernel} {waiting : Nat → Option Sched} {es : List KernelEvent}
    {t : Traced} (hup : ShellsReady k₀ waiting)
    (hrun : Run (Guarded (fun t => InTurn t.kernel) TracedStep) ⟨k₀, waiting⟩ es t) :
    (∀ u sched, u < 3 → t.waiting u = some sched → t.kernel.schedArr u = sched) ∧
      ∀ esp ebp l t', TracedStep t (.tick esp ebp l) t' →
        Faithful t ⟨esp, ebp, t.kernel.pageDirectory32⟩ t'.kernel := by
  obtain ⟨hnone, hwaiting⟩ := waiting_of_shellsReady hup
  have hinv : (∃ s, Ready t.kernel s) ∧ Kept t :=
    Run.invariant (I := fun t => (∃ s, Ready t.kernel s) ∧ Kept t)
      (fun _ _ _ ⟨⟨_, h⟩, hkept⟩ hstep => traced_step h hkept hstep) hrun
      ⟨⟨_, ready_of_shellsReady hup⟩, hnone, hwaiting⟩
  obtain ⟨⟨s, hready⟩, hkept⟩ := hinv
  refine ⟨fun u sched hu heq => ?_, fun esp ebp l t' htick => ?_⟩
  · by_cases hus : u = t.kernel.service
    · rw [hus, hkept.service] at heq
      cases heq
    · rw [hkept.waiting u hu hus] at heq
      exact Option.some.inj heq
  · exact (hready.tick_faithful hkept htick).1

/-- A step of the kernel with what it does to the contexts that wait. -/
theorem tracedStep_of_next {t : Traced} {e : KernelEvent} (h : t.kernel.next e = some k') :
    TracedStep t e ⟨k', noteTick t e k'⟩ :=
  ⟨h, rfl⟩

/-- A run of the kernel with the contexts that wait. -/
theorem Run.traced {guard : Kernel → KernelEvent → Prop} {k₀ : Kernel} {es : List KernelEvent}
    (h : Run (Guarded guard KernelStep) k₀ es k) (waiting : Nat → Option Sched) :
    ∃ waiting', Run (Guarded (fun t => guard t.kernel) TracedStep) ⟨k₀, waiting⟩ es
      ⟨k, waiting'⟩ := by
  induction h generalizing waiting with
  | nil => exact ⟨waiting, .nil _⟩
  | cons hstep _ ih =>
      obtain ⟨waiting', hrest⟩ := ih (noteTick ⟨_, waiting⟩ _ _)
      exact ⟨waiting', .cons ⟨hstep.1, hstep.2, rfl⟩ hrest⟩

/-- The tick after the run in which a shell executes one program and the program halts. -/
theorem contexts_kept_once : ∃ t t' : Traced,
    TracedStep t (.tick 0x7FFC00 0x7FFC80 (bareLaunch 0 0)) t' ∧
    Faithful t ⟨0x7FFC00, 0x7FFC80, t.kernel.pageDirectory32⟩ t'.kernel := by
  have hdefined : (bootedShells.bind fun k₀ => (replay nextInTurn k₀ executeOnce).bind fun k =>
      k.next (.tick 0x7FFC00 0x7FFC80 (bareLaunch 0 0))).isSome = true := by decide +kernel
  obtain ⟨k', hk'⟩ := Option.isSome_iff_exists.1 hdefined
  simp only [Option.bind_eq_some_iff] at hk'
  obtain ⟨k₀, hboot, k, hrun, htick⟩ := hk'
  obtain ⟨waiting, hup⟩ := bootedShells_ready hboot
  obtain ⟨waiting', htraced⟩ := Run.traced (nextInTurn_run hrun) waiting
  have hstep := tracedStep_of_next (t := ⟨k, waiting'⟩) htick
  exact ⟨_, _, hstep, (contexts_kept hup htraced).2 _ _ _ _ hstep⟩

/-- While terminal 0 is displayed, the shell of terminal 1 executes a shell. The next tick saves its
context for terminal 0, whose shell had a context there. -/
theorem context_overwritten : ¬ ∀ (k₀ : Kernel) (waiting : Nat → Option Sched)
    (es : List KernelEvent) (t : Traced), ShellsReady k₀ waiting →
    Run TracedStep ⟨k₀, waiting⟩ es t → ∀ esp ebp l t', TracedStep t (.tick esp ebp l) t' →
    Faithful t ⟨esp, ebp, t.kernel.pageDirectory32⟩ t'.kernel := by
  intro h
  have hdefined : (bootedShells.bind fun k₀ => (k₀.next (.execute (bareLaunch 0 0).args)).bind
      fun k => (k.next (.tick 0x7F9F00 0x7F9F80 (bareLaunch 0 0))).filter fun k' =>
        k'.schedArr k.service ≠ ⟨0x7F9F00, 0x7F9F80, k.pageDirectory32⟩).isSome = true := by
    decide +kernel
  obtain ⟨k', hk'⟩ := Option.isSome_iff_exists.1 hdefined
  simp only [Option.filter_eq_some_iff, Option.bind_eq_some_iff, decide_eq_true_eq] at hk'
  obtain ⟨k₀, hboot, k, hexec, htick, hbad⟩ := hk'
  obtain ⟨waiting, hup⟩ := bootedShells_ready hboot
  have hfaithful := h k₀ waiting [.execute (bareLaunch 0 0).args] ⟨k, waiting⟩ hup
    (.single ⟨hexec, rfl⟩) _ _ _ _ (tracedStep_of_next htick)
  exact hbad hfaithful.saved

end Ece391Kernel
