import Ece391Kernel.Kernel.Terminals
import Ece391Kernel.Kernel.Nesting

/-!
# From boot to three running shells

`entry` starts the base shell, each of the first two ticks launches the shell of another terminal,
and the third tick patches their PCBs. `Ready` is the invariant of the scheduler from then on, and
`ready_of_shellsReady` says that the start-up establishes it.
-/

namespace Ece391Kernel

open Transition

/-- The terminal in service. -/
def Kernel.service (k : Kernel) : Nat := k.dev.term.termInService

variable {k k' : Kernel} {s : Stacks Nat}

/-! ## The invariant of the scheduler -/

/-- The process on top of the stack of the terminal in service runs, and `sched_arr` holds a context
of the one on top of the stack of every other terminal. -/
structure Ready (k : Kernel) (s : Stacks Nat) : Prop where
  rep : Represents k.procArr k.pcb s
  init : k.schedArrInit = true
  launched : k.shellsRunning 1 = true ∧ k.shellsRunning 2 = true
  service : k.service < 3
  esp0 : k.esp0 = stackTop (topOf s k.service)
  page : k.pageDirectory32 = frameEntry (topOf s k.service)
  stack : k.mode = .kernel → InStack (topOf s k.service) k.esp
  suspended : ∀ t, t < 3 → t ≠ k.service →
    InStack (topOf s t) (k.schedArr t).esp ∧ (k.schedArr t).oteMb = frameEntry (topOf s t)

/-- In every such state the process on top is running. -/
theorem Ready.runsOn (h : Ready k s) : k.RunsOn (topOf s k.service) :=
  ⟨h.rep.topOf_lt h.service, h.rep.topOf_live h.service, (h.rep.shells 0 (by omega)).1, h.esp0,
    h.stack⟩

/-! ## What steps of a process leave alone -/

/-- Nothing that the scheduler looks at differs. -/
structure SameSched (k k' : Kernel) : Prop where
  procArr : k'.procArr = k.procArr
  page : k'.pageDirectory32 = k.pageDirectory32
  esp0 : k'.esp0 = k.esp0
  shellsRunning : k'.shellsRunning = k.shellsRunning
  init : k'.schedArrInit = k.schedArrInit
  schedArr : k'.schedArr = k.schedArr
  service : k'.service = k.service
  pcb : SamePcbs k.pcb k'.pcb

theorem samePcbs_refl (pcb : Nat → Pcb) : SamePcbs pcb pcb := fun q => ⟨(pcb q).fileDesc, rfl⟩

theorem SameSched.refl (k : Kernel) : SameSched k k :=
  ⟨rfl, rfl, rfl, rfl, rfl, rfl, rfl, samePcbs_refl k.pcb⟩

theorem ownCall_sameSched (h : k.OwnCall k') : SameSched k k' := by
  obtain ⟨dev, frames, dirLocation, fileDesc, hterms, rfl⟩ := h
  refine ⟨rfl, rfl, rfl, rfl, rfl, rfl, hterms.2, fun q => ?_⟩
  by_cases hq : q = k.getProcessNumber
  · subst hq
    refine ⟨fileDesc, ?_⟩
    dsimp only
    rw [Function.update_self]
    rfl
  · refine ⟨(k.pcb q).fileDesc, ?_⟩
    dsimp only
    rw [Function.update_of_ne hq]

/-- A step of a process by itself. -/
theorem ownStep_sameSched (h : k.OwnStep k') : SameSched k k' := by
  obtain ⟨e, hnext⟩ := h
  cases e with
  | call call =>
      simp only [Kernel.ownNext, Option.ite_none_right_eq_some, Option.map_eq_some_iff] at hnext
      obtain ⟨-, r, hcall, rfl⟩ := hnext
      exact ownCall_sameSched (Kernel.doCall_own hcall)
  | fail args =>
      simp only [Kernel.ownNext, Option.ite_none_right_eq_some] at hnext
      obtain ⟨-, hfail⟩ := hnext
      split at hfail
      · next hexec =>
        obtain ⟨-, rfl⟩ := Kernel.sysExecute_ret hexec
        cases hfail
        exact .refl _
      · cases hfail
  | key scancode stray =>
      cases hnext
      exact ⟨rfl, rfl, rfl, rfl, rfl, rfl, rfl, samePcbs_refl k.pcb⟩
  | _ =>
      simp only [Kernel.ownNext, Option.ite_none_right_eq_some, Option.some.injEq] at hnext
      obtain ⟨-, rfl⟩ := hnext
      exact ⟨rfl, rfl, rfl, rfl, rfl, rfl, rfl, samePcbs_refl k.pcb⟩

/-- What a `sys_halt` that gives up its slot leaves behind. -/
structure Reaped (k k' : Kernel) : Prop where
  procArr : k'.procArr = Function.update k.procArr k.getProcessNumber .free
  pcb : SamePcbs k.pcb k'.pcb
  shellsRunning : k'.shellsRunning = k.shellsRunning
  init : k'.schedArrInit = k.schedArrInit

theorem haltNext_reaped {status : UInt8} {callerEbp : Nat} (hne : k.getProcessNumber ≠ 0)
    (h : k.haltNext status callerEbp = some k') : Reaped k k' := by
  obtain ⟨closed, hclosed, rfl⟩ := Kernel.haltNext_some hne h
  have hsame := ownCall_sameSched hclosed
  refine ⟨?_, hsame.pcb, hsame.shellsRunning, hsame.init⟩
  rw [← hsame.procArr]
  rfl

/-! ## The start-up -/

/-- `n` shells run, the last of them now; `waiting` holds the contexts of those that were
interrupted. Each launch ends in the new shell. -/
inductive StartUp : Nat → Kernel → (Nat → Option Sched) → Prop where
  | base {fs : FileSystem} {video frames : Nat → UInt8} {pcb : Nat → Pcb} {esp ebp : Nat}
      {args : ExecArgs} {k : Kernel} :
      (Kernel.boot fs video pcb frames esp ebp).executeNext args = some k →
      StartUp 1 k fun _ => none
  | own {n : Nat} {k k' : Kernel} {waiting : Nat → Option Sched} :
      StartUp n k waiting → k.OwnStep k' → StartUp n k' waiting
  | launch {n : Nat} {k k' : Kernel} {waiting : Nat → Option Sched} {esp ebp : Nat} {l : Launch} :
      StartUp n k waiting → n < 3 → k.next (.tick esp ebp l) = some k' → k'.mode = .user →
      StartUp (n + 1) k'
        (Function.update waiting k.service (some ⟨esp, ebp, k.pageDirectory32⟩))

/-- The third tick ends the start-up. -/
def ShellsReady (k' : Kernel) (waiting' : Nat → Option Sched) : Prop :=
  ∃ k waiting esp ebp launch, StartUp 3 k waiting ∧ k.next (.tick esp ebp launch) = some k' ∧
    waiting' = Function.update
      (Function.update waiting k.service (some ⟨esp, ebp, k.pageDirectory32⟩)) k'.service none

/-- The invariant of the start-up. -/
structure Starting (n : Nat) (k : Kernel) (waiting : Nat → Option Sched) : Prop where
  count : 0 < n ∧ n ≤ 3
  taken : ∀ p, p < n → k.procArr p ≠ .free
  free : ∀ p, n ≤ p → k.procArr p = .free
  init : k.schedArrInit = false
  launched : ∀ t, t < 3 → k.shellsRunning t = decide (t < n)
  base : (k.pcb 0).termNumber = 0
  service : k.service = n - 1
  esp0 : k.esp0 = stackTop (n - 1)
  page : k.pageDirectory32 = frameEntry (n - 1)
  stack : k.mode = .kernel → InStack (n - 1) k.esp
  saved : ∀ t, t < n - 1 → InStack t (k.schedArr t).esp ∧
    (k.schedArr t).oteMb = frameEntry t ∧ waiting t = some (k.schedArr t)
  unsaved : ∀ t, n - 1 ≤ t → waiting t = none

variable {n : Nat} {waiting : Nat → Option Sched}

theorem Starting.runsOn (h : Starting n k waiting) : k.RunsOn (n - 1) := by
  have hcount := h.count
  refine ⟨?_, h.taken _ (by omega), h.taken 0 (by omega), h.esp0, h.stack⟩
  simp only [maxProcesses]
  omega

theorem Starting.own (h : Starting n k waiting) (hstep : k.OwnStep k') :
    Starting n k' waiting := by
  have hsame := ownStep_sameSched hstep
  have hkept := hstep.kept h.runsOn
  obtain ⟨fileDesc, hpcb⟩ := hsame.pcb 0
  refine ⟨h.count, ?_, ?_, ?_, ?_, ?_, ?_, ?_, ?_, hkept.runs.stack, ?_, h.unsaved⟩
  · rw [hsame.procArr]
    exact h.taken
  · rw [hsame.procArr]
    exact h.free
  · rw [hsame.init]
    exact h.init
  · rw [hsame.shellsRunning]
    exact h.launched
  · rw [hpcb]
    exact h.base
  · rw [hsame.service]
    exact h.service
  · rw [hsame.esp0]
    exact h.esp0
  · rw [hsame.page]
    exact h.page
  · rw [hsame.schedArr]
    exact h.saved

/-- `entry` starts the base shell. -/
theorem starting_base {fs : FileSystem} {video frames : Nat → UInt8} {pcb : Nat → Pcb}
    {esp ebp : Nat} {args : ExecArgs}
    (h : (Kernel.boot fs video pcb frames esp ebp).executeNext args = some k) :
    Starting 1 k fun _ => none := by
  obtain ⟨-, process, cmd, frames', hfirst, rfl⟩ := Kernel.executeNext_some h
  have hzero : process = 0 := by
    by_contra hne
    exact hfirst.first 0 (Nat.pos_of_ne_zero hne) rfl
  subst hzero
  refine ⟨by omega, fun p hp => ?_, fun p hp => ?_, rfl, fun t ht => ?_, ?_, rfl, rfl, rfl, nofun,
    fun t ht => ?_, fun t _ => rfl⟩
  · obtain rfl : p = 0 := by omega
    simp [Kernel.started]
  · have hne : p ≠ 0 := by omega
    simp [Kernel.started, hne, Kernel.boot]
  · obtain rfl | rfl | rfl : t = 0 ∨ t = 1 ∨ t = 2 := by omega
    · rfl
    · rfl
    · rfl
  · simp [Kernel.started, Kernel.newPcb, Kernel.boot, Devices.boot]
  · omega

/-! ## What a tick does -/

theorem next_tick {esp ebp : Nat} {l : Launch} (h : k.next (.tick esp ebp l) = some k') :
    k.EntersAt esp ∧ k.pitHandler esp ebp l = some k' := by
  simp only [Kernel.next, Option.ite_none_right_eq_some] at h
  exact h

/-- The shell that the next tick launches, while one is missing. -/
def missingShell (k : Kernel) : Option Nat :=
  if k.shellsRunning 1 = false then some 1
  else if k.shellsRunning 2 = false then some 2
  else none

theorem missingShell_some (h : missingShell k = some n) :
    0 < n ∧ n < 3 ∧ k.shellsRunning n = false := by
  unfold missingShell at h
  split_ifs at h with hone htwo
  · cases h
    exact ⟨by omega, by omega, hone⟩
  · cases h
    exact ⟨by omega, by omega, htwo⟩

/-- The state from which `run_shell` calls `sys_execute`. -/
def launching (k : Kernel) (n : Nat) (dev : Devices) (sched : Sched) (l : Launch) : Kernel :=
  { k with
    mode := .kernel
    dev
    schedArr := Function.update k.schedArr (n - 1) sched
    shellsRunning := Function.update k.shellsRunning n true
    esp := l.esp
    ebp := l.ebp }

/-- A launch is a `sys_execute` from within the handler. -/
theorem launchShell_eq {esp ebp newTerm : Nat} {sched : Sched} {l : Launch}
    (hrunning : k.shellsRunning n = false) :
    (k.inHandler esp ebp newTerm).launchShell n sched l =
      (launching k n ((k.dev.serve newTerm).serveNew n) sched l).sysExecute l.args := by
  simp only [Kernel.inHandler, Kernel.launchShell, Kernel.runShell, Kernel.saveSched, hrunning,
    Bool.false_eq_true, if_false]
  rfl

/-- While shells are missing, the handler launches the next one. -/
theorem saveOrLaunch_missing (h : missingShell k = some n) {esp ebp newTerm currTerm : Nat}
    {sched : Sched} {l : Launch} :
    (k.inHandler esp ebp newTerm).saveOrLaunch currTerm sched l =
      (launching k n ((k.dev.serve newTerm).serveNew n) sched l).sysExecute l.args := by
  unfold missingShell at h
  by_cases hone : k.shellsRunning 1 = false
  · rw [if_pos hone] at h
    cases h
    rw [← launchShell_eq hone]
    exact if_pos hone
  · rw [if_neg hone] at h
    by_cases htwo : k.shellsRunning 2 = false
    · rw [if_pos htwo] at h
      cases h
      rw [← launchShell_eq htwo]
      exact (if_neg hone).trans (if_pos htwo)
    · rw [if_neg htwo] at h
      cases h

/-- With all shells launched, it saves the context, and patches the PCBs the first time. -/
theorem saveOrLaunch_complete (h : missingShell k = none) {esp ebp newTerm currTerm : Nat}
    {sched : Sched} {l : Launch} :
    (k.inHandler esp ebp newTerm).saveOrLaunch currTerm sched l =
      if k.schedArrInit = false then
        .ret 0 ((k.inHandler esp ebp newTerm).initShellPcbs.saveSched 2 sched)
      else .ret 0 ((k.inHandler esp ebp newTerm).saveSched currTerm sched) := by
  unfold missingShell at h
  by_cases hone : k.shellsRunning 1 = false
  · rw [if_pos hone] at h
    cases h
  · rw [if_neg hone] at h
    by_cases htwo : k.shellsRunning 2 = false
    · rw [if_pos htwo] at h
      cases h
    · exact (if_neg hone).trans (if_neg htwo)

/-- A tick that ends in user mode has launched the missing shell. -/
theorem pitHandler_user (h : missingShell k = some n) {esp ebp : Nat} {l : Launch}
    (htick : k.pitHandler esp ebp l = some k') (hmode : k'.mode = .user) :
    ∃ dev process cmd frames, dev.term.termInService = n ∧ Kernel.FirstFree k.procArr process ∧
      k' = (launching k n dev ⟨esp, ebp, k.pageDirectory32⟩ l).started process cmd frames := by
  dsimp only [Kernel.pitHandler] at htick
  rw [saveOrLaunch_missing h] at htick
  generalize k.termOf (k.getNextProc (k.pcb (processNumberOf esp)).termNumber) = newTerm at htick
  cases hexec : (launching k n ((k.dev.serve newTerm).serveNew n)
      ⟨esp, ebp, k.pageDirectory32⟩ l).sysExecute l.args with
  | fault =>
      rw [hexec] at htick
      cases htick
  | ret v k'' =>
      obtain ⟨-, rfl⟩ := Kernel.sysExecute_ret hexec
      rw [hexec] at htick
      cases htick
      cases hmode
  | user entry k'' =>
      obtain ⟨process, cmd, frames, hfirst, rfl⟩ := Kernel.sysExecute_user hexec
      rw [hexec] at htick
      cases htick
      exact ⟨(k.dev.serve newTerm).serveNew n, process, cmd, frames, rfl, hfirst, rfl⟩

/-- What a tick with all shells launched leaves alone, and the process it switches to. -/
structure Ticked (k k' : Kernel) (esp : Nat) : Prop where
  procArr : k'.procArr = k.procArr
  shellsRunning : k'.shellsRunning = k.shellsRunning
  init : k'.schedArrInit = true
  pcb : k.schedArrInit = true → k'.pcb = k.pcb
  mode : k'.mode = .kernel
  target : k'.esp0 = stackTop (k.getNextProc (k.pcb (processNumberOf esp)).termNumber)

theorem tick_complete (h : missingShell k = none) {esp ebp : Nat} {l : Launch}
    (hnext : k.next (.tick esp ebp l) = some k') : Ticked k k' esp := by
  obtain ⟨-, htick⟩ := next_tick hnext
  dsimp only [Kernel.pitHandler] at htick
  rw [saveOrLaunch_complete h] at htick
  by_cases hinit : k.schedArrInit = false
  · rw [if_pos hinit] at htick
    cases htick
    refine ⟨rfl, rfl, rfl, fun htrue => ?_, rfl, rfl⟩
    rw [hinit] at htrue
    cases htrue
  · have htrue : k.schedArrInit = true := Bool.not_eq_false _ ▸ hinit
    rw [if_neg hinit] at htick
    cases htick
    exact ⟨rfl, rfl, htrue, fun _ => rfl, rfl, rfl⟩

/-! ## The first two ticks -/

theorem Starting.missing (h : Starting n k waiting) (hn : n < 3) : missingShell k = some n := by
  have hcount := h.count
  rw [missingShell, h.launched 1 (by omega), h.launched 2 (by omega)]
  obtain rfl | rfl : n = 1 ∨ n = 2 := by omega
  · rfl
  · rfl

theorem Starting.complete (h : Starting 3 k waiting) : missingShell k = none := by
  rw [missingShell, h.launched 1 (by omega), h.launched 2 (by omega)]
  rfl

/-- A launch leads to the next stage. -/
theorem Starting.launch (h : Starting n k waiting) (hn : n < 3) {esp ebp : Nat} {l : Launch}
    (hnext : k.next (.tick esp ebp l) = some k') (hmode : k'.mode = .user) :
    Starting (n + 1) k'
      (Function.update waiting k.service (some ⟨esp, ebp, k.pageDirectory32⟩)) := by
  obtain ⟨hat, htick⟩ := next_tick hnext
  obtain ⟨dev, process, cmd, frames, hservice, hfirst, rfl⟩ :=
    pitHandler_user (h.missing hn) htick hmode
  have hcount := h.count
  -- The shells so far hold the slots below `n`.
  have hprocess : process = n := by
    have hge : ¬ process < n := fun hlt => h.taken process hlt hfirst.free
    have hle : ¬ n < process := fun hlt => hfirst.first n hlt (h.free n (Nat.le_refl n))
    omega
  subst hprocess
  have hstack := h.runsOn.inStack hat
  have hsub : process + 1 - 1 = process := Nat.add_sub_cancel process 1
  refine ⟨by omega, fun p hp => ?_, fun p hp => ?_, h.init, fun t ht => ?_, ?_, ?_, ?_, ?_, nofun,
    fun t ht => ?_, fun t ht => ?_⟩
  · show Function.update k.procArr process .running p ≠ .free
    by_cases hpn : p = process
    · rw [hpn, Function.update_self]
      nofun
    · rw [Function.update_of_ne hpn]
      exact h.taken p (by omega)
  · show Function.update k.procArr process .running p = .free
    have hpn : p ≠ process := by omega
    rw [Function.update_of_ne hpn]
    exact h.free p (by omega)
  · show Function.update k.shellsRunning process true t = decide (t < process + 1)
    by_cases htn : t = process
    · rw [htn, Function.update_self, decide_eq_true (Nat.lt_succ_self process)]
    · have hiff : t < process ↔ t < process + 1 := by omega
      rw [Function.update_of_ne htn, h.launched t ht, decide_eq_decide]
      exact hiff
  · show (Function.update k.pcb process _ 0).termNumber = 0
    have hne : (0 : Nat) ≠ process := by omega
    rw [Function.update_of_ne hne]
    exact h.base
  · rw [hsub]
    exact hservice
  · rw [hsub]
    rfl
  · rw [hsub]
    rfl
  · show InStack t (Function.update k.schedArr (process - 1) _ t).esp ∧
      (Function.update k.schedArr (process - 1) _ t).oteMb = frameEntry t ∧
      Function.update waiting k.service _ t = some (Function.update k.schedArr (process - 1) _ t)
    rw [h.service]
    by_cases htn : t = process - 1
    · subst htn
      rw [Function.update_self, Function.update_self]
      exact ⟨hstack, h.page, rfl⟩
    · rw [Function.update_of_ne htn, Function.update_of_ne htn]
      exact h.saved t (by omega)
  · rw [h.service, Function.update_of_ne (by omega)]
    exact h.unsaved t (by omega)

theorem startUp_starting (h : StartUp n k waiting) : Starting n k waiting := by
  induction h with
  | base hexec => exact starting_base hexec
  | own _ hstep ih => exact ih.own hstep
  | launch _ hn htick hmode ih => exact ih.launch hn htick hmode

/-! ## The third tick -/

/-- The interrupted context is saved for the terminal that was in service and for no other, and the
one saved for the terminal that is in service now is resumed. -/
structure Switched (k k' : Kernel) (sched : Sched) : Prop where
  kernel : k'.mode = .kernel
  saved : k'.schedArr = Function.update k.schedArr k.service sched
  resumed : k'.schedArr k'.service = ⟨k'.esp, k'.ebp, k'.pageDirectory32⟩

theorem initShellPcbs_eq (k : Kernel) : ∃ pcb,
    k.initShellPcbs = { k with schedArrInit := true, pcb } ∧ (pcb 0).termNumber =
      (k.pcb 0).termNumber ∧ (pcb 1).termNumber = 1 ∧ (pcb 2).termNumber = 2 :=
  ⟨k.initShellPcbs.pcb, rfl, rfl, rfl, rfl⟩

/-- Without programs on top of the shells, the next shell is chosen. -/
theorem Starting.getNextProc_eq (h : Starting 3 k waiting) (curTerm : Nat) :
    k.getNextProc curTerm = (curTerm + 1) % 3 := by
  rw [getNextProc_scan]
  have howner : ∀ i, 3 ≤ i →
      (if k.procArr i ≠ .free then some (k.pcb i).termNumber else none) = none := fun i hlo =>
    if_neg (not_not.2 (h.free i hlo))
  obtain ⟨hstay, -⟩ | ⟨hlo, -, hmatch, -⟩ := Stacks.scan_cases
      (fun i => if k.procArr i ≠ .free then some (k.pcb i).termNumber else none) 3 3
      ((curTerm + 1) % 3) (fun i r hlo _ hsome => by rw [howner i hlo] at hsome; cases hsome)
  · exact hstay
  · rw [howner _ hlo] at hmatch
    cases hmatch

/-- After the third tick the scheduler's invariant holds. -/
theorem Starting.finish (h : Starting 3 k waiting) {esp ebp : Nat} {l : Launch}
    (hnext : k.next (.tick esp ebp l) = some k') :
    Ready k' (fun _ => []) ∧ Switched k k' ⟨esp, ebp, k.pageDirectory32⟩ := by
  obtain ⟨hat, htick⟩ := next_tick hnext
  have hstack : InStack 2 esp := h.runsOn.inStack hat
  dsimp only [Kernel.pitHandler] at htick
  rw [h.getNextProc_eq, saveOrLaunch_complete h.complete, if_pos h.init] at htick
  have hlt : ((k.pcb (processNumberOf esp)).termNumber + 1) % 3 < 3 := Nat.mod_lt _ (by omega)
  generalize ((k.pcb (processNumberOf esp)).termNumber + 1) % 3 = next at htick hlt
  have hterm : k.termOf next = next := if_pos hlt
  rw [hterm] at htick
  obtain ⟨pcb, hinit, hbase, hpcb1, hpcb2⟩ := initShellPcbs_eq (k.inHandler esp ebp next)
  rw [hinit] at htick
  cases htick
  -- Every shell's context lies on the shell's stack, the interrupted one included.
  have hsaved : ∀ t, t < 3 →
      InStack t (Function.update k.schedArr 2 ⟨esp, ebp, k.pageDirectory32⟩ t).esp ∧
        (Function.update k.schedArr 2 ⟨esp, ebp, k.pageDirectory32⟩ t).oteMb = frameEntry t := by
    intro t ht
    by_cases htwo : t = 2
    · subst htwo
      rw [Function.update_self]
      exact ⟨hstack, h.page⟩
    · rw [Function.update_of_ne htwo]
      obtain ⟨hesp, hote, -⟩ := h.saved t (by omega)
      exact ⟨hesp, hote⟩
  have hshell : ∀ t, t < 3 → (pcb t).termNumber = t := by
    intro t ht
    obtain rfl | rfl | rfl : t = 0 ∨ t = 1 ∨ t = 2 := by omega
    · exact hbase.trans h.base
    · exact hpcb1
    · exact hpcb2
  refine ⟨⟨?_, rfl, ⟨h.launched 1 (by omega), h.launched 2 (by omega)⟩, hlt, rfl,
    (hsaved next hlt).2, fun _ => (hsaved next hlt).1, fun t ht _ => hsaved t ht⟩, rfl, ?_, rfl⟩
  · refine ⟨Stacks.ordered_empty, fun t ht => ⟨h.taken t ht, hshell t ht⟩,
      fun t n hmem => absurd hmem List.not_mem_nil, fun n hlo _ hlive => ?_, fun _ _ => trivial⟩
    exact absurd (h.free n hlo) hlive
  · rw [h.service]
    rfl

/-- The start-up establishes the invariant of the scheduler. -/
theorem ready_of_shellsReady (h : ShellsReady k' waiting) : Ready k' fun _ => [] := by
  obtain ⟨k, before, esp, ebp, l, hup, hnext, -⟩ := h
  exact ((startUp_starting hup).finish hnext).1

/-- After the start-up the contexts of the two terminals that are not in service are waiting. -/
theorem waiting_of_shellsReady (h : ShellsReady k' waiting) : waiting k'.service = none ∧
    ∀ t, t < 3 → t ≠ k'.service → waiting t = some (k'.schedArr t) := by
  obtain ⟨k, before, esp, ebp, l, hup, hnext, rfl⟩ := h
  have hstart := startUp_starting hup
  obtain ⟨-, hswitched⟩ := hstart.finish hnext
  refine ⟨Function.update_self .., fun t ht hne => ?_⟩
  rw [Function.update_of_ne hne, hswitched.saved, hstart.service]
  by_cases htwo : t = 2
  · subst htwo
    rw [Function.update_self, Function.update_self]
  · rw [Function.update_of_ne htwo, Function.update_of_ne htwo]
    exact (hstart.saved t (by omega)).2.2

/-- A launch with nothing behind the string. -/
def bareLaunch (esp ebp : Nat) : Launch := ⟨esp, ebp, fun _ => 0, [], []⟩

/-- A tick that launches a shell. -/
def launchNext (k : Kernel) (esp ebp : Nat) : Option Kernel :=
  (k.next (.tick esp ebp (bareLaunch esp ebp))).filter fun k => k.mode = .user

/-- The small image booted up to the third tick. -/
def bootedShells : Option Kernel :=
  ((Kernel.boot shellFs (fun _ => 0) (fun _ => Pcb.zero) (fun _ => 0) 0x7FFF00 0x7FFF80).executeNext
    (bareLaunch 0 0).args).bind fun k₁ =>
  (launchNext k₁ 0x7FFE00 0x7FFE80).bind fun k₂ =>
  (launchNext k₂ 0x7FDE00 0x7FDE80).bind fun k₃ =>
  k₃.next (.tick 0x7FBE00 0x7FBE80 (bareLaunch 0 0))

theorem bootedShells_ready (h : bootedShells = some k) : ∃ waiting, ShellsReady k waiting := by
  simp only [bootedShells, launchNext, Option.bind_eq_some_iff, Option.filter_eq_some_iff,
    decide_eq_true_eq] at h
  obtain ⟨k₁, hbase, k₂, ⟨hfirst, hmode₂⟩, k₃, ⟨hsecond, hmode₃⟩, hthird⟩ := h
  have hup := StartUp.launch (StartUp.launch (StartUp.base hbase) (by omega) hfirst hmode₂)
    (by omega) hsecond hmode₃
  exact ⟨_, k₃, _, _, _, _, hup, hthird, rfl⟩

end Ece391Kernel
