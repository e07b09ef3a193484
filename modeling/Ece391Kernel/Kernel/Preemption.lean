import Ece391Kernel.Kernel.Scheduling

/-!
# `sys_execute` and `sys_halt` with ticks between their statements

System calls run with interrupts enabled, so a tick may come between any two statements of
`sys_execute` and `sys_halt`. Here the statements that read or write the process table, a PCB, the
page directory or the TSS are taken one at a time; the stretches behind `cli` are one step each, and
so are stretches of statements on locals and the image only. A tick saves where the interrupted
context is, with its registers, next to what `pit_handler` saves in `sched_arr`, and goes on where
the resumed context was.

`stmts_execute` and `stmts_halt` say that without a tick the statements do what `sysExecute` and
`sysHalt` do.
-/

namespace Ece391Kernel

open Transition

/-! ## Control points -/

/-- The locals of a `sys_execute` that has claimed a slot. `count` says which occupant of the slot
it is for: how often the slot has been claimed. -/
structure Claim where
  parentPid : Nat
  process : Nat
  count : Nat

/-- Where a context is, with the locals that are live there: outside both system calls, or before a
statement of one of them. -/
inductive Point where
  | outside
  -- `sys_execute`
  | search (args : ExecArgs) (parentPid procIt : Nat)
  | claim (args : ExecArgs) (parentPid process : Nat)
  | check (args : ExecArgs) (c : Claim)
  | release (c : Claim)
  | readPage (c : Claim) (cmd : Command) (prog : Program)
  | setPage (c : Claim) (cmd : Command) (prog : Program) (parPhysAddr : Nat)
  | load (c : Claim) (cmd : Command) (prog : Program) (parPhysAddr : Nat)
  | build (c : Claim) (cmd : Command) (parPhysAddr : Nat)
  | publish (c : Claim) (pcb : Pcb)
  | setEsp0 (process : Nat)
  | start (process : Nat)
  -- `sys_halt`
  | close (process fd : Nat)
  | haltEsp0 (process : Nat)
  | haltPage (process : Nat)
  | free (process : Nat)
  | leave (process : Nat)

/-- Outside both system calls. -/
def Point.isOutside : Point → Bool
  | .outside => true
  | .search .. | .claim .. | .check .. | .release .. | .readPage .. | .setPage .. | .load ..
  | .build .. | .publish .. | .setEsp0 .. | .start .. | .close .. | .haltEsp0 .. | .haltPage ..
  | .free .. | .leave .. => false

/-- A context that a tick interrupted: its registers and where it was. -/
structure Context where
  esp : Nat
  ebp : Nat
  point : Point

/-- The return from `pit_handler` into a context that was interrupted in a system call. One that was
interrupted outside goes on in the handler. -/
def Context.restore (c : Context) (k : Kernel) : Kernel :=
  if c.point.isOutside then k else { k with esp := c.esp, ebp := c.ebp }

/-- The kernel with the point of the running context, and for each terminal the context that the
registers in `sched_arr` belong to. `waiting` says for which terminals that context has not been
resumed since. `occupant` counts the claims of a slot, and `writer` says which of its occupants
wrote its PCB. -/
structure Preempt where
  kernel : Kernel
  point : Point
  saved : Nat → Context
  waiting : Nat → Bool
  occupant : Nat → Nat
  writer : Nat → Nat

/-- The kernel at the end of the start-up, with the shells of the other two terminals waiting
outside both system calls, and each PCB written by the shell in its slot. -/
def Preempt.start (k : Kernel) : Preempt where
  kernel := k
  point := .outside
  saved := fun _ => ⟨0, 0, .outside⟩
  waiting := fun t => t < numTerms ∧ t ≠ k.service
  occupant := fun _ => 0
  writer := fun _ => 0

namespace Preempt

variable (s : Preempt)

/-! ## Statements -/

/-- The running context goes on at another point. -/
def goto (point : Point) : Preempt := { s with point }

/-- It goes on there with another kernel. -/
def step (kernel : Kernel) (point : Point) : Preempt := { s with kernel, point }

/-- The next statement of the system call that the running context is in. `callerEbp` is the frame
pointer that `leave` finds on the stack of the parent. -/
def stmt (callerEbp : Nat) : Option Preempt :=
  let k := s.kernel
  match s.point with
  | .outside => none
  | .search args parentPid procIt =>
      if maxProcesses ≤ procIt then some (s.goto .outside)
      else if k.procArr procIt = .free then some (s.goto (.claim args parentPid procIt))
      else some (s.goto (.search args parentPid (procIt + 1)))
  | .claim args parentPid process =>
      let count := s.occupant process + 1
      some { s with
        kernel := k.setProc process .running
        point := .check args ⟨parentPid, process, count⟩
        occupant := Function.update s.occupant process count }
  | .check args c =>
      match args.parse with
      | none => some (s.goto (.release c))
      | some cmd =>
          match k.fs.checkExecutable args cmd.filename with
          | none => none
          | some none => some (s.goto (.release c))
          | some (some prog) => some (s.goto (.readPage c cmd prog))
  | .release c => some (s.step (k.setProc c.process .free) .outside)
  | .readPage c cmd prog => some (s.goto (.setPage c cmd prog k.pageDirectory32))
  | .setPage c cmd prog parPhysAddr =>
      some (s.step (k.setPage (frameEntry c.process)) (.load c cmd prog parPhysAddr))
  | .load c cmd prog parPhysAddr =>
      (k.loadProgram prog).map fun k => s.step k (.build c cmd parPhysAddr)
  | .build c cmd parPhysAddr => some (s.goto (.publish c (k.newPcb c.parentPid parPhysAddr cmd)))
  | .publish c pcb =>
      some { s with
        kernel := k.setPcb c.process pcb
        point := .setEsp0 c.process
        writer := Function.update s.writer c.process c.count }
  | .setEsp0 process => some (s.step (k.setEsp0 process) (.start process))
  | .start _ => some (s.step k.iret .outside)
  | .close process fd =>
      (k.sysClose fd).map fun r =>
        s.step r.2 (if fd + 1 < maxTask then .close process (fd + 1) else .haltEsp0 process)
  | .haltEsp0 process =>
      some (s.step (k.setEsp0 (k.pcb process).parentPid) (.haltPage process))
  | .haltPage process => some (s.step (k.setPage (k.pcb process).parentPhysAddr) (.free process))
  | .free process => some (s.step (k.setProc process .free) (.leave process))
  | .leave process =>
      some (s.step (k.leaveRet (k.pcb process).parentEbp callerEbp) .outside)

/-! ## Ticks -/

/-- A tick. -/
def tick (esp ebp : Nat) (l : Launch) : Option Preempt := do
  let k ← s.kernel.next (.tick esp ebp l)
  let currTerm := (s.kernel.pcb (processNumberOf esp)).termNumber
  let saved := Function.update s.saved currTerm ⟨s.kernel.esp, s.kernel.ebp, s.point⟩
  let resumed := saved k.service
  some { s with
    kernel := resumed.restore k
    point := resumed.point
    saved
    waiting := Function.update (Function.update s.waiting currTerm true) k.service false }

end Preempt

/-! ## The system -/

/-- What may happen: a step of the running process by itself, a key, the call of `sys_execute` or
`sys_halt`, the next statement of the call that the process is in, and a tick. -/
inductive PreemptEvent where
  | own (event : OwnEvent)
  | execute (args : ExecArgs)
  | halt
  | stmt (callerEbp : Nat)
  | tick (esp ebp : Nat) (launch : Launch)

/-- Keys may be pressed at any point; a process does nothing else by itself while it is in one of
the two calls, and its calls of `sys_execute` are never one step. -/
def Preempt.admits (s : Preempt) : OwnEvent → Bool
  | .key _ _ => true
  | .fail _ => false
  | .trap _ _ | .iret | .code _ _ | .store _ | .call _ => s.point.isOutside

/-- One step, if it is possible. -/
def Preempt.next (s : Preempt) : PreemptEvent → Option Preempt
  | .own e => if s.admits e then (s.kernel.ownNext e).map fun k => { s with kernel := k } else none
  | .execute args =>
      if s.point.isOutside ∧ s.kernel.InFrame then
        some (s.goto (.search args s.kernel.getProcessNumber 0))
      else none
  | .halt =>
      if s.point.isOutside ∧ s.kernel.mode = .kernel then
        some (if s.kernel.getProcessNumber = 0 then s
          else s.goto (.close s.kernel.getProcessNumber minTask))
      else none
  | .stmt callerEbp => s.stmt callerEbp
  | .tick esp ebp l => s.tick esp ebp l

/-- A step of the system. -/
def PreemptStep (s : Preempt) (e : PreemptEvent) (s' : Preempt) : Prop := s.next e = some s'

/-! ## Calls without a tick -/

/-- Some statements of the running context, one after the other. -/
def Stmts (callerEbp : Nat) (s s' : Preempt) : Prop :=
  ∃ n, Run PreemptStep s (List.replicate n (.stmt callerEbp)) s'

variable {s s' : Preempt} {callerEbp : Nat}

theorem Stmts.refl (s : Preempt) : Stmts callerEbp s s := ⟨0, .nil s⟩

theorem Stmts.trans {s'' : Preempt} (h : Stmts callerEbp s s') (h' : Stmts callerEbp s' s'') :
    Stmts callerEbp s s'' := by
  obtain ⟨n, hrun⟩ := h
  obtain ⟨m, hrun'⟩ := h'
  refine ⟨n + m, ?_⟩
  rw [← List.replicate_append_replicate]
  exact hrun.append hrun'

/-- One statement, and then others. -/
theorem Stmts.cons {s'' : Preempt} (h : s.stmt callerEbp = some s') (h' : Stmts callerEbp s' s'') :
    Stmts callerEbp s s'' :=
  Stmts.trans ⟨1, .single h⟩ h'

section Statements

variable {args : ExecArgs} {parentPid : Nat} (callerEbp)

/-- The search stops before the claim of the slot that `findFree` finds. -/
theorem stmts_search {i n : Nat} (hn : i + n = maxProcesses)
    (hpoint : s.point = .search args parentPid i) :
    Stmts callerEbp s (match Kernel.findFree s.kernel.procArr i n with
      | some process => s.goto (.claim args parentPid process)
      | none => s.goto .outside) := by
  induction n generalizing s i with
  | zero =>
      refine .cons ?_ (.refl _)
      have hend : maxProcesses ≤ i := by omega
      rw [Preempt.stmt, hpoint]
      exact if_pos hend
  | succ n ih =>
      have hlt : ¬ maxProcesses ≤ i := by omega
      by_cases hfree : s.kernel.procArr i = .free
      · refine .cons ?_ (.refl _)
        rw [Preempt.stmt, hpoint, Kernel.findFree, if_pos hfree]
        dsimp only
        rw [if_neg hlt, if_pos hfree]
      · have hnext : s.stmt callerEbp = some (s.goto (.search args parentPid (i + 1))) := by
          rw [Preempt.stmt, hpoint]
          dsimp only
          rw [if_neg hlt, if_neg hfree]
        rw [Kernel.findFree, if_neg hfree]
        exact .cons hnext (ih (by omega) rfl)

/-- From the check on, the statements do what `startProgram` does. -/
theorem stmts_startProgram {c : Claim} (cmd : Command) {prog : Program} {loaded : Kernel}
    (hparent : c.parentPid = s.kernel.getProcessNumber)
    (hload : (s.kernel.setPage (frameEntry c.process)).loadProgram prog = some loaded) :
    ∃ s', Stmts callerEbp (s.goto (.readPage c cmd prog)) s' ∧
      (s.kernel.startProgram c.process cmd prog).kernel = some s'.kernel ∧ s'.point = .outside := by
  have hread : (s.goto (.readPage c cmd prog)).stmt callerEbp =
      some (s.goto (.setPage c cmd prog s.kernel.pageDirectory32)) := rfl
  have hset : (s.goto (.setPage c cmd prog s.kernel.pageDirectory32)).stmt callerEbp =
      some (s.step (s.kernel.setPage (frameEntry c.process))
        (.load c cmd prog s.kernel.pageDirectory32)) := rfl
  have hload' : (s.step (s.kernel.setPage (frameEntry c.process))
      (.load c cmd prog s.kernel.pageDirectory32)).stmt callerEbp =
      some (s.step loaded (.build c cmd s.kernel.pageDirectory32)) := by
    rw [Preempt.stmt]
    dsimp only [Preempt.step]
    rw [hload]
    rfl
  refine ⟨_, .cons hread (.cons hset (.cons hload' (.cons rfl (.cons rfl (.cons rfl (.cons rfl
    (.refl _))))))), ?_, rfl⟩
  simp only [Kernel.startProgram, hload]
  rw [← hparent]
  rfl

/-- From the claim on, the statements do what `executeIn` does. -/
theorem stmts_executeIn {c : Claim} {k' : Kernel} (hpoint : s.point = .check args c)
    (hparent : c.parentPid = s.kernel.getProcessNumber)
    (h : (s.kernel.executeIn c.process args).kernel = some k') :
    ∃ s', Stmts callerEbp s s' ∧ s'.kernel = k' ∧ s'.point = .outside := by
  have hrelease : ∀ u : Preempt, u.point = .release c →
      Stmts callerEbp u (u.step (u.kernel.setProc c.process .free) .outside) := by
    intro u hu
    refine .cons ?_ (.refl _)
    rw [Preempt.stmt, hu]
  unfold Kernel.executeIn at h
  cases hparse : args.parse with
  | none =>
      rw [hparse] at h
      cases h
      have hstep : s.stmt callerEbp = some (s.goto (.release c)) := by
        rw [Preempt.stmt, hpoint]
        dsimp only
        rw [hparse]
      exact ⟨_, .cons hstep (hrelease _ rfl), rfl, rfl⟩
  | some cmd =>
      rw [hparse] at h
      dsimp only at h
      have hcheck : s.stmt callerEbp = match s.kernel.fs.checkExecutable args cmd.filename with
          | none => none
          | some none => some (s.goto (.release c))
          | some (some prog) => some (s.goto (.readPage c cmd prog)) := by
        rw [Preempt.stmt, hpoint]
        dsimp only
        rw [hparse]
      cases hfile : s.kernel.fs.checkExecutable args cmd.filename with
      | none =>
          rw [hfile] at h
          cases h
      | some found =>
          rw [hfile] at h hcheck
          cases found with
          | none =>
              cases h
              exact ⟨_, .cons hcheck (hrelease _ rfl), rfl, rfl⟩
          | some prog =>
              cases hload : (s.kernel.setPage (frameEntry c.process)).loadProgram prog with
              | none =>
                  simp only [Kernel.startProgram, hload] at h
                  cases h
              | some loaded =>
                  obtain ⟨s', hrun, hkernel, hpoint'⟩ :=
                    stmts_startProgram callerEbp cmd hparent hload
                  exact ⟨s', .cons hcheck hrun, Option.some.inj (hkernel.symm.trans h), hpoint'⟩

/-- A call of `sys_execute` without a tick does what `sysExecute` does. -/
theorem stmts_execute {k' : Kernel} (hout : s.point = .outside) (hframe : s.kernel.InFrame)
    (h : (s.kernel.sysExecute args).kernel = some k') :
    ∃ u s', PreemptStep s (.execute args) u ∧ Stmts callerEbp u s' ∧ s'.kernel = k' ∧
      s'.point = .outside := by
  have hcall : PreemptStep s (.execute args)
      (s.goto (.search args s.kernel.getProcessNumber 0)) := by
    show (if s.point.isOutside ∧ s.kernel.InFrame then _ else none) = _
    rw [hout]
    exact if_pos ⟨rfl, hframe⟩
  have hsearch := stmts_search (s := s.goto (.search args s.kernel.getProcessNumber 0))
    callerEbp (Nat.zero_add maxProcesses) rfl
  refine ⟨s.goto (.search args s.kernel.getProcessNumber 0), ?_⟩
  unfold Kernel.sysExecute at h
  cases hfind : Kernel.findFree s.kernel.procArr 0 maxProcesses with
  | none =>
      rw [hfind] at h
      cases h
      have hend : Kernel.findFree (s.goto (.search args s.kernel.getProcessNumber 0)).kernel.procArr
          0 maxProcesses = none := hfind
      rw [hend] at hsearch
      exact ⟨_, hcall, hsearch, rfl, rfl⟩
  | some process =>
      rw [hfind] at h
      have hfound : Kernel.findFree
          (s.goto (.search args s.kernel.getProcessNumber 0)).kernel.procArr 0 maxProcesses =
          some process := hfind
      rw [hfound] at hsearch
      obtain ⟨s', hrest, hkernel, hpoint⟩ := stmts_executeIn callerEbp
        (s := { s with
          kernel := s.kernel.setProc process .running
          point := .check args ⟨s.kernel.getProcessNumber, process, s.occupant process + 1⟩
          occupant := Function.update s.occupant process (s.occupant process + 1) })
        rfl rfl h
      exact ⟨s', hcall, hsearch.trans (.cons rfl hrest), hkernel, hpoint⟩

/-- The loop that closes the descriptors, up to its `n`th iteration. -/
theorem stmts_close {process n : Nat} {k' : Kernel} (hpoint : s.point = .close process minTask)
    (hn : n ≤ 6)
    (h : forRange (fun ok fd => ok.bind fun k => (k.sysClose fd).map Prod.snd) 2 n
      (some s.kernel) = some k') :
    Stmts callerEbp s (s.step k'
      (if minTask + n < maxTask then .close process (minTask + n) else .haltEsp0 process)) := by
  induction n generalizing k' with
  | zero =>
      cases h
      have hself : s.step s.kernel (.close process minTask) = s := by
        rw [← hpoint]
        rfl
      rw [Nat.add_zero, if_pos (by decide), hself]
      exact .refl s
  | succ n ih =>
      simp only [forRange, Option.bind_eq_some_iff, Option.map_eq_some_iff] at h
      obtain ⟨m, hm, r, hclose, rfl⟩ := h
      have hlt : minTask + n < maxTask := by
        simp only [minTask, maxTask]
        omega
      have hbefore := ih (by omega) hm
      rw [if_pos hlt] at hbefore
      refine hbefore.trans (.cons ?_ (.refl _))
      rw [Preempt.stmt]
      dsimp only [Preempt.step]
      rw [hclose]
      rfl

/-- A call of `sys_halt` without a tick does what `sysHalt` does. -/
theorem stmts_halt {status : UInt8} {k' : Kernel} (hout : s.point = .outside)
    (hmode : s.kernel.mode = .kernel) (h : (s.kernel.sysHalt status callerEbp).kernel = some k') :
    ∃ u s', PreemptStep s .halt u ∧ Stmts callerEbp u s' ∧ s'.kernel = k' ∧
      s'.point = .outside := by
  have hcall : PreemptStep s .halt (if s.kernel.getProcessNumber = 0 then s
      else s.goto (.close s.kernel.getProcessNumber minTask)) := by
    show (if s.point.isOutside ∧ s.kernel.mode = .kernel then _ else none) = _
    rw [hout]
    exact if_pos ⟨rfl, hmode⟩
  by_cases hbase : s.kernel.getProcessNumber = 0
  · rw [Kernel.sysHalt_base hbase] at h
    cases h
    rw [if_pos hbase] at hcall
    exact ⟨s, s, hcall, .refl s, rfl, hout⟩
  · rw [if_neg hbase] at hcall
    dsimp only [Kernel.sysHalt] at h
    rw [if_neg hbase] at h
    cases hclosed : s.kernel.closeAll with
    | none =>
        rw [hclosed] at h
        cases h
    | some closed =>
        rw [hclosed] at h
        cases h
        have hclose := stmts_close (s := s.goto (.close s.kernel.getProcessNumber minTask))
          callerEbp rfl (Nat.le_refl 6) hclosed
        exact ⟨_, _, hcall, hclose.trans (.cons rfl (.cons rfl (.cons rfl (.cons rfl (.refl _))))),
          rfl, rfl⟩

end Statements

end Ece391Kernel
