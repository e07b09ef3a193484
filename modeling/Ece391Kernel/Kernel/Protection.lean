import Ece391Kernel.Kernel.CommandParsing
import Ece391Kernel.Kernel.Containment
import Ece391Kernel.Kernel.Roots

/-!
# What user code can ever write to

Every entry of the user page that the kernel keeps, in a PCB or in `sched_arr`, is that of a frame
of some process or maps nothing, whatever the order of starts, exits, ticks and key presses:
`Shielded`. So user code never reaches more than those frames and the pages of the screens
(`user_code_confined`), not even in the runs in which the scheduler confuses processes.

The kernel checks none of the pointers that it is passed, and lets two of its loops run past their
arrays. `StaysInside` is what a step must keep to, and the protection is that of runs whose steps
all do: a `sys_read` of four bytes to the page directory entry in a PCB undoes it.
-/

namespace Ece391Kernel

open Transition

variable {k k' : Kernel} {S T : Nat → Prop}

/-! ## The kernel with all of its system calls -/

/-- The steps of the kernel, and the two system calls that they leave out. -/
inductive SystemEvent where
  | kernel (event : KernelEvent)
  | getargs (buf : Nat) (nbytes : Int)
  | vidmap (screenStart : Nat)

/-- One step, if it is possible. -/
def Kernel.systemNext (k : Kernel) : SystemEvent → Option Kernel
  | .kernel event => k.next event
  | .getargs buf nbytes =>
      if k.mode = .kernel then (k.sysGetargs buf nbytes).map fun r => r.2.2 else none
  | .vidmap screenStart =>
      if k.mode = .kernel then (k.sysVidmap screenStart).map fun r => r.2.2 else none

/-- A step of the kernel with all of its system calls. Calls that store or read outside the user
page of the caller do not return here. -/
def SystemStep (k : Kernel) (e : SystemEvent) (k' : Kernel) : Prop := k.systemNext e = some k'

/-- The step stores and reads where it is meant to: through a pointer of the caller only in the
caller's user page, a command name only in `filename`, and a key only in `kbd_buf`. -/
def StaysInside (k : Kernel) : SystemEvent → Prop
  | .kernel (.own (.call (.read fd buf nbytes))) => k.Confined (.read fd buf nbytes)
  | .kernel (.own (.call (.write fd buf nbytes))) => InUserPage buf (k.writeCount fd buf nbytes)
  | .kernel (.own (.key _ _)) => k.dev.kbd.kbdBufIdx.toNat < maxBuf
  | .kernel (.own (.fail args)) => ∀ i ∈ args.filenameStores, i < maxFilenameLength
  | .kernel (.execute args) => ∀ i ∈ args.filenameStores, i < maxFilenameLength
  | .getargs buf nbytes => k.Confined (.getargs buf nbytes)
  | .vidmap screenStart => k.Confined (.vidmap screenStart)
  | _ => True

instance (k : Kernel) (call : UserCall) : Decidable (k.Confined call) :=
  inferInstanceAs (Decidable (∀ i, i < _ → _))

instance (addr n : Nat) : Decidable (InUserPage addr n) := inferInstanceAs (Decidable (_ ∨ _))

instance (k : Kernel) (e : SystemEvent) : Decidable (StaysInside k e) := by
  unfold StaysInside
  split <;> infer_instance

/-! ## The invariant -/

/-- A PCB of a process that was started: its parent was, the page it restores is a user page, and
its parent's frame is on the stack of a process that was started. -/
structure PcbOk (S : Nat → Prop) (pcb : Pcb) : Prop where
  parent : S pcb.parentPid
  page : UserEntry pcb.parentPhysAddr
  frame : S (processNumberOf (pcb.parentEbp + 8))
  term : pcb.termNumber < 3

/-- `S` are the processes that were ever started. -/
structure Shielded (k : Kernel) (S : Nat → Prop) : Prop where
  small : ∀ q, S q → q < maxProcesses
  shells : ∀ t, t < 3 → S t
  live : ∀ q, k.procArr q ≠ .free → S q
  init : k.schedArrInit = true
  launched : missingShell k = none
  page : UserEntry k.pageDirectory32
  video : VideoEntry k.dev.videoEntry
  terms : k.dev.TermsIn
  esp0 : ∃ q, S q ∧ k.esp0 = stackTop q
  stack : k.mode = .kernel → S k.getProcessNumber
  pcb : ∀ q, S q → PcbOk S (k.pcb q)
  saved : ∀ t, t < 3 → UserEntry (k.schedArr t).oteMb ∧ S (processNumberOf (k.schedArr t).esp)

theorem PcbOk.mono {pcb : Pcb} (h : PcbOk S pcb) (hsub : ∀ q, S q → T q) : PcbOk T pcb :=
  ⟨hsub _ h.parent, h.page, hsub _ h.frame, h.term⟩

/-- The entry that names the screen of a terminal. -/
theorem videoEntry_vidEntry {term : Nat} (cur : Nat) (h : term < 3) :
    VideoEntry (vidEntry term cur) := by
  unfold vidEntry
  split_ifs
  · exact .inl rfl
  · exact .inr ⟨term, h, rfl⟩

namespace Shielded

/-! ## Steps of one process -/

theorem contained (h : Shielded k S) (hcall : k.Contained k') : Shielded k' S := by
  have hterms := hcall.own.terms
  have hvideo : VideoEntry k'.dev.videoEntry := by
    rcases hcall.video with hsame | hput
    · rw [hsame]
      exact h.video
    · rw [hput]
      exact videoEntry_vidEntry _ h.terms.service
  have hin : k'.dev.TermsIn := ⟨hterms.1 ▸ h.terms.cur, hterms.2 ▸ h.terms.service⟩
  obtain ⟨dev, frames, dirLocation, fileDesc, -, rfl⟩ := hcall.own
  refine ⟨h.small, h.shells, h.live, h.init, h.launched, h.page, hvideo, hin, h.esp0, h.stack, ?_,
    h.saved⟩
  intro q hq
  show PcbOk S (Function.update k.pcb k.getProcessNumber { k.currentPcb with fileDesc } q)
  by_cases hown : q = k.getProcessNumber
  · rw [hown, Function.update_self]
    obtain ⟨hparent, hpage, hframe, hterm⟩ := h.pcb _ (hown ▸ hq)
    exact ⟨hparent, hpage, hframe, hterm⟩
  · rw [Function.update_of_ne hown]
    exact h.pcb q hq

/-- An interrupt or a system call enters the kernel on the stack of a process that was started. -/
theorem enters (h : Shielded k S) {esp : Nat} (hat : k.EntersAt esp) : S (processNumberOf esp) := by
  unfold Kernel.EntersAt at hat
  cases hmode : k.mode with
  | user =>
      rw [hmode] at hat
      obtain ⟨hlt, hesp0, -⟩ := hat
      obtain ⟨q, hq, htop⟩ := h.esp0
      rw [stackTop_injective hlt (h.small q hq) (hesp0.symm.trans htop)]
      exact hq
  | kernel =>
      rw [hmode] at hat
      have hnumber := h.stack hmode
      rw [processNumberOf_inStack (h.small _ hnumber) hat]
      exact hnumber

theorem own (h : Shielded k S) (hstep : k.OwnStep k') : Shielded k' S := by
  obtain ⟨e, hnext⟩ := hstep
  cases e with
  | trap esp ebp =>
      simp only [Kernel.ownNext, Option.ite_none_right_eq_some, Option.some.injEq] at hnext
      obtain ⟨⟨-, hat⟩, rfl⟩ := hnext
      exact { h with stack := fun _ => h.enters hat }
  | iret =>
      simp only [Kernel.ownNext, Option.ite_none_right_eq_some, Option.some.injEq] at hnext
      obtain ⟨-, rfl⟩ := hnext
      exact { h with stack := fun hmode => by cases hmode }
  | code esp ebp =>
      simp only [Kernel.ownNext, Option.ite_none_right_eq_some, Option.some.injEq] at hnext
      obtain ⟨⟨-, hat⟩, rfl⟩ := hnext
      exact { h with stack := fun _ => h.enters hat }
  | store frames =>
      simp only [Kernel.ownNext, Option.ite_none_right_eq_some, Option.some.injEq] at hnext
      obtain ⟨-, rfl⟩ := hnext
      exact { h with }
  | key scancode stray =>
      cases hnext
      exact { h with terms := Devices.keyboardHandler_terms_in h.terms scancode stray }
  | call call =>
      simp only [Kernel.ownNext, Option.ite_none_right_eq_some, Option.map_eq_some_iff] at hnext
      obtain ⟨-, r, hcall, rfl⟩ := hnext
      exact h.contained (Kernel.doCall_contained hcall)
  | fail args =>
      simp only [Kernel.ownNext, Option.ite_none_right_eq_some] at hnext
      obtain ⟨-, hfail⟩ := hnext
      split at hfail
      · next hexec =>
        obtain ⟨-, rfl⟩ := Kernel.sysExecute_ret hexec
        cases hfail
        exact h
      · cases hfail

/-! ## Starts and exits -/

/-- A new process has a frame of its own, and its PCB remembers what its parent had. -/
theorem execute (h : Shielded k S) {args : ExecArgs} (hexec : k.executeNext args = some k') :
    ∃ n, Shielded k' fun q => S q ∨ q = n := by
  obtain ⟨⟨hmode, -, hebp⟩, n, cmd, frames, hfirst, rfl⟩ := Kernel.executeNext_some hexec
  have hnumber := h.stack hmode
  have hframe : processNumberOf (k.ebp + 8) = k.getProcessNumber :=
    processNumberOf_inStack (h.small _ hnumber) hebp
  refine ⟨n, ?_, fun t ht => .inl (h.shells t ht), ?_, h.init, h.launched, .inr ⟨n, hfirst.lt, rfl⟩,
    h.video, h.terms, ⟨n, .inr rfl, rfl⟩, ?_, ?_, ?_⟩
  · intro q hq
    rcases hq with hq | rfl
    · exact h.small q hq
    · exact hfirst.lt
  · intro q hq
    by_cases hqn : q = n
    · exact .inr hqn
    · refine .inl (h.live q ?_)
      have hsame : Function.update k.procArr n .running q = k.procArr q :=
        Function.update_of_ne hqn ..
      rw [← hsame]
      exact hq
  · intro hmode
    cases hmode
  · intro q hq
    show PcbOk _ (Function.update k.pcb n (k.newPcb k.getProcessNumber k.pageDirectory32 cmd) q)
    by_cases hqn : q = n
    · rw [hqn, Function.update_self]
      refine ⟨.inl hnumber, h.page, .inl ?_, h.terms.cur⟩
      show S (processNumberOf (k.ebp + 8))
      rw [hframe]
      exact hnumber
    · rw [Function.update_of_ne hqn]
      exact (h.pcb q (hq.resolve_right hqn)).mono fun _ => .inl
  · intro t ht
    obtain ⟨hpage, hesp⟩ := h.saved t ht
    exact ⟨hpage, .inl hesp⟩

/-- An exit restores what the PCB remembers. -/
theorem halt (h : Shielded k S) {status : UInt8} {callerEbp : Nat}
    (hhalt : k.haltNext status callerEbp = some k') : Shielded k' S := by
  have hmode := Kernel.haltNext_mode hhalt
  by_cases hbase : k.getProcessNumber = 0
  · rw [Kernel.haltNext_base hbase hhalt]
    exact h
  · obtain ⟨closed, hclosed, rfl⟩ := Kernel.haltNext_contained hbase hhalt
    have h' := h.contained hclosed
    obtain ⟨hparent, hpage, hframe, hterm⟩ := h'.pcb _ (h.stack hmode)
    refine ⟨h'.small, h'.shells, ?_, h'.init, h'.launched, hpage, h'.video, h'.terms,
      ⟨_, hparent, rfl⟩, fun _ => hframe, h'.pcb, h'.saved⟩
    intro q hq
    refine h'.live q fun hfree => hq ?_
    show Function.update closed.procArr k.getProcessNumber .free q = .free
    by_cases hqp : q = k.getProcessNumber
    · rw [hqp, Function.update_self]
    · rw [Function.update_of_ne hqp]
      exact hfree

/-! ## Ticks -/

/-- The process that a tick switches to was started. -/
theorem target (h : Shielded k S) (curTerm : Nat) : S (k.getNextProc curTerm) := by
  rcases getNextProc_cases k curTerm with hshell | hlive
  · exact h.shells _ hshell
  · exact h.live _ hlive

theorem termOf_lt (h : Shielded k S) {process : Nat} (hprocess : S process) :
    k.termOf process < 3 := by
  unfold Kernel.termOf
  split_ifs with hshell
  · exact hshell
  · exact (h.pcb process hprocess).term

theorem tick (h : Shielded k S) {esp ebp : Nat} {l : Launch}
    (hnext : k.next (.tick esp ebp l) = some k') : Shielded k' S := by
  obtain ⟨hat, htick⟩ := next_tick hnext
  have hentered := h.enters hat
  have hcurr := (h.pcb _ hentered).term
  have hinit : ¬ k.schedArrInit = false := by simp [h.init]
  dsimp only [Kernel.pitHandler] at htick
  rw [saveOrLaunch_complete h.launched, if_neg hinit] at htick
  generalize (k.pcb (processNumberOf esp)).termNumber = currTerm at htick hcurr
  have htarget := h.target currTerm
  generalize k.getNextProc currTerm = process at htick htarget
  have hterm := h.termOf_lt htarget
  generalize k.termOf process = term at htick hterm
  cases htick
  have hsaved : ∀ t, t < 3 →
      UserEntry (Function.update k.schedArr currTerm ⟨esp, ebp, k.pageDirectory32⟩ t).oteMb ∧
        S (processNumberOf
          (Function.update k.schedArr currTerm ⟨esp, ebp, k.pageDirectory32⟩ t).esp) := by
    intro t ht
    by_cases htc : t = currTerm
    · rw [htc, Function.update_self]
      exact ⟨h.page, hentered⟩
    · rw [Function.update_of_ne htc]
      exact h.saved t ht
  exact ⟨h.small, h.shells, h.live, h.init, h.launched, (hsaved term hterm).1,
    videoEntry_vidEntry _ hterm, ⟨h.terms.cur, hterm⟩, ⟨process, htarget, rfl⟩,
    fun _ => (hsaved term hterm).2, h.pcb, hsaved⟩

/-! ## Every step -/

theorem next (h : Shielded k S) {e : KernelEvent} (hnext : k.next e = some k') :
    ∃ T, Shielded k' T := by
  cases e with
  | own e => exact ⟨S, h.own ⟨e, hnext⟩⟩
  | execute args =>
      obtain ⟨n, h'⟩ := h.execute hnext
      exact ⟨_, h'⟩
  | halt status callerEbp => exact ⟨S, h.halt hnext⟩
  | tick esp ebp l => exact ⟨S, h.tick hnext⟩

theorem step (h : Shielded k S) {e : SystemEvent} (hstep : SystemStep k e k') :
    ∃ T, Shielded k' T := by
  cases e with
  | kernel e => exact h.next hstep
  | getargs buf nbytes =>
      simp only [SystemStep, Kernel.systemNext, Option.ite_none_right_eq_some,
        Option.map_eq_some_iff] at hstep
      obtain ⟨-, r, hcall, rfl⟩ := hstep
      exact ⟨S, h.contained (Kernel.sysGetargs_contained hcall)⟩
  | vidmap screenStart =>
      simp only [SystemStep, Kernel.systemNext, Option.ite_none_right_eq_some,
        Option.map_eq_some_iff] at hstep
      obtain ⟨hmode, r, hcall, rfl⟩ := hstep
      rcases Kernel.sysVidmap_mapped hcall with hsame | hmapped
      · rw [hsame]
        exact ⟨S, h⟩
      · have hterm := (h.pcb _ (h.stack hmode)).term
        have hvidmap : Shielded { k with dev := k.dev.vidmap k.currentPcb.termNumber } S :=
          { h with
            video := videoEntry_vidEntry _ hterm
            terms := ⟨h.terms.cur, h.terms.service⟩ }
        exact ⟨S, hvidmap.contained hmapped⟩

end Shielded

/-! ## The start-up -/

/-- What `entry` leaves in the PCB of the base shell, and the console so far. -/
structure EntryOk (k : Kernel) : Prop where
  page : (k.pcb 0).parentPhysAddr = rwFlag
  frame : InStack (k.pcb 0).parentPid ((k.pcb 0).parentEbp + 8)
  terms : k.dev.TermsIn
  video : VideoEntry k.dev.videoEntry

theorem EntryOk.contained (h : EntryOk k) (hcall : k.Contained k') : EntryOk k' := by
  obtain ⟨fileDesc, hpcb⟩ := (ownCall_sameSched hcall.own).pcb 0
  obtain ⟨hcur, hservice⟩ := hcall.own.terms
  refine ⟨?_, ?_, ⟨hcur ▸ h.terms.cur, hservice ▸ h.terms.service⟩, ?_⟩
  · rw [hpcb]
    exact h.page
  · rw [hpcb]
    exact h.frame
  · rcases hcall.video with hsame | hput
    · rw [hsame]
      exact h.video
    · rw [hput]
      exact videoEntry_vidEntry _ h.terms.service

theorem EntryOk.own (h : EntryOk k) (hstep : k.OwnStep k') : EntryOk k' := by
  obtain ⟨e, hnext⟩ := hstep
  cases e with
  | key scancode stray =>
      cases hnext
      exact { h with terms := Devices.keyboardHandler_terms_in h.terms scancode stray }
  | call call =>
      simp only [Kernel.ownNext, Option.ite_none_right_eq_some, Option.map_eq_some_iff] at hnext
      obtain ⟨-, r, hcall, rfl⟩ := hnext
      exact h.contained (Kernel.doCall_contained hcall)
  | fail args =>
      simp only [Kernel.ownNext, Option.ite_none_right_eq_some] at hnext
      obtain ⟨-, hfail⟩ := hnext
      split at hfail
      · next hexec =>
        obtain ⟨-, rfl⟩ := Kernel.sysExecute_ret hexec
        cases hfail
        exact h
      · cases hfail
  | _ =>
      simp only [Kernel.ownNext, Option.ite_none_right_eq_some, Option.some.injEq] at hnext
      obtain ⟨-, rfl⟩ := hnext
      exact { h with }

/-- The console behind a tick that launches a shell. -/
theorem pitHandler_launch {n : Nat} (h : missingShell k = some n) {esp ebp : Nat} {l : Launch}
    (htick : k.pitHandler esp ebp l = some k') (hmode : k'.mode = .user) :
    ∃ newTerm process cmd frames, Kernel.FirstFree k.procArr process ∧
      k' = (launching k n ((k.dev.serve newTerm).serveNew n) ⟨esp, ebp, k.pageDirectory32⟩
        l).started process cmd frames := by
  dsimp only [Kernel.pitHandler] at htick
  rw [saveOrLaunch_missing h] at htick
  generalize k.termOf (k.getNextProc (k.pcb (processNumberOf esp)).termNumber) = newTerm at htick
  cases hexec : (launching k n ((k.dev.serve newTerm).serveNew n)
      ⟨esp, ebp, k.pageDirectory32⟩ l).sysExecute l.args with
  | fault =>
      rw [hexec] at htick
      cases htick
  | ret v k'' =>
      obtain ⟨-, rfl⟩ := Kernel.sysExecute_ret hexec
      rw [hexec] at htick
      cases htick
      cases hmode
  | user entry k'' =>
      obtain ⟨process, cmd, frames, hfirst, rfl⟩ := Kernel.sysExecute_user hexec
      rw [hexec] at htick
      cases htick
      exact ⟨newTerm, process, cmd, frames, hfirst, rfl⟩

theorem startUp_entryOk {n : Nat} {waiting : Nat → Option Sched} (h : StartUp n k waiting) :
    EntryOk k := by
  induction h with
  | base hexec =>
      have hstart := starting_base hexec
      obtain ⟨⟨-, -, hebp⟩, process, cmd, frames, hfirst, rfl⟩ := Kernel.executeNext_some hexec
      have hzero : process = 0 := by
        by_contra hne
        exact hfirst.first 0 (Nat.pos_of_ne_zero hne) rfl
      subst hzero
      exact ⟨rfl, hebp, Devices.boot_terms_in _, .inl rfl⟩
  | own _ hstep ih => exact ih.own hstep
  | @launch n k k' waiting esp ebp l hup hn hnext hmode ih =>
      have hstart := startUp_starting hup
      obtain ⟨-, htick⟩ := next_tick hnext
      obtain ⟨newTerm, process, cmd, frames, hfirst, rfl⟩ :=
        pitHandler_launch (hstart.missing hn) htick hmode
      have hcount := hstart.count
      have hne : (0 : Nat) ≠ process := by
        intro hzero
        exact hstart.taken 0 (by omega) (hzero ▸ hfirst.free)
      have hpcb : ((launching k n ((k.dev.serve newTerm).serveNew n)
          ⟨esp, ebp, k.pageDirectory32⟩ l).started process cmd frames).pcb 0 = k.pcb 0 :=
        Function.update_of_ne hne ..
      exact ⟨hpcb ▸ ih.page, hpcb ▸ ih.frame, ⟨ih.terms.cur, hn⟩, .inr ⟨n, hn, rfl⟩⟩

/-- The third tick gives the PCBs of the three shells what `entry` left in that of the base shell,
and serves one of the terminals. -/
theorem third_tick {waiting : Nat → Option Sched} (h : Starting 3 k waiting) {esp ebp : Nat}
    {l : Launch} (hnext : k.next (.tick esp ebp l) = some k') :
    (∀ q, q < 3 → (k'.pcb q).parentPid = (k.pcb 0).parentPid ∧
      (k'.pcb q).parentPhysAddr = (k.pcb 0).parentPhysAddr ∧
      (k'.pcb q).parentEbp = (k.pcb 0).parentEbp) ∧
    ∃ term, term < 3 ∧ k'.dev = k.dev.serve term := by
  obtain ⟨-, htick⟩ := next_tick hnext
  dsimp only [Kernel.pitHandler] at htick
  rw [h.getNextProc_eq, saveOrLaunch_complete h.complete, if_pos h.init] at htick
  have hlt : ((k.pcb (processNumberOf esp)).termNumber + 1) % 3 < 3 := Nat.mod_lt _ (by omega)
  generalize ((k.pcb (processNumberOf esp)).termNumber + 1) % 3 = term at htick hlt
  have hterm : k.termOf term = term := if_pos hlt
  rw [hterm] at htick
  cases htick
  refine ⟨?_, term, hlt, rfl⟩
  intro q hq
  obtain rfl | rfl | rfl : q = 0 ∨ q = 1 ∨ q = 2 := by omega
  · exact ⟨rfl, rfl, rfl⟩
  · exact ⟨rfl, rfl, rfl⟩
  · exact ⟨rfl, rfl, rfl⟩

/-- The start-up establishes the invariant, when `entry` ran on the first 8 KB below 8 MB. -/
theorem shielded_of_shellsReady {waiting : Nat → Option Sched} (hup : ShellsReady k waiting)
    (hentry : (k.pcb 0).parentPid = 0) : Shielded k fun q => q < 3 := by
  have hready := ready_of_shellsReady hup
  have htop : ∀ t, t < 3 → topOf (fun _ => []) t < 3 := fun t ht => ht
  obtain ⟨k₁, before, esp, ebp, l, hstartUp, hnext, -⟩ := hup
  have hstart := startUp_starting hstartUp
  have hok := startUp_entryOk hstartUp
  obtain ⟨-, hswitched⟩ := hstart.finish hnext
  obtain ⟨hpcbs, term, hlt, hdev⟩ := third_tick hstart hnext
  have hzero := hpcbs 0 (by omega)
  have hpid : (k₁.pcb 0).parentPid = 0 := hzero.1.symm.trans hentry
  have hframe : processNumberOf ((k₁.pcb 0).parentEbp + 8) = 0 := by
    have hin := hok.frame
    rw [hpid] at hin
    exact processNumberOf_inStack (by decide) hin
  have hstack := hready.stack hswitched.kernel
  have hshell := hready.rep.shells
  refine ⟨fun q hq => ?_, fun t ht => ht, ?_, hready.init, hready.complete, ?_, ?_, ?_, ?_, ?_, ?_,
    ?_⟩
  · simp only [maxProcesses]
    omega
  · intro q hq
    by_contra hge
    rw [(tick_complete hstart.complete hnext).procArr] at hq
    exact hq (hstart.free q (by omega))
  · rw [hready.page]
    exact .inr ⟨_, hready.runsOn.lt, rfl⟩
  · rw [hdev]
    exact videoEntry_vidEntry _ hlt
  · rw [hdev]
    exact ⟨hok.terms.cur, hlt⟩
  · exact ⟨_, htop _ hready.service, hready.esp0⟩
  · intro _
    show processNumberOf k.esp < 3
    rw [processNumberOf_inStack hready.runsOn.lt hstack]
    exact htop _ hready.service
  · intro q hq
    obtain ⟨hparent, hpage, hebp⟩ := hpcbs q hq
    refine ⟨?_, ?_, ?_, ?_⟩
    · rw [hparent, hpid]
      omega
    · rw [hpage, hok.page]
      exact .inl rfl
    · rw [hebp, hframe]
      omega
    · rw [(hshell q hq).2]
      exact hq
  · intro t ht
    by_cases hservice : t = k.service
    · rw [hservice, hswitched.resumed]
      dsimp only
      rw [hready.page, processNumberOf_inStack hready.runsOn.lt hstack]
      exact ⟨.inr ⟨_, hready.runsOn.lt, rfl⟩, htop _ hready.service⟩
    · obtain ⟨hstack', hpage⟩ := hready.suspended t ht hservice
      rw [hpage, processNumberOf_inStack (hready.rep.topOf_lt ht) hstack']
      exact ⟨.inr ⟨_, hready.rep.topOf_lt ht, rfl⟩, htop t ht⟩

/-! ## Whole runs -/

theorem shielded_of_run {k₀ : Kernel} {waiting : Nat → Option Sched} {es : List SystemEvent}
    (hup : ShellsReady k₀ waiting) (hentry : (k₀.pcb 0).parentPid = 0)
    (hrun : Run SystemStep k₀ es k) : ∃ S, Shielded k S :=
  Run.invariant (I := fun k => ∃ S, Shielded k S) (fun _ _ _ ⟨_, h⟩ hstep => h.step hstep) hrun
    ⟨_, shielded_of_shellsReady hup hentry⟩

/-- In every state of every run, the tables translate each address thus: kernel code finds VGA
memory and the kernel where they are, the user page and the pages at one gigabyte are where the
kernel takes them to be, and nothing else is mapped. The runs are those of `SystemStep`, with the
buffers of all calls in the caller's user page. -/
theorem address_space {k₀ : Kernel} {waiting : Nat → Option Sched} {es : List SystemEvent}
    (hup : ShellsReady k₀ waiting) (hentry : (k₀.pcb 0).parentPid = 0)
    (hrun : Run SystemStep k₀ es k) (t : PageTables) (p : Placement) (a : Nat) (ha : a < 2 ^ 32) :
    (k.space t p).walk a =
      if a < 0x400000 then if a / 0x1000 = 0xB8 then some (a, false) else none
      else if a < 0x800000 then some (a, false)
      else if a / 0x400000 = 32 then (k.userAddress a 1).map fun x => (x, true)
      else if a / 0x400000 = 256 then
        (k.dev.disp.video.address ((a - 0x40000000 : Nat) : Int)).map fun x => (x, true)
      else none := by
  obtain ⟨S, h⟩ := shielded_of_run hup hentry hrun
  split_ifs with hlow hvga hkernel huser hvideo
  · rw [Kernel.walk_low hlow, if_pos hvga]
  · rw [Kernel.walk_low hlow, if_neg hvga]
  · exact Kernel.walk_kernel (by omega) hkernel
  · exact Kernel.walk_userAddress h.page huser
  · exact Kernel.walk_address h.video hvideo
  · exact Kernel.walk_elsewhere ha (by omega) huser hvideo

/-- After the start-up the first byte of the program of process 1 is in the frame of process 1. -/
theorem address_space_booted : ∃ k₀ waiting, ShellsReady k₀ waiting ∧
    ∀ (t : PageTables) (p : Placement), (k₀.space t p).walk 0x8048000 = some (0xC48000, true) := by
  have hdefined : (bootedShells.filter fun k₀ => (k₀.pcb 0).parentPid = 0 ∧
      k₀.userAddress 0x8048000 1 = some 0xC48000).isSome = true := by
    decide +kernel
  obtain ⟨k₀, hk₀⟩ := Option.isSome_iff_exists.1 hdefined
  simp only [Option.filter_eq_some_iff, decide_eq_true_eq] at hk₀
  obtain ⟨hboot, hentry, haddress⟩ := hk₀
  obtain ⟨waiting, hup⟩ := bootedShells_ready hboot
  refine ⟨k₀, waiting, hup, fun t p => ?_⟩
  rw [address_space hup hentry (.nil k₀) t p 0x8048000 (by decide), if_neg (by decide),
    if_neg (by decide), if_pos (by decide), haddress]
  rfl

/-- In every state of every run whose steps stay inside their pages and arrays, the physical memory
that user code can write to consists of pages of the screens and of frames of processes. So it never
reaches the kernel, its stacks and PCBs, or its page tables. -/
theorem user_code_confined {k₀ : Kernel} {waiting : Nat → Option Sched} {es : List SystemEvent}
    (hup : ShellsReady k₀ waiting) (hentry : (k₀.pcb 0).parentPid = 0)
    (hrun : Run (Guarded StaysInside SystemStep) k₀ es k) (t : PageTables) (p : Placement) {x : Nat}
    (hreach : (k.space t p).UserReaches x) :
    (0xB8000 ≤ x ∧ x < 0xBC000) ∨ ∃ q, q < maxProcesses ∧ InFrameOf q x := by
  obtain ⟨S, h⟩ := shielded_of_run hup hentry (hrun.mono fun _ _ _ hstep => hstep.2)
  obtain ⟨-, -, -, hlo, hhi⟩ := h.video.bits
  rcases (Kernel.userReaches_iff h.page h.video).1 hreach with
    ⟨q, hq, -, hin⟩ | ⟨hfirst, hlast⟩ | ⟨hfirst, hlast⟩
  · exact .inr ⟨q, hq, hin⟩
  · unfold Devices.videoEntry at hlo hhi
    exact .inl ⟨by omega, by omega⟩
  · exact .inl ⟨by omega, by omega⟩

/-- The shell of terminal 0 executes a shell in slot 3, which maps the screen. -/
def mapsScreen : List SystemEvent :=
  [.kernel (.tick 0x7FDC00 0x7FDC80 (bareLaunch 0 0)),
    .kernel (.tick 0x7FBC00 0x7FBC80 (bareLaunch 0 0)), .kernel (.execute (bareLaunch 0 0).args),
    .kernel (.own (.trap 0x7F9F00 0x7F9F80)), .vidmap 0x8048000]

/-- After that run user code reaches the first byte of the frame of process 3. -/
theorem user_code_confined_once : ∃ k₀ waiting k, ShellsReady k₀ waiting ∧
    Run (Guarded StaysInside SystemStep) k₀ mapsScreen k ∧ ∀ (t : PageTables) (p : Placement),
      (k.space t p).UserReaches 0x1400000 ∧
        ((0xB8000 ≤ 0x1400000 ∧ 0x1400000 < 0xBC000) ∨
          ∃ q, q < maxProcesses ∧ InFrameOf q 0x1400000) := by
  have hdefined : ((bootedShells.filter fun k₀ => (k₀.pcb 0).parentPid = 0).bind fun k₀ =>
      (replay (fun k e => if StaysInside k e then k.systemNext e else none) k₀ mapsScreen).filter
        fun k => k.pageDirectory32 = frameEntry 3 ∧ k.dev.videoEntry = vgaEntry).isSome = true := by
    decide +kernel
  obtain ⟨k, hk⟩ := Option.isSome_iff_exists.1 hdefined
  simp only [Option.bind_eq_some_iff, Option.filter_eq_some_iff, decide_eq_true_eq] at hk
  obtain ⟨k₀, ⟨hboot, hentry⟩, hreplay, hpage, hvideo⟩ := hk
  obtain ⟨waiting, hup⟩ := bootedShells_ready hboot
  have hrun : Run (Guarded StaysInside SystemStep) k₀ mapsScreen k := replay_guarded hreplay
  refine ⟨k₀, waiting, k, hup, hrun, fun t p => ?_⟩
  have hreach : (k.space t p).UserReaches 0x1400000 :=
    (Kernel.userReaches_iff (.inr ⟨3, by decide, hpage⟩) (.inl hvideo)).2
      (.inl ⟨3, by decide, hpage, by omega, by omega⟩)
  exact ⟨hreach, user_code_confined hup hentry hrun t p hreach⟩

end Ece391Kernel
