import Ece391Kernel.Kernel.Protection

/-!
# The memory of a process that does not run

While the scheduler keeps its invariant, the page of the process that runs is its own frame. So the
memory of every other process stays as it is, through the stores and system calls of the one that
runs, starts and exits of programs, ticks and key presses, as long as they stay inside their pages
and arrays (`memory_isolated`).
-/

namespace Ece391Kernel

open Transition

variable {k k' : Kernel} {s : Stacks Nat}

/-! ## The scheduler's invariant with all system calls -/

/-- The condition on the state before a step. -/
def SystemInTurn (k : Kernel) : SystemEvent → Prop
  | .kernel event => InTurn k event
  | .getargs _ _ => True
  | .vidmap _ => True

instance (k : Kernel) (e : SystemEvent) : Decidable (SystemInTurn k e) :=
  match e with
  | .kernel event => inferInstanceAs (Decidable (InTurn k event))
  | .getargs _ _ => inferInstanceAs (Decidable True)
  | .vidmap _ => inferInstanceAs (Decidable True)

/-- A store by user code goes through the page tables. -/
def StoresMapped (t : PageTables) (p : Placement) (k : Kernel) : SystemEvent → Prop
  | .kernel (.own (.store frames)) =>
      ∀ x, frames x ≠ k.frames x → (k.space t p).UserReaches x
  | _ => True

theorem Ready.contained (h : Ready k s) (hcall : k.Contained k') : Ready k' s := by
  have hsame := ownCall_sameSched hcall.own
  have hregs : k'.mode = k.mode ∧ k'.esp = k.esp := by
    obtain ⟨dev, frames, dirLocation, fileDesc, -, rfl⟩ := hcall.own
    exact ⟨rfl, rfl⟩
  refine ⟨?_, ?_, ?_, ?_, ?_, ?_, ?_, ?_⟩
  · rw [hsame.procArr]
    exact h.rep.congr hsame.pcb
  · rw [hsame.init]
    exact h.init
  · rw [hsame.shellsRunning]
    exact h.launched
  · rw [hsame.service]
    exact h.service
  · rw [hsame.esp0, hsame.service]
    exact h.esp0
  · rw [hsame.page, hsame.service]
    exact h.page
  · rw [hsame.service, hregs.1, hregs.2]
    exact h.stack
  · rw [hsame.schedArr, hsame.service]
    exact h.suspended

/-- `sys_vidmap` is nothing to the scheduler. -/
theorem Ready.vidmap (h : Ready k s) (term : Nat) :
    Ready { k with dev := k.dev.vidmap term } s :=
  ⟨h.rep, h.init, h.launched, h.service, h.esp0, h.page, h.stack, h.suspended⟩

theorem Ready.system (h : Ready k s) {e : SystemEvent}
    (hstep : Guarded SystemInTurn SystemStep k e k') : ∃ s', Ready k' s' := by
  obtain ⟨hguard, hnext⟩ := hstep
  cases e with
  | kernel e => exact h.step ⟨hguard, hnext⟩
  | getargs buf nbytes =>
      simp only [SystemStep, Kernel.systemNext, Option.ite_none_right_eq_some,
        Option.map_eq_some_iff] at hnext
      obtain ⟨-, r, hcall, rfl⟩ := hnext
      exact ⟨s, h.contained (Kernel.sysGetargs_contained hcall)⟩
  | vidmap screenStart =>
      simp only [SystemStep, Kernel.systemNext, Option.ite_none_right_eq_some,
        Option.map_eq_some_iff] at hnext
      obtain ⟨-, r, hcall, rfl⟩ := hnext
      rcases Kernel.sysVidmap_mapped hcall with hsame | hmapped
      · rw [hsame]
        exact ⟨s, h⟩
      · exact ⟨s, (h.vidmap _).contained hmapped⟩

/-! ## Where one step stores -/

/-- A tick stores nothing in a frame. -/
theorem Ready.tick_frames (h : Ready k s) {esp ebp : Nat} {l : Launch}
    (hnext : k.next (.tick esp ebp l) = some k') : k'.frames = k.frames := by
  obtain ⟨-, htick⟩ := next_tick hnext
  have hinit : ¬ k.schedArrInit = false := by simp [h.init]
  dsimp only [Kernel.pitHandler] at htick
  rw [saveOrLaunch_complete h.complete, if_neg hinit] at htick
  cases htick
  rfl

/-- What a step changes in the frames: memory of the process that runs, or that of the program
that it starts. -/
theorem Ready.stores (h : Ready k s) (hvideo : VideoEntry k.dev.videoEntry) {t : PageTables}
    {p : Placement} {e : SystemEvent} (hmapped : StoresMapped t p k e) (hstep : SystemStep k e k')
    (x : Nat) : k'.frames x = k.frames x ∨ x < 0x800000 ∨ InFrameOf (topOf s k.service) x ∨
      ∃ n, Kernel.FirstFree k.procArr n ∧ InFrameOf n x := by
  have hcontained : ∀ m : Kernel, k.Contained m → m.frames x = k.frames x ∨ x < 0x800000 ∨
      InFrameOf (topOf s k.service) x ∨ ∃ n, Kernel.FirstFree k.procArr n ∧ InFrameOf n x := by
    intro m hm
    exact (hm.frames x).imp id fun hpage => .inr (.inl (hpage.inFrame h.page))
  cases e with
  | kernel e =>
      cases e with
      | own e =>
          rcases Kernel.ownNext_frames hstep with ⟨frames, rfl, rfl⟩ | hsame | hcall
          · by_cases hsame : k'.frames x = k.frames x
            · exact .inl hsame
            · refine .inr ?_
              rcases (Kernel.userReaches_iff (.inr ⟨_, h.runsOn.lt, h.page⟩) hvideo).1
                  (hmapped x hsame) with ⟨q, hq, hframe, hin⟩ | ⟨hlo, hhi⟩ | ⟨hlo, hhi⟩
              · rw [h.page, frameEntry_eq, frameEntry_eq] at hframe
                have hown : topOf s k.service = q := by omega
                exact .inr (.inl (hown ▸ hin))
              · obtain ⟨-, -, -, -, hlast⟩ := hvideo.bits
                unfold Devices.videoEntry at hlast
                exact .inl (by omega)
              · exact .inl (by omega)
          · exact .inl (congrFun hsame x)
          · exact hcontained _ hcall
      | execute args =>
          obtain ⟨-, n, cmd, frames, hfirst, rfl, hframes⟩ := Kernel.executeNext_contained hstep
          exact (hframes x).imp id fun hin => .inr (.inr ⟨n, hfirst, hin⟩)
      | halt status callerEbp =>
          by_cases hbase : k.getProcessNumber = 0
          · rw [Kernel.haltNext_base hbase hstep]
            exact .inl rfl
          · obtain ⟨closed, hclosed, rfl⟩ := Kernel.haltNext_contained hbase hstep
            exact hcontained closed hclosed
      | tick esp ebp l => exact .inl (congrFun (h.tick_frames hstep) x)
  | getargs buf nbytes =>
      simp only [SystemStep, Kernel.systemNext, Option.ite_none_right_eq_some,
        Option.map_eq_some_iff] at hstep
      obtain ⟨-, r, hcall, rfl⟩ := hstep
      exact hcontained _ (Kernel.sysGetargs_contained hcall)
  | vidmap screenStart =>
      simp only [SystemStep, Kernel.systemNext, Option.ite_none_right_eq_some,
        Option.map_eq_some_iff] at hstep
      obtain ⟨-, r, hcall, rfl⟩ := hstep
      rcases Kernel.sysVidmap_mapped hcall with hsame | hmapped
      · rw [hsame]
        exact .inl rfl
      · exact (hmapped.frames x).imp id fun hpage => .inr (.inl (hpage.inFrame h.page))

/-! ## Whole runs -/

/-- A step that meets the scheduler's condition and stays inside its pages and arrays, with user
stores through the page tables. -/
def MappedStep (t : PageTables) (p : Placement) : Kernel → SystemEvent → Kernel → Prop :=
  Guarded (fun k e => (SystemInTurn k e ∧ StaysInside k e) ∧ StoresMapped t p k e) SystemStep

/-- The process is there, but another one runs. -/
def SwitchedOut (q : Nat) (k : Kernel) : Prop := k.esp0 ≠ stackTop q ∧ k.procArr q ≠ .free

instance (q : Nat) (k : Kernel) : Decidable (SwitchedOut q k) := inferInstanceAs (Decidable (_ ∧ _))

/-- Both invariants along a run. -/
theorem invariants_of_run {k₀ : Kernel} {waiting : Nat → Option Sched} {es : List SystemEvent}
    {t : PageTables} {p : Placement} (hup : ShellsReady k₀ waiting)
    (hentry : (k₀.pcb 0).parentPid = 0) (hrun : Run (MappedStep t p) k₀ es k) :
    (∃ s, Ready k s) ∧ ∃ S, Shielded k S := by
  refine Run.invariant (I := fun k => (∃ s, Ready k s) ∧ ∃ S, Shielded k S) ?_ hrun
    ⟨⟨_, ready_of_shellsReady hup⟩, _, shielded_of_shellsReady hup hentry⟩
  intro k e k' h hstep
  obtain ⟨⟨s, hready⟩, S, hshielded⟩ := h
  obtain ⟨⟨⟨hturn, -⟩, -⟩, hnext⟩ := hstep
  exact ⟨hready.system ⟨hturn, hnext⟩, hshielded.step hnext⟩

/-- A step of another process leaves the memory of a process as it is. -/
theorem Ready.step_keeps (h : Ready k s) (hvideo : VideoEntry k.dev.videoEntry) {t : PageTables}
    {p : Placement} {e : SystemEvent} (hstep : MappedStep t p k e k') {q x : Nat}
    (hout : SwitchedOut q k) (hx : InFrameOf q x) : k'.frames x = k.frames x := by
  obtain ⟨⟨-, hmapped⟩, hnext⟩ := hstep
  rcases h.stores hvideo hmapped hnext x with hsame | hlow | hown | ⟨n, hfirst, hin⟩
  · exact hsame
  · obtain ⟨hlo, -⟩ := hx
    omega
  · refine absurd ?_ hout.1
    rw [h.esp0, hown.unique hx]
  · refine absurd ?_ hout.2
    rw [← hin.unique hx]
    exact hfirst.free

/-- While a process is switched out, its memory stays as it is: whatever the other processes store
through the page tables, call with buffers in their own user pages, start and end in the
meantime. -/
theorem memory_isolated {k₀ : Kernel} {waiting : Nat → Option Sched} {es fs : List SystemEvent}
    {t : PageTables} {p : Placement} {q : Nat} (hup : ShellsReady k₀ waiting)
    (hentry : (k₀.pcb 0).parentPid = 0) (hrun : Run (MappedStep t p) k₀ es k)
    (hrest : Run (Guarded (fun k _ => SwitchedOut q k) (MappedStep t p)) k fs k') (x : Nat)
    (hx : InFrameOf q x) : k'.frames x = k.frames x := by
  have hinv := Run.invariant
    (I := fun m => ((∃ s, Ready m s) ∧ ∃ S, Shielded m S) ∧ m.frames x = k.frames x) ?_ hrest
    ⟨invariants_of_run hup hentry hrun, rfl⟩
  · exact hinv.2
  · intro m e m' h hstep
    obtain ⟨⟨⟨s, hready⟩, S, hshielded⟩, hsame⟩ := h
    obtain ⟨hout, hmapped⟩ := hstep
    have hkeep := hready.step_keeps hshielded.video hmapped hout hx
    obtain ⟨⟨⟨hturn, -⟩, -⟩, hnext⟩ := hmapped
    exact ⟨⟨hready.system ⟨hturn, hnext⟩, hshielded.step hnext⟩, hkeep.trans hsame⟩

/-- No store by user code. -/
def NoStore : SystemEvent → Bool
  | .kernel (.own (.store _)) => false
  | _ => true

theorem storesMapped_of_noStore {t : PageTables} {p : Placement} {e : SystemEvent}
    (h : NoStore e = true) : StoresMapped t p k e := by
  unfold StoresMapped
  split
  · cases h
  · trivial

/-- Two ticks give terminal 0 its turn. -/
def turnToBase : List SystemEvent :=
  [.kernel (.tick 0x7FDC00 0x7FDC80 (bareLaunch 0 0)),
    .kernel (.tick 0x7FBC00 0x7FBC80 (bareLaunch 0 0))]

/-- Its shell executes a shell, which maps the screen. -/
def executesAndMaps : List SystemEvent :=
  [.kernel (.execute (bareLaunch 0 0).args), .kernel (.own (.trap 0x7F9F00 0x7F9F80)),
    .vidmap 0x8048000]

/-- A run without stores by user code is one through the page tables. -/
theorem mappedStep_run (guard : Kernel → Prop) [∀ k, Decidable (guard k)] {es : List SystemEvent}
    (h : replay (fun k e =>
      if ((SystemInTurn k e ∧ StaysInside k e) ∧ NoStore e = true) ∧ guard k then
      k.systemNext e else none) k es = some k') (t : PageTables) (p : Placement) :
    Run (Guarded (fun k _ => guard k) (MappedStep t p)) k es k' := by
  have hrun : Run (Guarded (fun k e =>
      ((SystemInTurn k e ∧ StaysInside k e) ∧ NoStore e = true) ∧ guard k) SystemStep) k es k' :=
    replay_guarded h
  refine hrun.mono fun k e m hstep => ?_
  obtain ⟨⟨⟨hturn, hno⟩, hguard⟩, hnext⟩ := hstep
  exact ⟨hguard, ⟨hturn, storesMapped_of_noStore hno⟩, hnext⟩

/-- Meanwhile the memory of the shell of terminal 1 stays as it is. -/
theorem memory_isolated_once : ∃ k₀ waiting k k', ShellsReady k₀ waiting ∧
    (∀ (t : PageTables) (p : Placement), Run (MappedStep t p) k₀ turnToBase k ∧
      Run (Guarded (fun k _ => SwitchedOut 1 k) (MappedStep t p)) k executesAndMaps k') ∧
    k'.frames 0xC48000 = k.frames 0xC48000 := by
  have hdefined : ((bootedShells.filter fun k₀ => (k₀.pcb 0).parentPid = 0).bind fun k₀ =>
      (replay (fun k e =>
        if ((SystemInTurn k e ∧ StaysInside k e) ∧ NoStore e = true) ∧ True then
        k.systemNext e else none) k₀ turnToBase).bind fun k =>
      replay (fun k e =>
        if ((SystemInTurn k e ∧ StaysInside k e) ∧ NoStore e = true) ∧ SwitchedOut 1 k then
        k.systemNext e else none) k executesAndMaps).isSome = true := by
    decide +kernel
  obtain ⟨k', hk'⟩ := Option.isSome_iff_exists.1 hdefined
  simp only [Option.bind_eq_some_iff, Option.filter_eq_some_iff, decide_eq_true_eq] at hk'
  obtain ⟨k₀, ⟨hboot, hentry⟩, k, hfirst, hrest⟩ := hk'
  obtain ⟨waiting, hup⟩ := bootedShells_ready hboot
  have hturn (t : PageTables) (p : Placement) : Run (MappedStep t p) k₀ turnToBase k :=
    (mappedStep_run (fun _ => True) hfirst t p).mono fun _ _ _ hstep => hstep.2
  refine ⟨k₀, waiting, k, k', hup, fun t p => ⟨hturn t p, mappedStep_run _ hrest t p⟩, ?_⟩
  exact memory_isolated (t := ⟨fun _ => 0, fun _ => 0, fun _ => 0⟩)
    (p := ⟨0x410000, 0x411000, fun _ _ => 0, rfl, rfl, by decide⟩) hup hentry (hturn _ _)
    (mappedStep_run _ hrest _ _) _ (by decide)

end Ece391Kernel
