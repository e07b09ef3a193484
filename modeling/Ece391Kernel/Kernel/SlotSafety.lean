import Ece391Kernel.Kernel.Contexts

/-!
# Slots under preemption

`Published` says that the PCBs that `get_next_proc` reads are those of the occupants of their slots,
and `StacksFree` that no context is on the stack of a free slot. `Undisturbed` is a condition under
which `Inv` is kept: no tick comes between the search's find and the copy of the PCB in
`sys_execute`, or between the write of `tss.esp0` and the stack switch in `sys_halt`, and programs
start and end in turn. `slots_safe` says exactly where the two properties then hold.
-/

namespace Ece391Kernel

open Transition

/-! ## What must hold of the slots -/

/-- Every PCB that `get_next_proc` reads was written by the occupant of its slot. -/
def Published (s : Preempt) : Prop :=
  ∀ n, n < maxProcesses → numTerms ≤ n → s.kernel.procArr n ≠ .free → s.writer n = s.occupant n

/-- Neither the running context nor one that waits is on the stack of a free slot. -/
def StacksFree (s : Preempt) : Prop :=
  ∀ n, n < maxProcesses → s.kernel.procArr n = .free →
    (s.kernel.mode = .kernel → ¬ InSlot n s.kernel.esp) ∧
      ∀ t, t < numTerms → s.waiting t = true → ¬ InSlot n (s.kernel.schedArr t).esp

/-! ## The condition -/

/-- A slot is claimed by a shell or below that of the parent, and the PCB is built while the
terminal in service is displayed. -/
def Point.InTurn (k : Kernel) : Point → Prop
  | .claim _ parentPid process => parentPid < 3 ∨ process < parentPid
  | .build .. => k.dev.term.curTermNum = k.service
  | .outside | .search .. | .check .. | .release .. | .readPage .. | .setPage .. | .load ..
  | .publish .. | .setEsp0 _ | .start _ | .close _ _ | .haltEsp0 _ | .haltPage _ | .free _
  | .leave _ => True

instance (k : Kernel) (point : Point) : Decidable (point.InTurn k) :=
  match point with
  | .claim _ parentPid process => inferInstanceAs (Decidable (parentPid < 3 ∨ process < parentPid))
  | .build .. => inferInstanceAs (Decidable (k.dev.term.curTermNum = k.service))
  | .outside | .search .. | .check .. | .release .. | .readPage .. | .setPage .. | .load ..
  | .publish .. | .setEsp0 _ | .start _ | .close _ _ | .haltEsp0 _ | .haltPage _ | .free _
  | .leave _ => inferInstanceAs (Decidable True)

/-- The condition on the state before a step. -/
def Undisturbed (s : Preempt) : PreemptEvent → Prop
  | .tick _ _ _ => s.point.critical = false
  | .halt => s.kernel.getProcessNumber ≠ 1 ∧ s.kernel.getProcessNumber ≠ 2
  | .stmt _ => s.point.InTurn s.kernel
  | .own _ | .execute _ => True

instance (s : Preempt) (e : PreemptEvent) : Decidable (Undisturbed s e) :=
  match e with
  | .tick _ _ _ => inferInstanceAs (Decidable (s.point.critical = false))
  | .halt => inferInstanceAs (Decidable (_ ∧ _))
  | .stmt _ => inferInstanceAs (Decidable (s.point.InTurn s.kernel))
  | .own _ | .execute _ => inferInstanceAs (Decidable True)

/-! ## The invariant -/

/-- The process table without a slot whose PCB is not written yet. -/
def Preempt.written (s : Preempt) : Nat → ProcFlag :=
  match s.point.claimed with
  | some c => Function.update s.kernel.procArr c.process .free
  | none => s.kernel.procArr

/-- The accounting of claims and of written PCBs. -/
structure Counted (s : Preempt) : Prop where
  le : ∀ n, s.writer n ≤ s.occupant n
  written : ∀ n, s.written n ≠ .free → s.writer n = s.occupant n
  claimed : ∀ c, s.point.claimed = some c →
    c.count = s.occupant c.process ∧ s.writer c.process < c.count

/-- The invariant. -/
structure Inv (s : Preempt) (st : Stacks Nat) : Prop where
  rep : Represents s.written s.kernel.pcb st
  init : s.kernel.schedArrInit = true
  launched : s.kernel.shellsRunning 1 = true ∧ s.kernel.shellsRunning 2 = true
  service : s.kernel.service < 3
  here : Here s.kernel st s.kernel.service s.point
  parked : ∀ t, t < 3 → t ≠ s.kernel.service → Parked st t (s.kernel.schedArr t) (s.saved t)
  waiting : ∀ t, s.waiting t = true → t ≠ s.kernel.service
  counted : Counted s

variable {s s' : Preempt} {st st' : Stacks Nat} {k' : Kernel} {t : Nat} {point : Point}

/-! ## What steps of the running context must show -/

theorem Preempt.written_congr (hpoint : s'.point.claimed = s.point.claimed)
    (hproc : s'.kernel.procArr = s.kernel.procArr) : s'.written = s.written := by
  unfold Preempt.written
  rw [hpoint, hproc]

theorem Preempt.written_of_none (h : s.point.claimed = none) :
    s.written = s.kernel.procArr := by
  unfold Preempt.written
  rw [h]

theorem Preempt.written_of_some {c : Claim} (h : s.point.claimed = some c) :
    s.written = Function.update s.kernel.procArr c.process .free := by
  unfold Preempt.written
  rw [h]

/-- A free slot is free in the table without the claimed slot, too. -/
theorem Preempt.live_of_written {n : Nat} (h : s.written n ≠ .free) :
    s.kernel.procArr n ≠ .free := by
  cases hclaimed : s.point.claimed with
  | none => rwa [Preempt.written_of_none hclaimed] at h
  | some c =>
      rw [Preempt.written_of_some hclaimed] at h
      by_cases hn : n = c.process
      · rw [hn, Function.update_self] at h
        exact absurd rfl h
      · rwa [Function.update_of_ne hn] at h

/-- Nothing that the contexts of the other terminals are resumed from differs. -/
structure SameRest (s s' : Preempt) : Prop where
  init : s'.kernel.schedArrInit = s.kernel.schedArrInit
  shellsRunning : s'.kernel.shellsRunning = s.kernel.shellsRunning
  schedArr : s'.kernel.schedArr = s.kernel.schedArr
  service : s'.kernel.service = s.kernel.service
  saved : s'.saved = s.saved
  waiting : s'.waiting = s.waiting

/-- A step that changes no other terminal's programs. -/
theorem Inv.move (h : Inv s st) (hsame : SameRest s s')
    (hst : ∀ t, t ≠ s.kernel.service → st' t = st t)
    (hrep : Represents s'.written s'.kernel.pcb st')
    (hhere : Here s'.kernel st' s'.kernel.service s'.point) (hcounted : Counted s') :
    Inv s' st' := by
  refine ⟨hrep, ?_, ?_, ?_, hhere, fun t ht hne => ?_, fun t hwait => ?_, hcounted⟩
  · rw [hsame.init]
    exact h.init
  · rw [hsame.shellsRunning]
    exact h.launched
  · rw [hsame.service]
    exact h.service
  · rw [hsame.service] at hne
    rw [hsame.schedArr, hsame.saved]
    exact (h.parked t ht hne).congr (hst t hne)
  · rw [hsame.waiting] at hwait
    rw [hsame.service]
    exact h.waiting t hwait

/-- The kernels agree on the process table, the PCBs and what the terminals are resumed from. -/
structure SameTables (k k' : Kernel) : Prop where
  procArr : k'.procArr = k.procArr
  pcb : SamePcbs k.pcb k'.pcb
  init : k'.schedArrInit = k.schedArrInit
  shellsRunning : k'.shellsRunning = k.shellsRunning
  schedArr : k'.schedArr = k.schedArr
  service : k'.service = k.service

theorem SameSched.tables {k : Kernel} (h : SameSched k k') : SameTables k k' :=
  ⟨h.procArr, h.pcb, h.init, h.shellsRunning, h.schedArr, h.service⟩

/-- The running context goes on at another point, with other registers, another mapping or another
page. -/
theorem Inv.step (h : Inv s st) (hsame : SameTables s.kernel k')
    (hclaimed : point.claimed = s.point.claimed) (hhere : Here k' st k'.service point) :
    Inv (s.step k' point) st := by
  have hwritten : (s.step k' point).written = s.written :=
    Preempt.written_congr hclaimed hsame.procArr
  refine h.move ⟨hsame.init, hsame.shellsRunning, hsame.schedArr, hsame.service, rfl, rfl⟩
    (fun _ _ => rfl) ?_ hhere ⟨h.counted.le, fun n hn => ?_, fun c hc => ?_⟩
  · rw [hwritten]
    exact h.rep.congr hsame.pcb
  · rw [hwritten] at hn
    exact h.counted.written n hn
  · exact h.counted.claimed c (hclaimed ▸ hc)

/-- It goes on there with the same kernel. -/
theorem Inv.goto (h : Inv s st) (hclaimed : point.claimed = s.point.claimed)
    (hhere : Here s.kernel st s.kernel.service point) : Inv (s.goto point) st :=
  h.step ⟨rfl, samePcbs_refl _, rfl, rfl, rfl, rfl⟩ hclaimed hhere

/-! ## The statements of `sys_execute` -/

/-- The search for a free slot. -/
theorem Inv.search (h : Inv s st) {callerEbp : Nat} {args : ExecArgs} {parentPid procIt : Nat}
    (hpoint : s.point = .search args parentPid procIt) (hstep : s.stmt callerEbp = some s') :
    Inv s' st := by
  have hhere := h.here
  rw [Preempt.stmt, hpoint] at hstep
  rw [hpoint] at hhere
  obtain ⟨honTop, hexec⟩ := hhere
  dsimp only at hstep
  split_ifs at hstep with hend hfree
  · cases hstep
    exact h.goto (by rw [hpoint]; rfl) honTop
  · cases hstep
    have hlt : procIt < 6 := Nat.not_le.1 hend
    exact h.goto (by rw [hpoint]; rfl) ⟨honTop, hexec, hfree, hlt⟩
  · cases hstep
    exact h.goto (by rw [hpoint]; rfl) ⟨honTop, hexec⟩

/-- A slot is claimed. -/
theorem Inv.claim (h : Inv s st) {args : ExecArgs} {parentPid process : Nat}
    (hpoint : s.point = .claim args parentPid process)
    (hguard : parentPid < 3 ∨ process < parentPid) :
    Inv { s with
      kernel := s.kernel.setProc process .running
      point := .check args ⟨parentPid, process, s.occupant process + 1⟩
      occupant := Function.update s.occupant process (s.occupant process + 1) } st := by
  have hhere := h.here
  rw [hpoint] at hhere
  obtain ⟨honTop, hexec, hfree, hlt⟩ := hhere
  have hwritten : s.written = s.kernel.procArr := Preempt.written_of_none (by rw [hpoint]; rfl)
  have hundo : Function.update (Function.update s.kernel.procArr process .running) process .free =
      s.kernel.procArr := by
    rw [Function.update_idem, ← hfree, Function.update_eq_self]
  refine h.move ⟨rfl, rfl, rfl, rfl, rfl, rfl⟩ (fun _ _ => rfl) ?_ ⟨honTop, hexec, ?_, hlt, ?_⟩
    ⟨fun n => ?_, fun n hn => ?_, fun c hc => ?_⟩
  · show Represents (Function.update (Function.update s.kernel.procArr process .running) process
      .free) s.kernel.pcb st
    rw [hundo, ← hwritten]
    exact h.rep
  · have hparent := hexec.parent
    rwa [hparent] at hguard
  · exact Function.update_self ..
  · show s.writer n ≤ Function.update s.occupant process (s.occupant process + 1) n
    have hle := h.counted.le n
    by_cases heq : n = process
    · subst heq
      rw [Function.update_self]
      omega
    · rwa [Function.update_of_ne heq]
  · have hn' : Function.update (Function.update s.kernel.procArr process .running) process .free n ≠
        .free := hn
    rw [hundo] at hn'
    have hne : n ≠ process := fun heq => hn' (heq ▸ hfree)
    show s.writer n = Function.update s.occupant process (s.occupant process + 1) n
    rw [Function.update_of_ne hne]
    exact h.counted.written n (by rwa [hwritten])
  · cases hc
    have hle := h.counted.le process
    show s.occupant process + 1 =
        Function.update s.occupant process (s.occupant process + 1) process ∧
      s.writer process < s.occupant process + 1
    rw [Function.update_self]
    exact ⟨rfl, by omega⟩

/-- The command is parsed and checked. -/
theorem Inv.check (h : Inv s st) {callerEbp : Nat} {args : ExecArgs} {c : Claim}
    (hpoint : s.point = .check args c) (hstep : s.stmt callerEbp = some s') : Inv s' st := by
  have hhere := h.here
  rw [Preempt.stmt, hpoint] at hstep
  rw [hpoint] at hhere
  dsimp only at hstep
  split at hstep
  · cases hstep
    exact h.goto (by rw [hpoint]; rfl) hhere
  · split at hstep
    · cases hstep
    · cases hstep
      exact h.goto (by rw [hpoint]; rfl) hhere
    · cases hstep
      exact h.goto (by rw [hpoint]; rfl) hhere

/-- A claim is taken back. -/
theorem Inv.release (h : Inv s st) {c : Claim} (hpoint : s.point = .release c) :
    Inv (s.step (s.kernel.setProc c.process .free) .outside) st := by
  have hhere := h.here
  rw [hpoint] at hhere
  have hwritten : s.written = Function.update s.kernel.procArr c.process .free :=
    Preempt.written_of_some (by rw [hpoint]; rfl)
  have hrest := h.counted.written
  have hrep := h.rep
  rw [hwritten] at hrest hrep
  exact h.move ⟨rfl, rfl, rfl, rfl, rfl, rfl⟩ (fun _ _ => rfl) hrep hhere.1
    ⟨h.counted.le, hrest, nofun⟩

/-- The program is loaded. The loader stores to memory and nowhere else. -/
theorem Inv.load (h : Inv s st) {callerEbp : Nat} {c : Claim} {cmd : Command} {prog : Program}
    {parPhysAddr : Nat} (hpoint : s.point = .load c cmd prog parPhysAddr)
    (hstep : s.stmt callerEbp = some s') : Inv s' st := by
  have hhere := h.here
  rw [Preempt.stmt, hpoint] at hstep
  rw [hpoint] at hhere
  simp only [Kernel.loadProgram, Option.map_eq_some_iff, Option.bind_eq_bind,
    Option.bind_eq_some_iff] at hstep
  obtain ⟨loaded, ⟨⟨val, bytes⟩, -, hstore⟩, rfl⟩ := hstep
  obtain ⟨frames, rfl⟩ := Kernel.storeUser_frame hstore
  obtain ⟨⟨⟨hmode, hstack, hframe, hparent⟩, hslot, hlt, hrunning⟩, hphys, hpage⟩ := hhere
  refine h.step ⟨rfl, samePcbs_refl _, rfl, rfl, rfl, rfl⟩ (by rw [hpoint]; rfl) ?_
  exact ⟨⟨⟨hmode, hstack, hframe, hparent⟩, hslot, hlt, hrunning⟩, hphys, hpage⟩

/-- The PCB of a new program is written. -/
theorem Inv.publish (h : Inv s st) {c : Claim} {pcb : Pcb} (hpoint : s.point = .publish c pcb) :
    Inv { s with
      kernel := s.kernel.setPcb c.process pcb
      point := .setEsp0 c.process
      writer := Function.update s.writer c.process c.count }
      (st.push s.kernel.service c.process) := by
  have hhere := h.here
  rw [hpoint] at hhere
  obtain ⟨hclaimed, hpage, hterm, hpid, hphys, hframe⟩ := hhere
  have hwritten : s.written = Function.update s.kernel.procArr c.process .free :=
    Preempt.written_of_some (by rw [hpoint]; rfl)
  obtain ⟨hcount, -⟩ := h.counted.claimed c (by rw [hpoint]; rfl)
  have hfree : s.written c.process = .free := by rw [hwritten, Function.update_self]
  have hredo : Function.update s.written c.process .running = s.kernel.procArr := by
    rw [hwritten, Function.update_idem, ← hclaimed.running, Function.update_eq_self]
  have hrep := h.rep.spawn h.service hfree hclaimed.lt hclaimed.slot hterm hpid hphys hframe
  rw [hredo] at hrep
  refine h.move ⟨rfl, rfl, rfl, rfl, rfl, rfl⟩ (fun t hne => Stacks.push_of_ne hne) hrep
    ⟨hclaimed.executing.mode, ?_, hpage, st s.kernel.service, Stacks.push_self ..⟩
    ⟨fun n => ?_, fun n hn => ?_, nofun⟩
  · have hpop : ((st.push s.kernel.service c.process).pop s.kernel.service) s.kernel.service =
        st s.kernel.service := by
      rw [Stacks.pop_self, Stacks.push_self, List.tail_cons]
    show InStack (topOf ((st.push s.kernel.service c.process).pop s.kernel.service)
      s.kernel.service) s.kernel.esp
    rw [topOf_congr hpop]
    exact hclaimed.executing.stack
  · show Function.update s.writer c.process c.count n ≤ s.occupant n
    by_cases heq : n = c.process
    · have hself : Function.update s.writer c.process c.count n = s.occupant n := by
        rw [heq, Function.update_self, hcount]
      exact Nat.le_of_eq hself
    · rw [Function.update_of_ne heq]
      exact h.counted.le n
  · show Function.update s.writer c.process c.count n = s.occupant n
    have hn' : s.kernel.procArr n ≠ .free := hn
    by_cases heq : n = c.process
    · rw [heq, Function.update_self, hcount]
    · rw [Function.update_of_ne heq]
      refine h.counted.written n ?_
      rwa [hwritten, Function.update_of_ne heq]

/-- The new program starts. -/
theorem Inv.start (h : Inv s st) {process : Nat} (hpoint : s.point = .start process) :
    Inv (s.step s.kernel.iret .outside) st := by
  have hhere := h.here
  rw [hpoint] at hhere
  obtain ⟨⟨-, -, hpage, rest, hcons⟩, hesp0⟩ := hhere
  have htop := topOf_cons hcons
  refine h.step ⟨rfl, samePcbs_refl _, rfl, rfl, rfl, rfl⟩ (by rw [hpoint]; rfl)
    ⟨?_, ?_, fun hmode => by cases hmode⟩
  · show s.kernel.esp0 = stackTop (topOf st s.kernel.service)
    rw [htop]
    exact hesp0
  · show s.kernel.pageDirectory32 = frameEntry (topOf st s.kernel.service)
    rw [htop]
    exact hpage

/-! ## The statements of `sys_halt` -/

/-- A descriptor is closed. -/
theorem Inv.close (h : Inv s st) {callerEbp process fd : Nat} (hpoint : s.point = .close process fd)
    (hstep : s.stmt callerEbp = some s') : Inv s' st := by
  have hhere := h.here
  rw [Preempt.stmt, hpoint] at hstep
  rw [hpoint] at hhere
  simp only [Option.map_eq_some_iff] at hstep
  obtain ⟨r, hclose, rfl⟩ := hstep
  have hown := Kernel.sysClose_own hclose
  have hsame := ownCall_sameSched hown
  have hregs : r.2.regs = s.kernel.regs := by
    obtain ⟨dev, frames, dirLocation, fileDesc, -, heq⟩ := hown
    rw [heq]
    rfl
  have hrest : OnTop r.2.regs process ∧ Ending r.2.regs st r.2.service process := by
    rw [hregs, hsame.service]
    exact hhere
  refine h.step hsame.tables ?_ ?_
  · rw [hpoint]
    split_ifs <;> rfl
  · split_ifs
    · exact hrest
    · exact hrest

/-- A slot is given up. -/
theorem Inv.free (h : Inv s st) {process : Nat} (hpoint : s.point = .free process) :
    Inv (s.step (s.kernel.setProc process .free) (.leave process)) (st.pop s.kernel.service) := by
  have hhere := h.here
  rw [hpoint] at hhere
  obtain ⟨hend, hesp0, hpage⟩ := hhere
  obtain ⟨rest, hcons⟩ := hend.top
  have hwritten : s.written = s.kernel.procArr := Preempt.written_of_none (by rw [hpoint]; rfl)
  have hrep := h.rep
  rw [hwritten] at hrep
  have hmem : process ∈ st s.kernel.service := by
    rw [hcons]
    exact List.mem_cons_self ..
  have hlt : process < 6 := (hrep.slots _ process hmem).2.2.1
  refine h.move ⟨rfl, rfl, rfl, rfl, rfl, rfl⟩ (fun t hne => Stacks.pop_of_ne hne)
    (hrep.reap hcons) ⟨hend.mode, hend.stack, hlt, Function.update_self .., hesp0, hpage,
      (hrep.parent h.service hcons).frame⟩ ⟨h.counted.le, fun n hn => ?_, nofun⟩
  have hn' : Function.update s.kernel.procArr process .free n ≠ .free := hn
  refine h.counted.written n ?_
  rw [hwritten]
  by_cases heq : n = process
  · rw [heq, Function.update_self] at hn'
    exact absurd rfl hn'
  · rwa [Function.update_of_ne heq] at hn'

/-! ## The next statement -/

/-- A process on top of its terminal's stack that is neither a shell. -/
theorem Ending.parent {process : Nat} (h : Inv s st)
    (hclaimed : s.point.claimed = none) (hend : Ending s.kernel.regs st s.kernel.service process) :
    ChildOf s.kernel.pcb process (topOf (st.pop s.kernel.service) s.kernel.service) := by
  obtain ⟨rest, hcons⟩ := hend.top
  have hrep := h.rep
  rw [Preempt.written_of_none hclaimed] at hrep
  exact hrep.parent h.service hcons

/-- The next statement keeps the invariant. -/
theorem Inv.stmt (h : Inv s st) {callerEbp : Nat} (hguard : s.point.InTurn s.kernel)
    (hstep : s.stmt callerEbp = some s') : ∃ st', Inv s' st' := by
  have hhere := h.here
  have hstmt := hstep
  unfold Preempt.stmt at hstep
  cases hpoint : s.point with
  | outside =>
      rw [hpoint] at hstep
      cases hstep
  | search args parentPid procIt => exact ⟨st, h.search hpoint hstmt⟩
  | claim args parentPid process =>
      rw [hpoint] at hstep hguard
      cases hstep
      exact ⟨st, h.claim hpoint hguard⟩
  | check args c => exact ⟨st, h.check hpoint hstmt⟩
  | release c =>
      rw [hpoint] at hstep
      cases hstep
      exact ⟨st, h.release hpoint⟩
  | readPage c cmd prog =>
      rw [hpoint] at hstep hhere
      cases hstep
      obtain ⟨honTop, hclaimed⟩ := hhere
      exact ⟨st, h.goto (by rw [hpoint]; rfl) ⟨hclaimed, honTop.page⟩⟩
  | setPage c cmd prog parPhysAddr =>
      rw [hpoint] at hstep hhere
      cases hstep
      obtain ⟨⟨⟨hmode, hstack, hframe, hparent⟩, hslot, hlt, hrunning⟩, hphys⟩ := hhere
      refine ⟨st, h.step ⟨rfl, samePcbs_refl _, rfl, rfl, rfl, rfl⟩ (by rw [hpoint]; rfl) ?_⟩
      exact ⟨⟨⟨hmode, hstack, hframe, hparent⟩, hslot, hlt, hrunning⟩, hphys, rfl⟩
  | load c cmd prog parPhysAddr => exact ⟨st, h.load hpoint hstmt⟩
  | build c cmd parPhysAddr =>
      rw [hpoint] at hstep hhere hguard
      cases hstep
      obtain ⟨hclaimed, hphys, hpage⟩ := hhere
      exact ⟨st, h.goto (by rw [hpoint]; rfl) ⟨hclaimed, hpage, hguard, hclaimed.executing.parent,
        hphys, hclaimed.executing.frame⟩⟩
  | publish c pcb =>
      rw [hpoint] at hstep
      cases hstep
      exact ⟨_, h.publish hpoint⟩
  | setEsp0 process =>
      rw [hpoint] at hstep hhere
      cases hstep
      obtain ⟨hmode, hstack, hpage, htop⟩ := hhere
      refine ⟨st, h.step ⟨rfl, samePcbs_refl _, rfl, rfl, rfl, rfl⟩ (by rw [hpoint]; rfl) ?_⟩
      exact ⟨⟨hmode, hstack, hpage, htop⟩, rfl⟩
  | start process =>
      rw [hpoint] at hstep
      cases hstep
      exact ⟨st, h.start hpoint⟩
  | close process fd => exact ⟨st, h.close hpoint hstmt⟩
  | haltEsp0 process =>
      rw [hpoint] at hstep hhere
      cases hstep
      obtain ⟨-, hmode, hstack, htop⟩ := hhere
      have hparent := Ending.parent h (by rw [hpoint]; rfl) ⟨hmode, hstack, htop⟩
      refine ⟨st, h.step ⟨rfl, samePcbs_refl _, rfl, rfl, rfl, rfl⟩ (by rw [hpoint]; rfl) ?_⟩
      exact ⟨⟨hmode, hstack, htop⟩, congrArg stackTop hparent.pid⟩
  | haltPage process =>
      rw [hpoint] at hstep hhere
      cases hstep
      obtain ⟨⟨hmode, hstack, htop⟩, hesp0⟩ := hhere
      have hparent := Ending.parent h (by rw [hpoint]; rfl) ⟨hmode, hstack, htop⟩
      refine ⟨st, h.step ⟨rfl, samePcbs_refl _, rfl, rfl, rfl, rfl⟩ (by rw [hpoint]; rfl) ?_⟩
      exact ⟨⟨hmode, hstack, htop⟩, hesp0, hparent.page⟩
  | free process =>
      rw [hpoint] at hstep
      cases hstep
      exact ⟨_, h.free hpoint⟩
  | leave process =>
      rw [hpoint] at hstep hhere
      cases hstep
      obtain ⟨-, -, -, -, hesp0, hpage, hframe⟩ := hhere
      exact ⟨st, h.step ⟨rfl, samePcbs_refl _, rfl, rfl, rfl, rfl⟩ (by rw [hpoint]; rfl)
        ⟨hesp0, hpage, fun _ => hframe⟩⟩

/-! ## The other steps of the running context -/

/-- Outside both calls the process on top runs. -/
theorem Inv.runsOn (h : Inv s st) (hpoint : s.point = .outside) :
    s.kernel.RunsOn (topOf st s.kernel.service) := by
  have hhere := h.here
  have hrep := h.rep
  rw [hpoint] at hhere
  rw [Preempt.written_of_none (by rw [hpoint]; rfl)] at hrep
  obtain ⟨hesp0, -, hstack⟩ := hhere
  exact ⟨hrep.topOf_lt h.service, hrep.topOf_live h.service, (hrep.shells 0 (by omega)).1, hesp0,
    hstack⟩

/-- Steps of the process by itself, and keys. -/
theorem Inv.own (h : Inv s st) {e : OwnEvent} (hadmits : s.admits e = true)
    (hnext : s.kernel.ownNext e = some k') : Inv { s with kernel := k' } st := by
  have hsame := ownStep_sameSched ⟨e, hnext⟩
  have hstep : Here k' st k'.service s.point → Inv { s with kernel := k' } st :=
    fun hhere => h.step hsame.tables rfl hhere
  have hprocess : s.point.isOutside = true → Inv { s with kernel := k' } st := by
    intro hout
    have hpoint := Point.eq_outside hout
    have hkept := Kernel.OwnStep.kept ⟨e, hnext⟩ (h.runsOn hpoint)
    have hhere := h.here
    rw [hpoint] at hhere
    refine hstep ?_
    rw [hpoint, hsame.service]
    exact ⟨hkept.runs.esp0, hsame.page.trans hhere.page, hkept.runs.stack⟩
  cases e with
  | key scancode stray =>
      refine hstep ?_
      rw [hsame.service]
      cases hnext
      exact h.here
  | fail args => cases hadmits
  | trap | iret | code | store | call => exact hprocess hadmits

/-- A call of `sys_execute`. -/
theorem Inv.execute (h : Inv s st) {args : ExecArgs} (hpoint : s.point = .outside)
    (hframe : s.kernel.InFrame) :
    Inv (s.goto (.search args s.kernel.getProcessNumber 0)) st := by
  obtain ⟨hmode, hstack, hebp⟩ := hframe
  have hnum := (h.runsOn hpoint).number hmode
  have hhere := h.here
  rw [hpoint] at hhere
  rw [hnum] at hstack hebp
  exact h.goto (by rw [hpoint]; rfl) ⟨hhere, hmode, hstack, hebp, hnum⟩

/-- A call of `sys_halt` by a program. -/
theorem Inv.halt (h : Inv s st) (hpoint : s.point = .outside) (hmode : s.kernel.mode = .kernel)
    (hbase : s.kernel.getProcessNumber ≠ 0)
    (hguard : s.kernel.getProcessNumber ≠ 1 ∧ s.kernel.getProcessNumber ≠ 2) :
    Inv (s.goto (.close s.kernel.getProcessNumber minTask)) st := by
  have hnum := (h.runsOn hpoint).number hmode
  have hhere := h.here
  rw [hpoint] at hhere
  rw [hnum] at hbase hguard ⊢
  obtain ⟨hone, htwo⟩ := hguard
  obtain ⟨-, htop⟩ | ⟨rest, hcons⟩ := topOf_cases st s.kernel.service
  · have hservice := h.service
    omega
  · exact h.goto (by rw [hpoint]; rfl) ⟨hhere, hmode, hhere.stack hmode, rest, hcons⟩

/-! ## Ticks -/

/-- A tick finds the stack pointer on the stack that the context is on. -/
theorem Inv.entersAt (h : Inv s st) (hpoint : s.point.critical = false) {esp : Nat}
    (hat : s.kernel.EntersAt esp) : InStack (stackOf st s.kernel.service s.point) esp := by
  have hresting := h.here.resting hpoint
  cases hmode : s.kernel.mode with
  | user =>
      have hout : s.point = .outside := by
        refine Point.eq_outside ?_
        by_contra hin
        have hkernel : s.kernel.mode = .kernel := hresting.kernel (Bool.not_eq_true _ ▸ hin)
        rw [hmode] at hkernel
        cases hkernel
      have hstack := (h.runsOn hout).inStack hat
      rw [hout]
      exact hstack
  | kernel =>
      have hrep := h.rep
      rw [Preempt.written_of_none (Claim.not_critical hpoint)] at hrep
      obtain ⟨hlt, -⟩ := hrep.member h.service (stackOf_member st s.kernel.service s.point)
      unfold Kernel.EntersAt at hat
      rw [hmode] at hat
      have hnum : s.kernel.getProcessNumber = stackOf st s.kernel.service s.point :=
        processNumberOf_inStack hlt (hresting.inStack hmode)
      rwa [hnum] at hat

/-- What a tick does: it saves the running context for the terminal in service and goes on in the
one that waits for another. -/
structure Resumed (s s' : Preempt) (next : Nat) (sched : Sched) (process : Nat) : Prop where
  procArr : s'.kernel.procArr = s.kernel.procArr
  pcb : s'.kernel.pcb = s.kernel.pcb
  init : s'.kernel.schedArrInit = s.kernel.schedArrInit
  shellsRunning : s'.kernel.shellsRunning = s.kernel.shellsRunning
  schedArr : s'.kernel.schedArr = Function.update s.kernel.schedArr s.kernel.service sched
  saved : s'.saved =
    Function.update s.saved s.kernel.service ⟨s.kernel.esp, s.kernel.ebp, s.point⟩
  service : s'.kernel.service = next
  regs : s'.kernel.regs = (s'.saved next).regs (s'.kernel.schedArr next) process
  point : s'.point = (s'.saved next).point
  waiting : s'.waiting =
    Function.update (Function.update s.waiting s.kernel.service true) next false
  occupant : s'.occupant = s.occupant
  writer : s'.writer = s.writer

theorem Inv.tick_resumed (h : Inv s st) (hpoint : s.point.critical = false) {esp ebp : Nat}
    {l : Launch} (hstep : s.tick esp ebp l = some s') :
    InStack (stackOf st s.kernel.service s.point) esp ∧
      Resumed s s' ((s.kernel.service + 1) % 3) ⟨esp, ebp, s.kernel.pageDirectory32⟩
        (topOf st ((s.kernel.service + 1) % 3)) := by
  simp only [Preempt.tick, Option.bind_eq_bind, Option.bind_eq_some_iff] at hstep
  obtain ⟨k', hnext, heq⟩ := hstep
  obtain ⟨hat, htick⟩ := next_tick hnext
  have hesp := h.entersAt hpoint hat
  refine ⟨hesp, ?_⟩
  have hrep := h.rep
  rw [Preempt.written_of_none (Claim.not_critical hpoint)] at hrep
  -- The handler finds the terminal in service in the PCB of the stack that it runs on.
  obtain ⟨hlt, -, hterm⟩ :=
    hrep.member h.service (stackOf_member st s.kernel.service s.point)
  have hcurr : (s.kernel.pcb (processNumberOf esp)).termNumber = s.kernel.service := by
    rw [processNumberOf_inStack hlt hesp]
    exact hterm
  have hcomplete : missingShell s.kernel = none := by
    rw [missingShell, h.launched.1, h.launched.2]
    rfl
  have hinit : ¬ s.kernel.schedArrInit = false := by simp [h.init]
  have hnextlt : (s.kernel.service + 1) % 3 < 3 := Nat.mod_lt _ (by omega)
  dsimp only [Kernel.pitHandler] at htick
  rw [hcurr, hrep.getNextProc_eq_top, hrep.termOf_topOf hnextlt, saveOrLaunch_complete hcomplete,
    if_neg hinit] at htick
  generalize (s.kernel.service + 1) % 3 = next at htick hnextlt
  rw [Kernel.resume, Option.some.injEq] at htick
  subst htick
  have hserved : (((s.kernel.inHandler esp ebp next).saveSched s.kernel.service
      ⟨esp, ebp, s.kernel.pageDirectory32⟩).switchTo (topOf st next) next).service = next := rfl
  rw [hcurr, hserved] at heq
  cases heq
  have hregs := Context.restore_regs
    (Function.update s.saved s.kernel.service ⟨s.kernel.esp, s.kernel.ebp, s.point⟩ next)
    ((s.kernel.inHandler esp ebp next).saveSched s.kernel.service
      ⟨esp, ebp, s.kernel.pageDirectory32⟩) (topOf st next) next rfl
  obtain ⟨esp', ebp', hrestore⟩ := Context.restore_eq
    (Function.update s.saved s.kernel.service ⟨s.kernel.esp, s.kernel.ebp, s.point⟩ next)
    (((s.kernel.inHandler esp ebp next).saveSched s.kernel.service
      ⟨esp, ebp, s.kernel.pageDirectory32⟩).switchTo (topOf st next) next)
  refine ⟨?_, ?_, ?_, ?_, ?_, rfl, ?_, ?_, rfl, rfl, rfl, rfl⟩
  · exact (congrArg Kernel.procArr hrestore).trans rfl
  · exact (congrArg Kernel.pcb hrestore).trans rfl
  · exact (congrArg Kernel.schedArrInit hrestore).trans rfl
  · exact (congrArg Kernel.shellsRunning hrestore).trans rfl
  · exact (congrArg Kernel.schedArr hrestore).trans rfl
  · exact (congrArg Kernel.service hrestore).trans rfl
  · have hsched := congrArg Kernel.schedArr hrestore
    dsimp only at hsched ⊢
    rw [hsched]
    exact hregs

/-- A tick keeps the invariant. -/
theorem Inv.tick (h : Inv s st) (hpoint : s.point.critical = false) {esp ebp : Nat} {l : Launch}
    (hstep : s.tick esp ebp l = some s') : Inv s' st := by
  obtain ⟨hesp, hresumed⟩ := h.tick_resumed hpoint hstep
  have hservice := h.service
  have hlt : (s.kernel.service + 1) % 3 < 3 := Nat.mod_lt _ (by omega)
  generalize (s.kernel.service + 1) % 3 = next at hresumed hlt
  -- What waits for each terminal, the interrupted context included.
  have hparked : ∀ t, t < 3 → Parked st t (s'.kernel.schedArr t) (s'.saved t) := by
    intro t ht
    rw [hresumed.schedArr, hresumed.saved]
    by_cases htservice : t = s.kernel.service
    · subst htservice
      rw [Function.update_self, Function.update_self]
      exact (h.here.resting hpoint).park hesp
    · rw [Function.update_of_ne htservice, Function.update_of_ne htservice]
      exact h.parked t ht htservice
  have hcontext := (hparked next hlt).resting
  rw [← hresumed.regs, ← hresumed.point] at hcontext
  have hpoint' : s'.point.claimed = none := Claim.not_critical hcontext.not_critical
  have hwritten : s'.written = s.written := by
    rw [Preempt.written_of_none hpoint', Preempt.written_of_none (Claim.not_critical hpoint),
      hresumed.procArr]
  refine ⟨?_, hresumed.init.trans h.init, ?_, ?_, ?_, fun t ht _ => hparked t ht,
    fun t hwait => ?_, fun n => ?_, fun n hn => ?_, fun c hc => ?_⟩
  · rw [hwritten, hresumed.pcb]
    exact h.rep
  · rw [hresumed.shellsRunning]
    exact h.launched
  · rw [hresumed.service]
    exact hlt
  · rw [hresumed.service]
    exact hcontext.here
  · rw [hresumed.service]
    rintro rfl
    rw [hresumed.waiting, Function.update_self] at hwait
    cases hwait
  · rw [hresumed.writer, hresumed.occupant]
    exact h.counted.le n
  · rw [hwritten] at hn
    rw [hresumed.writer, hresumed.occupant]
    exact h.counted.written n hn
  · rw [hpoint'] at hc
    cases hc

/-! ## Runs -/

/-- Every step that meets the condition. -/
theorem Inv.next (h : Inv s st) {e : PreemptEvent}
    (hstep : Guarded Undisturbed PreemptStep s e s') : ∃ st', Inv s' st' := by
  obtain ⟨hguard, hnext⟩ := hstep
  cases e with
  | own e =>
      simp only [PreemptStep, Preempt.next, Option.ite_none_right_eq_some,
        Option.map_eq_some_iff] at hnext
      obtain ⟨hadmits, k', hown, rfl⟩ := hnext
      exact ⟨st, h.own hadmits hown⟩
  | execute args =>
      simp only [PreemptStep, Preempt.next, Option.ite_none_right_eq_some,
        Option.some.injEq] at hnext
      obtain ⟨⟨hout, hframe⟩, rfl⟩ := hnext
      exact ⟨st, h.execute (Point.eq_outside hout) hframe⟩
  | halt =>
      simp only [PreemptStep, Preempt.next, Option.ite_none_right_eq_some,
        Option.some.injEq] at hnext
      obtain ⟨⟨hout, hmode⟩, rfl⟩ := hnext
      split_ifs with hbase
      · exact ⟨st, h⟩
      · exact ⟨st, h.halt (Point.eq_outside hout) hmode hbase hguard⟩
  | stmt callerEbp => exact h.stmt hguard hnext
  | tick esp ebp l => exact ⟨st, h.tick hguard hnext⟩

/-- The start-up establishes the invariant. -/
theorem inv_start {k₀ : Kernel} {waiting : Nat → Option Sched} (hup : ShellsReady k₀ waiting) :
    Inv (.start k₀) fun _ => [] := by
  have hready := ready_of_shellsReady hup
  refine ⟨hready.rep, hready.init, hready.launched, hready.service,
    ⟨hready.esp0, hready.page, hready.stack⟩, fun t ht hne => ?_, fun t hwait => ?_,
    fun _ => Nat.le_refl 0, fun _ _ => rfl, nofun⟩
  · obtain ⟨hesp, hpage⟩ := hready.suspended t ht hne
    exact ⟨⟨rfl, hpage, fun _ => hesp⟩, hesp⟩
  · exact (of_decide_eq_true hwait).2

/-- The invariant along a run. -/
theorem inv_of_run {k₀ : Kernel} {waiting : Nat → Option Sched} {es : List PreemptEvent}
    (hup : ShellsReady k₀ waiting) (hrun : Run (Guarded Undisturbed PreemptStep) (.start k₀) es s) :
    ∃ st, Inv s st :=
  Run.invariant (I := fun s => ∃ st, Inv s st) (fun _ _ _ ⟨_, h⟩ hstep => h.next hstep) hrun
    ⟨_, inv_start hup⟩

/-! ## Where the slots are safe -/

/-- The PCBs are those of the occupants except between the claim of a slot and the copy. -/
theorem Inv.published_iff (h : Inv s st) : Published s ↔ s.point.claimed = none := by
  constructor
  · intro hpublished
    cases hclaimed : s.point.claimed with
    | none => rfl
    | some c =>
        obtain ⟨hcount, hlt⟩ := h.counted.claimed c hclaimed
        have hheld := h.here.claimed hclaimed
        have hfree : s.written c.process = .free := by
          rw [Preempt.written_of_some hclaimed, Function.update_self]
        have hshell : ¬ c.process < 3 := fun hlt => (h.rep.shells c.process hlt).1 hfree
        have hlive : s.kernel.procArr c.process ≠ .free := by
          rw [hheld.running]
          nofun
        have heq := hpublished c.process hheld.lt (Nat.le_of_not_lt hshell) hlive
        omega
  · intro hclaimed n _ _ hlive
    refine h.counted.written n ?_
    rwa [Preempt.written_of_none hclaimed]

/-- A context on the stack of a live process is on no free slot's. -/
theorem Inv.not_inSlot (h : Inv s st) {n esp : Nat} (hn : n < 6)
    (hfree : s.kernel.procArr n = .free) (ht : t < 3) (hesp : InStack (stackOf st t point) esp) :
    ¬ InSlot n esp := by
  intro hin
  obtain ⟨hlt, hlive, -⟩ := h.rep.member ht (stackOf_member st t point)
  rw [inSlot_unique hn hlt hin hesp] at hfree
  exact Preempt.live_of_written hlive hfree

/-- No context is on the stack of a free slot except between giving up a slot and leaving its
stack. -/
theorem Inv.stacksFree_iff (h : Inv s st) : StacksFree s ↔ s.point.leaving = false := by
  constructor
  · intro hfree
    cases hpoint : s.point with
    | leave process =>
        have hhere := h.here
        rw [hpoint] at hhere
        obtain ⟨hmode, hstack, hlt, hproc, -⟩ := hhere
        exact absurd hstack.inSlot ((hfree process hlt hproc).1 hmode)
    | _ => rfl
  · intro hpoint n hn hfree
    refine ⟨fun hmode => ?_, fun t ht hwait => ?_⟩
    · exact h.not_inSlot hn hfree h.service (h.here.inStack hpoint hmode)
    · exact h.not_inSlot hn hfree ht (h.parked t ht (h.waiting t hwait)).stack

/-- In every run whose steps all meet the condition, the PCBs of the slots in use are those of their
occupants except between a claim and the copy of the PCB, and the stacks of the free slots are
unused except between giving up a slot and the stack switch. A tick finds both. -/
theorem slots_safe {k₀ : Kernel} {waiting : Nat → Option Sched} {es : List PreemptEvent}
    (hup : ShellsReady k₀ waiting) (hrun : Run (Guarded Undisturbed PreemptStep) (.start k₀) es s) :
    (Published s ↔ s.point.claimed = none) ∧ (StacksFree s ↔ s.point.leaving = false) ∧
      ∀ esp ebp l s', Guarded Undisturbed PreemptStep s (.tick esp ebp l) s' →
        Published s ∧ StacksFree s := by
  obtain ⟨st, h⟩ := inv_of_run hup hrun
  refine ⟨h.published_iff, h.stacksFree_iff, fun esp ebp l s' htick => ?_⟩
  have hpoint : s.point.critical = false := htick.1
  have hresting := h.here.resting hpoint
  refine ⟨h.published_iff.2 (Claim.not_critical hpoint), h.stacksFree_iff.2 ?_⟩
  cases hwhere : s.point with
  | leave process =>
      rw [hwhere] at hpoint
      cases hpoint
  | _ => rfl

instance (s : Preempt) : Decidable (Published s) :=
  inferInstanceAs (Decidable (∀ n, n < maxProcesses → _))

instance (s : Preempt) : Decidable (StacksFree s) :=
  inferInstanceAs (Decidable (∀ n, n < maxProcesses → _))

/-- Some statements, for a parent whose own frame pointer is 0. -/
def stmts (n : Nat) : List PreemptEvent := List.replicate n (.stmt 0)

/-- The shell of terminal 0 executes a shell, and the program halts; a round of ticks comes while
the shell searches for a slot, another before the program starts, and another while it closes its
descriptors. -/
def executeHalt : List PreemptEvent :=
  [.tick 0x7FDC00 0x7FDC80 (bareLaunch 0 0), .tick 0x7FBC00 0x7FBC80 (bareLaunch 0 0),
    .execute (bareLaunch 0 0).args] ++ stmts 2 ++
  [.tick 0x7FFC00 0x7FFC80 (bareLaunch 0 0), .tick 0x7FDC00 0x7FDC80 (bareLaunch 0 0),
    .tick 0x7FBC00 0x7FBC80 (bareLaunch 0 0)] ++ stmts 9 ++
  [.tick 0x7FFC00 0x7FFC80 (bareLaunch 0 0), .tick 0x7FDC00 0x7FDC80 (bareLaunch 0 0),
    .tick 0x7FBC00 0x7FBC80 (bareLaunch 0 0)] ++ stmts 2 ++
  [.own (.trap 0x7F9F00 0x7F9F80), .halt] ++ stmts 3 ++
  [.tick 0x7F9E00 0x7F9E80 (bareLaunch 0 0), .tick 0x7FDC00 0x7FDC80 (bareLaunch 0 0),
    .tick 0x7FBC00 0x7FBC80 (bareLaunch 0 0)] ++ stmts 7

theorem slots_safe_once : ∃ k₀ waiting s, ShellsReady k₀ waiting ∧
    Run (Guarded Undisturbed PreemptStep) (.start k₀) executeHalt s ∧
    (Published s ↔ s.point.claimed = none) ∧ (StacksFree s ↔ s.point.leaving = false) := by
  have hdefined : (bootedShells.bind fun k₀ => replay
      (fun s e => if Undisturbed s e then s.next e else none) (.start k₀) executeHalt).isSome =
      true := by decide +kernel
  obtain ⟨s, hs⟩ := Option.isSome_iff_exists.1 hdefined
  obtain ⟨k₀, hboot, hreplay⟩ := Option.bind_eq_some_iff.1 hs
  obtain ⟨waiting, hup⟩ := bootedShells_ready hboot
  have hrun : Run (Guarded Undisturbed PreemptStep) (.start k₀) executeHalt s :=
    replay_guarded hreplay
  obtain ⟨hpublished, hfree, -⟩ := slots_safe hup hrun
  exact ⟨k₀, waiting, s, hup, hrun, hpublished, hfree⟩

/-- The shell of terminal 1 claims a slot. -/
def claimSlot : List PreemptEvent := .execute (bareLaunch 0 0).args :: stmts 5

/-- The shell of terminal 0 executes a shell, and a tick comes between the last two statements of
the program's `sys_halt`. -/
def haltInterrupted : List PreemptEvent :=
  [.tick 0x7FDC00 0x7FDC80 (bareLaunch 0 0), .tick 0x7FBC00 0x7FBC80 (bareLaunch 0 0),
    .execute (bareLaunch 0 0).args] ++ stmts 13 ++
  [.own (.trap 0x7F9F00 0x7F9F80), .halt] ++ stmts 9 ++ [.tick 0x7F9E00 0x7F9E80 (bareLaunch 0 0)]

/-- A tick right after the first run finds a PCB that the new occupant has not written, and after
the second one a suspended context is on the stack of a free slot. -/
theorem slots_unsafe :
    (¬ ∀ (k₀ : Kernel) (waiting : Nat → Option Sched) (es : List PreemptEvent) (s : Preempt),
      ShellsReady k₀ waiting → Run PreemptStep (.start k₀) es s →
      ∀ esp ebp l s', PreemptStep s (.tick esp ebp l) s' → Published s) ∧
    ¬ ∀ (k₀ : Kernel) (waiting : Nat → Option Sched) (es : List PreemptEvent) (s : Preempt),
      ShellsReady k₀ waiting → Run PreemptStep (.start k₀) es s → StacksFree s := by
  constructor
  · intro h
    have hdefined : (bootedShells.bind fun k₀ => ((replay Preempt.next (.start k₀) claimSlot).filter
        fun s => ¬ Published s).bind fun s =>
        s.next (.tick 0x7FDC00 0x7FDC80 (bareLaunch 0 0))).isSome = true := by decide +kernel
    obtain ⟨s', hs'⟩ := Option.isSome_iff_exists.1 hdefined
    simp only [Option.bind_eq_some_iff, Option.filter_eq_some_iff, decide_eq_true_eq] at hs'
    obtain ⟨k₀, hboot, s, ⟨hrun, hbad⟩, htick⟩ := hs'
    obtain ⟨waiting, hup⟩ := bootedShells_ready hboot
    exact hbad (h k₀ waiting claimSlot s hup (replay_run hrun) _ _ _ s' htick)
  · intro h
    have hdefined : (bootedShells.bind fun k₀ =>
        (replay Preempt.next (.start k₀) haltInterrupted).filter
          fun s => ¬ StacksFree s).isSome = true := by decide +kernel
    obtain ⟨s, hs⟩ := Option.isSome_iff_exists.1 hdefined
    simp only [Option.bind_eq_some_iff, Option.filter_eq_some_iff, decide_eq_true_eq] at hs
    obtain ⟨k₀, hboot, hrun, hbad⟩ := hs
    obtain ⟨waiting, hup⟩ := bootedShells_ready hboot
    exact hbad (h k₀ waiting haltInterrupted s hup (replay_run hrun))

end Ece391Kernel
