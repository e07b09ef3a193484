import Ece391Kernel.Kernel.Preemption

/-!
# Contexts inside `sys_execute` and `sys_halt`

What the registers, the page mapping and the process table are at each point of the two system
calls, for the running context (`Here`) and for one that a tick interrupted (`Parked`). The programs
of each terminal are a stack as before; at `Resting` points the context depends on them alone.
-/

namespace Ece391Kernel

open Transition

/-! ## Kinds of points -/

/-- The claim of a slot whose PCB is not written yet. -/
def Point.claimed : Point → Option Claim
  | .check _ c | .release c | .readPage c _ _ | .setPage c _ _ _ | .load c _ _ _ | .build c _ _
  | .publish c _ => some c
  | .outside | .search .. | .claim .. | .setEsp0 _ | .start _ | .close _ _ | .haltEsp0 _
  | .haltPage _ | .free _ | .leave _ => none

/-- Between giving up the slot and leaving its stack. -/
def Point.leaving : Point → Bool
  | .leave _ => true
  | .outside | .search .. | .claim .. | .check .. | .release .. | .readPage .. | .setPage ..
  | .load .. | .build .. | .publish .. | .setEsp0 _ | .start _ | .close _ _ | .haltEsp0 _
  | .haltPage _ | .free _ => false

/-- Where no tick may come. -/
def Point.critical : Point → Bool
  | .claim .. | .check .. | .release .. | .readPage .. | .setPage .. | .load .. | .build ..
  | .publish .. | .haltPage _ | .free _ | .leave _ => true
  | .outside | .search .. | .setEsp0 _ | .start _ | .close _ _ | .haltEsp0 _ => false

/-! ## The invariant at each point -/

/-- The registers and the mapping of the user page. -/
structure Regs where
  mode : Mode
  esp : Nat
  ebp : Nat
  esp0 : Nat
  page : Nat

def Kernel.regs (k : Kernel) : Regs := ⟨k.mode, k.esp, k.ebp, k.esp0, k.pageDirectory32⟩

/-- A process runs in them. -/
structure OnTop (r : Regs) (process : Nat) : Prop where
  esp0 : r.esp0 = stackTop process
  page : r.page = frameEntry process
  stack : r.mode = .kernel → InStack process r.esp

/-- A process is in a frame of `sys_execute`. -/
structure Executing (r : Regs) (process parentPid : Nat) : Prop where
  mode : r.mode = .kernel
  stack : InStack process r.esp
  frame : InStack process (r.ebp + 8)
  parent : parentPid = process

/-- A program is on top of the terminal's stack, and the one below it is still in `sys_execute`. -/
structure Begun (r : Regs) (st : Stacks Nat) (t process : Nat) : Prop where
  mode : r.mode = .kernel
  stack : InStack (topOf (st.pop t) t) r.esp
  page : r.page = frameEntry process
  top : ∃ rest, st t = process :: rest

/-- A program on top of the terminal's stack is in `sys_halt`. -/
structure Ending (r : Regs) (st : Stacks Nat) (t process : Nat) : Prop where
  mode : r.mode = .kernel
  stack : InStack process r.esp
  top : ∃ rest, st t = process :: rest

/-- A terminal's context where a tick may come. -/
def Resting (r : Regs) (st : Stacks Nat) (t : Nat) : Point → Prop
  | .outside => OnTop r (topOf st t)
  | .search _ parentPid _ => OnTop r (topOf st t) ∧ Executing r (topOf st t) parentPid
  | .setEsp0 process => Begun r st t process
  | .start process => Begun r st t process ∧ r.esp0 = stackTop process
  | .close process _ | .haltEsp0 process => OnTop r process ∧ Ending r st t process
  | .claim .. | .check .. | .release .. | .readPage .. | .setPage .. | .load .. | .build ..
  | .publish .. | .haltPage _ | .free _ | .leave _ => False

/-- The process on top is in `sys_execute`, and has claimed a slot. -/
structure Claimed (r : Regs) (procArr : Nat → ProcFlag) (st : Stacks Nat) (t : Nat) (c : Claim) :
    Prop where
  executing : Executing r (topOf st t) c.parentPid
  slot : topOf st t < 3 ∨ c.process < topOf st t
  lt : c.process < 6
  running : procArr c.process = .running

/-- The running context. -/
def Here (k : Kernel) (st : Stacks Nat) (t : Nat) : Point → Prop
  | .outside => Resting k.regs st t .outside
  | .search args parentPid procIt => Resting k.regs st t (.search args parentPid procIt)
  | .claim _ parentPid process => OnTop k.regs (topOf st t) ∧
      Executing k.regs (topOf st t) parentPid ∧ k.procArr process = .free ∧ process < 6
  | .check _ c | .release c | .readPage c _ _ =>
      OnTop k.regs (topOf st t) ∧ Claimed k.regs k.procArr st t c
  | .setPage c _ _ parPhysAddr =>
      Claimed k.regs k.procArr st t c ∧ parPhysAddr = frameEntry (topOf st t)
  | .load c _ _ parPhysAddr | .build c _ parPhysAddr => Claimed k.regs k.procArr st t c ∧
      parPhysAddr = frameEntry (topOf st t) ∧ k.pageDirectory32 = frameEntry c.process
  | .publish c pcb => Claimed k.regs k.procArr st t c ∧ k.pageDirectory32 = frameEntry c.process ∧
      pcb.termNumber = t ∧ pcb.parentPid = topOf st t ∧
      pcb.parentPhysAddr = frameEntry (topOf st t) ∧
      InStack (topOf st t) (pcb.parentEbp + 8)
  | .setEsp0 process => Resting k.regs st t (.setEsp0 process)
  | .start process => Resting k.regs st t (.start process)
  | .close process fd => Resting k.regs st t (.close process fd)
  | .haltEsp0 process => Resting k.regs st t (.haltEsp0 process)
  | .haltPage process => Ending k.regs st t process ∧
      k.esp0 = stackTop (topOf (st.pop t) t)
  | .free process => Ending k.regs st t process ∧
      k.esp0 = stackTop (topOf (st.pop t) t) ∧
      k.pageDirectory32 = frameEntry (topOf (st.pop t) t)
  | .leave process => k.mode = .kernel ∧ InStack process k.esp ∧ process < 6 ∧
      k.procArr process = .free ∧ k.esp0 = stackTop (topOf st t) ∧
      k.pageDirectory32 = frameEntry (topOf st t) ∧
      InStack (topOf st t) ((k.pcb process).parentEbp + 8)

/-- The registers with which a tick resumes a context. -/
def Context.regs (c : Context) (sched : Sched) (process : Nat) : Regs where
  mode := .kernel
  esp := if c.point.isOutside then sched.esp else c.esp
  ebp := if c.point.isOutside then sched.ebp else c.ebp
  esp0 := stackTop process
  page := sched.oteMb

/-- The process whose stack a context is on. -/
def stackOf (st : Stacks Nat) (t : Nat) : Point → Nat
  | .setEsp0 _ | .start _ => topOf (st.pop t) t
  | .outside | .search .. | .claim .. | .check .. | .release .. | .readPage .. | .setPage ..
  | .load .. | .build .. | .publish .. | .close _ _ | .haltEsp0 _ | .haltPage _ | .free _
  | .leave _ => topOf st t

/-- The context that waits for a terminal. -/
structure Parked (st : Stacks Nat) (t : Nat) (sched : Sched) (c : Context) : Prop where
  resting : Resting (c.regs sched (topOf st t)) st t c.point
  stack : InStack (stackOf st t c.point) sched.esp

variable {st st' : Stacks Nat} {k : Kernel} {r : Regs} {t : Nat} {point : Point}

/-! ## Stacks and points -/

/-- The address lies in the 8 KB of the process. -/
def InSlot (process esp : Nat) : Prop := pcbLoc process ≤ esp ∧ esp ≤ stackTop process

instance (process esp : Nat) : Decidable (InSlot process esp) :=
  inferInstanceAs (Decidable (_ ∧ _))

theorem inSlot_unique {p q esp : Nat} (hp : p < 6) (hq : q < 6) (h : InSlot p esp)
    (h' : InStack q esp) : p = q := by
  have hlo : pcbLoc p ≤ esp := h.1
  have hhi : esp ≤ stackTop p := h.2
  have hlo' : pcbLoc q + 292 ≤ esp := h'.1
  have hhi' : esp ≤ stackTop q := h'.2
  rw [pcbLoc_eq] at hlo hlo'
  rw [stackTop_eq] at hhi hhi'
  omega

theorem InStack.inSlot {p esp : Nat} (h : InStack p esp) : InSlot p esp :=
  ⟨Nat.le_trans (Nat.le_add_right ..) h.1, h.2⟩

/-- The shell and the programs on a terminal's stack are live and have that terminal. -/
theorem Represents.member {procArr : Nat → ProcFlag} {pcb : Nat → Pcb} {p : Nat}
    (h : Represents procArr pcb st) (ht : t < 3) (hp : p = t ∨ p ∈ st t) :
    p < 6 ∧ procArr p ≠ .free ∧ (pcb p).termNumber = t := by
  obtain rfl | hmem := hp
  · obtain ⟨hlive, hterm⟩ := h.shells p ht
    exact ⟨by omega, hlive, hterm⟩
  · exact (h.slots t p hmem).2.2

theorem topOf_member (st : Stacks Nat) (t : Nat) : topOf st t = t ∨ topOf st t ∈ st t := by
  obtain ⟨-, htop⟩ | ⟨rest, hcons⟩ := topOf_cases st t
  · exact .inl htop
  · right
    rw [hcons]
    exact List.mem_cons_self ..

theorem stackOf_member (st : Stacks Nat) (t : Nat) (point : Point) :
    stackOf st t point = t ∨ stackOf st t point ∈ st t := by
  have hbelow : topOf (st.pop t) t = t ∨ topOf (st.pop t) t ∈ st t := by
    refine (topOf_member (st.pop t) t).imp_right fun hmem => ?_
    rw [Stacks.pop_self] at hmem
    exact List.mem_of_mem_tail hmem
  cases point with
  | setEsp0 process => exact hbelow
  | start process => exact hbelow
  | _ => exact topOf_member st t

/-- The program on top is the first of the stack. -/
theorem topOf_cons {process : Nat} {rest : List Nat} (h : st t = process :: rest) :
    topOf st t = process := by
  rw [topOf, Stacks.top, h, List.headD_cons]

/-- A context in one of the two calls is in the kernel. -/
theorem Resting.kernel (h : Resting r st t point) (hin : point.isOutside = false) :
    r.mode = .kernel := by
  cases point with
  | outside => cases hin
  | search args parentPid procIt => exact h.2.mode
  | setEsp0 process => exact h.mode
  | start process => exact h.1.mode
  | close process fd => exact h.2.mode
  | haltEsp0 process => exact h.2.mode
  | _ => exact h.elim

theorem Resting.inStack (h : Resting r st t point) (hmode : r.mode = .kernel) :
    InStack (stackOf st t point) r.esp := by
  cases point with
  | outside => exact h.stack hmode
  | search args parentPid procIt => exact h.2.stack
  | setEsp0 process => exact h.stack
  | start process => exact h.1.stack
  | close process fd =>
      obtain ⟨rest, hcons⟩ := h.2.top
      show InStack (topOf st t) r.esp
      rw [topOf_cons hcons]
      exact h.2.stack
  | haltEsp0 process =>
      obtain ⟨rest, hcons⟩ := h.2.top
      show InStack (topOf st t) r.esp
      rw [topOf_cons hcons]
      exact h.2.stack
  | _ => exact h.elim

theorem Resting.not_critical (h : Resting r st t point) : point.critical = false := by
  cases point with
  | outside | search | setEsp0 | start | close | haltEsp0 => rfl
  | _ => exact h.elim

/-- Outside the critical points the running context is like one that waits. -/
theorem Here.resting (h : Here k st t point) (hpoint : point.critical = false) :
    Resting k.regs st t point := by
  cases point with
  | outside | search | setEsp0 | start | close | haltEsp0 => exact h
  | _ => cases hpoint

theorem Resting.here (h : Resting k.regs st t point) : Here k st t point := by
  cases point with
  | outside | search | setEsp0 | start | close | haltEsp0 => exact h
  | _ => exact h.elim

/-- Where the running context is, unless it has just given up its slot. -/
theorem Here.inStack (h : Here k st t point) (hpoint : point.leaving = false)
    (hmode : k.mode = .kernel) : InStack (stackOf st t point) k.esp := by
  have hending : ∀ process, Ending k.regs st t process →
      InStack (topOf st t) k.esp := by
    intro process hend
    obtain ⟨rest, hcons⟩ := hend.top
    rw [topOf_cons hcons]
    exact hend.stack
  cases point with
  | outside | search | setEsp0 | start | close | haltEsp0 =>
      exact (Here.resting h rfl).inStack hmode
  | claim args parentPid process => exact h.2.1.stack
  | check args c => exact h.2.executing.stack
  | release c => exact h.2.executing.stack
  | readPage c cmd prog => exact h.2.executing.stack
  | setPage c cmd prog parPhysAddr => exact h.1.executing.stack
  | load c cmd prog parPhysAddr => exact h.1.executing.stack
  | build c cmd parPhysAddr => exact h.1.executing.stack
  | publish c pcb => exact h.1.executing.stack
  | haltPage process => exact hending process h.1
  | free process => exact hending process h.1
  | leave process => cases hpoint

section Congr

variable (hst : st' t = st t)

include hst

theorem topOf_congr : topOf st' t = topOf st t := by
  rw [topOf, Stacks.top, hst, topOf, Stacks.top]

theorem topOf_pop_congr : topOf (st'.pop t) t = topOf (st.pop t) t := by
  refine topOf_congr ?_
  rw [Stacks.pop_self, Stacks.pop_self, hst]

theorem stackOf_congr (point : Point) : stackOf st' t point = stackOf st t point := by
  cases point with
  | setEsp0 | start => exact topOf_pop_congr hst
  | _ => exact topOf_congr hst

theorem Begun.congr {process : Nat} (h : Begun r st t process) : Begun r st' t process := by
  refine ⟨h.mode, ?_, h.page, ?_⟩
  · rw [topOf_pop_congr hst]
    exact h.stack
  · rw [hst]
    exact h.top

theorem Ending.congr {process : Nat} (h : Ending r st t process) : Ending r st' t process := by
  refine ⟨h.mode, h.stack, ?_⟩
  rw [hst]
  exact h.top

/-- A context of a terminal depends only on that terminal's programs. -/
theorem Resting.congr (h : Resting r st t point) : Resting r st' t point := by
  cases point with
  | outside =>
      show OnTop r (topOf st' t)
      rw [topOf_congr hst]
      exact h
  | search args parentPid procIt =>
      show OnTop r (topOf st' t) ∧ Executing r (topOf st' t) parentPid
      rw [topOf_congr hst]
      exact h
  | setEsp0 process => exact Begun.congr hst h
  | start process => exact ⟨h.1.congr hst, h.2⟩
  | close process fd => exact ⟨h.1, h.2.congr hst⟩
  | haltEsp0 process => exact ⟨h.1, h.2.congr hst⟩
  | _ => exact h.elim

theorem Parked.congr {sched : Sched} {c : Context} (h : Parked st t sched c) :
    Parked st' t sched c := by
  constructor
  · rw [topOf_congr hst]
    exact h.resting.congr hst
  · rw [stackOf_congr hst]
    exact h.stack

end Congr

/-! ## Claims -/

theorem Point.eq_outside (h : point.isOutside = true) : point = .outside := by
  cases point with
  | outside => rfl
  | _ => cases h

theorem Claim.not_critical (h : point.critical = false) : point.claimed = none := by
  cases point with
  | outside | search | setEsp0 | start | close | haltEsp0 => rfl
  | _ => cases h

theorem Here.claimed (h : Here k st t point) {c : Claim} (hclaimed : point.claimed = some c) :
    Claimed k.regs k.procArr st t c := by
  cases point with
  | check args c' =>
      cases hclaimed
      exact h.2
  | release c' =>
      cases hclaimed
      exact h.2
  | readPage c' cmd prog =>
      cases hclaimed
      exact h.2
  | setPage c' cmd prog parPhysAddr =>
      cases hclaimed
      exact h.1
  | load c' cmd prog parPhysAddr =>
      cases hclaimed
      exact h.1
  | build c' cmd parPhysAddr =>
      cases hclaimed
      exact h.1
  | publish c' pcb =>
      cases hclaimed
      exact h.1
  | _ => cases hclaimed

/-! ## Interrupted contexts -/

/-- An interrupted context is resumed with the `tss.esp0` of the program on top. -/
theorem Resting.park {esp ebp : Nat} (h : Resting r st t point)
    (hesp : InStack (stackOf st t point) esp) :
    Parked st t ⟨esp, ebp, r.page⟩ ⟨r.esp, r.ebp, point⟩ := by
  refine ⟨?_, hesp⟩
  cases point with
  | outside => exact ⟨rfl, h.page, fun _ => hesp⟩
  | search args parentPid procIt =>
      obtain ⟨honTop, hexec⟩ := h
      exact ⟨⟨rfl, honTop.page, fun _ => hexec.stack⟩, rfl, hexec.stack, hexec.frame, hexec.parent⟩
  | setEsp0 process => exact ⟨rfl, h.stack, h.page, h.top⟩
  | start process =>
      obtain ⟨hbegun, -⟩ := h
      obtain ⟨rest, hcons⟩ := hbegun.top
      exact ⟨⟨rfl, hbegun.stack, hbegun.page, rest, hcons⟩, congrArg stackTop (topOf_cons hcons)⟩
  | close process fd =>
      obtain ⟨honTop, hend⟩ := h
      obtain ⟨rest, hcons⟩ := hend.top
      exact ⟨⟨congrArg stackTop (topOf_cons hcons), honTop.page, fun _ => hend.stack⟩, rfl,
        hend.stack, rest, hcons⟩
  | haltEsp0 process =>
      obtain ⟨honTop, hend⟩ := h
      obtain ⟨rest, hcons⟩ := hend.top
      exact ⟨⟨congrArg stackTop (topOf_cons hcons), honTop.page, fun _ => hend.stack⟩, rfl,
        hend.stack, rest, hcons⟩
  | _ => exact h.elim

/-- The registers after the return into a context. -/
theorem Context.restore_regs (c : Context) (k : Kernel) (process term : Nat)
    (hmode : k.mode = .kernel) :
    (c.restore (k.switchTo process term)).regs = c.regs (k.schedArr term) process := by
  unfold Context.restore Context.regs
  cases c.point.isOutside with
  | true =>
      simp only [if_true, Kernel.regs, Kernel.switchTo]
      rw [hmode]
  | false =>
      simp only [Bool.false_eq_true, if_false, Kernel.regs, Kernel.switchTo]
      rw [hmode]

/-- Nothing else changes. -/
theorem Context.restore_eq (c : Context) (k : Kernel) :
    ∃ esp ebp, c.restore k = { k with esp, ebp } := by
  unfold Context.restore
  split_ifs
  · exact ⟨k.esp, k.ebp, rfl⟩
  · exact ⟨c.esp, c.ebp, rfl⟩

end Ece391Kernel
