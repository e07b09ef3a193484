import Ece391Kernel.Devices.Keyboard
import Ece391Kernel.Kernel.Calls

/-!
# Steps of the kernel between ticks

What the running process does by itself, the `sys_execute` that starts a program and the `sys_halt`
that ends one, each as a partial function of the state.
-/

namespace Ece391Kernel

/-- A process enters the kernel and leaves it, moves its kernel stack, stores in user memory, makes
descriptor calls, and fails to execute; and keys are pressed. -/
inductive OwnEvent where
  | trap (esp ebp : Nat)
  | iret
  | code (esp ebp : Nat)
  | store (frames : Nat → UInt8)
  | key (scancode : UInt8) (stray : Option Int)
  | call (call : DescCall)
  | fail (args : ExecArgs)

namespace Kernel

variable {k k' : Kernel} {p : Nat}

/-- The process is running: its slot is taken, as is that of the base shell, the CPU enters the
kernel on its stack, and its kernel code is on that stack. -/
structure RunsOn (k : Kernel) (p : Nat) : Prop where
  lt : p < maxProcesses
  live : k.procArr p ≠ .free
  base : k.procArr 0 ≠ .free
  esp0 : k.esp0 = stackTop p
  stack : k.mode = .kernel → InStack p k.esp

theorem RunsOn.number (h : k.RunsOn p) (hmode : k.mode = .kernel) : k.getProcessNumber = p :=
  processNumberOf_inStack h.lt (h.stack hmode)

/-- Where an interrupt or a system call finds the stack pointer: below `tss.esp0` when it comes
from user mode, on the same stack when it comes from the kernel. -/
def EntersAt (k : Kernel) (esp : Nat) : Prop :=
  match k.mode with
  | .user => processNumberOf esp < maxProcesses ∧ k.esp0 = stackTop (processNumberOf esp) ∧
      InStack (processNumberOf esp) esp
  | .kernel => InStack k.getProcessNumber esp

instance (k : Kernel) (esp : Nat) : Decidable (k.EntersAt esp) := by
  unfold EntersAt
  split <;> infer_instance

/-- An interrupt or a system call uses the stack of the process that runs. -/
theorem RunsOn.inStack {esp : Nat} (h : k.RunsOn p) (hat : k.EntersAt esp) : InStack p esp := by
  unfold EntersAt at hat
  cases hmode : k.mode with
  | user =>
      rw [hmode] at hat
      obtain ⟨hlt, hesp0, hstack⟩ := hat
      rw [stackTop_injective hlt h.lt (hesp0.symm.trans h.esp0)] at hstack
      exact hstack
  | kernel =>
      rw [hmode] at hat
      rw [← h.number hmode]
      exact hat

/-! ## Steps of a process by itself -/

/-- One such step, if it is possible. -/
def ownNext (k : Kernel) : OwnEvent → Option Kernel
  | .trap esp ebp =>
      if k.mode = .user ∧ k.EntersAt esp then some { k with mode := .kernel, esp, ebp } else none
  | .iret => if k.mode = .kernel then some k.iret else none
  | .code esp ebp =>
      if k.mode = .kernel ∧ k.EntersAt esp then some { k with esp, ebp } else none
  | .store frames => if k.mode = .user then some { k with frames } else none
  | .key scancode stray => some { k with dev := k.dev.keyboardHandler scancode stray }
  | .call call => if k.mode = .kernel then (k.doCall call).map Prod.snd else none
  | .fail args =>
      if k.mode = .kernel then
        match k.sysExecute args with
        | .ret _ k' => some k'
        | _ => none
      else none

/-- A step of its own. -/
def OwnStep (k k' : Kernel) : Prop := ∃ e, k.ownNext e = some k'

/-! ## Starting and ending programs -/

/-- Kernel code that has a frame on the stack of its process. -/
def InFrame (k : Kernel) : Prop :=
  k.mode = .kernel ∧ InStack k.getProcessNumber k.esp ∧ InStack k.getProcessNumber (k.ebp + 8)

instance (k : Kernel) : Decidable k.InFrame := inferInstanceAs (Decidable (_ ∧ _))

/-- A `sys_execute` that starts a program. -/
def executeNext (k : Kernel) (args : ExecArgs) : Option Kernel :=
  if k.InFrame then
    match k.sysExecute args with
    | .user _ k' => some k'
    | _ => none
  else none

/-- A `sys_halt`. -/
def haltNext (k : Kernel) (status : UInt8) (callerEbp : Nat) : Option Kernel :=
  if k.mode = .kernel then (k.sysHalt status callerEbp).kernel else none

/-- A program is started in the first free slot, from a frame of the caller. -/
theorem executeNext_some {args : ExecArgs} (h : k.executeNext args = some k') :
    k.InFrame ∧ ∃ process cmd frames, FirstFree k.procArr process ∧
      k' = k.started process cmd frames := by
  unfold executeNext at h
  split at h
  · next hframe =>
    split at h
    · next hexec =>
      cases h
      exact ⟨hframe, sysExecute_user hexec⟩
    · cases h
  · cases h

theorem haltNext_mode {status : UInt8} {callerEbp : Nat}
    (h : k.haltNext status callerEbp = some k') : k.mode = .kernel := by
  unfold haltNext at h
  split at h
  · assumption
  · cases h

/-- A process other than the base shell gives up its slot. -/
theorem haltNext_some {status : UInt8} {callerEbp : Nat} (hne : k.getProcessNumber ≠ 0)
    (h : k.haltNext status callerEbp = some k') :
    ∃ closed, k.OwnCall closed ∧ k' = closed.halted k.getProcessNumber callerEbp := by
  unfold haltNext at h
  split at h
  · cases hhalt : k.sysHalt status callerEbp with
    | fault =>
        rw [hhalt] at h
        cases h
    | ret v k'' =>
        rw [hhalt] at h
        cases h
        exact (sysHalt_ret hne hhalt).2
    | user entry k'' => exact absurd hhalt (sysHalt_not_user entry k'')
  · cases h

/-- The base shell goes on after its `sys_halt`. -/
theorem haltNext_base {status : UInt8} {callerEbp : Nat} (hbase : k.getProcessNumber = 0)
    (h : k.haltNext status callerEbp = some k') : k' = k := by
  unfold haltNext at h
  split at h
  · rw [sysHalt_base hbase] at h
    cases h
    rfl
  · cases h

end Kernel

end Ece391Kernel
