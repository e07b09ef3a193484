import Ece391Kernel.Kernel.StartUp

/-!
# The kernel stacks of the processes

The value of `tss.esp0` for a process is one byte below the top of its 8 KB, `get_process_number`
adds one before it divides, and a PCB lies at the bottom of the 8 KB. `kernel_stacks` says that the
three agree: wherever on its stack the kernel code of a process runs, the process is recovered from
ESP, and the areas of two processes have no byte in common.
-/

namespace Ece391Kernel

namespace Kernel

variable {k k' : Kernel} {p : Nat}

/-- Where the kernel stack of a process can begin: `tss.esp0` as `sys_execute` sets it for the slot
that it claimed, as `sys_halt` sets it for the parent, and as `pit_handler` sets it for the process
that is next. A shell that `pit_handler` launches goes through `sys_execute`. Slot 0 is also that of
the boot code, whose stack begins at 8 MB. -/
inductive StackStart (p : Nat) : Nat → Prop where
  | execute {k k' : Kernel} {args : ExecArgs} {entry : Nat} : FirstFree k.procArr p →
      k.sysExecute args = .user entry k' → StackStart p k'.esp0
  | halt {k k' : Kernel} {status : UInt8} {callerEbp : Nat} {v : Int} :
      k.getProcessNumber ≠ 0 → k.currentPcb.parentPid = p →
      k.sysHalt status callerEbp = .ret v k' → StackStart p k'.esp0
  | tick {k k' : Kernel} {esp ebp : Nat} {launch : Launch} : missingShell k = none →
      k.getNextProc (k.pcb (processNumberOf esp)).termNumber = p →
      k.pitHandler esp ebp launch = some k' → StackStart p k'.esp0
  | boot : p = 0 → StackStart p 0x800000

/-- The free slot that comes first is unique. -/
theorem FirstFree.unique {procArr : Nat → ProcFlag} {q : Nat} (hp : FirstFree procArr p)
    (hq : FirstFree procArr q) : p = q := by
  rcases Nat.lt_trichotomy p q with hlt | heq | hlt
  · exact absurd hp.free (hq.first p hlt)
  · exact heq
  · exact absurd hq.free (hp.first q hlt)

/-- Closing descriptors keeps the parent. -/
theorem OwnCall.parentPid (h : k.OwnCall k') :
    (k'.pcb k.getProcessNumber).parentPid = k.currentPcb.parentPid := by
  obtain ⟨dev, frames, dirLocation, fileDesc, -, rfl⟩ := h
  simp only [Function.update_self]

/-- `sys_execute`, `sys_halt` and `pit_handler` compute the same value. -/
theorem StackStart.top {top : Nat} (h : StackStart p top) :
    top = stackTop p ∨ p = 0 ∧ top = 0x800000 := by
  cases h with
  | execute hfirst hexec =>
      obtain ⟨process, cmd, frames, hfirst', heq⟩ := sysExecute_user hexec
      subst heq
      exact .inl (congrArg stackTop (hfirst'.unique hfirst))
  | halt hne hparent hhalt =>
      obtain ⟨-, closed, hown, heq⟩ := sysHalt_ret hne hhalt
      subst heq hparent
      exact .inl (congrArg stackTop hown.parentPid)
  | tick hmissing hnext htick =>
      dsimp only [pitHandler] at htick
      rw [saveOrLaunch_complete hmissing] at htick
      subst hnext
      left
      split at htick
      · cases htick
        rfl
      · cases htick
        rfl
  | boot hzero => exact .inr ⟨hzero, rfl⟩

/-- A stack pointer of the kernel code of a process: from the beginning of its stack down to the
end of its PCB. -/
def OnStack (p esp : Nat) : Prop := ∃ top, StackStart p top ∧ pcbLoc p + pcbSize ≤ esp ∧ esp ≤ top

/-- The address belongs to a process: it is in the PCB, or on the stack. -/
def Owns (p a : Nat) : Prop := (pcbLoc p ≤ a ∧ a < pcbLoc p + pcbSize) ∨ OnStack p a

/-- A process owns part of its 8 KB, and slot 0 also the address after the last. -/
theorem Owns.range {a : Nat} (hp : p < maxProcesses) (h : Owns p a) :
    0x800000 - 0x2000 * (p + 1) ≤ a ∧ (a < 0x800000 - 0x2000 * p ∨ p = 0 ∧ a = 0x800000) := by
  have hp' : p < 6 := hp
  have hloc := pcbLoc_eq p
  have hstack := stackTop_eq p
  rcases h with ⟨hlo, hhi⟩ | ⟨top, hstart, hlo, hhi⟩
  · have hend : a < pcbLoc p + 292 := hhi
    omega
  · have hend : pcbLoc p + 292 ≤ a := hlo
    rcases hstart.top with htop | ⟨hzero, htop⟩
    · omega
    · omega

/-- Wherever on its stack kernel code of a process runs, `get_process_number` returns the process,
and two processes own no address in common. -/
theorem kernel_stacks (p : Nat) (hp : p < maxProcesses) :
    (∀ k : Kernel, OnStack p k.esp → k.getProcessNumber = p) ∧
      ∀ q, q < maxProcesses → q ≠ p → ∀ a, Owns p a → ¬ Owns q a := by
  refine ⟨fun k hstack => ?_, fun q hq hne a hown hown' => ?_⟩
  · obtain ⟨top, hstart, hlo, hhi⟩ := hstack
    rcases hstart.top with htop | ⟨hzero, htop⟩
    · exact processNumberOf_inStack hp ⟨hlo, htop ▸ hhi⟩
    · subst hzero
      by_cases hboot : k.esp = 0x800000
      · rw [getProcessNumber, hboot]
        rfl
      · -- below the boot stack's first address are the stack pointers of the base shell
        have hin : k.esp ≤ 0x7FFFFF := by omega
        exact processNumberOf_inStack hp ⟨hlo, hin⟩
  · have hrange := hown.range hp
    have hrange' := hown'.range hq
    omega

/-- At the first address of the boot stack, and for slots 0 and 5. -/
theorem kernel_stacks_boot :
    (boot shellFs (fun _ => 0) (fun _ => Pcb.zero) (fun _ => 0) 0x800000 0).getProcessNumber = 0 ∧
      ∀ a, Owns 0 a → ¬ Owns 5 a :=
  ⟨(kernel_stacks 0 (by decide)).1 _ ⟨0x800000, .boot rfl, by decide, by decide⟩,
    (kernel_stacks 0 (by decide)).2 5 (by decide) (by decide)⟩

end Kernel

end Ece391Kernel
