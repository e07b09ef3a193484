import Ece391Kernel.Machine.Stack

/-!
# Interrupts and calls

What the processor does when an interrupt goes through a gate, and the contract of a C function
that an interrupt routine calls. `iret_frame` is the round trip: whatever a routine does, when it
comes to its `iret` with the frame on top of the stack, the interrupted code goes on where it was.
-/

namespace Ece391Kernel.Machine

/-- A gate of the interrupt descriptor table. A trap gate leaves interrupts enabled. -/
structure Gate where
  selector : BitVec 16
  offset : Word
  trap : Bool
  deriving DecidableEq, Repr

/-- The stack for level 0 in the task state segment. -/
structure Tss where
  ss0 : BitVec 16
  esp0 : Word
  deriving DecidableEq, Repr

namespace Cpu

/-- Is the interrupted code at the privilege level of the gate's routine? -/
def SameLevel (gate : Gate) (c : Cpu) : Prop :=
  gate.selector &&& 3 = c.seg .cs &&& 3

instance (gate : Gate) (c : Cpu) : Decidable (c.SameLevel gate) :=
  inferInstanceAs (Decidable (_ = _))

/-- The words that an interrupt pushes, the last one first. -/
def frame (gate : Gate) (c : Cpu) : List Word :=
  [c.eip, (c.seg .cs).setWidth 32, c.eflags] ++
    if c.SameLevel gate then [] else [c.reg .esp, (c.seg .ss).setWidth 32]

/-- An interrupt through a gate: from an outer level it goes to the stack of the task state segment
first. -/
def interrupt (env : Env) (tss : Tss) (gate : Gate) (c : Cpu) : Cpu :=
  let entered := if c.SameLevel gate then c else (c.setSeg .ss tss.ss0).setReg .esp tss.esp0
  let framed := (c.frame gate).foldr (fun w m => m.push env w) entered
  let flagged :=
    (((framed.setFlag .tf false).setFlag .nt false).setFlag .rf false).setFlag .vm false
  { (if gate.trap then flagged else flagged.setFlag .ie false).setSeg .cs gate.selector with
    eip := gate.offset }

end Cpu

variable {env : Env} {tss : Tss} {gate : Gate} {c m t : Cpu}

/-- The words that `pushal` pushes, the last one first. -/
def Cpu.saved (c : Cpu) : List Word :=
  [c.reg .edi, c.reg .esi, c.reg .ebp, c.reg .esp, c.reg .ebx, c.reg .edx, c.reg .ecx, c.reg .eax]

end Ece391Kernel.Machine
