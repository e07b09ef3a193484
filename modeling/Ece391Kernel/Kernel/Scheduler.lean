import Ece391Kernel.Devices.Console
import Ece391Kernel.Kernel.Steps

/-!
# `pit_handler`

The handler as it is with the f21547c side of the merge conflict in `get_next_proc`. The first two
ticks launch the shells of the other terminals from within the handler, the third one patches their
PCBs, and every later one saves the interrupted context and resumes the next terminal's.
-/

namespace Ece391Kernel

open Transition

/-- What a launch of a shell finds: the registers of `sys_execute`, called from within the handler,
the bytes behind the string `"shell"`, and the stack as in `ExecArgs`. -/
structure Launch where
  esp : Nat
  ebp : Nat
  rest : Nat → UInt8
  above : List UInt8
  fileBuf : List UInt8

/-- The arguments of `sys_execute("shell")`. -/
def Launch.args (l : Launch) : ExecArgs where
  command := fun i => if i < 5 then shellName.getD i 0 else if i = 5 then 0 else l.rest (i - 6)
  above := l.above
  fileBuf := l.fileBuf

namespace Kernel

variable (k : Kernel)

/-- `get_next_proc`. -/
def getNextProc (curTerm : Nat) : Nat :=
  forRange
    (fun nextProcNum procIt =>
      if k.procArr procIt ≠ .free ∧ (k.pcb procIt).termNumber = nextProcNum then procIt
      else nextProcNum)
    numTerms (maxProcesses - numTerms) ((curTerm + 1) % numTerms)

/-- The loop body of `init_shell_pcbs`. -/
def initShellPcb (basePcb : Pcb) (k : Kernel) (shellNum : Nat) : Kernel :=
  k.setPcb shellNum
    { k.pcb shellNum with
      parentPid := basePcb.parentPid
      parentPhysAddr := basePcb.parentPhysAddr
      parentEsp := basePcb.parentEsp
      parentEbp := basePcb.parentEbp
      termNumber := shellNum }

/-- `init_shell_pcbs`. -/
def initShellPcbs : Kernel :=
  forRange (initShellPcb (k.pcb 0)) 1 (numTerms - 1) { k with schedArrInit := true }

/-- `sched_arr[term] = temp_sched`. -/
def saveSched (term : Nat) (sched : Sched) : Kernel :=
  { k with schedArr := Function.update k.schedArr term sched }

/-- `run_shell`. -/
def runShell (shellNum : Nat) (launch : Launch) : Outcome :=
  if k.shellsRunning shellNum then .ret 0 k
  else
    sysExecute
      { k with
        shellsRunning := Function.update k.shellsRunning shellNum true
        esp := launch.esp
        ebp := launch.ebp }
      launch.args

/-- The branches of `pit_handler` that launch a shell, for a context of the shell before it. -/
def launchShell (shellNum : Nat) (sched : Sched) (launch : Launch) : Outcome :=
  let k := k.saveSched (shellNum - 1) sched
  runShell { k with dev := k.dev.serveNew shellNum } shellNum launch

/-- The terminal of a process that `get_next_proc` returned. -/
def termOf (process : Nat) : Nat :=
  if process < numTerms then process else (k.pcb process).termNumber

/-- The end of `pit_handler`: resume the context that `sched_arr` holds for a terminal. -/
def switchTo (process term : Nat) : Kernel :=
  { k with
    esp0 := stackTop process
    pageDirectory32 := (k.schedArr term).oteMb
    dev := { k.dev with term := { k.dev.term with termInService := term } }
    ebp := (k.schedArr term).ebp
    esp := (k.schedArr term).esp }

/-- What `pit_handler` does with the context of the terminal that was in service. -/
def saveOrLaunch (currTerm : Nat) (tempSched : Sched) (launch : Launch) : Outcome :=
  if k.shellsRunning 1 = false then k.launchShell 1 tempSched launch
  else if k.shellsRunning 2 = false then k.launchShell 2 tempSched launch
  else if k.schedArrInit = false then .ret 0 (k.initShellPcbs.saveSched 2 tempSched)
  else .ret 0 (k.saveSched currTerm tempSched)

/-- The end of `pit_handler`, which a launch that starts its shell does not reach. -/
def resume (process term : Nat) : Outcome → Option Kernel
  | .fault => none
  | .user _ k => some k
  | .ret _ k => some (k.switchTo process term)

/-- The kernel in `pit_handler`, with the registers that it finds and the next terminal served. -/
def inHandler (esp ebp newTerm : Nat) : Kernel :=
  { k with mode := .kernel, esp, ebp, dev := k.dev.serve newTerm }

/-- `pit_handler`. -/
def pitHandler (esp ebp : Nat) (launch : Launch) : Option Kernel :=
  let currTerm := (k.pcb (processNumberOf esp)).termNumber
  let nextProcNum := k.getNextProc currTerm
  let newTerm := k.termOf nextProcNum
  resume nextProcNum newTerm
    ((k.inHandler esp ebp newTerm).saveOrLaunch currTerm ⟨esp, ebp, k.pageDirectory32⟩ launch)

end Kernel

/-! ## The kernel as a transition system -/

/-- The steps of the system: those of the running process, and ticks. -/
inductive KernelEvent where
  | own (event : OwnEvent)
  | execute (args : ExecArgs)
  | halt (status : UInt8) (callerEbp : Nat)
  | tick (esp ebp : Nat) (launch : Launch)

/-- One step, if it is possible. -/
def Kernel.next (k : Kernel) : KernelEvent → Option Kernel
  | .own event => k.ownNext event
  | .execute args => k.executeNext args
  | .halt status callerEbp => k.haltNext status callerEbp
  | .tick esp ebp launch => if k.EntersAt esp then k.pitHandler esp ebp launch else none

end Ece391Kernel
