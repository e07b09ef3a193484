import Ece391Kernel.Kernel.Descriptors
import Ece391Kernel.Transition.Run

/-!
# `sys_execute` and `sys_halt`

Each statement that reads or writes the process table, a PCB, the page directory or the TSS is a
definition of its own, and the two system calls put them together in the order of the source. A
successful `sys_execute` ends in user mode; `sys_halt` returns from the `sys_execute` of the parent.
-/

namespace Ece391Kernel

open Transition

/-! ## Data of `sys_execute` -/

/-- What a call to `sys_execute` finds in memory: the bytes from `command` on, the ones behind
`filename` on its stack, and what `file_buf` holds before it is filled. -/
structure ExecArgs where
  command : Nat → UInt8
  above : List UInt8
  fileBuf : List UInt8

/-- `filename`, up to where it is read as a string, and the first `getargs_it` bytes of `arg`. -/
structure Command where
  filename : List UInt8
  arg : List UInt8

/-- A file that passed the check: its inode, `buf_size` and the entry point. -/
structure Program where
  inode : Nat
  bufSize : Nat
  entry : Nat

/-- How a system call ends: it does not return, it returns to its caller, or it starts a user
program. -/
inductive Outcome where
  | fault
  | ret (val : Int) (kernel : Kernel)
  | user (entry : Nat) (kernel : Kernel)

/-- The state in which the call returns or the program starts. -/
def Outcome.kernel : Outcome → Option Kernel
  | .fault => none
  | .ret _ k => some k
  | .user _ k => some k

/-! ## Parsing the command -/

/-- The file name loop, from `command[i]` on; `none` when the name is too long. With
`n = MAX_FILENAME_LENGTH + 2 - i`, the bound is the one on `arg_it`. -/
def parseName (command : Nat → UInt8) (i : Nat) : Nat → Option (List UInt8)
  | 0 => none
  | n + 1 =>
      if command i = 0x20 ∨ command i = 0 then some []
      else (parseName command (i + 1) n).map (command i :: ·)

/-- The argument loop, from `command[i]` on; `none` when the argument is too long. -/
def parseArg (command : Nat → UInt8) (i : Nat) : Nat → Option (List UInt8)
  | 0 => none
  | n + 1 =>
      if command i = 0 then some []
      else (parseArg command (i + 1) n).map (command i :: ·)

/-- Both loops. One byte behind the name is skipped, whether it is a space or the NUL. A name that
fills `filename` has no NUL of its own. -/
def ExecArgs.parse (args : ExecArgs) : Option Command := do
  let name ← parseName args.command 0 (maxFilenameLength + 2)
  let arg ← parseArg args.command (name.length + 1) (kbBufSizeMax + 1)
  let filename := if name.length < maxFilenameLength then name else name ++ args.above
  some { filename, arg }

/-- `magic_nums`; the last of the four is not compared. -/
def magicNums : List UInt8 := [0x7F, 0x45, 0x4C, 0x46]

/-- The check of the executable; the inner `none` is −1. -/
def FileSystem.checkExecutable (fs : FileSystem) (args : ExecArgs) (filename : List UInt8) :
    Option (Option Program) := do
  match ← fs.readDentryByName filename with
  | none => some none
  | some dentry =>
      let bufSize ← fs.getFileLengthByName filename
      let (_, bytes) ← fs.readData dentry.inodeNum 0 fileBufSize
      -- an empty file leaves `file_buf` as it was
      let fileBuf := bytes ++ args.fileBuf.drop bytes.length
      if fileBuf.take 3 = magicNums.take 3 then
        some (some { inode := dentry.inodeNum, bufSize, entry := le32 (fileBuf.drop 24) })
      else some none

namespace Kernel

variable (k : Kernel)

/-! ## The statements of `sys_execute` -/

/-- The search for a free slot, from `proc_arr[i]` on with `n` slots left. -/
def findFree (procArr : Nat → ProcFlag) (i : Nat) : Nat → Option Nat
  | 0 => none
  | n + 1 => if procArr i = .free then some i else findFree procArr (i + 1) n

/-- `proc_arr[process] = flag`. -/
def setProc (process : Nat) (flag : ProcFlag) : Kernel :=
  { k with procArr := Function.update k.procArr process flag }

/-- `page_directory[OTE_MB / FOUR_MB] = entry`. -/
def setPage (entry : Nat) : Kernel := { k with pageDirectory32 := entry }

/-- The user level program loader. -/
def loadProgram (prog : Program) : Option Kernel := do
  let (_, bytes) ← k.fs.readData prog.inode 0 prog.bufSize
  k.storeUser (oteMb + userIdx) bytes

/-- The descriptors of a new process. -/
def newDescs (fd : Nat) : FileDesc :=
  if fd = 0 then ⟨some .stdin, 0, 0, 1⟩
  else if fd = 1 then ⟨some .stdout, 0, 0, 1⟩
  else ⟨none, 0, 0, 0⟩

/-- The PCB that `sys_execute` builds. -/
def newPcb (parentPid parPhysAddr : Nat) (cmd : Command) : Pcb where
  fileDesc := newDescs
  parentPid := parentPid
  parentPhysAddr := parPhysAddr
  parentEsp := k.esp
  parentEbp := k.ebp
  arg := cmd.arg ++ List.replicate (kbBufSizeMax - cmd.arg.length) 0
  argSize := cmd.arg.length
  termNumber := k.dev.term.curTermNum

/-- `tss.esp0` for a process. -/
def setEsp0 (process : Nat) : Kernel := { k with esp0 := stackTop process }

/-- `iret` to the user program. -/
def iret : Kernel := { k with mode := .user }

/-- From the claimed slot to the `iret`, for a program that passed the check. -/
def startProgram (process : Nat) (cmd : Command) (prog : Program) : Outcome :=
  match (k.setPage (frameEntry process)).loadProgram prog with
  | none => .fault
  | some loaded =>
      let pcb := loaded.newPcb k.getProcessNumber k.pageDirectory32 cmd
      .user prog.entry ((loaded.setPcb process pcb).setEsp0 process).iret

/-- What follows the claim of a slot. -/
def executeIn (process : Nat) (args : ExecArgs) : Outcome :=
  match args.parse with
  | none => .ret (-1) (k.setProc process .free)
  | some cmd =>
      match k.fs.checkExecutable args cmd.filename with
      | none => .fault
      | some none => .ret (-1) (k.setProc process .free)
      | some (some prog) => k.startProgram process cmd prog

/-- `sys_execute`. -/
def sysExecute (args : ExecArgs) : Outcome :=
  match findFree k.procArr 0 maxProcesses with
  | none => .ret (-1) k
  | some process => (k.setProc process .running).executeIn process args

/-! ## The statements of `sys_halt` -/

/-- The loop that closes descriptors 2 to 7. -/
def closeAll : Option Kernel :=
  forRange (fun ok fd => ok.bind fun k => (k.sysClose fd).map Prod.snd) 2 6 (some k)

/-- `leave` and `ret` with the frame pointer of the parent's `sys_execute`. `callerEbp` is the
frame pointer saved there. -/
def leaveRet (ebp callerEbp : Nat) : Kernel := { k with esp := ebp + 8, ebp := callerEbp }

/-- `sys_halt`. For another process than the base shell it returns in the parent. -/
def sysHalt (status : UInt8) (callerEbp : Nat) : Outcome :=
  let process := k.getProcessNumber
  if process = 0 then .ret 0 k
  else
    match k.closeAll with
    | none => .fault
    | some k =>
        let pcb := k.pcb process
        let k := ((k.setEsp0 pcb.parentPid).setPage pcb.parentPhysAddr).setProc process .free
        .ret status.toNat (k.leaveRet pcb.parentEbp callerEbp)

end Kernel

end Ece391Kernel
