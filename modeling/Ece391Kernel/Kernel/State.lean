import Ece391Kernel.Devices.State
import Ece391Kernel.Files.FileSystem

/-!
# The state of the kernel

The process table, the process control blocks, the registers and the page mapping that
`sys_execute`, `sys_halt` and `pit_handler` save and restore. A PCB lies at the bottom of its
process' 8 KB kernel stack; `InStack` is the rest of that area, and `processNumberOf` recovers the
process from any stack pointer in it.
-/

namespace Ece391Kernel

/-! ## Constants of `syscalls.h` and `task_switch.h` -/

@[simp] abbrev maxProcesses : Nat := 6
@[simp] abbrev maxTask : Nat := 8
@[simp] abbrev minTask : Nat := 2
@[simp] abbrev numTerms : Nat := 3
@[simp] abbrev fourMb : Nat := 0x00400000
@[simp] abbrev eightMb : Nat := 0x00800000
@[simp] abbrev oteMb : Nat := 0x08000000
@[simp] abbrev eightKb : Nat := 0x00002000
@[simp] abbrev kernelLoc : Nat := 0x00400000
@[simp] abbrev userIdx : Nat := 0x00048000
@[simp] abbrev maxFilenameLength : Nat := 32
@[simp] abbrev kbBufSizeMax : Nat := 128
@[simp] abbrev fileBufSize : Nat := 40
/-- `sizeof(pcb_t)`. -/
@[simp] abbrev pcbSize : Nat := 292

/-- The string "shell" of `entry` and `run_shell`. -/
def shellName : List UInt8 := [0x73, 0x68, 0x65, 0x6C, 0x6C]

/-! ## Data types -/

/-- `process_flags`. -/
inductive ProcFlag where
  | free
  | running
  | suspended
deriving DecidableEq

/-- The operation tables `stdin_fot`, `stdout_fot`, `file_fot`, `rtc_fot` and `dir_fot`. -/
inductive Fot where
  | stdin
  | stdout
  | file
  | rtc
  | dir
deriving DecidableEq

/-- `file_desc_t`. -/
structure FileDesc where
  fotPtr : Option Fot
  inode : Nat
  filePosition : Nat
  flags : Nat
deriving DecidableEq

/-- `pcb_t`, without the fields `pid`, `file_position` and `status`, which nothing uses. -/
structure Pcb where
  fileDesc : Nat → FileDesc
  parentPid : Nat
  parentPhysAddr : Nat
  parentEsp : Nat
  parentEbp : Nat
  arg : List UInt8
  argSize : Nat
  termNumber : Nat

/-- `sched_t`. -/
@[ext] structure Sched where
  esp : Nat
  ebp : Nat
  oteMb : Nat
deriving DecidableEq

/-- Whether a user program or kernel code is running. -/
inductive Mode where
  | user
  | kernel
deriving DecidableEq

/-- The kernel. `pageDirectory32` is `page_directory[OTE_MB / FOUR_MB]`, the mapping of the user
page; `frames` is the physical memory that user pages map; `esp` and `ebp` are the registers of the
kernel code that is running, and mean nothing in user mode. -/
structure Kernel where
  dev : Devices
  fs : FileSystem
  dirLocation : Nat
  frames : Nat → UInt8
  procArr : Nat → ProcFlag
  pcb : Nat → Pcb
  pageDirectory32 : Nat
  esp0 : Nat
  esp : Nat
  ebp : Nat
  mode : Mode
  shellsRunning : Nat → Bool
  schedArrInit : Bool
  schedArr : Nat → Sched

/-- The kernel when `entry` calls `sys_execute`, with the boot stack at 8 MB. `video` is what the
video pages hold, and `pcb` and `frames` are what is in memory. -/
def Kernel.boot (fs : FileSystem) (video : Nat → UInt8) (pcb : Nat → Pcb) (frames : Nat → UInt8)
    (esp ebp : Nat) : Kernel where
  dev := Devices.boot video
  fs := fs
  dirLocation := 0
  frames := frames
  procArr := fun _ => .free
  pcb := pcb
  pageDirectory32 := 2
  esp0 := 0x800000
  esp := esp
  ebp := ebp
  mode := .kernel
  shellsRunning := fun shell => shell = 0
  schedArrInit := false
  schedArr := fun _ => ⟨0, 0, 0⟩

/-- A PCB in zeroed memory. -/
def Pcb.zero : Pcb where
  fileDesc := fun _ => ⟨none, 0, 0, 0⟩
  parentPid := 0
  parentPhysAddr := 0
  parentEsp := 0
  parentEbp := 0
  arg := []
  argSize := 0
  termNumber := 0

/-! ## Kernel stacks -/

/-- The process whose 8 KB area a stack pointer lies in, as `get_process_number` computes it. -/
def processNumberOf (esp : Nat) : Nat :=
  ((0x100000000 + eightMb - esp) % 0x100000000 + 1) % 0x100000000 / eightKb

/-- `get_pcb_loc`. -/
def pcbLoc (process : Nat) : Nat := kernelLoc + fourMb - eightKb * (process + 1)

/-- The value of `tss.esp0` for a process. -/
def stackTop (process : Nat) : Nat := kernelLoc + fourMb - eightKb * process - 1

/-- The address lies in the kernel stack of the process, above its PCB. -/
def InStack (process esp : Nat) : Prop := pcbLoc process + pcbSize ≤ esp ∧ esp ≤ stackTop process

instance (process esp : Nat) : Decidable (InStack process esp) :=
  inferInstanceAs (Decidable (_ ∧ _))

/-- `(EIGHT_MB + process * FOUR_MB) | RW | SET_4MB | USER | PRESENT`. -/
def frameEntry (process : Nat) : Nat := eightMb + process * fourMb + 0x87

theorem pcbLoc_eq (process : Nat) : pcbLoc process = 0x800000 - 0x2000 * (process + 1) := rfl

theorem stackTop_eq (process : Nat) : stackTop process = 0x800000 - 0x2000 * process - 1 := rfl

theorem processNumberOf_eq (esp : Nat) : processNumberOf esp =
    ((0x100000000 + 0x800000 - esp) % 0x100000000 + 1) % 0x100000000 / 0x2000 := rfl

theorem processNumberOf_inStack {process esp : Nat} (hp : process < maxProcesses)
    (h : InStack process esp) : processNumberOf esp = process := by
  have hp' : process < 6 := hp
  have hlo : pcbLoc process + 292 ≤ esp := h.1
  have hhi := h.2
  rw [pcbLoc_eq] at hlo
  rw [stackTop_eq] at hhi
  rw [processNumberOf_eq]
  have hsub : 0x100000000 + 0x800000 - esp = 0x100000000 + (0x800000 - esp) := by omega
  rw [hsub, Nat.add_mod_left, Nat.mod_eq_of_lt, Nat.mod_eq_of_lt] <;> omega

theorem stackTop_injective {p q : Nat} (hp : p < maxProcesses) (hq : q < maxProcesses)
    (h : stackTop p = stackTop q) : p = q := by
  rw [stackTop_eq, stackTop_eq] at h
  simp only [maxProcesses] at hp hq
  omega

namespace Kernel

/-- `get_process_number`. -/
def getProcessNumber (k : Kernel) : Nat := processNumberOf k.esp

/-- The PCB of the process that is running. -/
def currentPcb (k : Kernel) : Pcb := k.pcb k.getProcessNumber

/-- Rewrite one PCB. -/
def setPcb (k : Kernel) (process : Nat) (pcb : Pcb) : Kernel :=
  { k with pcb := Function.update k.pcb process pcb }

/-- Rewrite one descriptor of the process that is running. -/
def setDesc (k : Kernel) (fd : Nat) (desc : FileDesc) : Kernel :=
  k.setPcb k.getProcessNumber
    { k.currentPcb with fileDesc := Function.update k.currentPcb.fileDesc fd desc }

/-- Where the user page maps an address to, if the whole range is on the page. -/
def userAddress (k : Kernel) (addr n : Nat) : Option Nat :=
  if oteMb ≤ addr ∧ addr + n ≤ oteMb + fourMb ∧ k.pageDirectory32 % 2 = 1 then
    some (k.pageDirectory32 / fourMb * fourMb + (addr - oteMb))
  else none

/-- Store bytes in the user page. The calls that store at a pointer do not check it, and in the
kernel they store to any page that is present: a range that leaves the caller's user page has no
result here, and what holds of runs of calls is about buffers inside it. -/
def storeUser (k : Kernel) (addr : Nat) (bytes : List UInt8) : Option Kernel :=
  if bytes = [] then some k
  else do
    let base ← k.userAddress addr bytes.length
    some { k with
      frames := fun a =>
        if base ≤ a ∧ a < base + bytes.length then bytes.getD (a - base) 0 else k.frames a }

/-- Read bytes from the user page, with no result for any other range. -/
def loadUser (k : Kernel) (addr n : Nat) : Option (List UInt8) :=
  if n = 0 then some []
  else do
    let base ← k.userAddress addr n
    some ((List.range n).map fun i => k.frames (base + i))

end Kernel

end Ece391Kernel
