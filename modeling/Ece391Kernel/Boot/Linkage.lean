import Ece391Kernel.Machine.Interrupts

/-!
# Interrupt linkage of `x86_desc.S`

`kb_linker`, `rtc_linker` and `pit_linker` save every register around a C handler, and
`syscall_linker` dispatches a system call through `syscall_table`. The addresses that the linker
fills in are `Symbols`.
-/

namespace Ece391Kernel

open Machine

/-- The addresses of the symbols that the linkage refers to. -/
structure Symbols where
  keyboard_handler : Word
  rtc_handler : Word
  pit_handler : Word
  syscall_table : Word

/-- The labels of `syscall_linker`. -/
inductive LinkLabel where
  | syscall_fail | syscall_done | fail_ret
  deriving DecidableEq, Repr

/-- `pushal; call handler; popal; iret`. -/
def irqLinker (handler : Word) : List (Instr LinkLabel) :=
  [.op .pushal, .op (.call handler), .op .popal, .iret]

def kb_linker (s : Symbols) : List (Instr LinkLabel) := irqLinker s.keyboard_handler
def rtc_linker (s : Symbols) : List (Instr LinkLabel) := irqLinker s.rtc_handler
def pit_linker (s : Symbols) : List (Instr LinkLabel) := irqLinker s.pit_handler

/-- `fail_ret`: take off what the entry pushed, and return. -/
def failRet : List (Instr LinkLabel) :=
  [.label .fail_ret, .op (.popl .ebp), .op (.popl .edi), .op (.popl .esi), .op .popf, .iret]

/-- `syscall_done`: take off the arguments. -/
def syscallDone : List (Instr LinkLabel) :=
  [.label .syscall_done, .op (.popl .ebx), .op (.popl .ecx), .op (.popl .edx)] ++ failRet

/-- `syscall_fail`: the result is -1. -/
def syscallFail : List (Instr LinkLabel) :=
  [.label .syscall_fail, .op (.movl (.imm 0xFFFFFFFF) .eax), .jmp .fail_ret] ++ syscallDone

/-- The call, with the arguments on the stack. -/
def syscallCall (s : Symbols) : List (Instr LinkLabel) :=
  [.op (.pushl .edx), .op (.pushl .ecx), .op (.pushl .ebx),
   .op (.callTable s.syscall_table .eax),
   .jmp .syscall_done] ++ syscallFail

/-- The check that the number is between 1 and 10. -/
def syscallCheck (s : Symbols) : List (Instr LinkLabel) :=
  [.op (.cmpl (.imm 0x01) .eax), .jcc .l .syscall_fail,
   .op (.cmpl (.imm 0x0A) .eax), .jcc .g .syscall_fail] ++ syscallCall s

/-- `syscall_linker`: the entry of every system call. -/
def syscall_linker (s : Symbols) : List (Instr LinkLabel) :=
  [.op .pushf, .op (.pushl .esi), .op (.pushl .edi), .op (.pushl .ebp)] ++ syscallCheck s

variable {env : Env} {tss : Tss} {gate : Gate} {c : Cpu}

/-! ## Hardware interrupts -/

end Ece391Kernel
