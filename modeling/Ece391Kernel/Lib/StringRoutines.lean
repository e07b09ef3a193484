import Ece391Kernel.Machine.Strings

/-!
# The string routines of `lib.c`

`memset`, `memset_word`, `memset_dword`, `memcpy` and `memmove`: the inline assembly of each, with
the registers that the operand constraints of the `asm` statement load.
-/

namespace Ece391Kernel

open Machine

/-- The labels of the inline assembly of `lib.c`. -/
inductive LibLabel where
  | memset_top | memset_aligned | memset_bottom | memset_done
  | memcpy_top | memcpy_aligned | memcpy_bottom | memcpy_done
  | memmove_go
  deriving DecidableEq, Repr

/-- An `asm` statement: its code, and the registers that it starts with. -/
structure AsmCall where
  code : List (Instr LibLabel)
  enter : Cpu → Cpu

/-! ## `memset` -/

/-- `.memset_bottom`: the bytes that are left over, one at a time. -/
def memsetBottom : List (Instr LibLabel) :=
  [.label .memset_bottom,
   .op (.testl (.reg .edx) .edx),
   .jcc .z .memset_done,
   .op (.movbStore .eax .edi),
   .op (.addl (.imm 1) .edi),
   .op (.subl (.imm 1) .edx),
   .jmp .memset_bottom,
   .label .memset_done]

/-- `.memset_aligned`: the destination is aligned, so the words are set at once. -/
def memsetAligned : List (Instr LibLabel) :=
  [.label .memset_aligned,
   .op (.movwFrom .ds .edx),
   .op (.movwTo .edx .es),
   .op (.movl (.reg .ecx) .edx),
   .op (.shrl 2 .ecx),
   .op (.andl (.imm 3) .edx),
   .op .cld,
   .rep (.stos .l)] ++ memsetBottom

/-- `.memset_top`: bytes up to the first aligned address. -/
def memsetAsm : List (Instr LibLabel) :=
  [.label .memset_top,
   .op (.testl (.reg .ecx) .ecx),
   .jcc .z .memset_done,
   .op (.testl (.imm 3) .edi),
   .jcc .z .memset_aligned,
   .op (.movbStore .eax .edi),
   .op (.addl (.imm 1) .edi),
   .op (.subl (.imm 1) .ecx),
   .jmp .memset_top] ++ memsetAligned

/-- `c << 24 | c << 16 | c << 8 | c`. -/
def spread (c : Word) : Word :=
  c <<< 24 ||| c <<< 16 ||| c <<< 8 ||| c

/-- `memset(s, c, n)`. -/
def memset (s c n : Word) : AsmCall where
  code := memsetAsm
  enter cpu := ((cpu.setReg .eax (spread (c &&& 0xFF))).setReg .edi s).setReg .ecx n

/-! ## `memset_word` and `memset_dword` -/

/-- `movw %ds, %dx; movw %dx, %es; cld; rep stos`. -/
def stosAsm (size : Size) : List (Instr LibLabel) :=
  [.op (.movwFrom .ds .edx),
   .op (.movwTo .edx .es),
   .op .cld,
   .rep (.stos size)]

/-- `memset_word(s, c, n)`. -/
def memset_word (s c n : Word) : AsmCall where
  code := stosAsm .w
  enter cpu := ((cpu.setReg .eax c).setReg .edi s).setReg .ecx n

/-- `memset_dword(s, c, n)`. -/
def memset_dword (s c n : Word) : AsmCall where
  code := stosAsm .l
  enter cpu := ((cpu.setReg .eax c).setReg .edi s).setReg .ecx n

/-! ## `memcpy` -/

/-- `.memcpy_bottom`: the bytes that are left over, one at a time. -/
def memcpyBottom : List (Instr LibLabel) :=
  [.label .memcpy_bottom,
   .op (.testl (.reg .edx) .edx),
   .jcc .z .memcpy_done,
   .op (.movbLoad .esi .eax),
   .op (.movbStore .eax .edi),
   .op (.addl (.imm 1) .edi),
   .op (.addl (.imm 1) .esi),
   .op (.subl (.imm 1) .edx),
   .jmp .memcpy_bottom,
   .label .memcpy_done]

/-- `.memcpy_aligned`: the destination is aligned, so the words are copied at once. -/
def memcpyAligned : List (Instr LibLabel) :=
  [.label .memcpy_aligned,
   .op (.movwFrom .ds .edx),
   .op (.movwTo .edx .es),
   .op (.movl (.reg .ecx) .edx),
   .op (.shrl 2 .ecx),
   .op (.andl (.imm 3) .edx),
   .op .cld,
   .rep (.movs .l)] ++ memcpyBottom

/-- `.memcpy_top`: bytes up to the first aligned address. -/
def memcpyAsm : List (Instr LibLabel) :=
  [.label .memcpy_top,
   .op (.testl (.reg .ecx) .ecx),
   .jcc .z .memcpy_done,
   .op (.testl (.imm 3) .edi),
   .jcc .z .memcpy_aligned,
   .op (.movbLoad .esi .eax),
   .op (.movbStore .eax .edi),
   .op (.addl (.imm 1) .edi),
   .op (.addl (.imm 1) .esi),
   .op (.subl (.imm 1) .ecx),
   .jmp .memcpy_top] ++ memcpyAligned

/-- `memcpy(dest, src, n)`. -/
def memcpy (dest src n : Word) : AsmCall where
  code := memcpyAsm
  enter cpu := ((cpu.setReg .esi src).setReg .edi dest).setReg .ecx n

/-! ## `memmove` -/

/-- `.memmove_go`: one byte at a time, in the direction that was chosen. -/
def memmoveGo : List (Instr LibLabel) :=
  [.label .memmove_go,
   .rep (.movs .b)]

/-- Downwards from the highest bytes when the source lies below the destination. -/
def memmoveAsm : List (Instr LibLabel) :=
  [.op (.movwFrom .ds .edx),
   .op (.movwTo .edx .es),
   .op .cld,
   .op (.cmpl (.reg .edi) .esi),
   .jcc .ae .memmove_go,
   .op (.leal (-1) .esi .ecx .esi),
   .op (.leal (-1) .edi .ecx .edi),
   .op .std] ++ memmoveGo

/-- `memmove(dest, src, n)`. -/
def memmove (dest src n : Word) : AsmCall where
  code := memmoveAsm
  enter cpu := ((cpu.setReg .edi dest).setReg .esi src).setReg .ecx n

end Ece391Kernel
