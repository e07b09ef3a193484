import Ece391Kernel.Machine.Memory
import Ece391Kernel.Transition.Reach

/-!
# A subset of the 32-bit x86

The registers, the flags, the segment selectors and the flat memory of the processor, and the
instructions that string routines and interrupt linkage consist of. The control point is the code
that is left, so a jump looks its label up in the whole routine. A repeated string instruction is
one step for each element, as on the processor, where it can be interrupted between two of them.

Segment bases and the routines that a `call` enters are parameters (`Env`). No modelled instruction
reads the parity and adjust flags, and those that set them leave them alone here.
-/

namespace Ece391Kernel.Machine

open Transition

/-- A 32-bit word. -/
abbrev Word := BitVec 32

/-! ## The state of the processor -/

/-- The general registers. -/
inductive Reg where
  | eax | ebx | ecx | edx | esi | edi | ebp | esp
  deriving DecidableEq, Repr

/-- The segment registers that the instructions use. -/
inductive Seg where
  | cs | ds | es | ss
  deriving DecidableEq, Repr

/-- The flags of `eflags` that the instructions use. -/
inductive Flag where
  | cf | zf | sf | tf | ie | df | of | nt | rf | vm
  deriving DecidableEq, Repr

/-- The bit of a flag in `eflags`. -/
def Flag.bit : Flag → Nat
  | .cf => 0
  | .zf => 6
  | .sf => 7
  | .tf => 8
  | .ie => 9
  | .df => 10
  | .of => 11
  | .nt => 14
  | .rf => 16
  | .vm => 17

/-- The state of the processor. `eip` is the address in the interrupted code: within a routine the
code that is left takes its place. -/
@[ext] structure Cpu where
  reg : Reg → Word
  seg : Seg → BitVec 16
  eflags : Word
  eip : Word
  mem : Mem 32 (BitVec 8)

/-- What is outside of a routine: the segment bases, the routines that calls enter, by address, and
the return address that a call pushes. -/
structure Env where
  base : BitVec 16 → Word
  routine : Word → Cpu → Cpu
  returnTo : Word

/-! ## Words, flags and the stack -/

/-- The byte `i` of a word, the lowest first. -/
def byteOf (v : Word) (i : Nat) : BitVec 8 :=
  (v >>> (8 * i)).setWidth 8

/-- The word in the four bytes from `a`. -/
def loadWord (m : Mem 32 (BitVec 8)) (a : Word) : Word :=
  m (a + 3) ++ m (a + 2) ++ m (a + 1) ++ m a

/-- The memory with a word in the four bytes from `a`. -/
def storeWord (m : Mem 32 (BitVec 8)) (a v : Word) : Mem 32 (BitVec 8) :=
  m.write a 4 (byteOf v)

/-- The word with one bit set or cleared. -/
def setBit (v : Word) (i : Nat) (b : Bool) : Word :=
  if b then v ||| 1#32 <<< i else v &&& ~~~(1#32 <<< i)

namespace Cpu

/-- The value of a flag. -/
def flag (c : Cpu) (f : Flag) : Bool :=
  c.eflags.getLsbD f.bit

/-- The processor with one register set. -/
def setReg (c : Cpu) (r : Reg) (v : Word) : Cpu :=
  { c with reg := Function.update c.reg r v }

/-- The processor with one segment register set. -/
def setSeg (c : Cpu) (s : Seg) (v : BitVec 16) : Cpu :=
  { c with seg := Function.update c.seg s v }

/-- The processor with one flag set. -/
def setFlag (c : Cpu) (f : Flag) (b : Bool) : Cpu :=
  { c with eflags := setBit c.eflags f.bit b }

/-- The processor with another memory. -/
def setMem (c : Cpu) (m : Mem 32 (BitVec 8)) : Cpu :=
  { c with mem := m }

/-- The flags that an arithmetic instruction with the result `r` sets. -/
def setArith (c : Cpu) (r : Word) (carry overflow : Bool) : Cpu :=
  (((c.setFlag .cf carry).setFlag .zf (r == 0)).setFlag .sf r.msb).setFlag .of overflow

/-- The linear address of an offset in a segment. -/
def linear (env : Env) (c : Cpu) (s : Seg) (a : Word) : Word :=
  env.base (c.seg s) + a

/-- The word on the stack at a distance from its top. -/
def stackWord (env : Env) (c : Cpu) (d : Word) : Word :=
  loadWord c.mem (c.linear env .ss (c.reg .esp + d))

/-- The processor after a word was pushed. -/
def push (env : Env) (c : Cpu) (v : Word) : Cpu :=
  let esp := c.reg .esp - 4
  (c.setReg .esp esp).setMem (storeWord c.mem (c.linear env .ss esp) v)

/-- The processor after `n` words were dropped. -/
def drop (c : Cpu) (n : Nat) : Cpu :=
  c.setReg .esp (c.reg .esp + BitVec.ofNat 32 (4 * n))

section Projections

variable (env : Env) (c : Cpu) (r : Reg) (s : Seg) (f : Flag) (v : Word) (u : BitVec 16) (b : Bool)
  (m : Mem 32 (BitVec 8))

@[simp] theorem setReg_reg_self : (c.setReg r v).reg r = v := by simp [setReg]

@[simp] theorem setReg_reg {q : Reg} (h : q ≠ r) : (c.setReg r v).reg q = c.reg q := by
  simp [setReg, h]

@[simp] theorem setReg_seg : (c.setReg r v).seg = c.seg := rfl
@[simp] theorem setReg_eflags : (c.setReg r v).eflags = c.eflags := rfl
@[simp] theorem setReg_eip : (c.setReg r v).eip = c.eip := rfl
@[simp] theorem setReg_mem : (c.setReg r v).mem = c.mem := rfl

@[simp] theorem setSeg_reg : (c.setSeg s u).reg = c.reg := rfl
@[simp] theorem setSeg_seg_self : (c.setSeg s u).seg s = u := by simp [setSeg]

@[simp] theorem setSeg_seg {q : Seg} (h : q ≠ s) : (c.setSeg s u).seg q = c.seg q := by
  simp [setSeg, h]

@[simp] theorem setSeg_eflags : (c.setSeg s u).eflags = c.eflags := rfl
@[simp] theorem setSeg_eip : (c.setSeg s u).eip = c.eip := rfl
@[simp] theorem setSeg_mem : (c.setSeg s u).mem = c.mem := rfl

@[simp] theorem setFlag_reg : (c.setFlag f b).reg = c.reg := rfl
@[simp] theorem setFlag_seg : (c.setFlag f b).seg = c.seg := rfl
@[simp] theorem setFlag_eip : (c.setFlag f b).eip = c.eip := rfl
@[simp] theorem setFlag_mem : (c.setFlag f b).mem = c.mem := rfl

@[simp] theorem setMem_reg : (c.setMem m).reg = c.reg := rfl
@[simp] theorem setMem_seg : (c.setMem m).seg = c.seg := rfl
@[simp] theorem setMem_eflags : (c.setMem m).eflags = c.eflags := rfl
@[simp] theorem setMem_eip : (c.setMem m).eip = c.eip := rfl
@[simp] theorem setMem_mem : (c.setMem m).mem = m := rfl

@[simp] theorem setArith_reg (b' : Bool) : (c.setArith v b b').reg = c.reg := rfl
@[simp] theorem setArith_seg (b' : Bool) : (c.setArith v b b').seg = c.seg := rfl
@[simp] theorem setArith_eip (b' : Bool) : (c.setArith v b b').eip = c.eip := rfl
@[simp] theorem setArith_mem (b' : Bool) : (c.setArith v b b').mem = c.mem := rfl

@[simp] theorem push_seg : (c.push env v).seg = c.seg := rfl
@[simp] theorem push_eflags : (c.push env v).eflags = c.eflags := rfl
@[simp] theorem push_eip : (c.push env v).eip = c.eip := rfl
@[simp] theorem push_esp : (c.push env v).reg .esp = c.reg .esp - 4 := by simp [push]

@[simp] theorem drop_seg (n : Nat) : (c.drop n).seg = c.seg := rfl
@[simp] theorem drop_eflags (n : Nat) : (c.drop n).eflags = c.eflags := rfl
@[simp] theorem drop_eip (n : Nat) : (c.drop n).eip = c.eip := rfl
@[simp] theorem drop_mem (n : Nat) : (c.drop n).mem = c.mem := rfl

@[simp] theorem drop_esp (n : Nat) :
    (c.drop n).reg .esp = c.reg .esp + BitVec.ofNat 32 (4 * n) := by simp [drop]

end Projections

/-- One bit of a word with a bit set or cleared. -/
theorem getLsbD_setBit (v : Word) {i j : Nat} (b : Bool) (hi : i < 32) :
    (setBit v i b).getLsbD j = if j = i then b else v.getLsbD j := by
  cases b <;> by_cases h : j = i <;> simp [setBit, h] <;> grind

/-- A flag that was set, and the others. -/
@[simp] theorem setFlag_flag (c : Cpu) (f g : Flag) (b : Bool) :
    (c.setFlag f b).flag g = if g = f then b else c.flag g := by
  have hbit : (g.bit = f.bit) = (g = f) := by cases f <;> cases g <;> decide
  have hlt : f.bit < 32 := by cases f <;> decide
  simp only [flag, setFlag, getLsbD_setBit _ _ hlt, hbit]

@[simp] theorem setReg_flag (c : Cpu) (r : Reg) (v : Word) (f : Flag) :
    (c.setReg r v).flag f = c.flag f := rfl

@[simp] theorem setSeg_flag (c : Cpu) (s : Seg) (v : BitVec 16) (f : Flag) :
    (c.setSeg s v).flag f = c.flag f := rfl

@[simp] theorem setMem_flag (c : Cpu) (m : Mem 32 (BitVec 8)) (f : Flag) :
    (c.setMem m).flag f = c.flag f := rfl

@[simp] theorem push_flag (env : Env) (c : Cpu) (v : Word) (f : Flag) :
    (c.push env v).flag f = c.flag f := rfl

@[simp] theorem setArith_zf (c : Cpu) (v : Word) (b b' : Bool) :
    (c.setArith v b b').flag .zf = (v == 0) := by
  simp [setArith]

@[simp] theorem setArith_cf (c : Cpu) (v : Word) (b b' : Bool) :
    (c.setArith v b b').flag .cf = b := by
  simp [setArith]

@[simp] theorem setArith_sf (c : Cpu) (v : Word) (b b' : Bool) :
    (c.setArith v b b').flag .sf = v.msb := by
  simp [setArith]

@[simp] theorem setArith_of (c : Cpu) (v : Word) (b b' : Bool) :
    (c.setArith v b b').flag .of = b' := by
  simp [setArith]

end Cpu

/-! ## Instructions -/

/-- The source operand of an instruction. -/
inductive Src where
  | imm (v : Word)
  | reg (r : Reg)
  deriving DecidableEq, Repr

/-- The instructions that go on to the next one. -/
inductive Op where
  | testl (src : Src) (dst : Reg)
  | cmpl (src : Src) (dst : Reg)
  | addl (src : Src) (dst : Reg)
  | subl (src : Src) (dst : Reg)
  | andl (src : Src) (dst : Reg)
  | shrl (count : Nat) (dst : Reg)
  | movl (src : Src) (dst : Reg)
  | leal (disp : Word) (base index dst : Reg)
  | movbLoad (addr dst : Reg)
  | movbStore (src addr : Reg)
  | movwFrom (src : Seg) (dst : Reg)
  | movwTo (src : Reg) (dst : Seg)
  | cld
  | std
  | pushl (src : Reg)
  | popl (dst : Reg)
  | pushf
  | popf
  | pushal
  | popal
  | call (target : Word)
  | callTable (table : Word) (index : Reg)
  deriving DecidableEq, Repr

/-- The size of an element of a string instruction. -/
inductive Size where
  | b | w | l
  deriving DecidableEq, Repr

/-- The bytes of an element. -/
def Size.bytes : Size → Nat
  | .b => 1
  | .w => 2
  | .l => 4

/-- The string instructions that can be repeated. -/
inductive StrOp where
  | stos (size : Size)
  | movs (size : Size)
  deriving DecidableEq, Repr

/-- The conditions of the conditional jumps. -/
inductive Cond where
  | z | ae | l | g
  deriving DecidableEq, Repr

/-- What a conditional jump after the comparison of `a` with `b` tests. -/
def Cond.meets (a b : Word) : Cond → Bool
  | .z => a == b
  | .ae => b.ule a
  | .l => a.slt b
  | .g => b.slt a

/-- A line of a routine. -/
inductive Instr (L : Type) where
  | label (l : L)
  | op (o : Op)
  | rep (s : StrOp)
  | jmp (l : L)
  | jcc (c : Cond) (l : L)
  | iret
  deriving DecidableEq, Repr

namespace Cpu

/-- The value of a source operand. -/
def src (c : Cpu) : Src → Word
  | .imm v => v
  | .reg r => c.reg r

/-- Does a conditional jump go to its label? -/
def holds (c : Cpu) : Cond → Bool
  | .z => c.flag .zf
  | .ae => !c.flag .cf
  | .l => c.flag .sf != c.flag .of
  | .g => !c.flag .zf && (c.flag .sf == c.flag .of)

/-- `a - b` with the flags of a subtraction. -/
def setSub (c : Cpu) (a b : Word) : Cpu :=
  c.setArith (a - b) (a.ult b) (BitVec.ssubOverflow a b)

/-- `a + b` with the flags of an addition. -/
def setAdd (c : Cpu) (a b : Word) : Cpu :=
  c.setArith (a + b) (BitVec.uaddOverflow a b) (BitVec.saddOverflow a b)

/-- The sign of a difference, put right where it overflows. -/
theorem msb_bne_ssubOverflow (a b : Word) : ((a - b).msb != BitVec.ssubOverflow a b) = a.slt b := by
  have ha := BitVec.toInt_lt (x := a)
  have hb := BitVec.toInt_lt (x := b)
  have ha' := BitVec.le_toInt a
  have hb' := BitVec.le_toInt b
  rw [BitVec.msb_eq_toInt, BitVec.slt_eq_decide, BitVec.toInt_sub, BitVec.ssubOverflow, Int.bmod]
  simp only [Nat.reducePow, Int.cast_ofNat_Int, Nat.reduceSub, Int.reducePow] at *
  grind

/-- The conditional jumps compare. -/
theorem holds_setSub (c : Cpu) (a b : Word) (cond : Cond) :
    (c.setSub a b).holds cond = cond.meets a b := by
  have hzero : (a - b == 0) = (a == b) := by
    rw [Bool.eq_iff_iff, beq_iff_eq, beq_iff_eq]
    constructor <;> intro h <;> grind
  have hsigned := msb_bne_ssubOverflow a b
  cases cond with
  | z => simpa only [holds, setSub, setArith_zf, Cond.meets] using hzero
  | ae =>
      simp only [holds, setSub, setArith_cf, Cond.meets, BitVec.ult_eq_decide, BitVec.ule_eq_decide]
      by_cases h : a.toNat < b.toNat
      · simp [h, Nat.not_le.2 h]
      · simp [h, Nat.not_lt.1 h]
  | l => simpa only [holds, setSub, setArith_sf, setArith_of, Cond.meets] using hsigned
  | g =>
      have hflip : ((a - b).msb == BitVec.ssubOverflow a b) = !a.slt b := by
        rw [← hsigned]
        cases (a - b).msb <;> cases BitVec.ssubOverflow a b <;> rfl
      simp only [holds, setSub, setArith_zf, setArith_sf, setArith_of, Cond.meets, hflip, hzero,
        BitVec.slt_eq_decide]
      by_cases h : a = b
      · simp [h]
      · have hne : a.toInt ≠ b.toInt := fun heq => h (BitVec.eq_of_toInt_eq heq)
        by_cases hlt : a.toInt < b.toInt
        · simp [hlt, Int.not_lt.2 (Int.le_of_lt hlt)]
        · have hgt : b.toInt < a.toInt := by omega
          simp [h, hlt, hgt]

@[simp] theorem setSub_reg (c : Cpu) (a b : Word) : (c.setSub a b).reg = c.reg := rfl
@[simp] theorem setSub_seg (c : Cpu) (a b : Word) : (c.setSub a b).seg = c.seg := rfl
@[simp] theorem setSub_eip (c : Cpu) (a b : Word) : (c.setSub a b).eip = c.eip := rfl
@[simp] theorem setSub_mem (c : Cpu) (a b : Word) : (c.setSub a b).mem = c.mem := rfl
@[simp] theorem setAdd_reg (c : Cpu) (a b : Word) : (c.setAdd a b).reg = c.reg := rfl
@[simp] theorem setAdd_seg (c : Cpu) (a b : Word) : (c.setAdd a b).seg = c.seg := rfl
@[simp] theorem setAdd_eip (c : Cpu) (a b : Word) : (c.setAdd a b).eip = c.eip := rfl
@[simp] theorem setAdd_mem (c : Cpu) (a b : Word) : (c.setAdd a b).mem = c.mem := rfl

/-- What `popf` at privilege level 0 leaves in `eflags`: it does not reach the resume and virtual
mode flags. -/
def setEflags (c : Cpu) (v : Word) : Cpu :=
  { c with eflags := (v &&& 0xFFFCFFFF#32) ||| (c.eflags &&& 0x00030000#32) }

/-- Entering the routine at an address, with the return address on the stack. -/
def enter (env : Env) (c : Cpu) (target : Word) : Cpu :=
  env.routine target (c.push env env.returnTo)

/-- `popal`: the eight registers of `pushal`, without the stack pointer. -/
def popAll (env : Env) (c : Cpu) : Cpu :=
  let w := fun d => c.stackWord env d
  ((((((((c.setReg .edi (w 0)).setReg .esi (w 4)).setReg .ebp (w 8)).setReg .ebx (w 16)).setReg
    .edx (w 20)).setReg .ecx (w 24)).setReg .eax (w 28)).drop 8)

/-- `pushal`: the eight registers, the stack pointer as it was before. -/
def pushAll (env : Env) (c : Cpu) : Cpu :=
  [Reg.eax, .ecx, .edx, .ebx, .esp, .ebp, .esi, .edi].foldl (fun c' r => c'.push env (c.reg r)) c

end Cpu

open Cpu in
/-- What an instruction that goes on to the next one does. -/
def Op.exec (env : Env) (c : Cpu) : Op → Cpu
  | .testl src dst => c.setArith (c.src src &&& c.reg dst) false false
  | .cmpl src dst => c.setSub (c.reg dst) (c.src src)
  | .addl src dst => (c.setAdd (c.reg dst) (c.src src)).setReg dst (c.reg dst + c.src src)
  | .subl src dst => (c.setSub (c.reg dst) (c.src src)).setReg dst (c.reg dst - c.src src)
  | .andl src dst =>
      (c.setArith (c.reg dst &&& c.src src) false false).setReg dst (c.reg dst &&& c.src src)
  | .shrl count dst =>
      (c.setArith (c.reg dst >>> count) ((c.reg dst).getLsbD (count - 1)) (c.reg dst).msb).setReg
        dst (c.reg dst >>> count)
  | .movl src dst => c.setReg dst (c.src src)
  | .leal disp base index dst => c.setReg dst (disp + c.reg base + c.reg index)
  | .movbLoad addr dst =>
      c.setReg dst ((c.reg dst &&& 0xFFFFFF00#32) |||
        (c.mem (c.linear env .ds (c.reg addr))).setWidth 32)
  | .movbStore src addr =>
      c.setMem (c.mem.write (c.linear env .ds (c.reg addr)) 1 (byteOf (c.reg src)))
  | .movwFrom src dst =>
      c.setReg dst ((c.reg dst &&& 0xFFFF0000#32) ||| (c.seg src).setWidth 32)
  | .movwTo src dst => c.setSeg dst ((c.reg src).setWidth 16)
  | .cld => c.setFlag .df false
  | .std => c.setFlag .df true
  | .pushl src => c.push env (c.reg src)
  | .popl dst => (c.drop 1).setReg dst (c.stackWord env 0)
  | .pushf => c.push env (c.eflags &&& 0x00FCFFFF#32)
  | .popf => (c.drop 1).setEflags (c.stackWord env 0)
  | .pushal => c.pushAll env
  | .popal => c.popAll env
  | .call target => c.enter env target
  | .callTable table index =>
      c.enter env (loadWord c.mem (c.linear env .ds (table + 4 * c.reg index)))

/-! ## Execution -/

/-- One element of a repeated string instruction, down or up after the direction flag. -/
def StrOp.element (env : Env) (c : Cpu) : StrOp → Cpu
  | .stos size =>
      let delta := if c.flag .df then -BitVec.ofNat 32 size.bytes else BitVec.ofNat 32 size.bytes
      ((c.setMem (c.mem.write (c.linear env .es (c.reg .edi)) size.bytes
        (byteOf (c.reg .eax)))).setReg .edi (c.reg .edi + delta)).setReg .ecx (c.reg .ecx - 1)
  | .movs size =>
      let delta := if c.flag .df then -BitVec.ofNat 32 size.bytes else BitVec.ofNat 32 size.bytes
      (((c.setMem (c.mem.copy (c.linear env .es (c.reg .edi)) (c.linear env .ds (c.reg .esi))
        size.bytes)).setReg .edi (c.reg .edi + delta)).setReg .esi (c.reg .esi + delta)).setReg
        .ecx (c.reg .ecx - 1)

/-- Returning from an interrupt: to the same privilege level with the three words that its entry
pushed, to an outer one with the five. Virtual 8086 mode is not modelled. -/
def Cpu.iret (env : Env) (c : Cpu) : Option Cpu :=
  let cs := (c.stackWord env 4).setWidth 16
  let eflags := c.stackWord env 8
  if eflags.getLsbD Flag.vm.bit then none
  else if c.seg .cs &&& 3 = cs &&& 3 then
    some { (c.drop 3).setSeg .cs cs with eip := c.stackWord env 0, eflags := eflags }
  else
    some { ((c.setReg .esp (c.stackWord env 12)).setSeg .cs cs).setSeg .ss
      ((c.stackWord env 16).setWidth 16) with eip := c.stackWord env 0, eflags := eflags }

variable {L : Type} [DecidableEq L]

/-- The code from a label on. -/
def findLabel (l : L) : List (Instr L) → Option (List (Instr L))
  | [] => none
  | i :: k => if i = .label l then some (i :: k) else findLabel l k

/-- One step of a routine. -/
def step (env : Env) (prog : List (Instr L)) :
    List (Instr L) × Cpu → Option (List (Instr L) × Cpu)
  | ([], _) => none
  | (.label _ :: k, c) => some (k, c)
  | (.op o :: k, c) => some (k, o.exec env c)
  | (.rep s :: k, c) =>
      if c.reg .ecx = 0 then some (k, c) else some (.rep s :: k, s.element env c)
  | (.jmp l :: _, c) => (findLabel l prog).map fun k => (k, c)
  | (.jcc cond l :: k, c) =>
      if c.holds cond then (findLabel l prog).map fun k => (k, c) else some (k, c)
  | (.iret :: _, c) => (c.iret env).map fun c => ([], c)

/-- From the code `k` of the routine `prog` the run comes to its end, and there `Q` holds. -/
def From (env : Env) (prog : List (Instr L)) (Q : Cpu → Prop) (k : List (Instr L)) (c : Cpu) :
    Prop :=
  Reach (step env prog) (fun t => t.1 = [] ∧ Q t.2) (k, c)

/-- The routine runs from the state `c` to its end, and there `Q` holds. -/
def Runs (env : Env) (prog : List (Instr L)) (Q : Cpu → Prop) (c : Cpu) : Prop :=
  From env prog Q prog c

/-- `c` and `t` differ at most in the registers `rs`, in `es`, in the flags and in the memory. -/
structure Keeps (rs : List Reg) (c t : Cpu) : Prop where
  reg : ∀ r ∉ rs, t.reg r = c.reg r
  seg : ∀ s ≠ Seg.es, t.seg s = c.seg s
  eip : t.eip = c.eip

theorem Keeps.trans {rs : List Reg} {c m t : Cpu} (h : Keeps rs c m) (h' : Keeps rs m t) :
    Keeps rs c t :=
  ⟨fun r hr => (h'.reg r hr).trans (h.reg r hr), fun s hs => (h'.seg s hs).trans (h.seg s hs),
    h'.eip.trans h.eip⟩

theorem Keeps.mono {rs rs' : List Reg} {c t : Cpu} (h : Keeps rs c t) (hsub : ∀ r ∈ rs, r ∈ rs') :
    Keeps rs' c t :=
  ⟨fun r hr => h.reg r fun hmem => hr (hsub r hmem), h.seg, h.eip⟩

/-- `c` and `t` differ at most in the flags. -/
structure SameButFlags (c t : Cpu) : Prop where
  reg : t.reg = c.reg
  seg : t.seg = c.seg
  eip : t.eip = c.eip
  mem : t.mem = c.mem

theorem SameButFlags.trans {c m t : Cpu} (h : SameButFlags c m) (h' : SameButFlags m t) :
    SameButFlags c t :=
  ⟨h'.reg.trans h.reg, h'.seg.trans h.seg, h'.eip.trans h.eip, h'.mem.trans h.mem⟩

theorem SameButFlags.linear {c t : Cpu} (h : SameButFlags c t) (env : Env) (s : Seg) (a : Word) :
    t.linear env s a = c.linear env s a := by
  rw [Cpu.linear, h.seg, Cpu.linear]

theorem SameButFlags.keeps {c t : Cpu} (h : SameButFlags c t) (rs : List Reg) : Keeps rs c t :=
  ⟨fun r _ => congrFun h.reg r, fun s _ => congrFun h.seg s, h.eip⟩

section Rules

variable {env : Env} {prog : List (Instr L)} {Q : Cpu → Prop} {k j : List (Instr L)} {c : Cpu}

theorem from_end (h : Q c) : From env prog Q [] c :=
  .here ⟨rfl, h⟩

theorem from_label {l : L} (h : From env prog Q k c) : From env prog Q (.label l :: k) c :=
  .step rfl h

theorem from_op {o : Op} (h : From env prog Q k (o.exec env c)) :
    From env prog Q (.op o :: k) c :=
  .step rfl h

/-- A straight piece of code does what its instructions do in order. -/
theorem from_ops {o : List Op} (h : From env prog Q k (o.foldl (Op.exec env) c)) :
    From env prog Q (o.map .op ++ k) c := by
  induction o generalizing c with
  | nil => exact h
  | cons _ _ ih => exact from_op (ih h)

theorem from_jmp {l : L} (hl : findLabel l prog = some j) (h : From env prog Q j c) :
    From env prog Q (.jmp l :: k) c :=
  .step (by rw [step, hl]; rfl) h

theorem from_jcc {cond : Cond} {l : L} (hl : findLabel l prog = some j)
    (hyes : c.holds cond = true → From env prog Q j c)
    (hno : c.holds cond = false → From env prog Q k c) :
    From env prog Q (.jcc cond l :: k) c := by
  rcases hcond : c.holds cond with _ | _
  · exact .step (by simp [step, hcond]) (hno hcond)
  · exact .step (by simp [step, hcond, hl]) (hyes hcond)

/-- A test and the jump on its result. -/
theorem from_test_jz {a : Src} {dst : Reg} {l : L} (hl : findLabel l prog = some j)
    (hyes : ∀ c', SameButFlags c c' → c.src a &&& c.reg dst = 0 → From env prog Q j c')
    (hno : ∀ c', SameButFlags c c' → c.src a &&& c.reg dst ≠ 0 → From env prog Q k c') :
    From env prog Q (.op (.testl a dst) :: .jcc .z l :: k) c := by
  have hsame : SameButFlags c (Op.exec env c (.testl a dst)) := ⟨rfl, rfl, rfl, rfl⟩
  have hzf : (Op.exec env c (.testl a dst)).holds .z = (c.src a &&& c.reg dst == 0) := by
    simp [Op.exec, Cpu.holds]
  refine from_op (from_jcc hl (fun h => hyes _ hsame ?_) (fun h => hno _ hsame ?_))
  · rw [hzf] at h
    exact eq_of_beq h
  · rw [hzf] at h
    exact ne_of_beq_false h

/-- The comparison keeps everything but flags, and the direction flag too. -/
theorem cmp_same (env : Env) (c : Cpu) (a : Src) (dst : Reg) :
    SameButFlags c (Op.exec env c (.cmpl a dst)) ∧
      (Op.exec env c (.cmpl a dst)).flag .df = c.flag .df :=
  ⟨⟨rfl, rfl, rfl, rfl⟩, by simp [Op.exec, Cpu.setSub, Cpu.setArith]⟩

theorem from_rep_zero {s : StrOp} (hzero : c.reg .ecx = 0) (h : From env prog Q k c) :
    From env prog Q (.rep s :: k) c :=
  .step (if_pos hzero) h

theorem from_rep_succ {s : StrOp} (hne : c.reg .ecx ≠ 0)
    (h : From env prog Q (.rep s :: k) (s.element env c)) :
    From env prog Q (.rep s :: k) c :=
  .step (if_neg hne) h

end Rules

/-- A routine ends in one state only. -/
theorem Runs.unique {env : Env} {prog : List (Instr L)} {Q : Cpu → Prop} {c t : Cpu}
    (h : Runs env prog Q c) (h' : Runs env prog (fun u => u = t) c) : Q t := by
  have hend : ∀ u : List (Instr L) × Cpu, u.1 = [] → step env prog u = none := by
    rintro ⟨k, u⟩ rfl
    rfl
  have h'' : Reach (step env prog) (fun u => u = ([], t)) (prog, c) :=
    Reach.mono h' fun u hu => Prod.ext hu.1 hu.2
  exact (Reach.at_rest h (fun u hu => hend u hu.1) h'' rfl).2

theorem Runs.mono {env : Env} {prog : List (Instr L)} {P Q : Cpu → Prop} {c : Cpu}
    (h : Runs env prog P c) (himp : ∀ t, P t → Q t) : Runs env prog Q c :=
  Reach.mono h fun t ht => ⟨ht.1, himp t.2 ht.2⟩

/-- The state in which a routine ends. -/
theorem Runs.result {env : Env} {prog : List (Instr L)} {Q : Cpu → Prop} {c : Cpu}
    (h : Runs env prog Q c) : ∃ t, Runs env prog (fun u => u = t) c ∧ Q t := by
  have hresult : ∀ s, Reach (step env prog) (fun t => t.1 = [] ∧ Q t.2) s →
      ∃ t, Reach (step env prog) (fun u => u.1 = [] ∧ u.2 = t) s ∧ Q t := by
    intro s hs
    induction hs with
    | here hq => exact ⟨_, .here ⟨hq.1, rfl⟩, hq.2⟩
    | step hnext _ ih =>
        obtain ⟨t, ht, hq⟩ := ih
        exact ⟨t, .step hnext ht, hq⟩
  exact hresult _ h

end Ece391Kernel.Machine
