import Ece391Kernel.Machine.X86

/-!
# Repeated string instructions

What `rep stos` and `rep movs` do as a whole: the one element for each step of `StrOp.element` adds
up to one block operation. Upwards a store of any size fills the block also where it goes round the
end of the memory. A move is a copy in the direction in which it reads no byte after writing it.
-/

namespace Ece391Kernel.Machine

open Transition Mem

variable {L : Type} [DecidableEq L] {env : Env} {prog : List (Instr L)} {Q : Cpu → Prop}
  {k : List (Instr L)}

namespace Cpu

/-- The elements that a repeated instruction has still to do. -/
def left (c : Cpu) : Nat :=
  (c.reg .ecx).toNat

/-- After `rep stos` upwards. -/
def stosUp (env : Env) (size : Size) (c : Cpu) : Cpu :=
  ((c.setMem (c.mem.write (c.linear env .es (c.reg .edi)) (size.bytes * c.left)
    fun i => byteOf (c.reg .eax) (i % size.bytes))).setReg
    .edi (c.reg .edi + BitVec.ofNat 32 (size.bytes * c.left))).setReg .ecx 0

/-- After `rep movs` upwards. -/
def movsUp (env : Env) (size : Size) (c : Cpu) : Cpu :=
  (((c.setMem (c.mem.copy (c.linear env .es (c.reg .edi)) (c.linear env .ds (c.reg .esi))
    (size.bytes * c.left))).setReg
    .edi (c.reg .edi + BitVec.ofNat 32 (size.bytes * c.left))).setReg
    .esi (c.reg .esi + BitVec.ofNat 32 (size.bytes * c.left))).setReg .ecx 0

/-- After `rep movsb` downwards: the registers stand at the highest byte of each block. -/
def movsbDown (env : Env) (c : Cpu) : Cpu :=
  (((c.setMem (c.mem.copy (c.linear env .es (c.reg .edi) + 1 - BitVec.ofNat 32 c.left)
    (c.linear env .ds (c.reg .esi) + 1 - BitVec.ofNat 32 c.left) c.left)).setReg
    .edi (c.reg .edi - BitVec.ofNat 32 c.left)).setReg
    .esi (c.reg .esi - BitVec.ofNat 32 c.left)).setReg .ecx 0

/-- No element is left exactly when the counter is zero. -/
theorem ecx_eq_zero {c : Cpu} (h : c.left = 0) : c.reg .ecx = 0 :=
  BitVec.eq_of_toNat_eq h

/-- An element is left: the counter is not zero, and one less is left after it. -/
theorem ecx_succ {c : Cpu} {n : Nat} (h : c.left = n + 1) :
    c.reg .ecx ≠ 0 ∧ (c.reg .ecx - 1).toNat = n := by
  have hval : (c.reg .ecx).toNat = n + 1 := h
  constructor
  · intro hzero
    rw [hzero] at hval
    simp at hval
  · have hlt := (c.reg .ecx).isLt
    rw [BitVec.toNat_sub_of_le (by simp [BitVec.le_def]; omega), hval]
    rfl

/-- A processor whose registers, memory and the rest agree. -/
theorem eq_of {c c' : Cpu} (hreg : ∀ r, c.reg r = c'.reg r) (hseg : c.seg = c'.seg)
    (hflags : c.eflags = c'.eflags) (heip : c.eip = c'.eip) (hmem : c.mem = c'.mem) : c = c' :=
  Cpu.ext (funext hreg) hseg hflags heip hmem

end Cpu

open Cpu

theorem element_stos {c : Cpu} {size : Size} (hdf : c.flag .df = false) :
    StrOp.element env c (.stos size) =
      ((c.setMem (c.mem.write (c.linear env .es (c.reg .edi)) size.bytes
        (byteOf (c.reg .eax)))).setReg .edi (c.reg .edi + BitVec.ofNat 32 size.bytes)).setReg
        .ecx (c.reg .ecx - 1) := by
  simp only [StrOp.element, hdf, Bool.false_eq_true, if_false]

/-- An element and the elements after it repeat one pattern. -/
theorem write_pattern (m : Mem 32 (BitVec 8)) (a v : Word) (size : Size) (n : Nat) :
    (m.write a size.bytes (byteOf v)).write (a + BitVec.ofNat 32 size.bytes) (size.bytes * n)
        (fun i => byteOf v (i % size.bytes)) =
      m.write a (size.bytes + size.bytes * n) fun i => byteOf v (i % size.bytes) := by
  have hfirst : m.write a size.bytes (byteOf v) =
      m.write a size.bytes fun i => byteOf v (i % size.bytes) :=
    write_congr fun i hi _ => by rw [Nat.mod_eq_of_lt hi]
  have hperiod : ∀ i < size.bytes * n,
      byteOf v ((size.bytes + i) % 2 ^ 32 % size.bytes) =
        byteOf v ((size.bytes + i) % size.bytes) := by
    intro i _
    rw [Nat.mod_mod_of_dvd]
    cases size <;> simp [Size.bytes]
  rw [hfirst, ← write_write (f := fun i => byteOf v (i % size.bytes)) hperiod]
  simp only [Nat.add_mod_left]

/-- One element and then the others are the whole block. -/
theorem stosUp_element {c : Cpu} {size : Size} {n : Nat} (hdf : c.flag .df = false)
    (hn : c.left = n + 1) :
    (StrOp.element env c (.stos size)).stosUp env size = c.stosUp env size := by
  have hleft : (StrOp.element env c (.stos size)).left = n := by
    rw [element_stos hdf, left]
    simpa using (ecx_succ hn).2
  have hmul : size.bytes * (n + 1) = size.bytes + size.bytes * n := by
    rw [Nat.mul_succ, Nat.add_comm]
  rw [stosUp, hleft, element_stos hdf, stosUp, hn, hmul]
  refine eq_of (fun r => ?_) rfl rfl rfl ?_
  · cases r <;> simp [BitVec.ofNat_add, BitVec.add_assoc]
  · simpa [linear, BitVec.add_assoc] using
      write_pattern c.mem (c.linear env .es (c.reg .edi)) (c.reg .eax) size n

/-- `rep stos` upwards fills the block. -/
theorem from_rep_stos {c : Cpu} {size : Size} (hdf : c.flag .df = false)
    (h : From env prog Q k (c.stosUp env size)) : From env prog Q (.rep (.stos size) :: k) c := by
  induction hn : c.left generalizing c with
  | zero =>
      refine from_rep_zero (ecx_eq_zero hn) ?_
      have hsame : c.stosUp env size = c := by
        refine eq_of (fun r => ?_) rfl rfl rfl ?_
        · cases r <;> simp [stosUp, hn, ecx_eq_zero hn]
        · simp [stosUp, hn]
      rwa [hsame] at h
  | succ n ih =>
      refine from_rep_succ (ecx_succ hn).1 (ih ?_ ?_ ?_)
      · rw [element_stos hdf]
        exact hdf
      · rwa [stosUp_element hdf hn]
      · rw [element_stos hdf, left]
        simpa using (ecx_succ hn).2

theorem element_movs {c : Cpu} {size : Size} (hdf : c.flag .df = false) :
    StrOp.element env c (.movs size) =
      (((c.setMem (c.mem.copy (c.linear env .es (c.reg .edi)) (c.linear env .ds (c.reg .esi))
        size.bytes)).setReg .edi (c.reg .edi + BitVec.ofNat 32 size.bytes)).setReg
        .esi (c.reg .esi + BitVec.ofNat 32 size.bytes)).setReg .ecx (c.reg .ecx - 1) := by
  simp only [StrOp.element, hdf, Bool.false_eq_true, if_false]

/-- One element and then the others are the whole copy. -/
theorem movsUp_element {c : Cpu} {size : Size} {n : Nat} (hdf : c.flag .df = false)
    (hn : c.left = n + 1) (hsize : size.bytes * (n + 1) ≤ 2 ^ 32)
    (hup : CopiesUp (c.linear env .es (c.reg .edi)) (c.linear env .ds (c.reg .esi))
      (size.bytes * (n + 1))) :
    (StrOp.element env c (.movs size)).movsUp env size = c.movsUp env size := by
  have hleft : (StrOp.element env c (.movs size)).left = n := by
    rw [element_movs hdf, left]
    simpa using (ecx_succ hn).2
  have hmul : size.bytes * (n + 1) = size.bytes + size.bytes * n := by
    rw [Nat.mul_succ, Nat.add_comm]
  rw [movsUp, hleft, element_movs hdf, movsUp, hn, hmul]
  refine eq_of (fun r => ?_) rfl rfl rfl ?_
  · cases r <;> simp [BitVec.ofNat_add, BitVec.add_assoc]
  · have hcopy := copy_copy (m := c.mem) hup (i := size.bytes) (k := size.bytes * n)
      (Nat.le_of_eq hmul.symm) hsize
    simpa [linear, BitVec.add_assoc] using hcopy

/-- `rep movs` upwards copies the block. -/
theorem from_rep_movs {c : Cpu} {size : Size} (hdf : c.flag .df = false)
    (hsize : size.bytes * c.left ≤ 2 ^ 32)
    (hup : CopiesUp (c.linear env .es (c.reg .edi)) (c.linear env .ds (c.reg .esi))
      (size.bytes * c.left))
    (h : From env prog Q k (c.movsUp env size)) : From env prog Q (.rep (.movs size) :: k) c := by
  induction hn : c.left generalizing c with
  | zero =>
      refine from_rep_zero (ecx_eq_zero hn) ?_
      have hsame : c.movsUp env size = c := by
        refine eq_of (fun r => ?_) rfl rfl rfl ?_
        · cases r <;> simp [movsUp, hn, ecx_eq_zero hn]
        · simp [movsUp, hn, copy]
      rwa [hsame] at h
  | succ n ih =>
      have hleft : (StrOp.element env c (.movs size)).left = n := by
        rw [element_movs hdf, left]
        simpa using (ecx_succ hn).2
      have hmul : size.bytes * (n + 1) = size.bytes * n + size.bytes := Nat.mul_succ _ _
      rw [hn] at hsize hup
      refine from_rep_succ (ecx_succ hn).1 (ih ?_ ?_ ?_ ?_ hleft)
      · rw [element_movs hdf]
        exact hdf
      · rw [hleft]
        omega
      · rw [hleft, element_movs hdf]
        refine (hup.mono (by omega)).of_sub ?_
        simp only [linear, setReg_seg, setMem_seg, setReg_reg_self, setReg_reg, ne_eq, reduceCtorEq,
          not_false_eq_true]
        grind
      · rwa [movsUp_element hdf hn hsize hup]

theorem element_movsb {c : Cpu} (hdf : c.flag .df = true) :
    StrOp.element env c (.movs .b) =
      (((c.setMem (c.mem.copy (c.linear env .es (c.reg .edi)) (c.linear env .ds (c.reg .esi))
        1)).setReg .edi (c.reg .edi + -1)).setReg .esi (c.reg .esi + -1)).setReg
        .ecx (c.reg .ecx - 1) := by
  simp [StrOp.element, hdf, Size.bytes]

/-- The highest byte and then the bytes below it are the whole copy. -/
theorem movsbDown_element {c : Cpu} {n : Nat} (hdf : c.flag .df = true) (hn : c.left = n + 1)
    (hdown : CopiesDown (c.linear env .es (c.reg .edi)) (c.linear env .ds (c.reg .esi)) (n + 1)) :
    (StrOp.element env c (.movs .b)).movsbDown env = c.movsbDown env := by
  have hlt : n + 1 ≤ 2 ^ 32 := by
    have := (c.reg .ecx).isLt
    rw [left] at hn
    omega
  have hleft : (StrOp.element env c (.movs .b)).left = n := by
    rw [element_movsb hdf, left]
    simpa using (ecx_succ hn).2
  rw [movsbDown, hleft, element_movsb hdf, movsbDown, hn]
  have hmove : ∀ a : Word, a + -1 - BitVec.ofNat 32 n = a - BitVec.ofNat 32 (n + 1) := by
    intro a
    rw [BitVec.ofNat_add]
    grind
  refine eq_of (fun r => ?_) (by simp) (by simp) (by simp) ?_
  · cases r <;> simp only [setReg_reg_self, setReg_reg, setMem_reg, hmove, ne_eq, reduceCtorEq,
      not_false_eq_true]
  · have hbelow : CopiesDown (c.linear env .es (c.reg .edi) - BitVec.ofNat 32 n)
        (c.linear env .ds (c.reg .esi) - BitVec.ofNat 32 n) (n + 1) :=
      hdown.of_sub (by grind)
    have hcopy := copy_below (m := c.mem) hbelow (i := 1) (k := n) (Nat.le_refl _) hlt
    simp only [BitVec.sub_add_cancel] at hcopy
    have hone : ∀ a : Word, a + 1 - BitVec.ofNat 32 (n + 1) = a - BitVec.ofNat 32 n := by
      intro a
      rw [BitVec.ofNat_add]
      grind
    have hdrop : ∀ b a : Word,
        b + (a + -1) + 1 - BitVec.ofNat 32 n = b + a - BitVec.ofNat 32 n := by
      intro b a
      grind
    simp only [linear, setReg_mem, setMem_mem, setReg_seg, setMem_seg, setReg_reg_self, setReg_reg,
      ne_eq, reduceCtorEq, not_false_eq_true, hone, hdrop] at hcopy ⊢
    exact hcopy

/-- `rep movsb` downwards copies the block. -/
theorem from_rep_movsb {c : Cpu} (hdf : c.flag .df = true)
    (hdown : CopiesDown (c.linear env .es (c.reg .edi)) (c.linear env .ds (c.reg .esi)) c.left)
    (h : From env prog Q k (c.movsbDown env)) : From env prog Q (.rep (.movs .b) :: k) c := by
  induction hn : c.left generalizing c with
  | zero =>
      refine from_rep_zero (ecx_eq_zero hn) ?_
      have hsame : c.movsbDown env = c := by
        refine eq_of (fun r => ?_) rfl rfl rfl ?_
        · cases r <;> simp [movsbDown, hn, ecx_eq_zero hn]
        · simp [movsbDown, hn, copy]
      rwa [hsame] at h
  | succ n ih =>
      have hleft : (StrOp.element env c (.movs .b)).left = n := by
        rw [element_movsb hdf, left]
        simpa using (ecx_succ hn).2
      rw [hn] at hdown
      refine from_rep_succ (ecx_succ hn).1 (ih ?_ ?_ ?_ hleft)
      · rw [element_movsb hdf]
        exact hdf
      · rw [hleft, element_movsb hdf]
        refine (hdown.mono (by omega)).of_sub ?_
        simp only [linear, setReg_seg, setMem_seg, setReg_reg_self, setReg_reg, ne_eq, reduceCtorEq,
          not_false_eq_true]
        grind
      · rwa [movsbDown_element hdf hn hdown]

end Ece391Kernel.Machine
