import Ece391Kernel.Lib.StringRoutines

/-!
# What the string routines do

Each loop is specified by what it does from its head on, as a relation between the state there and
the state at the end, so that one round followed by the rest is again the whole loop.
-/

namespace Ece391Kernel

open Machine Machine.Mem Machine.Cpu

variable {env : Env} {Q : Cpu → Prop}

/-! ## Counters -/

/-- A counter that is not zero counts one byte and the rest. -/
theorem toNat_pred {v : Word} (h : v ≠ 0) : v.toNat = (v - 1).toNat + 1 := by
  have hpos : v.toNat ≠ 0 := fun hzero => h (BitVec.eq_of_toNat_eq hzero)
  have hlt := v.isLt
  rw [BitVec.toNat_sub_of_le (by simp [BitVec.le_def]; omega)]
  simp
  omega

/-- The words of a block and the bytes that are left over. -/
theorem toNat_words (v : Word) : 4 * (v >>> 2).toNat + (v &&& 3).toNat = v.toNat := by
  have hmod : (v &&& 3).toNat = v.toNat % 4 := by
    rw [BitVec.toNat_and, show (3 : Word).toNat = 2 ^ 2 - 1 from rfl,
      Nat.and_two_pow_sub_one_eq_mod]
  rw [hmod, BitVec.toNat_ushiftRight, Nat.shiftRight_eq_div_pow]
  omega

/-- `.memset_aligned` and `.memcpy_aligned` up to the string instruction. -/
def splitOps : List Op :=
  [.movwFrom .ds .edx, .movwTo .edx .es, .movl (.reg .ecx) .edx, .shrl 2 .ecx, .andl (.imm 3) .edx,
   .cld]

/-- The state before the string instruction: the words are counted in `ecx`, the rest in `edx`. -/
structure Split (c m : Cpu) : Prop where
  words : m.reg .ecx = c.reg .ecx >>> 2
  rest : m.reg .edx = c.reg .ecx &&& 3
  es : m.seg .es = c.seg .ds
  df : m.flag .df = false
  mem : m.mem = c.mem
  keeps : Keeps [.ecx, .edx] c m

theorem split_ops (env : Env) (c : Cpu) : Split c (splitOps.foldl (Op.exec env) c) := by
  refine ⟨?_, ?_, ?_, ?_, rfl, fun r hr => ?_, fun s hs => ?_, rfl⟩
  · simp [splitOps, Op.exec, src]
  · simp [splitOps, Op.exec, src]
  · simp [splitOps, Op.exec]
  · simp [splitOps, Op.exec]
  · simp only [List.mem_cons, List.not_mem_nil, or_false, not_or] at hr
    simp [splitOps, Op.exec, hr]
  · simp [splitOps, Op.exec, hs]

/-! ## `memset` -/

/-- The state `t` after the bytes that `count` counts were set, from the state `c`. -/
structure Sets (env : Env) (count : Reg) (c t : Cpu) : Prop where
  mem : t.mem =
    c.mem.fill (c.linear env .ds (c.reg .edi)) (c.reg count).toNat (byteOf (c.reg .eax) 0)
  keeps : Keeps [.ecx, .edx, .edi] c t

theorem Sets.of_same {count : Reg} {c m t : Cpu} (hsame : SameButFlags c m)
    (h : Sets env count m t) : Sets env count c t := by
  refine ⟨?_, (hsame.keeps _).trans h.keeps⟩
  rw [h.mem, hsame.linear, hsame.reg, hsame.mem]

/-- Nothing is left to be set. -/
theorem Sets.zero {count : Reg} {c m : Cpu} (hsame : SameButFlags c m) (hzero : c.reg count = 0) :
    Sets env count c m := by
  refine ⟨?_, hsame.keeps _⟩
  rw [hzero, hsame.mem]
  exact (write_zero _ _ _).symm

/-- Setting one byte. -/
def setByte (env : Env) (count : Reg) (c : Cpu) : Cpu :=
  [Op.movbStore .eax .edi, .addl (.imm 1) .edi, .subl (.imm 1) count].foldl (Op.exec env) c

/-- What setting one byte does, for either counter. -/
theorem setByte_spec (env : Env) (c : Cpu) {count : Reg} (hcount : count = .ecx ∨ count = .edx) :
    (setByte env count c).mem =
        c.mem.fill (c.linear env .ds (c.reg .edi)) 1 (byteOf (c.reg .eax) 0) ∧
      (setByte env count c).reg .edi = c.reg .edi + 1 ∧
      (setByte env count c).reg count = c.reg count - 1 ∧
      Keeps [.ecx, .edx, .edi] c (setByte env count c) := by
  have hbyte : c.mem.write (c.linear env .ds (c.reg .edi)) 1 (byteOf (c.reg .eax)) =
      c.mem.fill (c.linear env .ds (c.reg .edi)) 1 (byteOf (c.reg .eax) 0) :=
    write_congr fun i hi _ => by rw [Nat.lt_one_iff.1 hi]
  refine ⟨hbyte, ?_, ?_, fun r hr => ?_, fun _ _ => rfl, rfl⟩
  · rcases hcount with rfl | rfl <;> simp [setByte, Op.exec, src]
  · rcases hcount with rfl | rfl <;> simp [setByte, Op.exec, src]
  · simp only [List.mem_cons, List.not_mem_nil, or_false, not_or] at hr
    rcases hcount with rfl | rfl <;> simp [setByte, Op.exec, hr]

/-- One byte and then the rest. -/
theorem Sets.round {count : Reg} {c m t : Cpu} (hcount : count = .ecx ∨ count = .edx)
    (hsame : SameButFlags c m) (hne : c.reg count ≠ 0)
    (h : Sets env count (setByte env count m) t) : Sets env count c t := by
  obtain ⟨hmem, hedi, hpred, hkeeps⟩ := setByte_spec env m hcount
  refine Sets.of_same hsame ⟨?_, hkeeps.trans h.keeps⟩
  have heax : (setByte env count m).reg .eax = m.reg .eax := hkeeps.reg _ (by decide)
  rw [← hsame.reg] at hne
  rw [h.mem, linear, hkeeps.seg _ (by decide), hedi, heax, hpred, hmem, toNat_pred hne,
    ← BitVec.add_assoc, Nat.add_comm]
  exact fill_fill _ _ _ _ _

/-- `.memset_bottom` sets the bytes that `edx` counts. -/
theorem memset_bottom {c : Cpu} (h : ∀ t, Sets env .edx c t → Q t) :
    From env memsetAsm Q memsetBottom c := by
  induction hn : (c.reg .edx).toNat using Nat.strongRecOn generalizing c with
  | ind n ih =>
      refine from_label (from_test_jz (j := [.label .memset_done]) rfl (fun m hsame hz => ?_)
        (fun m hsame hnz => ?_))
      · have hzero : c.reg .edx = 0 := by simpa [src] using hz
        exact from_label (from_end (h _ (.zero hsame hzero)))
      · have hne : c.reg .edx ≠ 0 := by simpa [src] using hnz
        obtain ⟨-, -, hpred, -⟩ := setByte_spec env m (Or.inr rfl)
        have hlt := toNat_pred hne
        rw [← hsame.reg] at hlt hn
        refine from_op (from_op (from_op (from_jmp (j := memsetBottom) rfl
          (ih _ ?_ (fun t ht => h t (ht.round (Or.inr rfl) hsame hne)) (congrArg _ hpred)))))
        omega

/-- Every byte of the value is the same. -/
def Spread (v : Word) : Prop :=
  ∀ i < 4, byteOf v i = byteOf v 0

/-- `.memset_aligned` sets the words, then what is left. -/
theorem memset_aligned {c : Cpu} (hspread : Spread (c.reg .eax))
    (h : ∀ t, Sets env .ecx c t → Q t) : From env memsetAsm Q memsetAligned c := by
  have hsplit := split_ops env c
  refine from_label (from_ops (o := splitOps) ?_)
  generalize splitOps.foldl (Op.exec env) c = m at hsplit
  refine from_rep_stos hsplit.df (memset_bottom fun t ht => h t ⟨?_, fun r hr => ?_, fun s hs => ?_,
    ht.keeps.eip.trans hsplit.keeps.eip⟩)
  · have heax : m.reg .eax = c.reg .eax := hsplit.keeps.reg _ (by decide)
    have hedi : m.reg .edi = c.reg .edi := hsplit.keeps.reg _ (by decide)
    have hpattern : ∀ a n, c.mem.write a n (fun i => byteOf (c.reg .eax) (i % 4)) =
        c.mem.fill a n (byteOf (c.reg .eax) 0) := fun a n =>
      write_congr fun i _ _ => hspread (i % 4) (Nat.mod_lt _ (by decide))
    rw [ht.mem]
    simp only [stosUp, left, linear, setReg_seg, setReg_reg_self, setReg_reg, setReg_mem,
      setMem_mem, setMem_reg, setMem_seg, ne_eq, reduceCtorEq, not_false_eq_true, Size.bytes,
      hsplit.words, hsplit.rest, hsplit.es, hsplit.mem, heax, hedi,
      hsplit.keeps.seg .ds (by decide), hpattern]
    rw [← BitVec.add_assoc, fill_fill, toNat_words]
  · rw [ht.keeps.reg r hr]
    simp only [List.mem_cons, List.not_mem_nil, or_false, not_or] at hr
    simp only [stosUp, setReg_reg, setMem_reg, ne_eq, hr, not_false_eq_true]
    exact hsplit.keeps.reg r (by simp [hr])
  · rw [ht.keeps.seg s hs]
    exact hsplit.keeps.seg s hs

/-- `memset` from its head on: the bytes up to an aligned address, the words and the rest. -/
theorem memset_top {c : Cpu} (hspread : Spread (c.reg .eax)) (h : ∀ t, Sets env .ecx c t → Q t) :
    From env memsetAsm Q memsetAsm c := by
  induction hn : (c.reg .ecx).toNat using Nat.strongRecOn generalizing c with
  | ind n ih =>
      refine from_label (from_test_jz (j := [.label .memset_done]) rfl (fun m hsame hz => ?_)
        (fun m hsame hnz => from_test_jz (j := memsetAligned) rfl (fun m' hsame' _ => ?_)
          (fun m' hsame' _ => ?_)))
      · have hzero : c.reg .ecx = 0 := by simpa [src] using hz
        exact from_label (from_end (h _ (.zero hsame hzero)))
      · refine memset_aligned ?_ fun t ht => h t ((ht.of_same hsame').of_same hsame)
        rwa [hsame'.reg, hsame.reg]
      · have hne : c.reg .ecx ≠ 0 := by simpa [src] using hnz
        obtain ⟨-, -, hpred, hkeeps⟩ := setByte_spec env m' (Or.inl rfl)
        have hboth : SameButFlags c m' := hsame.trans hsame'
        have hlt := toNat_pred hne
        rw [← hboth.reg] at hlt hn
        refine from_op (from_op (from_op (from_jmp (j := memsetAsm) rfl (ih _ ?_ ?_
          (fun t ht => h t (ht.round (Or.inl rfl) hboth hne)) (congrArg _ hpred)))))
        · omega
        · show Spread ((setByte env .ecx m').reg .eax)
          rw [hkeeps.reg .eax (by decide), hboth.reg]
          exact hspread

/-! ## `memcpy` -/

/-- The blocks that the registers stand at can be copied upwards, `n` bytes of them. -/
def UpAt (env : Env) (n : Nat) (c : Cpu) : Prop :=
  CopiesUp (c.linear env .ds (c.reg .edi)) (c.linear env .ds (c.reg .esi)) n

/-- The state `t` after the bytes that `count` counts were copied, from the state `c`. -/
structure Copied (env : Env) (count : Reg) (c t : Cpu) : Prop where
  mem : t.mem = c.mem.copy (c.linear env .ds (c.reg .edi)) (c.linear env .ds (c.reg .esi))
    (c.reg count).toNat
  keeps : Keeps [.eax, .ecx, .edx, .esi, .edi] c t

theorem UpAt.of_same {n : Nat} {c m : Cpu} (hsame : SameButFlags c m) (h : UpAt env n c) :
    UpAt env n m := by
  rwa [UpAt, hsame.linear, hsame.linear, hsame.reg]

theorem Copied.of_same {count : Reg} {c m t : Cpu} (hsame : SameButFlags c m)
    (h : Copied env count m t) : Copied env count c t := by
  refine ⟨?_, (hsame.keeps _).trans h.keeps⟩
  rw [h.mem, hsame.linear, hsame.linear, hsame.reg, hsame.mem]

/-- Nothing is left to be copied. -/
theorem Copied.zero {count : Reg} {c m : Cpu} (hsame : SameButFlags c m) (hzero : c.reg count = 0) :
    Copied env count c m := by
  refine ⟨?_, hsame.keeps _⟩
  rw [hzero, hsame.mem]
  exact (write_zero _ _ _).symm

/-- Copying one byte, through `al`. -/
def copyByte (env : Env) (count : Reg) (c : Cpu) : Cpu :=
  [Op.movbLoad .esi .eax, .movbStore .eax .edi, .addl (.imm 1) .edi, .addl (.imm 1) .esi,
    .subl (.imm 1) count].foldl (Op.exec env) c

/-- The byte that was loaded into `al`. -/
theorem byteOf_movb (v : Word) (b : BitVec 8) :
    byteOf ((v &&& 0xFFFFFF00#32) ||| b.setWidth 32) 0 = b := by
  ext i hi
  simp [byteOf]

/-- What copying one byte does, for either counter. -/
theorem copyByte_spec (env : Env) (c : Cpu) {count : Reg} (hcount : count = .ecx ∨ count = .edx) :
    (copyByte env count c).mem =
        c.mem.copy (c.linear env .ds (c.reg .edi)) (c.linear env .ds (c.reg .esi)) 1 ∧
      (copyByte env count c).reg .edi = c.reg .edi + 1 ∧
      (copyByte env count c).reg .esi = c.reg .esi + 1 ∧
      (copyByte env count c).reg count = c.reg count - 1 ∧
      Keeps [.eax, .ecx, .edx, .esi, .edi] c (copyByte env count c) := by
  refine ⟨?_, ?_, ?_, ?_, fun r hr => ?_, fun _ _ => rfl, rfl⟩
  · simp only [copyByte, List.foldl_cons, List.foldl_nil, Op.exec, linear, setReg_mem, setSub_mem,
      setAdd_mem, setMem_mem, setReg_seg, setReg_reg_self, setReg_reg, ne_eq, reduceCtorEq,
      not_false_eq_true]
    refine write_congr fun i hi _ => ?_
    rw [Nat.lt_one_iff.1 hi, byteOf_movb]
    simp
  · rcases hcount with rfl | rfl <;> simp [copyByte, Op.exec, src]
  · rcases hcount with rfl | rfl <;> simp [copyByte, Op.exec, src]
  · rcases hcount with rfl | rfl <;> simp [copyByte, Op.exec, src]
  · simp only [List.mem_cons, List.not_mem_nil, or_false, not_or] at hr
    rcases hcount with rfl | rfl <;> simp [copyByte, Op.exec, hr]

/-- The blocks after one byte. -/
theorem UpAt.copyByte {n : Nat} {c : Cpu} {count : Reg} (h : UpAt env (n + 1) c)
    (hcount : count = .ecx ∨ count = .edx) : UpAt env n (copyByte env count c) := by
  obtain ⟨-, hedi, hesi, -, hkeeps⟩ := copyByte_spec env c hcount
  refine (CopiesUp.mono h (Nat.le_succ n)).of_sub ?_
  rw [linear, linear, hkeeps.seg _ (by decide), hedi, hesi, linear, linear]
  grind

/-- One byte and then the rest. -/
theorem Copied.round {count : Reg} {c m t : Cpu} (hcount : count = .ecx ∨ count = .edx)
    (hsame : SameButFlags c m) (hne : c.reg count ≠ 0) (hup : UpAt env (c.reg count).toNat c)
    (h : Copied env count (copyByte env count m) t) : Copied env count c t := by
  obtain ⟨hmem, hedi, hesi, hpred, hkeeps⟩ := copyByte_spec env m hcount
  refine Copied.of_same hsame ⟨?_, hkeeps.trans h.keeps⟩
  have hup' := hup.of_same hsame
  rw [← hsame.reg] at hne hup'
  have hall := toNat_pred hne
  rw [h.mem, linear, linear, hkeeps.seg _ (by decide), hedi, hesi, hpred, hmem, hall,
    ← BitVec.add_assoc, ← BitVec.add_assoc, Nat.add_comm]
  exact copy_copy hup' (by omega) (Nat.le_of_lt (m.reg count).isLt)

/-- `.memcpy_bottom` copies the bytes that `edx` counts. -/
theorem memcpy_bottom {c : Cpu} (hup : UpAt env (c.reg .edx).toNat c)
    (h : ∀ t, Copied env .edx c t → Q t) : From env memcpyAsm Q memcpyBottom c := by
  induction hn : (c.reg .edx).toNat using Nat.strongRecOn generalizing c with
  | ind n ih =>
      refine from_label (from_test_jz (j := [.label .memcpy_done]) rfl (fun m hsame hz => ?_)
        (fun m hsame hnz => ?_))
      · have hzero : c.reg .edx = 0 := by simpa [src] using hz
        exact from_label (from_end (h _ (.zero hsame hzero)))
      · have hne : c.reg .edx ≠ 0 := by simpa [src] using hnz
        obtain ⟨-, -, -, hpred, -⟩ := copyByte_spec env m (Or.inr rfl)
        have hround := fun t (ht : Copied env .edx (Ece391Kernel.copyByte env .edx m) t) =>
          ht.round (Or.inr rfl) hsame hne hup
        have hup' := hup.of_same hsame
        have hlt := toNat_pred hne
        rw [hlt, ← hsame.reg, ← hpred] at hup'
        rw [← hsame.reg] at hlt hn
        refine from_op (from_op (from_op (from_op (from_op (from_jmp (j := memcpyBottom) rfl
          (ih _ ?_ (hup'.copyByte (Or.inr rfl)) (fun t ht => h t (hround t ht))
            (congrArg _ hpred)))))))
        omega

/-- `.memcpy_aligned` copies the words, then what is left. -/
theorem memcpy_aligned {c : Cpu} (hup : UpAt env (c.reg .ecx).toNat c)
    (h : ∀ t, Copied env .ecx c t → Q t) : From env memcpyAsm Q memcpyAligned c := by
  have hsplit := split_ops env c
  have hwords := toNat_words (c.reg .ecx)
  have hlt := (c.reg .ecx).isLt
  refine from_label (from_ops (o := splitOps) ?_)
  generalize splitOps.foldl (Op.exec env) c = m at hsplit
  have hedi : m.reg .edi = c.reg .edi := hsplit.keeps.reg _ (by decide)
  have hesi : m.reg .esi = c.reg .esi := hsplit.keeps.reg _ (by decide)
  have hds : m.seg .ds = c.seg .ds := hsplit.keeps.seg _ (by decide)
  have hleft : m.left = (c.reg .ecx >>> 2).toNat := by rw [left, hsplit.words]
  refine from_rep_movs hsplit.df ?_ ?_ (memcpy_bottom ?_ fun t ht => h t ⟨?_, fun r hr => ?_,
    fun s hs => ?_, ht.keeps.eip.trans hsplit.keeps.eip⟩)
  · rw [hleft]
    simp only [Size.bytes]
    omega
  · rw [hleft, linear, linear, hsplit.es, hds, hedi, hesi]
    exact CopiesUp.mono hup (by simp only [Size.bytes]; omega)
  · refine (CopiesUp.mono hup ?_).of_sub ?_
    · simp only [movsUp, setReg_reg, setMem_reg, ne_eq, reduceCtorEq, not_false_eq_true,
        hsplit.rest]
      omega
    · simp only [movsUp, linear, setReg_seg, setMem_seg, setReg_reg_self, setReg_reg, ne_eq,
        reduceCtorEq, not_false_eq_true, hedi, hesi, hds]
      grind
  · rw [ht.mem]
    simp only [movsUp, linear, setReg_seg, setReg_reg_self, setReg_reg, setReg_mem, setMem_mem,
      setMem_reg, setMem_seg, ne_eq, reduceCtorEq, not_false_eq_true, Size.bytes, hsplit.rest,
      hsplit.es, hsplit.mem, hedi, hesi, hds, hleft]
    rw [← BitVec.add_assoc, ← BitVec.add_assoc]
    have hcopy := copy_copy (m := c.mem) hup (i := 4 * (c.reg .ecx >>> 2).toNat)
      (k := (c.reg .ecx &&& 3).toNat) (Nat.le_of_eq hwords) (Nat.le_of_lt hlt)
    rw [hwords] at hcopy
    exact hcopy
  · rw [ht.keeps.reg r hr]
    simp only [List.mem_cons, List.not_mem_nil, or_false, not_or] at hr
    simp only [movsUp, setReg_reg, setMem_reg, ne_eq, hr, not_false_eq_true]
    exact hsplit.keeps.reg r (by simp [hr])
  · rw [ht.keeps.seg s hs]
    exact hsplit.keeps.seg s hs

/-- `memcpy` from its head on: the bytes up to an aligned address, the words and the rest. -/
theorem memcpy_top {c : Cpu} (hup : UpAt env (c.reg .ecx).toNat c)
    (h : ∀ t, Copied env .ecx c t → Q t) : From env memcpyAsm Q memcpyAsm c := by
  induction hn : (c.reg .ecx).toNat using Nat.strongRecOn generalizing c with
  | ind n ih =>
      refine from_label (from_test_jz (j := [.label .memcpy_done]) rfl (fun m hsame hz => ?_)
        (fun m hsame hnz => from_test_jz (j := memcpyAligned) rfl (fun m' hsame' _ => ?_)
          (fun m' hsame' _ => ?_)))
      · have hzero : c.reg .ecx = 0 := by simpa [src] using hz
        exact from_label (from_end (h _ (.zero hsame hzero)))
      · have hboth : SameButFlags c m' := hsame.trans hsame'
        refine memcpy_aligned ?_ fun t ht => h t (ht.of_same hboth)
        rw [hboth.reg]
        exact hup.of_same hboth
      · have hne : c.reg .ecx ≠ 0 := by simpa [src] using hnz
        have hboth : SameButFlags c m' := hsame.trans hsame'
        obtain ⟨-, -, -, hpred, -⟩ := copyByte_spec env m' (Or.inl rfl)
        have hround := fun t (ht : Copied env .ecx (Ece391Kernel.copyByte env .ecx m') t) =>
          ht.round (Or.inl rfl) hboth hne hup
        have hup' := hup.of_same hboth
        have hlt := toNat_pred hne
        rw [hlt, ← hboth.reg, ← hpred] at hup'
        rw [← hboth.reg] at hlt hn
        refine from_op (from_op (from_op (from_op (from_op (from_jmp (j := memcpyAsm) rfl
          (ih _ ?_ (hup'.copyByte (Or.inl rfl)) (fun t ht => h t (hround t ht))
            (congrArg _ hpred)))))))
        omega

/-! ## `memset_word`, `memset_dword` and `memmove` -/

/-- The instructions before the string instruction of `memset_word` and `memset_dword`, and the
first ones of `memmove`. -/
def flatOps : List Op :=
  [.movwFrom .ds .edx, .movwTo .edx .es, .cld]

/-- The state after them. -/
structure Flat (c m : Cpu) : Prop where
  es : m.seg .es = c.seg .ds
  df : m.flag .df = false
  mem : m.mem = c.mem
  keeps : Keeps [.edx] c m

theorem flat_ops (env : Env) (c : Cpu) : Flat c (flatOps.foldl (Op.exec env) c) := by
  refine ⟨?_, ?_, rfl, fun r hr => ?_, fun s hs => ?_, rfl⟩
  · simp [flatOps, Op.exec]
  · simp [flatOps, Op.exec]
  · simp only [List.mem_cons, List.not_mem_nil, or_false] at hr
    simp [flatOps, Op.exec, hr]
  · simp [flatOps, Op.exec, hs]

/-- `memset_word` and `memset_dword` repeat the bytes of `eax`, as often as `ecx` says. -/
theorem stos_top {size : Size} {c : Cpu}
    (h : ∀ t, t.mem = c.mem.write (c.linear env .ds (c.reg .edi)) (size.bytes * (c.reg .ecx).toNat)
        (fun i => byteOf (c.reg .eax) (i % size.bytes)) →
      Keeps [.ecx, .edx, .edi] c t → Q t) : From env (stosAsm size) Q (stosAsm size) c := by
  have hflat := flat_ops env c
  refine from_ops (o := flatOps) ?_
  generalize flatOps.foldl (Op.exec env) c = m at hflat
  have heax : m.reg .eax = c.reg .eax := hflat.keeps.reg _ (by decide)
  have hecx : m.reg .ecx = c.reg .ecx := hflat.keeps.reg _ (by decide)
  have hedi : m.reg .edi = c.reg .edi := hflat.keeps.reg _ (by decide)
  refine from_rep_stos hflat.df (from_end (h _ ?_ ⟨fun r hr => ?_, fun s hs => ?_, ?_⟩))
  · simp only [stosUp, left, linear, setReg_mem, setMem_mem, heax, hecx, hedi, hflat.es, hflat.mem]
  · simp only [List.mem_cons, List.not_mem_nil, or_false, not_or] at hr
    simp only [stosUp, setReg_reg, setMem_reg, ne_eq, hr, not_false_eq_true]
    exact hflat.keeps.reg r (by simp [hr])
  · exact hflat.keeps.seg s hs
  · exact hflat.keeps.eip

/-- A block of offsets that does not go round the end of the memory. -/
def NoWrap (a : Word) (n : Nat) : Prop :=
  a.toNat + n ≤ 2 ^ 32

instance (a : Word) (n : Nat) : Decidable (NoWrap a n) :=
  inferInstanceAs (Decidable (_ ≤ _))

/-- A source at or above the destination is copied upwards. -/
theorem NoWrap.copiesUp {dest source b : Word} {n : Nat} (h : NoWrap source n)
    (hle : dest.toNat ≤ source.toNat) : CopiesUp (b + dest) (b + source) n := by
  have hsub : b + dest - (b + source) = dest - source := by grind
  have hs := source.isLt
  rw [NoWrap] at h
  rw [CopiesUp, hsub]
  rcases Nat.lt_or_ge dest.toNat source.toNat with hlt | hge
  · rw [BitVec.toNat_sub_of_lt (by rwa [BitVec.lt_def])]
    omega
  · have hsame : dest = source := BitVec.eq_of_toNat_eq (by omega)
    left
    rw [hsame, BitVec.sub_self]
    rfl

/-- A source below the destination is copied downwards. -/
theorem NoWrap.copiesDown {dest source b : Word} {n : Nat} (h : NoWrap dest n)
    (hlt : source.toNat < dest.toNat) : CopiesDown (b + dest) (b + source) n := by
  have hsub : b + source - (b + dest) = source - dest := by grind
  have hd := dest.isLt
  rw [NoWrap] at h
  rw [CopiesDown, hsub, BitVec.toNat_sub_of_lt (by rwa [BitVec.lt_def])]
  omega

/-- The state `t` after the block was moved, from the state `c`. A move downwards leaves the
direction flag set. -/
structure Moved (env : Env) (c t : Cpu) : Prop where
  mem : t.mem = c.mem.copy (c.linear env .ds (c.reg .edi)) (c.linear env .ds (c.reg .esi))
    (c.reg .ecx).toNat
  df : t.flag .df = (c.reg .esi).ult (c.reg .edi)
  keeps : Keeps [.ecx, .edx, .esi, .edi] c t

/-- The instructions that turn `memmove` round. -/
def turnOps : List Op :=
  [.leal (-1) .esi .ecx .esi, .leal (-1) .edi .ecx .edi, .std]

/-- The state after them: both registers at the highest byte. -/
structure Turned (c m : Cpu) : Prop where
  esi : m.reg .esi = -1 + c.reg .esi + c.reg .ecx
  edi : m.reg .edi = -1 + c.reg .edi + c.reg .ecx
  df : m.flag .df = true
  mem : m.mem = c.mem
  seg : m.seg = c.seg
  eip : m.eip = c.eip
  reg : ∀ r ∉ [Reg.esi, .edi], m.reg r = c.reg r

theorem turn_ops (c : Cpu) : Turned c (turnOps.foldl (Op.exec env) c) := by
  refine ⟨?_, ?_, ?_, rfl, rfl, rfl, fun r hr => ?_⟩
  · simp [turnOps, Op.exec]
  · simp [turnOps, Op.exec]
  · simp [turnOps, Op.exec]
  · simp only [List.mem_cons, List.not_mem_nil, or_false, not_or] at hr
    simp [turnOps, Op.exec, hr]

/-- `.memmove_go` when the source is not below the destination. -/
theorem memmove_up {c : Cpu} (hes : c.seg .es = c.seg .ds) (hdf : c.flag .df = false)
    (hsrc : NoWrap (c.reg .esi) (c.reg .ecx).toNat)
    (hle : (c.reg .edi).toNat ≤ (c.reg .esi).toNat) (h : ∀ t, Moved env c t → Q t) :
    From env memmoveAsm Q memmoveGo c := by
  have hlt := (c.reg .ecx).isLt
  refine from_label (from_rep_movs hdf ?_ ?_ (from_end (h _ ⟨?_, ?_, fun r hr => ?_, fun s hs => ?_,
    rfl⟩)))
  · simp only [left, Size.bytes]
    omega
  · rw [linear, linear, hes, left, Size.bytes, Nat.one_mul]
    exact hsrc.copiesUp hle
  · simp only [movsUp, left, linear, setReg_mem, setMem_mem, hes, Size.bytes, Nat.one_mul]
  · simp only [movsUp, setReg_flag, setMem_flag, hdf, BitVec.ult_eq_decide]
    simp [hle]
  · simp only [List.mem_cons, List.not_mem_nil, or_false, not_or] at hr
    simp only [movsUp, setReg_reg, setMem_reg, ne_eq, hr, not_false_eq_true]
  · simp only [movsUp, setReg_seg, setMem_seg]

/-- `.memmove_go` when the source is below the destination: `m` is the state before it was turned
round. -/
theorem memmove_down {c m : Cpu} (hes : m.seg .es = m.seg .ds)
    (hdest : NoWrap (m.reg .edi) (m.reg .ecx).toNat)
    (hlt : (m.reg .esi).toNat < (m.reg .edi).toNat) (hturn : Turned m c)
    (h : ∀ t, Moved env m t → Q t) : From env memmoveAsm Q memmoveGo c := by
  have hecx : c.reg .ecx = m.reg .ecx := hturn.reg _ (by decide)
  have hleft : c.left = (m.reg .ecx).toNat := by rw [left, hecx]
  have hlow : ∀ b a : Word, b + (-1 + a + m.reg .ecx) + 1 - BitVec.ofNat 32 (m.reg .ecx).toNat =
      b + a := by
    intro b a
    rw [BitVec.ofNat_toNat, BitVec.setWidth_eq]
    grind
  refine from_label (from_rep_movsb hturn.df ?_ (from_end (h _ ⟨?_, ?_, fun r hr => ?_,
    fun s hs => ?_, ?_⟩)))
  · rw [linear, linear, hturn.seg, hes, hturn.edi, hturn.esi, hleft]
    exact (hdest.copiesDown (b := env.base (m.seg .ds)) hlt).of_sub (by grind)
  · simp only [movsbDown, linear, setReg_mem, setMem_mem, hturn.seg, hturn.mem, hturn.edi,
      hturn.esi, hleft, hlow, hes]
  · simp only [movsbDown, setReg_flag, setMem_flag, hturn.df, BitVec.ult_eq_decide]
    simp [hlt]
  · simp only [List.mem_cons, List.not_mem_nil, or_false, not_or] at hr
    simp only [movsbDown, setReg_reg, setMem_reg, ne_eq, hr, not_false_eq_true]
    exact hturn.reg r (by simp [hr])
  · simp only [movsbDown, setReg_seg, setMem_seg, hturn.seg]
  · simp only [movsbDown, setReg_eip, setMem_eip, hturn.eip]

/-- `memmove` of blocks that do not go round the end of the memory. -/
theorem memmove_top {c : Cpu} (hsrc : NoWrap (c.reg .esi) (c.reg .ecx).toNat)
    (hdest : NoWrap (c.reg .edi) (c.reg .ecx).toNat) (h : ∀ t, Moved env c t → Q t) :
    From env memmoveAsm Q memmoveAsm c := by
  have hflat := flat_ops env c
  refine from_ops (o := flatOps) ?_
  generalize flatOps.foldl (Op.exec env) c = m at hflat
  obtain ⟨hsame, hdf⟩ := cmp_same env m (.reg .edi) .esi
  have hae : (Op.exec env m (.cmpl (.reg .edi) .esi)).holds .ae = (m.reg .edi).ule (m.reg .esi) :=
    holds_setSub m _ _ .ae
  refine from_op ?_
  generalize Op.exec env m (.cmpl (.reg .edi) .esi) = m' at hsame hdf hae
  have hreg : ∀ r ≠ Reg.edx, m'.reg r = c.reg r := fun r hr => by
    rw [hsame.reg, hflat.keeps.reg r (by simpa using hr)]
  have hseg : ∀ s ≠ Seg.es, m'.seg s = c.seg s := fun s hs => by
    rw [hsame.seg, hflat.keeps.seg s hs]
  have hes : m'.seg .es = m'.seg .ds := by
    rw [hseg .ds (by decide), hsame.seg, hflat.es]
  have hmoved : ∀ t, Moved env m' t → Moved env c t := by
    intro t ht
    refine ⟨?_, ?_, fun r hr => ?_, fun s hs => ?_, ?_⟩
    · rw [ht.mem, linear, linear, hseg .ds (by decide), hreg .edi (by decide),
        hreg .esi (by decide), hreg .ecx (by decide), hsame.mem, hflat.mem, linear, linear]
    · rw [ht.df, hreg .edi (by decide), hreg .esi (by decide)]
    · have hedx : r ≠ .edx := fun hedx => hr (by simp [hedx])
      rw [ht.keeps.reg r hr, hreg r hedx]
    · rw [ht.keeps.seg s hs, hseg s hs]
    · rw [ht.keeps.eip, hsame.eip, hflat.keeps.eip]
  rw [← hreg .esi (by decide), ← hreg .ecx (by decide)] at hsrc
  rw [← hreg .edi (by decide), ← hreg .ecx (by decide)] at hdest
  rw [← hsame.reg, BitVec.ule_eq_decide] at hae
  refine from_jcc (j := memmoveGo) rfl (fun hyes => ?_) (fun hno => ?_)
  · rw [hae, decide_eq_true_eq] at hyes
    exact memmove_up hes (hdf.trans hflat.df) hsrc hyes fun t ht => h t (hmoved t ht)
  · rw [hae, decide_eq_false_iff_not, Nat.not_le] at hno
    refine from_ops (o := turnOps) ?_
    exact memmove_down hes hdest hno (turn_ops m') fun t ht => h t (hmoved t ht)

end Ece391Kernel
