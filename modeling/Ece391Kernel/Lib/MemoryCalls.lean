import Ece391Kernel.Lib.BlockOperations

/-!
# Calls of the string routines

Each routine, called in any state of the processor, has the effect on memory that its comment
promises. `MemCall` is a call of any of them with its abstract effect, and `performs_effect` says
that code that calls them one after the other sees the composition of their effects, whatever the
registers and the flags hold in between: a move downwards leaves the direction flag set, and every
routine clears it before it uses it.
-/

namespace Ece391Kernel

open Machine Machine.Mem Machine.Cpu

variable {env : Env}

/-! ## One call -/

/-- The value that `memset` spreads over a word has its low byte everywhere. -/
theorem byteOf_spread (c : Word) {i : Nat} (hi : i < 4) :
    byteOf (spread (c &&& 0xFF)) i = c.setWidth 8 := by
  have hmask : ∀ j, (0xFF#32).getLsbD j = decide (j < 8) := by
    intro j
    rcases Nat.lt_or_ge j 32 with hj | hj
    · have hall : ∀ j < 32, (0xFF#32).getLsbD j = decide (j < 8) := by decide
      exact hall j hj
    · rw [BitVec.getLsbD_of_ge _ _ hj]
      simp
      omega
  ext j hj
  simp only [byteOf, spread, BitVec.getElem_setWidth, BitVec.getLsbD_ushiftRight,
    BitVec.getLsbD_or, BitVec.getLsbD_shiftLeft, BitVec.getLsbD_and]
  rcases i with _ | _ | _ | _ | _
  all_goals simp [hmask]
  all_goals grind

/-- `memset` sets every byte of the block to the low byte of `c`. -/
theorem memset_call (cpu : Cpu) (s c n : Word) :
    Runs env (memset s c n).code (fun t =>
      t.mem = cpu.mem.fill (cpu.linear env .ds s) n.toNat (c.setWidth 8) ∧
        Keeps [.eax, .ecx, .edx, .edi] cpu t) ((memset s c n).enter cpu) := by
  refine memset_top (fun i hi => ?_) fun t ht => ⟨?_, fun r hr => ?_, ?_, ht.keeps.eip⟩
  · simp only [memset, setReg_reg, setReg_reg_self, ne_eq, reduceCtorEq, not_false_eq_true]
    rw [byteOf_spread c hi, byteOf_spread c (by decide)]
  · rw [ht.mem]
    simp only [memset, linear, setReg_reg, setReg_reg_self, setReg_seg, setReg_mem, ne_eq,
      reduceCtorEq, not_false_eq_true]
    rw [byteOf_spread c (by decide)]
  · simp only [List.mem_cons, List.not_mem_nil, or_false, not_or] at hr
    rw [ht.keeps.reg r (by simp [hr])]
    simp [memset, hr]
  · exact ht.keeps.seg

/-- `memset_word` and `memset_dword` repeat the low bytes of `c` over `n` elements, also when the
elements go round the end of the memory. -/
theorem memset_elements_call (cpu : Cpu) (s c n : Word) :
    Runs env (memset_word s c n).code (fun t =>
      t.mem = cpu.mem.write (cpu.linear env .ds s) (2 * n.toNat) (fun i => byteOf c (i % 2)) ∧
        Keeps [.eax, .ecx, .edx, .edi] cpu t) ((memset_word s c n).enter cpu) ∧
    Runs env (memset_dword s c n).code (fun t =>
      t.mem = cpu.mem.write (cpu.linear env .ds s) (4 * n.toNat) (fun i => byteOf c (i % 4)) ∧
        Keeps [.eax, .ecx, .edx, .edi] cpu t) ((memset_dword s c n).enter cpu) := by
  constructor <;>
  · refine stos_top fun t hmem hkeeps => ⟨?_, fun r hr => ?_, ?_, hkeeps.eip⟩
    · rw [hmem]
      simp [memset_word, memset_dword, linear, Size.bytes]
    · simp only [List.mem_cons, List.not_mem_nil, or_false, not_or] at hr
      rw [hkeeps.reg r (by simp [hr])]
      simp [memset_word, memset_dword, hr]
    · exact hkeeps.seg

/-- `memcpy` copies the block unless its destination starts inside the source, after its start. -/
theorem memcpy_call (cpu : Cpu) (dest source n : Word)
    (h : CopiesUp dest source n.toNat) :
    Runs env (memcpy dest source n).code (fun t =>
      t.mem = cpu.mem.copy (cpu.linear env .ds dest) (cpu.linear env .ds source) n.toNat ∧
        Keeps [.eax, .ecx, .edx, .esi, .edi] cpu t) ((memcpy dest source n).enter cpu) := by
  refine memcpy_top ?_ fun t ht => ⟨?_, fun r hr => ?_, ?_, ht.keeps.eip⟩
  · refine h.of_sub ?_
    simp only [memcpy, linear, setReg_reg, setReg_reg_self, setReg_seg, ne_eq, reduceCtorEq,
      not_false_eq_true]
    grind
  · rw [ht.mem]
    simp [memcpy, linear]
  · simp only [List.mem_cons, List.not_mem_nil, or_false, not_or] at hr
    rw [ht.keeps.reg r (by simp [hr])]
    simp [memcpy, hr]
  · exact ht.keeps.seg

/-- `memmove` copies the block also when the two overlap, in either direction. It leaves the
direction flag set exactly when the source lies below the destination. -/
theorem memmove_call (cpu : Cpu) (dest source n : Word)
    (hdest : NoWrap dest n.toNat) (hsrc : NoWrap source n.toNat) :
    Runs env (memmove dest source n).code (fun t =>
      t.mem = cpu.mem.copy (cpu.linear env .ds dest) (cpu.linear env .ds source) n.toNat ∧
        t.flag .df = decide (source.toNat < dest.toNat) ∧
        Keeps [.ecx, .edx, .esi, .edi] cpu t) ((memmove dest source n).enter cpu) := by
  refine memmove_top ?_ ?_ fun t ht => ⟨?_, ?_, fun r hr => ?_, ?_, ht.keeps.eip⟩
  · simpa [memmove] using hsrc
  · simpa [memmove] using hdest
  · rw [ht.mem]
    simp [memmove, linear]
  · rw [ht.df]
    simp [memmove, BitVec.ult_eq_decide]
  · simp only [List.mem_cons, List.not_mem_nil, or_false, not_or] at hr
    rw [ht.keeps.reg r (by simp [hr])]
    simp [memmove, hr]
  · exact ht.keeps.seg

/-! ## Sequences of calls -/

/-- A call of one of the routines. -/
inductive MemCall where
  | memset (s c n : Word)
  | memset_word (s c n : Word)
  | memset_dword (s c n : Word)
  | memcpy (dest source n : Word)
  | memmove (dest source n : Word)
  deriving DecidableEq, Repr

namespace MemCall

/-- The code of a call. -/
def asm : MemCall → AsmCall
  | memset s c n => Ece391Kernel.memset s c n
  | memset_word s c n => Ece391Kernel.memset_word s c n
  | memset_dword s c n => Ece391Kernel.memset_dword s c n
  | memcpy dest source n => Ece391Kernel.memcpy dest source n
  | memmove dest source n => Ece391Kernel.memmove dest source n

/-- What a call is for: its effect on the memory of a data segment at `base`. -/
def effect (base : Word) (m : Mem 32 (BitVec 8)) : MemCall → Mem 32 (BitVec 8)
  | memset s c n => m.fill (base + s) n.toNat (c.setWidth 8)
  | memset_word s c n => m.write (base + s) (2 * n.toNat) fun i => byteOf c (i % 2)
  | memset_dword s c n => m.write (base + s) (4 * n.toNat) fun i => byteOf c (i % 4)
  | memcpy dest source n => m.copy (base + dest) (base + source) n.toNat
  | memmove dest source n => m.copy (base + dest) (base + source) n.toNat

/-- What a caller has to see to: `memcpy` not onto the later part of its own source, `memmove` not
round the end of the memory. -/
def Ok : MemCall → Prop
  | memset _ _ _ | memset_word _ _ _ | memset_dword _ _ _ => True
  | memcpy dest source n => CopiesUp dest source n.toNat
  | memmove dest source n => NoWrap dest n.toNat ∧ NoWrap source n.toNat

instance : (call : MemCall) → Decidable call.Ok
  | memset _ _ _ | memset_word _ _ _ | memset_dword _ _ _ => inferInstanceAs (Decidable True)
  | memcpy _ _ _ => inferInstanceAs (Decidable (CopiesUp _ _ _))
  | memmove _ _ _ => inferInstanceAs (Decidable (_ ∧ _))

/-- A call has its effect, and the data segment stays. -/
theorem runs_effect {call : MemCall} (h : call.Ok) (cpu : Cpu) :
    Runs env call.asm.code (fun t =>
      t.mem = call.effect (env.base (cpu.seg .ds)) cpu.mem ∧ t.seg .ds = cpu.seg .ds)
      (call.asm.enter cpu) := by
  cases call with
  | memset s c n =>
      exact (memset_call cpu s c n).mono fun t ht => ⟨ht.1, ht.2.seg .ds (by decide)⟩
  | memset_word s c n =>
      exact (memset_elements_call cpu s c n).1.mono fun t ht => ⟨ht.1, ht.2.seg .ds (by decide)⟩
  | memset_dword s c n =>
      exact (memset_elements_call cpu s c n).2.mono fun t ht => ⟨ht.1, ht.2.seg .ds (by decide)⟩
  | memcpy dest source n =>
      exact (memcpy_call cpu dest source n h).mono fun t ht => ⟨ht.1, ht.2.seg .ds (by decide)⟩
  | memmove dest source n =>
      exact (memmove_call cpu dest source n h.1 h.2).mono fun t ht =>
        ⟨ht.1, ht.2.2.seg .ds (by decide)⟩

end MemCall

/-- `Performs env c calls t`: code that starts in `c` makes the calls one after the other and ends
in `t`. Between two calls it may change every register and flag, but neither the memory nor `ds`. -/
inductive Performs (env : Env) : Cpu → List MemCall → Cpu → Prop where
  | done (c : Cpu) : Performs env c [] c
  | call {c m m' t : Cpu} {call : MemCall} {calls : List MemCall} :
      Runs env call.asm.code (fun u => u = m) (call.asm.enter c) →
      m'.mem = m.mem → m'.seg .ds = m.seg .ds →
      Performs env m' calls t → Performs env c (call :: calls) t

/-- A sequence of calls composes their effects. -/
theorem performs_effect {c t : Cpu} {calls : List MemCall} (hok : ∀ call ∈ calls, call.Ok)
    (h : Performs env c calls t) :
    t.mem = calls.foldl (MemCall.effect (env.base (c.seg .ds))) c.mem := by
  induction h with
  | done c => rfl
  | @call c m m' t call calls hrun hmem hds _ ih =>
      have heffect := (MemCall.runs_effect (hok call (by simp)) c).unique hrun
      rw [ih fun call' hcall' => hok call' (by simp [hcall']), hmem, hds, heffect.1, heffect.2]
      rfl

/-- Such a sequence can always be made: every call comes to its end. -/
theorem performs_total (c : Cpu) {calls : List MemCall} (hok : ∀ call ∈ calls, call.Ok) :
    ∃ t, Performs env c calls t := by
  induction calls generalizing c with
  | nil => exact ⟨c, .done c⟩
  | cons call calls ih =>
      have hcall := @MemCall.runs_effect env call (hok call (by simp)) c
      obtain ⟨m, hrun, -⟩ := hcall.result
      obtain ⟨t, ht⟩ := ih m fun call' hcall' => hok call' (by simp [hcall'])
      exact ⟨t, .call hrun rfl rfl ht⟩

/-- Any sequence of calls that respect their conditions comes to its end, from any state of the
processor, and its effect on memory is the composition of the effects. -/
theorem memory_calls_compose (env : Env) (c : Cpu) (calls : List MemCall)
    (hok : ∀ call ∈ calls, call.Ok) :
    (∃ t, Performs env c calls t) ∧ ∀ t, Performs env c calls t →
      t.mem = calls.foldl (MemCall.effect (env.base (c.seg .ds))) c.mem :=
  ⟨performs_total c hok, fun _ h => performs_effect hok h⟩

/-- A move onto the later part of its own source, which runs downwards, and then a fill. -/
theorem memory_calls_compose_overlap :
    ∃ t, Performs ⟨fun _ => 0, fun _ c => c, 0⟩
      ⟨fun _ => 0, fun _ => 0, 0, 0, fun a => a.setWidth 8⟩ [.memmove 1 0 4, .memset 6 7 3] t ∧
      t.mem 4 = 3 ∧ t.mem 8 = 7 := by
  obtain ⟨⟨t, ht⟩, heffect⟩ := memory_calls_compose ⟨fun _ => 0, fun _ c => c, 0⟩
    ⟨fun _ => 0, fun _ => 0, 0, 0, fun a => a.setWidth 8⟩ [.memmove 1 0 4, .memset 6 7 3]
    (by decide)
  refine ⟨t, ht, ?_, ?_⟩ <;> rw [heffect t ht] <;> decide

end Ece391Kernel
