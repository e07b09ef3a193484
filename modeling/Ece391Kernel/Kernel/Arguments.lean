import Ece391Kernel.Kernel.Nesting

/-!
# The arguments of a program

`sys_execute` splits its command at the first space and keeps the rest in the PCB of the new
process, from where `sys_getargs` copies it out. The round trip is right only for the sizes of
`getargs_iff`: the size is compared with the length without the NUL, as an unsigned number, and one
byte more than the size is cleared.
-/

namespace Ece391Kernel

namespace Kernel

/-! ## `sys_getargs` -/

/-- The value that `sys_getargs` returns and the bytes it stores from `buf` on. With a negative size
the copy is almost 4 GB long and does not return. -/
def getargs (k : Kernel) (buf : Nat) (nbytes : Int) : Option (Int × List UInt8) :=
  if buf = 0 then some (-1, [])
  else if k.currentPcb.arg.getD 0 0 = 0 ∨ u32 nbytes < k.currentPcb.argSize then some (-1, [])
  else
    let n := if (kbBufSizeMax : Int) < nbytes then (kbBufSizeMax : Int) else nbytes
    if n < 0 then none
    else some (0, (List.range n.toNat).map (fun i => k.currentPcb.arg.getD i 0) ++ [0])

/-- `sys_getargs`. -/
def sysGetargs (k : Kernel) (buf : Nat) (nbytes : Int) : Option (Int × List UInt8 × Kernel) := do
  let (val, bytes) ← k.getargs buf nbytes
  let k' ← k.storeUser buf bytes
  some (val, bytes, k')

end Kernel

/-! ## The text of a command -/

/-- The bytes of memory from `command[i]` on. -/
def Spells (command : Nat → UInt8) : Nat → List UInt8 → Prop
  | _, [] => True
  | i, c :: s => command i = c ∧ Spells command (i + 1) s

instance decidableSpells (command : Nat → UInt8) : ∀ i s, Decidable (Spells command i s)
  | _, [] => inferInstanceAs (Decidable True)
  | i, c :: s =>
      have := decidableSpells command (i + 1) s
      inferInstanceAs (Decidable (command i = c ∧ Spells command (i + 1) s))

theorem spells_append {command : Nat → UInt8} {i : Nat} {s t : List UInt8} :
    Spells command i (s ++ t) ↔ Spells command i s ∧ Spells command (i + s.length) t := by
  induction s generalizing i with
  | nil => simp [Spells]
  | cons c s ih =>
      have hindex : i + 1 + s.length = i + (c :: s).length := by
        rw [List.length_cons]
        omega
      rw [List.cons_append, Spells, Spells, ih, hindex, and_assoc]

namespace Kernel

variable {k k' k₁ : Kernel} {rest : List UInt8} {buf : Nat} {nbytes : Int}

/-! ## Copying out -/

/-- Reading an array byte by byte. -/
theorem map_getD_range {l : List UInt8} {n : Nat} (hn : n ≤ l.length) :
    (List.range n).map (fun i => l.getD i 0) = l.take n := by
  refine List.ext_getElem (by simp [hn]) fun i hi hi' => ?_
  have hlt : i < l.length := by
    rw [List.length_map, List.length_range] at hi
    omega
  simp [List.getD_eq_getElem?_getD, List.getElem?_eq_getElem hlt]

/-- The command "shell a". -/
def shellAArgs : ExecArgs where
  command := fun i => (shellName ++ [0x20, 0x61]).getD i 0
  above := []
  fileBuf := []

/-- The base shell starts the command, and the new program enters the kernel. -/
theorem shellAArgs_starts : ∃ (entry : Nat) (k' k₁ : Kernel),
    executingShell.sysExecute shellAArgs = .user entry k' ∧ k₁.getProcessNumber = 1 ∧
    ∃ fileDesc, k₁.pcb 1 = { k'.pcb 1 with fileDesc } := by
  have hstarts : (executingShell.executeNext shellAArgs).isSome = true := by decide +kernel
  obtain ⟨k', hk'⟩ := Option.isSome_iff_exists.1 hstarts
  unfold executeNext at hk'
  split at hk'
  · split at hk'
    · next entry k'' hexec =>
      have hnumber : processNumberOf 0x7FDF00 = 1 := by decide
      exact ⟨entry, k'', { k'' with esp := 0x7FDF00 }, hexec, hnumber, _, rfl⟩
    · cases hk'
  · cases hk'

theorem executingShell_slot : FirstFree executingShell.procArr 1 := by decide

end Kernel

end Ece391Kernel
