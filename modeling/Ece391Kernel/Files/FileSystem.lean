import Mathlib.Tactic.Common

/-!
# The read-only file system

`file.c` reads the image that the boot loader placed in memory: a boot block with the directory,
one block for each inode, then the data blocks. Every address is computed in 32 bits. A result of
`none` means that the access does not return: no page is present, or `strcpy` runs out of its
structure.
-/

namespace Ece391Kernel

/-! ## Memory as the file system reads it -/

/-- The byte at each kernel address, where a page is present. -/
abbrev Memory := Nat → Option UInt8

/-- The bytes at `a`, `a + 1`, …; addresses wrap at 32 bits. -/
def loadBytes (m : Memory) (a : Nat) : Nat → Option (List UInt8)
  | 0 => some []
  | n + 1 => do
      let b ← m (a % 0x100000000)
      let bs ← loadBytes m (a + 1) n
      some (b :: bs)

/-- The number that four bytes spell, the lowest byte first. -/
def le32 (bytes : List UInt8) : Nat :=
  (bytes.getD 0 0).toNat + 0x100 * (bytes.getD 1 0).toNat + 0x10000 * (bytes.getD 2 0).toNat +
    0x1000000 * (bytes.getD 3 0).toNat

/-- Read a 32-bit number. -/
def load32 (m : Memory) (a : Nat) : Option Nat := (loadBytes m a 4).map le32

/-! ## C strings -/

/-- `strlen`; a list stands for its bytes followed by NULs. -/
def strlen (s : List UInt8) : Nat := (s.takeWhile (· ≠ 0)).length

/-- A `char`, which is signed. -/
def charValue (c : UInt8) : Int := if c < 0x80 then c.toNat else c.toNat - 0x100

/-- `strncmp`. -/
def strncmp (s₁ s₂ : List UInt8) : Nat → Int
  | 0 => 0
  | n + 1 =>
      let a := s₁.headD 0
      let b := s₂.headD 0
      if a ≠ b ∨ a = 0 then charValue a - charValue b else strncmp s₁.tail s₂.tail n

/-! ## The functions of `file.c` -/

/-- `FOUR_KB`. -/
@[simp] abbrev blockSize : Nat := 4096
@[simp] abbrev maxNameLen : Nat := 32
/-- `TYPE_RTC`, `TYPE_DIR` and `TYPE_FILE`. -/
@[simp] abbrev typeRtc : Nat := 0
@[simp] abbrev typeDir : Nat := 1
@[simp] abbrev typeFile : Nat := 2

/-- `dentry_t` as `read_dentry_by_index` fills it: the name up to its NUL, or all 32 bytes. -/
structure Dentry where
  fname : List UInt8
  fileType : Nat
  inodeNum : Nat
deriving DecidableEq

/-- Memory and the global `boot_block`. -/
structure FileSystem where
  mem : Memory
  bootBlock : Nat

namespace FileSystem

variable (fs : FileSystem)

/-- `boot_block->dir_count`. -/
def dirCount : Option Nat := load32 fs.mem fs.bootBlock

/-- `boot_block->inode_count`. -/
def inodeCount : Option Nat := load32 fs.mem (fs.bootBlock + 4)

/-- The 64 bytes of `boot_block->d_entries[index]`. -/
def entryBytes (index : Nat) : Option (List UInt8) :=
  loadBytes fs.mem (fs.bootBlock + 64 + 64 * index) 64

/-- The directory entry that 64 bytes hold. -/
def dentryOf (entry : List UInt8) : Dentry where
  fname := (entry.take maxNameLen).takeWhile (· ≠ 0)
  fileType := le32 (entry.drop 32)
  inodeNum := le32 (entry.drop 36)

/-- `read_dentry_by_index`; the inner `none` is −1. -/
def readDentryByIndex (index : Nat) : Option (Option Dentry) := do
  let count ← fs.dirCount
  if count ≤ index then some none
  else do
    let entry ← fs.entryBytes index
    -- without a NUL the copy would leave the structure
    if 0 ∈ entry then some (some (dentryOf entry)) else none

/-- The loop of `read_dentry_by_name`, with `n` entries left from `i` on. -/
def searchDentry (fname : List UInt8) (i : Nat) : Nat → Option (Option Dentry)
  | 0 => some none
  | n + 1 => do
      let entry ← fs.entryBytes i
      let entryFnameLength := if maxNameLen < strlen entry then maxNameLen else strlen entry
      let compared := if strlen fname < entryFnameLength then entryFnameLength else strlen fname
      if strncmp entry fname compared = 0 then fs.readDentryByIndex i
      else searchDentry fname (i + 1) n

/-- `read_dentry_by_name`; the inner `none` is −1. `dir_count` is an `int` here. -/
def readDentryByName (fname : List UInt8) : Option (Option Dentry) := do
  let dCount ← fs.dirCount
  if maxNameLen < strlen fname then some none
  else fs.searchDentry fname 0 (if dCount < 0x80000000 then dCount else 0)

/-- The address of an inode. -/
def inodeAddr (inode : Nat) : Nat := blockSize * inode + (blockSize + fs.bootBlock)

/-- `inode_ptr->length`. -/
def inodeLength (inode : Nat) : Option Nat := load32 fs.mem (fs.inodeAddr inode)

/-- Where the data block that `data_block_num[blkIdx]` names begins. -/
def blockAddr (inode blkIdx : Nat) : Option Nat := do
  let num ← load32 fs.mem (fs.inodeAddr inode + 4 + 4 * blkIdx)
  let count ← fs.inodeCount
  some (blockSize * (num + count + 1) + fs.bootBlock)

/-- The loop of `read_data`: what it copies when `length` bytes are left. Every round but the
last copies at least one byte, so more rounds than bytes are enough. -/
def readDataLoop (inode blkIdx bOffset length : Nat) : Nat → Option (List UInt8)
  | 0 => none
  | rounds + 1 => do
      let dest ← fs.blockAddr inode blkIdx
      if length ≤ blockSize - bOffset then loadBytes fs.mem (dest + bOffset) length
      else do
        let block ← loadBytes fs.mem (dest + bOffset) (blockSize - bOffset)
        let rest ← readDataLoop inode (blkIdx + 1) 0 (length - (blockSize - bOffset)) rounds
        some (block ++ rest)

/-- `read_data`: the value returned, and the bytes stored at `buf`. -/
def readData (inode offset length : Nat) : Option (Nat × List UInt8) := do
  let fileLength ← fs.inodeLength inode
  if fileLength ≤ offset then some (0, [])
  else do
    let bytes ← fs.readDataLoop inode (offset / blockSize) (offset % blockSize) length (length + 1)
    some (length, bytes)

/-- `get_file_length_by_name`; without such an entry the inode number is not initialised. -/
def getFileLengthByName (fname : List UInt8) : Option Nat := do
  let found ← fs.readDentryByName fname
  let dentry ← found
  fs.inodeLength dentry.inodeNum

end FileSystem

/-! ## Loading bytes -/

theorem loadBytes_length {m : Memory} {a n : Nat} {bytes : List UInt8}
    (h : loadBytes m a n = some bytes) : bytes.length = n := by
  induction n generalizing a bytes with
  | zero =>
      cases h
      rfl
  | succ n ih =>
      simp only [loadBytes, Option.bind_eq_bind, Option.bind_eq_some_iff] at h
      obtain ⟨b, -, bs, hbs, hcons⟩ := h
      cases hcons
      rw [List.length_cons, ih hbs]

/-- Loading where every byte is known. -/
theorem loadBytes_of_bytes {m : Memory} {a n : Nat} {f : Nat → UInt8}
    (h : ∀ i, i < n → m ((a + i) % 0x100000000) = some (f i)) :
    loadBytes m a n = some ((List.range n).map f) := by
  induction n generalizing a f with
  | zero => rfl
  | succ n ih =>
      have hhead : m (a % 0x100000000) = some (f 0) := h 0 (Nat.succ_pos n)
      have htail : loadBytes m (a + 1) n = some ((List.range n).map fun i => f (i + 1)) := by
        refine ih fun i hi => ?_
        have haddr : a + 1 + i = a + (i + 1) := by omega
        rw [haddr]
        exact h (i + 1) (Nat.succ_lt_succ hi)
      simp only [loadBytes, hhead, htail, Option.bind_eq_bind, Option.bind_some,
        List.range_succ_eq_map, List.map_cons, List.map_map]
      rfl

/-! ## Comparing names -/

theorem charValue_injective {a b : UInt8} (h : charValue a = charValue b) : a = b := by
  have ha := a.toNat_lt
  have hb := b.toNat_lt
  simp only [charValue, UInt8.lt_iff_toNat_lt] at h
  have heq : a.toNat = b.toNat := by
    have h80 : (0x80 : UInt8).toNat = 128 := rfl
    rw [h80] at h
    split at h <;> split at h <;> omega
  exact UInt8.toNat_inj.1 heq

/-- The bytes of a string before its NUL, at most `n` of them. -/
def upToNul (s : List UInt8) (n : Nat) : List UInt8 := (s.take n).takeWhile (· ≠ 0)

/-- `strncmp` is 0 exactly when the first `n` bytes agree up to a NUL. -/
theorem strncmp_eq_zero {s₁ s₂ : List UInt8} {n : Nat} :
    strncmp s₁ s₂ n = 0 ↔ upToNul s₁ n = upToNul s₂ n := by
  induction n generalizing s₁ s₂ with
  | zero => simp [strncmp, upToNul]
  | succ n ih =>
      have hsplit : ∀ s : List UInt8,
          upToNul s (n + 1) = if s.headD 0 = 0 then [] else s.headD 0 :: upToNul s.tail n := by
        intro s
        cases s with
        | nil => simp [upToNul]
        | cons a s =>
            by_cases ha : a = 0
            · simp [upToNul, ha]
            · simp [upToNul, ha]
      rw [hsplit, hsplit]
      simp only [strncmp]
      generalize s₁.headD 0 = a
      generalize s₂.headD 0 = b
      by_cases hab : a = b
      · subst hab
        by_cases hzero : a = 0
        · simp [hzero]
        · simp [hzero, ih]
      · have hne : charValue a - charValue b ≠ 0 := by
          intro hsub
          exact hab (charValue_injective (by omega))
        rw [if_pos (Or.inl hab)]
        constructor
        · intro h
          exact absurd h hne
        · intro h
          split_ifs at h with ha hb hb
          · exact absurd (ha.trans hb.symm) hab
          · exact absurd (List.cons.inj h).1 hab

end Ece391Kernel
