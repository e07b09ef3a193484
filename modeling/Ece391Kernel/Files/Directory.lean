import Ece391Kernel.Files.Image

/-!
# Finding a file by its name

For a directory that can be read and whose entries have file types 0 to 2, `read_dentry_by_name`
is a search for the first entry with that name.
-/

namespace Ece391Kernel

/-- The string before the NUL. -/
def cString (s : List UInt8) : List UInt8 := s.takeWhile (· ≠ 0)

/-- A directory in memory, with its entries. -/
structure Directory (fs : FileSystem) where
  count : Nat
  entry : Nat → List UInt8
  count_eq : fs.dirCount = some count
  count_le : count ≤ 63
  entry_eq : ∀ i, i < count → fs.entryBytes i = some (entry i)
  type_le : ∀ i, i < count → (FileSystem.dentryOf (entry i)).fileType ≤ 2

/-- The directory entries of a small image. -/
def tableEntry (bytes : List (Nat × UInt8)) (i : Nat) : List UInt8 :=
  (List.range 64).map fun j => tableByte bytes (64 + 64 * i + j)

theorem smallFs_entryBytes (bytes : List (Nat × UInt8)) {i : Nat} (hi : i < 63) :
    (smallFs bytes).entryBytes i = some (tableEntry bytes i) := by
  refine loadBytes_of_bytes fun j hj => ?_
  have haddr : (0x500000 + 64 + 64 * i + j) % 0x100000000 = 0x500000 + (64 + 64 * i + j) := by
    omega
  show (smallFs bytes).mem ((0x500000 + 64 + 64 * i + j) % 0x100000000) = _
  rw [haddr, smallFs_mem bytes (by omega)]

theorem smallFs_dirCount (bytes : List (Nat × UInt8)) :
    (smallFs bytes).dirCount = some (word (tableByte bytes) 0) := by
  have hload : loadBytes (smallFs bytes).mem (0x500000 + 0) 4 =
      some ((List.range 4).map fun i => tableByte bytes (0 + i)) := by
    refine loadBytes_of_bytes fun i hi => ?_
    have haddr : (0x500000 + 0 + i) % 0x100000000 = 0x500000 + (0 + i) := by omega
    rw [haddr, smallFs_mem bytes (by omega)]
  show (loadBytes (smallFs bytes).mem (0x500000 + 0) 4).map le32 = _
  rw [hload]
  rfl

/-- The directory of a small image. -/
def smallDirectory (bytes : List (Nat × UInt8)) (count : Nat)
    (hcount : word (tableByte bytes) 0 = count) (hle : word (tableByte bytes) 0 ≤ 63)
    (htypes : ∀ i, i < count → (FileSystem.dentryOf (tableEntry bytes i)).fileType ≤ 2) :
    Directory (smallFs bytes) where
  count := count
  entry := tableEntry bytes
  count_eq := by rw [smallFs_dirCount, hcount]
  count_le := hcount ▸ hle
  entry_eq := fun _ hi => smallFs_entryBytes bytes (Nat.lt_of_lt_of_le hi (hcount ▸ hle))
  type_le := htypes

/-- The directory with the shell. -/
def shellDirectory : Directory shellFs :=
  smallDirectory shellBytes 1 (by decide) (by decide) (by decide)

theorem upToNul_eq (s : List UInt8) (n : Nat) : upToNul s n = (cString s).take n := by
  induction s generalizing n with
  | nil => simp [upToNul, cString]
  | cons a s ih =>
      cases n with
      | zero => simp [upToNul]
      | succ n =>
          have hn := ih n
          simp only [upToNul, cString] at hn ⊢
          by_cases ha : a = 0
          · simp [ha]
          · simpa [ha] using hn

namespace Directory

variable {fs : FileSystem} (dir : Directory fs)

/-- The name of an entry. -/
def name (i : Nat) : List UInt8 := (FileSystem.dentryOf (dir.entry i)).fname

/-- The first entry with a name. -/
def lookup (fname : List UInt8) : Option Dentry :=
  ((List.range dir.count).find? fun i => dir.name i = cString fname).map fun i =>
    FileSystem.dentryOf (dir.entry i)

variable {i : Nat}

/-- The upper bytes of the type are zero. -/
theorem zero_mem_entry (hi : i < dir.count) : 0 ∈ dir.entry i := by
  have hlength : (dir.entry i).length = 64 := loadBytes_length (dir.entry_eq i hi)
  have htype := dir.type_le i hi
  have hbyte : ((dir.entry i).drop 32).getD 1 0 = 0 := by
    apply UInt8.toNat_inj.1
    simp only [FileSystem.dentryOf, le32] at htype
    show _ = 0
    omega
  have hbound : 33 < (dir.entry i).length := by omega
  have hget : ((dir.entry i).drop 32).getD 1 0 = (dir.entry i).get ⟨33, hbound⟩ := by
    rw [List.getD_eq_getElem?_getD, List.getElem?_drop, List.getElem?_eq_getElem hbound]
    rfl
  rw [← hbyte, hget]
  exact List.getElem_mem _

theorem readDentryByIndex_eq (hi : i < dir.count) :
    fs.readDentryByIndex i = some (some (FileSystem.dentryOf (dir.entry i))) := by
  simp only [FileSystem.readDentryByIndex, dir.count_eq, dir.entry_eq i hi, Option.bind_eq_bind,
    Option.bind_some, if_neg (Nat.not_le.2 hi), if_pos (dir.zero_mem_entry hi)]

theorem name_eq (i : Nat) : dir.name i = (cString (dir.entry i)).take 32 :=
  upToNul_eq (dir.entry i) 32

/-- The comparison of `read_dentry_by_name` succeeds exactly for the entry's name. -/
theorem strncmp_entry {fname : List UInt8} (hlen : strlen fname ≤ 32) (i : Nat) :
    strncmp (dir.entry i) fname
      (if strlen fname < (if maxNameLen < strlen (dir.entry i) then maxNameLen
        else strlen (dir.entry i)) then
        (if maxNameLen < strlen (dir.entry i) then maxNameLen else strlen (dir.entry i))
      else strlen fname) = 0 ↔ dir.name i = cString fname := by
  have hentry : strlen (dir.entry i) = (cString (dir.entry i)).length := rfl
  have hfname : strlen fname = (cString fname).length := rfl
  have hclamp : (if maxNameLen < strlen (dir.entry i) then maxNameLen
      else strlen (dir.entry i)) = min (strlen (dir.entry i)) 32 := by
    simp only [maxNameLen]
    split <;> omega
  rw [hclamp, strncmp_eq_zero, upToNul_eq, upToNul_eq, dir.name_eq]
  generalize hm : (if strlen fname < min (strlen (dir.entry i)) 32 then
    min (strlen (dir.entry i)) 32 else strlen fname) = m
  have hmlo : min (strlen (dir.entry i)) 32 ≤ m ∧ strlen fname ≤ m ∧ m ≤ 32 := by
    rw [← hm]
    split <;> omega
  obtain ⟨hme, hmf, hm32⟩ := hmlo
  have hleft : (cString (dir.entry i)).take m = (cString (dir.entry i)).take 32 := by
    by_cases hlong : 32 ≤ strlen (dir.entry i)
    · have hm' : m = 32 := by omega
      rw [hm']
    · rw [List.take_of_length_le (by omega), List.take_of_length_le (by omega)]
  have hright : (cString fname).take m = cString fname := List.take_of_length_le (by omega)
  rw [hleft, hright]

theorem searchDentry_eq {fname : List UInt8} (hlen : strlen fname ≤ 32) (i n : Nat)
    (hn : i + n ≤ dir.count) :
    fs.searchDentry fname i n =
      some (((List.range' i n).find? fun j => dir.name j = cString fname).map fun j =>
        FileSystem.dentryOf (dir.entry j)) := by
  induction n generalizing i with
  | zero => rfl
  | succ n ih =>
      have hi : i < dir.count := by omega
      simp only [FileSystem.searchDentry, dir.entry_eq i hi, Option.bind_eq_bind,
        Option.bind_some, dir.strncmp_entry hlen, List.range'_succ, List.find?_cons]
      by_cases hname : dir.name i = cString fname
      · simp [hname, dir.readDentryByIndex_eq hi]
      · simp [hname, ih (i + 1) (by omega)]

/-- `read_dentry_by_name` finds the first entry with the name. -/
theorem readDentryByName_eq (fname : List UInt8) :
    fs.readDentryByName fname = some (dir.lookup fname) := by
  have hcount := dir.count_le
  simp only [FileSystem.readDentryByName, dir.count_eq, Option.bind_eq_bind, Option.bind_some]
  by_cases hlong : maxNameLen < strlen fname
  · -- no entry has a name that long
    rw [if_pos hlong]
    have hnone : (List.range dir.count).find? (fun j => dir.name j = cString fname) = none := by
      rw [List.find?_eq_none]
      intro j hj heq
      have hlength := congrArg List.length (of_decide_eq_true heq)
      have hstr : strlen fname = (cString fname).length := rfl
      rw [dir.name_eq, List.length_take] at hlength
      simp only [maxNameLen] at hlong
      omega
    rw [lookup, hnone]
    rfl
  · rw [if_neg hlong, if_pos (by omega), dir.searchDentry_eq (Nat.not_lt.1 hlong) 0 _ (by omega),
      lookup, List.range_eq_range']

/-- What `lookup` finds is an entry of the directory. -/
theorem lookup_some {fname : List UInt8} {dentry : Dentry} (h : dir.lookup fname = some dentry) :
    ∃ i, i < dir.count ∧ dir.name i = cString fname ∧
      dentry = FileSystem.dentryOf (dir.entry i) := by
  simp only [lookup, Option.map_eq_some_iff] at h
  obtain ⟨i, hfind, heq⟩ := h
  have hmem := List.mem_of_find?_eq_some hfind
  have hname := List.find?_some hfind
  exact ⟨i, List.mem_range.1 hmem, of_decide_eq_true hname, heq.symm⟩

theorem lookup_type_le {fname : List UInt8} {dentry : Dentry}
    (h : dir.lookup fname = some dentry) : dentry.fileType ≤ 2 := by
  obtain ⟨i, hi, -, rfl⟩ := dir.lookup_some h
  exact dir.type_le i hi

end Directory

end Ece391Kernel
