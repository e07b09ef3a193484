import Mathlib.Data.List.TakeWhile
import Ece391Kernel.Files.Directory

/-!
# Directory entries in the caller's memory

`read_dentry_by_index` and `read_dentry_by_name` fill a `dentry_t` of their caller, and `dir_read`
copies the name out of one. Here the 64 bytes of that structure are part of the state: a copy of 32
bytes without a NUL runs on into `file_type`, and a lookup that fails leaves all of them alone.
-/

namespace Ece391Kernel

/-! ## Copying strings -/

/-- `strcpy`; `none` when it runs out of the source or of the destination. -/
def strcpy : List UInt8 → List UInt8 → Option (List UInt8)
  | [], _ => none
  | _ :: _, [] => none
  | _ :: dest, c :: src => if c = 0 then some (0 :: dest) else (strcpy dest src).map (c :: ·)

/-- `strncpy`, which pads with NULs; `none` when it runs out of the destination. -/
def strncpy : List UInt8 → List UInt8 → Nat → Option (List UInt8)
  | dest, _, 0 => some dest
  | [], _, _ + 1 => none
  | _ :: dest, src, n + 1 =>
      if src.headD 0 = 0 then (strncpy dest [] n).map (0 :: ·)
      else (strncpy dest src.tail n).map (src.headD 0 :: ·)

/-- Assign the four bytes at an offset. -/
def copyWord (dest src : List UInt8) (o : Nat) : List UInt8 :=
  dest.take o ++ (src.drop o).take 4 ++ dest.drop (o + 4)

/-- `strcpy` copies the string and its NUL. -/
theorem strcpy_eq {dest src : List UInt8} (hsrc : 0 ∈ src)
    (hdest : (cString src).length < dest.length) :
    strcpy dest src = some (cString src ++ 0 :: dest.drop ((cString src).length + 1)) := by
  induction src generalizing dest with
  | nil => cases hsrc
  | cons c src ih =>
      cases dest with
      | nil => cases hdest
      | cons d dest =>
          by_cases hc : c = 0
          · simp [strcpy, cString, hc]
          · have hstring : cString (c :: src) = c :: cString src := by simp [cString, hc]
            have hmem : 0 ∈ src := (List.mem_cons.1 hsrc).resolve_left (Ne.symm hc)
            rw [hstring] at hdest ⊢
            rw [strcpy, if_neg hc, ih hmem (Nat.lt_of_succ_lt_succ hdest)]
            rfl

/-- `strncpy` of a part of a string copies just this part. -/
theorem strncpy_eq {dest src : List UInt8} {n : Nat} (hsrc : n ≤ strlen src)
    (hdest : n ≤ dest.length) : strncpy dest src n = some (src.take n ++ dest.drop n) := by
  induction n generalizing dest src with
  | zero => cases dest <;> rfl
  | succ n ih =>
      cases src with
      | nil => cases hsrc
      | cons c src =>
          have hc : c ≠ 0 := by
            rintro rfl
            cases hsrc
          have hlength : n ≤ strlen src := by simpa [strlen, hc] using hsrc
          cases dest with
          | nil => cases hdest
          | cons d dest =>
              have hhead : (c :: src).headD 0 ≠ 0 := hc
              rw [strncpy, if_neg hhead, List.tail_cons, ih hlength (Nat.le_of_succ_le_succ hdest)]
              rfl

/-- A string ends at its first NUL. -/
theorem cString_append {s rest : List UInt8} (hs : ∀ c ∈ s, c ≠ 0) :
    cString (s ++ 0 :: rest) = s := by
  rw [cString, List.takeWhile_append_of_pos (by simpa using hs)]
  simp

theorem cString_ne {s : List UInt8} : ∀ c ∈ cString s, c ≠ 0 := by
  intro c hc
  exact of_decide_eq_true (List.mem_takeWhile_imp (p := fun b : UInt8 => decide (b ≠ 0)) hc)

theorem cString_length_lt {s : List UInt8} (hs : 0 ∈ s) : (cString s).length < s.length := by
  by_contra hge
  have hsublist : (cString s).Sublist s := List.takeWhile_sublist _
  have hall : cString s = s := hsublist.eq_of_length_le (Nat.not_lt.1 hge)
  exact cString_ne 0 (hall ▸ hs) rfl

/-! ## The functions of `file.c` on the bytes of a `dentry_t` -/

namespace FileSystem

variable (fs : FileSystem)

/-- `read_dentry_by_index`: the value returned, and the bytes of `*dentry` afterwards. -/
def fillDentry (index : Nat) (dentry : List UInt8) : Option (Int × List UInt8) := do
  let count ← fs.dirCount
  if count ≤ index then some (-1, dentry)
  else do
    let entry ← fs.entryBytes index
    let copied ← strcpy (dentry.set 0 (entry.headD 0)) entry
    some (0, copyWord (copyWord copied entry 32) entry 36)

/-- The loop of `read_dentry_by_name`, which does not look at what `read_dentry_by_index`
returns. -/
def searchFill (fname dentry : List UInt8) (i : Nat) : Nat → Option (Int × List UInt8)
  | 0 => some (-1, dentry)
  | n + 1 => do
      let entry ← fs.entryBytes i
      let entryFnameLength := if maxNameLen < strlen entry then maxNameLen else strlen entry
      let compared := if strlen fname < entryFnameLength then entryFnameLength else strlen fname
      if strncmp entry fname compared = 0 then (fs.fillDentry i dentry).map fun r => (0, r.2)
      else searchFill fname dentry (i + 1) n

/-- `read_dentry_by_name`: the value returned, and the bytes of `*dentry` afterwards. -/
def findDentry (fname dentry : List UInt8) : Option (Int × List UInt8) := do
  let dCount ← fs.dirCount
  if maxNameLen < strlen fname then some (-1, dentry)
  else fs.searchFill fname dentry 0 (if dCount < 0x80000000 then dCount else 0)

/-- `dir_read` at `dir_location = location`: the value returned, the bytes at `buf` and the new
`dir_location`. `dentry` is its local variable. -/
def listName (location : Nat) (dentry buf : List UInt8) : Option (Int × List UInt8 × Nat) := do
  let (ret, dentry) ← fs.fillDentry location dentry
  if ret = 0 then do
    let cleared := List.replicate 33 0 ++ buf.drop 33
    let len := if 32 < strlen dentry then 32 else strlen dentry
    let buf ← strncpy cleared dentry len
    some (len, buf, location + 1)
  else some (0, buf, 0)

variable {fs}

/-! ## The entry that is filled -/

theorem le32_take (bytes : List UInt8) : le32 (bytes.take 4) = le32 bytes := by
  simp [le32, List.getD_eq_getElem?_getD]

/-- A word depends on nothing behind it. -/
theorem le32_drop_congr {l l' : List UInt8} {o : Nat} (h : l.take (o + 4) = l'.take (o + 4)) :
    le32 (l.drop o) = le32 (l'.drop o) := by
  have hdrop : ∀ l : List UInt8, (l.drop o).take 4 = (l.take (o + 4)).drop o := by
    intro l
    rw [List.drop_take, Nat.add_sub_cancel_left]
  rw [← le32_take, ← le32_take (l'.drop o), hdrop, hdrop, h]

variable {dest src : List UInt8} {o : Nat}

/-- Assigning a word leaves what lies before it alone. -/
theorem copyWord_take (ho : o ≤ dest.length) : (copyWord dest src o).take o = dest.take o := by
  have hlength : (dest.take o).length = o := List.length_take_of_le ho
  rw [copyWord, List.append_assoc, List.take_left' hlength]

theorem copyWord_word (ho : o ≤ dest.length) (hsrc : o + 4 ≤ src.length) :
    le32 ((copyWord dest src o).drop o) = le32 (src.drop o) := by
  have hlength : (dest.take o).length = o := List.length_take_of_le ho
  have hword : ((src.drop o).take 4).length = 4 := by
    rw [List.length_take, List.length_drop]
    omega
  rw [copyWord, List.append_assoc, List.drop_left' hlength, ← le32_take, List.take_left' hword,
    le32_take]

theorem copyWord_length (ho : o + 4 ≤ dest.length) (hsrc : o + 4 ≤ src.length) :
    (copyWord dest src o).length = dest.length := by
  simp only [copyWord, List.length_append, List.length_take, List.length_drop]
  omega

/-- The two words of an entry, and the name before them. -/
theorem copyWords_dentry (hdest : dest.length = 64) (hsrc : src.length = 64) :
    dentryOf (copyWord (copyWord dest src 32) src 36) =
      { dentryOf src with fname := (dest.take 32).takeWhile (· ≠ 0) } := by
  have htyped : (copyWord dest src 32).length = 64 := by
    rw [copyWord_length (by omega) (by omega), hdest]
  have h36 : (copyWord (copyWord dest src 32) src 36).take 36 = (copyWord dest src 32).take 36 :=
    copyWord_take (by omega)
  have hname : (copyWord (copyWord dest src 32) src 36).take 32 = dest.take 32 := by
    have h32 := congrArg (List.take 32) h36
    rw [List.take_take, List.take_take] at h32
    exact h32.trans (copyWord_take (by omega))
  have htype : le32 ((copyWord (copyWord dest src 32) src 36).drop 32) = le32 (src.drop 32) :=
    (le32_drop_congr h36).trans (copyWord_word (by omega) (by omega))
  have hinode : le32 ((copyWord (copyWord dest src 32) src 36).drop 36) = le32 (src.drop 36) :=
    copyWord_word (by omega) (by omega)
  simp only [dentryOf, maxNameLen, hname, htype, hinode]

/-- An entry in memory is filled with the name, the type and the inode number of the one it is
copied from. -/
theorem fillDentry_eq {index count : Nat} {entry dentry : List UInt8}
    (hcount : fs.dirCount = some count) (hindex : index < count)
    (hentry : fs.entryBytes index = some entry) (hzero : 0 ∈ entry)
    (hdentry : dentry.length = 64) :
    ∃ filled, fs.fillDentry index dentry = some (0, filled) ∧
      dentryOf filled = dentryOf entry := by
  have hlength : entry.length = 64 := loadBytes_length hentry
  have hstring := cString_length_lt hzero
  have hcopy : strcpy (dentry.set 0 (entry.headD 0)) entry =
      some (cString entry ++ 0 :: dentry.drop ((cString entry).length + 1)) := by
    rw [strcpy_eq hzero (by rw [List.length_set]; omega), List.drop_set_of_lt (Nat.succ_pos _)]
  generalize hcopied : cString entry ++ 0 :: dentry.drop ((cString entry).length + 1) = copied
    at hcopy
  have hcopylength : copied.length = 64 := by
    rw [← hcopied]
    simp only [List.length_append, List.length_cons, List.length_drop]
    omega
  have hwords := copyWords_dentry hcopylength hlength
  refine ⟨copyWord (copyWord copied entry 32) entry 36, ?_, ?_⟩
  · simp only [fillDentry, hcount, hentry, hcopy, Option.bind_eq_bind, Option.bind_some,
      if_neg (Nat.not_le.2 hindex)]
  · -- both names end at the first NUL, or after 32 bytes
    have hleft := upToNul_eq copied 32
    rw [← hcopied, cString_append cString_ne, ← upToNul_eq, hcopied] at hleft
    have hsame : (copied.take 32).takeWhile (· ≠ 0) = (entry.take 32).takeWhile (· ≠ 0) := hleft
    rw [hwords, hsame]
    rfl

end FileSystem

namespace Directory

open FileSystem

variable {fs : FileSystem} (dir : Directory fs) {i : Nat} {fname dentry : List UInt8}

/-! ## Looking a name up -/

theorem fillDentry_entry (hi : i < dir.count) (hdentry : dentry.length = 64) :
    ∃ filled, fs.fillDentry i dentry = some (0, filled) ∧
      dentryOf filled = dentryOf (dir.entry i) :=
  fillDentry_eq dir.count_eq hi (dir.entry_eq i hi) (dir.zero_mem_entry hi) hdentry

/-- What a lookup leaves in `*dentry`: an entry, or with −1 what was there. -/
def Fills (dentry : List UInt8) (found : Option Dentry) (r : Int × List UInt8) : Prop :=
  match found with
  | none => r = (-1, dentry)
  | some entry => r.1 = 0 ∧ dentryOf r.2 = entry

/-- The loop fills in the entry that the search finds. -/
theorem searchFill_fills (hlen : strlen fname ≤ 32) (hdentry : dentry.length = 64)
    {found : Option Dentry} {n : Nat} (hn : i + n ≤ dir.count)
    (hfound : fs.searchDentry fname i n = some found) :
    ∃ r, fs.searchFill fname dentry i n = some r ∧ Fills dentry found r := by
  induction n generalizing i with
  | zero =>
      cases hfound
      exact ⟨_, rfl, rfl⟩
  | succ n ih =>
      have hi : i < dir.count := by omega
      simp only [searchDentry, dir.entry_eq i hi, Option.bind_eq_bind, Option.bind_some,
        dir.strncmp_entry hlen] at hfound
      simp only [searchFill, dir.entry_eq i hi, Option.bind_eq_bind, Option.bind_some,
        dir.strncmp_entry hlen]
      by_cases hname : dir.name i = cString fname
      · obtain ⟨filled, hfill, hentry⟩ := dir.fillDentry_entry hi hdentry
        rw [if_pos hname, dir.readDentryByIndex_eq hi] at hfound
        cases hfound
        rw [if_pos hname, hfill]
        exact ⟨_, rfl, rfl, hentry⟩
      · rw [if_neg hname] at hfound
        rw [if_neg hname]
        exact ih (by omega) hfound

/-- `read_dentry_by_name` fills in the first entry with the name. -/
theorem findDentry_fills (fname : List UInt8) (hdentry : dentry.length = 64) :
    ∃ r, fs.findDentry fname dentry = some r ∧ Fills dentry (dir.lookup fname) r := by
  have hfound := dir.readDentryByName_eq fname
  have hcount := dir.count_le
  simp only [readDentryByName, dir.count_eq, Option.bind_eq_bind, Option.bind_some] at hfound
  simp only [findDentry, dir.count_eq, Option.bind_eq_bind, Option.bind_some]
  split_ifs at hfound ⊢ with hlong
  · cases hlookup : dir.lookup fname with
    | none => exact ⟨_, rfl, rfl⟩
    | some entry =>
        rw [hlookup] at hfound
        cases hfound
  · exact dir.searchFill_fills (Nat.not_lt.1 hlong) hdentry (by omega) hfound
  · omega

/-- The lowest entry with a name. -/
structure LowestNamed (fname : List UInt8) (i : Nat) : Prop where
  lt : i < dir.count
  name_eq : dir.name i = cString fname
  lowest : ∀ j, j < i → dir.name j ≠ cString fname

theorem lookup_lowest {entry : Dentry} (h : dir.lookup fname = some entry) :
    ∃ i, dir.LowestNamed fname i ∧ entry = dentryOf (dir.entry i) := by
  simp only [lookup, Option.map_eq_some_iff] at h
  obtain ⟨i, hfind, heq⟩ := h
  rw [List.find?_range_eq_some] at hfind
  obtain ⟨hname, hmem, hlowest⟩ := hfind
  refine ⟨i, ⟨List.mem_range.1 hmem, of_decide_eq_true hname, fun j hj => ?_⟩, heq.symm⟩
  simpa using hlowest j hj

theorem lookup_none (h : dir.lookup fname = none) :
    ∀ i, i < dir.count → dir.name i ≠ cString fname := by
  simp only [lookup, Option.map_eq_none_iff, List.find?_range_eq_none] at h
  intro i hi
  simpa using h i hi

/-- `read_dentry_by_name` returns 0 exactly when an entry has the name, byte for byte, and then
`*dentry` carries the name, the type and the inode number of the lowest one; otherwise it returns
−1, and `*dentry` is untouched. -/
theorem found_iff_named (fname : List UInt8) (hdentry : dentry.length = 64) :
    ∃ ret filled, fs.findDentry fname dentry = some (ret, filled) ∧
      (ret = 0 ↔ ∃ i, i < dir.count ∧ dir.name i = cString fname) ∧
      (ret = 0 → ∃ i, dir.LowestNamed fname i ∧ dentryOf filled = dentryOf (dir.entry i)) ∧
      (ret ≠ 0 → ret = -1 ∧ filled = dentry) := by
  obtain ⟨⟨ret, filled⟩, hfind, hfills⟩ := dir.findDentry_fills fname hdentry
  refine ⟨ret, filled, hfind, ?_⟩
  cases hlookup : dir.lookup fname with
  | none =>
      rw [hlookup] at hfills
      cases hfills
      refine ⟨⟨nofun, ?_⟩, nofun, fun _ => ⟨rfl, rfl⟩⟩
      rintro ⟨i, hi, hname⟩
      exact absurd hname (dir.lookup_none hlookup i hi)
  | some entry =>
      rw [hlookup] at hfills
      obtain ⟨hret, hentry⟩ := hfills
      obtain ⟨i, hlowest, rfl⟩ := dir.lookup_lowest hlookup
      exact ⟨⟨fun _ => ⟨i, hlowest.lt, hlowest.name_eq⟩, fun _ => hret⟩,
        fun _ => ⟨i, hlowest, hentry⟩, fun hne => absurd hret hne⟩

/-- The small image has the name "shell". -/
theorem found_iff_named_shell : ∃ ret filled,
    shellFs.findDentry [0x73, 0x68, 0x65, 0x6C, 0x6C] (List.replicate 64 0xFF) =
      some (ret, filled) ∧ ret = 0 := by
  have hdentry : (List.replicate 64 (0xFF : UInt8)).length = 64 := by decide
  obtain ⟨ret, filled, hfind, hiff, -⟩ :=
    shellDirectory.found_iff_named [0x73, 0x68, 0x65, 0x6C, 0x6C] hdentry
  exact ⟨ret, filled, hfind, hiff.2 ⟨0, by decide, by decide +kernel⟩⟩

/-! ## Listing a name -/

/-- `dir_read` stores the name of the entry, padded to 33 bytes. The clamp to 32 undoes what
`strlen` counts when the name fills its field. -/
theorem listName_eq (hi : i < dir.count) (hdentry : dentry.length = 64) (buf : List UInt8) :
    fs.listName i dentry buf = some (((dir.name i).length : Int),
      dir.name i ++ List.replicate (33 - (dir.name i).length) 0 ++ buf.drop 33, i + 1) := by
  obtain ⟨filled, hfill, hentry⟩ := dir.fillDentry_entry hi hdentry
  have hname : dir.name i = (cString filled).take 32 :=
    (congrArg Dentry.fname hentry).symm.trans (upToNul_eq filled 32)
  have hlen : (if 32 < strlen filled then 32 else strlen filled) = (dir.name i).length := by
    have hstrlen : strlen filled = (cString filled).length := rfl
    rw [hname, List.length_take, hstrlen]
    split <;> omega
  have hle : (dir.name i).length ≤ strlen filled ∧ (dir.name i).length ≤ 32 := by
    have hstrlen : strlen filled = (cString filled).length := rfl
    rw [hname, List.length_take, hstrlen]
    omega
  have htake : filled.take (dir.name i).length = dir.name i := by
    have hprefix : cString filled <+: filled := List.takeWhile_prefix _
    have hnameprefix : dir.name i <+: filled := by
      rw [hname]
      exact (List.take_prefix 32 _).trans hprefix
    exact (List.prefix_iff_eq_take.1 hnameprefix).symm
  have hcleared : (List.replicate 33 (0 : UInt8) ++ buf.drop 33).drop (dir.name i).length =
      List.replicate (33 - (dir.name i).length) 0 ++ buf.drop 33 := by
    rw [List.drop_append_of_le_length (by simp; omega), List.drop_replicate]
  have hcopy : strncpy (List.replicate 33 0 ++ buf.drop 33) filled (dir.name i).length =
      some (dir.name i ++ (List.replicate (33 - (dir.name i).length) 0 ++ buf.drop 33)) := by
    rw [strncpy_eq hle.1 (by simp; omega), htake, hcleared]
  simp only [listName, hfill, Option.bind_eq_bind, Option.bind_some, if_true, hlen, hcopy,
    List.append_assoc]

end Directory

end Ece391Kernel
