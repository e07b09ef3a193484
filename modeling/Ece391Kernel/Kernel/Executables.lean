import Ece391Kernel.Kernel.CommandParsing

/-!
# What `sys_execute` accepts as a program

The check of the executable compares three bytes of a header buffer of 40, whatever the type and the
length of the file, and the loader copies as many bytes as the file has. `execute_ok_iff` is what
the file must be besides, for a program that passes the check to be loaded as it should.
-/

namespace Ece391Kernel

namespace Image

variable {fs : FileSystem} (img : Image fs) {inode n : Nat}

/-- A read at the start of a file that is not empty copies from its first block, whether or not the
file is that long. -/
theorem readData_first (hinode : inode < img.inodes) (hpos : 0 < img.fileLength inode)
    (hn : n ≤ 4096) : fs.readData inode 0 n = some (n, img.fileBytes inode 0 n) := by
  refine img.toRawImage.readData_eq hinode hpos ?_ (by omega) fun i hi => ?_
  · show 4096 * (1 + inode) + 8 + 4 * (0 / 4096) ≤ 4096 * (1 + img.inodes + img.blocks)
    omega
  · have hfirst : (0 + i) / 4096 = 0 := by omega
    rw [hfirst]
    exact img.block_lt inode hinode 0 hpos

/-- The header buffer. An empty file leaves it as it was. -/
def header (args : ExecArgs) (inode : Nat) : List UInt8 :=
  if img.fileLength inode = 0 then args.fileBuf
  else img.fileBytes inode 0 fileBufSize ++ args.fileBuf.drop fileBufSize

/-- The check of `sys_execute` accepts the header. -/
def HeaderAccepted (args : ExecArgs) (inode : Nat) : Prop :=
  (img.header args inode).take 3 = magicNums.take 3

instance (args : ExecArgs) (inode : Nat) : Decidable (img.HeaderAccepted args inode) :=
  inferInstanceAs (Decidable (_ = _))

/-- A program: a regular file with a whole header that begins with the magic number, which fits
between the load address and the end of the user page. -/
structure IsProgram (dentry : Dentry) : Prop where
  regular : dentry.fileType = typeFile
  magic : (img.contents dentry.inodeNum).take 4 = magicNums
  entry : 28 ≤ img.fileLength dentry.inodeNum
  fits : oteMb + userIdx + img.fileLength dentry.inodeNum ≤ oteMb + fourMb

end Image

namespace Kernel

/-- What a call to `sys_execute` may do: return −1, or start the program of that name, with its
contents in the user page from the load address on and nothing stored outside the page, at the entry
point in its header. -/
def ExecuteOk {fs : FileSystem} (img : Image fs) (dir : Directory fs) (k : Kernel)
    (name : List UInt8) (outcome : Outcome) : Prop :=
  match outcome with
  | .fault => False
  | .ret v _ => v = -1
  | .user entry k' => ∃ dentry process, dir.lookup name = some dentry ∧ img.IsProgram dentry ∧
      FirstFree k.procArr process ∧
      k'.loadUser (oteMb + userIdx) (img.fileLength dentry.inodeNum) =
        some (img.contents dentry.inodeNum) ∧
      (∀ a, k'.frames a ≠ k.frames a →
        eightMb + process * fourMb ≤ a ∧ a < eightMb + process * fourMb + fourMb) ∧
      entry = le32 ((img.contents dentry.inodeNum).drop 24)

/-! ## The steps of the call -/

section Steps

variable {fs : FileSystem} {img : Image fs} {dir : Directory fs} {k k' : Kernel} {args : ExecArgs}
  {s name : List UInt8}

/-- The argument loop rejects its text when there is no NUL in time. -/
theorem parseArg_eq_none {command : Nat → UInt8} {i n : Nat} :
    parseArg command i n = none ↔ ∀ j, j < n → command (i + j) ≠ 0 := by
  induction n generalizing i with
  | zero => exact ⟨fun _ _ h => absurd h (Nat.not_lt_zero _), fun _ => rfl⟩
  | succ n ih =>
      rw [parseArg]
      by_cases hzero : command i = 0
      · rw [if_pos hzero]
        constructor
        · intro hsome
          cases hsome
        · exact fun h => absurd hzero (h 0 (Nat.succ_pos n))
      · rw [if_neg hzero, Option.map_eq_none_iff, ih]
        constructor
        · intro h j hj
          cases j with
          | zero => exact hzero
          | succ j =>
              have haddr : i + (j + 1) = i + 1 + j := by omega
              rw [haddr]
              exact h j (Nat.lt_of_succ_lt_succ hj)
        · intro h j hj
          have haddr : i + 1 + j = i + (j + 1) := by omega
          rw [haddr]
          exact h (j + 1) (Nat.succ_lt_succ hj)

/-- There is no NUL within 128 bytes from the argument on. -/
def ArgumentTooLong (args : ExecArgs) (name : List UInt8) : Prop :=
  ∀ i, i < 129 → args.command (name.length + 1 + i) ≠ 0

/-- A name of at most 31 bytes is parsed as such, unless the argument is too long. -/
theorem parse_short (hs : ∀ c ∈ s, c ≠ 0) (hspells : Spells args.command 0 (s ++ [0]))
    (hlength : (nameOf s).length ≤ 31) :
    (args.parse = none ∧ ArgumentTooLong args (nameOf s)) ∨
      ∃ arg, args.parse = some { filename := nameOf s, arg } ∧
        ¬ ArgumentTooLong args (nameOf s) := by
  have hname : parseName args.command 0 (maxFilenameLength + 2) = some (nameOf s) := by
    have hshort : (nameOf s).length < maxFilenameLength + 2 := by
      simp only [maxFilenameLength]
      omega
    by_cases hspace : 0x20 ∈ s
    · have hsplit := split_space hspace
      rw [hsplit, List.append_assoc, List.cons_append] at hspells
      obtain ⟨hfirst, hsep, -⟩ := spells_append.1 hspells
      rw [(nameLoop_eq (nameOf_ne hs) (.inl rfl)
        (spells_append.2 ⟨hfirst, hsep, trivial⟩)).1, if_pos hshort]
    · have hself := nameOf_eq_self hspace
      rw [hself] at hshort ⊢
      rw [(nameLoop_eq (hself ▸ nameOf_ne hs) (.inr rfl) hspells).1, if_pos hshort]
  have hfilename : (nameOf s).length < maxFilenameLength := by
    simp only [maxFilenameLength]
    omega
  simp only [ExecArgs.parse, hname, Option.bind_eq_bind, Option.bind_some, if_pos hfilename]
  cases harg : parseArg args.command ((nameOf s).length + 1) (kbBufSizeMax + 1) with
  | none => exact .inl ⟨rfl, parseArg_eq_none.1 harg⟩
  | some arg =>
      refine .inr ⟨arg, rfl, fun hlong => ?_⟩
      rw [parseArg_eq_none.2 hlong] at harg
      cases harg

/-- The check, for an entry of the directory that names an inode. -/
theorem checkExecutable_eq (args : ExecArgs) {dentry : Dentry}
    (hlookup : dir.lookup name = some dentry) (hinode : dentry.inodeNum < img.inodes) :
    fs.checkExecutable args name = some (if (img.header args dentry.inodeNum).take 3 =
        magicNums.take 3 then
      some { inode := dentry.inodeNum, bufSize := img.fileLength dentry.inodeNum
             entry := le32 ((img.header args dentry.inodeNum).drop 24) }
      else none) := by
  have hfind : fs.readDentryByName name = some (some dentry) := by
    rw [dir.readDentryByName_eq, hlookup]
  have hlength : fs.getFileLengthByName name = some (img.fileLength dentry.inodeNum) := by
    simp only [FileSystem.getFileLengthByName, hfind, Option.bind_eq_bind, Option.bind_some,
      img.inodeLength_eq hinode]
  have hheader : ∃ val bytes, fs.readData dentry.inodeNum 0 fileBufSize = some (val, bytes) ∧
      bytes ++ args.fileBuf.drop bytes.length = img.header args dentry.inodeNum := by
    by_cases hempty : img.fileLength dentry.inodeNum = 0
    · refine ⟨0, [], img.readData_past hinode (Nat.le_of_eq hempty) fileBufSize, ?_⟩
      rw [Image.header, if_pos hempty]
      rfl
    · refine ⟨_, _, img.readData_first hinode (Nat.pos_of_ne_zero hempty) (by decide), ?_⟩
      rw [Image.header, if_neg hempty, img.fileBytes_length]
  obtain ⟨val, bytes, hread, hheader⟩ := hheader
  simp only [FileSystem.checkExecutable, hfind, hlength, hread, Option.bind_eq_bind,
    Option.bind_some, hheader]
  split_ifs <;> rfl

/-- What was stored in the user page can be loaded. -/
theorem loadUser_storeUser {addr : Nat} {bytes : List UInt8}
    (h : k.storeUser addr bytes = some k') : k'.loadUser addr bytes.length = some bytes := by
  unfold storeUser at h
  unfold loadUser
  split at h
  · next hnil =>
    rw [hnil]
    rfl
  · next hne =>
    simp only [Option.bind_eq_bind, Option.bind_eq_some_iff] at h
    obtain ⟨base, hbase, heq⟩ := h
    cases heq
    have hbase' : ∀ frames, ({ k with frames } : Kernel).userAddress addr bytes.length =
        some base := fun _ => hbase
    rw [if_neg (fun hzero => hne (List.eq_nil_of_length_eq_zero hzero)), hbase']
    simp only [Option.bind_eq_bind, Option.bind_some, Option.some.injEq]
    have hbyte : ∀ i, i < bytes.length →
        (if base ≤ base + i ∧ base + i < base + bytes.length then bytes.getD (base + i - base) 0
          else k.frames (base + i)) = bytes.getD i 0 := by
      intro i hi
      rw [if_pos ⟨Nat.le_add_right base i, Nat.add_lt_add_left hi base⟩, Nat.add_sub_cancel_left]
    rw [List.map_congr_left fun i hi => hbyte i (List.mem_range.1 hi),
      map_getD_range (Nat.le_refl _), List.take_length]

/-- The loader, with the frame of a process mapped as the user page: it needs the file to fit, and
stores its contents and nothing outside the frame. -/
theorem loadProgram_cases (hfs : k.fs = fs) {inode : Nat} (hinode : inode < img.inodes)
    (process entry : Nat) :
    (oteMb + userIdx + img.fileLength inode ≤ oteMb + fourMb ∧ ∃ frames,
      (k.setPage (frameEntry process)).loadProgram ⟨inode, img.fileLength inode, entry⟩ =
        some { k.setPage (frameEntry process) with frames } ∧
      ({ k.setPage (frameEntry process) with frames } : Kernel).loadUser (oteMb + userIdx)
        (img.fileLength inode) = some (img.contents inode) ∧
      ∀ a, frames a ≠ k.frames a →
        eightMb + process * fourMb ≤ a ∧ a < eightMb + process * fourMb + fourMb) ∨
    (¬ oteMb + userIdx + img.fileLength inode ≤ oteMb + fourMb ∧
      (k.setPage (frameEntry process)).loadProgram ⟨inode, img.fileLength inode, entry⟩ =
        none) := by
  have hread : ∃ val,
      fs.readData inode 0 (img.fileLength inode) = some (val, img.contents inode) := by
    by_cases hempty : img.fileLength inode = 0
    · have hcontents : img.contents inode = [] := by
        rw [Image.contents, hempty]
        rfl
      rw [hcontents]
      exact ⟨0, img.readData_past hinode (Nat.le_of_eq hempty) _⟩
    · exact ⟨_, img.readData_eq hinode (Nat.pos_of_ne_zero hempty) (by omega)⟩
  obtain ⟨val, hread⟩ := hread
  have hload : (k.setPage (frameEntry process)).loadProgram ⟨inode, img.fileLength inode, entry⟩ =
      (k.setPage (frameEntry process)).storeUser (oteMb + userIdx) (img.contents inode) := by
    simp only [loadProgram, setPage, hfs, hread, Option.bind_eq_bind, Option.bind_some]
  have hlength : (img.contents inode).length = img.fileLength inode := img.fileBytes_length _ _ _
  -- the frame that the page directory entry names
  have hframe : frameEntry process / fourMb * fourMb = eightMb + process * fourMb ∧
      frameEntry process % 2 = 1 := by
    simp only [frameEntry, eightMb, fourMb]
    omega
  rw [hload]
  by_cases hfits : oteMb + userIdx + img.fileLength inode ≤ oteMb + fourMb
  · left
    have haddr : (k.setPage (frameEntry process)).userAddress (oteMb + userIdx)
        (img.contents inode).length = some (eightMb + process * fourMb + userIdx) := by
      rw [userAddress, if_pos ⟨Nat.le_add_right _ _, by rw [hlength]; exact hfits, hframe.2⟩]
      simp only [setPage, hframe.1, Nat.add_sub_cancel_left]
    obtain ⟨k', hk'⟩ : ∃ k', (k.setPage (frameEntry process)).storeUser (oteMb + userIdx)
        (img.contents inode) = some k' := by
      unfold storeUser
      split
      · exact ⟨_, rfl⟩
      · rw [haddr]
        exact ⟨_, rfl⟩
    obtain ⟨frames, rfl⟩ := storeUser_frame hk'
    have hloaded := loadUser_storeUser hk'
    rw [hlength] at hloaded
    refine ⟨hfits, frames, hk', hloaded, fun a hne => ?_⟩
    unfold storeUser at hk'
    split at hk'
    · have hsame : frames = k.frames := congrArg Kernel.frames (Option.some.inj hk').symm
      exact absurd (congrFun hsame a) hne
    · rw [haddr] at hk'
      have hsame := congrArg Kernel.frames (Option.some.inj hk').symm
      have hbyte := congrFun hsame a
      dsimp only at hbyte
      rw [hbyte] at hne
      split_ifs at hne with hin
      · simp only [oteMb, userIdx, fourMb, eightMb] at hin hfits ⊢
        omega
      · exact absurd rfl hne
  · refine .inr ⟨hfits, ?_⟩
    have hne : img.contents inode ≠ [] := by
      intro hnil
      rw [hnil] at hlength
      rw [← hlength] at hfits
      exact hfits (by decide)
    unfold storeUser
    rw [if_neg hne, userAddress, if_neg fun h => hfits (hlength ▸ h.2.1)]
    rfl

/-- The search fails when every slot is taken. -/
theorem findFree_none {procArr : Nat → ProcFlag} {i n : Nat} :
    findFree procArr i n = none ↔ ∀ p, i ≤ p → p < i + n → procArr p ≠ .free := by
  induction n generalizing i with
  | zero => exact ⟨fun _ p hlo hhi => absurd hhi (Nat.not_lt.2 hlo), fun _ => rfl⟩
  | succ n ih =>
      rw [findFree]
      by_cases hi : procArr i = .free
      · rw [if_pos hi]
        constructor
        · intro hsome
          cases hsome
        · exact fun h => absurd hi (h i (Nat.le_refl i) (by omega))
      · rw [if_neg hi, ih]
        constructor
        · intro h p hlo hhi
          by_cases heq : p = i
          · exact heq ▸ hi
          · exact h p (by omega) (by omega)
        · exact fun h p hlo hhi => h p (by omega) (by omega)

end Steps

/-! ## The whole call -/

section Execute

variable {fs : FileSystem} {img : Image fs} {dir : Directory fs} {k : Kernel} {args : ExecArgs}
  {s name : List UInt8}

/-- The entry point in the header buffer is the one in the file, if the file is long enough. -/
theorem entry_header {inode : Nat} (hlength : 28 ≤ img.fileLength inode) :
    le32 ((img.header args inode).drop 24) = le32 ((img.contents inode).drop 24) := by
  have htake : ∀ n, (img.fileBytes inode 0 n).take 28 = img.fileBytes inode 0 (min 28 n) := by
    intro n
    rw [RawImage.fileBytes, ← List.map_take, List.take_range]
    rfl
  have hempty : ¬ img.fileLength inode = 0 := by omega
  refine FileSystem.le32_drop_congr ?_
  rw [Image.header, if_neg hempty, List.take_append_of_le_length (by
    rw [img.fileBytes_length]
    decide), htake, Image.contents, htake, Nat.min_eq_left hlength]
  rfl

theorem sysExecute_eq {process : Nat} (h : findFree k.procArr 0 maxProcesses = some process) :
    k.sysExecute args = (k.setProc process .running).executeIn process args := by
  rw [sysExecute, h]

/-- A command that was parsed and names an entry. -/
theorem executeOk_found (hfs : k.fs = fs) {process : Nat} {arg : List UInt8} {dentry : Dentry}
    (hfree : findFree k.procArr 0 maxProcesses = some process)
    (hparse : args.parse = some { filename := name, arg })
    (hlookup : dir.lookup name = some dentry) (hinode : dentry.inodeNum < img.inodes) :
    ExecuteOk img dir k name (k.sysExecute args) ↔
      (img.HeaderAccepted args dentry.inodeNum → img.IsProgram dentry) := by
  have hcheck := checkExecutable_eq args hlookup hinode
  have hfs' : (k.setProc process .running).fs = fs := hfs
  rw [sysExecute_eq hfree, executeIn, hparse]
  simp only [hfs', hcheck]
  by_cases haccepted : (img.header args dentry.inodeNum).take 3 = magicNums.take 3
  · rw [if_pos haccepted]
    dsimp only
    obtain ⟨hfits, frames, hload, hloaded, hstores⟩ | ⟨hfits, hload⟩ :=
      loadProgram_cases hfs' hinode process (le32 ((img.header args dentry.inodeNum).drop 24))
    · rw [startProgram, hload]
      constructor
      · rintro ⟨dentry', -, hlookup', hprogram, -⟩ -
        rw [hlookup] at hlookup'
        cases hlookup'
        exact hprogram
      · intro hprogram
        have hprogram := hprogram haccepted
        exact ⟨dentry, process, hlookup, hprogram, findFree_first hfree, hloaded, hstores,
          entry_header hprogram.entry⟩
    · rw [startProgram, hload]
      exact ⟨False.elim, fun hprogram => hfits (hprogram haccepted).fits⟩
  · rw [if_neg haccepted]
    exact ⟨fun _ h => absurd h haccepted, fun _ => rfl⟩

/-- For every well-formed image whose directory entries have file types 0 to 2 and name inodes of
the image, and every command whose name has at most 31 bytes: `sys_execute` returns −1 or starts
the program of that name as it is in its file, exactly when no slot is free, the argument is too
long, or the entry with the name, if there is one and the three bytes of its header pass, is a
regular file with a whole header and the whole magic number that fits in the page. -/
theorem execute_ok_iff (img : Image fs) (dir : Directory fs)
    (hinodes : ∀ i, i < dir.count → (FileSystem.dentryOf (dir.entry i)).inodeNum < img.inodes)
    (hfs : k.fs = fs) (hs : ∀ c ∈ s, c ≠ 0) (hspells : Spells args.command 0 (s ++ [0]))
    (hlength : (nameOf s).length ≤ 31) :
    ExecuteOk img dir k (nameOf s) (k.sysExecute args) ↔
      (∀ p, p < maxProcesses → k.procArr p ≠ .free) ∨ ArgumentTooLong args (nameOf s) ∨
        ∀ dentry, dir.lookup (nameOf s) = some dentry →
          img.HeaderAccepted args dentry.inodeNum → img.IsProgram dentry := by
  cases hfree : findFree k.procArr 0 maxProcesses with
  | none =>
      have hcall : k.sysExecute args = .ret (-1) k := by rw [sysExecute, hfree]
      rw [hcall]
      exact ⟨fun _ => .inl fun p hp => findFree_none.1 hfree p (Nat.zero_le p) (by simpa using hp),
        fun _ => rfl⟩
  | some process =>
      have hfirst := findFree_first hfree
      have hslot : ¬ ∀ p, p < maxProcesses → k.procArr p ≠ .free := fun h =>
        h process hfirst.lt hfirst.free
      rw [or_iff_right hslot]
      obtain ⟨hparse, hlong⟩ | ⟨arg, hparse, hshort⟩ := parse_short hs hspells hlength
      -- The argument is too long, and the command is rejected.
      · rw [sysExecute_eq hfree, executeIn, hparse]
        exact ⟨fun _ => .inl hlong, fun _ => rfl⟩
      · rw [or_iff_right hshort]
        cases hlookup : dir.lookup (nameOf s) with
        | none =>
            have hfind : fs.readDentryByName (nameOf s) = some none := by
              rw [dir.readDentryByName_eq, hlookup]
            have hcheck : fs.checkExecutable args (nameOf s) = some none := by
              simp only [FileSystem.checkExecutable, hfind, Option.bind_eq_bind, Option.bind_some]
            have hfs' : (k.setProc process .running).fs = fs := hfs
            rw [sysExecute_eq hfree, executeIn, hparse]
            simp only [hfs', hcheck]
            exact ⟨fun _ => nofun, fun _ => rfl⟩
        | some dentry =>
            have hinode : dentry.inodeNum < img.inodes := by
              obtain ⟨i, hi, -, rfl⟩ := dir.lookup_some hlookup
              exact hinodes i hi
            rw [executeOk_found hfs hfree hparse hlookup hinode]
            constructor
            · rintro h _ ⟨⟩
              exact h
            · exact fun h => h dentry rfl

end Execute

/-- The command "shell a". -/
def shellACommand : List UInt8 := shellName ++ [0x20, 0x61]

theorem shellACommand_spells : Spells shellAArgs.command 0 (shellACommand ++ [0]) := by
  decide +kernel

/-- The file `shell` of the small image is a program. -/
theorem shellImage_program : shellImage.IsProgram ⟨shellName, 2, 0⟩ :=
  ⟨rfl, by decide +kernel, by decide +kernel, by decide +kernel⟩

/-- The base shell starts it. -/
theorem execute_ok_iff_shell : ExecuteOk shellImage shellDirectory executingShell
    (nameOf shellACommand) (executingShell.sysExecute shellAArgs) := by
  have hinodes : ∀ i, i < shellDirectory.count →
      (FileSystem.dentryOf (shellDirectory.entry i)).inodeNum < shellImage.inodes := by
    decide +kernel
  have hlookup : shellDirectory.lookup (nameOf shellACommand) = some ⟨shellName, 2, 0⟩ := by
    decide +kernel
  refine (execute_ok_iff shellImage shellDirectory hinodes rfl (by decide +kernel)
    shellACommand_spells (by decide +kernel)).2 (.inr (.inr fun dentry hdentry _ => ?_))
  rw [hlookup] at hdentry
  cases hdentry
  exact shellImage_program

/-- The small image without the last byte of the magic number. -/
def nearlyBytes : List (Nat × UInt8) := (8195, 0) :: shellBytes

def nearlyFs : FileSystem := smallFs nearlyBytes

def nearlyImage : Image nearlyFs :=
  smallImage nearlyBytes (by decide) (by decide) (by decide) (by decide)

def nearlyDirectory : Directory nearlyFs :=
  smallDirectory nearlyBytes 1 (by decide) (by decide) (by decide)

/-- A file whose first four bytes are not the magic number is started. -/
theorem nearly_program_started : ¬ ∀ (fs : FileSystem) (img : Image fs) (dir : Directory fs)
    (k : Kernel) (args : ExecArgs) (s : List UInt8),
    (∀ i, i < dir.count → (FileSystem.dentryOf (dir.entry i)).inodeNum < img.inodes) →
    k.fs = fs → (∀ c ∈ s, c ≠ 0) → Spells args.command 0 (s ++ [0]) → (nameOf s).length ≤ 31 →
    ExecuteOk img dir k (nameOf s) (k.sysExecute args) := by
  intro h
  have hok := h nearlyFs nearlyImage nearlyDirectory { executingShell with fs := nearlyFs }
    shellAArgs shellACommand (by decide +kernel) rfl (by decide +kernel) shellACommand_spells
    (by decide +kernel)
  have hlookup : nearlyDirectory.lookup (nameOf shellACommand) = some ⟨shellName, 2, 0⟩ := by
    decide +kernel
  have hparse : shellAArgs.parse = some { filename := nameOf shellACommand, arg := [0x61] } := by
    rfl
  have hinode : Dentry.inodeNum ⟨shellName, 2, 0⟩ < nearlyImage.inodes := by decide
  have hprogram := (executeOk_found (k := { executingShell with fs := nearlyFs }) rfl
    executingShell_slot.findFree_eq hparse hlookup hinode).1 hok (by decide +kernel)
  have hmagic := hprogram.magic
  revert hmagic
  decide +kernel

end Kernel

end Ece391Kernel
