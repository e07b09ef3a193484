import Ece391Kernel.Devices.Mapping
import Ece391Kernel.Kernel.Arguments

/-!
# Stores through user pointers

`sys_read`, `sys_getargs` and `sys_vidmap` store through a pointer that the program passes.
`storeCount` is how many bytes each of them stores there, unless a page fault stops it: kernel code
may store to every page that is present, whoever owns it. Only `sys_vidmap` looks at its pointer at
all, and it lets the last four bytes of the page run over. `confined_iff` is when all of the stores
stay in the caller's page.
-/

namespace Ece391Kernel

/-- A system call that stores through a user pointer. -/
inductive UserCall where
  | read (fd : Int) (buf : Nat) (nbytes : Int)
  | getargs (buf : Nat) (nbytes : Int)
  | vidmap (screenStart : Nat)

/-- The pointer. -/
def UserCall.pointer : UserCall → Nat
  | .read _ buf _ => buf
  | .getargs buf _ => buf
  | .vidmap screenStart => screenStart

/-- The size is an `int32_t`. -/
def UserCall.SizeOk : UserCall → Prop
  | .read _ _ nbytes => -0x80000000 ≤ nbytes ∧ nbytes < 0x80000000
  | .getargs _ nbytes => -0x80000000 ≤ nbytes ∧ nbytes < 0x80000000
  | .vidmap _ => True

/-- The range is empty or lies in the user page. -/
def InUserPage (addr n : Nat) : Prop := n = 0 ∨ oteMb ≤ addr ∧ addr + n ≤ oteMb + fourMb

namespace Kernel

variable {k k' : Kernel}

/-- `sys_vidmap`, which stores `ONE_GIG` at `screen_start`. -/
def sysVidmap (k : Kernel) (screenStart : Nat) : Option (Int × List UInt8 × Kernel) :=
  if screenStart < oteMb ∨ oteMb + fourMb < screenStart then some (-1, [], k)
  else do
    let mapped := { k with dev := k.dev.vidmap k.currentPcb.termNumber }
    let k' ← mapped.storeUser screenStart [0, 0, 0, 0x40]
    some (oneGig, [0, 0, 0, 0x40], k')

/-! ## What the calls store -/

/-- `terminal_read` copies the size asked for, at most 128 bytes. -/
def terminalReadCount (nbytes : Int) : Nat :=
  (if (maxBuf : Int) < nbytes then (maxBuf : Int) else nbytes).toNat

/-- `read_data` copies the whole size, as an unsigned number, unless it starts past the end. -/
def freadCount (k : Kernel) (desc : FileDesc) (nbytes : Int) : Nat :=
  match k.fs.inodeLength desc.inode with
  | none => 0
  | some length => if length ≤ desc.filePosition then 0 else u32 nbytes

/-- `dir_read` clears 33 bytes, unless the listing is over. -/
def dirReadCount (k : Kernel) : Nat :=
  match k.fs.readDentryByIndex k.dirLocation with
  | some (some _) => 33
  | _ => 0

/-- `sys_getargs` clears one byte more than it copies; both sizes are unsigned. -/
def getargsCount (k : Kernel) (buf : Nat) (nbytes : Int) : Nat :=
  if buf = 0 then 0
  else if k.currentPcb.arg.getD 0 0 = 0 ∨ u32 nbytes < k.currentPcb.argSize then 0
  else
    let n := if (kbBufSizeMax : Int) < nbytes then (kbBufSizeMax : Int) else nbytes
    max (u32 (n + 1)) (u32 n)

/-- How many bytes the call stores from its pointer on, unless a fault stops it before. -/
def storeCount (k : Kernel) : UserCall → Nat
  | .read fd _ nbytes =>
      match k.readTable fd with
      | some .stdin => terminalReadCount nbytes
      | some .file => k.freadCount (k.currentPcb.fileDesc fd.toNat) nbytes
      | some .dir => k.dirReadCount
      | _ => 0
  | .getargs buf nbytes => k.getargsCount buf nbytes
  | .vidmap screenStart =>
      if screenStart < oteMb ∨ oteMb + fourMb < screenStart then 0 else 4

/-- How many bytes `sys_write` reads from its pointer on. -/
def writeCount (k : Kernel) (fd : Int) (buf : Nat) (nbytes : Int) : Nat :=
  match k.readTable fd with
  | some .stdout => nbytes.toNat
  | some .rtc => if buf = 0 ∨ nbytes ≠ 4 then 0 else 4
  | _ => 0

/-- Every byte that the call stores lies in the user page of the caller. -/
def Confined (k : Kernel) (call : UserCall) : Prop :=
  ∀ i, i < k.storeCount call →
    oteMb ≤ (call.pointer + i) % 0x100000000 ∧
      (call.pointer + i) % 0x100000000 < oteMb + fourMb

/-! ## The stores of calls that return -/

/-- A name has at most 32 bytes. -/
theorem readDentryByIndex_fname {fs : FileSystem} {i : Nat} {dentry : Dentry}
    (h : fs.readDentryByIndex i = some (some dentry)) : dentry.fname.length ≤ 32 := by
  simp only [FileSystem.readDentryByIndex, Option.bind_eq_bind, Option.bind_eq_some_iff] at h
  obtain ⟨count, -, h⟩ := h
  by_cases hcount : count ≤ i
  · rw [if_pos hcount] at h
    cases h
  · rw [if_neg hcount, Option.bind_eq_some_iff] at h
    obtain ⟨entry, -, h⟩ := h
    split_ifs at h
    cases h
    exact Nat.le_trans (List.takeWhile_sublist _).length_le (List.length_take_le _ _)

theorem freadCount_eq {desc : FileDesc} {nbytes : Int} {r : Nat × List UInt8}
    (h : k.fs.readData desc.inode desc.filePosition (u32 nbytes) = some r) :
    r.2.length = k.freadCount desc nbytes := by
  rw [FileSystem.readData_length h]
  simp only [FileSystem.readData, Option.bind_eq_bind, Option.bind_eq_some_iff] at h
  obtain ⟨length, hlength, h⟩ := h
  simp only [freadCount, hlength]
  split_ifs at h ⊢
  · cases h
    rfl
  · simp only [Option.bind_eq_some_iff] at h
    obtain ⟨bytes, -, heq⟩ := h
    cases heq
    rfl

theorem terminalRead_count {buf : Nat} {nbytes : Int} {r : Int × List UInt8 × Kernel}
    (h : k.terminalRead buf nbytes = some r) : r.2.1.length = terminalReadCount nbytes := by
  obtain ⟨n, k', rfl, -, rfl⟩ := terminalRead_stores h
  rw [List.length_map, List.length_range]
  rfl

theorem fread_count {fd buf : Nat} {nbytes : Int} {r : Int × List UInt8 × Kernel}
    (h : k.fread fd buf nbytes = some r) :
    r.2.1.length = k.freadCount (k.currentPcb.fileDesc fd) nbytes := by
  obtain ⟨val, bytes, k', hdata, -, rfl⟩ := fread_stores h
  exact freadCount_eq hdata

theorem dirRead_count {buf : Nat} {r : Int × List UInt8 × Kernel} (h : k.dirRead buf = some r) :
    r.2.1.length = k.dirReadCount := by
  obtain ⟨hend, rfl⟩ | ⟨dentry, k', hfound, -, rfl⟩ := dirRead_stores h
  · rw [dirReadCount, hend]
    rfl
  · have hname := readDentryByIndex_fname hfound
    rw [dirReadCount, hfound]
    simp only [List.length_append, List.length_replicate]
    omega

/-- A `sys_read` that returns has stored this many bytes. -/
theorem sysRead_storeCount {fd : Int} {buf : Nat} {nbytes : Int} {r : Int × List UInt8 × Kernel}
    (h : k.sysRead fd buf nbytes = some r) :
    r.2.1.length = k.storeCount (.read fd buf nbytes) := by
  cases sysRead_by h with
  | refused htable heq =>
      rw [storeCount, htable, heq]
      rfl
  | terminal htable h =>
      rw [storeCount, htable]
      exact terminalRead_count h
  | screen htable heq =>
      rw [storeCount, htable, heq]
      rfl
  | file htable h =>
      rw [storeCount, htable]
      exact fread_count h
  | clock htable h =>
      rw [storeCount, htable]
      cases h
      rfl
  | dir htable h =>
      rw [storeCount, htable]
      exact dirRead_count h

/-- A `sys_getargs` that returns has stored this many bytes. -/
theorem sysGetargs_storeCount {buf : Nat} {nbytes : Int} {r : Int × List UInt8 × Kernel}
    (h : k.sysGetargs buf nbytes = some r) :
    r.2.1.length = k.storeCount (.getargs buf nbytes) := by
  simp only [sysGetargs, Option.bind_eq_bind, Option.bind_eq_some_iff] at h
  obtain ⟨⟨val, bytes⟩, hargs, k', -, heq⟩ := h
  cases heq
  simp only [getargs] at hargs
  simp only [storeCount, getargsCount]
  by_cases hbuf : buf = 0
  · rw [if_pos hbuf] at hargs ⊢
    cases hargs
    rfl
  · rw [if_neg hbuf] at hargs ⊢
    by_cases hcheck : k.currentPcb.arg.getD 0 0 = 0 ∨ u32 nbytes < k.currentPcb.argSize
    · rw [if_pos hcheck] at hargs ⊢
      cases hargs
      rfl
    · have hsize : (if ((kbBufSizeMax : Nat) : Int) < nbytes then ((kbBufSizeMax : Nat) : Int)
          else nbytes) = min nbytes 128 := by
        simp only [kbBufSizeMax]
        omega
      rw [if_neg hcheck] at hargs ⊢
      rw [hsize] at hargs ⊢
      by_cases hneg : min nbytes 128 < 0
      · rw [if_pos hneg] at hargs
        cases hargs
      · rw [if_neg hneg] at hargs
        cases hargs
        simp only [List.length_append, List.length_map, List.length_range, List.length_singleton,
          u32]
        omega

/-- A `sys_vidmap` that returns has stored this many bytes. -/
theorem sysVidmap_storeCount {screenStart : Nat} {r : Int × List UInt8 × Kernel}
    (h : k.sysVidmap screenStart = some r) :
    r.2.1.length = k.storeCount (.vidmap screenStart) := by
  unfold sysVidmap at h
  simp only [storeCount]
  split_ifs at h ⊢
  · cases h
    rfl
  · simp only [Option.bind_eq_bind, Option.bind_eq_some_iff] at h
    obtain ⟨k', -, heq⟩ := h
    cases heq
    rfl

/-! ## When the stores stay in the page -/

/-- A range of addresses, which wrap at 32 bits, lies in the user page. -/
theorem inUserPage_iff {addr n : Nat} (haddr : addr < 0x100000000) :
    (∀ i, i < n → oteMb ≤ (addr + i) % 0x100000000 ∧
      (addr + i) % 0x100000000 < oteMb + fourMb) ↔ InUserPage addr n := by
  simp only [InUserPage, oteMb, fourMb]
  constructor
  · intro h
    by_contra hout
    have hfirst := h 0 (by omega)
    -- the first byte behind the page
    have hlast := h (0x8400000 - addr) (by omega)
    omega
  · rintro (hnone | ⟨hlo, hhi⟩) i hi
    · omega
    · omega

/-- Such stores are carried out. -/
theorem storeUser_of_confined {call : UserCall} (hpointer : call.pointer < 0x100000000)
    (h : k.Confined call) (hpage : k.pageDirectory32 % 2 = 1) {bytes : List UInt8}
    (hlen : bytes.length = k.storeCount call) : ∃ k', k.storeUser call.pointer bytes = some k' := by
  rw [storeUser]
  split_ifs with hnil
  · exact ⟨k, rfl⟩
  · have hpos := List.length_pos_iff.2 hnil
    rcases (inUserPage_iff hpointer).1 h with hnone | ⟨hlo, hhi⟩
    · omega
    · rw [userAddress, if_pos ⟨hlo, by omega, hpage⟩]
      exact ⟨_, rfl⟩

/-- The position is at or past the end of the file, or the file cannot be read. -/
def AtEnd (k : Kernel) (desc : FileDesc) : Prop :=
  ∀ length, k.fs.inodeLength desc.inode = some length → length ≤ desc.filePosition

/-- There is no entry at the position in the directory. -/
def ListingOver (k : Kernel) : Prop :=
  ∀ dentry, k.fs.readDentryByIndex k.dirLocation ≠ some (some dentry)

/-- What the caller must see to: the bytes that the call stores for its size, file position and
arguments fit between its pointer and the end of the page; only pointers of `sys_vidmap` outside
the page are refused. -/
def SafePointer (k : Kernel) : UserCall → Prop
  | .read fd buf nbytes =>
      match k.readTable fd with
      | some .stdin => InUserPage buf (min nbytes 128).toNat
      | some .file => k.AtEnd (k.currentPcb.fileDesc fd.toNat) ∨ InUserPage buf (u32 nbytes)
      | some .dir => k.ListingOver ∨ InUserPage buf 33
      | _ => True
  | .getargs buf nbytes =>
      buf = 0 ∨ k.currentPcb.arg.getD 0 0 = 0 ∨ u32 nbytes < k.currentPcb.argSize ∨
        0 ≤ nbytes ∧ InUserPage buf ((min nbytes 128).toNat + 1)
  | .vidmap screenStart =>
      screenStart + 4 ≤ oteMb + fourMb ∨ oteMb + fourMb < screenStart

theorem confined_read_iff {fd : Int} {buf : Nat} {nbytes : Int} (hbuf : buf < 0x100000000) :
    k.Confined (.read fd buf nbytes) ↔ k.SafePointer (.read fd buf nbytes) := by
  have hrange := fun n => inUserPage_iff (n := n) hbuf
  simp only [Confined, storeCount, UserCall.pointer, hrange, SafePointer]
  cases k.readTable fd with
  | none => exact ⟨fun _ => trivial, fun _ => .inl rfl⟩
  | some fot =>
      cases fot with
      | stdin =>
          have hcount : terminalReadCount nbytes = (min nbytes 128).toNat := by
            simp only [terminalReadCount, maxBuf]
            omega
          simp only [hcount]
      | stdout => exact ⟨fun _ => trivial, fun _ => .inl rfl⟩
      | file =>
          simp only [freadCount, AtEnd]
          cases k.fs.inodeLength (k.currentPcb.fileDesc fd.toNat).inode with
          | none => exact ⟨fun _ => .inl nofun, fun _ => .inl rfl⟩
          | some length =>
              dsimp only
              split_ifs with hend
              · refine ⟨fun _ => .inl ?_, fun _ => .inl rfl⟩
                rintro _ ⟨⟩
                exact hend
              · refine ⟨.inr, fun h => h.resolve_left fun hall => hend (hall length rfl)⟩
      | rtc => exact ⟨fun _ => trivial, fun _ => .inl rfl⟩
      | dir =>
          simp only [dirReadCount, ListingOver]
          cases k.fs.readDentryByIndex k.dirLocation with
          | none => exact ⟨fun _ => .inl nofun, fun _ => .inl rfl⟩
          | some found =>
              cases found with
              | none => exact ⟨fun _ => .inl nofun, fun _ => .inl rfl⟩
              | some dentry =>
                  exact ⟨.inr, fun h => h.resolve_left fun hnone => hnone dentry rfl⟩

theorem confined_getargs_iff {buf : Nat} {nbytes : Int} (hbuf : buf < 0x100000000)
    (hlo : -0x80000000 ≤ nbytes) (hhi : nbytes < 0x80000000) :
    k.Confined (.getargs buf nbytes) ↔ k.SafePointer (.getargs buf nbytes) := by
  have hrange := fun n => inUserPage_iff (n := n) hbuf
  simp only [Confined, storeCount, UserCall.pointer, hrange, SafePointer, getargsCount]
  by_cases hnull : buf = 0
  · rw [if_pos hnull]
    exact ⟨fun _ => .inl hnull, fun _ => .inl rfl⟩
  · rw [if_neg hnull]
    by_cases hcheck : k.currentPcb.arg.getD 0 0 = 0 ∨ u32 nbytes < k.currentPcb.argSize
    · rw [if_pos hcheck]
      exact ⟨fun _ => .inr (or_assoc.1 (.inl hcheck)), fun _ => .inl rfl⟩
    · have hsize : (if ((kbBufSizeMax : Nat) : Int) < nbytes then ((kbBufSizeMax : Nat) : Int)
          else nbytes) = min nbytes 128 := by
        simp only [kbBufSizeMax]
        omega
      rw [if_neg hcheck, hsize, ← or_assoc (b := _ < _), or_iff_right hnull,
        or_iff_right hcheck]
      simp only [InUserPage, oteMb, fourMb, u32]
      omega

theorem confined_vidmap_iff {screenStart : Nat} (hptr : screenStart < 0x100000000) :
    k.Confined (.vidmap screenStart) ↔ k.SafePointer (.vidmap screenStart) := by
  have hrange := fun n => inUserPage_iff (n := n) hptr
  simp only [Confined, storeCount, UserCall.pointer, hrange, SafePointer, InUserPage, oteMb,
    fourMb]
  split_ifs with hrefused
  · omega
  · rw [false_or]
    omega

/-- Every byte that one of the calls stores lies in the caller's page exactly when the caller saw to
it: the calls check nothing but the start of the pointer of `sys_vidmap`. -/
theorem confined_iff (k : Kernel) (call : UserCall) (hptr : call.pointer < 0x100000000)
    (hsize : call.SizeOk) : k.Confined call ↔ k.SafePointer call := by
  cases call with
  | read fd buf nbytes => exact confined_read_iff hptr
  | getargs buf nbytes => exact confined_getargs_iff hptr hsize.1 hsize.2
  | vidmap screenStart => exact confined_vidmap_iff hptr

/-- The process of `readingShell` may read its 40 bytes into its page. -/
theorem confined_iff_shell : readingShell.Confined (.read 2 0x08000000 40) :=
  (confined_iff readingShell (.read 2 0x08000000 40) (by decide) ⟨by decide, by decide⟩).2
    (.inr (.inr (by decide)))

/-- It may also read them over the PCB of the next process. -/
theorem read_over_pcb : ¬ ∀ (k : Kernel) (call : UserCall), call.pointer < 0x100000000 →
    call.SizeOk → k.Confined call := by
  intro h
  have hconfined := h readingShell (.read 2 (pcbLoc 1) 40) (by decide)
    ⟨by decide, by decide⟩
  have hfirst := (hconfined 0 (by decide +kernel)).1
  revert hfirst
  decide

end Kernel

end Ece391Kernel
