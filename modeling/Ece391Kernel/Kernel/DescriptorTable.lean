import Ece391Kernel.Kernel.Dispatch
import Ece391Kernel.Kernel.Reads
import Ece391Kernel.Files.Directory

/-!
# What one system call does to the descriptors

`sys_read` changes at most the position of its own descriptor, `sys_write` none at all, `sys_close`
clears the flags of its own, and `sys_open` fills the lowest free one. Each is one specification,
proved for the function that the call goes through.
-/

namespace Ece391Kernel

namespace Kernel

/-- A descriptor of a process. -/
def desc (k : Kernel) (process fd : Nat) : FileDesc := (k.pcb process).fileDesc fd

/-- Every descriptor of every process is unchanged. -/
def SameDescs (k k' : Kernel) : Prop := ∀ q fd, k'.desc q fd = k.desc q fd

/-- Every descriptor but one of one process is unchanged, and so is the image. -/
structure OnlyDesc (k k' : Kernel) (process : Nat) (fd : Int) : Prop where
  others : ∀ q (fd' : Nat), ¬ (q = process ∧ (fd' : Int) = fd) → k'.desc q fd' = k.desc q fd'
  fs : k'.fs = k.fs

variable {k : Kernel} {fs : FileSystem}

theorem setDesc_desc (k : Kernel) (fd : Nat) (d : FileDesc) (q fd' : Nat) :
    (k.setDesc fd d).desc q fd' =
      if q = k.getProcessNumber ∧ fd' = fd then d else k.desc q fd' := by
  simp only [desc, setDesc, setPcb, currentPcb]
  by_cases hq : q = k.getProcessNumber
  · subst hq
    by_cases hfd : fd' = fd
    · subst hfd
      simp
    · simp [hfd]
  · simp [hq]

theorem setDesc_onlyDesc (k : Kernel) (fd : Nat) (d : FileDesc) :
    OnlyDesc k (k.setDesc fd d) k.getProcessNumber fd := by
  refine ⟨fun q fd' hne => ?_, rfl⟩
  rw [setDesc_desc, if_neg]
  rintro ⟨hq, hfd⟩
  exact hne ⟨hq, by rw [hfd]⟩

theorem SameDescs.onlyDesc {k' : Kernel} (h : SameDescs k k') (hfs : k'.fs = k.fs)
    (process : Nat) (fd : Int) : OnlyDesc k k' process fd :=
  ⟨fun q fd' _ => h q fd', hfs⟩

/-! ## Reading -/

/-- A read changes at most the position of its own descriptor, and nothing when it fails. -/
structure ReadSpec (k k' : Kernel) (fd ret : Int) : Prop where
  only : OnlyDesc k k' k.getProcessNumber fd
  own : ∀ fd' : Nat, (fd' : Int) = fd → ∃ pos, k'.desc k.getProcessNumber fd' =
    { k.desc k.getProcessNumber fd' with filePosition := pos }
  failed : ret = -1 → SameDescs k k'

theorem SameDescs.readSpec {k' : Kernel} (h : SameDescs k k') (hfs : k'.fs = k.fs)
    (fd ret : Int) : ReadSpec k k' fd ret :=
  ⟨h.onlyDesc hfs _ _, fun fd' _ => ⟨_, h _ fd'⟩, fun _ => h⟩

/-- The whole address space does not fit in a user page. -/
theorem storeUser_length {k' : Kernel} {buf : Nat} {bytes : List UInt8}
    (h : k.storeUser buf bytes = some k') : bytes.length ≤ fourMb := by
  unfold storeUser at h
  split at h
  · next hnil =>
    rw [hnil]
    exact Nat.zero_le _
  · simp only [Option.bind_eq_bind, Option.bind_eq_some_iff] at h
    obtain ⟨base, hbase, -⟩ := h
    unfold userAddress at hbase
    split at hbase
    · next hin =>
      simp only [oteMb] at hin
      omega
    · cases hbase

/-- `fread` never returns −1: the count would have to be the whole address space. -/
theorem fread_ne {fd buf : Nat} {nbytes : Int} {r : Int × List UInt8 × Kernel}
    (h : k.fread fd buf nbytes = some r) : r.1 ≠ -1 := by
  obtain ⟨val, bytes, k', hread, hstore, rfl⟩ := fread_stores h
  have hlength : bytes.length = val := FileSystem.readData_length hread
  have hpage := storeUser_length hstore
  simp only [fourMb] at hpage
  show i32 val ≠ -1
  rw [i32_of_lt (by omega)]
  omega

theorem fread_spec {fd buf : Nat} {nbytes : Int} {r : Int × List UInt8 × Kernel}
    (h : k.fread fd buf nbytes = some r) : ReadSpec k r.2.2 fd r.1 := by
  have hne := fread_ne h
  obtain ⟨val, bytes, k', -, hstore, rfl⟩ := fread_stores h
  obtain ⟨frames, rfl⟩ := storeUser_frame hstore
  have honly := setDesc_onlyDesc ({ k with frames } : Kernel) fd
    { k.currentPcb.fileDesc fd with
      filePosition := ((k.currentPcb.fileDesc fd).filePosition + val) % 0x100000000 }
  refine ⟨⟨honly.others, honly.fs⟩, fun fd' hfd => ?_, fun hret => absurd hret hne⟩
  obtain rfl : fd' = fd := by omega
  refine ⟨((k.desc k.getProcessNumber fd').filePosition + val) % 0x100000000, ?_⟩
  dsimp only
  rw [setDesc_desc, if_pos ⟨rfl, rfl⟩]
  rfl

theorem terminalRead_same {buf : Nat} {nbytes : Int} {r : Int × List UInt8 × Kernel}
    (h : k.terminalRead buf nbytes = some r) : SameDescs k r.2.2 ∧ r.2.2.fs = k.fs := by
  obtain ⟨n, k', -, hstore, rfl⟩ := terminalRead_stores h
  obtain ⟨frames, rfl⟩ := storeUser_frame hstore
  exact ⟨fun _ _ => rfl, rfl⟩

theorem dirRead_same {buf : Nat} {r : Int × List UInt8 × Kernel}
    (h : k.dirRead buf = some r) : SameDescs k r.2.2 ∧ r.2.2.fs = k.fs := by
  obtain ⟨-, rfl⟩ | ⟨dentry, k', -, hstore, rfl⟩ := dirRead_stores h
  · exact ⟨fun _ _ => rfl, rfl⟩
  · obtain ⟨frames, rfl⟩ := storeUser_frame hstore
    exact ⟨fun _ _ => rfl, rfl⟩

theorem rtcRead_same {r : Int × List UInt8 × Kernel} (h : k.rtcRead = some r) :
    SameDescs k r.2.2 ∧ r.2.2.fs = k.fs := by
  cases h
  exact ⟨fun _ _ => rfl, rfl⟩

theorem sysRead_spec {fd : Int} {buf : Nat} {nbytes : Int} {r : Int × List UInt8 × Kernel}
    (h : k.sysRead fd buf nbytes = some r) : ReadSpec k r.2.2 fd r.1 := by
  have hsame : SameDescs k k := fun _ _ => rfl
  cases sysRead_by h with
  | refused _ heq =>
      rw [heq]
      exact hsame.readSpec rfl _ _
  | terminal _ h =>
      obtain ⟨hs, hfs⟩ := terminalRead_same h
      exact hs.readSpec hfs _ _
  | screen _ heq =>
      rw [heq]
      exact hsame.readSpec rfl _ _
  | file htable h =>
      have hfd : ((fd.toNat : Nat) : Int) = fd := Int.toNat_of_nonneg (readTable_some.1 htable).1
      exact hfd ▸ fread_spec h
  | clock _ h =>
      obtain ⟨hs, hfs⟩ := rtcRead_same h
      exact hs.readSpec hfs _ _
  | dir _ h =>
      obtain ⟨hs, hfs⟩ := dirRead_same h
      exact hs.readSpec hfs _ _

/-! ## Writing and closing -/

theorem sysWrite_same {fd : Int} {buf : Nat} {nbytes : Int} {r : Int × Kernel}
    (h : k.sysWrite fd buf nbytes = some r) : SameDescs k r.2 ∧ r.2.fs = k.fs := by
  cases sysWrite_by h with
  | refused _ _ heq =>
      rw [heq]
      exact ⟨fun _ _ => rfl, rfl⟩
  | terminal _ bytes _ heq =>
      rw [heq]
      exact ⟨fun _ _ => rfl, rfl⟩
  | clock _ freq _ heq =>
      rw [heq]
      exact ⟨fun _ _ => rfl, rfl⟩

/-- Closing through the table changes no descriptor by itself. -/
theorem closeWith_same (k : Kernel) (fot : Fot) :
    SameDescs k (k.closeWith fot).2 ∧ (k.closeWith fot).2.fs = k.fs ∧
      (k.closeWith fot).2.getProcessNumber = k.getProcessNumber := by
  cases fot <;> exact ⟨fun _ _ => rfl, rfl, rfl⟩

/-- A close changes at most its own descriptor, whose flags it clears, and only when it
returns 0; it never closes the terminal. -/
structure CloseSpec (k k' : Kernel) (fd ret : Int) : Prop where
  only : OnlyDesc k k' k.getProcessNumber fd
  own : ∀ fd' : Nat, (fd' : Int) = fd → k'.desc k.getProcessNumber fd' =
    k.desc k.getProcessNumber fd' ∨
    k'.desc k.getProcessNumber fd' = { k.desc k.getProcessNumber fd' with flags := 0 } ∧
      (k.desc k.getProcessNumber fd').fotPtr ≠ some .stdin ∧
      (k.desc k.getProcessNumber fd').fotPtr ≠ some .stdout
  failed : ret ≠ 0 → SameDescs k k'

theorem SameDescs.closeSpec {k' : Kernel} (h : SameDescs k k') (hfs : k'.fs = k.fs)
    (fd ret : Int) : CloseSpec k k' fd ret :=
  ⟨h.onlyDesc hfs _ _, fun fd' _ => .inl (h _ fd'), fun _ => h⟩

theorem sysClose_spec {fd : Int} {r : Int × Kernel} (h : k.sysClose fd = some r) :
    CloseSpec k r.2 fd r.1 := by
  have hsame : SameDescs k k := fun _ _ => rfl
  cases sysClose_by h with
  | refused _ heq =>
      rw [heq]
      exact hsame.closeSpec rfl _ _
  | kept fot _ _ heq =>
      obtain ⟨hs, hfs, -⟩ := closeWith_same k fot
      rw [heq]
      exact hs.closeSpec hfs _ _
  | closed fot htable hret heq =>
      obtain ⟨hlo, -, -, hfot⟩ := readTable_some.1 htable
      obtain ⟨hs, hfs, hnum⟩ := closeWith_same k fot
      have hfd : ((fd.toNat : Nat) : Int) = fd := Int.toNat_of_nonneg hlo
      have honly := setDesc_onlyDesc (k.closeWith fot).2 fd.toNat
        { (k.closeWith fot).2.currentPcb.fileDesc fd.toNat with flags := 0 }
      rw [hfd, hnum] at honly
      rw [heq]
      refine ⟨⟨fun q fd' hne => (honly.others q fd' hne).trans (hs q fd'),
        honly.fs.trans hfs⟩, fun fd' heq => .inr ?_, fun hne => absurd rfl hne⟩
      obtain rfl : fd' = fd.toNat := by omega
      have hcur : (k.closeWith fot).2.currentPcb.fileDesc fd.toNat =
          k.desc k.getProcessNumber fd.toNat := by
        rw [currentPcb, hnum]
        exact hs _ _
      have hfot' : (k.desc k.getProcessNumber fd.toNat).fotPtr = some fot := hfot
      refine ⟨?_, ?_, ?_⟩
      · rw [setDesc_desc, if_pos ⟨hnum.symm, rfl⟩, hcur]
      · rw [hfot']
        rintro ⟨⟩
        exact hret rfl
      · rw [hfot']
        rintro ⟨⟩
        exact hret rfl

/-! ## Opening -/

/-- The operation table for a file type. -/
def tableOf (fileType : Nat) : Fot :=
  if fileType = typeRtc then .rtc else if fileType = typeDir then .dir else .file

theorem firstClosed_none {d : Nat → FileDesc} {i n : Nat} :
    firstClosed d i n = none ↔ ∀ fd, i ≤ fd → fd < i + n → (d fd).flags ≠ 0 := by
  induction n generalizing i with
  | zero =>
      constructor
      · intro _ fd hlo hhi
        omega
      · intro _
        rfl
  | succ n ih =>
      simp only [firstClosed]
      by_cases hi : (d i).flags = 0
      · rw [if_pos hi]
        constructor
        · intro h
          cases h
        · intro h
          exact absurd hi (h i (Nat.le_refl i) (by omega))
      · rw [if_neg hi, ih]
        constructor
        · intro h fd hlo hhi
          by_cases heq : fd = i
          · exact heq ▸ hi
          · exact h fd (by omega) (by omega)
        · intro h fd hlo hhi
          exact h fd (by omega) (by omega)

theorem firstClosed_some {d : Nat → FileDesc} {i n fd : Nat} (h : firstClosed d i n = some fd) :
    i ≤ fd ∧ fd < i + n ∧ (d fd).flags = 0 ∧ ∀ fd', i ≤ fd' → fd' < fd → (d fd').flags ≠ 0 := by
  induction n generalizing i with
  | zero => cases h
  | succ n ih =>
      simp only [firstClosed] at h
      by_cases hi : (d i).flags = 0
      · rw [if_pos hi] at h
        cases h
        refine ⟨Nat.le_refl _, by omega, hi, fun fd' hlo hhi => ?_⟩
        omega
      · rw [if_neg hi] at h
        obtain ⟨hlo, hhi, hzero, hlower⟩ := ih h
        refine ⟨by omega, by omega, hzero, fun fd' hlo' hhi' => ?_⟩
        by_cases heq : fd' = i
        · exact heq ▸ hi
        · exact hlower fd' (by omega) hhi'

/-- The descriptor that `sys_open` chooses: the lowest free one. -/
structure LowestFree (k : Kernel) (process fd : Nat) : Prop where
  lo : 2 ≤ fd
  hi : fd < 8
  free : (k.desc process fd).flags = 0
  lowest : ∀ fd', 2 ≤ fd' → fd' < fd → (k.desc process fd').flags ≠ 0

/-- All of 2 to 7 are in use. -/
def TableFull (k : Kernel) (process : Nat) : Prop :=
  ∀ fd, 2 ≤ fd → fd < 8 → (k.desc process fd).flags ≠ 0

/-- The search for the lowest free descriptor, in the words of the table. -/
theorem firstClosed_lowest {fd : Nat}
    (h : firstClosed k.currentPcb.fileDesc minTask (maxTask - minTask) = some fd) :
    k.LowestFree k.getProcessNumber fd := by
  obtain ⟨hlo, hhi, hzero, hlower⟩ := firstClosed_some h
  simp only [minTask, maxTask] at hlo hhi hlower
  exact ⟨hlo, by omega, hzero, hlower⟩

theorem firstClosed_full
    (h : firstClosed k.currentPcb.fileDesc minTask (maxTask - minTask) = none) :
    k.TableFull k.getProcessNumber := by
  intro fd hlo hhi
  refine firstClosed_none.1 h fd hlo ?_
  simpa using hhi

/-- What `sys_open` does for an entry that was found and a free descriptor. -/
structure OpenSpec (k k' : Kernel) (dentry : Dentry) (fd : Nat) : Prop where
  only : OnlyDesc k k' k.getProcessNumber fd
  own : ∃ inode, k'.desc k.getProcessNumber fd = ⟨some (tableOf dentry.fileType), inode, 0, 1⟩

theorem openAs_spec {dentry : Dentry} (htype : dentry.fileType ≤ 2) (fd : Nat) (d : FileDesc) :
    (k.openAs fd { d with flags := 1, filePosition := 0 } dentry).1 = fd ∧
      OpenSpec k (k.openAs fd { d with flags := 1, filePosition := 0 } dentry).2 dentry fd := by
  have hset : ∀ (k₀ : Kernel) (d' : FileDesc), k₀.pcb = k.pcb → k₀.fs = k.fs →
      k₀.getProcessNumber = k.getProcessNumber →
      (∃ inode, d' = ⟨some (tableOf dentry.fileType), inode, 0, 1⟩) →
      OpenSpec k (k₀.setDesc fd d') dentry fd := by
    rintro k₀ d' hpcb hfs hnum ⟨inode, rfl⟩
    have honly := setDesc_onlyDesc k₀ fd ⟨some (tableOf dentry.fileType), inode, 0, 1⟩
    rw [hnum] at honly
    refine ⟨⟨fun q fd' hne => ?_, honly.fs.trans hfs⟩, inode, ?_⟩
    · rw [honly.others q fd' hne, desc, desc, hpcb]
    · rw [setDesc_desc, if_pos ⟨hnum.symm, rfl⟩]
  unfold openAs
  by_cases hrtc : dentry.fileType = typeRtc
  · rw [if_pos hrtc]
    exact ⟨rfl, hset _ _ rfl rfl rfl ⟨_, by rw [tableOf, if_pos hrtc]⟩⟩
  · rw [if_neg hrtc]
    by_cases hdir : dentry.fileType = typeDir
    · rw [if_pos hdir]
      exact ⟨rfl, hset _ _ rfl rfl rfl ⟨_, by rw [tableOf, if_neg hrtc, if_pos hdir]⟩⟩
    · have hfile : dentry.fileType = typeFile := by
        simp only [typeRtc, typeDir, typeFile] at *
        omega
      rw [if_neg hdir, if_pos hfile]
      exact ⟨rfl, hset _ _ rfl rfl rfl ⟨_, by rw [tableOf, if_neg hrtc, if_neg hdir]⟩⟩

/-- `sys_open` fails exactly when there is no such entry or no free descriptor, and otherwise
opens the lowest free descriptor. -/
theorem sysOpen_cases (dir : Directory fs) (hfs : k.fs = fs) (filename : List UInt8) :
    (dir.lookup filename = none ∨ k.TableFull k.getProcessNumber) ∧
        k.sysOpen filename = some (-1, k) ∨
      ∃ dentry fd k', dir.lookup filename = some dentry ∧ k.LowestFree k.getProcessNumber fd ∧
        k.sysOpen filename = some ((fd : Int), k') ∧ OpenSpec k k' dentry fd := by
  have hfind : k.fs.readDentryByName filename = some (dir.lookup filename) := by
    rw [hfs]
    exact dir.readDentryByName_eq filename
  simp only [sysOpen, hfind, Option.bind_eq_bind, Option.bind_some]
  cases hlookup : dir.lookup filename with
  | none => exact .inl ⟨.inl rfl, rfl⟩
  | some dentry =>
      cases hfree : firstClosed k.currentPcb.fileDesc minTask (maxTask - minTask) with
      | none => exact .inl ⟨.inr (firstClosed_full hfree), rfl⟩
      | some fd =>
          have hopen := openAs_spec (k := k) (dir.lookup_type_le hlookup) fd
            (k.currentPcb.fileDesc fd)
          refine .inr ⟨dentry, fd, _, rfl, firstClosed_lowest hfree, ?_, hopen.2⟩
          rw [← hopen.1]

/-! ## Whole tables -/

/-- Descriptors 0 and 1 are open with the tables of the terminal, and each of 2 to 7 that is open
holds a table and an inode number as `Holds` asks for it. -/
structure DescTable (k : Kernel) (Holds : Nat → Option Fot → Nat → Prop) (process : Nat) :
    Prop where
  stdin : (k.desc process 0).flags = 1 ∧ (k.desc process 0).fotPtr = some .stdin
  stdout : (k.desc process 1).flags = 1 ∧ (k.desc process 1).fotPtr = some .stdout
  files : ∀ fd, 2 ≤ fd → fd < 8 → (k.desc process fd).flags = 0 ∨
    (k.desc process fd).flags = 1 ∧ Holds fd (k.desc process fd).fotPtr (k.desc process fd).inode

namespace DescTable

variable {k' : Kernel} {Holds Holds' : Nat → Option Fot → Nat → Prop} {process : Nat}

/-- A table stays as it should be when each descriptor changes at most its position, or is one of 2
to 7 and is now closed or holds what is asked for. -/
theorem step (h : k.DescTable Holds process)
    (hdesc : ∀ fd, fd < 8 →
      (∃ pos, k'.desc process fd = { k.desc process fd with filePosition := pos }) ∧
        Holds' fd = Holds fd ∨
      2 ≤ fd ∧ ((k'.desc process fd).flags = 0 ∨ (k'.desc process fd).flags = 1 ∧
        Holds' fd (k'.desc process fd).fotPtr (k'.desc process fd).inode)) :
    k'.DescTable Holds' process := by
  refine ⟨?_, ?_, fun fd hlo hhi => ?_⟩
  · rcases hdesc 0 (by omega) with ⟨⟨pos, hpos⟩, -⟩ | ⟨hlo, -⟩
    · rw [hpos]
      exact h.stdin
    · omega
  · rcases hdesc 1 (by omega) with ⟨⟨pos, hpos⟩, -⟩ | ⟨hlo, -⟩
    · rw [hpos]
      exact h.stdout
    · omega
  · rcases hdesc fd hhi with ⟨⟨pos, hpos⟩, hholds⟩ | ⟨-, hnew⟩
    · rw [hpos, hholds]
      exact h.files fd hlo hhi
    · exact hnew

theorem same (h : k.DescTable Holds process) (hs : SameDescs k k') :
    k'.DescTable Holds process :=
  h.step fun fd _ => .inl ⟨⟨_, hs process fd⟩, rfl⟩

theorem read {fd ret : Int} (h : k.DescTable Holds process) (hr : ReadSpec k k' fd ret) :
    k'.DescTable Holds process := by
  refine h.step fun fd' _ => .inl ⟨?_, rfl⟩
  by_cases hown : process = k.getProcessNumber ∧ (fd' : Int) = fd
  · obtain ⟨rfl, hfd⟩ := hown
    exact hr.own fd' hfd
  · exact ⟨_, hr.only.others _ _ hown⟩

theorem close {fd ret : Int} (h : k.DescTable Holds process) (hc : CloseSpec k k' fd ret) :
    k'.DescTable Holds process := by
  refine h.step fun fd' _ => ?_
  by_cases hown : process = k.getProcessNumber ∧ (fd' : Int) = fd
  · obtain ⟨rfl, hfd⟩ := hown
    rcases hc.own fd' hfd with hsame | ⟨hcleared, hin, hout⟩
    · exact .inl ⟨⟨_, hsame⟩, rfl⟩
    · -- Only a descriptor whose table can close is ever cleared, so it is not 0 or 1.
      have h0 : fd' ≠ 0 := by
        rintro rfl
        exact hin h.stdin.2
      have h1 : fd' ≠ 1 := by
        rintro rfl
        exact hout h.stdout.2
      refine .inr ⟨by omega, .inl ?_⟩
      rw [hcleared]
  · exact .inl ⟨⟨_, hc.only.others _ _ hown⟩, rfl⟩

/-- Opening a descriptor of the process that runs. -/
theorem openFile {fd inode : Nat} {fot : Option Fot} (h : k.DescTable Holds process)
    (hlo : 2 ≤ fd) (honly : OnlyDesc k k' k.getProcessNumber fd)
    (hown : k'.desc k.getProcessNumber fd = ⟨fot, inode, 0, 1⟩)
    (hnew : process = k.getProcessNumber → Holds' fd fot inode)
    (hold : ∀ fd', ¬ (process = k.getProcessNumber ∧ fd' = fd) → Holds' fd' = Holds fd') :
    k'.DescTable Holds' process := by
  refine h.step fun fd' _ => ?_
  by_cases hcell : process = k.getProcessNumber ∧ fd' = fd
  · obtain ⟨rfl, rfl⟩ := hcell
    rw [hown]
    exact .inr ⟨hlo, .inr ⟨rfl, hnew rfl⟩⟩
  · have hsame : k'.desc process fd' = k.desc process fd' :=
      honly.others _ _ fun hne => hcell ⟨hne.1, by omega⟩
    exact .inl ⟨⟨_, hsame⟩, hold fd' hcell⟩

end DescTable

end Kernel

end Ece391Kernel
