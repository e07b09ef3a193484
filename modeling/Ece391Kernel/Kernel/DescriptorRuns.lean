import Ece391Kernel.Kernel.DescriptorTable
import Ece391Kernel.Transition.Run

/-!
# The descriptor tables over sequences of calls

Any processes may make descriptor calls in any order. Calls of different processes may alternate,
and anything that leaves the PCBs and the image alone may happen between two calls. `GoodTable` is
the invariant of the tables, and `CallOk` is what a single call in a reachable state does.
-/

namespace Ece391Kernel

open Transition

/-! ## Calls as events -/

/-- A descriptor system call with its arguments. -/
inductive DescCall where
  | openFile (filename : List UInt8)
  | close (fd : Int)
  | read (fd : Int) (buf : Nat) (nbytes : Int)
  | write (fd : Int) (buf : Nat) (nbytes : Int)

/-- A call by a process, and what it returned. -/
structure DescEvent where
  process : Nat
  call : DescCall
  ret : Int

/-- The kernel, and the file type of the entry at each descriptor's last open. -/
structure Tables where
  kernel : Kernel
  entryType : Nat → Nat → Nat

namespace Kernel

variable {k : Kernel} {fs : FileSystem}

/-- Run a call. -/
def doCall (k : Kernel) : DescCall → Option (Int × Kernel)
  | .openFile filename => k.sysOpen filename
  | .close fd => k.sysClose fd
  | .read fd buf nbytes => (k.sysRead fd buf nbytes).map fun r => (r.1, r.2.2)
  | .write fd buf nbytes => k.sysWrite fd buf nbytes

/-- The process runs again: nothing but PCBs and the image is known to be as before. -/
structure Resumed (k k₀ : Kernel) (process : Nat) : Prop where
  pcb : k₀.pcb = k.pcb
  fs : k₀.fs = k.fs
  running : k₀.getProcessNumber = process

/-- Note the type of the entry that a successful open found. -/
def noteType (dir : Directory fs) (types : Nat → Nat → Nat) (e : DescEvent) : Nat → Nat → Nat :=
  match e.call with
  | .openFile filename =>
      match dir.lookup filename with
      | some dentry =>
          if e.ret = -1 then types
          else Function.update types e.process
            (Function.update (types e.process) e.ret.toNat dentry.fileType)
      | none => types
  | _ => types

/-- One call by one of the running processes. -/
def callStep (dir : Directory fs) (running : Nat → Prop) (s : Tables) (e : DescEvent)
    (s' : Tables) : Prop :=
  running e.process ∧
    (∃ k₀, Resumed s.kernel k₀ e.process ∧ k₀.doCall e.call = some (e.ret, s'.kernel)) ∧
    s'.entryType = noteType dir s.entryType e

/-- Descriptors 0 and 1 are open with the tables of the terminal, and every open one of 2 to 7 has
the table for the type of its entry. -/
structure GoodTable (k : Kernel) (types : Nat → Nat) (process : Nat) : Prop where
  stdin : (k.desc process 0).flags = 1 ∧ (k.desc process 0).fotPtr = some .stdin
  stdout : (k.desc process 1).flags = 1 ∧ (k.desc process 1).fotPtr = some .stdout
  files : ∀ fd, 2 ≤ fd → fd < 8 → (k.desc process fd).flags = 0 ∨
    (k.desc process fd).flags = 1 ∧ (k.desc process fd).fotPtr = some (tableOf (types fd))

/-- The table that `sys_execute` gives to a new process. -/
structure FreshTable (k : Kernel) (process : Nat) : Prop where
  stdin : k.desc process 0 = ⟨some .stdin, 0, 0, 1⟩
  stdout : k.desc process 1 = ⟨some .stdout, 0, 0, 1⟩
  closed : ∀ fd, 2 ≤ fd → fd < 8 → (k.desc process fd).flags = 0

/-- The number names no open descriptor. -/
def BadFd (k : Kernel) (process : Nat) (fd : Int) : Prop :=
  fd < 0 ∨ 8 ≤ fd ∨ (k.desc process fd.toNat).flags = 0

/-- The calls that must fail: a bad descriptor, closing the terminal, reading what is only written
and writing what is only read. -/
def Refused (k : Kernel) (process : Nat) : DescCall → Prop
  | .openFile _ => False
  | .close fd => k.BadFd process fd ∨ fd = 0 ∨ fd = 1
  | .read fd _ _ => k.BadFd process fd ∨ fd = 1
  | .write fd _ _ => k.BadFd process fd ∨ fd = 0 ∨
      (k.desc process fd.toNat).fotPtr = some .file ∨ (k.desc process fd.toNat).fotPtr = some .dir

/-- What one call may do to the descriptors. -/
structure CallOk (dir : Directory fs) (s : Tables) (e : DescEvent) (s' : Tables) : Prop where
  failed : e.ret = -1 → SameDescs s.kernel s'.kernel
  refused : s.kernel.Refused e.process e.call → e.ret = -1
  opened : ∀ filename, e.call = .openFile filename →
    (e.ret = -1 ↔ dir.lookup filename = none ∨ s.kernel.TableFull e.process) ∧
    (e.ret ≠ -1 → ∃ fd : Nat, e.ret = fd ∧ s.kernel.LowestFree e.process fd ∧
      (s'.kernel.desc e.process fd).filePosition = 0 ∧ (s'.kernel.desc e.process fd).flags = 1 ∧
      OnlyDesc s.kernel s'.kernel e.process fd)
  closed : ∀ fd, e.call = .close fd → OnlyDesc s.kernel s'.kernel e.process fd ∧
    (e.ret ≠ 0 → SameDescs s.kernel s'.kernel)
  read : ∀ fd buf nbytes, e.call = .read fd buf nbytes →
    OnlyDesc s.kernel s'.kernel e.process fd ∧
    ∀ fd' : Nat, (fd' : Int) = fd → ∃ pos, s'.kernel.desc e.process fd' =
      { s.kernel.desc e.process fd' with filePosition := pos }
  write : ∀ fd buf nbytes, e.call = .write fd buf nbytes → SameDescs s.kernel s'.kernel

section Calls

variable {dir : Directory fs} {running : Nat → Prop} {s s' : Tables} {e : DescEvent}

/-- Descriptors look the same to a process that runs again. -/
theorem Resumed.desc {k₀ : Kernel} {process : Nat} (h : Resumed k k₀ process) (q fd : Nat) :
    k₀.desc q fd = k.desc q fd := by
  rw [Kernel.desc, Kernel.desc, h.pcb]

theorem Resumed.same {k₀ k' : Kernel} {process : Nat} (h : Resumed k k₀ process)
    (hs : SameDescs k₀ k') : SameDescs k k' :=
  fun q fd => (hs q fd).trans (h.desc q fd)

theorem Resumed.only {k₀ k' : Kernel} {process q : Nat} {fd : Int} (h : Resumed k k₀ process)
    (ho : OnlyDesc k₀ k' q fd) : OnlyDesc k k' q fd :=
  ⟨fun q' fd' hne => (ho.others q' fd' hne).trans (h.desc q' fd'), ho.fs.trans h.fs⟩

/-- An odd flag word and a table: the descriptor is not refused as closed. -/
theorem GoodTable.fot_some {types : Nat → Nat} {process : Nat} (h : k.GoodTable types process)
    {fd : Nat} (hfd : fd < 8) (hopen : ¬ (k.desc process fd).flags % 2 = 0) :
    ∃ fot, (k.desc process fd).fotPtr = some fot := by
  by_cases h0 : fd = 0
  · exact ⟨_, h0 ▸ h.stdin.2⟩
  · by_cases h1 : fd = 1
    · exact ⟨_, h1 ▸ h.stdout.2⟩
    · obtain hzero | ⟨-, hfot⟩ := h.files fd (by omega) hfd
      · rw [hzero] at hopen
        exact absurd rfl hopen
      · exact ⟨_, hfot⟩

/-- `sys_close` always returns. -/
theorem sysClose_returns {types : Nat → Nat} (h : k.GoodTable types k.getProcessNumber)
    (fd : Int) : ∃ r, k.sysClose fd = some r := by
  unfold sysClose
  split_ifs with hrange hclosed
  · exact ⟨_, rfl⟩
  · exact ⟨_, rfl⟩
  · simp only [maxTask] at hrange
    have hlt : fd.toNat < 8 := by omega
    obtain ⟨fot, hfot⟩ := h.fot_some hlt hclosed
    have hfot' : (k.currentPcb.fileDesc fd.toNat).fotPtr = some fot := hfot
    rw [hfot']
    dsimp only
    split <;> exact ⟨_, rfl⟩

/-- `sys_open` always returns. -/
theorem sysOpen_returns (dir : Directory fs) (hfs : k.fs = fs) (filename : List UInt8) :
    ∃ r, k.sysOpen filename = some r := by
  obtain ⟨-, h⟩ | ⟨dentry, fd, k', -, -, h, -⟩ := sysOpen_cases dir hfs filename
  · exact ⟨_, h⟩
  · exact ⟨_, h⟩

/-! ## The invariant -/

theorem GoodTable.table {types : Nat → Nat} {process : Nat} (h : k.GoodTable types process) :
    k.DescTable (fun fd fot _ => fot = some (tableOf (types fd))) process :=
  ⟨h.stdin, h.stdout, h.files⟩

theorem DescTable.good {types : Nat → Nat} {process : Nat}
    (h : k.DescTable (fun fd fot _ => fot = some (tableOf (types fd))) process) :
    k.GoodTable types process :=
  ⟨h.stdin, h.stdout, h.files⟩

/-- A new table holds nothing that could be wrong. -/
theorem FreshTable.table {process : Nat} (h : k.FreshTable process)
    (Holds : Nat → Option Fot → Nat → Prop) : k.DescTable Holds process := by
  refine ⟨?_, ?_, fun fd hlo hhi => .inl (h.closed fd hlo hhi)⟩
  · rw [h.stdin]
    exact ⟨rfl, rfl⟩
  · rw [h.stdout]
    exact ⟨rfl, rfl⟩

theorem GoodTable.openFile {k' : Kernel} {types : Nat → Nat} {process fd : Nat} {dentry : Dentry}
    (h : k.GoodTable types process) (hlo : 2 ≤ fd) (ho : OpenSpec k k' dentry fd) :
    k'.GoodTable (if process = k.getProcessNumber then Function.update types fd dentry.fileType
      else types) process := by
  obtain ⟨inode, hown⟩ := ho.own
  refine (h.table.openFile hlo ho.only hown (fun hprocess => ?_) fun fd' hne => ?_).good
  · rw [if_pos hprocess, Function.update_self]
  · by_cases hprocess : process = k.getProcessNumber
    · rw [if_pos hprocess, Function.update_of_ne fun hfd => hne ⟨hprocess, hfd⟩]
    · rw [if_neg hprocess]

/-! ## Refused calls -/

/-- A good table of the process that runs is good for the state it runs in. -/
theorem Resumed.good {k₀ : Kernel} {process : Nat} {types : Nat → Nat}
    (h : Resumed k k₀ process) (hg : k.GoodTable types process) :
    k₀.GoodTable types k₀.getProcessNumber := by
  rw [h.running]
  exact (hg.table.same fun q fd => h.desc q fd).good

theorem Resumed.badFd {k₀ : Kernel} {process : Nat} {fd : Int} (h : Resumed k k₀ process)
    (hbad : k.BadFd process fd) : k₀.BadFd k₀.getProcessNumber fd := by
  rw [BadFd, h.running, h.desc]
  exact hbad

/-- Nothing dispatches on a descriptor that is out of range or closed. -/
theorem BadFd.readTable {fd : Int} (h : k.BadFd k.getProcessNumber fd) :
    k.readTable fd = none := by
  cases htable : k.readTable fd with
  | none => rfl
  | some fot =>
      obtain ⟨hlo, hhi, hflags, -⟩ := readTable_some.1 htable
      rcases h with hneg | hbig | hzero
      · omega
      · omega
      · have hflags' : (k.desc k.getProcessNumber fd.toNat).flags % 2 = 1 := hflags
        rw [hzero] at hflags'
        cases hflags'

/-- Descriptors 0 and 1 of a good table. -/
theorem GoodTable.readTable_stdin {types : Nat → Nat}
    (h : k.GoodTable types k.getProcessNumber) : k.readTable 0 = some .stdin := by
  obtain ⟨hflags, hfot⟩ := h.stdin
  refine readTable_some.2 ⟨by omega, by omega, ?_, hfot⟩
  show (k.desc k.getProcessNumber 0).flags % 2 = 1
  rw [hflags]

theorem GoodTable.readTable_stdout {types : Nat → Nat}
    (h : k.GoodTable types k.getProcessNumber) : k.readTable 1 = some .stdout := by
  obtain ⟨hflags, hfot⟩ := h.stdout
  refine readTable_some.2 ⟨by omega, by omega, ?_, hfot⟩
  show (k.desc k.getProcessNumber 1).flags % 2 = 1
  rw [hflags]

theorem sysClose_refused {types : Nat → Nat} {fd : Int} {r : Int × Kernel}
    (hg : k.GoodTable types k.getProcessNumber)
    (hrefused : k.Refused k.getProcessNumber (.close fd)) (h : k.sysClose fd = some r) :
    r.1 = -1 := by
  cases sysClose_by h with
  | refused _ heq => rw [heq]
  | kept fot _ _ heq => rw [heq]
  | closed fot htable hret _ =>
      -- a table whose function succeeds: the descriptor is good, and not of the terminal
      rcases hrefused with hbad | rfl | rfl
      · rw [hbad.readTable] at htable
        cases htable
      · rw [hg.readTable_stdin] at htable
        cases htable
        exact absurd rfl hret
      · rw [hg.readTable_stdout] at htable
        cases htable
        exact absurd rfl hret

theorem sysRead_refused {types : Nat → Nat} {fd : Int} {buf : Nat} {nbytes : Int}
    {r : Int × List UInt8 × Kernel} (hg : k.GoodTable types k.getProcessNumber)
    (hrefused : k.Refused k.getProcessNumber (.read fd buf nbytes))
    (h : k.sysRead fd buf nbytes = some r) : r.1 = -1 := by
  have hnone : k.readTable fd = none ∨ k.readTable fd = some .stdout := by
    rcases hrefused with hbad | rfl
    · exact .inl hbad.readTable
    · exact .inr hg.readTable_stdout
  cases sysRead_by h with
  | refused _ heq => rw [heq]
  | screen _ heq => rw [heq]
  | terminal htable _ => simp [htable] at hnone
  | file htable _ => simp [htable] at hnone
  | clock htable _ => simp [htable] at hnone
  | dir htable _ => simp [htable] at hnone

theorem sysWrite_refused {types : Nat → Nat} {fd : Int} {buf : Nat} {nbytes : Int}
    {r : Int × Kernel} (hg : k.GoodTable types k.getProcessNumber)
    (hrefused : k.Refused k.getProcessNumber (.write fd buf nbytes))
    (h : k.sysWrite fd buf nbytes = some r) : r.1 = -1 := by
  -- The terminal and the clock are the only tables that write.
  have hother : ∀ fot, k.readTable fd = some fot → fot = .stdin ∨ fot = .file ∨ fot = .dir := by
    intro fot htable
    have hfot : (k.desc k.getProcessNumber fd.toNat).fotPtr = some fot :=
      (readTable_some.1 htable).2.2.2
    rcases hrefused with hbad | rfl | hfile | hdir
    · rw [hbad.readTable] at htable
      cases htable
    · rw [hg.readTable_stdin] at htable
      exact .inl (Option.some.inj htable).symm
    · exact .inr (.inl (Option.some.inj (hfot.symm.trans hfile)))
    · exact .inr (.inr (Option.some.inj (hfot.symm.trans hdir)))
  cases sysWrite_by h with
  | refused _ _ heq => rw [heq]
  | terminal htable => simpa using hother _ htable
  | clock htable => simpa using hother _ htable

/-! ## One call -/

/-- The invariant of the runs: the image stays, and all the running processes have good tables. -/
def TablesOk (fs : FileSystem) (running : Nat → Prop) (s : Tables) : Prop :=
  s.kernel.fs = fs ∧ ∀ p, running p → s.kernel.GoodTable (s.entryType p) p

/-- Calls that leave the image and the noted types alone keep the invariant when they keep good
tables. -/
theorem TablesOk.call {k' : Kernel} {types' : Nat → Nat → Nat} (h : TablesOk fs running s)
    {k₀ : Kernel} {process : Nat} (hr : Resumed s.kernel k₀ process) (hfs : k'.fs = k₀.fs)
    (htables : ∀ p, running p → k₀.GoodTable (s.entryType p) p → k'.GoodTable (types' p) p) :
    TablesOk fs running ⟨k', types'⟩ :=
  ⟨hfs.trans (hr.fs.trans h.1),
    fun p hp => htables p hp ((h.2 p hp).table.same fun q fd => hr.desc q fd).good⟩

/-- A failed open notes nothing. -/
theorem noteType_failed (dir : Directory fs) (types : Nat → Nat → Nat) (process : Nat)
    (filename : List UInt8) : noteType dir types ⟨process, .openFile filename, -1⟩ = types := by
  dsimp only [noteType]
  cases dir.lookup filename <;> rfl

/-- Each call keeps the invariant. -/
theorem callStep_tablesOk (h : TablesOk fs running s) (hstep : callStep dir running s e s') :
    TablesOk fs running s' := by
  obtain ⟨k', types'⟩ := s'
  obtain ⟨process, call, ret⟩ := e
  obtain ⟨-, ⟨k₀, hr, hcall⟩, htypes⟩ := hstep
  dsimp only at hr hcall htypes
  subst htypes
  cases call with
  | openFile filename =>
      obtain ⟨-, hopen⟩ | ⟨dentry, fd, k'', hlookup, hlowest, hopen, ho⟩ :=
        sysOpen_cases dir (hr.fs.trans h.1) filename
      · rw [doCall, hopen] at hcall
        cases hcall
        refine h.call hr rfl fun p _ hg => ?_
        rw [noteType_failed]
        exact hg
      · rw [doCall, hopen] at hcall
        cases hcall
        refine h.call hr ho.only.fs fun p _ hg => ?_
        have hgood := hg.openFile hlowest.lo ho
        rw [hr.running] at hgood
        have hret : ¬ ((fd : Int) = -1) := by omega
        simp only [noteType, hlookup, if_neg hret, Int.toNat_natCast]
        by_cases hp : p = process
        · subst hp
          rw [if_pos rfl] at hgood
          rw [Function.update_self]
          exact hgood
        · rw [if_neg hp] at hgood
          rw [Function.update_of_ne hp]
          exact hgood
  | close fd =>
      have hc := sysClose_spec hcall
      exact h.call hr hc.only.fs fun p _ hg => (hg.table.close hc).good
  | read fd buf nbytes =>
      simp only [doCall, Option.map_eq_some_iff] at hcall
      obtain ⟨r, hread, heq⟩ := hcall
      cases heq
      have hs := sysRead_spec hread
      exact h.call hr hs.only.fs fun p _ hg => (hg.table.read hs).good
  | write fd buf nbytes =>
      obtain ⟨hsame, hfs⟩ := sysWrite_same hcall
      exact h.call hr hfs fun p _ hg => (hg.table.same hsame).good

section Resumed

variable {k₀ k' : Kernel} {types' : Nat → Nat → Nat} {process : Nat} {ret : Int}
  (hr : Resumed s.kernel k₀ process)

include hr

theorem Resumed.openFile_ok (hfs : k₀.fs = fs) {filename : List UInt8}
    (hcall : k₀.doCall (.openFile filename) = some (ret, k')) :
    CallOk dir s ⟨process, .openFile filename, ret⟩ ⟨k', types'⟩ := by
  obtain ⟨hfails, hopen⟩ | ⟨dentry, fd, k'', hlookup, hlowest, hopen, ho⟩ :=
    sysOpen_cases dir hfs filename
  · rw [doCall, hopen] at hcall
    cases hcall
    refine ⟨fun _ => hr.same fun _ _ => rfl, fun hrefused => hrefused.elim, ?_, nofun, nofun,
      nofun⟩
    rintro _ ⟨⟩
    refine ⟨⟨fun _ => ?_, fun _ => rfl⟩, fun hne => absurd rfl hne⟩
    obtain hnone | hfull := hfails
    · exact .inl hnone
    · refine .inr fun fd hlo hhi => ?_
      rw [← hr.desc, ← hr.running]
      exact hfull fd hlo hhi
  · rw [doCall, hopen] at hcall
    cases hcall
    have hret : ((fd : Nat) : Int) ≠ -1 := by omega
    refine ⟨fun heq => absurd heq hret, fun hrefused => hrefused.elim, ?_, nofun, nofun, nofun⟩
    rintro _ ⟨⟩
    have hfree : s.kernel.LowestFree process fd := by
      obtain ⟨hlo, hhi, hzero, hlower⟩ := hlowest
      rw [hr.running, hr.desc] at hzero
      refine ⟨hlo, hhi, hzero, fun fd' hlo' hhi' => ?_⟩
      have hne := hlower fd' hlo' hhi'
      rw [hr.running, hr.desc] at hne
      exact hne
    have honly := hr.only ho.only
    obtain ⟨inode, hown⟩ := ho.own
    rw [hr.running] at hown honly
    refine ⟨⟨fun heq => absurd heq hret, ?_⟩, fun _ => ⟨fd, rfl, hfree, ?_, ?_, honly⟩⟩
    · rintro (hnone | hfull)
      · rw [hlookup] at hnone
        cases hnone
      · exact absurd hfree.free (hfull fd hfree.lo hfree.hi)
    · show (k'.desc process fd).filePosition = 0
      rw [hown]
    · show (k'.desc process fd).flags = 1
      rw [hown]

theorem Resumed.close_ok {types : Nat → Nat} (hgood : k₀.GoodTable types k₀.getProcessNumber)
    {fd : Int} (hcall : k₀.doCall (.close fd) = some (ret, k')) :
    CallOk dir s ⟨process, .close fd, ret⟩ ⟨k', types'⟩ := by
  have hc := sysClose_spec hcall
  have honly := hr.only hc.only
  rw [hr.running] at honly
  refine ⟨fun hret => hr.same (hc.failed fun hzero => ?_), fun hrefused => ?_, nofun, ?_, nofun,
    nofun⟩
  · have hfailed : ret = -1 := hret
    omega
  · refine sysClose_refused hgood ?_ hcall
    obtain hbad | hterminal := hrefused
    · exact .inl (hr.badFd hbad)
    · exact .inr hterminal
  · rintro _ ⟨⟩
    exact ⟨honly, fun hne => hr.same (hc.failed hne)⟩

theorem Resumed.read_ok {types : Nat → Nat} (hgood : k₀.GoodTable types k₀.getProcessNumber)
    {fd nbytes : Int} {buf : Nat}
    (hcall : k₀.doCall (.read fd buf nbytes) = some (ret, k')) :
    CallOk dir s ⟨process, .read fd buf nbytes, ret⟩ ⟨k', types'⟩ := by
  simp only [doCall, Option.map_eq_some_iff] at hcall
  obtain ⟨r, hread, heq⟩ := hcall
  cases heq
  have hs := sysRead_spec hread
  have honly := hr.only hs.only
  rw [hr.running] at honly
  refine ⟨fun hret => hr.same (hs.failed hret), fun hrefused => ?_, nofun, nofun, ?_, nofun⟩
  · refine sysRead_refused hgood ?_ hread
    obtain hbad | hstdout := hrefused
    · exact .inl (hr.badFd hbad)
    · exact .inr hstdout
  · rintro _ _ _ ⟨⟩
    refine ⟨honly, fun fd' hfd => ?_⟩
    obtain ⟨pos, hpos⟩ := hs.own fd' hfd
    rw [hr.running, hr.desc] at hpos
    exact ⟨pos, hpos⟩

theorem Resumed.write_ok {types : Nat → Nat} (hgood : k₀.GoodTable types k₀.getProcessNumber)
    {fd nbytes : Int} {buf : Nat}
    (hcall : k₀.doCall (.write fd buf nbytes) = some (ret, k')) :
    CallOk dir s ⟨process, .write fd buf nbytes, ret⟩ ⟨k', types'⟩ := by
  obtain ⟨hsame, -⟩ := sysWrite_same hcall
  refine ⟨fun _ => hr.same hsame, fun hrefused => ?_, nofun, nofun, nofun,
    fun _ _ _ _ => hr.same hsame⟩
  refine sysWrite_refused hgood ?_ hcall
  obtain hbad | hstdin | hfile | hdir := hrefused
  · exact .inl (hr.badFd hbad)
  · exact .inr (.inl hstdin)
  · refine .inr (.inr (.inl ?_))
    rw [hr.running, hr.desc]
    exact hfile
  · refine .inr (.inr (.inr ?_))
    rw [hr.running, hr.desc]
    exact hdir

end Resumed

/-- Each call in a state with good tables is as it should be. -/
theorem callStep_ok (h : TablesOk fs running s) (hstep : callStep dir running s e s') :
    CallOk dir s e s' := by
  obtain ⟨k', types'⟩ := s'
  obtain ⟨process, call, ret⟩ := e
  obtain ⟨hrunning, ⟨k₀, hr, hcall⟩, -⟩ := hstep
  dsimp only at hrunning hr hcall
  have hgood := hr.good (h.2 process hrunning)
  cases call with
  | openFile filename => exact hr.openFile_ok (hr.fs.trans h.1) hcall
  | close fd => exact hr.close_ok hgood hcall
  | read fd buf nbytes => exact hr.read_ok hgood hcall
  | write fd buf nbytes => exact hr.write_ok hgood hcall

end Calls

/-! ## Whole sequences -/

/-- Whatever calls the running processes make, from fresh tables on and with buffers in their user
pages: their tables stay good, every call then made is as it should be, and `sys_open` and
`sys_close` always return. -/
theorem descriptors_ok (dir : Directory fs) (running : Nat → Prop) {s₀ s : Tables}
    {es : List DescEvent} (hfs : s₀.kernel.fs = fs)
    (hfresh : ∀ p, running p → s₀.kernel.FreshTable p)
    (hrun : Run (callStep dir running) s₀ es s) :
    (∀ p, running p → s.kernel.GoodTable (s.entryType p) p) ∧
      (∀ e s', callStep dir running s e s' → CallOk dir s e s') ∧
      ∀ p k₀, running p → Resumed s.kernel k₀ p →
        (∀ filename, ∃ r, k₀.sysOpen filename = some r) ∧ ∀ fd, ∃ r, k₀.sysClose fd = some r := by
  have hinv : TablesOk fs running s :=
    Run.invariant (I := TablesOk fs running) (fun _ _ _ h hstep => callStep_tablesOk h hstep) hrun
      ⟨hfs, fun p hp => ((hfresh p hp).table _).good⟩
  refine ⟨hinv.2, fun e s' => callStep_ok hinv, fun p k₀ hp hr => ⟨fun filename => ?_, ?_⟩⟩
  · exact sysOpen_returns dir (hr.fs.trans hinv.1) filename
  · exact sysClose_returns (hr.good (hinv.2 p hp))

/-- The first process with the table that it starts with. -/
def newShell : Kernel :=
  { Kernel.boot shellFs (fun _ => 0) (fun _ => Pcb.zero) (fun _ => 0) 0x7FFF00 0x7FFF80 with
    pcb := fun _ => { Pcb.zero with
      fileDesc := fun fd => if fd = 0 then ⟨some .stdin, 0, 0, 1⟩
        else if fd = 1 then ⟨some .stdout, 0, 0, 1⟩ else ⟨none, 0, 0, 0⟩ } }

/-- Its table is fresh, whatever else is in the kernel. -/
theorem newShell_fresh (h : k.pcb = newShell.pcb) : k.FreshTable 0 := by
  have hdesc : ∀ fd, k.desc 0 fd = newShell.desc 0 fd := by
    intro fd
    rw [desc, desc, h]
  refine ⟨hdesc 0, hdesc 1, fun fd hlo _ => ?_⟩
  have h0 : fd ≠ 0 := by omega
  have h1 : fd ≠ 1 := by omega
  rw [hdesc]
  simp only [desc, newShell, if_neg h0, if_neg h1]

/-- The state after a call that returns. -/
def afterCall (k : Kernel) (call : DescCall) : Kernel := ((k.doCall call).map Prod.snd).getD k

theorem doCall_eq {call : DescCall} {ret : Int} (h : (k.doCall call).map Prod.fst = some ret) :
    k.doCall call = some (ret, k.afterCall call) := by
  obtain ⟨r, hcall, rfl⟩ := Option.map_eq_some_iff.1 h
  rw [afterCall, hcall]
  rfl

/-- A call by the process that is running, with nothing in between. -/
theorem callStep_after (dir : Directory fs) (running : Nat → Prop) (types : Nat → Nat → Nat)
    (e : DescEvent) (hrunning : running e.process) (hprocess : k.getProcessNumber = e.process)
    (h : (k.doCall e.call).map Prod.fst = some e.ret) :
    callStep dir running ⟨k, types⟩ e ⟨k.afterCall e.call, noteType dir types e⟩ :=
  ⟨hrunning, ⟨k, ⟨rfl, rfl, hprocess⟩, doCall_eq h⟩, rfl⟩

/-- The first process opens its own program, fails to close descriptor 0, and closes 2. -/
theorem descriptors_ok_shell : ∃ s : Tables,
    Run (callStep shellDirectory fun p => p = 0) ⟨newShell, fun _ _ => 0⟩
      [⟨0, .openFile shellName, 2⟩, ⟨0, .close 0, -1⟩, ⟨0, .close 2, 0⟩] s ∧
    s.kernel.GoodTable (s.entryType 0) 0 := by
  have hrun := Run.cons (callStep_after (k := newShell) shellDirectory (fun p => p = 0)
      (fun _ _ => 0) ⟨0, .openFile shellName, 2⟩ rfl (by decide) (by decide))
    (.cons (callStep_after _ _ _ ⟨0, .close 0, -1⟩ rfl (by decide +kernel) (by decide +kernel))
      (.single (callStep_after _ _ _ ⟨0, .close 2, 0⟩ rfl (by decide +kernel)
        (by decide +kernel))))
  refine ⟨_, hrun, (descriptors_ok shellDirectory (fun p => p = 0) rfl ?_ hrun).1 0 rfl⟩
  intro p hp
  subst hp
  exact newShell_fresh rfl

end Kernel

end Ece391Kernel
