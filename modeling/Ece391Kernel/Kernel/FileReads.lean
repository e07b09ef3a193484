import Ece391Kernel.Kernel.DescriptorRuns

/-!
# The reads of one file descriptor among other calls

Sequences of descriptor calls of any processes, with the values returned and the bytes stored.
What a descriptor of a regular file returns between its open and its close is a function of the
file and of the descriptor's own requests (`run_reads`), so it is the same as in a run that makes
only these calls (`reads_independent`).
-/

namespace Ece391Kernel

open Transition

/-- A descriptor call by a process, the value returned, and the bytes stored. -/
structure IoEvent where
  process : Nat
  call : DescCall
  ret : Int
  bytes : List UInt8

namespace IoEvent

/-- The number of bytes asked for and the result, if the event reads this descriptor. -/
def readOf (process fd : Nat) (e : IoEvent) : Option (Int × Int × List UInt8) :=
  match e.call with
  | .read fd' _ nbytes =>
      if e.process = process ∧ fd' = fd then some (nbytes, e.ret, e.bytes) else none
  | _ => none

/-- The event closes this descriptor. -/
def Closes (process fd : Nat) (e : IoEvent) : Prop := e.process = process ∧ e.call = .close fd

/-- The reads of a descriptor, in order. -/
def reads (process fd : Nat) (es : List IoEvent) : List (Int × Int × List UInt8) :=
  es.filterMap (readOf process fd)

end IoEvent

/-- What successive reads of a file return, from a position on, for the sizes asked for. -/
def FileSystem.readSeq (fs : FileSystem) (inode pos : Nat) :
    List Int → Option (List (Int × Int × List UInt8))
  | [] => some []
  | n :: ns => do
      let (val, bytes) ← fs.readData inode pos (u32 n)
      let rest ← readSeq fs inode ((pos + val) % 0x100000000) ns
      some ((n, i32 val, bytes) :: rest)

namespace Kernel

/-- Run a call, and say what it stores. -/
def doIo (k : Kernel) : DescCall → Option (Int × List UInt8 × Kernel)
  | .read fd buf nbytes => k.sysRead fd buf nbytes
  | call => (k.doCall call).map fun r => (r.1, [], r.2)

/-- One call by any process. Anything that leaves the PCBs, the image and the directory position
alone may happen before it. -/
def ioStep (k : Kernel) (e : IoEvent) (k' : Kernel) : Prop :=
  ∃ k₀, Resumed k k₀ e.process ∧ k₀.dirLocation = k.dirLocation ∧
    k₀.doIo e.call = some (e.ret, e.bytes, k')

variable {k k₀ k' : Kernel} {e : IoEvent} {process fd : Nat}

/-- An open descriptor of a regular file. -/
def openDesc (inode pos : Nat) : FileDesc := ⟨some .file, inode, pos, 1⟩

/-! ## One call -/

/-- `sys_open` changes nothing, or one descriptor that has no flags. -/
theorem sysOpen_only {filename : List UInt8} {r : Int × Kernel}
    (h : k.sysOpen filename = some r) :
    r.2 = k ∨ ∃ fd : Nat, (k.desc k.getProcessNumber fd).flags = 0 ∧
      OnlyDesc k r.2 k.getProcessNumber fd := by
  cases sysOpen_by h with
  | missing _ heq =>
      rw [heq]
      exact .inl rfl
  | full _ heq =>
      rw [heq]
      exact .inl rfl
  | found dentry fd _ hfree heq =>
      obtain ⟨-, -, hzero, -⟩ := firstClosed_some hfree
      refine .inr ⟨fd, hzero, ?_⟩
      rw [heq]
      unfold openAs
      split_ifs
      · have honly := setDesc_onlyDesc ({ k with dev := k.dev.rtcOpen.2 } : Kernel) fd
          ⟨some .rtc, 0xFFFFFFFF, 0, 1⟩
        exact ⟨honly.others, honly.fs⟩
      · exact setDesc_onlyDesc _ fd _
      · exact setDesc_onlyDesc _ fd _
      · exact setDesc_onlyDesc _ fd _

/-- A successful open of a regular file. -/
theorem sysOpen_file {filename : List UInt8} {dentry : Dentry}
    (hfind : k.fs.readDentryByName filename = some (some dentry))
    (htype : dentry.fileType = typeFile) (h : k.sysOpen filename = some ((fd : Int), k')) :
    k'.desc k.getProcessNumber fd = openDesc dentry.inodeNum 0 ∧ k'.fs = k.fs ∧ fd < 8 := by
  simp only [sysOpen, hfind, Option.bind_eq_bind, Option.bind_some] at h
  cases hfree : firstClosed k.currentPcb.fileDesc minTask (maxTask - minTask) with
  | none =>
      rw [hfree] at h
      cases h
  | some fd' =>
      have hrtc : ¬ dentry.fileType = typeRtc := by rw [htype]; decide
      have hdir : ¬ dentry.fileType = typeDir := by rw [htype]; decide
      obtain ⟨-, hlt, -, -⟩ := firstClosed_some hfree
      simp only [hfree, openAs, if_neg hrtc, if_neg hdir, if_pos htype] at h
      obtain ⟨hfd, hk⟩ := Prod.mk.inj (Option.some.inj h)
      obtain rfl : fd' = fd := by omega
      subst hk
      refine ⟨?_, rfl, hlt⟩
      rw [setDesc_desc, if_pos ⟨rfl, rfl⟩]
      rfl

/-- `sys_read` on an open descriptor of a regular file is `fread`. -/
theorem sysRead_openDesc {inode pos : Nat} (hfd : fd < 8)
    (hdesc : k.desc k.getProcessNumber fd = openDesc inode pos) (buf : Nat) (nbytes : Int) :
    k.sysRead fd buf nbytes = k.fread fd buf nbytes := by
  have htable : k.readTable fd = some .file := by
    have hdesc' : k.currentPcb.fileDesc (fd : Int).toNat = openDesc inode pos := hdesc
    rw [readTable_some, hdesc']
    exact ⟨by omega, by omega, rfl, rfl⟩
  exact sysRead_of_table htable buf nbytes

/-- A read of an open descriptor of a regular file. -/
theorem fread_openDesc {inode pos buf : Nat} {nbytes ret : Int} {bytes : List UInt8}
    (hdesc : k.desc k.getProcessNumber fd = openDesc inode pos)
    (h : k.fread fd buf nbytes = some (ret, bytes, k')) :
    ∃ val, k.fs.readData inode pos (u32 nbytes) = some (val, bytes) ∧ ret = i32 val ∧
      k'.desc k.getProcessNumber fd = openDesc inode ((pos + val) % 0x100000000) := by
  have hdesc' : k.currentPcb.fileDesc fd = openDesc inode pos := hdesc
  obtain ⟨val, data, k₁, hread, hstore, heq⟩ := fread_stores h
  rw [hdesc'] at hread heq
  obtain ⟨frames, rfl⟩ := storeUser_frame hstore
  cases heq
  refine ⟨val, hread, rfl, ?_⟩
  rw [setDesc_desc, if_pos ⟨rfl, rfl⟩]
  rfl

/-- Whether a store succeeds depends on the mapping of the user page only. -/
theorem storeUser_again {k₂ : Kernel} {buf : Nat} {bytes : List UInt8}
    (hpage : k₂.pageDirectory32 = k.pageDirectory32) (h : k.storeUser buf bytes = some k') :
    ∃ k'', k₂.storeUser buf bytes = some k'' := by
  unfold storeUser at h ⊢
  by_cases hnil : bytes = []
  · rw [if_pos hnil]
    exact ⟨_, rfl⟩
  · rw [if_neg hnil] at h ⊢
    have haddress : k₂.userAddress buf bytes.length = k.userAddress buf bytes.length := by
      simp only [userAddress, hpage]
    simp only [Option.bind_eq_bind, Option.bind_eq_some_iff] at h
    obtain ⟨base, hbase, -⟩ := h
    rw [haddress, hbase]
    exact ⟨_, rfl⟩

/-- The same read returns the same in every state with the same descriptor and image. -/
theorem fread_again {inode pos buf : Nat} {nbytes ret : Int} {bytes : List UInt8}
    (hdesc : k.desc k.getProcessNumber fd = openDesc inode pos)
    (h : k.fread fd buf nbytes = some (ret, bytes, k')) (pcb : Nat → Pcb) (location : Nat)
    (hpcb : (pcb k.getProcessNumber).fileDesc fd = openDesc inode pos) :
    ∃ k'', ({ k with pcb := pcb, dirLocation := location } : Kernel).fread fd buf nbytes =
      some (ret, bytes, k'') := by
  have hdesc' : k.currentPcb.fileDesc fd = openDesc inode pos := hdesc
  generalize hk₂ : ({ k with pcb := pcb, dirLocation := location } : Kernel) = k₂
  have hpcb' : k₂.currentPcb.fileDesc fd = openDesc inode pos := hk₂ ▸ hpcb
  have hfs : k₂.fs = k.fs := hk₂ ▸ rfl
  simp only [fread, hdesc', Option.bind_eq_bind, Option.bind_eq_some_iff] at h
  obtain ⟨⟨val, data⟩, hread, k₁, hstore, heq⟩ := h
  cases heq
  have hpage : k₂.pageDirectory32 = k.pageDirectory32 := hk₂ ▸ rfl
  obtain ⟨k₃, hstore'⟩ := storeUser_again hpage hstore
  refine ⟨k₃.setDesc fd (openDesc inode ((pos + val) % 0x100000000)), ?_⟩
  simp only [fread, hpcb', hfs, Option.bind_eq_bind, hread, Option.bind_some, hstore']
  rfl

/-! ## One event -/

/-- The descriptor stays as it is, unless it is read or closed. -/
theorem ioStep_other {inode pos : Nat} (hdesc : k.desc process fd = openDesc inode pos)
    (hstep : ioStep k e k') (hread : e.readOf process fd = none)
    (hclose : ¬ e.Closes process fd) :
    k'.desc process fd = openDesc inode pos ∧ k'.fs = k.fs := by
  obtain ⟨k₀, hr, -, hcall⟩ := hstep
  obtain ⟨p, call, ret, bytes⟩ := e
  rw [← hr.desc process fd] at hdesc
  rw [← hdesc, ← hr.fs]
  dsimp only at hr hcall
  cases call with
  | openFile filename =>
      simp only [doIo, doCall, Option.map_eq_some_iff] at hcall
      obtain ⟨r, hopen, heq⟩ := hcall
      cases heq
      obtain hsame | ⟨fd', hfree, honly⟩ := sysOpen_only hopen
      · rw [hsame]
        exact ⟨rfl, rfl⟩
      · refine ⟨honly.others process fd ?_, honly.fs⟩
        -- the descriptor that was opened had no flags
        rintro ⟨hp, hfd⟩
        obtain rfl : fd = fd' := by omega
        rw [hp] at hdesc
        rw [hdesc] at hfree
        cases hfree
  | close fd' =>
      simp only [doIo, doCall, Option.map_eq_some_iff] at hcall
      obtain ⟨r, hclosed, heq⟩ := hcall
      cases heq
      have honly := (sysClose_spec hclosed).only
      refine ⟨honly.others process fd ?_, honly.fs⟩
      rintro ⟨hp, hfd⟩
      exact hclose ⟨hr.running.symm.trans hp.symm, by rw [hfd]⟩
  | read fd' buf nbytes =>
      have honly := (sysRead_spec hcall).only
      refine ⟨honly.others process fd ?_, honly.fs⟩
      rintro ⟨hp, hfd⟩
      simp only [IoEvent.readOf] at hread
      rw [if_pos ⟨hr.running.symm.trans hp.symm, hfd.symm⟩] at hread
      cases hread
  | write fd' buf nbytes =>
      simp only [doIo, doCall, Option.map_eq_some_iff] at hcall
      obtain ⟨r, hwrite, heq⟩ := hcall
      cases heq
      obtain ⟨hsame, hfs⟩ := sysWrite_same hwrite
      exact ⟨hsame process fd, hfs⟩

/-- A read of the descriptor returns the bytes at its position and moves it on, and it could have
been made in any other state with the same image and the same descriptor. -/
theorem ioStep_read {inode pos : Nat} (hfd : fd < 8)
    (hdesc : k.desc process fd = openDesc inode pos) (hstep : ioStep k e k')
    {r : Int × Int × List UInt8} (hread : e.readOf process fd = some r) :
    ∃ val, k.fs.readData inode pos (u32 r.1) = some (val, r.2.2) ∧ r.2.1 = i32 val ∧
      k'.desc process fd = openDesc inode ((pos + val) % 0x100000000) ∧ k'.fs = k.fs ∧
      ∀ m : Kernel, m.fs = k.fs → m.desc process fd = openDesc inode pos →
        ∃ m', ioStep m e m' := by
  obtain ⟨k₀, hr, -, hcall⟩ := hstep
  obtain ⟨p, call, ret, bytes⟩ := e
  dsimp only at hr hcall
  cases call with
  | openFile filename => cases hread
  | close fd' => cases hread
  | read fd' buf nbytes =>
      simp only [IoEvent.readOf] at hread
      split_ifs at hread with hown
      obtain ⟨rfl, rfl⟩ := hown
      cases hread
      have hdesc₀ : k₀.desc k₀.getProcessNumber fd = openDesc inode pos := by
        rw [hr.running, hr.desc, hdesc]
      have hfread : k₀.fread fd buf nbytes = some (ret, bytes, k') := by
        rw [← sysRead_openDesc hfd hdesc₀]
        exact hcall
      obtain ⟨val, hdata, hret, hnext⟩ := fread_openDesc hdesc₀ hfread
      refine ⟨val, hr.fs ▸ hdata, hret, hr.running ▸ hnext,
        (sysRead_spec hcall).only.fs.trans hr.fs, fun m hfs hm => ?_⟩
      -- the process runs in `m` as it ran here, with the PCBs and the position of `m`
      have hm₀ : (m.pcb k₀.getProcessNumber).fileDesc fd = openDesc inode pos := by
        rw [hr.running]
        exact hm
      obtain ⟨m', hagain⟩ := fread_again hdesc₀ hfread m.pcb m.dirLocation hm₀
      refine ⟨m', { k₀ with pcb := m.pcb, dirLocation := m.dirLocation },
        ⟨rfl, hr.fs.trans hfs.symm, hr.running⟩, rfl, ?_⟩
      rw [doIo, sysRead_openDesc hfd (by exact hm₀)]
      exact hagain
  | write fd' buf nbytes => cases hread

/-- An open of a regular file. -/
theorem ioStep_open {name bytes : List UInt8} {dentry : Dentry}
    (hfind : k.fs.readDentryByName name = some (some dentry)) (htype : dentry.fileType = typeFile)
    (hstep : ioStep k ⟨process, .openFile name, fd, bytes⟩ k') :
    k'.desc process fd = openDesc dentry.inodeNum 0 ∧ k'.fs = k.fs ∧ fd < 8 := by
  obtain ⟨k₀, hr, -, hcall⟩ := hstep
  dsimp only at hr hcall
  simp only [doIo, doCall, Option.map_eq_some_iff] at hcall
  obtain ⟨⟨ret, k₁⟩, hopen, heq⟩ := hcall
  cases heq
  rw [← hr.fs] at hfind
  obtain ⟨hdesc, hfs, hfd⟩ := sysOpen_file hfind htype hopen
  rw [hr.running] at hdesc
  exact ⟨hdesc, hfs.trans hr.fs, hfd⟩

/-! ## Whole sequences -/

/-- Between the open and the close, the descriptor stays open on its file, its reads return what
successive reads of the file return, and they can be made alone. -/
theorem run_reads {inode pos : Nat} {es : List IoEvent} (hfd : fd < 8)
    (hrun : Run ioStep k es k') (hdesc : k.desc process fd = openDesc inode pos)
    (hopen : ∀ e ∈ es, ¬ e.Closes process fd) :
    k.fs.readSeq inode pos ((IoEvent.reads process fd es).map Prod.fst) =
        some (IoEvent.reads process fd es) ∧
      ∀ m : Kernel, m.fs = k.fs → m.desc process fd = openDesc inode pos →
        ∃ m', Run ioStep m (es.filter fun e => (e.readOf process fd).isSome) m' := by
  -- On the run, with the position that the descriptor has reached.
  induction hrun generalizing pos with
  | nil k => exact ⟨rfl, fun m _ _ => ⟨m, .nil m⟩⟩
  | @cons k k₁ k' e es hstep _ ih =>
      have hrest : ∀ e ∈ es, ¬ e.Closes process fd :=
        fun e he => hopen e (List.mem_cons_of_mem _ he)
      cases hread : e.readOf process fd with
      | none =>
          obtain ⟨hdesc₁, hfs₁⟩ := ioStep_other hdesc hstep hread (hopen e List.mem_cons_self)
          obtain ⟨hseq, halone⟩ := ih hdesc₁ hrest
          rw [hfs₁] at hseq halone
          simp only [IoEvent.reads, List.filterMap_cons, hread, List.filter_cons,
            Option.isSome_none, Bool.false_eq_true, if_false]
          exact ⟨hseq, halone⟩
      | some r =>
          obtain ⟨val, hdata, hret, hdesc₁, hfs₁, hagain⟩ := ioStep_read hfd hdesc hstep hread
          obtain ⟨hseq, halone⟩ := ih hdesc₁ hrest
          rw [hfs₁] at hseq halone
          simp only [IoEvent.reads, List.filterMap_cons, hread, List.filter_cons,
            Option.isSome_some, if_true]
          constructor
          · simp only [List.map_cons, FileSystem.readSeq, hdata, Option.bind_eq_bind,
              Option.bind_some]
            rw [IoEvent.reads] at hseq
            rw [hseq, ← hret]
            rfl
          -- The same read in another kernel leaves the descriptor at the same position.
          · intro m hfs hm
            obtain ⟨m₁, hm₁⟩ := hagain m hfs hm
            obtain ⟨val', hdata', -, hdesc', hfs', -⟩ := ioStep_read hfd hm hm₁ hread
            rw [hfs, hdata] at hdata'
            cases hdata'
            obtain ⟨m', hm'⟩ := halone m₁ (hfs'.trans hfs) hdesc'
            exact ⟨m', .cons hm₁ hm'⟩

/-- A descriptor of a regular file starts at position 0 of its file at each open, and what its
reads return up to its close is what the same requests return in any run that opens the same file
and makes no other calls; such a run exists from the state after the open. All buffers lie in the
user page of their caller. -/
theorem reads_independent {fs : FileSystem} {name : List UInt8} {dentry : Dentry}
    (hfind : fs.readDentryByName name = some (some dentry)) (htype : dentry.fileType = typeFile)
    {k₁ k₂ : Kernel} {es : List IoEvent} {bytes : List UInt8} (hfs : k.fs = fs)
    (hstart : ioStep k ⟨process, .openFile name, fd, bytes⟩ k₁) (hrun : Run ioStep k₁ es k₂)
    (hopen : ∀ e ∈ es, ¬ e.Closes process fd) :
    k₁.desc process fd = openDesc dentry.inodeNum 0 ∧
      (∃ k', Run ioStep k₁ (es.filter fun e => (e.readOf process fd).isSome) k') ∧
      ∀ (m m₁ m₂ : Kernel) (process' fd' : Nat) (own : List IoEvent) (bytes' : List UInt8),
        m.fs = fs → ioStep m ⟨process', .openFile name, fd', bytes'⟩ m₁ →
        Run ioStep m₁ own m₂ → (∀ e ∈ own, (e.readOf process' fd').isSome) →
        (IoEvent.reads process' fd' own).map Prod.fst =
          (IoEvent.reads process fd es).map Prod.fst →
        IoEvent.reads process' fd' own = IoEvent.reads process fd es := by
  obtain ⟨hdesc, hfs₁, hfd⟩ := ioStep_open (hfs ▸ hfind) htype hstart
  obtain ⟨hseq, halone⟩ := run_reads hfd hrun hdesc hopen
  refine ⟨hdesc, halone k₁ rfl hdesc, fun m m₁ m₂ process' fd' own bytes' hmfs hmstart hmrun hown
    hsizes => ?_⟩
  obtain ⟨hmdesc, hmfs₁, hmfd⟩ := ioStep_open (hmfs ▸ hfind) htype hmstart
  obtain ⟨hmseq, -⟩ := run_reads hmfd hmrun hmdesc fun e he hcloses => by
    -- a read of the descriptor is not its close
    have hread := hown e he
    simp only [IoEvent.readOf, hcloses.2] at hread
    cases hread
  rw [hmfs₁, hmfs, hsizes] at hmseq
  rw [hfs₁, hfs] at hseq
  exact Option.some.inj (hmseq.symm.trans hseq)

/-- The first process with its page mapped. -/
def mappedShell : Kernel := { newShell with pageDirectory32 := frameEntry 0 }

/-- The state after a call that returns. -/
def afterIo (k : Kernel) (call : DescCall) : Kernel := ((k.doIo call).map (·.2.2)).getD k

/-- A call by the process that is running, with nothing in between. -/
theorem ioStep_after (e : IoEvent) (hprocess : k.getProcessNumber = e.process)
    (h : (k.doIo e.call).map (fun r => (r.1, r.2.1)) = some (e.ret, e.bytes)) :
    ioStep k e (k.afterIo e.call) := by
  obtain ⟨r, hcall, heq⟩ := Option.map_eq_some_iff.1 h
  obtain ⟨hret, hbytes⟩ := Prod.mk.inj heq
  refine ⟨k, ⟨rfl, rfl, hprocess⟩, rfl, ?_⟩
  rw [afterIo, hcall, ← hret, ← hbytes]
  rfl

/-- Two descriptors of one process with the same file open: the reads of the first start at the
beginning of the file, and could have been made alone. -/
theorem reads_independent_shell : ∃ k₁ k₂ : Kernel,
    Run ioStep k₁ [⟨0, .openFile shellName, 3, []⟩,
      ⟨0, .read 3 0x08000000 2, 2, [0x7F, 0x45]⟩,
      ⟨0, .read 2 0x08000000 4, 4, [0x7F, 0x45, 0x4C, 0x46]⟩] k₂ ∧
    k₁.desc 0 2 = openDesc 0 0 ∧
    ∃ k', Run ioStep k₁ [⟨0, .read 2 0x08000000 4, 4, [0x7F, 0x45, 0x4C, 0x46]⟩] k' := by
  have hstart := ioStep_after (k := mappedShell) ⟨0, .openFile shellName, 2, []⟩ (by decide)
    (by decide +kernel)
  have hrun := Run.cons (ioStep_after (k := mappedShell.afterIo (.openFile shellName))
      ⟨0, .openFile shellName, 3, []⟩ (by decide +kernel) (by decide +kernel))
    (.cons (ioStep_after ⟨0, .read 3 0x08000000 2, 2, [0x7F, 0x45]⟩ (by decide +kernel)
      (by decide +kernel))
    (.single (ioStep_after ⟨0, .read 2 0x08000000 4, 4, [0x7F, 0x45, 0x4C, 0x46]⟩
      (by decide +kernel) (by decide +kernel))))
  have hfind : shellFs.readDentryByName shellName = some (some ⟨shellName, 2, 0⟩) := by
    decide +kernel
  obtain ⟨hdesc, halone, -⟩ := reads_independent hfind rfl rfl hstart hrun
    (by simp [IoEvent.Closes])
  exact ⟨_, _, hrun, hdesc, halone⟩

end Kernel

end Ece391Kernel
