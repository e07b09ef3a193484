import Ece391Kernel.Kernel.FileReads
import Ece391Kernel.Transition.Rounds

/-!
# Directory listings

All the directory descriptors share the global `dir_location`, which only `dir_read` moves. It is
the cursor of a system of `Rounds` whose readers are the descriptors (`listStep_cursor`), so a
listing is right as long as no other one is in progress and none was abandoned (`listings_iff`).
-/

namespace Ece391Kernel

open Transition

/-- Descriptor calls with the readers of the directory: `rounds` counts the directory reads of each
descriptor since it was last opened. -/
structure Listings where
  kernel : Kernel
  rounds : Rounds (Nat × Nat)

/-- What a directory read returns and stores for entry `i`, and at the end. -/
def Directory.listing {fs : FileSystem} (dir : Directory fs) (i : Nat) : Int × List UInt8 :=
  if i < dir.count then
    ((dir.name i).length, dir.name i ++ List.replicate (33 - (dir.name i).length) 0)
  else (0, [])

namespace Kernel

variable {fs : FileSystem} {dir : Directory fs} {k k₀ k' : Kernel} {e : IoEvent}

/-- The descriptor is open on the directory. -/
def OpenDir (k : Kernel) (process : Nat) (fd : Int) : Prop :=
  0 ≤ fd ∧ fd < 8 ∧ (k.desc process fd.toNat).flags % 2 = 1 ∧
    (k.desc process fd.toNat).fotPtr = some .dir

instance (k : Kernel) (process : Nat) (fd : Int) : Decidable (k.OpenDir process fd) :=
  inferInstanceAs (Decidable (_ ∧ _))

/-- A call as an event of the readers: reading the directory, or opening a descriptor anew. -/
def roundOf (k : Kernel) (e : IoEvent) : Option (RoundEvent (Nat × Nat)) :=
  match e.call with
  | .openFile _ => if e.ret = -1 then none else some (.restart (e.process, e.ret.toNat))
  | .read fd _ _ =>
      if k.OpenDir e.process fd then some (.take (e.process, fd.toNat)) else none
  | _ => none

/-- One call by any process. -/
def listStep (dir : Directory fs) (s : Listings) (e : IoEvent) (s' : Listings) : Prop :=
  ioStep s.kernel e s'.kernel ∧
    s'.rounds = match s.kernel.roundOf e with
      | some event => s.rounds.next dir.count event
      | none => s.rounds

/-- No other listing is in progress or was abandoned when the directory is read. -/
def InTurn (s : Listings) (e : IoEvent) : Prop := ∀ event ∈ s.kernel.roundOf e, s.rounds.Guard event

instance (s : Listings) (e : IoEvent) : Decidable (InTurn s e) :=
  inferInstanceAs (Decidable (∀ event ∈ s.kernel.roundOf e, s.rounds.Guard event))

/-! ## `dir_location` -/

/-- `dir_read` returns the entry at `dir_location`. -/
theorem dirRead_listing (dir : Directory fs) {buf : Nat} {r : Int × List UInt8 × Kernel}
    (hfs : k.fs = fs) (h : k.dirRead buf = some r) :
    (r.1, r.2.1) = dir.listing k.dirLocation ∧
      r.2.2.dirLocation = if k.dirLocation < dir.count then k.dirLocation + 1 else 0 := by
  have hstores := dirRead_stores h
  rw [hfs] at hstores
  by_cases hlt : k.dirLocation < dir.count
  · rw [dir.readDentryByIndex_eq hlt] at hstores
    obtain ⟨hend, -⟩ | ⟨dentry, k', hentry, -, rfl⟩ := hstores
    · cases hend
    · cases hentry
      rw [Directory.listing, if_pos hlt, if_pos hlt]
      exact ⟨rfl, rfl⟩
  · have hnone : fs.readDentryByIndex k.dirLocation = some none := by
      simp only [FileSystem.readDentryByIndex, dir.count_eq, Option.bind_eq_bind,
        Option.bind_some, if_pos (Nat.not_lt.1 hlt)]
    rw [hnone] at hstores
    obtain ⟨-, rfl⟩ | ⟨dentry, k', hentry, -, rfl⟩ := hstores
    · rw [Directory.listing, if_neg hlt, if_neg hlt]
      exact ⟨rfl, rfl⟩
    · cases hentry

theorem storeUser_dirLocation {buf : Nat} {bytes : List UInt8}
    (h : k.storeUser buf bytes = some k') : k'.dirLocation = k.dirLocation := by
  obtain ⟨frames, rfl⟩ := storeUser_frame h
  rfl

/-- Reading anything else leaves `dir_location` alone. -/
theorem sysRead_dirLocation {fd : Int} {buf : Nat} {nbytes : Int} {r : Int × List UInt8 × Kernel}
    (hdir : ¬ k.OpenDir k.getProcessNumber fd) (h : k.sysRead fd buf nbytes = some r) :
    r.2.2.dirLocation = k.dirLocation := by
  cases sysRead_by h with
  | refused _ heq => rw [heq]
  | terminal _ h =>
      obtain ⟨n, k', -, hstore, rfl⟩ := terminalRead_stores h
      have hk' := storeUser_dirLocation hstore
      exact hk'
  | screen _ heq => rw [heq]
  | file _ h =>
      obtain ⟨val, bytes, k', -, hstore, rfl⟩ := fread_stores h
      have hk' := storeUser_dirLocation hstore
      exact hk'
  | clock _ h =>
      cases h
      rfl
  | dir htable _ => exact absurd (readTable_some.1 htable) hdir

/-- So do the other calls. -/
theorem sysOpen_dirLocation {filename : List UInt8} {r : Int × Kernel}
    (h : k.sysOpen filename = some r) : r.2.dirLocation = k.dirLocation := by
  cases sysOpen_by h with
  | missing _ heq => rw [heq]
  | full _ heq => rw [heq]
  | found dentry fd _ _ heq =>
      rw [heq]
      unfold openAs
      split_ifs <;> rfl

theorem sysClose_dirLocation {fd : Int} {r : Int × Kernel} (h : k.sysClose fd = some r) :
    r.2.dirLocation = k.dirLocation := by
  have hclose : ∀ fot, (k.closeWith fot).2.dirLocation = k.dirLocation := by
    intro fot
    cases fot <;> rfl
  cases sysClose_by h with
  | refused _ heq => rw [heq]
  | kept fot _ _ heq =>
      rw [heq]
      exact hclose fot
  | closed fot _ _ heq =>
      rw [heq]
      exact hclose fot

theorem sysWrite_dirLocation {fd : Int} {buf : Nat} {nbytes : Int} {r : Int × Kernel}
    (h : k.sysWrite fd buf nbytes = some r) : r.2.dirLocation = k.dirLocation := by
  cases sysWrite_by h with
  | refused _ _ heq => rw [heq]
  | terminal _ bytes _ heq => rw [heq]
  | clock _ freq _ heq => rw [heq]

/-! ## One call -/

/-- A directory read returns the entry at the cursor, and moves the cursor as the readers do. -/
theorem ioStep_take (dir : Directory fs) {d : Nat × Nat} (hfs : k.fs = fs)
    (hstep : ioStep k e k') (htake : k.roundOf e = some (.take d)) :
    (e.ret, e.bytes) = dir.listing k.dirLocation ∧ k'.fs = fs ∧
      k'.dirLocation = if k.dirLocation < dir.count then k.dirLocation + 1 else 0 := by
  obtain ⟨k₀, hr, hlocation, hcall⟩ := hstep
  obtain ⟨p, call, ret, bytes⟩ := e
  dsimp only at hr hcall
  cases call with
  | openFile filename =>
      simp only [roundOf] at htake
      split_ifs at htake
      cases htake
  | close fd => cases htake
  | read fd buf nbytes =>
      simp only [roundOf] at htake
      split_ifs at htake with hdir
      have htable : k₀.readTable fd = some .dir := by
        rw [OpenDir, ← hr.desc, ← hr.running] at hdir
        exact readTable_some.2 hdir
      have hread : k₀.dirRead buf = some (ret, bytes, k') :=
        (sysRead_of_table htable buf nbytes).symm.trans hcall
      obtain ⟨hlisting, hnext⟩ := dirRead_listing dir (hr.fs.trans hfs) hread
      rw [hlocation] at hlisting hnext
      exact ⟨hlisting, (dirRead_same hread).2.trans (hr.fs.trans hfs), hnext⟩
  | write fd buf nbytes => cases htake

/-- Any other call leaves the cursor where it is. -/
theorem ioStep_dirLocation (hstep : ioStep k e k') (hother : ∀ d, k.roundOf e ≠ some (.take d)) :
    k'.fs = k.fs ∧ k'.dirLocation = k.dirLocation := by
  obtain ⟨k₀, hr, hlocation, hcall⟩ := hstep
  obtain ⟨p, call, ret, bytes⟩ := e
  dsimp only at hr hcall
  rw [← hr.fs, ← hlocation]
  cases call with
  | openFile filename =>
      simp only [doIo, doCall, Option.map_eq_some_iff] at hcall
      obtain ⟨r, hopen, heq⟩ := hcall
      cases heq
      refine ⟨?_, sysOpen_dirLocation hopen⟩
      obtain hsame | ⟨fd, -, honly⟩ := sysOpen_only hopen
      · rw [hsame]
      · exact honly.fs
  | close fd =>
      simp only [doIo, doCall, Option.map_eq_some_iff] at hcall
      obtain ⟨r, hclose, heq⟩ := hcall
      cases heq
      exact ⟨(sysClose_spec hclose).only.fs, sysClose_dirLocation hclose⟩
  | read fd buf nbytes =>
      refine ⟨(sysRead_spec hcall).only.fs, sysRead_dirLocation (fun hdir => ?_) hcall⟩
      refine hother (p, fd.toNat) ?_
      have hopen : k.OpenDir p fd := by simpa only [OpenDir, hr.running, hr.desc] using hdir
      simp only [roundOf]
      rw [if_pos hopen]
  | write fd buf nbytes =>
      simp only [doIo, doCall, Option.map_eq_some_iff] at hcall
      obtain ⟨r, hwrite, heq⟩ := hcall
      cases heq
      exact ⟨(sysWrite_same hwrite).2, sysWrite_dirLocation hwrite⟩

/-! ## Whole sequences -/

/-- The directory position is the cursor of the readers. -/
structure SameCursor (fs : FileSystem) (s : Listings) : Prop where
  fs_eq : s.kernel.fs = fs
  cursor : s.rounds.cursor = s.kernel.dirLocation

variable {s s' t u : Listings}

/-- The directory position is the cursor after every call. -/
theorem listStep_cursor (h : SameCursor fs s) (hstep : listStep dir s e s') :
    SameCursor fs s' := by
  obtain ⟨hio, hrounds⟩ := hstep
  by_cases htake : ∃ d, s.kernel.roundOf e = some (.take d)
  · obtain ⟨d, hd⟩ := htake
    obtain ⟨-, hfs, hlocation⟩ := ioStep_take dir h.fs_eq hio hd
    refine ⟨hfs, ?_⟩
    rw [hrounds, hd, hlocation, ← h.cursor]
    rfl
  · obtain ⟨hfs, hlocation⟩ := ioStep_dirLocation hio fun d hd => htake ⟨d, hd⟩
    refine ⟨hfs.trans h.fs_eq, ?_⟩
    rw [hlocation, ← h.cursor, hrounds]
    cases hevent : s.kernel.roundOf e with
    | none => rfl
    | some event =>
        cases event with
        | take d => exact absurd ⟨d, hevent⟩ htake
        | restart d => rfl

/-- A call that is in turn keeps the readers in order. -/
theorem listStep_good (h : s.rounds.Good dir.count) (hturn : InTurn s e)
    (hstep : listStep dir s e s') : s'.rounds.Good dir.count := by
  rw [hstep.2]
  cases hevent : s.kernel.roundOf e with
  | none => exact h
  | some event => exact h.next (hturn event hevent)

/-- Entries with different non-empty names are listed differently, and all but as the end. -/
theorem listing_injective {i j : Nat} (hnames : ∀ i, i < dir.count → dir.name i ≠ [])
    (hdistinct : ∀ i j, i < dir.count → j < dir.count → dir.name i = dir.name j → i = j)
    (hi : i ≤ dir.count) (hj : j ≤ dir.count) (h : dir.listing i = dir.listing j) : i = j := by
  have hpositive : ∀ i, i < dir.count → ((dir.name i).length : Int) ≠ 0 := by
    intro i hlt hzero
    have hlength := List.length_pos_iff.2 (hnames i hlt)
    omega
  unfold Directory.listing at h
  split_ifs at h with hilt hjlt hjlt
  · obtain ⟨hlength, hbytes⟩ := Prod.mk.inj h
    exact hdistinct i j hilt hjlt (List.append_inj_left hbytes (by omega))
  · exact absurd (Prod.mk.inj h).1 (hpositive i hilt)
  · exact absurd (Prod.mk.inj h).1.symm (hpositive j hjlt)
  · omega

/-- After any calls whose directory reads were all in turn, a directory read in turn returns the
next entry of its own descriptor: the names from the first on, each once and in order, then 0. A
directory read out of turn does not, when the names are distinct. The entries have file types 0 to
2, and all buffers lie in the user page of their caller. -/
theorem listings_iff (dir : Directory fs) (hnames : ∀ i, i < dir.count → dir.name i ≠ [])
    {es : List IoEvent} (hfs : s.kernel.fs = fs) (hlocation : s.kernel.dirLocation = 0)
    (hstart : s.rounds = .start) (hrun : Run (Guarded InTurn (listStep dir)) s es t)
    (hstep : listStep dir t e u) {d : Nat × Nat} (htake : t.kernel.roundOf e = some (.take d)) :
    (InTurn t e → (e.ret, e.bytes) = dir.listing (t.rounds.taken d % (dir.count + 1))) ∧
      ((∀ i j, i < dir.count → j < dir.count → dir.name i = dir.name j → i = j) →
        (e.ret, e.bytes) = dir.listing (t.rounds.taken d % (dir.count + 1)) → InTurn t e) := by
  obtain ⟨hcursor, hgood⟩ : SameCursor fs t ∧ t.rounds.Good dir.count := by
    refine Run.invariant (I := fun s => SameCursor fs s ∧ s.rounds.Good dir.count)
      (fun s e s' h hs => ⟨listStep_cursor h.1 hs.2, listStep_good h.2 hs.1 hs.2⟩) hrun
      ⟨⟨hfs, ?_⟩, ?_⟩
    · rw [hstart, hlocation]
      rfl
    · rw [hstart]
      exact Rounds.start_good
  have hresult := (ioStep_take dir hcursor.fs_eq hstep.1 htake).1
  rw [← hcursor.cursor] at hresult
  constructor
  · intro hturn
    rw [hresult, hgood.cursor_eq_iff.2 (hturn _ htake)]
  · intro hdistinct hnext event hevent
    rw [htake] at hevent
    cases hevent
    rw [hresult] at hnext
    have hmod : t.rounds.taken d % (dir.count + 1) ≤ dir.count :=
      Nat.le_of_lt_succ (Nat.mod_lt _ (Nat.succ_pos _))
    exact hgood.cursor_eq_iff.1
      (listing_injective hnames hdistinct hgood.cursor_le hmod hnext)

/-- The bytes that are not zero of a directory with the entries `.` and `shell`. -/
def rootBytes : List (Nat × UInt8) :=
  [(0, 2), (4, 1), (8, 1), (64, 0x2E), (96, 1), (128, 0x73), (129, 0x68), (130, 0x65),
    (131, 0x6C), (132, 0x6C), (160, 2)]

def rootFs : FileSystem := smallFs rootBytes

def rootDirectory : Directory rootFs :=
  smallDirectory rootBytes 2 (by decide) (by decide) (by decide)

/-- The first process with that directory, which nobody has read. -/
def rootShell : Listings := ⟨{ mappedShell with fs := rootFs }, .start⟩

/-- The string "." of `ls`. -/
def dotName : List UInt8 := [0x2E]

/-- What the two reads of a listing return. -/
def dotEntry : List UInt8 := 0x2E :: List.replicate 32 0

def shellEntry : List UInt8 := shellName ++ List.replicate 28 0

/-- The state after a call that returns. -/
def afterList (s : Listings) (e : IoEvent) : Listings where
  kernel := s.kernel.afterIo e.call
  rounds := match s.kernel.roundOf e with
    | some event => s.rounds.next 2 event
    | none => s.rounds

/-- A call by the process that is running, with nothing in between. -/
theorem listStep_after (e : IoEvent) (hprocess : s.kernel.getProcessNumber = e.process)
    (h : (s.kernel.doIo e.call).map (fun r => (r.1, r.2.1)) = some (e.ret, e.bytes)) :
    listStep rootDirectory s e (afterList s e) :=
  ⟨ioStep_after e hprocess h, rfl⟩

theorem rootDirectory_names : ∀ i, i < rootDirectory.count → rootDirectory.name i ≠ [] := by
  decide +kernel

/-- `ls` opens the directory, reads its entries and ends. -/
def openDot : IoEvent := ⟨0, .openFile dotName, 2, []⟩

def readDot : IoEvent := ⟨0, .read 2 0x08000000 32, 1, dotEntry⟩

def readShell : IoEvent := ⟨0, .read 2 0x08000000 32, 5, shellEntry⟩

def closeDot : IoEvent := ⟨0, .close 2, 0, []⟩

/-- The second read of a listing returns the second entry. -/
theorem listings_iff_root : ∃ t u : Listings,
    Run (Guarded InTurn (listStep rootDirectory)) rootShell [openDot, readDot] t ∧
    listStep rootDirectory t readShell u ∧
    (readShell.ret, readShell.bytes) =
      rootDirectory.listing (t.rounds.taken (0, 2) % (rootDirectory.count + 1)) := by
  have hopen := listStep_after (s := rootShell) openDot (by decide +kernel) (by decide +kernel)
  have hread := listStep_after (s := afterList rootShell openDot) readDot (by decide +kernel)
    (by decide +kernel)
  have hrun : Run (Guarded InTurn (listStep rootDirectory)) rootShell [openDot, readDot] _ :=
    .cons ⟨by decide +kernel, hopen⟩ (.single ⟨by decide +kernel, hread⟩)
  have hnext := listStep_after (s := afterList (afterList rootShell openDot) readDot) readShell
    (by decide +kernel) (by decide +kernel)
  have hlisting := (listings_iff rootDirectory rootDirectory_names rfl rfl rfl hrun hnext
    (d := (0, 2)) (by decide +kernel)).1 (by decide +kernel)
  exact ⟨_, _, hrun, hnext, hlisting⟩

/-- A program reads the first entry and stops; the next listing begins with the second one. -/
theorem listing_abandoned :
    ¬ ∀ (fs : FileSystem) (dir : Directory fs) (s t u : Listings) (es : List IoEvent)
      (e : IoEvent) (d : Nat × Nat), (∀ i, i < dir.count → dir.name i ≠ []) →
      s.kernel.fs = fs → s.kernel.dirLocation = 0 → s.rounds = .start →
      Run (listStep dir) s es t → listStep dir t e u → t.kernel.roundOf e = some (.take d) →
      (e.ret, e.bytes) = dir.listing (t.rounds.taken d % (dir.count + 1)) := by
  intro h
  have hrun := Run.cons (listStep_after (s := rootShell) openDot (by decide +kernel)
      (by decide +kernel))
    (.cons (listStep_after readDot (by decide +kernel) (by decide +kernel))
    (.cons (listStep_after closeDot (by decide +kernel) (by decide +kernel))
    (.single (listStep_after openDot (by decide +kernel) (by decide +kernel)))))
  have hnext := h rootFs rootDirectory _ _ _ _ readShell (0, 2) rootDirectory_names rfl rfl rfl
    hrun (listStep_after readShell (by decide +kernel) (by decide +kernel)) (by decide +kernel)
  revert hnext
  decide +kernel

end Kernel

end Ece391Kernel
