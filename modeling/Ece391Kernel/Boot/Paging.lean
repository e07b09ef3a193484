import Ece391Kernel.Machine.Paging
import Ece391Kernel.Kernel.State

/-!
# `page.c`

The page directory and the two page tables that `initialize_page` builds, and the address space that
they make with the two entries the kernel rewrites later: the directory's entry for the user page,
and entry 0 of `page_table_vid`. `walk_user_page` and the lemmas around it translate every address;
`userReaches_iff` says what user code can write to.
-/

namespace Ece391Kernel

open Machine Machine.Entry Transition

/-! ## Constants of `page.h` -/

@[simp] abbrev numEntries : Nat := 1024
/-- `SET_4MB`. -/
@[simp] abbrev set4mb : Nat := 0x80

/-! ## Building the tables -/

/-- `page_directory`, `page_table` and `page_table_vid`. -/
structure PageTables where
  pageDirectory : Nat → Nat
  pageTable : Nat → Nat
  pageTableVid : Nat → Nat

/-- Where the linker puts the two page tables, and what the rest of memory holds. -/
structure Placement where
  pageTable : Nat
  pageTableVid : Nat
  elsewhere : Nat → Nat → Nat
  pageTable_aligned : pageTable % 0x1000 = 0
  pageTableVid_aligned : pageTableVid % 0x1000 = 0
  distinct : pageTable ≠ pageTableVid

namespace PageTables

/-- `page_directory[i] = entry`. -/
def setDirectory (t : PageTables) (i entry : Nat) : PageTables :=
  { t with pageDirectory := Function.update t.pageDirectory i entry }

/-- `page_table[i] = entry`. -/
def setTable (t : PageTables) (i entry : Nat) : PageTables :=
  { t with pageTable := Function.update t.pageTable i entry }

/-- `page_table_vid[i] = entry`. -/
def setTableVid (t : PageTables) (i entry : Nat) : PageTables :=
  { t with pageTableVid := Function.update t.pageTableVid i entry }

/-- The loop body of `init_page_table`. -/
def initPageTableBody (t : PageTables) (i : Nat) : PageTables :=
  let t := t.setTable i (i * fourKb ||| rwFlag ||| userFlag)
  let t := if i = vimMemIndex / fourKb then
    t.setTable i (i * fourKb ||| rwFlag ||| presentFlag ||| userFlag) else t
  t.setTableVid i (i * fourKb ||| rwFlag ||| userFlag)

/-- `init_page_table`. -/
def initPageTable (t : PageTables) : PageTables :=
  let t := forRange initPageTableBody 0 numEntries t
  let t := t.setTableVid 0 (vimMemIndex ||| rwFlag ||| presentFlag ||| userFlag)
  let t := t.setTableVid 1 ((vimMemIndex + 1 * fourKb) ||| rwFlag ||| presentFlag ||| userFlag)
  let t := t.setTableVid 2 ((vimMemIndex + 2 * fourKb) ||| rwFlag ||| presentFlag ||| userFlag)
  t.setTableVid 3 ((vimMemIndex + 3 * fourKb) ||| rwFlag ||| presentFlag ||| userFlag)

/-- `initialize_page`, up to the loads of the control registers. -/
def initializePage (t : PageTables) (p : Placement) : PageTables :=
  let t := forRange (fun (t : PageTables) i => t.setDirectory i rwFlag) 0 numEntries t
  let t := t.initPageTable
  let t := t.setDirectory 0 (p.pageTable ||| rwFlag ||| presentFlag)
  let t := t.setDirectory 1 (fourMb ||| rwFlag ||| presentFlag ||| set4mb)
  t.setDirectory (oneGig / fourMb) (p.pageTableVid ||| rwFlag ||| presentFlag ||| userFlag)

/-- The tables in memory. -/
def space (t : PageTables) (p : Placement) : PageSpace where
  directory := t.pageDirectory
  table := fun base =>
    if base = p.pageTable then t.pageTable
    else if base = p.pageTableVid then t.pageTableVid
    else p.elsewhere base

/-! ## What the loops leave in the tables -/

variable {t : PageTables} {p : Placement} {i : Nat}

/-- The loop of `init_page_table` leaves the page directory alone. -/
theorem initPageTable_loop_directory {n : Nat} :
    (forRange initPageTableBody 0 n t).pageDirectory = t.pageDirectory := by
  refine forRange_invariant (P := fun _ (u : PageTables) => u.pageDirectory = t.pageDirectory)
    rfl ?_
  intro i u _ hu
  rw [← hu, initPageTableBody]
  split_ifs
  · rfl
  · rfl

theorem initPageTable_directory : t.initPageTable.pageDirectory = t.pageDirectory := by
  simp only [initPageTable, setTableVid]
  exact initPageTable_loop_directory

/-- The entries of both page tables behind the loop of `init_page_table`. -/
theorem initPageTable_loop {n : Nat} : ∀ i, i < n →
    (forRange initPageTableBody 0 n t).pageTable i =
      (if i = 0xB8 then 0xB8007 else i * 0x1000 + 6) ∧
    (forRange initPageTableBody 0 n t).pageTableVid i = i * 0x1000 + 6 := by
  refine forRange_invariant (P := fun n (u : PageTables) => ∀ i, i < n →
    u.pageTable i = (if i = 0xB8 then 0xB8007 else i * 0x1000 + 6) ∧
      u.pageTableVid i = i * 0x1000 + 6) (fun i hi => absurd hi (Nat.not_lt_zero i)) ?_
  intro n u _ hu i hi
  have hsix : n * fourKb ||| rwFlag ||| userFlag = n * 0x1000 + 6 := by
    rw [Nat.or_assoc]
    exact or_flags (by simp) (by decide)
  rw [Nat.zero_add, initPageTableBody]
  by_cases hin : i = n
  · subst hin
    by_cases hvga : i = 0xB8
    · subst hvga
      refine ⟨?_, ?_⟩
      · simp [setTable, setTableVid]
      · simp [setTable, setTableVid]
    · have hvga' : ¬ i = vimMemIndex / fourKb := hvga
      simp only [if_neg hvga', if_neg hvga, hsix, setTable, setTableVid, Function.update_self,
        and_self]
  · have hold := hu i (by omega)
    by_cases hvga : n = vimMemIndex / fourKb
    · rw [if_pos hvga]
      simp only [setTable, setTableVid, Function.update_of_ne hin]
      exact hold
    · rw [if_neg hvga]
      simp only [setTable, setTableVid, Function.update_of_ne hin]
      exact hold

/-- The page table for the first 4 MB: only the page of VGA memory is present. -/
theorem initPageTable_table (hi : i < 1024) :
    t.initPageTable.pageTable i = if i = 0xB8 then 0xB8007 else i * 0x1000 + 6 := by
  simp only [initPageTable, setTableVid]
  exact (initPageTable_loop i hi).1

/-- The page table at one gigabyte: the first four pages are present. -/
theorem initPageTable_tableVid (hi : i < 1024) :
    t.initPageTable.pageTableVid i =
      if i < 4 then 0xB8000 + i * 0x1000 + 7 else i * 0x1000 + 6 := by
  have hloop := (initPageTable_loop (t := t) i hi).2
  simp only [initPageTable, setTableVid]
  generalize forRange initPageTableBody 0 numEntries t = u at hloop
  by_cases hlow : i < 4
  · rw [if_pos hlow]
    obtain rfl | rfl | rfl | rfl : i = 0 ∨ i = 1 ∨ i = 2 ∨ i = 3 := by omega
    · rfl
    · rfl
    · rfl
    · rfl
  · rw [if_neg hlow, Function.update_of_ne (by omega), Function.update_of_ne (by omega),
      Function.update_of_ne (by omega), Function.update_of_ne (by omega)]
    exact hloop

/-- The page directory: the first two entries and the one at one gigabyte are present. -/
theorem initializePage_directory (hi : i < 1024) :
    (t.initializePage p).pageDirectory i =
      if i = 0 then p.pageTable + 3 else if i = 1 then 0x400083
      else if i = 256 then p.pageTableVid + 7 else 2 := by
  have hloop : (forRange (fun (t : PageTables) i => t.setDirectory i rwFlag) 0 numEntries
      t).pageDirectory i = 2 := by
    refine forRange_invariant (P := fun n (u : PageTables) => ∀ i, i < n → u.pageDirectory i = 2)
      (fun i hi => absurd hi (Nat.not_lt_zero i)) ?_ i hi
    intro n u _ hu j hj
    rw [Nat.zero_add]
    by_cases hjn : j = n
    · rw [hjn]
      exact Function.update_self ..
    · exact (Function.update_of_ne hjn ..).trans (hu j (by omega))
  have hthree : p.pageTable ||| rwFlag ||| presentFlag = p.pageTable + 3 := by
    rw [Nat.or_assoc]
    exact or_flags p.pageTable_aligned (by decide)
  have hseven : p.pageTableVid ||| rwFlag ||| presentFlag ||| userFlag = p.pageTableVid + 7 := by
    rw [Nat.or_assoc, Nat.or_assoc]
    exact or_flags p.pageTableVid_aligned (by decide)
  simp only [initializePage, setDirectory, initPageTable_directory, hthree, hseven,
    Function.update_apply]
  by_cases hgig : i = oneGig / fourMb
  · rw [if_pos hgig, hgig]
    rfl
  · have hgig' : ¬ i = 256 := hgig
    rw [if_neg hgig, if_neg hgig']
    by_cases hone : i = 1
    · rw [if_pos hone, if_pos hone, if_neg (by omega)]
      rfl
    · rw [if_neg hone, if_neg hone]
      by_cases hzero : i = 0
      · rw [if_pos hzero, if_pos hzero]
      · rw [if_neg hzero, if_neg hzero]
        exact hloop

theorem initializePage_table (hi : i < 1024) :
    (t.initializePage p).pageTable i = if i = 0xB8 then 0xB8007 else i * 0x1000 + 6 := by
  simp only [initializePage, setDirectory]
  exact initPageTable_table hi

theorem initializePage_tableVid (hi : i < 1024) :
    (t.initializePage p).pageTableVid i =
      if i < 4 then 0xB8000 + i * 0x1000 + 7 else i * 0x1000 + 6 := by
  simp only [initializePage, setDirectory]
  exact initPageTable_tableVid hi

end PageTables

/-! ## The address space of a running kernel -/

/-- What the kernel writes to the entry of the user page: no page, or the frame of a process. -/
def UserEntry (e : Nat) : Prop := e = rwFlag ∨ ∃ q, q < maxProcesses ∧ e = frameEntry q

/-- What it writes to entry 0 of `page_table_vid`: VGA memory, or a backing page. -/
def VideoEntry (e : Nat) : Prop := e = vgaEntry ∨ ∃ term, term < numTerms ∧ e = backingEntry term

theorem frameEntry_eq (q : Nat) : frameEntry q = (0x800000 + q * 0x400000) + 0x87 := rfl

theorem backingEntry_eq (term : Nat) : backingEntry term = (0xB8000 + (term + 1) * 0x1000) + 7 := by
  rw [backingEntry, Nat.or_assoc, Nat.or_assoc]
  exact or_flags (by simp only [vimMemIndex, fourKb]; omega) (by decide)

/-- The frame of a process is a present page of 4 MB for user code. -/
theorem frameEntry_bits (q : Nat) : present (frameEntry q) = true ∧ large (frameEntry q) = true ∧
    forUser (frameEntry q) = true ∧ largePage (frameEntry q) = 0x800000 + q * 0x400000 := by
  rw [frameEntry_eq, present_add (by omega) (by omega), large_add (by omega) (by omega),
    forUser_add (by omega) (by omega), largePage_add (by omega) (by omega)]
  exact ⟨rfl, rfl, rfl, rfl⟩

/-- The user page never goes through a page table. -/
theorem UserEntry.not_table {e : Nat} (h : UserEntry e) (hpresent : present e = true) :
    large e = true := by
  rcases h with rfl | ⟨q, -, rfl⟩
  · cases hpresent
  · exact (frameEntry_bits q).2.1

/-- A page of the screens is a present page of 4 KB for user code. -/
theorem VideoEntry.bits {e : Nat} (h : VideoEntry e) : present e = true ∧ forUser e = true ∧
    smallPage e = frameOf e ∧ 0xB8000 ≤ frameOf e ∧ frameOf e ≤ 0xBB000 := by
  rcases h with rfl | ⟨term, hterm, rfl⟩
  · exact ⟨rfl, rfl, rfl, by decide, by decide⟩
  · rw [backingEntry_eq, present_add (by omega) (by omega), forUser_add (by omega) (by omega)]
    simp only [numTerms] at hterm
    refine ⟨rfl, rfl, rfl, ?_, ?_⟩
    · simp only [frameOf, fourKb]
      omega
    · simp only [frameOf, fourKb]
      omega

namespace Kernel

/-- The tables in a state: what `initialize_page` left, with the two entries rewritten since. -/
def pageTables (k : Kernel) (t : PageTables) (p : Placement) : PageTables :=
  ((t.initializePage p).setDirectory (oteMb / fourMb) k.pageDirectory32).setTableVid 0
    k.dev.disp.video.pageTableVid0

/-- The address space in a state. -/
def space (k : Kernel) (t : PageTables) (p : Placement) : PageSpace := (k.pageTables t p).space p

/-- At boot no entry has been rewritten. -/
theorem boot_pageTables (fs : FileSystem) (video : Nat → UInt8) (pcb : Nat → Pcb)
    (frames : Nat → UInt8) (esp ebp : Nat) (t : PageTables) (p : Placement) :
    (Kernel.boot fs video pcb frames esp ebp).pageTables t p = t.initializePage p := by
  have hdirectory : (t.initializePage p).pageDirectory 32 = 2 := by
    rw [PageTables.initializePage_directory (by omega)]
    rfl
  have htable : (t.initializePage p).pageTableVid 0 = vgaEntry := by
    rw [PageTables.initializePage_tableVid (by omega)]
    rfl
  show ((t.initializePage p).setDirectory 32 2).setTableVid 0 vgaEntry = _
  rw [PageTables.setTableVid, PageTables.setDirectory, ← hdirectory, ← htable,
    Function.update_eq_self, Function.update_eq_self]

variable {k : Kernel} {t : PageTables} {p : Placement} {a i j x : Nat}

/-! ## The entries, one by one -/

theorem space_directory (hi : i < 1024) : (k.space t p).directory i =
    if i = 32 then k.pageDirectory32
    else if i = 0 then p.pageTable + 3 else if i = 1 then 0x400083
    else if i = 256 then p.pageTableVid + 7 else 2 := by
  have hindex : oteMb / fourMb = 32 := rfl
  simp only [space, PageTables.space, pageTables, PageTables.setTableVid, PageTables.setDirectory,
    hindex]
  rw [Function.update_apply, PageTables.initializePage_directory hi]

/-- The table that entry 0 of the directory names. -/
theorem space_table (hj : j < 1024) : (k.space t p).table (smallPage (p.pageTable + 3)) j =
    if j = 0xB8 then 0xB8007 else j * 0x1000 + 6 := by
  rw [smallPage_add p.pageTable_aligned (by omega)]
  simp only [space, PageTables.space, pageTables, PageTables.setTableVid, PageTables.setDirectory,
    if_true]
  exact PageTables.initializePage_table hj

/-- The table that the entry for one gigabyte names. -/
theorem space_tableVid (hj : j < 1024) : (k.space t p).table (smallPage (p.pageTableVid + 7)) j =
    if j = 0 then k.dev.disp.video.pageTableVid0
    else if j < 4 then 0xB8000 + j * 0x1000 + 7 else j * 0x1000 + 6 := by
  rw [smallPage_add p.pageTableVid_aligned (by omega)]
  simp only [space, PageTables.space, pageTables, PageTables.setTableVid, PageTables.setDirectory,
    if_neg p.distinct.symm, if_true]
  rw [Function.update_apply, PageTables.initializePage_tableVid hj]

/-! ## The translation of every address -/

/-- Entry 0 maps nothing but the page of VGA memory, and that for kernel code only. -/
theorem walk_low (ha : a < 0x400000) :
    (k.space t p).walk a = if a / 0x1000 = 0xB8 then some (a, false) else none := by
  have hdir : a / 0x400000 = 0 := by omega
  have hj : a / 0x1000 % 1024 = a / 0x1000 := by omega
  have hentry : (k.space t p).directory (a / 0x400000) = p.pageTable + 3 := by
    rw [hdir, space_directory (by omega)]
    rfl
  have haligned := p.pageTable_aligned
  rw [PageSpace.walk]
  dsimp only
  rw [hentry, space_table (by omega), present_add haligned (by omega),
    large_add haligned (by omega), forUser_add haligned (by omega), hj]
  by_cases hvga : a / 0x1000 = 0xB8
  · rw [if_pos hvga, if_pos hvga]
    show some (0xB8000 + a % 0x1000, false) = some (a, false)
    congr 2
    omega
  · rw [if_neg hvga, if_neg hvga, present_add (by omega) (by omega)]
    rfl

/-- Entry 1 maps the kernel onto itself, for kernel code only. -/
theorem walk_kernel (hlo : 0x400000 ≤ a) (hhi : a < 0x800000) :
    (k.space t p).walk a = some (a, false) := by
  have hdir : a / 0x400000 = 1 := by omega
  have hentry : (k.space t p).directory (a / 0x400000) = 0x400083 := by
    rw [hdir, space_directory (by omega)]
    rfl
  rw [PageSpace.walk]
  dsimp only
  rw [hentry]
  show some (0x400000 + a % 0x400000, false) = some (a, false)
  congr 2
  omega

/-- The user page has the frame of a process, or is not there. -/
theorem walk_user_page (hdir : a / 0x400000 = 32) : (k.space t p).walk a =
    if present k.pageDirectory32 then
      if large k.pageDirectory32 then
        some (largePage k.pageDirectory32 + a % 0x400000, forUser k.pageDirectory32)
      else
        let pte := (k.space t p).table (smallPage k.pageDirectory32) (a / 0x1000 % 1024)
        if present pte then
          some (smallPage pte + a % 0x1000, forUser k.pageDirectory32 && forUser pte)
        else none
    else none := by
  have hentry : (k.space t p).directory (a / 0x400000) = k.pageDirectory32 := by
    rw [hdir, space_directory (by omega)]
    rfl
  rw [PageSpace.walk]
  dsimp only
  rw [hentry]

/-- The four pages of the screens. -/
theorem walk_video (hdir : a / 0x400000 = 256)
    (hvideo : VideoEntry k.dev.disp.video.pageTableVid0) : (k.space t p).walk a =
      if a < 0x40001000 then
        some (frameOf k.dev.disp.video.pageTableVid0 + a % 0x1000, true)
      else if a < 0x40004000 then some (0xB8000 + (a - 0x40000000), true)
      else none := by
  have hentry : (k.space t p).directory (a / 0x400000) = p.pageTableVid + 7 := by
    rw [hdir, space_directory (by omega)]
    rfl
  have haligned := p.pageTableVid_aligned
  obtain ⟨hpresent, huser, hpage, -⟩ := hvideo.bits
  have hflags : present 7 = true ∧ large 7 = false ∧ forUser 7 = true := ⟨rfl, rfl, rfl⟩
  rw [PageSpace.walk]
  dsimp only
  rw [hentry, space_tableVid (by omega), present_add haligned (by omega),
    large_add haligned (by omega), forUser_add haligned (by omega), hflags.1, hflags.2.1,
    hflags.2.2]
  simp only [if_true, Bool.false_eq_true, if_false, Bool.true_and]
  by_cases hfirst : a < 0x40001000
  · have hj : a / 0x1000 % 1024 = 0 := by omega
    rw [if_pos hfirst, hj, if_pos rfl, hpresent, huser, hpage]
    rfl
  · have hj : ¬ a / 0x1000 % 1024 = 0 := by omega
    rw [if_neg hfirst, if_neg hj]
    by_cases hback : a < 0x40004000
    · have hj' : a / 0x1000 % 1024 < 4 := by omega
      have hoffset : 0xB8000 + a / 0x1000 % 1024 * 0x1000 + a % 0x1000 =
          0xB8000 + (a - 0x40000000) := by omega
      rw [if_pos hback, if_pos hj', present_add (by omega) (by omega),
        forUser_add (by omega) (by omega), smallPage_add (by omega) (by omega), hflags.1,
        hflags.2.2, if_pos rfl, hoffset]
    · have hj' : ¬ a / 0x1000 % 1024 < 4 := by omega
      have hsix : present 6 = false := rfl
      rw [if_neg hback, if_neg hj', present_add (by omega) (by omega), hsix,
        if_neg Bool.false_ne_true]

/-- Nothing else is mapped. -/
theorem walk_elsewhere (ha : a < 2 ^ 32) (hhi : 0x800000 ≤ a) (huser : a / 0x400000 ≠ 32)
    (hvideo : a / 0x400000 ≠ 256) : (k.space t p).walk a = none := by
  have hentry : (k.space t p).directory (a / 0x400000) = 2 := by
    rw [space_directory (by omega), if_neg huser, if_neg (by omega), if_neg (by omega),
      if_neg hvideo]
  rw [PageSpace.walk]
  dsimp only
  rw [hentry]
  rfl

/-! ## What user code can write to -/

/-- The only page of 4 MB for user code is the frame of a process. -/
theorem userLarge_iff (huser : UserEntry k.pageDirectory32) (hi : i < 1024) :
    (k.space t p).UserLarge i ↔
      i = 32 ∧ ∃ q, q < maxProcesses ∧ k.pageDirectory32 = frameEntry q := by
  have hkernel : forUser 0x400083 = false := rfl
  have hempty : present 2 = false := rfl
  have hseven : large 7 = false := rfl
  have hthree : large 3 = false := rfl
  rw [PageSpace.UserLarge, space_directory hi]
  split_ifs with h32 hzero hone hgig
  · constructor
    · intro h
      rcases huser with hnone | hframe
      · rw [hnone] at h
        cases h.1
      · exact ⟨h32, hframe⟩
    · intro h
      obtain ⟨-, q, -, hframe⟩ := h
      obtain ⟨hpresent, hlarge, hforUser, -⟩ := frameEntry_bits q
      rw [hframe]
      exact ⟨hpresent, hlarge, hforUser⟩
  · rw [large_add p.pageTable_aligned (by omega), hthree]
    simp [h32]
  · simp [h32, hkernel]
  · rw [large_add p.pageTableVid_aligned (by omega), hseven]
    simp [h32]
  · simp [h32, hempty]

/-- The only table with pages for user code is `page_table_vid`. -/
theorem userTable_iff (huser : UserEntry k.pageDirectory32) (hi : i < 1024) :
    (k.space t p).UserTable i ↔ i = 256 := by
  have hkernel : large 0x400083 = true := rfl
  have hempty : present 2 = false := rfl
  have hthree : forUser 3 = false := rfl
  rw [PageSpace.UserTable, space_directory hi]
  split_ifs with h32 hzero hone hgig
  · constructor
    · intro h
      rw [huser.not_table h.1] at h
      cases h.2.1
    · intro h
      omega
  · rw [forUser_add p.pageTable_aligned (by omega), hthree]
    simp [hzero]
  · simp [hone, hkernel]
  · rw [present_add p.pageTableVid_aligned (by omega), large_add p.pageTableVid_aligned (by omega),
      forUser_add p.pageTableVid_aligned (by omega)]
    exact ⟨fun _ => hgig, fun _ => ⟨rfl, rfl, rfl⟩⟩
  · simp [hgig, hempty]

/-- Its first four entries map pages for user code, and no other. -/
theorem userSmall_iff (hvideo : VideoEntry k.dev.disp.video.pageTableVid0) (hj : j < 1024) :
    (k.space t p).UserSmall 256 j ↔ j < 4 := by
  obtain ⟨hpresent, huser, -⟩ := hvideo.bits
  have hsix : present 6 = false := rfl
  have hdir : (k.space t p).directory 256 = p.pageTableVid + 7 := by
    rw [space_directory (by omega)]
    rfl
  rw [PageSpace.UserSmall, hdir, space_tableVid hj]
  split_ifs with hzero hlow
  · rw [hpresent, huser]
    exact ⟨fun _ => by omega, fun _ => ⟨rfl, rfl⟩⟩
  · rw [present_add (by omega) (by omega), forUser_add (by omega) (by omega)]
    exact ⟨fun _ => hlow, fun _ => ⟨rfl, rfl⟩⟩
  · rw [present_add (by omega) (by omega), hsix]
    simp [hlow]

/-- The page that one of them maps. -/
theorem smallPage_video (hvideo : VideoEntry k.dev.disp.video.pageTableVid0) (hj : j < 4) :
    smallPage ((k.space t p).table (smallPage ((k.space t p).directory 256)) j) =
      if j = 0 then frameOf k.dev.disp.video.pageTableVid0 else 0xB8000 + j * 0x1000 := by
  have hdir : (k.space t p).directory 256 = p.pageTableVid + 7 := by
    rw [space_directory (by omega)]
    rfl
  rw [hdir, space_tableVid (by omega)]
  split_ifs
  · exact hvideo.bits.2.2.1
  · rw [smallPage_add (by omega) (by omega)]

/-- The frame of the process that the user page maps, and the pages of the screens. -/
theorem userReaches_iff (huser : UserEntry k.pageDirectory32)
    (hvideo : VideoEntry k.dev.disp.video.pageTableVid0) : (k.space t p).UserReaches x ↔
      (∃ q, q < maxProcesses ∧ k.pageDirectory32 = frameEntry q ∧
        0x800000 + q * 0x400000 ≤ x ∧ x < 0x800000 + (q + 1) * 0x400000) ∨
      (frameOf k.dev.disp.video.pageTableVid0 ≤ x ∧
        x < frameOf k.dev.disp.video.pageTableVid0 + 0x1000) ∨
      (0xB9000 ≤ x ∧ x < 0xBC000) := by
  have hdir : (k.space t p).directory 32 = k.pageDirectory32 := by
    rw [space_directory (by omega)]
    rfl
  rw [PageSpace.userReaches_iff]
  constructor
  · intro h
    rcases h with ⟨i, hi, hlarge, hlo, hhi⟩ | ⟨i, j, hi, hj, htable, hsmall, hlo, hhi⟩
    · obtain ⟨rfl, q, hq, hframe⟩ := (userLarge_iff huser hi).1 hlarge
      rw [hdir, hframe, (frameEntry_bits q).2.2.2] at hlo hhi
      exact .inl ⟨q, hq, hframe, hlo, by omega⟩
    · obtain rfl := (userTable_iff huser hi).1 htable
      have hlow := (userSmall_iff hvideo hj).1 hsmall
      rw [smallPage_video hvideo hlow] at hlo hhi
      by_cases hzero : j = 0
      · rw [if_pos hzero] at hlo hhi
        exact .inr (.inl ⟨hlo, hhi⟩)
      · rw [if_neg hzero] at hlo hhi
        exact .inr (.inr ⟨by omega, by omega⟩)
  · intro h
    rcases h with ⟨q, hq, hframe, hlo, hhi⟩ | ⟨hlo, hhi⟩ | ⟨hlo, hhi⟩
    · refine .inl ⟨32, by omega, (userLarge_iff huser (by omega)).2 ⟨rfl, q, hq, hframe⟩, ?_, ?_⟩
      · rw [hdir, hframe, (frameEntry_bits q).2.2.2]
        exact hlo
      · rw [hdir, hframe, (frameEntry_bits q).2.2.2]
        omega
    · refine .inr ⟨256, 0, by omega, by omega, (userTable_iff huser (by omega)).2 rfl,
        (userSmall_iff hvideo (by omega)).2 (by omega), ?_, ?_⟩
      · rw [smallPage_video hvideo (by omega), if_pos rfl]
        exact hlo
      · rw [smallPage_video hvideo (by omega), if_pos rfl]
        exact hhi
    · have hj : ¬ (x - 0xB8000) / 0x1000 = 0 := by omega
      refine .inr ⟨256, (x - 0xB8000) / 0x1000, by omega, by omega,
        (userTable_iff huser (by omega)).2 rfl, (userSmall_iff hvideo (by omega)).2 (by omega), ?_,
        ?_⟩
      · rw [smallPage_video hvideo (by omega), if_neg hj]
        omega
      · rw [smallPage_video hvideo (by omega), if_neg hj]
        omega

/-! ## The addresses of the kernel's own stores -/

/-- On the user page `userAddress` is the translation. -/
theorem walk_userAddress (huser : UserEntry k.pageDirectory32) (hdir : a / 0x400000 = 32) :
    (k.space t p).walk a = (k.userAddress a 1).map fun x => (x, true) := by
  rw [walk_user_page hdir, userAddress]
  simp only [oteMb, fourMb]
  rcases huser with hnone | ⟨q, -, hframe⟩
  · have hout : ¬ (0x8000000 ≤ a ∧ a + 1 ≤ 0x8000000 + 0x400000 ∧
        k.pageDirectory32 % 2 = 1) := by
      rw [hnone]
      simp only [rwFlag]
      omega
    rw [if_neg hout, hnone]
    rfl
  · obtain ⟨hpresent, hlarge, hforUser, hpage⟩ := frameEntry_bits q
    have hodd : frameEntry q % 2 = 1 := by
      rw [frameEntry_eq]
      omega
    have hoffset : a % 0x400000 = a - 0x8000000 := by omega
    rw [hframe, hpresent, hlarge, hforUser, if_pos rfl, if_pos rfl, hoffset,
      if_pos ⟨by omega, by omega, hodd⟩]
    rfl

/-- On the pages at one gigabyte `Video.address` is the translation. -/
theorem walk_address (hvideo : VideoEntry k.dev.disp.video.pageTableVid0)
    (hdir : a / 0x400000 = 256) : (k.space t p).walk a =
      (k.dev.disp.video.address ((a - 0x40000000 : Nat) : Int)).map fun x => (x, true) := by
  have hoffset : a % 0x1000 = (a - 0x40000000) % 0x1000 := by omega
  rw [walk_video hdir hvideo, Video.address, Int.toNat_natCast, hoffset]
  generalize hn : a - 0x40000000 = n
  by_cases hfirst : n < 0x1000
  · have hin : 0 ≤ (n : Int) ∧ (n : Int) < (fourKb : Nat) := by
      simp only [fourKb]
      omega
    have hmod : n % 0x1000 = n := by omega
    rw [if_pos (by omega), if_pos hin, hmod]
    rfl
  · have hin : ¬ (0 ≤ (n : Int) ∧ (n : Int) < (fourKb : Nat)) := by
      simp only [fourKb]
      omega
    rw [if_neg (by omega), if_neg hin]
    by_cases hback : n < 0x4000
    · have hin' : (fourKb : Int) ≤ n ∧ (n : Int) < 4 * (fourKb : Nat) := by
        simp only [fourKb]
        omega
      rw [if_pos (by omega), if_pos hin']
      rfl
    · have hin' : ¬ ((fourKb : Int) ≤ n ∧ (n : Int) < 4 * (fourKb : Nat)) := by
        simp only [fourKb]
        omega
      rw [if_neg (by omega), if_neg hin']
      rfl

end Kernel

end Ece391Kernel
