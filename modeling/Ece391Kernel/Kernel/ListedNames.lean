import Ece391Kernel.Files.Lookup
import Ece391Kernel.Kernel.Listings

/-!
# Opening what was listed

`dir_read` and `read_dentry_by_name` each deal with names that fill their field in a way of their
own. They agree (`listed_name_opens`): the 33 bytes that a listing stores are a string, and lead
back to the entry they came from.
-/

namespace Ece391Kernel

namespace Directory

variable {fs : FileSystem} {dir : Directory fs} {i : Nat}

/-- The bytes of a name have no NUL among them. -/
theorem name_ne (dir : Directory fs) (i : Nat) : ∀ c ∈ dir.name i, c ≠ 0 := by
  rw [dir.name_eq]
  exact fun c hc => cString_ne c (List.mem_of_mem_take hc)

theorem name_length_le (dir : Directory fs) (i : Nat) : (dir.name i).length ≤ 32 := by
  rw [dir.name_eq, List.length_take]
  exact Nat.min_le_left 32 _

/-- The name is the string in the bytes of a listing, whatever follows them. -/
theorem cString_listing (hi : i < dir.count) (after : List UInt8) :
    cString ((dir.listing i).2 ++ after) = dir.name i := by
  have hle := dir.name_length_le i
  have hpad : 33 - (dir.name i).length = 32 - (dir.name i).length + 1 := by omega
  rw [listing, if_pos hi]
  dsimp only
  rw [hpad, List.replicate_succ, List.append_assoc, List.cons_append]
  exact cString_append (dir.name_ne i)

/-- With distinct names, the first entry with a name is the only one. -/
theorem lookup_listing
    (hdistinct : ∀ i j, i < dir.count → j < dir.count → dir.name i = dir.name j → i = j)
    (hi : i < dir.count) (after : List UInt8) :
    dir.lookup ((dir.listing i).2 ++ after) = some (FileSystem.dentryOf (dir.entry i)) := by
  have hstring := cString_listing hi after
  cases hlookup : dir.lookup ((dir.listing i).2 ++ after) with
  | none => exact absurd hstring.symm (dir.lookup_none hlookup i hi)
  | some entry =>
      obtain ⟨j, hlowest, rfl⟩ := dir.lookup_lowest hlookup
      rw [hdistinct j i hlowest.lt hi (hlowest.name_eq.trans hstring)]

end Directory

namespace Kernel

variable {k : Kernel}

/-- The loop of `sys_open` finds the lowest free descriptor. -/
theorem LowestFree.firstClosed_eq {fd : Nat} (h : k.LowestFree k.getProcessNumber fd) :
    firstClosed k.currentPcb.fileDesc minTask (maxTask - minTask) = some fd := by
  have hlo := h.lo
  have hhi := h.hi
  cases hfound : firstClosed k.currentPcb.fileDesc minTask (maxTask - minTask) with
  | none => exact absurd h.free (firstClosed_none.1 hfound fd hlo (by simpa using hhi))
  | some fd' =>
      obtain ⟨hlo', hhi', hfree', hlower⟩ := firstClosed_some hfound
      obtain hlt | rfl | hgt := Nat.lt_trichotomy fd fd'
      · exact absurd h.free (hlower fd hlo hlt)
      · rfl
      · exact absurd hfree' (h.lowest fd' hlo' hgt)

/-- What `sys_open` leaves in the descriptor that it chooses. A device or a directory has no
inode. -/
theorem openAs_desc {dentry : Dentry} (htype : dentry.fileType ≤ 2) (fd : Nat) (d : FileDesc) :
    (k.openAs fd { d with flags := 1, filePosition := 0 } dentry).2.desc k.getProcessNumber fd =
      ⟨some (tableOf dentry.fileType),
        if dentry.fileType = typeFile then dentry.inodeNum else 0xFFFFFFFF, 0, 1⟩ := by
  have hset : ∀ (k₀ : Kernel) (d' : FileDesc), k₀.getProcessNumber = k.getProcessNumber →
      (k₀.setDesc fd d').desc k.getProcessNumber fd = d' := by
    intro k₀ d' hnum
    rw [setDesc_desc, if_pos ⟨hnum.symm, rfl⟩]
  obtain h | h | h : dentry.fileType = 0 ∨ dentry.fileType = 1 ∨ dentry.fileType = 2 := by omega
  · simp only [openAs, tableOf, h, typeRtc, typeFile, if_true]
    exact hset { k with dev := k.dev.rtcOpen.2 } _ rfl
  · simp only [openAs, tableOf, h, typeRtc, typeDir, typeFile]
    exact hset k _ rfl
  · simp only [openAs, tableOf, h, typeRtc, typeDir, typeFile]
    exact hset k _ rfl

end Kernel

/-- The bytes are the name of the entry as a string in 33 bytes, and the count is its length. -/
structure Directory.Spelled {fs : FileSystem} (dir : Directory fs) (i : Nat) (count : Int)
    (bytes : List UInt8) : Prop where
  length_eq : bytes.length = 33
  count_eq : count = (dir.name i).length
  count_pos : 0 < count
  name_eq : bytes.take count.toNat = dir.name i
  nul : bytes[count.toNat]? = some 0
  strlen_eq : strlen bytes = count.toNat

/-- The string finds just this entry, and `sys_open` opens it with its type and its inode. -/
structure Directory.LeadsTo {fs : FileSystem} (dir : Directory fs) (i : Nat) (fname : List UInt8) :
    Prop where
  finds : fs.readDentryByName fname = some (some (FileSystem.dentryOf (dir.entry i)))
  fills : ∀ dentry : List UInt8, dentry.length = 64 → ∃ filled,
    fs.findDentry fname dentry = some (0, filled) ∧
      FileSystem.dentryOf filled = FileSystem.dentryOf (dir.entry i)
  opens : ∀ (k : Kernel) (fd : Nat), k.fs = fs → k.LowestFree k.getProcessNumber fd →
    ∃ k', k.sysOpen fname = some ((fd : Int), k') ∧
      k'.desc k.getProcessNumber fd =
        ⟨some (Kernel.tableOf (FileSystem.dentryOf (dir.entry i)).fileType),
          if (FileSystem.dentryOf (dir.entry i)).fileType = typeFile then
            (FileSystem.dentryOf (dir.entry i)).inodeNum else 0xFFFFFFFF, 0, 1⟩

namespace Directory

variable {fs : FileSystem} {dir : Directory fs} {i : Nat}

theorem listing_spelled (hnames : ∀ i, i < dir.count → dir.name i ≠ []) (hi : i < dir.count) :
    dir.Spelled i (dir.listing i).1 (dir.listing i).2 := by
  have hle := dir.name_length_le i
  have hpos := List.length_pos_iff.2 (hnames i hi)
  have hstring := cString_listing hi []
  rw [List.append_nil] at hstring
  have hstrlen : strlen (dir.listing i).2 = (dir.name i).length := congrArg List.length hstring
  rw [listing, if_pos hi] at hstrlen ⊢
  refine ⟨?_, rfl, by omega, ?_, ?_, hstrlen⟩
  · simp only [List.length_append, List.length_replicate]
    omega
  · exact List.take_left' rfl
  · show (dir.name i ++ List.replicate (33 - (dir.name i).length) 0)[(dir.name i).length]? = some 0
    rw [List.getElem?_append_right (Nat.le_refl _), Nat.sub_self, List.getElem?_replicate_of_lt]
    omega

/-- A string that the lookup takes to an entry leads to it everywhere. -/
theorem leadsTo_of_lookup {fname : List UInt8}
    (h : dir.lookup fname = some (FileSystem.dentryOf (dir.entry i))) : dir.LeadsTo i fname := by
  have hfinds : fs.readDentryByName fname = some (some (FileSystem.dentryOf (dir.entry i))) := by
    rw [dir.readDentryByName_eq, h]
  refine ⟨hfinds, fun dentry hdentry => ?_, fun k fd hfs hfree => ?_⟩
  · obtain ⟨⟨ret, filled⟩, hfind, hfills⟩ := dir.findDentry_fills fname hdentry
    rw [h] at hfills
    obtain ⟨hret, hentry⟩ := hfills
    cases hret
    exact ⟨filled, hfind, hentry⟩
  · have hclosed : Kernel.firstClosed k.currentPcb.fileDesc minTask (maxTask - minTask) = some fd :=
      hfree.firstClosed_eq
    have hret := Kernel.openAs_spec (k := k) (dir.lookup_type_le h) fd (k.currentPcb.fileDesc fd)
    refine ⟨_, ?_, Kernel.openAs_desc (dir.lookup_type_le h) fd (k.currentPcb.fileDesc fd)⟩
    simp only [Kernel.sysOpen, hfs, hfinds, hclosed, Option.bind_eq_bind, Option.bind_some]
    exact congrArg some (Prod.ext hret.1 rfl)

end Directory

namespace Kernel

variable {fs : FileSystem} {k : Kernel}

/-- In a directory with distinct non-empty names, a `dir_read` that stores anything stores, whatever
was in its local variable, the name of the entry it stands at as a string in 33 bytes, whose length
it returns; and with any bytes behind them this string leads back to just that entry. -/
theorem listed_name_opens (dir : Directory fs)
    (hnames : ∀ i, i < dir.count → dir.name i ≠ [])
    (hdistinct : ∀ i j, i < dir.count → j < dir.count → dir.name i = dir.name j → i = j)
    (hfs : k.fs = fs) {buf : Nat} {r : Int × List UInt8 × Kernel} (hread : k.dirRead buf = some r)
    (hstored : r.2.1 ≠ []) :
    k.dirLocation < dir.count ∧
      (∀ dentry out : List UInt8, dentry.length = 64 → fs.listName k.dirLocation dentry out =
        some (r.1, r.2.1 ++ out.drop 33, k.dirLocation + 1)) ∧
      dir.Spelled k.dirLocation r.1 r.2.1 ∧
      ∀ after : List UInt8, dir.LeadsTo k.dirLocation (r.2.1 ++ after) := by
  have hlisting := (dirRead_listing dir hfs hread).1
  have hlt : k.dirLocation < dir.count := by
    by_contra hge
    rw [Directory.listing, if_neg hge] at hlisting
    exact hstored (Prod.mk.inj hlisting).2
  obtain ⟨hcount, hbytes⟩ : r.1 = (dir.listing k.dirLocation).1 ∧
      r.2.1 = (dir.listing k.dirLocation).2 := Prod.mk.inj hlisting
  refine ⟨hlt, fun dentry out hdentry => ?_, ?_, fun after => ?_⟩
  · rw [dir.listName_eq hlt hdentry out, hcount, hbytes, Directory.listing, if_pos hlt]
  · rw [hcount, hbytes]
    exact Directory.listing_spelled hnames hlt
  · rw [hbytes]
    exact Directory.leadsTo_of_lookup (Directory.lookup_listing hdistinct hlt after)

theorem rootDirectory_distinct : ∀ i, i < rootDirectory.count → ∀ j, j < rootDirectory.count →
    rootDirectory.name i = rootDirectory.name j → i = j := by
  decide +kernel

/-- The first process lists the entry `shell` and may open it by what it read. -/
theorem listed_name_opens_root : ∃ r,
    ({ rootShell.kernel with dirLocation := 1 } : Kernel).dirRead 0x08000000 = some r ∧
      ∀ after, rootDirectory.LeadsTo 1 (r.2.1 ++ after) := by
  have hsome : (({ rootShell.kernel with dirLocation := 1 } : Kernel).dirRead 0x08000000).isSome =
      true := by decide +kernel
  obtain ⟨r, hr⟩ := Option.isSome_iff_exists.1 hsome
  have hlisting := (dirRead_listing rootDirectory rfl hr).1
  have hstored : r.2.1 ≠ [] := by
    rw [(Prod.mk.inj hlisting).2]
    decide +kernel
  exact ⟨r, hr, (listed_name_opens rootDirectory rootDirectory_names
    (fun i j hi hj => rootDirectory_distinct i hi j hj) rfl hr hstored).2.2.2⟩

end Kernel

end Ece391Kernel
