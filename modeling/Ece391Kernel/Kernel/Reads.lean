import Mathlib.Algebra.GroupWithZero.Nat
import Ece391Kernel.Kernel.Descriptors
import Ece391Kernel.Files.Image

/-!
# Reading a regular file

`sys_read` on a descriptor of a regular file of a well-formed image, one call (`read_exact_iff`)
and a sequence of calls that ends when a call returns 0 (`readUntilZero_eq_iff`).
`read_data` never looks at the length of the file again once the offset is below it, so a request
that reaches past the end returns more bytes than there are.
-/

namespace Ece391Kernel

/-! ## The length of what `read_data` copies -/

theorem FileSystem.readDataLoop_length {fs : FileSystem} {inode rounds : Nat} {b bOffset n : Nat}
    {bytes : List UInt8} (hoffset : bOffset < 4096)
    (h : fs.readDataLoop inode b bOffset n rounds = some bytes) : bytes.length = n := by
  induction rounds generalizing b bOffset n bytes with
  | zero => cases h
  | succ rounds ih =>
      simp only [FileSystem.readDataLoop, Option.bind_eq_bind, Option.bind_eq_some_iff] at h
      obtain ⟨dest, -, h⟩ := h
      by_cases hlast : n ≤ blockSize - bOffset
      · rw [if_pos hlast] at h
        exact loadBytes_length h
      · rw [if_neg hlast] at h
        simp only [Option.bind_eq_some_iff] at h
        obtain ⟨block, hblock, rest, hrest, heq⟩ := h
        cases heq
        have hfirst := loadBytes_length hblock
        have hnext := ih (by omega) hrest
        simp only [blockSize] at hlast hfirst hnext
        rw [List.length_append]
        omega

theorem FileSystem.readData_length {fs : FileSystem} {inode offset n : Nat}
    {r : Nat × List UInt8} (h : fs.readData inode offset n = some r) : r.2.length = r.1 := by
  simp only [FileSystem.readData, Option.bind_eq_bind, Option.bind_eq_some_iff] at h
  obtain ⟨length, -, h⟩ := h
  split at h
  · cases h
    rfl
  · simp only [Option.bind_eq_some_iff] at h
    obtain ⟨bytes, hbytes, heq⟩ := h
    cases heq
    exact FileSystem.readDataLoop_length (Nat.mod_lt _ (by decide)) hbytes

namespace Kernel

/-- The range lies in the caller's user page. -/
structure UserBuffer (k : Kernel) (buf n : Nat) : Prop where
  lo : oteMb ≤ buf
  hi : buf + n ≤ oteMb + fourMb
  present : k.pageDirectory32 % 2 = 1

/-- Descriptor `fd` of the running process is open on file `inode` of the image, at `pos`. -/
structure OpenFile (k : Kernel) {fs : FileSystem} (img : Image fs) (fd inode pos : Nat) :
    Prop where
  fs_eq : k.fs = fs
  fd_lt : fd < 8
  isOpen : (k.currentPcb.fileDesc fd).flags % 2 = 1
  table : (k.currentPcb.fileDesc fd).fotPtr = some .file
  inode_eq : (k.currentPcb.fileDesc fd).inode = inode
  inode_lt : inode < img.inodes
  position : (k.currentPcb.fileDesc fd).filePosition = pos
  pos_lt : pos < 0x100000000

variable {k : Kernel} {fs : FileSystem} {img : Image fs} {fd inode pos buf n : Nat}

theorem storeUser_of_buffer (bytes : List UInt8) (h : k.UserBuffer buf bytes.length) :
    ∃ k', k.storeUser buf bytes = some k' := by
  unfold storeUser
  split
  · exact ⟨k, rfl⟩
  · rw [userAddress, if_pos ⟨h.lo, h.hi, h.present⟩]
    exact ⟨_, rfl⟩

/-- Storing in the user page changes nothing but its frame. -/
theorem storeUser_frame {k' : Kernel} {bytes : List UInt8}
    (h : k.storeUser buf bytes = some k') : ∃ frames, k' = { k with frames } := by
  unfold storeUser at h
  split at h
  · cases h
    exact ⟨k.frames, rfl⟩
  · simp only [Option.bind_eq_bind, Option.bind_eq_some_iff] at h
    obtain ⟨base, -, heq⟩ := h
    cases heq
    exact ⟨_, rfl⟩

/-- `sys_read` on a regular file is `fread`. -/
theorem sysRead_file (h : k.OpenFile img fd inode pos) (buf : Nat) (nbytes : Int) :
    k.sysRead fd buf nbytes = k.fread fd buf nbytes := by
  have hfd : ¬ ((fd : Int) < 0 ∨ (maxTask : Int) ≤ fd) := by
    have := h.fd_lt
    simp only [maxTask]
    omega
  have hopen : ¬ (k.currentPcb.fileDesc (fd : Int).toNat).flags % 2 = 0 := by
    rw [Int.toNat_natCast, h.isOpen]
    decide
  rw [sysRead, if_neg hfd, if_neg hopen, Int.toNat_natCast, h.table]

/-- `fread` stores what `read_data` copies and advances the position by what it returns. -/
theorem fread_eq (h : k.OpenFile img fd inode pos) (hn : n < 0x80000000) {r : Nat × List UInt8}
    (hread : fs.readData inode pos n = some r) {k' : Kernel}
    (hstore : k.storeUser buf r.2 = some k') :
    k.fread fd buf n = some (i32 r.1, r.2,
      k'.setDesc fd { k.currentPcb.fileDesc fd with
        filePosition := (pos + r.1) % 0x100000000 }) := by
  have hn' : u32 (n : Int) = n := u32_natCast (by omega)
  simp only [fread, h.fs_eq, h.inode_eq, h.position, hn', hread, hstore, Option.bind_eq_bind,
    Option.bind_some]

/-- The call returns `min(nbytes, length − position)`, stores exactly these bytes of the file in
the buffer, and advances the position by as much. -/
def ReadExact (k : Kernel) {fs : FileSystem} (img : Image fs) (fd inode pos buf n : Nat) : Prop :=
  let count := min n (img.fileLength inode - pos)
  ∃ k', k.storeUser buf (img.fileBytes inode pos count) = some k' ∧
    k.sysRead fd buf n = some ((count : Int), img.fileBytes inode pos count,
      k'.setDesc fd { k.currentPcb.fileDesc fd with filePosition := pos + count })

/-- Past the end, and inside the file, the call does what it should. -/
theorem read_exact (h : k.OpenFile img fd inode pos) (hn : n < 0x80000000)
    (hbuf : k.UserBuffer buf (min n (img.fileLength inode - pos)))
    (hfits : img.fileLength inode ≤ pos ∨ pos + n ≤ img.fileLength inode) :
    k.ReadExact img fd inode pos buf n := by
  have hpos := h.pos_lt
  have hread : fs.readData inode pos n = some (min n (img.fileLength inode - pos),
      img.fileBytes inode pos (min n (img.fileLength inode - pos))) := by
    by_cases hpast : img.fileLength inode ≤ pos
    · have hzero : min n (img.fileLength inode - pos) = 0 := by omega
      rw [img.readData_past h.inode_lt hpast, hzero]
      rfl
    · have hall : min n (img.fileLength inode - pos) = n := by omega
      rw [img.readData_eq h.inode_lt (by omega) (by omega), hall]
  have hlength := img.length_le inode h.inode_lt
  have hfile : img.fileLength inode ≤ 1023 * 4096 := hlength
  obtain ⟨k', hstore⟩ := storeUser_of_buffer
    (img.fileBytes inode pos (min n (img.fileLength inode - pos)))
    (by rwa [img.fileBytes_length])
  refine ⟨k', hstore, ?_⟩
  have hmod : (pos + min n (img.fileLength inode - pos)) % 0x100000000 =
      pos + min n (img.fileLength inode - pos) := by omega
  have hret : i32 (min n (img.fileLength inode - pos)) =
      ((min n (img.fileLength inode - pos) : Nat) : Int) := i32_of_lt (by omega)
  rw [sysRead_file h, fread_eq h hn hread hstore, hmod, hret]

/-- What any returning call does before the end of the file: it returns `n`. -/
theorem read_inside (h : k.OpenFile img fd inode pos) (hn : n < 0x80000000)
    (hpos : pos < img.fileLength inode) {r : Int × List UInt8 × Kernel}
    (hcall : k.sysRead fd buf n = some r) : r.1 = n ∧ r.2.1.length = n := by
  have hn' : u32 (n : Int) = n := u32_natCast (by omega)
  rw [sysRead_file h] at hcall
  simp only [fread, h.fs_eq, h.inode_eq, h.position, hn', Option.bind_eq_bind,
    Option.bind_eq_some_iff] at hcall
  obtain ⟨⟨val, bytes⟩, hread, k', -, heq⟩ := hcall
  have hcount := img.readData_count h.inode_lt hpos hread
  have hlength := FileSystem.readData_length hread
  cases heq
  simp only at hcount hlength
  refine ⟨?_, hlength.trans hcount⟩
  rw [hcount]
  exact i32_of_lt hn

/-- One call is exact precisely when it starts past the end or asks for no more than is left. -/
theorem read_exact_iff (h : k.OpenFile img fd inode pos) (hn : n < 0x80000000)
    (hbuf : k.UserBuffer buf (min n (img.fileLength inode - pos))) :
    k.ReadExact img fd inode pos buf n ↔
      img.fileLength inode ≤ pos ∨ pos + n ≤ img.fileLength inode := by
  constructor
  · rintro ⟨k', -, hcall⟩
    by_contra hlong
    have hret := (read_inside h hn (by omega) hcall).1
    simp only at hret
    omega
  · exact read_exact h hn hbuf

/-! ## Reading to the end -/

/-- Calls with the given buffers and sizes until one returns 0: the concatenation of the bytes
returned. `none` when a call does not return or no call returns 0. -/
def readUntilZero (k : Kernel) (fd : Nat) : List (Nat × Nat) → Option (List UInt8)
  | [] => none
  | (buf, n) :: requests => do
      let (ret, bytes, k') ← k.sysRead fd buf n
      if ret = 0 then some []
      else do
        let more ← readUntilZero k' fd requests
        some (bytes.take ret.toNat ++ more)

/-- Some requests at the beginning add up to `left`, and there is another one after them. -/
def AddUpTo (left : Nat) (sizes : List Nat) : Prop :=
  ∃ done next rest, sizes = done ++ next :: rest ∧ done.sum = left

theorem addUpTo_cons {left n : Nat} {sizes : List Nat} (hleft : 0 < left) :
    AddUpTo left (n :: sizes) ↔ n ≤ left ∧ AddUpTo (left - n) sizes := by
  constructor
  · rintro ⟨done, next, rest, hsizes, hsum⟩
    cases done with
    | nil =>
        rw [List.sum_nil] at hsum
        omega
    | cons first done =>
        rw [List.cons_append, List.cons.injEq] at hsizes
        obtain ⟨rfl, hsizes⟩ := hsizes
        rw [List.sum_cons] at hsum
        exact ⟨by omega, done, next, rest, hsizes, by omega⟩
  · rintro ⟨hle, done, next, rest, hsizes, hsum⟩
    refine ⟨n :: done, next, rest, by rw [hsizes, List.cons_append], ?_⟩
    rw [List.sum_cons]
    omega

/-- The descriptor after a call inside the file. -/
theorem OpenFile.advance (h : k.OpenFile img fd inode pos) {k' : Kernel} {frames : Nat → UInt8}
    (hk' : k' = { k with frames }) (pos' : Nat) (hpos' : pos' < 0x100000000) :
    (k'.setDesc fd { k.currentPcb.fileDesc fd with filePosition := pos' }).OpenFile
      img fd inode pos' := by
  subst hk'
  have hcur : (({ k with frames } : Kernel).setDesc fd
      { k.currentPcb.fileDesc fd with filePosition := pos' }).currentPcb.fileDesc fd =
      { k.currentPcb.fileDesc fd with filePosition := pos' } := by
    simp [setDesc, setPcb, currentPcb, getProcessNumber]
  refine ⟨h.fs_eq, h.fd_lt, ?_, ?_, ?_, h.inode_lt, ?_, hpos'⟩
  · rw [hcur]
    exact h.isOpen
  · rw [hcur]
    exact h.table
  · rw [hcur]
    exact h.inode_eq
  · rw [hcur]

/-- A request at the end of the file returns 0. -/
theorem readUntilZero_end (h : k.OpenFile img fd inode pos) (hend : img.fileLength inode = pos)
    (hn : n < 0x80000000) (hbuf : k.UserBuffer buf n) (requests : List (Nat × Nat)) :
    k.readUntilZero fd ((buf, n) :: requests) = some [] := by
  have hcount : min n (img.fileLength inode - pos) = 0 := by omega
  have hbuf' : k.UserBuffer buf (min n (img.fileLength inode - pos)) :=
    ⟨hbuf.lo, by have := hbuf.hi; omega, hbuf.present⟩
  obtain ⟨k', -, hcall⟩ := read_exact h hn hbuf' (.inl (by omega))
  have hret : ((0 : Nat) : Int) = 0 := rfl
  rw [hcount] at hcall
  simp only [readUntilZero, hcall, Option.bind_eq_bind, Option.bind_some, hret, if_true]

/-- A request for no more than is left returns the next `n` bytes of the file. -/
theorem readUntilZero_next (h : k.OpenFile img fd inode pos) (hpos : 0 < n)
    (hfits : pos + n ≤ img.fileLength inode) (hn : n < 0x80000000) (hbuf : k.UserBuffer buf n)
    (requests : List (Nat × Nat)) :
    ∃ k' : Kernel, k'.OpenFile img fd inode (pos + n) ∧
      (∀ a m, k.UserBuffer a m → k'.UserBuffer a m) ∧
      k.readUntilZero fd ((buf, n) :: requests) =
        (k'.readUntilZero fd requests).map (img.fileBytes inode pos n ++ ·) := by
  have hlength : img.fileLength inode ≤ 1023 * 4096 := img.length_le inode h.inode_lt
  have hall : min n (img.fileLength inode - pos) = n := by omega
  obtain ⟨k₁, hstore, hcall⟩ := read_exact h hn (hall.symm ▸ hbuf) (.inr hfits)
  obtain ⟨frames, hframes⟩ := storeUser_frame hstore
  rw [hall] at hcall
  have hopen := h.advance hframes (pos + n) (by omega)
  refine ⟨_, hopen, fun a m hbuffer => ?_, ?_⟩
  · subst hframes
    exact ⟨hbuffer.lo, hbuffer.hi, hbuffer.present⟩
  · have hne : ¬ ((n : Nat) : Int) = 0 := by omega
    have htake : (img.fileBytes inode pos n).take n = img.fileBytes inode pos n :=
      List.take_of_length_le (Nat.le_of_eq (img.fileBytes_length _ _ _))
    simp only [readUntilZero, hcall, Option.bind_eq_bind, Option.bind_some, if_neg hne,
      Int.toNat_natCast, htake]
    rw [Option.map_eq_bind]
    rfl

/-- After a request for more than is left, the bytes returned are too many. -/
theorem readUntilZero_past (h : k.OpenFile img fd inode pos) (hpos : pos < img.fileLength inode)
    (hpast : img.fileLength inode < pos + n) (hn : n < 0x80000000) (requests : List (Nat × Nat)) :
    k.readUntilZero fd ((buf, n) :: requests) ≠
      some (img.fileBytes inode pos (img.fileLength inode - pos)) := by
  intro hread
  simp only [readUntilZero, Option.bind_eq_bind, Option.bind_eq_some_iff] at hread
  obtain ⟨r, hcall, hread⟩ := hread
  obtain ⟨hret, hbytes⟩ := read_inside h hn hpos hcall
  have hne : ¬ r.1 = 0 := by omega
  rw [if_neg hne, Option.bind_eq_some_iff] at hread
  obtain ⟨more, -, heq⟩ := hread
  have hlen := congrArg List.length (Option.some.inj heq)
  rw [List.length_append, List.length_take, img.fileBytes_length, hret, hbytes] at hlen
  omega

/-- Reading with positive sizes until a call returns 0 yields exactly the rest of the file
precisely when the sizes add up to its length before another request. -/
theorem readUntilZero_eq_iff (requests : List (Nat × Nat)) (h : k.OpenFile img fd inode pos)
    (hpos : pos ≤ img.fileLength inode)
    (hsizes : ∀ r ∈ requests, 0 < r.2 ∧ r.2 < 0x80000000 ∧ k.UserBuffer r.1 r.2) :
    k.readUntilZero fd requests =
        some (img.fileBytes inode pos (img.fileLength inode - pos)) ↔
      AddUpTo (img.fileLength inode - pos) (requests.map Prod.snd) := by
  -- On the requests; the file and the position change with every call.
  induction requests generalizing k pos with
  | nil =>
      constructor
      · intro hread
        cases hread
      · rintro ⟨done, next, rest, hsizes, -⟩
        exact absurd hsizes.symm (by simp)
  | cons request requests ih =>
      obtain ⟨buf, n⟩ := request
      obtain ⟨hn, hn', hbuf⟩ := hsizes (buf, n) List.mem_cons_self
      by_cases hend : img.fileLength inode = pos
      · have hleft : img.fileLength inode - pos = 0 := by omega
        rw [readUntilZero_end h hend hn' hbuf, hleft]
        exact ⟨fun _ => ⟨[], n, requests.map Prod.snd, rfl, rfl⟩, fun _ => rfl⟩
      · rw [List.map_cons, addUpTo_cons (by omega)]
        by_cases hfits : pos + n ≤ img.fileLength inode
        · obtain ⟨k', hopen, hbuffers, hread⟩ := readUntilZero_next h hn hfits hn' hbuf requests
          have hrest := ih hopen hfits fun r hr => by
            obtain ⟨hlo, hhi, hbuffer⟩ := hsizes r (List.mem_cons_of_mem _ hr)
            exact ⟨hlo, hhi, hbuffers _ _ hbuffer⟩
          have hleft : img.fileLength inode - pos = n + (img.fileLength inode - (pos + n)) := by
            omega
          have hadd : img.fileLength inode - (pos + n) = img.fileLength inode - pos - n := by omega
          rw [hread, hleft, img.fileBytes_add, Option.map_eq_some_iff, ← hleft, ← hadd]
          constructor
          · rintro ⟨more, hmore, heq⟩
            rw [List.append_cancel_left heq] at hmore
            exact ⟨by omega, hrest.1 hmore⟩
          · rintro ⟨-, hsum⟩
            exact ⟨_, hrest.2 hsum, rfl⟩
        -- A request past the end returns its whole size, the bytes behind the file included.
        · refine ⟨fun hread => ?_, fun hsum => ?_⟩
          · exact absurd hread
              (readUntilZero_past h (by omega) (Nat.not_le.1 hfits) hn' requests)
          · exact absurd hsum.1 (by omega)

/-- When reading a regular file does what it should: one call, exactly when it starts at or past
the end or asks for no more than is left; and a sequence of positive requests that ends with a
call returning 0, exactly when the requests add up to the length of the file before one more. -/
theorem file_reads_iff {fs : FileSystem} (img : Image fs) (k : Kernel) (fd inode pos : Nat)
    (h : k.OpenFile img fd inode pos) :
    (∀ buf n, n < 0x80000000 → k.UserBuffer buf (min n (img.fileLength inode - pos)) →
      (k.ReadExact img fd inode pos buf n ↔
        img.fileLength inode ≤ pos ∨ pos + n ≤ img.fileLength inode)) ∧
    (pos = 0 → ∀ requests : List (Nat × Nat),
      (∀ r ∈ requests, 0 < r.2 ∧ r.2 < 0x80000000 ∧ k.UserBuffer r.1 r.2) →
      (k.readUntilZero fd requests = some (img.contents inode) ↔
        AddUpTo (img.fileLength inode) (requests.map Prod.snd))) := by
  constructor
  · intro buf n hn hbuf
    exact read_exact_iff h hn hbuf
  · rintro rfl requests hsizes
    exact readUntilZero_eq_iff requests h (Nat.zero_le _) hsizes

/-- The first process, with descriptor 2 open on the program of the small image. -/
def readingShell : Kernel :=
  { Kernel.boot shellFs (fun _ => 0) (fun _ => Pcb.zero) (fun _ => 0) 0x7FFF00 0x7FFF80 with
    pageDirectory32 := frameEntry 0
    pcb := fun _ => { Pcb.zero with fileDesc := fun _ => ⟨some .file, 0, 0, 1⟩ } }

theorem readingShell_open : readingShell.OpenFile shellImage 2 0 0 :=
  ⟨rfl, by decide, rfl, rfl, rfl, by decide, rfl, by decide⟩

theorem readingShell_buffer {n : Nat} (hn : n ≤ 4096) : readingShell.UserBuffer 0x08000000 n :=
  ⟨Nat.le_refl _, by simp only [oteMb, fourMb]; omega, by decide⟩

/-- Two reads of 40 bytes return the 40 bytes of the program and then 0. -/
theorem file_reads_shell :
    readingShell.ReadExact shellImage 2 0 0 0x08000000 40 ∧
      readingShell.readUntilZero 2 [(0x08000000, 40), (0x08000000, 40)] =
        some (shellImage.contents 0) := by
  have hlength : shellImage.fileLength 0 = 40 := by decide
  obtain ⟨hone, hall⟩ := file_reads_iff shellImage readingShell 2 0 0 readingShell_open
  constructor
  · refine (hone 0x08000000 40 (by decide) (readingShell_buffer ?_)).2 (.inr ?_)
    · omega
    · omega
  · refine (hall rfl [(0x08000000, 40), (0x08000000, 40)] ?_).2 ?_
    · intro r hr
      obtain rfl : r = (0x08000000, 40) := by simpa using hr
      exact ⟨by decide, by decide, readingShell_buffer (by decide)⟩
    · exact ⟨[40], 40, [], rfl, hlength.symm⟩

/-- A read of 64 bytes of the 40 is not exact. -/
theorem read_past_end :
    ¬ ∀ (k : Kernel) (fs : FileSystem) (img : Image fs) (fd inode pos buf n : Nat),
      k.OpenFile img fd inode pos → n < 0x80000000 →
      k.UserBuffer buf (min n (img.fileLength inode - pos)) →
      k.ReadExact img fd inode pos buf n := by
  intro h
  have hlength : shellImage.fileLength 0 = 40 := by decide
  have hbuf : readingShell.UserBuffer 0x08000000 (min 64 (shellImage.fileLength 0 - 0)) :=
    readingShell_buffer (by omega)
  have hexact := h readingShell shellFs shellImage 2 0 0 0x08000000 64 readingShell_open (by decide)
    hbuf
  have hfits := (read_exact_iff readingShell_open (by decide) hbuf).1 hexact
  rw [hlength] at hfits
  omega

end Kernel

end Ece391Kernel
