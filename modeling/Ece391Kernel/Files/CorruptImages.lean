import Ece391Kernel.Files.Image

/-!
# `read_data` on a corrupt image

An image may name inodes and data blocks that it does not have, and give a length that its inode
has no room for. `read_data` checks none of this. `readData_robust_iff` says exactly on which
arguments it still does what a check would make it do: it stays inside `data_block_num` and inside
the image, and there is nothing to reject.
-/

namespace Ece391Kernel

namespace FileSystem

/-! ## The entries of `data_block_num` that are read -/

/-- The values of `blk_idx` in the loop of `read_data`, when `length` bytes are left. -/
def blockIndices (blkIdx bOffset length : Nat) : Nat → List Nat
  | 0 => []
  | rounds + 1 =>
      blkIdx :: if length ≤ blockSize - bOffset then []
        else blockIndices (blkIdx + 1) 0 (length - (blockSize - bOffset)) rounds

/-- The values of `blk_idx` in `read_data`. -/
def readIndices (fs : FileSystem) (inode offset length : Nat) : List Nat :=
  match fs.inodeLength inode with
  | none => []
  | some fileLength =>
      if fileLength ≤ offset then []
      else blockIndices (offset / blockSize) (offset % blockSize) length (length + 1)

/-- The first entry is read in any case, the others as far as the bytes go. -/
theorem mem_blockIndices {b blkIdx bOffset length rounds : Nat} (hoffset : bOffset < 4096)
    (hrounds : length < rounds) :
    b ∈ blockIndices blkIdx bOffset length rounds ↔
      b = blkIdx ∨ blkIdx < b ∧ 4096 * b < 4096 * blkIdx + bOffset + length := by
  induction rounds generalizing blkIdx bOffset length with
  | zero => exact absurd hrounds (Nat.not_lt_zero length)
  | succ rounds ih =>
      simp only [blockIndices, blockSize, List.mem_cons]
      by_cases hlast : length ≤ 4096 - bOffset
      · rw [if_pos hlast]
        simp only [List.not_mem_nil, or_false]
        omega
      · rw [if_neg hlast, ih (by omega) (by omega)]
        omega

variable {fs : FileSystem} {inode offset length : Nat}

/-- Before the end of the file these are the entries for the range, and the first one anyway. -/
theorem mem_readIndices {fileLength : Nat} (hlength : fs.inodeLength inode = some fileLength)
    (hoffset : offset < fileLength) {b : Nat} : b ∈ fs.readIndices inode offset length ↔
      b = offset / 4096 ∨ offset / 4096 < b ∧ 4096 * b < offset + length := by
  have hindices : fs.readIndices inode offset length =
      blockIndices (offset / 4096) (offset % 4096) length (length + 1) := by
    rw [readIndices, hlength]
    exact if_neg (Nat.not_le.2 hoffset)
  rw [hindices, mem_blockIndices (Nat.mod_lt _ (by omega)) (Nat.lt_succ_self _),
    Nat.div_add_mod offset 4096]

/-- `read_data` returns 0, or the count asked for after it went through the loop. -/
theorem readData_value {r : Nat × List UInt8} (h : fs.readData inode offset length = some r) :
    r.1 = 0 ∨ r.1 = length ∧
      ∃ fileLength, fs.inodeLength inode = some fileLength ∧ offset < fileLength := by
  simp only [readData, Option.bind_eq_bind, Option.bind_eq_some_iff] at h
  obtain ⟨fileLength, hlength, h⟩ := h
  by_cases hpast : fileLength ≤ offset
  · rw [if_pos hpast] at h
    cases h
    exact .inl rfl
  · rw [if_neg hpast] at h
    simp only [Option.bind_eq_some_iff] at h
    obtain ⟨bytes, -, heq⟩ := h
    cases heq
    exact .inr ⟨rfl, fileLength, hlength, Nat.not_le.1 hpast⟩

/-! ## Termination -/

theorem loadBytes_total {m : Memory} (hm : ∀ a, (m a).isSome) (a n : Nat) :
    ∃ bytes, loadBytes m a n = some bytes := by
  induction n generalizing a with
  | zero => exact ⟨[], rfl⟩
  | succ n ih =>
      obtain ⟨b, hb⟩ := Option.isSome_iff_exists.1 (hm (a % 0x100000000))
      obtain ⟨bs, hbs⟩ := ih (a + 1)
      exact ⟨b :: bs, by simp only [loadBytes, hb, hbs, Option.bind_eq_bind, Option.bind_some]⟩

theorem load32_total {m : Memory} (hm : ∀ a, (m a).isSome) (a : Nat) :
    ∃ n, load32 m a = some n := by
  obtain ⟨bytes, hbytes⟩ := loadBytes_total hm a 4
  exact ⟨le32 bytes, by rw [load32, hbytes, Option.map_some]⟩

theorem blockAddr_total (hm : ∀ a, (fs.mem a).isSome) (inode b : Nat) :
    ∃ dest, fs.blockAddr inode b = some dest := by
  obtain ⟨num, hnum⟩ := load32_total hm (fs.inodeAddr inode + 4 + 4 * b)
  obtain ⟨count, hcount⟩ := load32_total hm (fs.bootBlock + 4)
  refine ⟨blockSize * (num + count + 1) + fs.bootBlock, ?_⟩
  simp only [blockAddr, inodeCount, hnum, hcount, Option.bind_eq_bind, Option.bind_some]

/-- Each round of the loop copies at least one byte or is the last. -/
theorem readDataLoop_total (hm : ∀ a, (fs.mem a).isSome) (inode b bOffset n : Nat) {rounds : Nat}
    (hoffset : bOffset < 4096) (hrounds : n < rounds) :
    ∃ bytes, fs.readDataLoop inode b bOffset n rounds = some bytes := by
  induction rounds generalizing b bOffset n with
  | zero => exact absurd hrounds (Nat.not_lt_zero n)
  | succ rounds ih =>
      obtain ⟨dest, hdest⟩ := blockAddr_total hm inode b
      simp only [readDataLoop, hdest, Option.bind_eq_bind, Option.bind_some, blockSize]
      by_cases hlast : n ≤ 4096 - bOffset
      · rw [if_pos hlast]
        exact loadBytes_total hm _ _
      · obtain ⟨block, hblock⟩ := loadBytes_total hm (dest + bOffset) (4096 - bOffset)
        obtain ⟨rest, hrest⟩ := ih (b + 1) 0 (n - (4096 - bOffset)) (by omega) (by omega)
        rw [if_neg hlast, hblock, hrest]
        exact ⟨block ++ rest, rfl⟩

/-- Where every page is present, `read_data` returns, whatever is in memory. -/
theorem readData_total (hm : ∀ a, (fs.mem a).isSome) (inode offset length : Nat) :
    (fs.readData inode offset length).isSome := by
  obtain ⟨fileLength, hlength⟩ := load32_total hm (fs.inodeAddr inode)
  obtain ⟨bytes, hbytes⟩ := readDataLoop_total hm inode (offset / 4096) (offset % 4096) length
    (Nat.mod_lt offset (by omega)) (Nat.lt_succ_self length)
  simp only [readData, inodeLength, hlength, Option.bind_eq_bind, Option.bind_some, blockSize,
    hbytes]
  split <;> rfl

end FileSystem

/-! ## Robust reads -/

namespace RawImage

variable {fs : FileSystem} (img : RawImage fs) (inode offset length : Nat)

/-- The image with nothing else in memory: an access outside it does not return. -/
def alone : FileSystem where
  mem := fun a => if fs.bootBlock ≤ a ∧ a < fs.bootBlock + img.size then fs.mem a else none
  bootBlock := fs.bootBlock

/-- It is still an image. -/
def aloneImage : RawImage img.alone where
  inodes := img.inodes
  blocks := img.blocks
  byte := img.byte
  fits := img.fits
  present := fun o ho =>
    (if_pos ⟨Nat.le_add_right _ _, Nat.add_lt_add_left ho _⟩).trans (img.present o ho)
  inodeCount_eq := img.inodeCount_eq
  dataCount_eq := img.dataCount_eq

/-- The inode number is bad, or the range has a position whose block number is bad. -/
def BadRead : Prop :=
  img.inodes ≤ inode ∨ offset < img.fileLength inode ∧
    ∃ k, k < length ∧ (offset + k) / 4096 ≤ 1022 ∧
      img.blocks ≤ img.blockNum inode ((offset + k) / 4096)

/-- `read_data` returns, reads no entry after `data_block_num[1022]` and no byte outside the image,
and rejects what is bad with −1, which is 0xFFFFFFFF in 32 bits. -/
structure ReadsRobustly : Prop where
  returns : (fs.readData inode offset length).isSome
  entries : ∀ b ∈ fs.readIndices inode offset length, b ≤ 1022
  inside : img.alone.readData inode offset length = fs.readData inode offset length
  rejects : img.BadRead inode offset length →
    ∀ r, fs.readData inode offset length = some r → r.1 = 0xFFFFFFFF

/-- There is nothing to reject: the inode is one of the image, and inside the file the range ends
in one of the 1023 blocks and its block numbers are those of data blocks. -/
structure GoodRead : Prop where
  inode_lt : inode < img.inodes
  last_lt : offset < img.fileLength inode → offset + (length - 1) < 1023 * 4096
  blocks_lt : offset < img.fileLength inode →
    ∀ k, k < length → img.blockNum inode ((offset + k) / 4096) < img.blocks

variable {img inode offset length}

theorem GoodRead.robust (h : img.GoodRead inode offset length) :
    img.ReadsRobustly inode offset length := by
  have hinode := h.inode_lt
  have hbad : ¬ img.BadRead inode offset length := by
    intro hbad
    rcases hbad with hlarge | ⟨hoffset, k, hk, -, hnum⟩
    · omega
    · exact absurd hnum (Nat.not_le.2 (h.blocks_lt hoffset k hk))
  by_cases hoffset : offset < img.fileLength inode
  · have hlast := h.last_lt hoffset
    have hentry : 4096 * (1 + inode) + 8 + 4 * (offset / 4096) ≤
        4096 * (1 + img.inodes + img.blocks) := by omega
    have hread := img.readData_eq hinode hoffset hentry (by omega) (h.blocks_lt hoffset)
    have halone := img.aloneImage.readData_eq hinode hoffset hentry (by omega)
      (h.blocks_lt hoffset)
    refine ⟨by rw [hread]; rfl, fun b hb => ?_, halone.trans hread.symm,
      fun h => absurd h hbad⟩
    rw [FileSystem.mem_readIndices (img.inodeLength_eq hinode) hoffset] at hb
    omega
  · have hpast := Nat.not_lt.1 hoffset
    have hread : fs.readData inode offset length = some (0, []) := by
      simp only [FileSystem.readData, img.inodeLength_eq hinode, Option.bind_eq_bind,
        Option.bind_some, if_pos hpast]
    have halone : img.alone.readData inode offset length = some (0, []) := by
      have hlength : img.alone.inodeLength inode = some (img.fileLength inode) :=
        img.aloneImage.inodeLength_eq hinode
      simp only [FileSystem.readData, hlength, Option.bind_eq_bind, Option.bind_some,
        if_pos hpast]
    refine ⟨by rw [hread]; rfl, fun b hb => ?_, halone.trans hread.symm,
      fun h => absurd h hbad⟩
    rw [FileSystem.readIndices, img.inodeLength_eq hinode] at hb
    simp only [if_pos hpast, List.not_mem_nil] at hb

/-- The only count that is −1 does not fit in the 1023 blocks. -/
theorem ReadsRobustly.not_bad (h : img.ReadsRobustly inode offset length) :
    ¬ img.BadRead inode offset length := by
  intro hbad
  obtain ⟨r, hr⟩ := Option.isSome_iff_exists.1 h.returns
  have hvalue := h.rejects hbad r hr
  rcases FileSystem.readData_value hr with hzero | ⟨hcount, fileLength, hlength, hoffset⟩
  · omega
  · have hmem : (offset + (length - 1)) / 4096 ∈ fs.readIndices inode offset length := by
      rw [FileSystem.mem_readIndices hlength hoffset]
      omega
    have hlast := h.entries _ hmem
    omega

theorem ReadsRobustly.good (h : img.ReadsRobustly inode offset length) :
    img.GoodRead inode offset length := by
  have hbad := h.not_bad
  have hinode : inode < img.inodes := by
    by_contra hlarge
    exact hbad (.inl (Nat.not_lt.1 hlarge))
  have hlast : offset < img.fileLength inode → offset + (length - 1) < 1023 * 4096 := by
    intro hoffset
    have hmem : (offset + (length - 1)) / 4096 ∈ fs.readIndices inode offset length := by
      rw [FileSystem.mem_readIndices (img.inodeLength_eq hinode) hoffset]
      omega
    have hle := h.entries _ hmem
    omega
  refine ⟨hinode, hlast, fun hoffset k hk => ?_⟩
  by_contra hnum
  have hend := hlast hoffset
  exact hbad (.inr ⟨hoffset, k, hk, by omega, Nat.not_lt.1 hnum⟩)

/-- `read_data` always returns where memory is present, and it is robust exactly when there is
nothing to reject. -/
theorem readData_robust_iff (img : RawImage fs) (inode offset length : Nat) :
    ((∀ a, (fs.mem a).isSome) → (fs.readData inode offset length).isSome) ∧
      (img.ReadsRobustly inode offset length ↔ img.GoodRead inode offset length) :=
  ⟨fun hm => FileSystem.readData_total hm inode offset length,
    fun h => h.good, fun h => h.robust⟩

/-- The small image has no inode 1, but `read_data` takes the data block in its place for one. -/
theorem bad_inode_read : ¬ ∀ (fs : FileSystem) (img : RawImage fs) (inode offset length : Nat),
    img.ReadsRobustly inode offset length := by
  intro hall
  exact (hall shellFs shellImage.toRawImage 1 0 1).not_bad (.inl (Nat.le_refl 1))

end RawImage

end Ece391Kernel
