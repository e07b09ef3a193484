import Ece391Kernel.Files.FileSystem

/-!
# Images that need not be well-formed

`RawImage fs` says only that the memory at `boot_block` holds an image of the size that its boot
block gives. Its inodes may name any length and any block numbers. `readDataLoop_eq` is what the
loop of `read_data` does where the block numbers that it meets are those of data blocks.
-/

namespace Ece391Kernel

/-- The 32-bit number at an offset. -/
def word (byte : Nat → UInt8) (o : Nat) : Nat :=
  le32 [byte o, byte (o + 1), byte (o + 2), byte (o + 3)]

/-- An image at `boot_block` that is all present. -/
structure RawImage (fs : FileSystem) where
  inodes : Nat
  blocks : Nat
  byte : Nat → UInt8
  fits : fs.bootBlock + 4096 * (1 + inodes + blocks) ≤ 0x100000000
  present : ∀ o, o < 4096 * (1 + inodes + blocks) → fs.mem (fs.bootBlock + o) = some (byte o)
  inodeCount_eq : word byte 4 = inodes
  dataCount_eq : word byte 8 = blocks

namespace RawImage

variable {fs : FileSystem} (img : RawImage fs)

/-- The bytes that the image occupies. -/
def size : Nat := 4096 * (1 + img.inodes + img.blocks)

/-- The length that an inode gives. -/
def fileLength (inode : Nat) : Nat := word img.byte (4096 * (1 + inode))

/-- `data_block_num[b]` of an inode. -/
def blockNum (inode b : Nat) : Nat := word img.byte (4096 * (1 + inode) + 4 + 4 * b)

/-- The byte of the image that the block numbers of an inode give for position `k`. -/
def fileByte (inode k : Nat) : UInt8 :=
  img.byte (4096 * (1 + img.inodes + img.blockNum inode (k / 4096)) + k % 4096)

/-- The bytes from `offset` on. -/
def fileBytes (inode offset n : Nat) : List UInt8 :=
  (List.range n).map fun k => img.fileByte inode (offset + k)

theorem fileBytes_length (inode offset n : Nat) : (img.fileBytes inode offset n).length = n := by
  simp [fileBytes]

theorem fileBytes_add (inode offset n k : Nat) :
    img.fileBytes inode offset (n + k) =
      img.fileBytes inode offset n ++ img.fileBytes inode (offset + n) k := by
  simp [fileBytes, List.range_add, Nat.add_assoc]

/-- Loading from the image. -/
theorem loadBytes_eq {o n : Nat} (h : o + n ≤ 4096 * (1 + img.inodes + img.blocks)) :
    loadBytes fs.mem (fs.bootBlock + o) n =
      some ((List.range n).map fun i => img.byte (o + i)) := by
  refine loadBytes_of_bytes fun i hi => ?_
  have hfits := img.fits
  have haddr : (fs.bootBlock + o + i) % 0x100000000 = fs.bootBlock + (o + i) := by omega
  rw [haddr]
  exact img.present (o + i) (by omega)

theorem load32_eq {o : Nat} (h : o + 4 ≤ 4096 * (1 + img.inodes + img.blocks)) :
    load32 fs.mem (fs.bootBlock + o) = some (word img.byte o) := by
  rw [load32, img.loadBytes_eq h]
  rfl

theorem inodeCount_some : fs.inodeCount = some img.inodes := by
  rw [FileSystem.inodeCount, img.load32_eq (by omega), img.inodeCount_eq]

variable {inode : Nat}

theorem inodeLength_eq (hinode : inode < img.inodes) :
    fs.inodeLength inode = some (img.fileLength inode) := by
  have haddr : fs.inodeAddr inode = fs.bootBlock + 4096 * (1 + inode) := by
    simp only [FileSystem.inodeAddr, blockSize]
    omega
  rw [FileSystem.inodeLength, haddr]
  exact img.load32_eq (by omega)

/-- An entry of `data_block_num`, or what follows it, where that is still in the image. -/
theorem blockAddr_eq {b : Nat}
    (hb : 4096 * (1 + inode) + 8 + 4 * b ≤ 4096 * (1 + img.inodes + img.blocks)) :
    fs.blockAddr inode b =
      some (fs.bootBlock + 4096 * (1 + img.inodes + img.blockNum inode b)) := by
  have haddr : fs.inodeAddr inode + 4 + 4 * b =
      fs.bootBlock + (4096 * (1 + inode) + 4 + 4 * b) := by
    simp only [FileSystem.inodeAddr, blockSize]
    omega
  have hnum : load32 fs.mem (fs.inodeAddr inode + 4 + 4 * b) = some (img.blockNum inode b) := by
    rw [haddr]
    exact img.load32_eq (by omega)
  have hsum : blockSize * (img.blockNum inode b + img.inodes + 1) + fs.bootBlock =
      fs.bootBlock + 4096 * (1 + img.inodes + img.blockNum inode b) := by
    simp only [blockSize]
    omega
  simp only [FileSystem.blockAddr, hnum, img.inodeCount_some, Option.bind_eq_bind,
    Option.bind_some, hsum]

/-- The bytes inside one data block. Where none are asked for, the block number may be anything. -/
theorem loadBytes_block (b bOffset n : Nat) (hn : bOffset + n ≤ 4096)
    (hb : 0 < n → img.blockNum inode b < img.blocks) :
    loadBytes fs.mem
      (fs.bootBlock + 4096 * (1 + img.inodes + img.blockNum inode b) + bOffset) n =
      some (img.fileBytes inode (4096 * b + bOffset) n) := by
  cases n with
  | zero => rfl
  | succ n =>
      have hblock := hb (Nat.succ_pos n)
      rw [Nat.add_assoc, img.loadBytes_eq (by omega)]
      refine congrArg some (List.map_congr_left fun i hi => ?_)
      have hi' : i < n + 1 := List.mem_range.1 hi
      have hdiv : (4096 * b + bOffset + i) / 4096 = b := by omega
      have hmod : (4096 * b + bOffset + i) % 4096 = bOffset + i := by omega
      rw [fileByte, hdiv, hmod, Nat.add_assoc]

/-- The loop of `read_data` where the blocks of the range are data blocks of the image. -/
theorem readDataLoop_eq (hinode : inode < img.inodes) (b bOffset n rounds : Nat)
    (hoffset : bOffset < 4096)
    (hentry : 4096 * (1 + inode) + 8 + 4 * b ≤ 4096 * (1 + img.inodes + img.blocks))
    (hend : 4096 * b + bOffset + n ≤ 1023 * 4096)
    (hblocks : ∀ i, i < n → img.blockNum inode ((4096 * b + bOffset + i) / 4096) < img.blocks)
    (hrounds : n < rounds) :
    fs.readDataLoop inode b bOffset n rounds =
      some (img.fileBytes inode (4096 * b + bOffset) n) := by
  induction rounds generalizing b bOffset n with
  | zero => exact absurd hrounds (Nat.not_lt_zero n)
  | succ rounds ih =>
      have hfirstNum : 0 < n → img.blockNum inode b < img.blocks := by
        intro hn
        have hdiv : (4096 * b + bOffset + 0) / 4096 = b := by omega
        have hnum := hblocks 0 hn
        rwa [hdiv] at hnum
      simp only [FileSystem.readDataLoop, img.blockAddr_eq hentry, Option.bind_eq_bind,
        Option.bind_some, blockSize]
      by_cases hlast : n ≤ 4096 - bOffset
      · rw [if_pos hlast]
        exact img.loadBytes_block b bOffset n (by omega) hfirstNum
      · -- the rest of this block, then the range from the next block on
        have hfirst := img.loadBytes_block b bOffset (4096 - bOffset) (by omega)
          fun _ => hfirstNum (by omega)
        have hroom : inode + 1 ≤ img.inodes := hinode
        have hnext : 4096 * (b + 1) + 0 = 4096 * b + bOffset + (4096 - bOffset) := by omega
        have hblocks' : ∀ i, i < n - (4096 - bOffset) →
            img.blockNum inode ((4096 * (b + 1) + 0 + i) / 4096) < img.blocks := by
          intro i hi
          have hnum := hblocks ((4096 - bOffset) + i) (by omega)
          rwa [← Nat.add_assoc, ← hnext] at hnum
        have hrest := ih (b + 1) 0 (n - (4096 - bOffset)) (by omega) (by omega) (by omega)
          hblocks' (by omega)
        have hsum : n = (4096 - bOffset) + (n - (4096 - bOffset)) := by omega
        rw [hnext] at hrest
        rw [if_neg hlast, hfirst, hrest]
        simp only [Option.bind_some]
        rw [← img.fileBytes_add, ← hsum]

/-- `read_data` where the blocks of the range are data blocks of the image. -/
theorem readData_eq {offset n : Nat} (hinode : inode < img.inodes)
    (hoffset : offset < img.fileLength inode)
    (hentry : 4096 * (1 + inode) + 8 + 4 * (offset / 4096) ≤
      4096 * (1 + img.inodes + img.blocks))
    (hend : offset + n ≤ 1023 * 4096)
    (hblocks : ∀ i, i < n → img.blockNum inode ((offset + i) / 4096) < img.blocks) :
    fs.readData inode offset n = some (n, img.fileBytes inode offset n) := by
  have hsplit : 4096 * (offset / 4096) + offset % 4096 = offset := Nat.div_add_mod offset 4096
  have hloop := img.readDataLoop_eq hinode (offset / 4096) (offset % 4096) n (n + 1)
    (Nat.mod_lt _ (by omega)) hentry (by omega) (by rwa [hsplit]) (Nat.lt_succ_self n)
  rw [hsplit] at hloop
  simp only [FileSystem.readData, img.inodeLength_eq hinode, Option.bind_eq_bind,
    Option.bind_some, if_neg (Nat.not_le.2 hoffset), blockSize, hloop]

end RawImage

end Ece391Kernel
