import Ece391Kernel.Files.RawImages

/-!
# Well-formed images

`Image fs` says that the memory at `boot_block` holds a well-formed image, and gives its files as
sequences of bytes. `readData_eq` is what `read_data` does inside a file: the loop over the
blocks returns exactly the bytes asked for.
-/

namespace Ece391Kernel

/-- A well-formed image at `boot_block`: no inode is longer than 1023 blocks, and the block numbers
that a file uses are inside the image. -/
structure Image (fs : FileSystem) extends RawImage fs where
  length_le : ∀ i, i < inodes → toRawImage.fileLength i ≤ 1023 * 4096
  block_lt : ∀ i, i < inodes → ∀ b, 4096 * b < toRawImage.fileLength i →
    toRawImage.blockNum i b < blocks

/-! ## Small images -/

/-- The byte at an offset, in a table of the bytes that are not zero. -/
def tableByte (bytes : List (Nat × UInt8)) (o : Nat) : UInt8 := (bytes.lookup o).getD 0

/-- Three blocks at address 0x500000. -/
def smallFs (bytes : List (Nat × UInt8)) : FileSystem where
  mem := fun a =>
    if 0x500000 ≤ a ∧ a < 0x503000 then some (tableByte bytes (a - 0x500000)) else none
  bootBlock := 0x500000

theorem smallFs_mem (bytes : List (Nat × UInt8)) {o : Nat} (ho : o < 0x3000) :
    (smallFs bytes).mem (0x500000 + o) = some (tableByte bytes o) := by
  have hin : 0x500000 ≤ 0x500000 + o ∧ 0x500000 + o < 0x503000 := by omega
  show (if 0x500000 ≤ 0x500000 + o ∧ 0x500000 + o < 0x503000 then
    some (tableByte bytes (0x500000 + o - 0x500000)) else none) = _
  rw [if_pos hin, Nat.add_sub_cancel_left]

/-- A boot block, one inode, and one data block that holds its file. -/
def smallImage (bytes : List (Nat × UInt8)) (hinodes : word (tableByte bytes) 4 = 1)
    (hblocks : word (tableByte bytes) 8 = 1) (hlength : word (tableByte bytes) 4096 ≤ 4096)
    (hblock : word (tableByte bytes) 4100 = 0) : Image (smallFs bytes) where
  inodes := 1
  blocks := 1
  byte := tableByte bytes
  fits := (by decide : 0x500000 + 4096 * (1 + 1 + 1) ≤ 0x100000000)
  present := fun o ho => smallFs_mem bytes (by omega)
  inodeCount_eq := hinodes
  dataCount_eq := hblocks
  length_le := by
    intro i hi
    obtain rfl : i = 0 := by omega
    exact Nat.le_trans hlength (by omega)
  block_lt := by
    intro i hi b hb
    obtain rfl : i = 0 := by omega
    have hb' : 4096 * b < word (tableByte bytes) 4096 := hb
    obtain rfl : b = 0 := by omega
    show word (tableByte bytes) 4100 < 1
    omega

/-- The bytes of a small image that are not zero: one directory entry `shell`, one inode of 40
bytes, and one data block that holds an executable header with entry point 0x08048000. -/
def shellBytes : List (Nat × UInt8) :=
  [(0, 1), (4, 1), (8, 1), (64, 0x73), (65, 0x68), (66, 0x65), (67, 0x6C), (68, 0x6C), (96, 2),
    (4096, 40), (8192, 0x7F), (8193, 0x45), (8194, 0x4C), (8195, 0x46), (8217, 0x80), (8218, 0x04),
    (8219, 0x08)]

/-- The small image with the shell. -/
def shellFs : FileSystem := smallFs shellBytes

/-- It is well-formed. -/
def shellImage : Image shellFs :=
  smallImage shellBytes (by decide) (by decide) (by decide) (by decide)

namespace Image

variable {fs : FileSystem} (img : Image fs)

/-- The whole file. -/
def contents (inode : Nat) : List UInt8 := img.fileBytes inode 0 (img.fileLength inode)

variable {inode : Nat}

/-- Inside a file, `read_data` returns the bytes asked for. -/
theorem readData_eq {offset n : Nat} (hinode : inode < img.inodes)
    (hpos : offset < img.fileLength inode) (hn : offset + n ≤ img.fileLength inode) :
    fs.readData inode offset n = some (n, img.fileBytes inode offset n) := by
  have hlength : img.fileLength inode ≤ 1023 * 4096 := img.length_le inode hinode
  refine img.toRawImage.readData_eq hinode hpos ?_ (Nat.le_trans hn hlength) fun i hi => ?_
  · show 4096 * (1 + inode) + 8 + 4 * (offset / 4096) ≤ 4096 * (1 + img.inodes + img.blocks)
    omega
  · exact img.block_lt inode hinode _ (show 4096 * ((offset + i) / 4096) < img.fileLength inode
      by omega)

/-- At or past the end, `read_data` returns 0. -/
theorem readData_past {offset : Nat} (hinode : inode < img.inodes)
    (hpos : img.fileLength inode ≤ offset) (n : Nat) :
    fs.readData inode offset n = some (0, []) := by
  simp only [FileSystem.readData, img.inodeLength_eq hinode, Option.bind_eq_bind,
    Option.bind_some, if_pos hpos]

/-- Before the end, `read_data` claims to have read all it was asked for. -/
theorem readData_count {offset n : Nat} {r : Nat × List UInt8} (hinode : inode < img.inodes)
    (hpos : offset < img.fileLength inode) (h : fs.readData inode offset n = some r) :
    r.1 = n := by
  simp only [FileSystem.readData, img.inodeLength_eq hinode, Option.bind_eq_bind,
    Option.bind_some, if_neg (Nat.not_le.2 hpos), Option.bind_eq_some_iff] at h
  obtain ⟨bytes, -, heq⟩ := h
  cases heq
  rfl

end Image

end Ece391Kernel
