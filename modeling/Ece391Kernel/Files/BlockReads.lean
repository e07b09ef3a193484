import Ece391Kernel.Files.Image

/-!
# `read_data` byte by byte

Each byte that `read_data` stores is found by dividing its position by the size of a block: the
quotient selects a block number of the inode, the remainder a byte of that block. A read can
therefore be split anywhere. The image need not be well-formed, and the range may go past the end
of the file, as long as the block numbers that it meets are those of data blocks.
-/

namespace Ece391Kernel

namespace RawImage

variable {fs : FileSystem} (img : RawImage fs) {inode : Nat}

/-- The block numbers of an inode for the positions below `stop` name data blocks. -/
def ValidBlocks (inode stop : Nat) : Prop :=
  ∀ b, b < 1023 → 4096 * b < stop → img.blockNum inode b < img.blocks

/-- Inside the 1023 blocks of an inode, `read_data` copies the bytes that its block numbers give. -/
theorem readData_valid {offset n : Nat} (hinode : inode < img.inodes)
    (hoffset : offset < img.fileLength inode) (hend : offset + n ≤ 1023 * 4096)
    (hblocks : img.ValidBlocks inode (offset + n)) :
    fs.readData inode offset n = some (n, img.fileBytes inode offset n) := by
  refine img.readData_eq hinode hoffset ?_ hend fun i hi => hblocks _ (by omega) (by omega)
  by_cases hstart : offset = 1023 * 4096
  · -- the word after the last entry is read, and then nothing
    have hfirst : 0 ≤ img.blockNum inode 0 ∧ img.blockNum inode 0 < img.blocks :=
      ⟨Nat.zero_le _, hblocks 0 (by omega) (by omega)⟩
    omega
  · omega

/-- `read_data` returns the count asked for and stores exactly the bytes of the range, and a read
inside the file can be split anywhere. -/
theorem readData_exact (inode offset n : Nat) (hinode : inode < img.inodes)
    (hoffset : offset < img.fileLength inode) (hend : offset + n ≤ 1023 * 4096)
    (hblocks : img.ValidBlocks inode (offset + n)) :
    (∃ bytes, fs.readData inode offset n = some (n, bytes) ∧ ∀ k, bytes[k]? =
      if k < n then
        some (img.byte (4096 * (1 + img.inodes + img.blockNum inode ((offset + k) / 4096)) +
          (offset + k) % 4096))
      else none) ∧
    ∀ a b, n = a + b → offset + a < img.fileLength inode →
      ∃ first second, fs.readData inode offset a = some (a, first) ∧
        fs.readData inode (offset + a) b = some (b, second) ∧
        fs.readData inode offset (a + b) = some (a + b, first ++ second) := by
  have hread := img.readData_valid hinode hoffset hend hblocks
  refine ⟨⟨_, hread, fun k => ?_⟩, fun a b hsum ha => ?_⟩
  · rw [fileBytes, List.getElem?_map]
    by_cases hk : k < n
    · rw [if_pos hk, List.getElem?_range hk]
      rfl
    · rw [if_neg hk, List.getElem?_eq_none (by rw [List.length_range]; omega)]
      rfl
  · subst hsum
    have hfirst : fs.readData inode offset a = some (a, img.fileBytes inode offset a) :=
      img.readData_valid hinode hoffset (by omega) fun c hc hlt => hblocks c hc (by omega)
    have hsecond : fs.readData inode (offset + a) b =
        some (b, img.fileBytes inode (offset + a) b) :=
      img.readData_valid hinode ha (by omega) fun c hc hlt => hblocks c hc (by omega)
    exact ⟨_, _, hfirst, hsecond, by rw [hread, img.fileBytes_add]⟩

/-- 5000 bytes from position 39 of `shell` on: the second block number is 0 too. -/
theorem readData_exact_shell :
    (∃ bytes, shellFs.readData 0 39 5000 = some (5000, bytes) ∧ ∀ k, bytes[k]? =
      if k < 5000 then
        some (shellImage.byte (4096 * (1 + shellImage.inodes +
          shellImage.blockNum 0 ((39 + k) / 4096)) + (39 + k) % 4096))
      else none) ∧
    ∀ a b, 5000 = a + b → 39 + a < shellImage.fileLength 0 →
      ∃ first second, shellFs.readData 0 39 a = some (a, first) ∧
        shellFs.readData 0 (39 + a) b = some (b, second) ∧
        shellFs.readData 0 39 (a + b) = some (a + b, first ++ second) := by
  refine shellImage.toRawImage.readData_exact 0 39 5000 (by decide) (by decide) (by decide) ?_
  intro b _ hb
  obtain rfl | rfl : b = 0 ∨ b = 1 := by omega
  · decide
  · decide

end RawImage

end Ece391Kernel
