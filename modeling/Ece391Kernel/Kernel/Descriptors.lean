import Ece391Kernel.Kernel.State

/-!
# `sys_open`, `sys_close`, `sys_read` and `sys_write`

The descriptor system calls and the functions that the operation tables lead to. `none` means
that the call does not return: a page fault, a call through a NULL table, or `terminal_read` still
waiting. The calls are modelled for buffers in the caller's user page.
-/

namespace Ece391Kernel

namespace Kernel

variable (k : Kernel)

/-! ## The functions of the operation tables -/

/-- `terminal_read`, at the point where its wait is over. -/
def terminalRead (buf : Nat) (nbytes : Int) : Option (Int × List UInt8 × Kernel) :=
  let term := k.dev.term
  if term.bufSent ∧ term.curTermNum = term.termInService then do
    let n := if maxBuf < nbytes then (maxBuf : Int) else nbytes
    let bytes := (List.range n.toNat).map term.terminalBuf
    let k' ← k.storeUser buf bytes
    some (n, bytes, { k' with dev := { k'.dev with term := { term with bufSent := false } } })
  else none

/-- `fread`. -/
def fread (fd buf : Nat) (nbytes : Int) : Option (Int × List UInt8 × Kernel) := do
  let desc := k.currentPcb.fileDesc fd
  let (val, bytes) ← k.fs.readData desc.inode desc.filePosition (u32 nbytes)
  let k' ← k.storeUser buf bytes
  some (i32 val, bytes,
    k'.setDesc fd { desc with filePosition := (desc.filePosition + val) % 0x100000000 })

/-- `dir_read`; it ignores `nbytes`. -/
def dirRead (buf : Nat) : Option (Int × List UInt8 × Kernel) := do
  match ← k.fs.readDentryByIndex k.dirLocation with
  | some dentry =>
      let bytes := dentry.fname ++ List.replicate (33 - dentry.fname.length) 0
      let k' ← k.storeUser buf bytes
      some (dentry.fname.length, bytes, { k' with dirLocation := k.dirLocation + 1 })
  | none => some (0, [], { k with dirLocation := 0 })

/-- `rtc_read`, at the interrupt that ends its wait. -/
def rtcRead : Option (Int × List UInt8 × Kernel) :=
  some (0, [], { k with dev := { k.dev with rtc := { k.dev.rtc with readWait := false } } })

/-- `terminal_write`. -/
def terminalWrite (buf : Nat) (nbytes : Int) : Option (Int × Kernel) := do
  let bytes ← k.loadUser buf nbytes.toNat
  some (0, { k with dev := k.dev.terminalWrite bytes })

/-- The `int` that `rtc_write` reads at `buf`, only after the checks on `buf` and `nbytes`. -/
def rtcFreq (buf : Nat) (nbytes : Int) : Option (Option Int) :=
  if buf = 0 then some none
  else if nbytes ≠ 4 then some (some 0)
  else (k.loadUser buf 4).map fun bytes => some (i32 (le32 bytes))

/-- `rtc_write`. -/
def rtcWrite (buf : Nat) (nbytes : Int) : Option (Int × Kernel) :=
  (k.rtcFreq buf nbytes).map fun freq =>
    ((k.dev.rtcWrite freq nbytes).1, { k with dev := (k.dev.rtcWrite freq nbytes).2 })

/-- `close` through an operation table. -/
def closeWith : Fot → Int × Kernel
  | .stdin => (-1, k)
  | .stdout => (-1, k)
  | .file => (0, k)
  | .dir => (0, k)
  | .rtc => (k.dev.rtcClose.1, { k with dev := k.dev.rtcClose.2 })

/-! ## The system calls -/

/-- `sys_read`: the value returned and the bytes stored at `buf`. -/
def sysRead (fd : Int) (buf : Nat) (nbytes : Int) : Option (Int × List UInt8 × Kernel) :=
  if fd < 0 ∨ maxTask ≤ fd then some (-1, [], k)
  else if (k.currentPcb.fileDesc fd.toNat).flags % 2 = 0 then some (-1, [], k)
  else match (k.currentPcb.fileDesc fd.toNat).fotPtr with
    | none => none
    | some .stdin => k.terminalRead buf nbytes
    | some .stdout => some (-1, [], k)
    | some .file => k.fread fd.toNat buf nbytes
    | some .rtc => k.rtcRead
    | some .dir => k.dirRead buf

/-- `sys_write`. -/
def sysWrite (fd : Int) (buf : Nat) (nbytes : Int) : Option (Int × Kernel) :=
  if fd < 0 ∨ maxTask ≤ fd then some (-1, k)
  else if (k.currentPcb.fileDesc fd.toNat).flags % 2 = 0 then some (-1, k)
  else match (k.currentPcb.fileDesc fd.toNat).fotPtr with
    | none => none
    | some .stdin => some (-1, k)
    | some .stdout => k.terminalWrite buf nbytes
    | some .file => some (-1, k)
    | some .rtc => k.rtcWrite buf nbytes
    | some .dir => some (-1, k)

/-- The loop of `sys_open`: the first descriptor from `i` on, of the `n` left, with no flags. -/
def firstClosed (desc : Nat → FileDesc) (i : Nat) : Nat → Option Nat
  | 0 => none
  | n + 1 => if (desc i).flags = 0 then some i else firstClosed desc (i + 1) n

/-- The `switch` of `sys_open` on the file type, for a descriptor already marked as open. Any
other type leaves the descriptor with what it held. -/
def openAs (fd : Nat) (desc : FileDesc) (dentry : Dentry) : Int × Kernel :=
  if dentry.fileType = typeRtc then
    let (ret, dev) := k.dev.rtcOpen
    let k := { k with dev }
    if ret = -1 then (-1, k.setDesc fd desc)
    else (fd, k.setDesc fd { desc with inode := 0xFFFFFFFF, fotPtr := some .rtc })
  else if dentry.fileType = typeDir then
    (fd, k.setDesc fd { desc with inode := 0xFFFFFFFF, fotPtr := some .dir })
  else if dentry.fileType = typeFile then
    (fd, k.setDesc fd { desc with inode := dentry.inodeNum, fotPtr := some .file })
  else (fd, k.setDesc fd desc)

/-- `sys_open`. -/
def sysOpen (filename : List UInt8) : Option (Int × Kernel) := do
  match ← k.fs.readDentryByName filename with
  | none => some (-1, k)
  | some dentry =>
      match firstClosed k.currentPcb.fileDesc minTask (maxTask - minTask) with
      | none => some (-1, k)
      | some fd =>
          let desc := { k.currentPcb.fileDesc fd with flags := 1, filePosition := 0 }
          some (k.openAs fd desc dentry)

/-- `sys_close`. -/
def sysClose (fd : Int) : Option (Int × Kernel) :=
  if fd < 0 ∨ maxTask ≤ fd then some (-1, k)
  else if (k.currentPcb.fileDesc fd.toNat).flags % 2 = 0 then some (-1, k)
  else match (k.currentPcb.fileDesc fd.toNat).fotPtr with
    | none => none
    | some fot =>
        let (ret, k') := k.closeWith fot
        if ret = -1 then some (-1, k')
        else some (0, k'.setDesc fd.toNat { k'.currentPcb.fileDesc fd.toNat with flags := 0 })

end Kernel

end Ece391Kernel
