import Ece391Kernel.Kernel.Descriptors

/-!
# Which function a descriptor call goes through

`sys_read`, `sys_write` and `sys_close` make the same two checks and then call a function of the
operation table of the descriptor. A call that returns was refused or went through one of these
functions: one inversion lemma for each call, and one for each function that stores at a pointer.
-/

namespace Ece391Kernel

namespace Kernel

variable {k : Kernel}

/-- The operation table that `sys_read` dispatches to, if it does not return −1 before. The other
calls on a descriptor check it in the same way. -/
def readTable (k : Kernel) (fd : Int) : Option Fot :=
  if fd < 0 ∨ (maxTask : Int) ≤ fd then none
  else if (k.currentPcb.fileDesc fd.toNat).flags % 2 = 0 then none
  else (k.currentPcb.fileDesc fd.toNat).fotPtr

/-- A call gets to a table if its descriptor is in range, open, and has that table. -/
theorem readTable_some {fd : Int} {fot : Fot} : k.readTable fd = some fot ↔
    0 ≤ fd ∧ fd < 8 ∧ (k.currentPcb.fileDesc fd.toNat).flags % 2 = 1 ∧
      (k.currentPcb.fileDesc fd.toNat).fotPtr = some fot := by
  unfold readTable
  simp only [maxTask]
  split_ifs with hrange hclosed
  · constructor
    · intro h
      cases h
    · rintro ⟨hlo, hhi, -⟩
      omega
  · constructor
    · intro h
      cases h
    · rintro ⟨-, -, hodd, -⟩
      omega
  · constructor
    · intro h
      exact ⟨by omega, by omega, by omega, h⟩
    · rintro ⟨-, -, -, h⟩
      exact h

/-! ## The functions that store at a pointer -/

/-- `terminal_read` stores the head of the line and takes it. -/
theorem terminalRead_stores {buf : Nat} {nbytes : Int} {r : Int × List UInt8 × Kernel}
    (h : k.terminalRead buf nbytes = some r) :
    ∃ n k', n = (if (maxBuf : Int) < nbytes then (maxBuf : Int) else nbytes) ∧
      k.storeUser buf ((List.range n.toNat).map k.dev.term.terminalBuf) = some k' ∧
      r = (n, (List.range n.toNat).map k.dev.term.terminalBuf,
        { k' with dev := { k'.dev with term := { k.dev.term with bufSent := false } } }) := by
  dsimp only [terminalRead] at h
  by_cases hready : k.dev.term.bufSent = true ∧ k.dev.term.curTermNum = k.dev.term.termInService
  · rw [if_pos hready] at h
    simp only [Option.bind_eq_bind, Option.bind_eq_some_iff] at h
    obtain ⟨k', hstore, heq⟩ := h
    exact ⟨_, k', rfl, hstore, (Option.some.inj heq).symm⟩
  · rw [if_neg hready] at h
    cases h

/-- `fread` stores what `read_data` copies and moves the position by its count. -/
theorem fread_stores {fd buf : Nat} {nbytes : Int} {r : Int × List UInt8 × Kernel}
    (h : k.fread fd buf nbytes = some r) :
    ∃ val bytes k', k.fs.readData (k.currentPcb.fileDesc fd).inode
        (k.currentPcb.fileDesc fd).filePosition (u32 nbytes) = some (val, bytes) ∧
      k.storeUser buf bytes = some k' ∧
      r = (i32 val, bytes, k'.setDesc fd { k.currentPcb.fileDesc fd with
        filePosition := ((k.currentPcb.fileDesc fd).filePosition + val) % 0x100000000 }) := by
  simp only [fread, Option.bind_eq_bind, Option.bind_eq_some_iff] at h
  obtain ⟨⟨val, bytes⟩, hdata, k', hstore, heq⟩ := h
  exact ⟨val, bytes, k', hdata, hstore, (Option.some.inj heq).symm⟩

/-- `dir_read` stores the next name, or starts over. -/
theorem dirRead_stores {buf : Nat} {r : Int × List UInt8 × Kernel} (h : k.dirRead buf = some r) :
    k.fs.readDentryByIndex k.dirLocation = some none ∧ r = (0, [], { k with dirLocation := 0 }) ∨
      ∃ dentry k', k.fs.readDentryByIndex k.dirLocation = some (some dentry) ∧
        k.storeUser buf (dentry.fname ++ List.replicate (33 - dentry.fname.length) 0) = some k' ∧
        r = ((dentry.fname.length : Int),
          dentry.fname ++ List.replicate (33 - dentry.fname.length) 0,
          { k' with dirLocation := k.dirLocation + 1 }) := by
  simp only [dirRead, Option.bind_eq_bind, Option.bind_eq_some_iff] at h
  obtain ⟨found, hfound, h⟩ := h
  cases found with
  | none =>
      cases h
      exact .inl ⟨hfound, rfl⟩
  | some dentry =>
      simp only [Option.bind_eq_some_iff] at h
      obtain ⟨k', hstore, heq⟩ := h
      exact .inr ⟨dentry, k', hfound, hstore, (Option.some.inj heq).symm⟩

/-! ## The calls -/

/-- The checks that the calls on a descriptor begin with. -/
theorem checks_cases {α : Type} {fd : Int} {refused r : α} {body : Option α}
    (h : (if fd < 0 ∨ (maxTask : Int) ≤ fd then some refused
      else if (k.currentPcb.fileDesc fd.toNat).flags % 2 = 0 then some refused
      else body) = some r) :
    k.readTable fd = none ∧ r = refused ∨
      k.readTable fd = (k.currentPcb.fileDesc fd.toNat).fotPtr ∧ body = some r := by
  unfold readTable
  split_ifs at h ⊢ with hrange hclosed
  · exact .inl ⟨rfl, (Option.some.inj h).symm⟩
  · exact .inl ⟨rfl, (Option.some.inj h).symm⟩
  · exact .inr ⟨rfl, h⟩

/-- How a `sys_read` returned. -/
inductive ReadBy (k : Kernel) (fd : Int) (buf : Nat) (nbytes : Int)
    (r : Int × List UInt8 × Kernel) : Prop
  | refused (htable : k.readTable fd = none) (heq : r = (-1, [], k))
  | terminal (htable : k.readTable fd = some .stdin) (h : k.terminalRead buf nbytes = some r)
  | screen (htable : k.readTable fd = some .stdout) (heq : r = (-1, [], k))
  | file (htable : k.readTable fd = some .file) (h : k.fread fd.toNat buf nbytes = some r)
  | clock (htable : k.readTable fd = some .rtc) (h : k.rtcRead = some r)
  | dir (htable : k.readTable fd = some .dir) (h : k.dirRead buf = some r)

theorem sysRead_by {fd : Int} {buf : Nat} {nbytes : Int} {r : Int × List UInt8 × Kernel}
    (h : k.sysRead fd buf nbytes = some r) : k.ReadBy fd buf nbytes r := by
  unfold sysRead at h
  obtain ⟨htable, heq⟩ | ⟨htable, h⟩ := checks_cases h
  · exact .refused htable heq
  · cases hfot : (k.currentPcb.fileDesc fd.toNat).fotPtr with
    | none =>
        rw [hfot] at h
        cases h
    | some fot =>
        rw [hfot] at h htable
        cases fot with
        | stdin => exact .terminal htable h
        | stdout => exact .screen htable (Option.some.inj h).symm
        | file => exact .file htable h
        | rtc => exact .clock htable h
        | dir => exact .dir htable h

/-- `read` through an operation table. -/
def readWith (k : Kernel) (fd buf : Nat) (nbytes : Int) : Fot → Option (Int × List UInt8 × Kernel)
  | .stdin => k.terminalRead buf nbytes
  | .stdout => some (-1, [], k)
  | .file => k.fread fd buf nbytes
  | .rtc => k.rtcRead
  | .dir => k.dirRead buf

/-- A `sys_read` that gets to a table. -/
theorem sysRead_of_table {fd : Int} {fot : Fot} (h : k.readTable fd = some fot) (buf : Nat)
    (nbytes : Int) : k.sysRead fd buf nbytes = k.readWith fd.toNat buf nbytes fot := by
  unfold readTable at h
  unfold sysRead
  split_ifs at h ⊢
  rw [h]
  cases fot <;> rfl

/-- How a `sys_write` returned. Nothing is written to a descriptor of the keyboard, a file or a
directory. -/
inductive WriteBy (k : Kernel) (fd : Int) (buf : Nat) (nbytes : Int) (r : Int × Kernel) : Prop
  | refused (hscreen : k.readTable fd ≠ some .stdout) (hclock : k.readTable fd ≠ some .rtc)
      (heq : r = (-1, k))
  | terminal (htable : k.readTable fd = some .stdout) (bytes : List UInt8)
      (hload : k.loadUser buf nbytes.toNat = some bytes)
      (heq : r = (0, { k with dev := k.dev.terminalWrite bytes }))
  | clock (htable : k.readTable fd = some .rtc) (freq : Option Int)
      (hfreq : k.rtcFreq buf nbytes = some freq)
      (heq : r = ((k.dev.rtcWrite freq nbytes).1,
        { k with dev := (k.dev.rtcWrite freq nbytes).2 }))

theorem sysWrite_by {fd : Int} {buf : Nat} {nbytes : Int} {r : Int × Kernel}
    (h : k.sysWrite fd buf nbytes = some r) : k.WriteBy fd buf nbytes r := by
  have hrefused : ∀ table, k.readTable fd = table → table ≠ some .stdout → table ≠ some .rtc →
      r = (-1, k) → k.WriteBy fd buf nbytes r := by
    rintro _ rfl hscreen hclock heq
    exact .refused hscreen hclock heq
  unfold sysWrite at h
  obtain ⟨htable, heq⟩ | ⟨htable, h⟩ := checks_cases h
  · exact hrefused _ htable (by simp) (by simp) heq
  · cases hfot : (k.currentPcb.fileDesc fd.toNat).fotPtr with
    | none =>
        rw [hfot] at h
        cases h
    | some fot =>
        rw [hfot] at h htable
        cases fot with
        | stdin => exact hrefused _ htable (by simp) (by simp) (Option.some.inj h).symm
        | stdout =>
            simp only [terminalWrite, Option.bind_eq_bind, Option.bind_eq_some_iff] at h
            obtain ⟨bytes, hload, heq⟩ := h
            exact .terminal htable bytes hload (Option.some.inj heq).symm
        | file => exact hrefused _ htable (by simp) (by simp) (Option.some.inj h).symm
        | rtc =>
            simp only [rtcWrite, Option.map_eq_some_iff] at h
            obtain ⟨freq, hfreq, heq⟩ := h
            exact .clock htable freq hfreq heq.symm
        | dir => exact hrefused _ htable (by simp) (by simp) (Option.some.inj h).symm

/-- How a `sys_close` returned: a table whose function returns −1 leaves the flags set. -/
inductive CloseBy (k : Kernel) (fd : Int) (r : Int × Kernel) : Prop
  | refused (htable : k.readTable fd = none) (heq : r = (-1, k))
  | kept (fot : Fot) (htable : k.readTable fd = some fot) (hret : (k.closeWith fot).1 = -1)
      (heq : r = (-1, (k.closeWith fot).2))
  | closed (fot : Fot) (htable : k.readTable fd = some fot) (hret : (k.closeWith fot).1 ≠ -1)
      (heq : r = (0, (k.closeWith fot).2.setDesc fd.toNat
        { (k.closeWith fot).2.currentPcb.fileDesc fd.toNat with flags := 0 }))

theorem sysClose_by {fd : Int} {r : Int × Kernel} (h : k.sysClose fd = some r) :
    k.CloseBy fd r := by
  unfold sysClose at h
  obtain ⟨htable, heq⟩ | ⟨htable, h⟩ := checks_cases h
  · exact .refused htable heq
  · cases hfot : (k.currentPcb.fileDesc fd.toNat).fotPtr with
    | none =>
        rw [hfot] at h
        cases h
    | some fot =>
        rw [hfot] at h htable
        dsimp only at h
        by_cases hret : (k.closeWith fot).1 = -1
        · rw [if_pos hret] at h
          exact .kept fot htable hret (Option.some.inj h).symm
        · rw [if_neg hret] at h
          exact .closed fot htable hret (Option.some.inj h).symm

/-- A `sys_close` that gets to a table. -/
theorem sysClose_of_table {fd : Int} {fot : Fot} (h : k.readTable fd = some fot) :
    k.sysClose fd = if (k.closeWith fot).1 = -1 then some (-1, (k.closeWith fot).2)
      else some (0, (k.closeWith fot).2.setDesc fd.toNat
        { (k.closeWith fot).2.currentPcb.fileDesc fd.toNat with flags := 0 }) := by
  unfold readTable at h
  unfold sysClose
  split_ifs at h ⊢
  · rw [h]
    simp only [*, if_true]
  · rw [h]
    simp only [*, if_false]

/-- How a `sys_open` returned: there is no such entry or no free descriptor, or it went through the
`switch` on the file type. -/
inductive OpenBy (k : Kernel) (filename : List UInt8) (r : Int × Kernel) : Prop
  | missing (hfound : k.fs.readDentryByName filename = some none) (heq : r = (-1, k))
  | full (hfull : firstClosed k.currentPcb.fileDesc minTask (maxTask - minTask) = none)
      (heq : r = (-1, k))
  | found (dentry : Dentry) (fd : Nat)
      (hfound : k.fs.readDentryByName filename = some (some dentry))
      (hfree : firstClosed k.currentPcb.fileDesc minTask (maxTask - minTask) = some fd)
      (heq : r =
        k.openAs fd { k.currentPcb.fileDesc fd with flags := 1, filePosition := 0 } dentry)

theorem sysOpen_by {filename : List UInt8} {r : Int × Kernel}
    (h : k.sysOpen filename = some r) : k.OpenBy filename r := by
  simp only [sysOpen, Option.bind_eq_bind, Option.bind_eq_some_iff] at h
  obtain ⟨found, hfound, h⟩ := h
  cases found with
  | none => exact .missing hfound (Option.some.inj h).symm
  | some dentry =>
      dsimp only at h
      cases hfree : firstClosed k.currentPcb.fileDesc minTask (maxTask - minTask) with
      | none =>
          rw [hfree] at h
          exact .full hfree (Option.some.inj h).symm
      | some fd =>
          rw [hfree] at h
          exact .found dentry fd hfound hfree (Option.some.inj h).symm

end Kernel

end Ece391Kernel
