import Ece391Kernel.Kernel.DescriptorRuns
import Ece391Kernel.Kernel.Process

/-!
# What one system call can change

A descriptor call changes devices, user memory, the place in the directory and the descriptors of
its own process: `OwnCall`. A `sys_execute` that returns changes nothing, one that starts a program
and a `sys_halt` change exactly what their inversion lemmas say. Everything that is proved about
runs of the kernel uses these lemmas and never the calls themselves.
-/

namespace Ece391Kernel

open Transition

namespace Kernel

variable {k k' : Kernel}

/-! ## Calls of a process on its own behalf -/

/-- Both states show and serve the same terminals. -/
def SameTerms (d d' : Devices) : Prop :=
  d'.term.curTermNum = d.term.curTermNum ∧ d'.term.termInService = d.term.termInService

/-- Only devices, user memory, the place in the directory and the descriptors of the process that
runs may differ. -/
def OwnCall (k k' : Kernel) : Prop :=
  ∃ dev frames dirLocation fileDesc, SameTerms k.dev dev ∧
    k' = { k with
      dev, frames, dirLocation
      pcb := Function.update k.pcb k.getProcessNumber { k.currentPcb with fileDesc } }

theorem OwnCall.of_same (hterms : SameTerms k.dev k'.dev)
    (h : k' = { k with dev := k'.dev, frames := k'.frames, dirLocation := k'.dirLocation }) :
    k.OwnCall k' := by
  refine ⟨k'.dev, k'.frames, k'.dirLocation, k.currentPcb.fileDesc, hterms, ?_⟩
  have hpcb : Function.update k.pcb k.getProcessNumber
      { k.currentPcb with fileDesc := k.currentPcb.fileDesc } = k.pcb :=
    Function.update_eq_self k.getProcessNumber k.pcb
  rw [hpcb]
  exact h

theorem OwnCall.refl (k : Kernel) : k.OwnCall k := .of_same ⟨rfl, rfl⟩ rfl

theorem OwnCall.trans {k'' : Kernel} (h : k.OwnCall k') (h' : k'.OwnCall k'') : k.OwnCall k'' := by
  obtain ⟨dev, frames, dirLocation, fileDesc, hterms, rfl⟩ := h
  obtain ⟨dev', frames', dirLocation', fileDesc', hterms', rfl⟩ := h'
  refine ⟨dev', frames', dirLocation', fileDesc',
    ⟨hterms'.1.trans hterms.1, hterms'.2.trans hterms.2⟩, ?_⟩
  simp only [currentPcb, getProcessNumber, Function.update_self, Function.update_idem]

/-- Writing one's own descriptor, after a change of devices. -/
theorem OwnCall.setDesc (h : k.OwnCall k') (fd : Nat) (d : FileDesc) :
    k.OwnCall (k'.setDesc fd d) :=
  h.trans ⟨k'.dev, k'.frames, k'.dirLocation, _, ⟨rfl, rfl⟩, rfl⟩

theorem terminalRead_own {buf : Nat} {nbytes : Int} {r : Int × List UInt8 × Kernel}
    (h : k.terminalRead buf nbytes = some r) : k.OwnCall r.2.2 := by
  obtain ⟨n, k', -, hstore, rfl⟩ := terminalRead_stores h
  obtain ⟨frames, rfl⟩ := storeUser_frame hstore
  exact .of_same ⟨rfl, rfl⟩ rfl

theorem fread_own {fd buf : Nat} {nbytes : Int} {r : Int × List UInt8 × Kernel}
    (h : k.fread fd buf nbytes = some r) : k.OwnCall r.2.2 := by
  obtain ⟨val, bytes, k', -, hstore, rfl⟩ := fread_stores h
  obtain ⟨frames, rfl⟩ := storeUser_frame hstore
  have hstored : k.OwnCall { k with frames } := .of_same ⟨rfl, rfl⟩ rfl
  exact hstored.setDesc _ _

theorem dirRead_own {buf : Nat} {r : Int × List UInt8 × Kernel} (h : k.dirRead buf = some r) :
    k.OwnCall r.2.2 := by
  obtain ⟨-, rfl⟩ | ⟨dentry, k', -, hstore, rfl⟩ := dirRead_stores h
  · exact .of_same ⟨rfl, rfl⟩ rfl
  · obtain ⟨frames, rfl⟩ := storeUser_frame hstore
    exact .of_same ⟨rfl, rfl⟩ rfl

theorem sysRead_own {fd : Int} {buf : Nat} {nbytes : Int} {r : Int × List UInt8 × Kernel}
    (h : k.sysRead fd buf nbytes = some r) : k.OwnCall r.2.2 := by
  cases sysRead_by h with
  | refused _ heq =>
      rw [heq]
      exact .refl k
  | terminal _ h => exact terminalRead_own h
  | screen _ heq =>
      rw [heq]
      exact .refl k
  | file _ h => exact fread_own h
  | clock _ h =>
      cases h
      exact .of_same ⟨rfl, rfl⟩ rfl
  | dir _ h => exact dirRead_own h

/-- Printing shows and serves the same terminals. -/
theorem rtcWrite_terms (d : Devices) (freq : Option Int) (nbytes : Int) :
    SameTerms d (d.rtcWrite freq nbytes).2 := by
  unfold Devices.rtcWrite
  cases freq with
  | none => exact ⟨rfl, rfl⟩
  | some freq =>
      dsimp only
      split
      · exact ⟨rfl, rfl⟩
      · split
        · exact ⟨by rw [Devices.puts_term], by rw [Devices.puts_term]⟩
        · split
          · exact ⟨by rw [Devices.puts_term], by rw [Devices.puts_term]⟩
          · exact ⟨rfl, rfl⟩

theorem sysWrite_own {fd : Int} {buf : Nat} {nbytes : Int} {r : Int × Kernel}
    (h : k.sysWrite fd buf nbytes = some r) : k.OwnCall r.2 := by
  cases sysWrite_by h with
  | refused _ _ heq =>
      rw [heq]
      exact .refl k
  | terminal _ bytes _ heq =>
      rw [heq]
      refine .of_same ⟨?_, ?_⟩ rfl
      · simp only [Devices.terminalWrite, Devices.puts_term]
      · simp only [Devices.terminalWrite, Devices.puts_term]
  | clock _ freq _ heq =>
      rw [heq]
      exact .of_same (rtcWrite_terms _ _ _) rfl

theorem closeWith_own (k : Kernel) (fot : Fot) : k.OwnCall (k.closeWith fot).2 := by
  cases fot with
  | rtc =>
      refine .of_same ?_ rfl
      show SameTerms k.dev k.dev.rtcClose.2
      unfold Devices.rtcClose
      split
      · exact ⟨rfl, rfl⟩
      · exact ⟨by rw [Devices.puts_term], by rw [Devices.puts_term]⟩
  | _ => exact .refl k

theorem sysClose_own {fd : Int} {r : Int × Kernel} (h : k.sysClose fd = some r) :
    k.OwnCall r.2 := by
  cases sysClose_by h with
  | refused _ heq =>
      rw [heq]
      exact .refl k
  | kept fot _ _ heq =>
      rw [heq]
      exact k.closeWith_own fot
  | closed fot _ _ heq =>
      rw [heq]
      exact (k.closeWith_own fot).setDesc _ _

theorem openAs_own (k : Kernel) (fd : Nat) (d : FileDesc) (dentry : Dentry) :
    k.OwnCall (k.openAs fd d dentry).2 := by
  unfold openAs
  split
  · have hopen : k.OwnCall { k with dev := k.dev.rtcOpen.2 } := .of_same ⟨rfl, rfl⟩ rfl
    exact hopen.setDesc _ _
  · split
    · exact (OwnCall.refl k).setDesc _ _
    · split
      · exact (OwnCall.refl k).setDesc _ _
      · exact (OwnCall.refl k).setDesc _ _

theorem sysOpen_own {filename : List UInt8} {r : Int × Kernel}
    (h : k.sysOpen filename = some r) : k.OwnCall r.2 := by
  cases sysOpen_by h with
  | missing _ heq =>
      rw [heq]
      exact .refl k
  | full _ heq =>
      rw [heq]
      exact .refl k
  | found dentry fd _ _ heq =>
      rw [heq]
      exact k.openAs_own _ _ _

/-- Every descriptor call. -/
theorem doCall_own {call : DescCall} {r : Int × Kernel} (h : k.doCall call = some r) :
    k.OwnCall r.2 := by
  cases call with
  | openFile filename => exact sysOpen_own h
  | close fd => exact sysClose_own h
  | read fd buf nbytes =>
      simp only [doCall, Option.map_eq_some_iff] at h
      obtain ⟨r', hread, rfl⟩ := h
      exact sysRead_own hread
  | write fd buf nbytes => exact sysWrite_own h

/-! ## `sys_execute` -/

/-- The slot that `sys_execute` takes. -/
structure FirstFree (procArr : Nat → ProcFlag) (process : Nat) : Prop where
  lt : process < 6
  free : procArr process = .free
  first : ∀ q, q < process → procArr q ≠ .free

instance (procArr : Nat → ProcFlag) (process : Nat) : Decidable (FirstFree procArr process) :=
  decidable_of_iff (process < 6 ∧ procArr process = .free ∧ ∀ q, q < process → procArr q ≠ .free)
    ⟨fun ⟨hlt, hfree, hfirst⟩ => ⟨hlt, hfree, hfirst⟩,
      fun ⟨hlt, hfree, hfirst⟩ => ⟨hlt, hfree, hfirst⟩⟩

theorem findFree_some {procArr : Nat → ProcFlag} {i n process : Nat}
    (h : findFree procArr i n = some process) :
    i ≤ process ∧ process < i + n ∧ procArr process = .free ∧
      ∀ q, i ≤ q → q < process → procArr q ≠ .free := by
  induction n generalizing i with
  | zero => cases h
  | succ n ih =>
      simp only [findFree] at h
      by_cases hi : procArr i = .free
      · rw [if_pos hi] at h
        cases h
        refine ⟨Nat.le_refl _, by omega, hi, fun q hlo hhi => ?_⟩
        omega
      · rw [if_neg hi] at h
        obtain ⟨hlo, hhi, hfree, hfirst⟩ := ih h
        refine ⟨by omega, by omega, hfree, fun q hlo' hhi' => ?_⟩
        by_cases heq : q = i
        · exact heq ▸ hi
        · exact hfirst q (by omega) hhi'

theorem findFree_first {procArr : Nat → ProcFlag} {process : Nat}
    (h : findFree procArr 0 maxProcesses = some process) : FirstFree procArr process := by
  obtain ⟨-, hlt, hfree, hfirst⟩ := findFree_some h
  exact ⟨by simpa using hlt, hfree, fun q => hfirst q (Nat.zero_le q)⟩

/-- There is only one such slot. -/
theorem FirstFree.eq {procArr : Nat → ProcFlag} {m n : Nat} (h : FirstFree procArr m)
    (h' : FirstFree procArr n) : m = n := by
  by_contra hne
  obtain hlt | hlt := Nat.lt_or_gt_of_ne hne
  · exact h'.first m hlt h.free
  · exact h.first n hlt h'.free

/-- The search finds it. -/
theorem FirstFree.findFree_eq {procArr : Nat → ProcFlag} {process : Nat}
    (h : FirstFree procArr process) : findFree procArr 0 maxProcesses = some process := by
  have hsome : ∀ n i, i ≤ process → process < i + n → findFree procArr i n ≠ none := by
    intro n
    induction n with
    | zero => omega
    | succ n ih =>
        intro i hlo hhi
        simp only [findFree]
        by_cases hi : procArr i = .free
        · rw [if_pos hi]
          nofun
        · have hne : i ≠ process := fun heq => hi (heq ▸ h.free)
          rw [if_neg hi]
          exact ih (i + 1) (by omega) (by omega)
  obtain ⟨found, hfound⟩ := Option.ne_none_iff_exists'.1
    (hsome maxProcesses 0 (Nat.zero_le _) (by simpa using h.lt))
  rw [hfound, (findFree_first hfound).eq h]

/-- Giving back the slot that was just claimed undoes the claim. -/
theorem setProc_release {process : Nat} (hfree : k.procArr process = .free) :
    (k.setProc process .running).setProc process .free = k := by
  have harr : Function.update (Function.update k.procArr process .running) process .free =
      k.procArr := by
    rw [Function.update_idem, ← hfree, Function.update_eq_self]
  simp only [setProc, harr]

/-- A `sys_execute` that returns has failed, and changed nothing. -/
theorem sysExecute_ret {args : ExecArgs} {v : Int} (h : k.sysExecute args = .ret v k') :
    v = -1 ∧ k' = k := by
  unfold sysExecute at h
  split at h
  · cases h
    exact ⟨rfl, rfl⟩
  · next process hfind =>
    have hundo := setProc_release (findFree_first hfind).free
    unfold executeIn at h
    split at h
    · cases h
      exact ⟨rfl, hundo⟩
    · split at h
      · cases h
      · cases h
        exact ⟨rfl, hundo⟩
      · unfold startProgram at h
        split at h <;> cases h

/-- The state in which a new program starts. -/
def started (k : Kernel) (process : Nat) (cmd : Command) (frames : Nat → UInt8) : Kernel :=
  { k with
    procArr := Function.update k.procArr process .running
    pageDirectory32 := frameEntry process
    frames
    pcb := Function.update k.pcb process (k.newPcb k.getProcessNumber k.pageDirectory32 cmd)
    esp0 := stackTop process
    mode := .user }

/-- A `sys_execute` that starts a program has parsed its command, claimed the first free slot and
loaded the program through the page of the new process. -/
theorem sysExecute_loaded {args : ExecArgs} {entry : Nat}
    (h : k.sysExecute args = .user entry k') :
    ∃ process cmd bytes loaded, FirstFree k.procArr process ∧ args.parse = some cmd ∧
      ((k.setProc process .running).setPage (frameEntry process)).storeUser (oteMb + userIdx)
        bytes = some loaded ∧
      k' = k.started process cmd loaded.frames := by
  unfold sysExecute at h
  split at h
  · cases h
  · next process hfind =>
    unfold executeIn at h
    split at h
    · cases h
    · next cmd hparse =>
      split at h
      · cases h
      · cases h
      · unfold startProgram at h
        split at h
        · cases h
        · next loaded hload =>
          simp only [loadProgram, Option.bind_eq_bind, Option.bind_eq_some_iff] at hload
          obtain ⟨⟨val, bytes⟩, -, hstore⟩ := hload
          refine ⟨process, cmd, bytes, loaded, findFree_first hfind, hparse, hstore, ?_⟩
          obtain ⟨frames, rfl⟩ := storeUser_frame hstore
          cases h
          rfl

/-- What it keeps of the command. -/
theorem sysExecute_parsed {args : ExecArgs} {entry : Nat}
    (h : k.sysExecute args = .user entry k') :
    ∃ process cmd frames, FirstFree k.procArr process ∧ args.parse = some cmd ∧
      k' = k.started process cmd frames := by
  obtain ⟨process, cmd, bytes, loaded, hfirst, hparse, -, heq⟩ := sysExecute_loaded h
  exact ⟨process, cmd, loaded.frames, hfirst, hparse, heq⟩

/-- A `sys_execute` that starts a program. -/
theorem sysExecute_user {args : ExecArgs} {entry : Nat} (h : k.sysExecute args = .user entry k') :
    ∃ process cmd frames, FirstFree k.procArr process ∧ k' = k.started process cmd frames := by
  obtain ⟨process, cmd, frames, hfirst, -, heq⟩ := sysExecute_parsed h
  exact ⟨process, cmd, frames, hfirst, heq⟩

/-! ## `sys_halt` -/

/-- What every `sys_close` does to the state, the loop of `sys_halt` does. -/
theorem closeAll_rel {R : Kernel → Kernel → Prop} (hrefl : ∀ k, R k k)
    (htrans : ∀ {k₁ k₂ k₃}, R k₁ k₂ → R k₂ k₃ → R k₁ k₃)
    (hclose : ∀ {k : Kernel} {fd : Int} {r : Int × Kernel}, k.sysClose fd = some r → R k r.2)
    (h : k.closeAll = some k') : R k k' := by
  have hall : ∀ n, ∀ k', forRange (fun ok (fd : Nat) => ok.bind fun k : Kernel =>
      (k.sysClose fd).map Prod.snd) 2 n (some k) = some k' → R k k' := by
    intro n
    induction n with
    | zero =>
        intro k' h
        cases h
        exact hrefl k
    | succ n ih =>
        intro k' h
        simp only [forRange, Option.bind_eq_some_iff, Option.map_eq_some_iff] at h
        obtain ⟨m, hm, r, hlast, rfl⟩ := h
        exact htrans (ih m hm) (hclose hlast)
  exact hall 6 k' h

theorem closeAll_own (h : k.closeAll = some k') : k.OwnCall k' :=
  closeAll_rel OwnCall.refl OwnCall.trans sysClose_own h

/-- The state in which the parent goes on. -/
def halted (k : Kernel) (process : Nat) (callerEbp : Nat) : Kernel :=
  { k with
    procArr := Function.update k.procArr process .free
    pageDirectory32 := (k.pcb process).parentPhysAddr
    esp0 := stackTop (k.pcb process).parentPid
    esp := (k.pcb process).parentEbp + 8
    ebp := callerEbp }

/-- The base shell does not halt. -/
theorem sysHalt_base {status : UInt8} {callerEbp : Nat} (h : k.getProcessNumber = 0) :
    k.sysHalt status callerEbp = .ret 0 k := by
  rw [sysHalt, if_pos h]

theorem sysHalt_not_user {status : UInt8} {callerEbp : Nat} (entry : Nat) (k' : Kernel) :
    k.sysHalt status callerEbp ≠ .user entry k' := by
  intro h
  by_cases hbase : k.getProcessNumber = 0
  · rw [sysHalt_base hbase] at h
    cases h
  · dsimp only [sysHalt] at h
    rw [if_neg hbase] at h
    cases hclosed : k.closeAll with
    | none =>
        rw [hclosed] at h
        cases h
    | some closed =>
        rw [hclosed] at h
        cases h

/-- Any other process gives up its slot, and its parent goes on. -/
theorem sysHalt_ret {status : UInt8} {callerEbp : Nat} {v : Int}
    (hne : k.getProcessNumber ≠ 0) (h : k.sysHalt status callerEbp = .ret v k') :
    v = status.toNat ∧
      ∃ closed, k.OwnCall closed ∧ k' = closed.halted k.getProcessNumber callerEbp := by
  unfold sysHalt at h
  rw [if_neg hne] at h
  split at h
  · cases h
  · next closed hclosed =>
    cases h
    exact ⟨rfl, closed, closeAll_own hclosed, rfl⟩

end Kernel

end Ece391Kernel
