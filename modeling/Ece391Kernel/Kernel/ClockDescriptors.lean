import Ece391Kernel.Kernel.Scheduling

/-!
# Closing the clock

Every process may have several descriptors open on the clock, but `rtc_close` succeeds only while
the one flag `rtc_opened` is set, and clears it. So a close, on its own or in `sys_halt`, goes well
exactly when the clock was opened or reset since the last one (`closes_run_iff`).
-/

namespace Ece391Kernel

open Transition

namespace Devices

@[simp] theorem puts_rtc (d : Devices) (s : List UInt8) : (d.puts s).rtc = d.rtc := by
  induction s generalizing d with
  | nil => rfl
  | cons c s ih => exact ih (d.putc c)

/-- `rtc_close` leaves the flag cleared, whatever it returns. -/
theorem rtcClose_flag (d : Devices) : d.rtcClose.2.rtc.rtcOpened = false ∧
    (d.rtcClose.1 = 0 ∧ d.rtc.rtcOpened = true ∨ d.rtcClose.1 = -1 ∧ d.rtc.rtcOpened = false) := by
  unfold rtcClose
  cases hflag : d.rtc.rtcOpened with
  | true => exact ⟨rfl, .inl ⟨rfl, rfl⟩⟩
  | false =>
      refine ⟨?_, .inr ⟨rfl, rfl⟩⟩
      show (d.puts _).rtc.rtcOpened = false
      rw [puts_rtc, hflag]

end Devices

namespace Kernel

variable {k k' m : Kernel}

/-- The descriptor is open on the clock. -/
def OpenRtc (k : Kernel) (process : Nat) (fd : Int) : Prop :=
  0 ≤ fd ∧ fd < 8 ∧ (k.desc process fd.toNat).flags % 2 = 1 ∧
    (k.desc process fd.toNat).fotPtr = some .rtc

instance (k : Kernel) (process : Nat) (fd : Int) : Decidable (k.OpenRtc process fd) :=
  inferInstanceAs (Decidable (_ ∧ _))

/-- The `sys_close` returns 0 and frees the descriptor. -/
def Frees (k : Kernel) (fd : Int) : Prop :=
  ∃ k', k.sysClose fd = some (0, k') ∧ (k'.desc k.getProcessNumber fd.toNat).flags = 0

/-- The first closes of `sys_halt`. -/
def closeFirst (k : Kernel) (n : Nat) : Option Kernel :=
  forRange (fun ok (fd : Nat) => ok.bind fun k : Kernel => (k.sysClose fd).map Prod.snd) 2 n
    (some k)

/-- Every descriptor of the clock that is closed in this step, on its own or by `sys_halt`, is
closed with 0 and freed. -/
def ClosesWell (k : Kernel) (e : KernelEvent) : Prop :=
  match e with
  | .own event => ∀ fd, event = .call (.close fd) → k.OpenRtc k.getProcessNumber fd → k.Frees fd
  | .halt _ _ => k.getProcessNumber ≠ 0 → ∀ (n : Nat) (m : Kernel), n < 6 →
      k.closeFirst n = some m → m.OpenRtc k.getProcessNumber (2 + n : Nat) → m.Frees (2 + n : Nat)
  | .execute _ => True
  | .tick _ _ _ => True

/-- When a descriptor of the clock is closed, `rtc_opened` is set; and a program that halts has no
second one open. -/
def ClockOpened (k : Kernel) (e : KernelEvent) : Prop :=
  match e with
  | .own event => ∀ fd, event = .call (.close fd) → k.OpenRtc k.getProcessNumber fd →
      k.dev.rtc.rtcOpened = true
  | .halt _ _ => k.getProcessNumber ≠ 0 → ∀ fd : Nat, 2 ≤ fd → fd < 8 →
      k.OpenRtc k.getProcessNumber fd → k.dev.rtc.rtcOpened = true ∧
        ∀ fd' : Nat, 2 ≤ fd' → fd' < fd → ¬ k.OpenRtc k.getProcessNumber fd'
  | .execute _ => True
  | .tick _ _ _ => True

/-! ## One `sys_close` -/

/-- Closing a descriptor of the clock. -/
theorem sysClose_openRtc {fd : Int} (hopen : k.OpenRtc k.getProcessNumber fd) :
    k.sysClose fd = if k.dev.rtcClose.1 = -1 then some (-1, { k with dev := k.dev.rtcClose.2 })
      else some (0, ({ k with dev := k.dev.rtcClose.2 } : Kernel).setDesc fd.toNat
        { k.currentPcb.fileDesc fd.toNat with flags := 0 }) := by
  rw [sysClose_of_table (readTable_some.2 hopen)]
  rfl

/-- It goes well exactly while the flag is set. -/
theorem frees_iff {fd : Int} (hopen : k.OpenRtc k.getProcessNumber fd) :
    k.Frees fd ↔ k.dev.rtc.rtcOpened = true := by
  obtain ⟨-, ⟨hret, hflag⟩ | ⟨hret, hflag⟩⟩ := k.dev.rtcClose_flag
  · have hne : ¬ k.dev.rtcClose.1 = -1 := by
      rw [hret]
      decide
    rw [Frees, sysClose_openRtc hopen, if_neg hne]
    refine ⟨fun _ => hflag, fun _ => ⟨_, rfl, ?_⟩⟩
    rw [setDesc_desc, if_pos ⟨rfl, rfl⟩]
  · rw [Frees, sysClose_openRtc hopen, if_pos hret, hflag]
    constructor
    · rintro ⟨k', hclose, -⟩
      cases hclose
    · nofun

/-- Closing anything else touches no device. -/
theorem sysClose_dev {fd : Int} {r : Int × Kernel} (h : k.sysClose fd = some r)
    (hopen : ¬ k.OpenRtc k.getProcessNumber fd) :
    r.2.dev = k.dev ∧ r.2.getProcessNumber = k.getProcessNumber := by
  have hclose : ∀ fot, k.readTable fd = some fot → (k.closeWith fot).2 = k := by
    intro fot htable
    cases fot with
    | rtc => exact absurd (readTable_some.1 htable) hopen
    | _ => rfl
  cases sysClose_by h with
  | refused _ heq =>
      rw [heq]
      exact ⟨rfl, rfl⟩
  | kept fot htable _ heq =>
      rw [heq, hclose fot htable]
      exact ⟨rfl, rfl⟩
  | closed fot htable _ heq =>
      rw [heq, hclose fot htable]
      exact ⟨rfl, rfl⟩

/-- Only closing the clock touches the flag, and it clears it. -/
theorem sysClose_flag {fd : Int} {r : Int × Kernel} (h : k.sysClose fd = some r) :
    r.2.getProcessNumber = k.getProcessNumber ∧
      (r.2.dev.rtc.rtcOpened = true ↔
        k.dev.rtc.rtcOpened = true ∧ ¬ k.OpenRtc k.getProcessNumber fd) := by
  by_cases hopen : k.OpenRtc k.getProcessNumber fd
  · have hcleared := k.dev.rtcClose_flag.1
    rw [sysClose_openRtc hopen] at h
    have hflag : r.2.dev.rtc.rtcOpened = false ∧ r.2.getProcessNumber = k.getProcessNumber := by
      split_ifs at h
      · cases h
        exact ⟨hcleared, rfl⟩
      · cases h
        exact ⟨hcleared, rfl⟩
    refine ⟨hflag.2, ?_⟩
    rw [hflag.1]
    exact ⟨nofun, fun hkept => absurd hopen hkept.2⟩
  · obtain ⟨hdev, hnumber⟩ := sysClose_dev h hopen
    rw [hdev]
    exact ⟨hnumber, (and_iff_left hopen).symm⟩

/-! ## The loop of `sys_halt` -/

/-- The state in which the loop of `sys_halt` has closed some descriptors. -/
structure ClosedFirst (k m : Kernel) (n : Nat) : Prop where
  number : m.getProcessNumber = k.getProcessNumber
  desc : ∀ fd : Nat, 2 + n ≤ fd → m.desc k.getProcessNumber fd = k.desc k.getProcessNumber fd
  flag : m.dev.rtc.rtcOpened = true ↔ k.dev.rtc.rtcOpened = true ∧
    ∀ fd : Nat, 2 ≤ fd → fd < 2 + n → ¬ k.OpenRtc k.getProcessNumber fd

theorem ClosedFirst.openRtc {n : Nat} (h : ClosedFirst k m n) :
    m.OpenRtc k.getProcessNumber (2 + n : Nat) ↔ k.OpenRtc k.getProcessNumber (2 + n : Nat) := by
  simp only [OpenRtc, Int.toNat_natCast, h.desc (2 + n) (Nat.le_refl _)]

theorem closeFirst_spec {n : Nat} (h : k.closeFirst n = some m) : ClosedFirst k m n := by
  induction n generalizing m with
  | zero =>
      cases h
      refine ⟨rfl, fun _ _ => rfl, ?_⟩
      refine ⟨fun hflag => ⟨hflag, fun fd hlo hhi => ?_⟩, fun hflag => hflag.1⟩
      omega
  | succ n ih =>
      simp only [closeFirst, forRange, Option.bind_eq_some_iff, Option.map_eq_some_iff] at h
      obtain ⟨m₀, hm₀, r, hclose, rfl⟩ := h
      have hfirst := ih hm₀
      have hspec := (sysClose_spec hclose).only.others
      obtain ⟨hnumber, hflag⟩ := sysClose_flag hclose
      rw [hfirst.number] at hflag hspec
      rw [hfirst.openRtc, hfirst.flag] at hflag
      refine ⟨hnumber.trans hfirst.number, fun fd hfd => ?_, hflag.trans ?_⟩
      · have hne : ¬ (k.getProcessNumber = k.getProcessNumber ∧ (fd : Int) = (2 + n : Nat)) := by
          omega
        rw [hspec _ fd hne, hfirst.desc fd (by omega)]
      · constructor
        · rintro ⟨⟨hset, hbefore⟩, hlast⟩
          refine ⟨hset, fun fd hlo hhi => ?_⟩
          obtain hlt | rfl : fd < 2 + n ∨ fd = 2 + n := by omega
          · exact hbefore fd hlo hlt
          · exact hlast
        · rintro ⟨hset, hnone⟩
          exact ⟨⟨hset, fun fd hlo hhi => hnone fd hlo (by omega)⟩,
            hnone (2 + n) (by omega) (by omega)⟩

/-- Before the whole loop there is each of its parts. -/
theorem closeFirst_some {n : Nat} (hn : n ≤ 6) (h : k.closeAll = some m) :
    ∃ m', k.closeFirst n = some m' := by
  have hall : ∀ j, ∀ m, k.closeFirst (n + j) = some m → ∃ m', k.closeFirst n = some m' := by
    intro j
    induction j with
    | zero => exact fun m h => ⟨m, h⟩
    | succ j ih =>
        intro m h
        simp only [closeFirst, forRange, Option.bind_eq_some_iff] at h
        obtain ⟨m', hm', -⟩ := h
        exact ih m' hm'
  have hsum : n + (6 - n) = 6 := by omega
  exact hall (6 - n) m (by rw [hsum]; exact h)

/-! ## Every step -/

/-- A step closes the clock well exactly when the flag is set for it. -/
theorem closesWell_iff {e : KernelEvent} (hstep : KernelStep k e k') :
    k.ClosesWell e ↔ k.ClockOpened e := by
  cases e with
  | own event =>
      constructor
      · exact fun h fd hevent hopen => (frees_iff hopen).1 (h fd hevent hopen)
      · exact fun h fd hevent hopen => (frees_iff hopen).2 (h fd hevent hopen)
  | execute args => exact Iff.rfl
  | tick esp ebp launch => exact Iff.rfl
  | halt status callerEbp =>
      have hclosed : k.getProcessNumber ≠ 0 → ∃ m, k.closeAll = some m := by
        intro hbase
        obtain ⟨-, hhalt⟩ := Option.ite_none_right_eq_some.1 hstep
        rw [sysHalt, if_neg hbase] at hhalt
        cases hclosed : k.closeAll with
        | none =>
            rw [hclosed] at hhalt
            cases hhalt
        | some m => exact ⟨m, rfl⟩
      constructor
      · intro h hbase fd hlo hhi hopen
        obtain ⟨n, rfl⟩ : ∃ n, fd = 2 + n := ⟨fd - 2, by omega⟩
        obtain ⟨m, hm⟩ := hclosed hbase
        obtain ⟨mₙ, hmₙ⟩ := closeFirst_some (n := n) (by omega) hm
        have hfirst := closeFirst_spec hmₙ
        have hopen' := hfirst.openRtc.2 hopen
        have hfrees := h hbase n mₙ (by omega) hmₙ hopen'
        rw [← hfirst.number] at hopen'
        exact hfirst.flag.1 ((frees_iff hopen').1 hfrees)
      · intro h hbase n mₙ hn hmₙ hopen
        have hfirst := closeFirst_spec hmₙ
        have hset := h hbase (2 + n) (by omega) (by omega) (hfirst.openRtc.1 hopen)
        rw [← hfirst.number] at hopen
        exact (frees_iff hopen).2 (hfirst.flag.2 hset)

/-- In every run: each close of a descriptor that is open on the clock, by `sys_close` or in
`sys_halt`, returns 0 and frees the descriptor, exactly when at each of them `rtc_opened` is set,
and a program that halts has at most one such descriptor. -/
theorem closes_run_iff (k k' : Kernel) (es : List KernelEvent) :
    Run (Guarded ClosesWell KernelStep) k es k' ↔ Run (Guarded ClockOpened KernelStep) k es k' :=
  ⟨fun h => h.mono fun _ _ _ hs => ⟨(closesWell_iff hs.2).1 hs.1, hs.2⟩,
    fun h => h.mono fun _ _ _ hs => ⟨(closesWell_iff hs.2).2 hs.1, hs.2⟩⟩

/-! ## A program that opens the clock twice -/

/-- The small image with a second entry `rtc`. -/
def rtcFs : FileSystem :=
  smallFs ((0, 2) :: (128, 0x72) :: (129, 0x74) :: (130, 0x63) :: shellBytes)

/-- The string "rtc". -/
def rtcName : List UInt8 := [0x72, 0x74, 0x63]

/-- The kernel that starts from it. -/
def rtcBoot : Kernel :=
  .boot rtcFs (fun _ => 0) (fun _ => Pcb.zero) (fun _ => 0) 0x7FFF00 0x7FFF80

/-- The base shell opens the clock twice and closes one of the descriptors. -/
def openTwice : List KernelEvent :=
  [.execute shellArgs, .own (.trap 0x7FFE00 0x7FFE80), .own (.call (.openFile rtcName)),
    .own (.call (.openFile rtcName)), .own (.call (.close 2))]

/-- Then it cannot close the other one. -/
theorem second_close_fails : ¬ ∀ (fs : FileSystem) (video : Nat → UInt8) (pcb : Nat → Pcb)
    (frames : Nat → UInt8) (esp ebp : Nat) (es : List KernelEvent) (k k' : Kernel)
    (e : KernelEvent), Run KernelStep (.boot fs video pcb frames esp ebp) es k → KernelStep k e k' →
    k.ClosesWell e := by
  intro h
  have hsome : ((replay next rtcBoot openTwice).bind fun k =>
      if k.OpenRtc k.getProcessNumber 3 ∧ k.dev.rtc.rtcOpened = false then
        k.next (.own (.call (.close 3))) else none).isSome = true := by
    decide +kernel
  obtain ⟨k', hk'⟩ := Option.isSome_iff_exists.1 hsome
  obtain ⟨k, hrun, hlast⟩ := Option.bind_eq_some_iff.1 hk'
  obtain ⟨⟨hopen, hflag⟩, hstep⟩ := Option.ite_none_right_eq_some.1 hlast
  have hfrees := h _ _ _ _ _ _ openTwice k k' _ (replay_run hrun) hstep 3 rfl hopen
  rw [frees_iff hopen, hflag] at hfrees
  cases hfrees

end Kernel

end Ece391Kernel
