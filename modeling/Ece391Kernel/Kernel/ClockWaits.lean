import Ece391Kernel.Kernel.Descriptors
import Ece391Kernel.Transition.Run

/-!
# Waiting for the clock

`rtc_read` step by step, for any number of processes under any schedule. All of them wait on the one
flag `read_wait`, which each caller sets and each interrupt clears. So an interrupt is lost on a
process that has not looked at the flag again when another one starts to wait
(`no_wake_lost_iff`).
-/

namespace Ece391Kernel

open Transition

/-! ## Statements of `rtc.c` -/

namespace Rtc

/-- `read_wait = 1` at the start of `rtc_read`. -/
def startWait (rtc : Rtc) : Rtc := { rtc with readWait := true }

/-- `rtc_handler`. -/
def handler (rtc : Rtc) : Rtc := { rtc with readWait := false }

end Rtc

/-- Where a process is: outside `rtc_read`, in its loop with no interrupt since it set `read_wait`,
or in its loop with an interrupt since. -/
inductive WaitPhase where
  | outside
  | waiting
  | woken
deriving DecidableEq

/-- An interrupt wakes the processes that wait for one. -/
def WaitPhase.wake : WaitPhase → WaitPhase
  | .outside => .outside
  | .waiting => .woken
  | .woken => .woken

/-- The clock, the process that runs, and where each process is. -/
structure Waits (π : Type) where
  rtc : Rtc
  running : π
  phase : π → WaitPhase

/-- The process that runs calls `rtc_read`, or tests `read_wait`; the clock interrupts; and a tick
switches to a process. -/
inductive WaitEvent (π : Type) where
  | call
  | test
  | interrupt
  | tick (p : π)

namespace Waits

variable {π : Type} [DecidableEq π] {s s' : Waits π}

/-- No process has called `rtc_read`. -/
def start (rtc : Rtc) (p : π) : Waits π := ⟨rtc, p, fun _ => .outside⟩

/-- The process that runs is in another phase. -/
def setPhase (s : Waits π) (phase : WaitPhase) : Waits π :=
  { s with phase := Function.update s.phase s.running phase }

/-- One step, if it is possible. The loop of `rtc_read` ends when its test finds the flag clear. -/
def next (s : Waits π) : WaitEvent π → Option (Waits π)
  | .call =>
      if s.phase s.running = .outside then
        some ({ s with rtc := s.rtc.startWait }.setPhase .waiting)
      else none
  | .test =>
      if s.phase s.running = .outside then none
      else if s.rtc.readWait then some s
      else some (s.setPhase .outside)
  | .interrupt => some { s with rtc := s.rtc.handler, phase := fun p => (s.phase p).wake }
  | .tick p => some { s with running := p }

/-- A step of the system. -/
def WaitStep (s : Waits π) (e : WaitEvent π) (s' : Waits π) : Prop := s.next e = some s'

/-- Whichever process runs next, its test finds the flag clear if it was woken. -/
def NoWakeLost (s : Waits π) : Prop := ∀ p, s.phase p = .woken → s.rtc.readWait = false

/-- A process calls `rtc_read` when no other one is woken and has yet to test the flag. -/
def InTurn (s : Waits π) (e : WaitEvent π) : Prop :=
  match e with
  | .call => ∀ p, p ≠ s.running → s.phase p ≠ .woken
  | .test => True
  | .interrupt => True
  | .tick _ => True

/-- A step keeps the wake-ups exactly when its call, if it is one, is in turn. -/
theorem step_noWakeLost_iff {e : WaitEvent π} (hs : s.NoWakeLost) (hstep : WaitStep s e s') :
    s'.NoWakeLost ↔ s.InTurn e := by
  cases e with
  | call =>
      obtain ⟨-, heq⟩ := Option.ite_none_right_eq_some.1 hstep
      cases heq
      constructor
      -- The call sets the flag for every woken process, so there may be none but the caller.
      · intro hkept p hne hwoken
        have hp : Function.update s.phase s.running .waiting p = .woken := by
          rw [Function.update_of_ne hne, hwoken]
        exact Bool.noConfusion (hkept p hp)
      · intro hturn p hwoken
        by_cases hp : p = s.running
        · subst hp
          simp [setPhase] at hwoken
        · simp only [setPhase, Function.update_of_ne hp] at hwoken
          exact absurd hwoken (hturn p hp)
  | test =>
      refine ⟨fun _ => trivial, fun _ => ?_⟩
      simp only [WaitStep, next] at hstep
      split_ifs at hstep with houtside hwait
      · cases hstep
        exact hs
      · cases hstep
        exact fun _ _ => Bool.eq_false_iff.2 hwait
  | interrupt =>
      cases hstep
      exact ⟨fun _ => trivial, fun _ _ _ => rfl⟩
  | tick p =>
      cases hstep
      exact ⟨fun _ => trivial, fun _ => hs⟩

/-- What losing a wake-up means: some process whose call set the flag before an interrupt finds it
set again when it is scheduled. -/
theorem not_noWakeLost_iff : ¬ s.NoWakeLost ↔
    ∃ p s₁, s.phase p = .woken ∧ WaitStep s (.tick p) s₁ ∧ WaitStep s₁ .test s₁ ∧
      s₁.rtc.readWait = true := by
  constructor
  · intro hlost
    simp only [NoWakeLost, not_forall, Bool.not_eq_false] at hlost
    obtain ⟨p, hwoken, hwait⟩ := hlost
    refine ⟨p, { s with running := p }, hwoken, rfl, ?_, hwait⟩
    have hinside : ¬ s.phase p = .outside := by
      rw [hwoken]
      nofun
    simp only [WaitStep, next, if_neg hinside, hwait, if_true]
  · rintro ⟨p, s₁, hwoken, htick, -, hwait⟩ hkept
    cases htick
    exact Bool.noConfusion ((hkept p hwoken).symm.trans hwait)

/-- For any number of processes, from the start: no wake-up can be lost in any state of a run
exactly when each process calls `rtc_read` while no other one is woken and has yet to test
`read_wait`. -/
theorem no_wake_lost_iff (rtc : Rtc) (p : π) (es : List (WaitEvent π)) (s : Waits π) :
    Run (Within NoWakeLost WaitStep) (start rtc p) es s ↔
      Run (Guarded InTurn WaitStep) (start rtc p) es s := by
  refine run_within_iff (I := fun _ => True)
    (fun s e s' _ hs hstep => ⟨trivial, step_noWakeLost_iff hs hstep⟩) trivial ?_
  intro p hwoken
  cases hwoken

/-- The first process calls `rtc_read`, the clock interrupts, and before the first process runs
again the second one calls too. -/
def callBetween : List (WaitEvent Nat) := [.call, .interrupt, .tick 1, .call, .tick 0]

/-- The first process finds the flag set again. -/
theorem wake_lost : ¬ ∀ (π : Type) (_ : DecidableEq π) (rtc : Rtc) (p : π) (es : List (WaitEvent π))
    (s : Waits π), Run WaitStep (start rtc p) es s → s.phase s.running = .woken →
    s.rtc.readWait = false := by
  intro h
  have hsome : ((replay next (start ⟨true, false, 0x2F⟩ 0) callBetween).bind fun s =>
      if s.phase s.running = .woken ∧ s.rtc.readWait = true then some s else none).isSome =
        true := by
    decide
  obtain ⟨s, hs⟩ := Option.isSome_iff_exists.1 hsome
  obtain ⟨s', hrun, hlast⟩ := Option.bind_eq_some_iff.1 hs
  obtain ⟨⟨hwoken, hwait⟩, -⟩ := Option.ite_none_right_eq_some.1 hlast
  have hclear := h Nat inferInstance _ _ _ s' (replay_run hrun) hwoken
  exact Bool.noConfusion (hclear.symm.trans hwait)

/-- `rtc_read` of a process that waits alone, as the operation table calls it. -/
theorem rtcRead_alone (k : Kernel) (p : π) {r : Int × List UInt8 × Kernel}
    (h : k.rtcRead = some r) : ∃ s, Run (Guarded InTurn WaitStep) (start k.dev.rtc p)
      [.call, .interrupt, .test] s ∧ s.phase p = .outside ∧ s.rtc = r.2.2.dev.rtc := by
  cases h
  have hcall : WaitStep (start k.dev.rtc p) .call
      ({ start k.dev.rtc p with rtc := k.dev.rtc.startWait }.setPhase .waiting) := rfl
  generalize hs₁ : ({ start k.dev.rtc p with rtc := k.dev.rtc.startWait }.setPhase
    .waiting : Waits π) = s₁ at hcall
  have hwaiting : s₁.phase s₁.running = .waiting ∧ s₁.running = p := by
    rw [← hs₁]
    exact ⟨Function.update_self _ _ _, rfl⟩
  have hrtc : s₁.rtc.handler = { k.dev.rtc with readWait := false } := by rw [← hs₁]; rfl
  have htest : WaitStep { s₁ with rtc := s₁.rtc.handler, phase := fun p => (s₁.phase p).wake } .test
      ({ s₁ with rtc := s₁.rtc.handler, phase := fun p => (s₁.phase p).wake }.setPhase
        .outside) := by
    have hinside : ¬ (s₁.phase s₁.running).wake = .outside := by
      rw [hwaiting.1]
      nofun
    have hclear : s₁.rtc.handler.readWait = false := rfl
    simp only [WaitStep, next, if_neg hinside, hclear, Bool.false_eq_true, if_false]
  refine ⟨_, .cons ⟨fun _ _ => nofun, hcall⟩ (.cons ⟨trivial, rfl⟩ (.single ⟨trivial, htest⟩)), ?_,
    hrtc⟩
  rw [← hwaiting.2]
  exact Function.update_self _ _ _

end Waits

end Ece391Kernel
