import Mathlib.Data.Finset.Card
import Mathlib.Data.Finset.Range
import Ece391Kernel.Kernel.Arguments

/-!
# Process slots over sequences of `sys_execute`

`sys_execute` claims its slot before it looks at its command, and gives it back at each of its
failures. So a call that returns has changed nothing, and over any sequence of calls the slots that
are taken are those of the programs that were started and have not halted (`slots_counted`).
-/

namespace Ece391Kernel

open Transition

/-- A `sys_execute` that returns, one that starts a program, the `sys_halt` of a program, and
anything else. -/
inductive SlotEvent where
  | fail (args : ExecArgs)
  | start (args : ExecArgs)
  | halt (status : UInt8) (callerEbp : Nat)
  | other

/-- The programs started in a sequence of events, and those halted. -/
def SlotEvent.starts : SlotEvent → Bool
  | .start _ => true
  | .fail _ | .halt _ _ | .other => false

def SlotEvent.halts : SlotEvent → Bool
  | .halt _ _ => true
  | .fail _ | .start _ | .other => false

namespace Kernel

variable {k k' : Kernel} {e : SlotEvent} {process : Nat}

/-- A program, which is not the base shell, is running in a slot that is taken. -/
def RunsProgram (k : Kernel) : Prop :=
  k.getProcessNumber ≠ 0 ∧ k.getProcessNumber < maxProcesses ∧
    k.procArr k.getProcessNumber ≠ .free

/-- One event. Anything else, such as another system call or a tick, leaves `proc_arr` alone; it may
change all the rest. -/
def SlotStep (k : Kernel) (e : SlotEvent) (k' : Kernel) : Prop :=
  match e with
  | .fail args => ∃ v, k.sysExecute args = .ret v k'
  | .start args => ∃ entry, k.sysExecute args = .user entry k'
  | .halt status callerEbp => k.RunsProgram ∧ ∃ v, k.sysHalt status callerEbp = .ret v k'
  | .other => k'.procArr = k.procArr

/-- The slots that are taken. -/
def takenSlots (k : Kernel) : Finset Nat :=
  (Finset.range maxProcesses).filter fun p => k.procArr p ≠ .free

theorem mem_takenSlots : process ∈ k.takenSlots ↔ process < 6 ∧ k.procArr process ≠ .free := by
  simp [takenSlots]

/-- Starting a program takes the first free slot. -/
theorem start_takenSlots {args : ExecArgs} (h : SlotStep k (.start args) k') :
    ∃ process, FirstFree k.procArr process ∧ k'.takenSlots = insert process k.takenSlots := by
  obtain ⟨entry, hexec⟩ := h
  obtain ⟨process, cmd, frames, hfirst, rfl⟩ := sysExecute_user hexec
  refine ⟨process, hfirst, Finset.ext fun p => ?_⟩
  rw [Finset.mem_insert, mem_takenSlots, mem_takenSlots]
  by_cases hp : p = process
  · subst hp
    have hlt := hfirst.lt
    simp [started, hlt]
  · simp [started, hp]

/-- A program that halts frees its own slot. -/
theorem halt_takenSlots {status : UInt8} {callerEbp : Nat}
    (h : SlotStep k (.halt status callerEbp) k') :
    k.getProcessNumber ∈ k.takenSlots ∧
      k'.takenSlots = k.takenSlots.erase k.getProcessNumber := by
  obtain ⟨⟨hbase, hlt, hlive⟩, v, hhalt⟩ := h
  obtain ⟨-, closed, ⟨dev, frames, dirLocation, fileDesc, -, rfl⟩, rfl⟩ := sysHalt_ret hbase hhalt
  refine ⟨mem_takenSlots.2 ⟨hlt, hlive⟩, Finset.ext fun p => ?_⟩
  rw [Finset.mem_erase, mem_takenSlots, mem_takenSlots]
  by_cases hp : p = k.getProcessNumber
  · subst hp
    simp [halted]
  · simp [halted, hp]

/-- A slot that was free is taken exactly when a program is started. -/
theorem slot_taken_iff (h : SlotStep k e k') :
    (∃ p, p ∈ k'.takenSlots ∧ p ∉ k.takenSlots) ↔ e.starts = true := by
  cases e with
  | fail args =>
      obtain ⟨v, hexec⟩ := h
      obtain ⟨-, rfl⟩ := sysExecute_ret hexec
      simp [SlotEvent.starts]
  | start args =>
      obtain ⟨process, hfirst, htaken⟩ := start_takenSlots h
      refine ⟨fun _ => rfl, fun _ => ⟨process, ?_, ?_⟩⟩
      · rw [htaken]
        exact Finset.mem_insert_self process _
      · rw [mem_takenSlots]
        exact fun hmem => hmem.2 hfirst.free
  | halt status callerEbp =>
      obtain ⟨-, htaken⟩ := halt_takenSlots h
      simp only [SlotEvent.starts, Bool.false_eq_true, iff_false, not_exists, not_and, not_not]
      intro p hp
      rw [htaken] at hp
      exact Finset.mem_of_mem_erase hp
  | other =>
      have hsame : k'.takenSlots = k.takenSlots := by
        rw [takenSlots, show k'.procArr = k.procArr from h]
        rfl
      simp [SlotEvent.starts, hsame]

/-- One event adds what it starts, and takes away what it halts. -/
theorem slotStep_card (h : SlotStep k e k') :
    k'.takenSlots.card + e.halts.toNat = k.takenSlots.card + e.starts.toNat := by
  cases e with
  | fail args =>
      obtain ⟨v, hexec⟩ := h
      obtain ⟨-, rfl⟩ := sysExecute_ret hexec
      rfl
  | start args =>
      obtain ⟨process, hfirst, htaken⟩ := start_takenSlots h
      have hnew : process ∉ k.takenSlots := fun hmem => (mem_takenSlots.1 hmem).2 hfirst.free
      rw [htaken, Finset.card_insert_of_notMem hnew]
      rfl
  | halt status callerEbp =>
      obtain ⟨hmem, htaken⟩ := halt_takenSlots h
      rw [htaken]
      exact Finset.card_erase_add_one hmem
  | other =>
      have hsame : k'.takenSlots = k.takenSlots := by
        rw [takenSlots, show k'.procArr = k.procArr from h]
        rfl
      rw [hsame]
      rfl

/-- Over a whole sequence. -/
theorem slotRun_card {es : List SlotEvent} (h : Run SlotStep k es k') :
    k'.takenSlots.card + es.countP SlotEvent.halts =
      k.takenSlots.card + es.countP SlotEvent.starts := by
  induction h with
  | nil => rfl
  | @cons k m k' e es hstep _ ih =>
      have hcard := slotStep_card hstep
      rw [List.countP_cons, List.countP_cons]
      cases hs : e.starts <;> cases hh : e.halts <;> simp [hs, hh] at hcard ⊢ <;> omega

/-- Events that neither start nor halt a program leave the slots alone. -/
theorem slotRun_same {es : List SlotEvent} (h : Run SlotStep k es k')
    (hstarts : ∀ e ∈ es, e.starts = false) (hhalts : ∀ e ∈ es, e.halts = false) :
    k'.procArr = k.procArr := by
  induction h with
  | nil => rfl
  | @cons k m k' e es hstep _ ih =>
      have hrest := ih (fun e he => hstarts e (List.mem_cons_of_mem _ he))
        (fun e he => hhalts e (List.mem_cons_of_mem _ he))
      have hstart := hstarts e List.mem_cons_self
      have hhalt := hhalts e List.mem_cons_self
      rw [hrest]
      cases e with
      | fail args =>
          obtain ⟨v, hexec⟩ := hstep
          rw [(sysExecute_ret hexec).2]
      | start args => cases hstart
      | halt status callerEbp => cases hhalt
      | other => exact hstep

/-- A `sys_execute` that returns, for whatever reason, returns −1 and has changed nothing. So in any
sequence of calls, failing or not, a free slot is taken exactly when a program is started, the taken
slots are those of the programs started and not halted, and without either `proc_arr` is as
before. -/
theorem slots_counted {args : ExecArgs} {v : Int} {k₁ k₂ : Kernel} {es : List SlotEvent}
    (hfail : k.sysExecute args = .ret v k₁) (hrun : Run SlotStep k₁ es k₂) :
    v = -1 ∧ k₁ = k ∧
      k₂.takenSlots.card + es.countP SlotEvent.halts =
        k.takenSlots.card + es.countP SlotEvent.starts ∧
      ((∀ e ∈ es, e.starts = false) → (∀ e ∈ es, e.halts = false) → k₂.procArr = k.procArr) ∧
      ∀ e k₃, SlotStep k₂ e k₃ →
        ((∃ p, p ∈ k₃.takenSlots ∧ p ∉ k₂.takenSlots) ↔ e.starts = true) := by
  obtain ⟨hv, rfl⟩ := sysExecute_ret hfail
  exact ⟨hv, rfl, slotRun_card hrun, slotRun_same hrun, fun e k₃ => slot_taken_iff⟩

/-- The command "a", of which there is no file. -/
def missingArgs : ExecArgs where
  command := fun i => if i = 0 then 0x61 else 0
  above := []
  fileBuf := []

/-- The base shell tries it, and then starts a program: one slot more is taken. -/
theorem slots_counted_shell : ∃ k₁ k₂, executingShell.sysExecute missingArgs = .ret (-1) k₁ ∧
    Run SlotStep k₁ [.fail missingArgs, .start shellAArgs] k₂ ∧
    k₂.takenSlots.card = executingShell.takenSlots.card + 1 := by
  have hreturns : (executingShell.ownNext (.fail missingArgs)).isSome = true := by decide +kernel
  obtain ⟨k₁, hk₁⟩ := Option.isSome_iff_exists.1 hreturns
  simp only [ownNext, Option.ite_none_right_eq_some] at hk₁
  obtain ⟨-, hk₁⟩ := hk₁
  split at hk₁
  · next v k' hexec =>
    cases hk₁
    obtain ⟨rfl, rfl⟩ := sysExecute_ret hexec
    obtain ⟨entry, k₂, -, hstart, -⟩ := shellAArgs_starts
    have hrun : Run SlotStep executingShell [.fail missingArgs, .start shellAArgs] k₂ :=
      .cons ⟨-1, hexec⟩ (.single ⟨entry, hstart⟩)
    exact ⟨_, k₂, hexec, hrun, (slots_counted hexec hrun).2.2.1⟩
  · cases hk₁

end Kernel

end Ece391Kernel
