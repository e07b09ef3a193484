import Ece391Kernel.Kernel.Scheduler
import Ece391Kernel.Transition.Stacks

/-!
# The programs of each terminal as a stack

The process table and the PCBs represent, for each terminal, the stack of the programs that its
shell has started, each by the one below it. `getNextProc_eq_top` says that `get_next_proc` then
chooses the program on top of the next terminal's stack, `Represents.spawn` that `sys_execute`
pushes a program, and `Represents.reap` that `sys_halt` pops one.
-/

namespace Ece391Kernel

open Transition

/-- The parent that a PCB names, with the parent's page mapping and a frame on its kernel stack. -/
structure ChildOf (pcb : Nat → Pcb) (process parent : Nat) : Prop where
  pid : (pcb process).parentPid = parent
  page : (pcb process).parentPhysAddr = frameEntry parent
  frame : InStack parent ((pcb process).parentEbp + 8)

/-- The shells hold slots 0 to 2, and the other slots in use are those of the stacks; each PCB
names its terminal and its parent. -/
structure Represents (procArr : Nat → ProcFlag) (pcb : Nat → Pcb) (s : Stacks Nat) : Prop where
  ordered : s.Ordered
  shells : ∀ t, t < 3 → procArr t ≠ .free ∧ (pcb t).termNumber = t
  slots : ∀ t n, n ∈ s t →
    t < 3 ∧ 3 ≤ n ∧ n < 6 ∧ procArr n ≠ .free ∧ (pcb n).termNumber = t
  taken : ∀ n, 3 ≤ n → n < 6 → procArr n ≠ .free → n ∈ s (pcb n).termNumber
  linked : ∀ t, t < 3 → Stacks.Linked (ChildOf pcb) t (s t)

/-- The process on top of a terminal's stack. -/
def topOf (s : Stacks Nat) (t : Nat) : Nat := s.top id t

variable {procArr : Nat → ProcFlag} {pcb : Nat → Pcb} {s : Stacks Nat} {t n : Nat}

/-! ## The process on top -/

/-- It is the shell or a slot of the stack. -/
theorem topOf_cases (s : Stacks Nat) (t : Nat) :
    s t = [] ∧ topOf s t = t ∨ ∃ rest, s t = topOf s t :: rest := by
  unfold topOf Stacks.top
  cases s t with
  | nil => exact .inl ⟨rfl, rfl⟩
  | cons n rest => exact .inr ⟨rest, rfl⟩

theorem topOf_push_self : topOf (s.push t n) t = n := Stacks.top_push_self

theorem topOf_push_of_ne {u : Nat} (h : u ≠ t) : topOf (s.push t n) u = topOf s u :=
  Stacks.top_push_of_ne h

theorem topOf_pop_of_ne {u : Nat} (h : u ≠ t) : topOf (s.pop t) u = topOf s u :=
  Stacks.top_pop_of_ne h

namespace Represents

variable (h : Represents procArr pcb s)

include h

theorem topOf_lt (ht : t < 3) : topOf s t < 6 := by
  obtain ⟨-, htop⟩ | ⟨rest, hcons⟩ := topOf_cases s t
  · omega
  · exact (h.slots t _ (by rw [hcons]; exact List.mem_cons_self ..)).2.2.1

theorem topOf_live (ht : t < 3) : procArr (topOf s t) ≠ .free := by
  obtain ⟨-, htop⟩ | ⟨rest, hcons⟩ := topOf_cases s t
  · rw [htop]
    exact (h.shells t ht).1
  · exact (h.slots t _ (by rw [hcons]; exact List.mem_cons_self ..)).2.2.2.1

theorem topOf_term (ht : t < 3) : (pcb (topOf s t)).termNumber = t := by
  obtain ⟨-, htop⟩ | ⟨rest, hcons⟩ := topOf_cases s t
  · rw [htop]
    exact (h.shells t ht).2
  · exact (h.slots t _ (by rw [hcons]; exact List.mem_cons_self ..)).2.2.2.2

/-- A shell on top of its stack is that of the terminal. -/
theorem topOf_shell (hshell : topOf s t < 3) : s t = [] ∧ topOf s t = t := by
  obtain hnil | ⟨rest, hcons⟩ := topOf_cases s t
  · exact hnil
  · have hlo := (h.slots t _ (by rw [hcons]; exact List.mem_cons_self ..)).2.1
    omega

/-- No free slot is on a stack. -/
theorem not_mem_of_free (hfree : procArr n = .free) (u : Nat) : n ∉ s u := fun hmem =>
  (h.slots u n hmem).2.2.2.1 hfree

end Represents

/-! ## `get_next_proc` -/

/-- The loop of `get_next_proc` is a scan for the owner of each slot. -/
theorem getNextProc_scan (k : Kernel) (curTerm : Nat) :
    k.getNextProc curTerm = Stacks.scan
      (fun i => if k.procArr i ≠ .free then some (k.pcb i).termNumber else none) 3 3
      ((curTerm + 1) % 3) := by
  have hbody : (fun nextProcNum procIt =>
      if k.procArr procIt ≠ .free ∧ (k.pcb procIt).termNumber = nextProcNum then procIt
      else nextProcNum) = fun next i =>
      if (if k.procArr i ≠ .free then some (k.pcb i).termNumber else none) = some next then i
      else next := by
    funext next i
    by_cases hfree : k.procArr i = .free
    · simp [hfree]
    · simp [hfree]
  unfold Kernel.getNextProc Stacks.scan
  rw [hbody]
  rfl

/-- The scheduler chooses the program on top of the next terminal's stack. -/
theorem Represents.getNextProc_eq_top {k : Kernel} (h : Represents k.procArr k.pcb s)
    (curTerm : Nat) : k.getNextProc curTerm = topOf s ((curTerm + 1) % 3) := by
  rw [getNextProc_scan]
  show Stacks.scan _ 3 3 (id ((curTerm + 1) % 3)) = s.top id ((curTerm + 1) % 3)
  refine h.ordered.scan_eq_top ?_ ?_ ?_
  · intro i r hlo hhi howner
    simp only [Option.ite_none_right_eq_some, Option.some.injEq] at howner
    obtain ⟨hlive, rfl⟩ := howner
    exact (h.slots _ i (h.taken i hlo hhi hlive)).1
  · intro i hlo hhi
    simp only [Option.ite_none_right_eq_some, Option.some.injEq, id_eq]
    constructor
    · rintro ⟨hlive, hterm⟩
      rw [← hterm]
      exact h.taken i hlo hhi hlive
    · intro hmem
      exact (h.slots _ i hmem).2.2.2
  · intro i hmem
    obtain ⟨-, hlo, hhi, -⟩ := h.slots _ i hmem
    exact ⟨hlo, hhi⟩

theorem Represents.termOf_topOf {k : Kernel} (h : Represents k.procArr k.pcb s) (ht : t < 3) :
    k.termOf (topOf s t) = t := by
  unfold Kernel.termOf
  by_cases hshell : topOf s t < numTerms
  · rw [if_pos hshell]
    exact (h.topOf_shell hshell).2
  · rw [if_neg hshell]
    exact h.topOf_term ht

/-! ## Programs that start and end -/

/-- The PCBs agree up to descriptors. -/
def SamePcbs (pcb pcb' : Nat → Pcb) : Prop :=
  ∀ q, ∃ fileDesc, pcb' q = { pcb q with fileDesc }

theorem SamePcbs.childOf {pcb' : Nat → Pcb} (hpcb : SamePcbs pcb pcb') {process parent : Nat}
    (h : ChildOf pcb process parent) : ChildOf pcb' process parent := by
  obtain ⟨fileDesc, heq⟩ := hpcb process
  refine ⟨?_, ?_, ?_⟩
  · rw [heq]
    exact h.pid
  · rw [heq]
    exact h.page
  · rw [heq]
    exact h.frame

/-- Descriptors do not matter. -/
theorem Represents.congr {pcb' : Nat → Pcb} (h : Represents procArr pcb s)
    (hpcb : SamePcbs pcb pcb') : Represents procArr pcb' s := by
  have hterm : ∀ q, (pcb' q).termNumber = (pcb q).termNumber := by
    intro q
    obtain ⟨fileDesc, heq⟩ := hpcb q
    rw [heq]
  refine ⟨h.ordered, fun t ht => ?_, fun t n hmem => ?_, fun n hlo hhi hlive => ?_,
    fun t ht => (h.linked t ht).imp fun n _ m => hpcb.childOf⟩
  · rw [hterm]
    exact h.shells t ht
  · rw [hterm]
    exact h.slots t n hmem
  · rw [hterm]
    exact h.taken n hlo hhi hlive

/-- A slot below the running program, or started by a shell, is below every slot of the terminal. -/
theorem Represents.below_all (h : Represents procArr pcb s)
    (hslot : topOf s t < 3 ∨ n < topOf s t) : ∀ m ∈ s t, n < m := by
  intro m hm
  obtain ⟨hnil, -⟩ | ⟨rest, hcons⟩ := topOf_cases s t
  · rw [hnil] at hm
    exact absurd hm List.not_mem_nil
  · have htop := (h.slots t _ (by rw [hcons]; exact List.mem_cons_self ..)).2.1
    have hsorted := h.ordered.sorted t
    rw [hcons, List.pairwise_cons] at hsorted
    rw [hcons, List.mem_cons] at hm
    have hbelow : n < topOf s t := by omega
    obtain rfl | hrest := hm
    · exact hbelow
    · exact Nat.lt_trans hbelow (hsorted.1 m hrest)

/-- A program in a free slot below the running one, or started by a shell, goes on top. -/
theorem Represents.spawn {newPcb : Pcb} (h : Represents procArr pcb s) (ht : t < 3)
    (hfree : procArr n = .free) (hn : n < 6) (hslot : topOf s t < 3 ∨ n < topOf s t)
    (hterm : newPcb.termNumber = t) (hpid : newPcb.parentPid = topOf s t)
    (hpage : newPcb.parentPhysAddr = frameEntry (topOf s t))
    (hframe : InStack (topOf s t) (newPcb.parentEbp + 8)) :
    Represents (Function.update procArr n .running) (Function.update pcb n newPcb)
      (s.push t n) := by
  have hlo : 3 ≤ n := by
    by_cases hlt : n < 3
    · exact absurd hfree (h.shells n hlt).1
    · omega
  have hne : ∀ u m, m ∈ s u → m ≠ n := fun u m hm heq => h.not_mem_of_free hfree u (heq ▸ hm)
  have hkeep : ∀ u, ∀ m ∈ s u, ∀ p,
      ChildOf pcb m p → ChildOf (Function.update pcb n newPcb) m p := by
    rintro u m hm p ⟨hp, ha, hf⟩
    have hm' := Function.update_of_ne (hne u m hm) newPcb pcb
    exact ⟨by rw [hm']; exact hp, by rw [hm']; exact ha, by rw [hm']; exact hf⟩
  -- The new program's parent is the old top; all other links are between other programs.
  refine ⟨h.ordered.push (h.not_mem_of_free hfree) (h.below_all hslot), fun u hu => ?_,
    fun u m hm => ?_, fun m hmlo hmhi hlive => ?_, fun u hu => ?_⟩
  · have hun : u ≠ n := by omega
    rw [Function.update_of_ne hun, Function.update_of_ne hun]
    exact h.shells u hu
  · obtain hold | ⟨rfl, rfl⟩ := Stacks.mem_push.1 hm
    · rw [Function.update_of_ne (hne u m hold), Function.update_of_ne (hne u m hold)]
      exact h.slots u m hold
    · rw [Function.update_self, Function.update_self]
      exact ⟨ht, hlo, hn, by decide, hterm⟩
  · by_cases hmn : m = n
    · subst hmn
      rw [Function.update_self, hterm, Stacks.push_self]
      exact List.mem_cons_self ..
    · rw [Function.update_of_ne hmn] at hlive ⊢
      exact Stacks.mem_push.2 (.inl (h.taken m hmlo hmhi hlive))
  · by_cases hut : u = t
    · subst hut
      rw [Stacks.push_self]
      refine ⟨⟨?_, ?_, ?_⟩, (h.linked u hu).imp (hkeep u)⟩
      · rw [Function.update_self]
        exact hpid
      · rw [Function.update_self]
        exact hpage
      · rw [Function.update_self]
        exact hframe
    · rw [Stacks.push_of_ne hut]
      exact (h.linked u hu).imp (hkeep u)

/-- What the PCB of a program on top names. -/
theorem Represents.parent {rest : List Nat} (h : Represents procArr pcb s) (ht : t < 3)
    (hcons : s t = n :: rest) : ChildOf pcb n (topOf (s.pop t) t) := by
  have hlinked := h.linked t ht
  rw [hcons] at hlinked
  have htop : topOf (s.pop t) t = rest.headD t := by
    rw [topOf, Stacks.top, Stacks.pop_self, hcons, List.tail_cons, id_eq]
  rw [htop]
  exact hlinked.1

/-- Giving up the slot on top. -/
theorem Represents.reap {rest : List Nat} (h : Represents procArr pcb s) (hcons : s t = n :: rest) :
    Represents (Function.update procArr n .free) pcb (s.pop t) := by
  have hn := h.slots t n (by rw [hcons]; exact List.mem_cons_self ..)
  refine ⟨h.ordered.pop, fun u hu => ?_, fun u m hm => ?_, fun m hmlo hmhi hlive => ?_,
    fun u hu => ?_⟩
  · have hun : u ≠ n := by omega
    rw [Function.update_of_ne hun]
    exact h.shells u hu
  · obtain ⟨hold, hne⟩ := (h.ordered.mem_pop hcons).1 hm
    rw [Function.update_of_ne hne]
    exact h.slots u m hold
  · have hne : m ≠ n := by
      rintro rfl
      rw [Function.update_self] at hlive
      exact hlive rfl
    rw [Function.update_of_ne hne] at hlive
    exact (h.ordered.mem_pop hcons).2 ⟨h.taken m hmlo hmhi hlive, hne⟩
  · by_cases hut : u = t
    · subst hut
      have hlinked := h.linked u hu
      rw [hcons] at hlinked
      rw [Stacks.pop_self, hcons, List.tail_cons]
      exact hlinked.2
    · rw [Stacks.pop_of_ne hut]
      exact h.linked u hu

end Ece391Kernel
