import Ece391Kernel.Transition.Run
import Mathlib.Logic.Function.Basic

/-!
# Sessions with stacks of slots

Each session has a root and, above it, a stack of slots from a common pool, the newest first. The
session's top is the slot that runs for it. `scan` is a search through the pool that knows only
which session a slot belongs to; `scan_eq_top` says that it finds the top of a session when the
newest slot of each stack is its least.
-/

namespace Ece391Kernel.Transition

/-- The slots of each session above its root, the newest first. -/
abbrev Stacks (τ : Type) := τ → List Nat

namespace Stacks

variable {τ : Type} {root : τ → Nat} {s : Stacks τ} {t u : τ} {m n : Nat}

/-- The newest slot of a session, or its root. -/
def top (s : Stacks τ) (root : τ → Nat) (t : τ) : Nat := (s t).headD (root t)

/-- No slot is held twice, and the newest slot of each stack is the least. -/
structure Ordered (s : Stacks τ) : Prop where
  sorted : ∀ t, (s t).Pairwise (· < ·)
  disjoint : ∀ t u n, n ∈ s t → n ∈ s u → t = u

/-- Each slot of a stack is related to the one below it, the last to the root. -/
def Linked (R : Nat → Nat → Prop) (r : Nat) : List Nat → Prop
  | [] => True
  | n :: rest => R n (rest.headD r) ∧ Linked R r rest

theorem Linked.imp {R R' : Nat → Nat → Prop} {r : Nat} {slots : List Nat}
    (h : Linked R r slots) (himp : ∀ n ∈ slots, ∀ m, R n m → R' n m) : Linked R' r slots := by
  induction slots with
  | nil => trivial
  | cons n rest ih =>
      obtain ⟨hhead, hrest⟩ := h
      refine ⟨himp n (List.mem_cons_self ..) _ hhead, ih hrest fun m hm => ?_⟩
      exact himp m (List.mem_cons_of_mem n hm)

/-- The empty stacks. -/
theorem ordered_empty : Ordered (fun _ : τ => []) :=
  ⟨fun _ => List.Pairwise.nil, fun _ _ _ h => absurd h List.not_mem_nil⟩

section Update

variable [DecidableEq τ]

/-- A new slot on top of a session. -/
def push (s : Stacks τ) (t : τ) (n : Nat) : Stacks τ := Function.update s t (n :: s t)

/-- The session without its newest slot. -/
def pop (s : Stacks τ) (t : τ) : Stacks τ := Function.update s t (s t).tail

@[simp] theorem push_self (s : Stacks τ) (t : τ) (n : Nat) : s.push t n t = n :: s t :=
  Function.update_self ..

@[simp] theorem push_of_ne (h : u ≠ t) : s.push t n u = s u := Function.update_of_ne h ..

@[simp] theorem pop_self (s : Stacks τ) (t : τ) : s.pop t t = (s t).tail := Function.update_self ..

@[simp] theorem pop_of_ne (h : u ≠ t) : s.pop t u = s u := Function.update_of_ne h ..

theorem top_push_self : (s.push t n).top root t = n := by rw [top, push_self, List.headD_cons]

theorem top_push_of_ne (h : u ≠ t) : (s.push t n).top root u = s.top root u := by
  rw [top, push_of_ne h, top]

theorem top_pop_of_ne (h : u ≠ t) : (s.pop t).top root u = s.top root u := by
  rw [top, pop_of_ne h, top]

theorem mem_push : m ∈ s.push t n u ↔ m ∈ s u ∨ u = t ∧ m = n := by
  by_cases h : u = t
  · subst h
    rw [push_self, List.mem_cons]
    constructor
    · rintro (rfl | hm)
      · exact .inr ⟨rfl, rfl⟩
      · exact .inl hm
    · rintro (hm | ⟨-, rfl⟩)
      · exact .inr hm
      · exact .inl rfl
  · rw [push_of_ne h]
    exact ⟨.inl, fun hm => hm.resolve_right fun hut => h hut.1⟩

theorem Ordered.push (h : s.Ordered) (hfresh : ∀ u, n ∉ s u) (hleast : ∀ m ∈ s t, n < m) :
    (s.push t n).Ordered := by
  refine ⟨fun u => ?_, fun u v m hu hv => ?_⟩
  · by_cases hut : u = t
    · subst hut
      rw [push_self]
      exact List.pairwise_cons.2 ⟨hleast, h.sorted u⟩
    · rw [push_of_ne hut]
      exact h.sorted u
  · obtain hmu | ⟨rfl, rfl⟩ := mem_push.1 hu
    · obtain hmv | ⟨rfl, rfl⟩ := mem_push.1 hv
      · exact h.disjoint u v m hmu hmv
      · exact absurd hmu (hfresh u)
    · obtain hmv | ⟨rfl, -⟩ := mem_push.1 hv
      · exact absurd hmv (hfresh v)
      · rfl

/-- Popping removes exactly the newest slot. -/
theorem Ordered.mem_pop {rest : List Nat} (h : s.Ordered) (ht : s t = n :: rest) :
    m ∈ s.pop t u ↔ m ∈ s u ∧ m ≠ n := by
  have hsorted := h.sorted t
  rw [ht, List.pairwise_cons] at hsorted
  by_cases hut : u = t
  · subst hut
    rw [pop_self, ht, List.tail_cons, List.mem_cons]
    constructor
    · intro hm
      exact ⟨.inr hm, Nat.ne_of_gt (hsorted.1 m hm)⟩
    · rintro ⟨hm, hne⟩
      exact hm.resolve_left hne
  · rw [pop_of_ne hut]
    refine ⟨fun hm => ⟨hm, ?_⟩, And.left⟩
    rintro rfl
    exact hut (h.disjoint u t m hm (by rw [ht]; exact List.mem_cons_self ..))

theorem Ordered.pop (h : s.Ordered) : (s.pop t).Ordered := by
  have hsub : ∀ u m, m ∈ s.pop t u → m ∈ s u := by
    intro u m hm
    by_cases hut : u = t
    · subst hut
      rw [pop_self] at hm
      exact List.mem_of_mem_tail hm
    · rw [pop_of_ne hut] at hm
      exact hm
  refine ⟨fun u => ?_, fun u v m hu hv => h.disjoint u v m (hsub u m hu) (hsub v m hv)⟩
  by_cases hut : u = t
  · subst hut
    rw [pop_self]
    exact (h.sorted u).tail
  · rw [pop_of_ne hut]
    exact h.sorted u

end Update

/-! ## Scanning the pool -/

/-- `for (i = lo; i < lo + n; i++) if (i belongs to next) next = i`. -/
def scan (owner : Nat → Option Nat) (lo n next : Nat) : Nat :=
  forRange (fun next i => if owner i = some next then i else next) lo n next

/-- When nothing belongs to a slot of the pool, the scan stops at the first match. -/
theorem scan_cases (owner : Nat → Option Nat) (lo n next : Nat)
    (howner : ∀ i r, lo ≤ i → i < lo + n → owner i = some r → r < lo) :
    scan owner lo n next = next ∧ (∀ i, lo ≤ i → i < lo + n → owner i ≠ some next) ∨
      lo ≤ scan owner lo n next ∧ scan owner lo n next < lo + n ∧
        owner (scan owner lo n next) = some next ∧
        ∀ i, lo ≤ i → i < scan owner lo n next → owner i ≠ some next := by
  refine forRange_invariant (P := fun n r => r = next ∧
    (∀ i, lo ≤ i → i < lo + n → owner i ≠ some next) ∨ lo ≤ r ∧ r < lo + n ∧
      owner r = some next ∧ ∀ i, lo ≤ i → i < r → owner i ≠ some next) ?_ ?_
  · refine .inl ⟨rfl, fun i hlo hhi => ?_⟩
    omega
  · rintro i r hin (⟨rfl, hnone⟩ | ⟨hlo, hhi, hmatch, hfirst⟩)
    · by_cases hi : owner (lo + i) = some r
      · rw [if_pos hi]
        exact .inr ⟨by omega, by omega, hi, hnone⟩
      · rw [if_neg hi]
        refine .inl ⟨rfl, fun j hjlo hjhi => ?_⟩
        by_cases hj : j = lo + i
        · exact hj ▸ hi
        · exact hnone j hjlo (by omega)
    · have hi : owner (lo + i) ≠ some r := by
        intro heq
        have hlt := howner _ _ (by omega) (by omega) heq
        omega
      rw [if_neg hi]
      exact .inr ⟨hlo, by omega, hmatch, hfirst⟩

/-- The scan finds the top of a session. -/
theorem Ordered.scan_eq_top {owner : Nat → Option Nat} {lo n : Nat} (h : s.Ordered)
    (howner : ∀ i r, lo ≤ i → i < lo + n → owner i = some r → r < lo)
    (hmem : ∀ i, lo ≤ i → i < lo + n → (owner i = some (root t) ↔ i ∈ s t))
    (hrange : ∀ i ∈ s t, lo ≤ i ∧ i < lo + n) : scan owner lo n (root t) = s.top root t := by
  have hsorted := h.sorted t
  cases ht : s t with
  | nil =>
      rw [top, ht, List.headD_nil]
      obtain ⟨hstay, -⟩ | ⟨hlo, hhi, hmatch, -⟩ := scan_cases owner lo n (root t) howner
      · exact hstay
      · have hin := (hmem _ hlo hhi).1 hmatch
        rw [ht] at hin
        exact absurd hin List.not_mem_nil
  | cons m rest =>
      have hm : m ∈ s t := by
        rw [ht]
        exact List.mem_cons_self ..
      obtain ⟨hmlo, hmhi⟩ := hrange m hm
      rw [top, ht, List.headD_cons]
      obtain ⟨-, hnone⟩ | ⟨hlo, hhi, hmatch, hfirst⟩ := scan_cases owner lo n (root t) howner
      · exact absurd ((hmem m hmlo hmhi).2 hm) (hnone m hmlo hmhi)
      -- The scan returns the least member, and the top is the least of the stack.
      · have hin := (hmem _ hlo hhi).1 hmatch
        have hle : ¬ m < scan owner lo n (root t) := fun hlt =>
          hfirst m hmlo hlt ((hmem m hmlo hmhi).2 hm)
        rw [ht, List.mem_cons] at hin
        rw [ht, List.pairwise_cons] at hsorted
        obtain heq | hrest := hin
        · exact heq
        · exact absurd (hsorted.1 _ hrest) hle

end Stacks

end Ece391Kernel.Transition
