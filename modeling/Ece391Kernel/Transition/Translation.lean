import Ece391Kernel.Transition.Run

/-!
# One page table entry and its cached translation

A page table entry and the CPU's cached copy of it. Rewriting the entry leaves the copy as it is; a
use of the page fills an empty copy and otherwise goes through it; reloading the page directory
empties it. A use is coherent when it reaches the page that the entry names. `meets_under` says when
all the uses of a stretch without reloads are, for uses that all find the entry naming one page.
-/

namespace Ece391Kernel.Transition

/-- An access to the entry or through it. -/
inductive Access (π : Type) where
  | map (page : π)
  | use
  | reload
deriving DecidableEq

/-- The page that the entry names, and the one that the cached copy names. -/
structure Translation (π : Type) where
  named : π
  cached : Option π

namespace Translation

variable {π : Type} {s : Translation π} {page : π} {as bs : List (Access π)}

/-- One access. -/
def next (s : Translation π) : Access π → Translation π
  | .map page => { s with named := page }
  | .use => { s with cached := some (s.cached.getD s.named) }
  | .reload => { s with cached := none }

/-- A use reaches the page that the entry names. -/
def Coherent (s : Translation π) : Access π → Prop
  | .use => s.cached.getD s.named = s.named
  | _ => True

instance [DecidableEq π] (s : Translation π) (a : Access π) : Decidable (s.Coherent a) :=
  match a with
  | .map _ => inferInstanceAs (Decidable True)
  | .use => inferInstanceAs (Decidable (s.cached.getD s.named = s.named))
  | .reload => inferInstanceAs (Decidable True)

/-- There is no reload, and every use finds the entry naming the page. -/
def Under (page : π) : π → List (Access π) → Prop
  | _, [] => True
  | _, .map named :: as => Under page named as
  | named, .use :: as => named = page ∧ Under page named as
  | _, .reload :: _ => False

/-- What the entry names at the end. -/
def finalName : π → List (Access π) → π
  | named, [] => named
  | _, .map named :: as => finalName named as
  | named, _ :: as => finalName named as

theorem under_append {named : π} :
    Under page named (as ++ bs) ↔ Under page named as ∧ Under page (finalName named as) bs := by
  induction as generalizing named with
  | nil => exact ⟨fun h => ⟨trivial, h⟩, fun h => h.2⟩
  | cons a as ih =>
      cases a with
      | map name => exact ih
      | use => simp only [List.cons_append, Under, finalName, ih, and_assoc]
      | reload => exact ⟨fun h => h.elim, fun h => h.1.elim⟩

/-- The copy fits the page: it is empty or names it. -/
def Fits (page : π) (cached : Option π) : Prop := ∀ p ∈ cached, p = page

instance [DecidableEq π] (page : π) (cached : Option π) : Decidable (Fits page cached) :=
  inferInstanceAs (Decidable (∀ p ∈ cached, p = page))

/-- A stretch whose uses are all meant for one page: they are coherent exactly when there are none
or the copy fits the page. -/
theorem meets_under (h : Under page s.named as) :
    Meets next Coherent s as ↔ (.use ∈ as → Fits page s.cached) := by
  induction as generalizing s with
  | nil => exact ⟨fun _ huse => absurd huse List.not_mem_nil, fun _ => trivial⟩
  | cons a as ih =>
      cases a with
      | map name =>
          simp only [Meets, Coherent, true_and, List.mem_cons, reduceCtorEq, false_or]
          exact ih h
      | use =>
          obtain ⟨hnamed, hrest⟩ := h
          have hnext := ih (s := s.next .use) hrest
          simp only [Meets, hnext, List.mem_cons_self, forall_const]
          cases hcached : s.cached with
          | none => simp [Coherent, next, Fits, hcached, hnamed]
          | some p =>
              simp only [Coherent, next, Fits, hcached, Option.getD_some, Option.mem_some_iff,
                forall_eq', hnamed]
              exact ⟨fun hp => hp.1, fun hp => ⟨hp, fun _ => hp⟩⟩
      | reload => exact h.elim

theorem not_mem_reload {named : π} (h : Under page named as) : Access.reload ∉ as := by
  induction as generalizing named with
  | nil => exact List.not_mem_nil
  | cons a as ih =>
      cases a with
      | map name => simpa using ih h
      | use => simpa using ih h.2
      | reload => exact h.elim

variable [DecidableEq π]

/-- The copy after a stretch whose uses are all meant for one page. -/
def cachedAfter (page : π) (cached : Option π) (as : List (Access π)) : Option π :=
  if .use ∈ as then some (cached.getD page) else cached

/-- The state after such a stretch. -/
theorem foldl_under (h : Under page s.named as) :
    as.foldl next s = ⟨finalName s.named as, cachedAfter page s.cached as⟩ := by
  induction as generalizing s with
  | nil => rfl
  | cons a as ih =>
      cases a with
      | map name =>
          rw [List.foldl_cons, ih h]
          simp [cachedAfter, next, finalName]
      | use =>
          obtain ⟨hnamed, hrest⟩ := h
          rw [List.foldl_cons, ih (s := s.next .use) hrest]
          simp only [cachedAfter, next, finalName, List.mem_cons_self, if_true, Option.getD_some,
            ite_self, hnamed]
      | reload => exact h.elim

/-! ## Events whose uses are meant for one page each -/

section Events

variable {σ ε : Type} {step : σ → ε → σ} {accesses : σ → ε → List (Access π)} {name : σ → π}
  {target : σ → ε → π}

/-- A state with the cached copy, after an event. -/
def track (step : σ → ε → σ) (accesses : σ → ε → List (Access π)) (target : σ → ε → π)
    (s : σ × Option π) (e : ε) : σ × Option π :=
  (step s.1 e,
    if .reload ∈ accesses s.1 e then none else cachedAfter (target s.1 e) s.2 (accesses s.1 e))

/-- The event does not use the page, or the copy fits the page that it is meant for. -/
def SamePage (accesses : σ → ε → List (Access π)) (target : σ → ε → π) (s : σ × Option π)
    (e : ε) : Prop :=
  .use ∈ accesses s.1 e → Fits (target s.1 e) s.2

instance (s : σ × Option π) (e : ε) : Decidable (SamePage accesses target s e) :=
  inferInstanceAs (Decidable (_ → _))

/-- Each event is a rewrite of the entry with a reload behind it, or a stretch whose uses are meant
for one page. Then all uses of a sequence are coherent exactly when every event meets
`SamePage`. -/
theorem meets_emitted (hname : ∀ s e, finalName (name s) (accesses s e) = name (step s e))
    (haccess : ∀ s e, Under (target s e) (name s) (accesses s e) ∨
      ∃ p, accesses s e = [.map p, .reload])
    {s : σ} {cached : Option π} (es : List ε) :
    Meets next Coherent ⟨name s, cached⟩ (emitted step accesses s es) ↔
      Meets (track step accesses target) (SamePage accesses target) (s, cached) es := by
  induction es generalizing s cached with
  | nil => exact Iff.rfl
  | cons e es ih =>
      rw [emitted, meets_append]
      refine and_congr ?_ ?_
      · obtain hunder | ⟨p, hreload⟩ := haccess s e
        · exact meets_under (s := ⟨name s, cached⟩) hunder
        · rw [SamePage, hreload]
          simp [Meets, Coherent]
      · obtain hunder | ⟨p, hreload⟩ := haccess s e
        · rw [foldl_under (s := ⟨name s, cached⟩) hunder, track, if_neg (not_mem_reload hunder),
            ← ih, hname]
        · have hp := hname s e
          rw [hreload] at hp ⊢
          rw [track, hreload, if_pos (by simp), ← ih, ← hp]
          rfl

end Events

end Translation

end Ece391Kernel.Transition
