import Mathlib.Tactic.Common

/-!
# Computations with fuel

A function of the fuel settles on a value when it returns that value from some amount of fuel on.
The rules follow the ways in which such functions are put together.
-/

namespace Ece391Kernel.Transition

variable {α β : Type}

/-- With enough fuel the computation returns the value. -/
def Settles (f : Nat → Option α) (a : α) : Prop := ∃ least, ∀ fuel, least ≤ fuel → f fuel = some a

variable {f g : Nat → Option α} {a : α}

/-- From this amount on. -/
theorem Settles.of_le (least : Nat) (h : ∀ fuel, least ≤ fuel → f fuel = some a) : Settles f a :=
  ⟨least, h⟩

theorem Settles.pure (a : α) : Settles (fun _ => some a) a :=
  ⟨0, fun _ _ => rfl⟩

/-- One computation after the other, on the same fuel. -/
theorem Settles.bind {k : α → Nat → Option β} {b : β} (h : Settles f a) (h' : Settles (k a) b) :
    Settles (fun fuel => (f fuel).bind fun x => k x fuel) b := by
  obtain ⟨least, hf⟩ := h
  obtain ⟨least', hk⟩ := h'
  refine ⟨max least least', ?_⟩
  intro fuel hfuel
  show ((f fuel).bind fun x => k x fuel) = some b
  rw [hf fuel (by omega), Option.bind_some, hk fuel (by omega)]

/-- A function that spends one unit. -/
theorem Settles.succ (hstep : ∀ fuel, f (fuel + 1) = g fuel) (h : Settles g a) : Settles f a := by
  obtain ⟨least, hg⟩ := h
  refine ⟨least + 1, ?_⟩
  intro fuel hfuel
  obtain ⟨n, rfl⟩ : ∃ n, fuel = n + 1 := ⟨fuel - 1, by omega⟩
  rw [hstep, hg n (by omega)]

theorem Settles.congr (heq : ∀ fuel, f fuel = g fuel) (h : Settles g a) : Settles f a := by
  obtain ⟨least, hg⟩ := h
  exact ⟨least, fun fuel hfuel => (heq fuel).trans (hg fuel hfuel)⟩

end Ece391Kernel.Transition
