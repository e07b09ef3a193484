import Mathlib.Tactic.Common

/-!
# Reaching a state

For a machine whose step is a partial function, `Reach next Q s` says that the steps from `s` come
to a state with the property `Q`. The machine is deterministic, so this is what every execution
from `s` does (`Reach.at_rest`): it is total correctness. The rules are those of a sequence
(`Reach.trans`) and of a consequence (`Reach.mono`).
-/

namespace Ece391Kernel.Transition

variable {σ : Type}

/-- The steps from `s` come to a state with the property `Q`. -/
inductive Reach (next : σ → Option σ) (Q : σ → Prop) : σ → Prop where
  | here {s : σ} : Q s → Reach next Q s
  | step {s t : σ} : next s = some t → Reach next Q t → Reach next Q s

variable {next : σ → Option σ} {P Q : σ → Prop} {s : σ}

/-- What is reached first and what every such state goes on to reach. -/
theorem Reach.trans (h : Reach next P s) (hgo : ∀ t, P t → Reach next Q t) : Reach next Q s := by
  induction h with
  | here hp => exact hgo _ hp
  | step hnext _ ih => exact .step hnext ih

/-- A weaker property is reached too. -/
theorem Reach.mono (h : Reach next P s) (himp : ∀ t, P t → Q t) : Reach next Q s :=
  h.trans fun t hp => .here (himp t hp)

/-- A machine that comes to rest does so in one state only: what one run reaches at rest, every run
does. -/
theorem Reach.at_rest {t : σ} (h : Reach next P s) (hp : ∀ u, P u → next u = none)
    (h' : Reach next (fun u => u = t) s) (hrest : next t = none) : P t := by
  induction h with
  | here hs =>
      cases h' with
      | here hsame => exact hsame ▸ hs
      | step hnext _ => exact absurd hnext (by simp [hp _ hs])
  | step hnext hmore ih =>
      cases h' with
      | here hsame =>
          subst hsame
          exact absurd hnext (by simp [hrest])
      | step hnext' hmore' =>
          obtain rfl := Option.some.inj (hnext.symm.trans hnext')
          exact ih hmore'

end Ece391Kernel.Transition
