import Mathlib.Logic.Function.Basic
import Ece391Kernel.Transition.Run

/-!
# Readers that share one cursor

A sequence of `n` items is read by any number of readers, each from the first item on, but there is
only one cursor. A reader that takes the item at the cursor moves it on; the one that finds the
cursor at the end moves it back. A reader may start again, which does not move the cursor.

`Rounds` is the cursor with what each reader has taken. A reader is in turn when no other reader is
in the middle of the sequence and none has left it there. A take in turn is at the reader's own
place, and a take out of turn is not (`Good.cursor_eq_iff`).
-/

namespace Ece391Kernel.Transition

variable {δ : Type}

/-- Whether a reader is in the middle of the sequence, or has left it there. -/
inductive Progress (δ : Type) where
  | idle
  | reading (reader : δ)
  | abandoned
deriving DecidableEq

/-- The shared cursor, what each reader has taken since it started, and the reader in progress. -/
structure Rounds (δ : Type) where
  cursor : Nat
  taken : δ → Nat
  progress : Progress δ

/-- A reader takes what is at the cursor, or starts again. -/
inductive RoundEvent (δ : Type) where
  | take (reader : δ)
  | restart (reader : δ)
deriving DecidableEq

namespace Rounds

variable {n : Nat} {r : Rounds δ} {d : δ}

/-- Nobody has read anything. -/
def start : Rounds δ := ⟨0, fun _ => 0, .idle⟩

/-- No other reader is in the middle of the sequence, and none has left it there. -/
def InTurn (r : Rounds δ) (d : δ) : Prop := r.progress = .idle ∨ r.progress = .reading d

/-- Takes are in turn. -/
def Guard (r : Rounds δ) : RoundEvent δ → Prop
  | .take d => r.InTurn d
  | .restart _ => True

/-- Only the reader in progress is in the middle of the sequence, and the cursor is where it is. -/
structure Good (n : Nat) (r : Rounds δ) : Prop where
  cursor_le : r.cursor ≤ n
  whole : ∀ d, r.progress ≠ .reading d → r.taken d % (n + 1) = 0
  reading : ∀ d, r.progress = .reading d → r.cursor = r.taken d % (n + 1)
  idle_iff : r.progress = .idle ↔ r.cursor = 0

theorem start_good : (start : Rounds δ).Good n :=
  ⟨Nat.zero_le n, fun _ _ => Nat.zero_mod _, nofun, ⟨fun _ => rfl, fun _ => rfl⟩⟩

/-- The cursor is at a reader's own place exactly when the reader is in turn. -/
theorem Good.cursor_eq_iff (h : r.Good n) : r.cursor = r.taken d % (n + 1) ↔ r.InTurn d := by
  constructor
  · intro hcursor
    by_cases hown : r.progress = .reading d
    · exact .inr hown
    · rw [h.whole d hown] at hcursor
      exact .inl (h.idle_iff.2 hcursor)
  · rintro (hidle | hown)
    · have hne : r.progress ≠ .reading d := by
        rw [hidle]
        nofun
      rw [h.idle_iff.1 hidle, h.whole d hne]
    · exact h.reading d hown

section Events

variable [DecidableEq δ]

/-- What an event does to the cursor and the readers. -/
def next (n : Nat) (r : Rounds δ) : RoundEvent δ → Rounds δ
  | .take d => {
      cursor := if r.cursor < n then r.cursor + 1 else 0
      taken := Function.update r.taken d (r.taken d + 1)
      progress := if (r.taken d + 1) % (n + 1) = 0 then .idle else .reading d }
  | .restart d => {
      cursor := r.cursor
      taken := Function.update r.taken d 0
      progress := if r.progress = .reading d then .abandoned else r.progress }

instance (r : Rounds δ) (d : δ) : Decidable (r.InTurn d) := inferInstanceAs (Decidable (_ ∨ _))

instance (r : Rounds δ) : ∀ e : RoundEvent δ, Decidable (r.Guard e)
  | .take d => inferInstanceAs (Decidable (r.InTurn d))
  | .restart _ => inferInstanceAs (Decidable True)

/-- A take in turn keeps the invariant. -/
theorem Good.take (h : r.Good n) (hturn : r.InTurn d) : (r.next n (.take d)).Good n := by
  have hcursor := h.cursor_eq_iff.2 hturn
  have hle := h.cursor_le
  -- the cursor after the take is the reader's new place
  have hnew : (r.next n (.take d)).cursor = (r.taken d + 1) % (n + 1) := by
    have hmod : (r.taken d + 1) % (n + 1) = (r.cursor + 1) % (n + 1) := by
      rw [hcursor, Nat.mod_add_mod]
    rw [hmod]
    show (if r.cursor < n then r.cursor + 1 else 0) = _
    split_ifs with hlt
    · exact (Nat.mod_eq_of_lt (by omega)).symm
    · have hend : r.cursor + 1 = n + 1 := by omega
      rw [hend, Nat.mod_self]
  have hprogress : (r.next n (.take d)).progress =
      if (r.taken d + 1) % (n + 1) = 0 then .idle else .reading d := rfl
  have htaken : (r.next n (.take d)).taken = Function.update r.taken d (r.taken d + 1) := rfl
  refine ⟨?_, fun d' hne => ?_, fun d' hreading => ?_, ?_⟩
  · rw [hnew]
    exact Nat.le_of_lt_succ (Nat.mod_lt _ (Nat.succ_pos n))
  · rw [htaken]
    by_cases hd : d' = d
    · subst hd
      rw [Function.update_self]
      by_contra hmid
      rw [hprogress, if_neg hmid] at hne
      exact hne rfl
    · rw [Function.update_of_ne hd]
      refine h.whole d' fun hother => ?_
      obtain hidle | hown := hturn
      · rw [hidle] at hother
        cases hother
      · rw [hown] at hother
        cases hother
        exact hd rfl
  · rw [hprogress] at hreading
    split_ifs at hreading with hmid
    cases hreading
    rw [hnew, htaken, Function.update_self]
  · rw [hprogress, hnew]
    split_ifs with hmid
    · exact ⟨fun _ => hmid, fun _ => rfl⟩
    · exact ⟨nofun, fun hzero => absurd hzero hmid⟩

/-- A reader that starts again keeps the invariant. -/
theorem Good.restart (h : r.Good n) : (r.next n (.restart d)).Good n := by
  have hcursor : (r.next n (.restart d)).cursor = r.cursor := rfl
  have htaken : (r.next n (.restart d)).taken = Function.update r.taken d 0 := rfl
  have hprogress : (r.next n (.restart d)).progress =
      if r.progress = .reading d then .abandoned else r.progress := rfl
  -- The cursor stays; if `d` was in the middle of a round, that round is abandoned.
  refine ⟨h.cursor_le, fun d' hne => ?_, fun d' hreading => ?_, ?_⟩
  · rw [htaken]
    by_cases hd : d' = d
    · subst hd
      rw [Function.update_self, Nat.zero_mod]
    · rw [Function.update_of_ne hd]
      refine h.whole d' fun hother => hne ?_
      rw [hprogress, if_neg, hother]
      rw [hother]
      rintro ⟨⟩
      exact hd rfl
  · rw [hprogress] at hreading
    split_ifs at hreading with hown
    have hd : d' ≠ d := by
      rintro rfl
      exact hown hreading
    rw [hcursor, htaken, Function.update_of_ne hd]
    exact h.reading d' hreading
  · rw [hprogress, hcursor, ← h.idle_iff]
    split_ifs with hown
    · rw [hown]
      exact ⟨nofun, nofun⟩
    · exact Iff.rfl

/-- Every event that is in turn keeps the invariant. -/
theorem Good.next (h : r.Good n) {e : RoundEvent δ} (hguard : r.Guard e) : (r.next n e).Good n := by
  cases e with
  | take d => exact h.take hguard
  | restart d => exact h.restart

end Events

end Rounds

end Ece391Kernel.Transition
