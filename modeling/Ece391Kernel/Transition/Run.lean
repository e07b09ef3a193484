import Mathlib.Tactic.Common

/-!
# Labelled runs, nested calls, and counted loops

A transition system is a relation `step s e t`: in state `s` the event `e` may lead to `t`.
`Run` is its finite executions, `Guarded` restricts every step to a condition on the state before it
and `Within` to a property of the state after it (`run_within_iff` connects the two).
`Run.invariant` is the induction every safety result uses. `Nested` is what one activation does in a
system of nested calls, and `Nested.rule` is the induction over its tree of calls.

For deterministic systems, `Always` and `Meets` speak of all the states and all the steps of
one event sequence; `always_iff_meets` says that a property holds throughout exactly when every
step meets the condition that preserves it.
-/

namespace Ece391Kernel.Transition

variable {σ τ ε κ : Type}

/-! ## Runs -/

/-- `Run step s es t`: the events `es`, in this order, lead from `s` to `t`. -/
inductive Run (step : σ → ε → σ → Prop) : σ → List ε → σ → Prop where
  | nil (s) : Run step s [] s
  | cons {s m t : σ} {e : ε} {es : List ε} :
      step s e m → Run step m es t → Run step s (e :: es) t

/-- The steps of a system that meet a condition on the state before and the event. -/
def Guarded (guard : σ → ε → Prop) (step : σ → ε → σ → Prop) (s : σ) (e : ε) (t : σ) : Prop :=
  guard s e ∧ step s e t

variable {step : σ → ε → σ → Prop} {guard : σ → ε → Prop}

/-- One step is a run. -/
theorem Run.single {s t : σ} {e : ε} (h : step s e t) : Run step s [e] t :=
  .cons h (.nil t)

/-- Two runs compose. -/
theorem Run.append {s m t : σ} {es fs : List ε} (h : Run step s es m) (h' : Run step m fs t) :
    Run step s (es ++ fs) t := by
  induction h with
  | nil => exact h'
  | cons hstep _ ih => exact .cons hstep (ih h')

/-- A property that every step preserves holds at the end of a run that starts in it. -/
theorem Run.invariant {I : σ → Prop} (hstep : ∀ s e t, I s → step s e t → I t)
    {s t : σ} {es : List ε} (h : Run step s es t) (hs : I s) : I t := by
  induction h with
  | nil => exact hs
  | cons h _ ih => exact ih (hstep _ _ _ hs h)

/-- The state to which a list of events leads in a system whose steps are a partial function. -/
def replay (next : σ → ε → Option σ) : σ → List ε → Option σ
  | s, [] => some s
  | s, e :: es => (next s e).bind fun m => replay next m es

/-- What can be replayed is a run. -/
theorem replay_run {next : σ → ε → Option σ} {s t : σ} {es : List ε}
    (h : replay next s es = some t) : Run (fun s e t => next s e = some t) s es t := by
  induction es generalizing s with
  | nil =>
      cases h
      exact .nil _
  | cons e es ih =>
      obtain ⟨m, hstep, hrest⟩ := Option.bind_eq_some_iff.1 h
      exact .cons hstep (ih hrest)

/-- A run each of whose steps is a step of another system. -/
theorem Run.mono {step' : σ → ε → σ → Prop} (hstep : ∀ s e t, step s e t → step' s e t) {s t : σ}
    {es : List ε} (h : Run step s es t) : Run step' s es t := by
  induction h with
  | nil => exact .nil _
  | cons h _ ih => exact .cons (hstep _ _ _ h) ih

/-- What can be replayed with a check before each step is a run whose steps all meet the
condition. -/
theorem replay_guarded {next : σ → ε → Option σ} [∀ s e, Decidable (guard s e)] {s t : σ}
    {es : List ε} (h : replay (fun s e => if guard s e then next s e else none) s es = some t) :
    Run (Guarded guard fun s e t => next s e = some t) s es t := by
  refine (replay_run h).mono fun s e m hstep => ?_
  rw [Option.ite_none_right_eq_some] at hstep
  exact hstep

/-- The steps of a system that end in a state with a property. -/
def Within (P : σ → Prop) (step : σ → ε → σ → Prop) (s : σ) (e : ε) (t : σ) : Prop :=
  step s e t ∧ P t

/-- A run stays in a property exactly when each of its steps meets a condition, if a step that
starts in the property ends in it exactly when it meets the condition. `I` is what holds besides. -/
theorem run_within_iff {I P : σ → Prop}
    (hstep : ∀ s e t, I s → P s → step s e t → I t ∧ (P t ↔ guard s e)) {s t : σ} {es : List ε}
    (hi : I s) (hs : P s) : Run (Within P step) s es t ↔ Run (Guarded guard step) s es t := by
  constructor
  · intro h
    induction h with
    | nil s => exact .nil s
    | cons hwithin _ ih =>
        obtain ⟨hm, hp⟩ := hwithin
        obtain ⟨hi', hiff⟩ := hstep _ _ _ hi hs hm
        exact .cons ⟨hiff.1 hp, hm⟩ (ih hi' hp)
  · intro h
    induction h with
    | nil s => exact .nil s
    | cons hguarded _ ih =>
        obtain ⟨hguard, hm⟩ := hguarded
        obtain ⟨hi', hiff⟩ := hstep _ _ _ hi hs hm
        exact .cons ⟨hm, hiff.2 hguard⟩ (ih hi' (hiff.2 hguard))

/-- Every step of a run obeys a law exactly when every step meets a condition, if in the states
that the law keeps to a step obeys it exactly when it meets the condition. -/
theorem run_law_iff {I : σ → Prop} {law : σ → ε → σ → Prop}
    (hlaw : ∀ s e t, I s → step s e t → (law s e t ↔ guard s e))
    (hkeep : ∀ s e t, law s e t → I t) {s t : σ} {es : List ε} (hs : I s) :
    Run (fun s e t => step s e t ∧ law s e t) s es t ↔ Run (Guarded guard step) s es t := by
  constructor
  · intro h
    induction h with
    | nil s => exact .nil s
    | cons hlawful _ ih =>
        obtain ⟨hm, hobeys⟩ := hlawful
        exact .cons ⟨(hlaw _ _ _ hs hm).1 hobeys, hm⟩ (ih (hkeep _ _ _ hobeys))
  · intro h
    induction h with
    | nil s => exact .nil s
    | cons hguarded _ ih =>
        obtain ⟨hguard, hm⟩ := hguarded
        have hobeys := (hlaw _ _ _ hs hm).2 hguard
        exact .cons ⟨hm, hobeys⟩ (ih (hkeep _ _ _ hobeys))

/-! ## Nested calls -/

/-- What one activation does between its start and its end: steps of its own, and calls, each of
which enters another activation and leaves it again before the caller goes on. -/
inductive Nested (own enter leave : σ → σ → Prop) : σ → σ → Prop where
  | nil (s) : Nested own enter leave s s
  | own {s t u : σ} : own s t → Nested own enter leave t u → Nested own enter leave s u
  | call {s t u v w : σ} : enter s t → Nested own enter leave t u → leave u v →
      Nested own enter leave v w → Nested own enter leave s w

/-- A relation holds between the start and the end of every activation when it is reflexive and
transitive, holds for the activation's own steps, and holds across a call whose callee it holds
for. -/
theorem Nested.rule {own enter leave R : σ → σ → Prop} (hrefl : ∀ s, R s s)
    (htrans : ∀ s t u, R s t → R t u → R s u) (hown : ∀ s t, own s t → R s t)
    (hcall : ∀ s t u v, enter s t → R t u → leave u v → R s v) {s t : σ}
    (h : Nested own enter leave s t) : R s t := by
  induction h with
  | nil s => exact hrefl s
  | own hstep _ ih => exact htrans _ _ _ (hown _ _ hstep) ih
  | call henter _ hleave _ ihbody ihrest =>
      exact htrans _ _ _ (hcall _ _ _ _ henter ihbody hleave) ihrest

/-! ## Deterministic systems -/

section Deterministic

variable {next : σ → ε → σ}

/-- The property holds in the start state and after every event of the sequence. -/
def Always (next : σ → ε → σ) (P : σ → Prop) : σ → List ε → Prop
  | s, [] => P s
  | s, e :: es => P s ∧ Always next P (next s e) es

/-- A decidable property can be checked throughout. -/
instance decidableAlways (next : σ → ε → σ) (P : σ → Prop) [DecidablePred P] :
    ∀ s es, Decidable (Always next P s es)
  | s, [] => inferInstanceAs (Decidable (P s))
  | s, e :: es =>
      have := decidableAlways next P (next s e) es
      inferInstanceAs (Decidable (P s ∧ Always next P (next s e) es))

/-- Every event of the sequence meets the condition in the state it finds. -/
def Meets (next : σ → ε → σ) (guard : σ → ε → Prop) : σ → List ε → Prop
  | _, [] => True
  | s, e :: es => guard s e ∧ Meets next guard (next s e) es

/-- What always holds holds at the end. -/
theorem Always.last {P : σ → Prop} {s : σ} {es : List ε} (h : Always next P s es) :
    P (es.foldl next s) := by
  induction es generalizing s with
  | nil => exact h
  | cons e es ih => exact ih h.2

/-- A property kept by exactly the steps that meet a condition holds throughout a sequence of
events exactly when all its steps meet the condition. `I` is what holds unconditionally. -/
theorem always_iff_meets {I P : σ → Prop} (hI : ∀ s e, I s → I (next s e))
    (hP : ∀ s e, I s → P s → (P (next s e) ↔ guard s e)) {s : σ} (es : List ε)
    (hi : I s) (hs : P s) : Always next P s es ↔ Meets next guard s es := by
  induction es generalizing s with
  | nil => exact ⟨fun _ => trivial, fun _ => hs⟩
  | cons e es ih =>
      have hstep := hP s e hi hs
      constructor
      · rintro ⟨-, hrest⟩
        have hnext : P (next s e) := by
          cases es with
          | nil => exact hrest
          | cons => exact hrest.1
        exact ⟨hstep.1 hnext, (ih (hI s e hi) hnext).1 hrest⟩
      · rintro ⟨hg, hrest⟩
        exact ⟨hs, (ih (hI s e hi) (hstep.2 hg)).2 hrest⟩

/-- Every event obeys a law exactly when every event meets a condition, if in the states that the
law keeps to an event obeys it exactly when it meets the condition. -/
theorem meets_law_iff {I : σ → Prop} {law : σ → ε → Prop}
    (hlaw : ∀ s e, I s → (law s e ↔ guard s e)) (hkeep : ∀ s e, law s e → I (next s e)) {s : σ}
    (es : List ε) (hs : I s) : Meets next law s es ↔ Meets next guard s es := by
  induction es generalizing s with
  | nil => exact Iff.rfl
  | cons e es ih =>
      constructor
      · intro h
        exact ⟨(hlaw s e hs).1 h.1, (ih (hkeep s e h.1)).1 h.2⟩
      · intro h
        have hobeys := (hlaw s e hs).2 h.1
        exact ⟨hobeys, (ih (hkeep s e hobeys)).2 h.2⟩

/-- A decidable condition can be checked of every event. -/
instance decidableMeets (next : σ → ε → σ) (guard : σ → ε → Prop)
    [∀ s e, Decidable (guard s e)] : ∀ s es, Decidable (Meets next guard s es)
  | _, [] => inferInstanceAs (Decidable True)
  | s, e :: es =>
      have := decidableMeets next guard (next s e) es
      inferInstanceAs (Decidable (guard s e ∧ Meets next guard (next s e) es))

/-- A property that every step meeting the condition preserves holds after a sequence of them. -/
theorem Meets.invariant {I : σ → Prop} (hstep : ∀ s e, I s → guard s e → I (next s e)) {s : σ}
    {es : List ε} (h : Meets next guard s es) (hs : I s) : I (es.foldl next s) := by
  induction es generalizing s with
  | nil => exact hs
  | cons e es ih => exact ih h.2 (hstep s e hs h.1)

/-- Two conditions that agree wherever the invariant holds are met by the same sequences. -/
theorem meets_congr {I : σ → Prop} {allowed : ε → Prop} {guard' : σ → ε → Prop}
    (hI : ∀ s e, I s → allowed e → I (next s e))
    (hguard : ∀ s e, I s → allowed e → (guard s e ↔ guard' s e)) {s : σ} (es : List ε)
    (hes : ∀ e ∈ es, allowed e) (hs : I s) : Meets next guard s es ↔ Meets next guard' s es := by
  induction es generalizing s with
  | nil => exact Iff.rfl
  | cons e es ih =>
      have he := hes e List.mem_cons_self
      exact and_congr (hguard s e hs he)
        (ih (fun e' he' => hes e' (List.mem_cons_of_mem e he')) (hI s e hs he))

/-- Where the invariant holds, one condition implies another, so the other is met as well. -/
theorem Meets.imp {I : σ → Prop} {allowed : ε → Prop} {guard' : σ → ε → Prop}
    (hI : ∀ s e, I s → allowed e → guard s e → I (next s e))
    (hguard : ∀ s e, I s → allowed e → guard s e → guard' s e) {s : σ} {es : List ε}
    (h : Meets next guard s es) (hes : ∀ e ∈ es, allowed e) (hs : I s) :
    Meets next guard' s es := by
  induction es generalizing s with
  | nil => trivial
  | cons e es ih =>
      have he := hes e List.mem_cons_self
      exact ⟨hguard s e hs he h.1,
        ih h.2 (fun e' he' => hes e' (List.mem_cons_of_mem e he')) (hI s e hs he h.1)⟩

theorem meets_append {s : σ} (es fs : List ε) :
    Meets next guard s (es ++ fs) ↔
      Meets next guard s es ∧ Meets next guard (es.foldl next s) fs := by
  induction es generalizing s with
  | nil => exact ⟨fun h => ⟨trivial, h⟩, fun h => h.2⟩
  | cons e es ih => simp only [List.cons_append, Meets, List.foldl_cons, ih, and_assoc]

/-- What the events of a sequence emit, each in the state it finds. -/
def emitted (next : σ → ε → σ) (out : σ → ε → List κ) : σ → List ε → List κ
  | _, [] => []
  | s, e :: es => out s e ++ emitted next out (next s e) es

theorem emitted_append {out : σ → ε → List κ} {s : σ} (es fs : List ε) :
    emitted next out s (es ++ fs) =
      emitted next out s es ++ emitted next out (es.foldl next s) fs := by
  induction es generalizing s with
  | nil => rfl
  | cons e es ih => rw [List.cons_append, emitted, ih, emitted, List.append_assoc, List.foldl_cons]

/-- A view of the state that every event changes only by what it emits is, after the whole
sequence, the initial view with everything emitted applied to it. -/
theorem foldl_view {I : σ → Prop} (view : σ → τ) {apply : τ → κ → τ} {out : σ → ε → List κ}
    (hI : ∀ s e, I s → I (next s e))
    (hview : ∀ s e, I s → view (next s e) = (out s e).foldl apply (view s))
    {s : σ} (es : List ε) (hs : I s) :
    view (es.foldl next s) = (emitted next out s es).foldl apply (view s) := by
  induction es generalizing s with
  | nil => rfl
  | cons e es ih =>
      rw [List.foldl_cons, ih (hI s e hs), hview s e hs, emitted, List.foldl_append]

end Deterministic

/-! ## Counted loops -/

/-- `for (i = lo; i < lo + n; i++) s = body(s, i)`. -/
def forRange (body : σ → Nat → σ) (lo : Nat) : Nat → σ → σ
  | 0, s => s
  | n + 1, s => body (forRange body lo n s) (lo + n)

/-- A counted loop keeps an indexed invariant. -/
theorem forRange_invariant {body : σ → Nat → σ} {lo n : Nat} {P : Nat → σ → Prop} {s : σ}
    (hinit : P 0 s) (hbody : ∀ i t, i < n → P i t → P (i + 1) (body t (lo + i))) :
    P n (forRange body lo n s) := by
  induction n with
  | zero => exact hinit
  | succ n ih =>
      exact hbody n _ (Nat.lt_succ_self n) (ih fun i t hi => hbody i t (Nat.lt_succ_of_lt hi))

end Ece391Kernel.Transition
