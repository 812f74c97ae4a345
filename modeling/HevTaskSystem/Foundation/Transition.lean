import Mathlib.Tactic.Common

/-! Labelled transition systems, their finite runs and the invariant rule.

A run keeps the labels of its steps, so a condition on what happened can be
stated next to a condition on the state reached. A restricted system allows only
some labels in some states; its runs are runs of the whole system. Where steps are
computed, a run is found by computing it.
-/

set_option autoImplicit false

namespace HevTaskSystem.Foundation

structure System (σ ℓ : Type) where
  init : σ → Prop
  step : σ → ℓ → σ → Prop

variable {σ ℓ : Type}

namespace System

/-- The labels of the steps, first to last, and the state reached. -/
inductive Run (system : System σ ℓ) : List ℓ → σ → Prop where
  | init {state : σ} : system.init state → system.Run [] state
  | step {labels : List ℓ} {state next : σ} {label : ℓ} :
      system.Run labels state → system.step state label next → system.Run (labels ++ [label]) next

def restrict (system : System σ ℓ) (allowed : σ → ℓ → Prop) : System σ ℓ where
  init := system.init
  step state label next := allowed state label ∧ system.step state label next

def startAt (system : System σ ℓ) (start : σ) : System σ ℓ where
  init state := state = start
  step := system.step

variable {system : System σ ℓ} {labels : List ℓ} {state : σ}

theorem Run.invariant (inv : σ → Prop) (start : ∀ state, system.init state → inv state)
    (keep : ∀ state label next, inv state → system.step state label next → inv next)
    (run : system.Run labels state) : inv state := by
  induction run with
  | init initial => exact start _ initial
  | step _ step ih => exact keep _ _ _ ih step

theorem Run.mono {other : System σ ℓ} (start : ∀ state, system.init state → other.init state)
    (keep : ∀ state label next, system.step state label next → other.step state label next)
    (run : system.Run labels state) : other.Run labels state := by
  induction run with
  | init initial => exact .init (start _ initial)
  | step _ step ih => exact .step ih (keep _ _ _ step)

theorem Run.followed {τ : Type} {follower : System τ ℓ} (related : σ → τ → Prop)
    (start : ∀ state, system.init state → ∃ other, follower.init other ∧ related state other)
    (keep : ∀ state label next other, related state other → system.step state label next →
      ∃ reached, follower.step other label reached ∧ related next reached)
    (run : system.Run labels state) : ∃ other, follower.Run labels other ∧ related state other := by
  induction run with
  | init initial =>
    obtain ⟨other, begins, relates⟩ := start _ initial
    exact ⟨other, .init begins, relates⟩
  | step _ step ih =>
    obtain ⟨other, followed, relates⟩ := ih
    obtain ⟨reached, follows, relates⟩ := keep _ _ _ _ relates step
    exact ⟨reached, .step followed follows, relates⟩

theorem Run.append {more : List ℓ} {reached : σ} (run : system.Run labels state)
    (rest : (system.startAt state).Run more reached) : system.Run (labels ++ more) reached := by
  induction rest with
  | init here =>
    cases here
    simpa using run
  | step _ step ih =>
    rw [← List.append_assoc]
    exact .step ih step

theorem Run.of_restrict {allowed : σ → ℓ → Prop} (run : (system.restrict allowed).Run labels state) :
    system.Run labels state := by
  refine run.mono ?_ ?_
  · exact fun _ initial => initial
  · exact fun _ _ _ step => step.2

theorem Run.restrict_true (run : system.Run labels state) : (system.restrict fun _ _ => True).Run labels state := by
  refine run.mono ?_ ?_
  · exact fun _ initial => initial
  · exact fun _ _ _ step => ⟨trivial, step⟩

inductive Counts (system : System σ ℓ) (event : σ → ℓ → σ → Prop) : List ℓ → σ → Nat → Prop where
  | init {state : σ} : system.init state → system.Counts event [] state 0
  | event {labels : List ℓ} {state next : σ} {label : ℓ} {count : Nat} :
      system.Counts event labels state count → system.step state label next → event state label next →
      system.Counts event (labels ++ [label]) next (count + 1)
  | other {labels : List ℓ} {state next : σ} {label : ℓ} {count : Nat} :
      system.Counts event labels state count → system.step state label next → ¬ event state label next →
      system.Counts event (labels ++ [label]) next count

theorem Counts.run {event : σ → ℓ → σ → Prop} {count : Nat} (counts : system.Counts event labels state count) :
    system.Run labels state := by
  induction counts with
  | init initial => exact .init initial
  | event _ step _ ih | other _ step _ ih => exact .step ih step

theorem Run.exists_counts (event : σ → ℓ → σ → Prop) (run : system.Run labels state) :
    ∃ count, system.Counts event labels state count := by
  induction run with
  | init initial => exact ⟨0, .init initial⟩
  | @step _ state next label _ step ih =>
    obtain ⟨count, counts⟩ := ih
    by_cases happens : event state label next
    · exact ⟨count + 1, .event counts step happens⟩
    · exact ⟨count, .other counts step happens⟩

theorem Run.exists_exec (exec : σ → ℓ → Option σ) (final : σ → Bool)
    (sound : ∀ state label next, exec state label = some next → system.step state label next)
    (run : system.Run labels state) (more : List ℓ)
    (result : (more.foldlM exec state).any final = true) :
    ∃ reached, system.Run (labels ++ more) reached ∧ final reached = true := by
  induction more generalizing labels state with
  | nil => exact ⟨state, by simpa using run, by simpa using result⟩
  | cons label more ih =>
    cases taken : exec state label with
    | none => simp [List.foldlM_cons, taken] at result
    | some next =>
      have rest : (more.foldlM exec next).any final = true := by
        simpa [List.foldlM_cons, taken] using result
      obtain ⟨reached, longer, holds⟩ := ih (run.step (sound state label next taken)) rest
      exact ⟨reached, by simpa using longer, holds⟩

theorem Run.exists_reached {good : σ → Prop} (start : system.Run [] state) (exec : σ → ℓ → Option σ) (final : σ → Bool)
    (sound : ∀ state label next, exec state label = some next → system.step state label next)
    (result : (labels.foldlM exec state).any final = true)
    (holds : ∀ reached, system.Run labels reached → final reached = true → good reached) :
    ∃ reached, system.Run labels reached ∧ good reached := by
  obtain ⟨reached, run, last⟩ := start.exists_exec exec final sound labels result
  exact ⟨reached, run, holds reached run last⟩

end System

end HevTaskSystem.Foundation
