import Mathlib.Logic.Relation
import Mathlib.Tactic.Common

/-! Unbounded loops run with fuel, and the rule that shows they return.

A loop body either continues with a new loop state or leaves the loop with a
result; `none` is a fault of the body. Running out of fuel is also `none`, so a
result is a statement of termination without a fault. A result does not change
with more fuel, nor does that of a program built from such loops.
-/

set_option autoImplicit false

namespace HevTaskSystem.Foundation

inductive Flow (σ ρ : Type) where
  | next (state : σ)
  | done (result : ρ)
  deriving DecidableEq, Repr

variable {σ ρ : Type}

/-- At most `fuel` passes through the body. -/
def loop (body : σ → Option (Flow σ ρ)) : Nat → σ → Option ρ
  | 0, _ => none
  | fuel + 1, state =>
    match body state with
    | none => none
    | some (.done result) => some result
    | some (.next state) => loop body fuel state

theorem loop_succ_of_next {body : σ → Option (Flow σ ρ)} {fuel : Nat} {state next : σ}
    (step : body state = some (.next next)) :
    loop body (fuel + 1) state = loop body fuel next := by
  simp [loop, step]

theorem loop_succ_of_done {body : σ → Option (Flow σ ρ)} {fuel : Nat} {state : σ} {result : ρ}
    (step : body state = some (.done result)) :
    loop body (fuel + 1) state = some result := by
  simp [loop, step]

theorem loop_mono {body : σ → Option (Flow σ ρ)} {fuel more : Nat} {state : σ} {result : ρ}
    (bound : fuel ≤ more) (run : loop body fuel state = some result) :
    loop body more state = some result := by
  induction fuel generalizing more state with
  | zero => simp [loop] at run
  | succ fuel ih =>
    obtain ⟨more, rfl⟩ : ∃ k, more = k + 1 := ⟨more - 1, by omega⟩
    simp only [loop] at run ⊢
    split at run
    · cases run
    · exact run
    · exact ih (by omega) run

/-- What one pass must do: keep the invariant at a lower rank, or leave the loop
in a state that satisfies the postcondition. -/
def Pass (inv : Nat → σ → Prop) (post : ρ → Prop) (rank : Nat) : Flow σ ρ → Prop
  | .next state => ∃ lower, lower < rank ∧ inv lower state
  | .done result => post result

theorem loop_total {body : σ → Option (Flow σ ρ)} {inv : Nat → σ → Prop} {post : ρ → Prop}
    (pass : ∀ rank state, inv rank state → ∃ flow, body state = some flow ∧ Pass inv post rank flow)
    {fuel rank : Nat} {state : σ} (holds : inv rank state) (bound : rank < fuel) :
    ∃ result, loop body fuel state = some result ∧ post result := by
  induction fuel generalizing rank state with
  | zero => omega
  | succ fuel ih =>
    obtain ⟨flow, step, after⟩ := pass rank state holds
    cases flow with
    | next following =>
      obtain ⟨lower, less, holds⟩ := after
      rw [loop_succ_of_next step]
      exact ih holds (by omega)
    | done result => exact ⟨result, loop_succ_of_done step, after⟩

def Follows (body : σ → Option (Flow σ ρ)) (state next : σ) : Prop := body state = some (.next next)

theorem invariant_of_follows {body : σ → Option (Flow σ ρ)} {inv : Nat → σ → Prop} {post : ρ → Prop}
    (pass : ∀ rank state, inv rank state → ∃ flow, body state = some flow ∧ Pass inv post rank flow)
    {rank : Nat} {start state : σ} (holds : inv rank start)
    (reached : Relation.ReflTransGen (Follows body) start state) : ∃ lower, inv lower state := by
  induction reached with
  | refl => exact ⟨rank, holds⟩
  | tail _ step ih =>
    obtain ⟨lower, holds⟩ := ih
    obtain ⟨flow, returns, after⟩ := pass lower _ holds
    cases returns.symm.trans step
    obtain ⟨lower, _, holds⟩ := after
    exact ⟨lower, holds⟩

/-! ## Programs that run with fuel -/

def Stable {α : Type} (program : Nat → Option α) : Prop :=
  ∀ ⦃fuel more : Nat⦄ ⦃result : α⦄, fuel ≤ more → program fuel = some result → program more = some result

namespace Stable

variable {α β : Type}

theorem unique {program : Nat → Option α} (stable : Stable program) {fuel fuel' : Nat} {result result' : α}
    (run : program fuel = some result) (run' : program fuel' = some result') : result = result' := by
  have first := stable (Nat.le_max_left fuel fuel') run
  have second := stable (Nat.le_max_right fuel fuel') run'
  exact Option.some.inj (first.symm.trans second)

theorem const (value : Option α) : Stable fun _ => value := fun _ _ _ _ run => run

theorem loop {body : σ → Option (Flow σ ρ)} {state : σ} : Stable fun fuel => loop body fuel state :=
  fun _ _ _ bound run => loop_mono bound run

theorem nested {body : Nat → σ → Option (Flow σ ρ)} (stable : ∀ state, Stable fun fuel => body fuel state)
    {state : σ} : Stable fun fuel => Foundation.loop (body fuel) fuel state := by
  intro fuel more result bound run
  have passes : ∀ count state, Foundation.loop (body fuel) count state = some result →
      Foundation.loop (body more) count state = some result := by
    intro count
    induction count with
    | zero => exact fun _ run => nomatch run
    | succ count ih =>
      intro state run
      cases step : body fuel state with
      | none => simp [Foundation.loop, step] at run
      | some flow =>
        have step' := stable state bound step
        cases flow with
        | next following =>
          rw [loop_succ_of_next step] at run
          exact (loop_succ_of_next step').trans (ih following run)
        | done other =>
          rw [loop_succ_of_done step] at run
          exact (loop_succ_of_done step').trans run
  exact loop_mono bound (passes fuel state run)

theorem bind {first : Nat → Option α} {rest : Nat → α → Option β} (stable : Stable first)
    (after : ∀ a, Stable fun fuel => rest fuel a) : Stable fun fuel => first fuel >>= rest fuel := by
  intro fuel more result bound run
  simp only [Option.bind_eq_bind, Option.bind_eq_some_iff] at run ⊢
  obtain ⟨a, step, run⟩ := run
  exact ⟨a, stable bound step, after a bound run⟩

theorem ite {condition : Prop} [Decidable condition] {yes no : Nat → Option α} (first : Stable yes)
    (second : Stable no) : Stable fun fuel => if condition then yes fuel else no fuel := by
  intro fuel more result bound run
  simp only at run ⊢
  split at run
  · rw [if_pos ‹_›]
    exact first bound run
  · rw [if_neg ‹_›]
    exact second bound run

theorem foldlM {step : Nat → α → β → Option α} (stable : ∀ a b, Stable fun fuel => step fuel a b)
    (items : List β) (start : α) : Stable fun fuel => items.foldlM (step fuel) start := by
  induction items generalizing start with
  | nil => exact const _
  | cons b items ih =>
    simp only [List.foldlM_cons]
    exact bind (stable start b) ih

end Stable

end HevTaskSystem.Foundation
