import HevTaskSystem.Foundation.Loop

/-! Loops that get an answer from outside in each pass.

A script is a list of answers. After a script the loop waits for its next answer or has
left with a result, and answers that come after that are not looked at. Two loops are
compared along one script by a relation on their states.
-/

set_option autoImplicit false

namespace HevTaskSystem.Foundation

variable {σ τ ρ ρ' α β : Type}

def feed (pass : σ → α → Flow σ ρ) (state : σ) : List α → Flow σ ρ
  | [] => .next state
  | answer :: answers =>
    match pass state answer with
    | .next state => feed pass state answers
    | .done result => .done result

def Fits (pass : σ → α → Flow σ ρ) (allowed : σ → α → Prop) (state : σ) : List α → Prop
  | [] => True
  | answer :: answers => allowed state answer ∧
    match pass state answer with
    | .next state => Fits pass allowed state answers
    | .done _ => True

namespace Flow

def Meets (states : σ → Prop) (results : ρ → Prop) : Flow σ ρ → Prop
  | .next state => states state
  | .done result => results result

def map (f : σ → τ) (g : ρ → ρ') : Flow σ ρ → Flow τ ρ'
  | .next state => .next (f state)
  | .done result => .done (g result)

@[simp] theorem meets_map {f : σ → τ} {g : ρ → ρ'} {states : τ → Prop} {results : ρ' → Prop} {flow : Flow σ ρ} :
    (flow.map f g).Meets states results ↔ flow.Meets (fun state => states (f state)) fun result => results (g result) := by
  cases flow <;> rfl

theorem Meets.imp {states states' : σ → Prop} {results results' : ρ → Prop} {flow : Flow σ ρ}
    (meets : flow.Meets states results) (first : ∀ state, states state → states' state)
    (second : ∀ result, results result → results' result) : flow.Meets states' results' := by
  cases flow with
  | next state => exact first state meets
  | done result => exact second result meets

/-- Two loops both run in related states, or both have left with related results. -/
inductive Related (states : σ → τ → Prop) (results : ρ → ρ' → Prop) : Flow σ ρ → Flow τ ρ' → Prop where
  | next {state : σ} {state' : τ} : states state state' → Related states results (.next state) (.next state')
  | done {result : ρ} {result' : ρ'} : results result result' →
      Related states results (.done result) (.done result')

theorem Related.exists_done {states : σ → τ → Prop} {results : ρ → ρ' → Prop} {flow : Flow σ ρ} {result' : ρ'}
    (related : Related states results flow (.done result')) : ∃ result, flow = .done result ∧ results result result' := by
  cases related with
  | done ended => exact ⟨_, rfl, ended⟩

end Flow

variable {pass : σ → α → Flow σ ρ} {allowed : σ → α → Prop} {state : σ}

theorem Fits.and_of_forall {good : α → Prop} {answers : List α} (fits : Fits pass allowed state answers)
    (all : ∀ answer ∈ answers, good answer) :
    Fits pass (fun state answer => allowed state answer ∧ good answer) state answers := by
  induction answers generalizing state with
  | nil => trivial
  | cons answer answers ih =>
    obtain ⟨permitted, rest⟩ := fits
    refine ⟨⟨permitted, all answer List.mem_cons_self⟩, ?_⟩
    cases taken : pass state answer with
    | next following =>
      rw [taken] at rest
      exact ih rest fun other member => all other (List.mem_cons_of_mem _ member)
    | done result => trivial

theorem fits_true (state : σ) (answers : List α) :
    Fits pass (fun _ _ => True) state answers := by
  induction answers generalizing state with
  | nil => trivial
  | cons answer answers ih =>
    refine ⟨trivial, ?_⟩
    cases pass state answer with
    | next state => exact ih state
    | done result => trivial

theorem feed_meets {states : σ → Prop} {results : ρ → Prop}
    (step : ∀ state answer, states state → allowed state answer → (pass state answer).Meets states results)
    (start : states state) {answers : List α} (fits : Fits pass allowed state answers) :
    (feed pass state answers).Meets states results := by
  induction answers generalizing state with
  | nil => exact start
  | cons answer answers ih =>
    obtain ⟨permitted, rest⟩ := fits
    have after := step state answer start permitted
    cases taken : pass state answer with
    | next state =>
      simp only [feed, taken] at rest after ⊢
      exact ih after rest
    | done result =>
      simp only [feed, taken] at after ⊢
      exact after

theorem feed_related {pass' : τ → β → Flow τ ρ'} {view : β → α} {states : σ → τ → Prop} {results : ρ → ρ' → Prop}
    (step : ∀ state state' answer, states state state' → allowed state (view answer) →
      (pass state (view answer)).Related states results (pass' state' answer))
    {state' : τ} (start : states state state') {answers : List β} (fits : Fits pass allowed state (answers.map view)) :
    (feed pass state (answers.map view)).Related states results (feed pass' state' answers) := by
  induction answers generalizing state state' with
  | nil => exact .next start
  | cons answer answers ih =>
    obtain ⟨permitted, rest⟩ := fits
    have after := step state state' answer start permitted
    simp only [List.map_cons, feed]
    revert rest
    generalize pass state (view answer) = flow at after
    generalize pass' state' answer = flow' at after
    intro rest
    cases after with
    | next related => exact ih related rest
    | done related => exact .done related

end HevTaskSystem.Foundation
