import Mathlib.Data.Fintype.Basic
import Mathlib.Logic.Function.Basic
import Mathlib.Logic.Relation

/-! Edge-triggered notification.

A source is ready in some ways or not, and this changes at any time. A source that has a
record is watched in the ways that the record selects. When a watched way becomes ready,
an event of the source is queued; it stays in the queue until it is delivered, or until it
is dropped because nothing that is watched is ready any more. Being ready all along queues
nothing: whoever has taken the event must find out that the source is not ready before
relying on the next one.
-/

set_option autoImplicit false

namespace HevTaskSystem.Foundation

structure Notifier (ι κ ρ : Type) where
  level : ι → κ → Bool
  records : ι → Option ρ
  queued : ι → Bool

namespace Notifier

variable {ι κ ρ : Type} (selects : ρ → κ → Bool)

/-- For one of these records: if the source is watched and ready, an event is on its way. -/
def Announced (owns : ρ → Prop) (self : Notifier ι κ ρ) (i : ι) (k : κ) : Prop :=
  ∀ record, self.records i = some record → owns record → selects record k = true → self.level i k = true →
    self.queued i = true

section Operations

variable [DecidableEq ι]

def watch [Fintype κ] (self : Notifier ι κ ρ) (i : ι) (record : ρ) : Notifier ι κ ρ where
  level := self.level
  records := Function.update self.records i (some record)
  queued := Function.update self.queued i
    (self.queued i || decide (∃ k, selects record k = true ∧ self.level i k = true))

def unwatch (self : Notifier ι κ ρ) (i : ι) : Notifier ι κ ρ where
  level := self.level
  records := Function.update self.records i none
  queued := Function.update self.queued i false

def deliver (self : Notifier ι κ ρ) (i : ι) : Notifier ι κ ρ :=
  { self with queued := Function.update self.queued i false }

/-- A record of one of these sources is made, replaced or removed. -/
inductive Update [Fintype κ] (place : ι → Prop) (self : Notifier ι κ ρ) : Notifier ι κ ρ → Prop where
  | watch {i : ι} {record : ρ} : place i → Update place self (self.watch selects i record)
  | unwatch {i : ι} : place i → Update place self (self.unwatch i)

/-- What happens by itself: sources become ready or cease to be, and events without effect are
dropped. Events may also be queued without need. -/
inductive Drift (self : Notifier ι κ ρ) : Notifier ι κ ρ → Prop where
  | change {level : ι → κ → Bool} {queued : ι → Bool} : (∀ i, self.queued i = true → queued i = true) →
      (∀ i k record, self.records i = some record → selects record k = true → self.level i k = false →
        level i k = true → queued i = true) →
      Drift self { self with level := level, queued := queued }
  | drop {i : ι} : (∀ k record, self.records i = some record → selects record k = true → self.level i k = false) →
      Drift self (self.deliver i)

end Operations

variable {selects} {owns : ρ → Prop} {self next : Notifier ι κ ρ} {i j : ι} {k : κ} {record : ρ}

section Operations

variable [DecidableEq ι]

theorem announced_watch [Fintype κ] : (self.watch selects i record).Announced selects owns i k := by
  intro there found _ selected high
  have same : record = there := by simpa [watch] using found
  subst same
  simp only [watch, Function.update_self, Bool.or_eq_true, decide_eq_true_eq]
  exact .inr ⟨k, selected, high⟩

theorem Update.records [Fintype κ] {place : ι → Prop} (update : self.Update selects place next) (outside : ¬ place i) :
    next.records i = self.records i := by
  have other (j : ι) (inside : place j) : i ≠ j := by
    rintro rfl
    exact outside inside
  cases update with
  | watch inside | unwatch inside => exact Function.update_of_ne (other _ inside) ..

theorem Announced.update [Fintype κ] {place : ι → Prop} (announced : self.Announced selects owns i k)
    (update : self.Update selects place next) : next.Announced selects owns i k := by
  cases update with
  | @watch j record =>
    by_cases same : i = j
    · subst same
      exact announced_watch
    · intro there found owned selected high
      simp only [watch, Function.update_of_ne same] at found ⊢
      exact announced there found owned selected high
  | @unwatch j =>
    intro there found owned selected high
    by_cases same : i = j
    · subst same
      simp [unwatch] at found
    · simp only [unwatch, Function.update_of_ne same] at found ⊢
      exact announced there found owned selected high

theorem records_of_updates [Fintype κ] {place : ι → Prop} (updates : Relation.ReflTransGen (Update selects place) self next)
    (outside : ¬ place i) : next.records i = self.records i := by
  induction updates with
  | refl => rfl
  | tail _ update ih => exact (update.records outside).trans ih

theorem Announced.updates [Fintype κ] {place : ι → Prop} (announced : self.Announced selects owns i k)
    (updates : Relation.ReflTransGen (Update selects place) self next) : next.Announced selects owns i k := by
  induction updates with
  | refl => exact announced
  | tail _ update ih => exact ih.update update

theorem Announced.deliver (announced : self.Announced selects owns i k)
    (foreign : ∀ record, self.records j = some record → ¬ owns record) :
    (self.deliver j).Announced selects owns i k := by
  intro record found owned selected high
  have other : i ≠ j := by
    rintro rfl
    exact foreign record found owned
  simp only [Notifier.deliver, Function.update_of_ne other]
  exact announced record found owned selected high

theorem Drift.records (drift : self.Drift selects next) : next.records = self.records := by
  cases drift with
  | change => rfl
  | drop => rfl

theorem Announced.drift (announced : self.Announced selects owns i k) (drift : self.Drift selects next) :
    next.Announced selects owns i k := by
  intro record found owned selected high
  cases drift with
  | change stay rise =>
    cases before : self.level i k with
    | true => exact stay i (announced record found owned selected before)
    | false => exact rise i k record found selected before high
  | @drop j low =>
    by_cases same : i = j
    · -- What is dropped announces nothing that is ready.
      subst same
      exact absurd (high.symm.trans (low k record found selected)) Bool.true_eq_false.mp
    · simp only [Notifier.deliver, Function.update_of_ne same]
      exact announced record found owned selected high

end Operations

end Notifier

end HevTaskSystem.Foundation
