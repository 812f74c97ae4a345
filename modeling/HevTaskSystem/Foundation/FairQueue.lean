import Mathlib.Data.List.Basic
import Mathlib.Logic.Function.Basic
import Mathlib.Tactic.Common

/-! Queues in which every turn of a member is charged to its key.

The member with the smallest key has its turn. A member enters with the smallest key
plus a charge, and so does one that has had its turn. Then no key is above another by
more than its charge, and the smallest key does not decrease while there are members.
-/

set_option autoImplicit false

namespace HevTaskSystem.Foundation

/-- The key of a member, and the charge that was last added to it. -/
structure Entry where
  key : Nat
  charge : Nat
  deriving DecidableEq, Repr

abbrev FairQueue (α : Type) := α → Option Entry

namespace FairQueue

variable {α : Type} {q mid next : FairQueue α} {a b : α} {e : Entry} {m p k : Nat} {fair : Nat → Prop}

structure Least (q : FairQueue α) (m : Nat) : Prop where
  le : ∀ a e, q a = some e → m ≤ e.key
  attained : ∀ a e, q a = some e → ∃ b e', q b = some e' ∧ e'.key = m
  empty : (∀ a, q a = none) → m = 0

def Window (q : FairQueue α) : Prop :=
  ∀ a e b e', q a = some e → q b = some e' → e.key ≤ e'.key + e.charge

def AtLeast (q : FairQueue α) (k : Nat) : Prop := ∀ a e, q a = some e → k ≤ e.key

def Charged (fair : Nat → Prop) (q : FairQueue α) : Prop := ∀ a e, q a = some e → fair e.charge

theorem AtLeast.le_least (bound : q.AtLeast k) (least : q.Least m) (here : q a = some e) : k ≤ m := by
  obtain ⟨b, e', there, rfl⟩ := least.attained a e here
  exact bound b e' there

variable [DecidableEq α]

/-- The member `a` comes, or comes again, with the key `m + p`. -/
def enter (q : FairQueue α) (a : α) (m p : Nat) : FairQueue α := Function.update q a (some ⟨m + p, p⟩)

def leave (q : FairQueue α) (a : α) : FairQueue α := Function.update q a none

/-- Members enter one after the other, with fair charges. -/
inductive Enters (fair : Nat → Prop) : FairQueue α → FairQueue α → Prop where
  | refl (q : FairQueue α) : Enters fair q q
  | enter {q mid : FairQueue α} {a : α} {m p : Nat} :
      Enters fair q mid → mid a = none → mid.Least m → fair p → Enters fair q (mid.enter a m p)

theorem Enters.trans (first : Enters fair q mid) (second : Enters fair mid next) : Enters fair q next := by
  induction second with
  | refl => exact first
  | enter _ fresh least charge ih => exact .enter ih fresh least charge

theorem enter_self : (q.enter a m p) a = some ⟨m + p, p⟩ := Function.update_self ..

theorem enter_of_ne (other : b ≠ a) : (q.enter a m p) b = q b := Function.update_of_ne other ..

theorem enter_cases (here : (q.enter a m p) b = some e) : (b = a ∧ e = ⟨m + p, p⟩) ∨ (b ≠ a ∧ q b = some e) := by
  by_cases same : b = a
  · subst same
    exact .inl ⟨rfl, (Option.some.inj (enter_self.symm.trans here)).symm⟩
  · exact .inr ⟨same, (enter_of_ne same).symm.trans here⟩

theorem leave_of_ne (other : b ≠ a) : (q.leave a) b = q b := Function.update_of_ne other ..

theorem of_leave (here : (q.leave a) b = some e) : b ≠ a ∧ q b = some e := by
  by_cases same : b = a
  · subst same
    cases (Function.update_self ..).symm.trans here
  · exact ⟨same, (leave_of_ne same).symm.trans here⟩

theorem Enters.kept (enters : Enters fair q next) (here : q b = some e) : next b = some e := by
  induction enters with
  | refl => exact here
  | enter _ fresh _ _ there =>
    rw [enter_of_ne, there]
    rintro rfl
    cases fresh.symm.trans there

/-! ## The window -/

theorem Window.enter (window : q.Window) (least : q.Least m) : (q.enter a m p).Window := by
  intro b e c e' first second
  rcases enter_cases first with ⟨rfl, rfl⟩ | ⟨_, old⟩
  · rcases enter_cases second with ⟨rfl, rfl⟩ | ⟨_, old'⟩
    · exact Nat.le_add_right ..
    · exact Nat.add_le_add_right (least.le c e' old') p
  · rcases enter_cases second with ⟨rfl, rfl⟩ | ⟨_, old'⟩
    · -- Some member has the smallest key, and the window holds for it.
      obtain ⟨d, e'', there, rfl⟩ := least.attained b e old
      have bound := window b e d e'' old there
      dsimp only
      omega
    · exact window b e c e' old old'

theorem Window.leave (window : q.Window) : (q.leave a).Window := by
  intro b e c e' first second
  exact window b e c e' (of_leave first).2 (of_leave second).2

theorem Window.enters (window : q.Window) (enters : Enters fair q next) : next.Window := by
  induction enters with
  | refl => exact window
  | enter _ _ least _ ih => exact ih.enter least

theorem Charged.enter (charged : q.Charged fair) (charge : fair p) : (q.enter a m p).Charged fair := by
  intro b e here
  rcases enter_cases here with ⟨rfl, rfl⟩ | ⟨_, old⟩
  · exact charge
  · exact charged b e old

theorem Charged.leave (charged : q.Charged fair) : (q.leave a).Charged fair :=
  fun b e here => charged b e (of_leave here).2

theorem Charged.enters (charged : q.Charged fair) (enters : Enters fair q next) : next.Charged fair := by
  induction enters with
  | refl => exact charged
  | enter _ _ _ charge ih => exact ih.enter charge

/-! ## The smallest key -/

theorem AtLeast.enter (bound : q.AtLeast k) (least : k ≤ m) : (q.enter a m p).AtLeast k := by
  intro b e here
  rcases enter_cases here with ⟨rfl, rfl⟩ | ⟨_, old⟩
  · exact Nat.le_add_right_of_le least
  · exact bound b e old

theorem AtLeast.leave (bound : q.AtLeast k) : (q.leave a).AtLeast k :=
  fun b e here => bound b e (of_leave here).2

theorem AtLeast.enters (bound : q.AtLeast k) (here : q b = some e) (enters : Enters fair q next) :
    next.AtLeast k := by
  induction enters with
  | refl => exact bound
  | enter before _ least _ ih => exact ih.enter (ih.le_least least (before.kept here))

/-! ## Turns -/

/-- All keys are at least `k`, and that of `x` is above it. -/
structure Passed (q : FairQueue α) (x : α) (k : Nat) : Prop where
  all : q.AtLeast k
  above : ∀ e, q x = some e → k < e.key

variable {x : α}

theorem AtLeast.passed (bound : q.AtLeast k) (least : k ≤ m) (positive : 0 < p) : (q.enter x m p).Passed x k := by
  refine ⟨bound.enter least, fun e here => ?_⟩
  rcases enter_cases here with ⟨_, rfl⟩ | ⟨other, _⟩
  · dsimp only
    omega
  · exact absurd rfl other

theorem AtLeast.passed_leave (bound : q.AtLeast k) : (q.leave x).Passed x k :=
  ⟨bound.leave, fun _ here => absurd rfl (of_leave here).1⟩

theorem Passed.enter (passed : q.Passed x k) (least : k ≤ m) (positive : 0 < p) : (q.enter a m p).Passed x k := by
  refine ⟨passed.all.enter least, fun e here => ?_⟩
  rcases enter_cases here with ⟨_, rfl⟩ | ⟨_, old⟩
  · dsimp only
    omega
  · exact passed.above e old

theorem Passed.leave (passed : q.Passed x k) : (q.leave a).Passed x k :=
  ⟨passed.all.leave, fun e here => passed.above e (of_leave here).2⟩

theorem Passed.enters (passed : q.Passed x k) (here : q b = some e) (positive : ∀ p, fair p → 0 < p)
    (enters : Enters fair q next) : next.Passed x k := by
  induction enters with
  | refl => exact passed
  | enter before _ least charge ih =>
    exact ih.enter (ih.all.le_least least (before.kept here)) (positive _ charge)

/-- The member with the smallest key has its turn and comes again, or it leaves; then others
may enter. -/
inductive Turn (fair : Nat → Prop) (x : α) (q next : FairQueue α) : Prop where
  | again {e : Entry} {p : Nat} : q x = some e → q.Least e.key → fair p →
      Enters fair (q.enter x e.key p) next → Turn fair x q next
  | gone : Enters fair (q.leave x) next → Turn fair x q next

theorem Window.turn (window : q.Window) (turn : Turn fair x q next) : next.Window := by
  cases turn with
  | again _ least _ enters => exact (window.enter least).enters enters
  | gone enters => exact window.leave.enters enters

theorem Charged.turn (charged : q.Charged fair) (turn : Turn fair x q next) : next.Charged fair := by
  cases turn with
  | again _ _ charge enters => exact (charged.enter charge).enters enters
  | gone enters => exact charged.leave.enters enters

theorem AtLeast.turn (bound : q.AtLeast k) (other : b ≠ x) (here : q b = some e) (positive : ∀ p, fair p → 0 < p)
    (turn : Turn fair x q next) : next.Passed x k := by
  cases turn with
  | again there _ charge enters =>
    exact (bound.passed (bound _ _ there) (positive _ charge)).enters ((enter_of_ne other).trans here) positive enters
  | gone enters => exact bound.passed_leave.enters ((leave_of_ne other).trans here) positive enters

theorem Passed.turn {y : α} (passed : q.Passed y k) (other : b ≠ x) (here : q b = some e)
    (positive : ∀ p, fair p → 0 < p) (turn : Turn fair x q next) : next.Passed y k := by
  cases turn with
  | again there _ charge enters =>
    exact (passed.enter (passed.all _ _ there) (positive _ charge)).enters ((enter_of_ne other).trans here) positive
      enters
  | gone enters => exact passed.leave.enters ((leave_of_ne other).trans here) positive enters

end FairQueue

end HevTaskSystem.Foundation
