import HevTaskSystem.Foundation.Ledger
import Mathlib.Data.Multiset.AddSub
import Mathlib.Data.Multiset.ZeroCons

/-! Ledgers whose things at large are the parts of a footprint.

A footprint is a sum of the things that the parts of a program hold. What a call acquires
is added to the footprint of its caller, and what it releases was a part of it.
-/

set_option autoImplicit false

namespace HevTaskSystem.Foundation.Ledger

variable {α : Type} {ledger : Ledger α} {things : Multiset α} {a : α}

/-- The things handed out and not taken back are those of the footprint, each once. -/
structure Holds (ledger : Ledger α) (things : Multiset α) : Prop where
  sound : ledger.Sound
  nodup : things.Nodup
  out : ∀ a, (ledger.number a).isSome = true ↔ a ∈ things

theorem Holds.empty : (empty : Ledger α).Holds 0 := by
  refine ⟨.empty, Multiset.nodup_zero, fun a => ?_⟩
  simp [Ledger.empty]

theorem Holds.number_none (holds : ledger.Holds things) : ledger.number a = none ↔ a ∉ things := by
  rw [← holds.out, Option.not_isSome_iff_eq_none]

variable [DecidableEq α]

theorem Holds.give (holds : ledger.Holds things) (free : ledger.number a = none) :
    (ledger.give a).Holds (a ::ₘ things) := by
  have absent := holds.number_none.mp free
  refine ⟨holds.sound.give free, Multiset.nodup_cons.mpr ⟨absent, holds.nodup⟩, fun b => ?_⟩
  rw [Multiset.mem_cons, ← holds.out]
  by_cases same : b = a
  · subst same
    simp [give_self]
  · simp [give_of_ne same, same]

theorem Holds.take (holds : ledger.Holds (a ::ₘ things)) :
    ∃ next, ledger.take a = some next ∧ next.Holds things := by
  obtain ⟨absent, nodup⟩ := Multiset.nodup_cons.mp holds.nodup
  obtain ⟨n, number⟩ := Option.isSome_iff_exists.mp ((holds.out a).mpr (Multiset.mem_cons_self a things))
  have taken := take_eq number
  refine ⟨_, taken, holds.sound.take taken, nodup, fun b => ?_⟩
  by_cases same : b = a
  · subst same
    simp [absent]
  · have old := holds.out b
    rw [Multiset.mem_cons, or_iff_right same] at old
    rw [← old]
    simp [same]

end HevTaskSystem.Foundation.Ledger
