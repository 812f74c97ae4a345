import Mathlib.Logic.Equiv.Basic

/-! Things that exist, each held at exactly one place.

A thing is made at a free place, is removed from its place, or changes its place with what
is held at another one, which may be nothing.
-/

set_option autoImplicit false

namespace HevTaskSystem.Foundation

/-- Every thing that exists is held at one place, and nothing else is held. -/
structure Exclusive {π η : Type} (exist : η → Prop) (place : π → Option η) : Prop where
  single : ∀ p q h, place p = some h → place q = some h → p = q
  covers : ∀ h, exist h ↔ ∃ p, place p = some h

namespace Exclusive

variable {π η : Type} {exist exist' : η → Prop} {place place' : π → Option η} {p q : π} {h : η}

theorem congr (exclusive : Exclusive exist place) (same : ∀ p, place' p = place p) : Exclusive exist place' := by
  have equal : place' = place := funext same
  rwa [equal]

theorem create (exclusive : Exclusive exist place) (free : place p = none) (new : ¬ exist h)
    (here : place' p = some h) (others : ∀ q, q ≠ p → place' q = place q)
    (after : ∀ h', exist' h' ↔ exist h' ∨ h' = h) : Exclusive exist' place' := by
  have fresh (q : π) (at_q : place' q = some h) : q = p := by
    by_contra other
    rw [others q other] at at_q
    exact new ((exclusive.covers h).mpr ⟨q, at_q⟩)
  constructor
  · intro q r h' first second
    by_cases same : h' = h
    · subst same
      rw [fresh q first, fresh r second]
    · have apart (q : π) (at_q : place' q = some h') : q ≠ p := by
        rintro rfl
        exact same (Option.some.inj (at_q.symm.trans here))
      rw [others q (apart q first)] at first
      rw [others r (apart r second)] at second
      exact exclusive.single q r h' first second
  · intro h'
    rw [after, exclusive.covers]
    constructor
    · rintro (⟨q, at_q⟩ | rfl)
      · have other : q ≠ p := by
          rintro rfl
          cases free.symm.trans at_q
        exact ⟨q, (others q other).trans at_q⟩
      · exact ⟨p, here⟩
    · rintro ⟨q, at_q⟩
      by_cases same : q = p
      · subst same
        exact .inr (Option.some.inj (at_q.symm.trans here))
      · exact .inl ⟨q, (others q same).symm.trans at_q⟩

theorem remove (exclusive : Exclusive exist place) (here : place p = some h) (gone : place' p = none)
    (others : ∀ q, q ≠ p → place' q = place q) (after : ∀ h', exist' h' ↔ exist h' ∧ h' ≠ h) :
    Exclusive exist' place' := by
  have before (q : π) (h' : η) (at_q : place' q = some h') : q ≠ p ∧ place q = some h' := by
    by_cases same : q = p
    · subst same
      cases gone.symm.trans at_q
    · exact ⟨same, (others q same).symm.trans at_q⟩
  constructor
  · exact fun q r h' first second => exclusive.single q r h' (before q h' first).2 (before r h' second).2
  · intro h'
    rw [after, exclusive.covers]
    constructor
    · rintro ⟨⟨q, at_q⟩, other⟩
      have apart : q ≠ p := by
        rintro rfl
        exact other (Option.some.inj (at_q.symm.trans here))
      exact ⟨q, (others q apart).trans at_q⟩
    · rintro ⟨q, at_q⟩
      obtain ⟨apart, at_q⟩ := before q h' at_q
      refine ⟨⟨q, at_q⟩, ?_⟩
      rintro rfl
      exact apart (exclusive.single q p h' at_q here)

theorem exchange (exclusive : Exclusive exist place) (first : place' p = place q) (second : place' q = place p)
    (others : ∀ r, r ≠ p → r ≠ q → place' r = place r) : Exclusive exist place' := by
  classical
  have equal (r : π) : place' r = place (Equiv.swap p q r) := by
    by_cases here : r = p
    · rw [here, first, Equiv.swap_apply_left]
    · by_cases there : r = q
      · rw [there, second, Equiv.swap_apply_right]
      · rw [others r here there, Equiv.swap_apply_of_ne_of_ne here there]
  constructor
  · intro r r' h at_r at_r'
    rw [equal] at at_r at_r'
    exact (Equiv.swap p q).injective (exclusive.single _ _ h at_r at_r')
  · intro h
    rw [exclusive.covers]
    constructor
    · rintro ⟨r, at_r⟩
      exact ⟨Equiv.swap p q r, by rw [equal, Equiv.swap_apply_self, at_r]⟩
    · rintro ⟨r, at_r⟩
      exact ⟨_, (equal r).symm.trans at_r⟩

end Exclusive

end HevTaskSystem.Foundation
