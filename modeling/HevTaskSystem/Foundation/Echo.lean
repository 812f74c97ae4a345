import Mathlib.Data.List.Count

/-! A server that returns each message it takes.

Requests and responses are queues of their own, and the server has at most one message in
hand. Taken together they are one queue: the server moves messages along inside it.
-/

set_option autoImplicit false

namespace HevTaskSystem.Foundation

structure Echo (β : Type) where
  requests : List β
  hand : Option β
  responses : List β

namespace Echo

variable {β : Type} {e : Echo β} {b : β} {rest : List β}

def flight (e : Echo β) : List β := e.responses ++ e.hand.toList ++ e.requests

theorem flight_send (b : β) : flight { e with requests := e.requests ++ [b] } = e.flight ++ [b] :=
  (List.append_assoc ..).symm

theorem flight_take (free : e.hand = none) (first : e.requests = b :: rest) :
    flight { e with hand := some b, requests := rest } = e.flight := by
  simp [flight, free, first]

theorem flight_reply (taken : e.hand = some b) :
    flight { e with hand := none, responses := e.responses ++ [b] } = e.flight := by
  simp [flight, taken]

theorem flight_collect (first : e.responses = b :: rest) : e.flight = b :: flight { e with responses := rest } := by
  simp [flight, first]

theorem of_flight_nil (none : e.flight = []) : e.requests = [] ∧ e.hand = .none ∧ e.responses = [] := by
  simp only [flight, List.append_eq_nil_iff, Option.toList_eq_nil_iff] at none
  exact ⟨none.2, none.1.2, none.1.1⟩

theorem of_flight_single (one : e.flight = [b]) :
    (e.requests = [b] ∧ e.hand = none ∧ e.responses = []) ∨ (e.requests = [] ∧ e.hand = some b ∧ e.responses = []) ∨
      (e.requests = [] ∧ e.hand = none ∧ e.responses = [b]) := by
  obtain ⟨requests, hand, responses⟩ := e
  cases responses with
  | cons first more =>
    simp only [flight, List.cons_append, List.cons.injEq, List.append_eq_nil_iff, Option.toList_eq_nil_iff] at one
    obtain ⟨rfl, ⟨rfl, rfl⟩, rfl⟩ := one
    exact .inr (.inr ⟨rfl, rfl, rfl⟩)
  | nil =>
    cases hand with
    | none => exact .inl ⟨by simpa [flight] using one, rfl, rfl⟩
    | some taken =>
      simp only [flight, List.nil_append, Option.toList_some, List.singleton_append, List.cons.injEq] at one
      obtain ⟨rfl, rfl⟩ := one
      exact .inr (.inl ⟨rfl, rfl, rfl⟩)

theorem count_le [DecidableEq β] (e : Echo β) (b : β) :
    e.requests.count b + e.responses.count b ≤ e.flight.count b := by
  simp only [flight, List.count_append]
  omega

end Echo

end HevTaskSystem.Foundation
