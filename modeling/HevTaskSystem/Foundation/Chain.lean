import Mathlib.Data.List.Basic
import Mathlib.Logic.Function.Basic

/-! Singly linked lists.

A chain starts at a pointer and follows one link field until it is null. The pointer and
the field determine its nodes, so a chain can only be changed at a node of its own.
-/

set_option autoImplicit false

namespace HevTaskSystem.Foundation

variable {α : Type} {next : α → α} {null p a : α} {nodes : List α}

def Chain (next : α → α) (null : α) : α → List α → Prop
  | p, [] => p = null
  | p, a :: rest => p = a ∧ a ≠ null ∧ Chain next null (next a) rest

namespace Chain

theorem nil_iff (chain : Chain next null p nodes) : nodes = [] ↔ p = null := by
  cases nodes with
  | nil => exact ⟨fun _ => chain, fun _ => rfl⟩
  | cons a rest =>
    obtain ⟨rfl, nonnull, _⟩ := chain
    exact ⟨fun empty => (by cases empty), fun same => absurd same nonnull⟩

theorem of_ne_null (chain : Chain next null p nodes) (nonnull : p ≠ null) :
    ∃ rest, nodes = p :: rest ∧ Chain next null (next p) rest := by
  cases nodes with
  | nil => exact absurd chain nonnull
  | cons a rest =>
    obtain ⟨rfl, _, tail⟩ := chain
    exact ⟨rest, rfl, tail⟩

theorem unique {nodes' : List α} (chain : Chain next null p nodes) (other : Chain next null p nodes') :
    nodes = nodes' := by
  induction nodes generalizing p nodes' with
  | nil => exact (other.nil_iff.mpr chain).symm
  | cons a rest ih =>
    obtain ⟨rfl, nonnull, tail⟩ := chain
    obtain ⟨rest', rfl, tail'⟩ := other.of_ne_null nonnull
    rw [ih tail tail']

theorem congr {next' : α → α} (chain : Chain next null p nodes) (same : ∀ a ∈ nodes, next' a = next a) :
    Chain next' null p nodes := by
  induction nodes generalizing p with
  | nil => exact chain
  | cons a rest ih =>
    obtain ⟨here, nonnull, tail⟩ := chain
    refine ⟨here, nonnull, ?_⟩
    rw [same a List.mem_cons_self]
    exact ih tail fun b member => same b (List.mem_cons_of_mem a member)

variable [DecidableEq α]

theorem update {value : α} (chain : Chain next null p nodes) (outside : a ∉ nodes) :
    Chain (Function.update next a value) null p nodes :=
  chain.congr fun _ member => Function.update_of_ne (ne_of_mem_of_not_mem member outside) ..

theorem push (chain : Chain next null p nodes) (nonnull : a ≠ null) (outside : a ∉ nodes) :
    Chain (Function.update next a p) null a (a :: nodes) := by
  refine ⟨rfl, nonnull, ?_⟩
  rw [Function.update_self]
  exact chain.update outside

end Chain

end HevTaskSystem.Foundation
