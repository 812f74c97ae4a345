import Mathlib.Data.List.Nodup
import Mathlib.Logic.Function.Basic

/-! Ledgers of things that are handed out and taken back.

Every handing out has a number of its own, also when it is at a place that was used
before. A thing is handed out at one place or has been taken back once; it is never both.
-/

set_option autoImplicit false

namespace HevTaskSystem.Foundation

/-- The number of things handed out, the numbers of those taken back, and which one is at
each place. -/
structure Ledger (α : Type) where
  given : Nat
  back : List Nat
  number : α → Option Nat

namespace Ledger

variable {α : Type} {ledger : Ledger α} {a b : α} {n : Nat}

structure Sound (ledger : Ledger α) : Prop where
  nodup : ledger.back.Nodup
  back_lt : ∀ n ∈ ledger.back, n < ledger.given
  number_lt : ∀ a n, ledger.number a = some n → n < ledger.given
  out : ∀ a n, ledger.number a = some n → n ∉ ledger.back
  injective : ∀ a b n, ledger.number a = some n → ledger.number b = some n → a = b
  complete : ∀ n < ledger.given, n ∈ ledger.back ∨ ∃ a, ledger.number a = some n

def empty : Ledger α := ⟨0, [], fun _ => none⟩

theorem Sound.empty : (empty : Ledger α).Sound where
  nodup := List.nodup_nil
  back_lt _ member := absurd member List.not_mem_nil
  number_lt _ _ here := nomatch here
  out _ _ here := nomatch here
  injective _ _ _ here := nomatch here
  complete _ less := absurd less (Nat.not_lt_zero _)

variable [DecidableEq α]

def give (ledger : Ledger α) (a : α) : Ledger α :=
  ⟨ledger.given + 1, ledger.back, Function.update ledger.number a (some ledger.given)⟩

def take (ledger : Ledger α) (a : α) : Option (Ledger α) := do
  let n ← ledger.number a
  return ⟨ledger.given, ledger.back ++ [n], Function.update ledger.number a none⟩

theorem give_self : (ledger.give a).number a = some ledger.given := Function.update_self ..

theorem give_of_ne (other : b ≠ a) : (ledger.give a).number b = ledger.number b := Function.update_of_ne other ..

theorem Sound.give (sound : ledger.Sound) (free : ledger.number a = none) : (ledger.give a).Sound := by
  -- The new number is above all numbers in use.
  have old : ∀ b n, (ledger.give a).number b = some n → (b = a ∧ n = ledger.given) ∨ ledger.number b = some n := by
    intro b n here
    by_cases same : b = a
    · subst same
      exact .inl ⟨rfl, (Option.some.inj (give_self.symm.trans here)).symm⟩
    · exact .inr ((give_of_ne same).symm.trans here)
  refine ⟨sound.nodup, fun n member => Nat.lt_succ_of_lt (sound.back_lt n member), fun b n here => ?_,
    fun b n here => ?_, fun b c n first second => ?_, fun n less => ?_⟩
  · rcases old b n here with ⟨_, rfl⟩ | here
    · exact Nat.lt_succ_self _
    · exact Nat.lt_succ_of_lt (sound.number_lt b n here)
  · rcases old b n here with ⟨_, rfl⟩ | here
    · exact fun member => Nat.lt_irrefl _ (sound.back_lt _ member)
    · exact sound.out b n here
  · rcases old b n first with ⟨here, rfl⟩ | first
    · rcases old c _ second with ⟨there, _⟩ | second
      · rw [here, there]
      · exact absurd (sound.number_lt c _ second) (Nat.lt_irrefl _)
    · rcases old c n second with ⟨_, rfl⟩ | second
      · exact absurd (sound.number_lt b _ first) (Nat.lt_irrefl _)
      · exact sound.injective b c n first second
  · rcases Nat.lt_succ_iff_lt_or_eq.mp less with less | rfl
    · refine (sound.complete n less).imp_right fun ⟨b, here⟩ => ⟨b, ?_⟩
      have other : b ≠ a := by
        rintro rfl
        cases free.symm.trans here
      exact (give_of_ne other).trans here
    · exact .inr ⟨a, give_self⟩

theorem take_eq (here : ledger.number a = some n) :
    ledger.take a = some ⟨ledger.given, ledger.back ++ [n], Function.update ledger.number a none⟩ := by
  simp [take, here]

theorem Sound.take {next : Ledger α} (sound : ledger.Sound) (run : ledger.take a = some next) : next.Sound := by
  simp only [Ledger.take, Option.bind_eq_bind, Option.bind_eq_some_iff, Option.pure_def, Option.some.injEq] at run
  obtain ⟨n, here, rfl⟩ := run
  have old : ∀ b m, Function.update ledger.number a none b = some m → b ≠ a ∧ ledger.number b = some m := by
    intro b m there
    by_cases same : b = a
    · subst same
      cases (Function.update_self ..).symm.trans there
    · exact ⟨same, (Function.update_of_ne same ..).symm.trans there⟩
  refine ⟨?_, fun m member => ?_, fun b m there => sound.number_lt b m (old b m there).2, fun b m there => ?_,
    fun b c m first second => sound.injective b c m (old b m first).2 (old c m second).2, fun m less => ?_⟩
  · exact sound.nodup.append (List.nodup_singleton n) (List.disjoint_singleton.mpr (sound.out a n here))
  · rcases List.mem_append.mp member with member | member
    · exact sound.back_lt m member
    · exact List.mem_singleton.mp member ▸ sound.number_lt a n here
  · obtain ⟨other, there⟩ := old b m there
    intro member
    rcases List.mem_append.mp member with member | member
    · exact sound.out b m there member
    · rw [List.mem_singleton.mp member] at there
      exact other (sound.injective b a n there here)
  · rcases sound.complete m less with member | ⟨b, there⟩
    · exact .inl (List.mem_append_left _ member)
    -- A number that was out is back if it was that of the block, and still out otherwise.
    · by_cases same : b = a
      · subst same
        cases here.symm.trans there
        exact .inl (List.mem_append_right _ (List.mem_singleton_self n))
      · exact .inr ⟨b, (Function.update_of_ne same ..).trans there⟩

end Ledger

end HevTaskSystem.Foundation
