import Mathlib.Data.List.Basic
import Mathlib.Logic.Function.Basic

/-! Doubly linked segments.

A segment is a list of nodes that two link fields connect in order. Its ends point
at the two nodes around it, so that segments can be cut and joined at any place.
-/

set_option autoImplicit false

namespace HevTaskSystem.Foundation

variable {α : Type} {next prev : α → α} {before after a : α} {front back : List α}

/-- The nodes of the list are linked both ways, between `before` and `after`. -/
def Linked (next prev : α → α) (before after : α) : List α → Prop
  | [] => True
  | a :: rest => prev a = before ∧ next a = rest.headD after ∧ Linked next prev a after rest

namespace Linked

theorem append_iff : Linked next prev before after (front ++ back) ↔
    Linked next prev before (back.headD after) front ∧
      Linked next prev (front.getLastD before) after back := by
  induction front generalizing before with
  | nil => simp [Linked]
  | cons a front ih =>
    have head : (front ++ back).headD after = front.headD (back.headD after) := by
      cases front <;> rfl
    have last : (a :: front).getLastD before = front.getLastD a := by
      cases front <;> rfl
    rw [List.cons_append, Linked, Linked, ih, head, last]
    constructor
    · rintro ⟨hprev, hnext, hfront, hback⟩
      exact ⟨⟨hprev, hnext, hfront⟩, hback⟩
    · rintro ⟨⟨hprev, hnext, hfront⟩, hback⟩
      exact ⟨hprev, hnext, hfront, hback⟩

theorem congr {next' prev' : α → α} (linked : Linked next prev before after front)
    (same : ∀ a ∈ front, next' a = next a ∧ prev' a = prev a) :
    Linked next' prev' before after front := by
  induction front generalizing before with
  | nil => trivial
  | cons a front ih =>
    obtain ⟨hprev, hnext, rest⟩ := linked
    obtain ⟨sameNext, samePrev⟩ := same a List.mem_cons_self
    refine ⟨samePrev.trans hprev, sameNext.trans hnext, ih rest fun b member => ?_⟩
    exact same b (List.mem_cons_of_mem a member)

variable [DecidableEq α]

theorem set_prev (linked : Linked next prev before after (a :: back)) (fresh : a ∉ back) (value : α) :
    Linked next (Function.update prev a value) value after (a :: back) := by
  obtain ⟨_, hnext, rest⟩ := linked
  refine ⟨Function.update_self .., hnext, rest.congr fun b member => ⟨rfl, ?_⟩⟩
  exact Function.update_of_ne (ne_of_mem_of_not_mem member fresh) ..

theorem set_next (linked : Linked next prev before after (front ++ [a])) (fresh : a ∉ front) (value : α) :
    Linked (Function.update next a value) prev before value (front ++ [a]) := by
  rw [append_iff] at linked ⊢
  obtain ⟨hfront, hprev, _⟩ := linked
  refine ⟨hfront.congr fun b member => ⟨?_, rfl⟩, hprev, Function.update_self .., trivial⟩
  exact Function.update_of_ne (ne_of_mem_of_not_mem member fresh) ..

theorem set_after (linked : Linked next prev before after front) (nodup : front.Nodup) (value : α) :
    Linked (if front = [] then next else Function.update next (front.getLastD before) value) prev
      before value front := by
  rcases List.eq_nil_or_concat front with rfl | ⟨init, last, rfl⟩
  · trivial
  · rw [List.concat_eq_append] at linked nodup ⊢
    have fresh : last ∉ init := by
      intro member
      exact (List.nodup_append.mp nodup).2.2 last member last (List.mem_singleton_self last) rfl
    rw [if_neg (by simp), List.getLastD_concat]
    exact linked.set_next fresh value

theorem set_before (linked : Linked next prev before after back) (nodup : back.Nodup) (value : α) :
    Linked next (if back = [] then prev else Function.update prev (back.headD after) value)
      value after back := by
  cases back with
  | nil => trivial
  | cons a back => simpa using linked.set_prev (List.nodup_cons.mp nodup).1 value

theorem remove (linked : Linked next prev before after (front ++ a :: back))
    (nodup : (front ++ a :: back).Nodup) :
    Linked (if front = [] then next else Function.update next (front.getLastD before) (back.headD after))
      (if back = [] then prev else Function.update prev (back.headD after) (front.getLastD before))
      before after (front ++ back) := by
  obtain ⟨hfront, _, _, hback⟩ := append_iff.mp linked
  obtain ⟨nodupFront, nodupRest, apart⟩ := List.nodup_append.mp nodup
  have nodupBack := (List.nodup_cons.mp nodupRest).2
  have disjoint : ∀ b ∈ front, ∀ c ∈ back, b ≠ c := fun b hb c hc => apart b hb c (List.mem_cons_of_mem a hc)
  rw [append_iff]
  constructor
  · refine (hfront.set_after nodupFront (back.headD after)).congr fun b member => ⟨rfl, ?_⟩
    split
    · rfl
    · rename_i nonempty
      have other : b ≠ back.headD after := by
        rw [List.headD_eq_head?_getD, List.head?_eq_some_head nonempty, Option.getD_some]
        exact disjoint b member _ (List.head_mem nonempty)
      exact Function.update_of_ne other ..
  · refine (hback.set_before nodupBack (front.getLastD before)).congr fun c member => ⟨?_, rfl⟩
    split
    · rfl
    · rename_i nonempty
      have other : c ≠ front.getLastD before := by
        rw [List.getLastD_eq_getLast?, List.getLast?_eq_some_getLast nonempty, Option.getD_some]
        exact (disjoint _ (List.getLast_mem nonempty) c member).symm
      exact Function.update_of_ne other ..

theorem remove_frame {b : α} (outside : b ∉ front ++ a :: back) :
    (if front = [] then next else Function.update next (front.getLastD before) (back.headD after)) b = next b ∧
      (if back = [] then prev else Function.update prev (back.headD after) (front.getLastD before)) b = prev b := by
  constructor
  · rcases List.eq_nil_or_concat front with rfl | ⟨init, last, rfl⟩
    · rfl
    · have other : b ≠ last := by
        rintro rfl
        simp at outside
      simp [other]
  · cases back with
    | nil => rfl
    | cons c back =>
      have other : b ≠ c := by
        rintro rfl
        simp at outside
      simp [other]

end Linked

end HevTaskSystem.Foundation
