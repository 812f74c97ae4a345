import Mathlib.Data.List.Nodup
import Mathlib.Logic.Function.Basic
import Mathlib.Tactic.Common

/-! Overwriting a part of memory: of a block from an offset on, or at a list of places. -/

set_option autoImplicit false

namespace HevTaskSystem.Foundation

variable {β : Type} {block data : List β} {offset start count : Nat}

def splice (block : List β) (offset : Nat) (data : List β) : List β :=
  block.take offset ++ data ++ block.drop (offset + data.length)

theorem length_splice (inside : offset + data.length ≤ block.length) :
    (splice block offset data).length = block.length := by
  simp only [splice, List.length_append, List.length_take, List.length_drop]
  omega

theorem take_drop_splice_self (inside : offset + data.length ≤ block.length) :
    ((splice block offset data).drop offset).take data.length = data := by
  have front : (block.take offset).length = offset := by
    rw [List.length_take]
    omega
  rw [splice, List.append_assoc, List.drop_append_of_le_length (by omega), List.drop_of_length_le (by omega),
    List.nil_append, List.take_append_of_le_length (by omega), List.take_length]

theorem take_drop_splice_of_disjoint (inside : offset + data.length ≤ block.length)
    (apart : start + count ≤ offset ∨ offset + data.length ≤ start) :
    ((splice block offset data).drop start).take count = (block.drop start).take count := by
  apply List.ext_getElem?
  intro i
  simp only [List.getElem?_take, List.getElem?_drop]
  split
  · rename_i less
    simp only [splice, List.getElem?_append, List.length_append, List.length_take, List.getElem?_take,
      List.getElem?_drop]
    rcases apart with before | behind
    · rw [if_pos (by omega), if_pos (by omega), if_pos (by omega)]
    · rw [if_neg (by omega)]
      congr 1
      omega
  · rfl

/-! ## Places -/

section

variable {α : Type} [DecidableEq α]

def storeAt (memory : α → β) : List α → List β → α → β
  | a :: places, b :: values => storeAt (Function.update memory a b) places values
  | _, _ => memory

variable {memory : α → β} {places : List α} {values : List β} {a : α}

theorem storeAt_of_not_mem (outside : a ∉ places) : storeAt memory places values a = memory a := by
  induction places generalizing memory values with
  | nil => rfl
  | cons b places ih =>
    cases values with
    | nil => rfl
    | cons value values =>
      rw [storeAt, ih (List.not_mem_of_not_mem_cons outside)]
      exact Function.update_of_ne (List.ne_of_not_mem_cons outside) ..

theorem map_storeAt (nodup : places.Nodup) (room : values.length ≤ places.length) :
    (places.take values.length).map (storeAt memory places values) = values := by
  induction places generalizing memory values with
  | nil => simpa using room
  | cons b places ih =>
    cases values with
    | nil => rfl
    | cons value values =>
      obtain ⟨fresh, nodup⟩ := List.nodup_cons.mp nodup
      rw [List.length_cons, List.take_succ_cons, List.map_cons, storeAt, ih nodup (Nat.le_of_succ_le_succ room),
        storeAt_of_not_mem fresh, Function.update_self]

end

end HevTaskSystem.Foundation
