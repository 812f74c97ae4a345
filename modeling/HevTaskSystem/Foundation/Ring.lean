import Mathlib.Data.List.Nodup
import Mathlib.Data.List.Perm.Subperm
import Mathlib.Data.Nat.ModEq
import Mathlib.Tactic.Common

/-! A queue in a ring of slots.

The slots are numbered modulo the size of the ring; what it means that a slot holds
an element is a parameter, so that an element may be spread over several fields.
-/

set_option autoImplicit false

namespace HevTaskSystem.Foundation

variable {β : Type} {cell cell' : Nat → β → Prop} {size start : Nat} {queue : List β} {x : β}

/-- From the slot `start` on, the ring holds the elements of the queue. -/
def InRing (cell : Nat → β → Prop) (size start : Nat) (queue : List β) : Prop :=
  ∀ i x, queue[i]? = some x → cell ((start + i) % size) x

theorem ring_slot_ne {i j : Nat} (less : i < j) (bound : j < i + size) :
    (start + i) % size ≠ (start + j) % size := by
  intro same
  have congruent : start + i ≡ start + j [MOD size] := same
  have divides : size ∣ (start + j) - (start + i) := (Nat.modEq_iff_dvd' (by omega)).mp congruent
  have := Nat.le_of_dvd (by omega) divides
  omega

namespace InRing

theorem nil : InRing cell size start [] := by
  intro i x found
  simp at found

theorem congr (ring : InRing cell size start queue)
    (same : ∀ i x, i < queue.length → cell ((start + i) % size) x → cell' ((start + i) % size) x) :
    InRing cell' size start queue := by
  intro i x found
  have inside : i < queue.length := (List.getElem?_eq_some_iff.mp found).1
  exact same i x inside (ring i x found)

theorem push (ring : InRing cell size start queue) (room : queue.length < size)
    (same : ∀ slot x, x ∈ queue → slot ≠ (start + queue.length) % size → cell slot x → cell' slot x)
    (new : cell' ((start + queue.length) % size) x) : InRing cell' size start (queue ++ [x]) := by
  intro i y found
  rw [List.getElem?_append] at found
  split at found
  · rename_i old
    exact same _ y (List.mem_of_getElem? found) (ring_slot_ne old (by omega)) (ring i y found)
  · rename_i old
    have last : i = queue.length := by
      have := (List.getElem?_eq_some_iff.mp found).1
      simp only [List.length_singleton] at this
      omega
    subst last
    simp only [Nat.sub_self, List.getElem?_cons_zero, Option.some.injEq] at found
    rwa [← found]

theorem pop (ring : InRing cell size start (x :: queue)) : InRing cell size ((start + 1) % size) queue := by
  intro i y found
  have next := ring (i + 1) y (by simpa using found)
  rwa [Nat.mod_add_mod, Nat.add_right_comm start 1 i]

theorem first (ring : InRing cell size start (x :: queue)) : cell (start % size) x := by
  simpa using ring 0 x rfl

end InRing

/-! ## Stretches of slots -/

def ringSlots (size start count : Nat) : List Nat :=
  (List.range count).map fun i => (start + i) % size

variable {count more : Nat}

@[simp]
theorem length_ringSlots : (ringSlots size start count).length = count := by simp [ringSlots]

theorem ringSlots_mod : ringSlots size (start % size) count = ringSlots size start count := by
  simp [ringSlots]

theorem ringSlots_add :
    ringSlots size start (count + more) = ringSlots size start count ++ ringSlots size (start + count) more := by
  simp [ringSlots, List.range_add, Nat.add_assoc]

theorem take_ringSlots (bound : more ≤ count) :
    (ringSlots size start count).take more = ringSlots size start more := by
  obtain ⟨rest, rfl⟩ := Nat.exists_eq_add_of_le bound
  rw [ringSlots_add, List.take_left' length_ringSlots]

theorem drop_ringSlots (bound : more ≤ count) :
    (ringSlots size start count).drop more = ringSlots size ((start + more) % size) (count - more) := by
  obtain ⟨rest, rfl⟩ := Nat.exists_eq_add_of_le bound
  rw [ringSlots_add, List.drop_left' length_ringSlots, ringSlots_mod, Nat.add_sub_cancel_left]

theorem ringSlots_below (bound : start + count ≤ size) :
    ringSlots size start count = List.range' start count := by
  rw [ringSlots, List.range'_eq_map_range]
  refine List.map_congr_left fun i member => ?_
  exact Nat.mod_eq_of_lt (by have := List.mem_range.mp member; omega)

theorem ringSlots_across (inside : start ≤ size) (beyond : size ≤ start + count) (once : count ≤ size) :
    ringSlots size start count = List.range' start (size - start) ++ List.range' 0 (count - (size - start)) := by
  obtain ⟨rest, rfl⟩ := Nat.exists_eq_add_of_le (show size - start ≤ count by omega)
  have wrapped : ringSlots size size rest = ringSlots size 0 rest := by
    rw [← ringSlots_mod, Nat.mod_self]
  rw [ringSlots_add, ringSlots_below (by omega), show start + (size - start) = size by omega, wrapped,
    ringSlots_below (by omega), Nat.add_sub_cancel_left]

theorem ringSlots_nodup (once : count ≤ size) : (ringSlots size start count).Nodup := by
  refine List.Nodup.map_on (fun i left j right same => ?_) List.nodup_range
  have hi := List.mem_range.mp left
  have hj := List.mem_range.mp right
  rcases Nat.lt_trichotomy i j with less | equal | greater
  · exact absurd same (ring_slot_ne less (by omega))
  · exact equal
  · exact absurd same.symm (ring_slot_ne greater (by omega))

theorem ringSlots_perm : (ringSlots size start size).Perm (List.range size) := by
  refine (List.Nodup.subperm (ringSlots_nodup le_rfl) fun slot member => ?_).perm_of_length_le (by simp)
  obtain ⟨i, inside, rfl⟩ := List.mem_map.mp member
  exact List.mem_range.mpr (Nat.mod_lt _ (by have := List.mem_range.mp inside; omega))

end HevTaskSystem.Foundation
