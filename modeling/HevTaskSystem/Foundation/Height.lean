import Mathlib.Algebra.Group.Nat.Defs
import HevTaskSystem.Foundation.RedBlack

/-! Height of a red-black tree.

At most every other node on a path is red, and a tree with `n` black nodes on every path has
at least `2 ^ n - 1` labels. So a path is at most twice as long as the logarithm of the number
of labels, and this also bounds the depth of every hole.
-/

set_option autoImplicit false

namespace HevTaskSystem.Foundation.RedBlack

variable {α : Type}

namespace Tree

def height : Tree α → Nat
  | leaf => 0
  | node _ left _ right => max left.height right.height + 1

theorem height_left_lt (color : Color) (left : Tree α) (label : α) (right : Tree α) :
    left.height < (node color left label right).height :=
  Nat.lt_succ_of_le (Nat.le_max_left ..)

theorem height_right_lt (color : Color) (left : Tree α) (label : α) (right : Tree α) :
    right.height < (node color left label right).height :=
  Nat.lt_succ_of_le (Nat.le_max_right ..)

theorem height_le_length (t : Tree α) : t.height ≤ t.toList.length := by
  induction t with
  | leaf => exact Nat.le_refl 0
  | node color left label right ihl ihr =>
    simp only [height, toList, List.length_append, List.length_cons]
    omega

@[simp] theorem height_mirror (t : Tree α) : t.mirror.height = t.height := by
  induction t with
  | leaf => rfl
  | node color left label right ihl ihr => simp only [mirror, height, ihl, ihr, Nat.max_comm]

theorem Balanced.height_le {t : Tree α} {n : Nat} (balanced : t.Balanced n) :
    t.height ≤ 2 * n + if t.color = .red then 1 else 0 := by
  induction t generalizing n with
  | leaf => exact Nat.zero_le _
  | node color left label right ihl ihr =>
    cases color with
    | red =>
      obtain ⟨hl, hr, lb, rb⟩ := balanced
      have left := ihl hl
      have right := ihr hr
      rw [lb] at left
      rw [rb] at right
      simp only [reduceCtorEq, if_false] at left right
      simp only [height, color, if_true]
      omega
    | black =>
      obtain ⟨m, rfl, hl, hr⟩ := balanced
      have left := ihl hl
      have right := ihr hr
      simp only [height, color, reduceCtorEq, if_false]
      split_ifs at left right <;> omega

theorem Balanced.two_pow_le {t : Tree α} {n : Nat} (balanced : t.Balanced n) :
    2 ^ n ≤ t.toList.length + 1 := by
  induction t generalizing n with
  | leaf =>
    obtain rfl : n = 0 := balanced
    exact Nat.le_refl 1
  | node color left label right ihl ihr =>
    simp only [toList, List.length_append, List.length_cons]
    cases color with
    | red =>
      have left := ihl balanced.1
      omega
    | black =>
      obtain ⟨m, rfl, hl, hr⟩ := balanced
      have left := ihl hl
      have right := ihr hr
      rw [Nat.pow_succ]
      omega

/-- What the height of a red-black tree with `n` labels cannot exceed. -/
def maxHeight (n : Nat) : Nat := min n (2 * Nat.log2 (n + 1))

theorem maxHeight_le_log (n : Nat) : maxHeight n ≤ 2 * Nat.log2 (n + 1) := Nat.min_le_right ..

theorem maxHeight_le {n fuel : Nat} (bound : n ≤ fuel) : maxHeight n ≤ fuel :=
  Nat.le_trans (Nat.min_le_left ..) bound

theorem maxHeight_lt {n fuel : Nat} (bound : n < fuel) : maxHeight n < fuel :=
  Nat.lt_of_le_of_lt (Nat.min_le_left ..) bound

theorem Valid.height_le {t : Tree α} (valid : t.Valid) : t.height ≤ maxHeight t.toList.length := by
  obtain ⟨n, balanced⟩ := valid.balanced
  have height := balanced.height_le
  rw [valid.root_black] at height
  have log : n ≤ Nat.log2 (t.toList.length + 1) := (Nat.le_log2 (Nat.succ_ne_zero _)).mpr balanced.two_pow_le
  simp only [reduceCtorEq, if_false] at height
  exact Nat.le_min.mpr ⟨t.height_le_length, by omega⟩

end Tree

namespace Context

open HevTaskSystem.Foundation.RedBlack.Tree

theorem length_add_height_le (k : Context α) (t : Tree α) : k.length + t.height ≤ (fill k t).height := by
  induction k generalizing t with
  | nil => simp
  | cons f k ih =>
    have step := ih (build f.side f.color t f.label f.sibling)
    have grow : t.height < (build f.side f.color t f.label f.sibling).height := by
      cases f.side with
      | left => exact height_left_lt ..
      | right => exact height_right_lt ..
    rw [fill_cons, List.length_cons]
    omega

theorem length_le_maxHeight {k : Context α} {t : Tree α} (valid : (fill k t).Valid) :
    k.length ≤ maxHeight (fill k t).toList.length :=
  Nat.le_trans (Nat.le_add_right _ _) (Nat.le_trans (length_add_height_le k t) valid.height_le)

theorem Hole.length_lt_maxHeight {k : Context α} (hole : Hole k 1) :
    k.length < maxHeight ((fill k leaf).toList.length + 1) := by
  cases k with
  | nil => simp [maxHeight, Nat.log2_def]
  | cons f k =>
    -- Any label will do for the node in the hole.
    have balanced : (node .black leaf f.label leaf : Tree α).Balanced 1 := ⟨0, rfl, rfl, rfl⟩
    have valid := balanced_fill hole balanced (.inl rfl) fun _ => rfl
    have deep := length_add_height_le (f :: k) (node .black leaf f.label leaf)
    have high := valid.height_le
    have size : (fill (f :: k) (node .black leaf f.label leaf)).toList.length =
        (fill (f :: k) leaf).toList.length + 1 := by
      simp only [toList_fill, toList, List.length_append, List.length_cons, List.length_nil]
      omega
    rw [size] at high
    have one : (node .black leaf f.label leaf : Tree α).height = 1 := rfl
    omega

end Context

end HevTaskSystem.Foundation.RedBlack
