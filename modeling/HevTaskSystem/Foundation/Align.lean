import Mathlib.Data.Nat.Bitwise

/-! Rounding unsigned words to a power of two by masks.

A word of `w` bits is rounded down by clearing its low bits and up by adding first, where the
sum may wrap.
-/

set_option autoImplicit false

namespace HevTaskSystem.Foundation

/-- `addr & ~(align - 1)` -/
def alignDown (w addr align : Nat) : Nat := addr &&& (2 ^ w - align)

/-- `(addr + align - 1) & ~(align - 1)` -/
def alignUp (w addr align : Nat) : Nat := alignDown w ((addr + align - 1) % 2 ^ w) align

variable {w k addr : Nat}

theorem alignDown_eq (word : addr < 2 ^ w) (fits : k ≤ w) : alignDown w addr (2 ^ k) = addr / 2 ^ k * 2 ^ k := by
  have mask : 2 ^ w - 2 ^ k = (2 ^ (w - k) - 1) * 2 ^ k := by
    rw [Nat.sub_mul, ← Nat.pow_add, Nat.sub_add_cancel fits, Nat.one_mul]
  rw [alignDown, mask]
  apply Nat.eq_of_testBit_eq
  intro i
  rw [Nat.testBit_and, Nat.testBit_mul_two_pow, Nat.testBit_mul_two_pow, Nat.testBit_div_two_pow,
    Nat.testBit_two_pow_sub_one]
  by_cases low : k ≤ i
  · by_cases high : i < w
    · simp [low, show i - k < w - k by omega]
    · have zero : addr.testBit i = false :=
        Nat.testBit_lt_two_pow (word.trans_le (Nat.pow_le_pow_right (by decide) (by omega)))
      simp [low, zero]
  · simp [low]

theorem alignDown_le (w addr align : Nat) : alignDown w addr align ≤ addr := Nat.and_le_left

/-- Rounding up loses nothing unless the sum wraps. -/
theorem le_alignUp (fits : k ≤ w) (room : addr + 2 ^ k ≤ 2 ^ w) : addr ≤ alignUp w addr (2 ^ k) := by
  have positive : 0 < 2 ^ k := Nat.two_pow_pos k
  have word : addr + 2 ^ k - 1 < 2 ^ w := by omega
  rw [alignUp, Nat.mod_eq_of_lt word, alignDown_eq word fits]
  have split := Nat.div_add_mod' (addr + 2 ^ k - 1) (2 ^ k)
  have rest := Nat.mod_lt (addr + 2 ^ k - 1) positive
  omega

end HevTaskSystem.Foundation
