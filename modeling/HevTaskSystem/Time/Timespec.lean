import Mathlib.Algebra.Group.Int.Defs
import Mathlib.Algebra.Group.Nat.Defs
import Mathlib.Data.Prod.Lex
import HevTaskSystem.RBTree.Memory

/-! Times as the kernel reports them, and the comparisons of the timer.

The timer sorts its nodes by expiry, then by address. Both comparisons of the
source return a sign; it is the sign of the lexicographic order.
-/

set_option autoImplicit false

namespace HevTaskSystem

structure Timespec where
  sec : Int
  nsec : Int
  deriving DecidableEq, Repr

def timerCmp (a b : Timespec) : Int :=
  if a.sec < b.sec then -1
  else if a.sec > b.sec then 1
  else if a.nsec < b.nsec then -1
  else if a.nsec > b.nsec then 1
  else 0

/-- `hev_task_timer_node_cmp` on the addresses and expiry times of two nodes. -/
def timerNodeCmp (a : Addr) (expire : Timespec) (b : Addr) (other : Timespec) : Int :=
  let res := timerCmp expire other
  if res ≠ 0 then res
  else if a < b then -1
  else if a > b then 1
  else 0

def timerKey (a : Addr) (expire : Timespec) : ℤ ×ₗ ℤ ×ₗ ℕ :=
  toLex (expire.sec, toLex (expire.nsec, a))

theorem timerCmp_neg {a b : Timespec} :
    timerCmp a b < 0 ↔ a.sec < b.sec ∨ (a.sec = b.sec ∧ a.nsec < b.nsec) := by
  unfold timerCmp
  split_ifs <;> omega

theorem timerCmp_zero {a b : Timespec} : timerCmp a b = 0 ↔ a.sec = b.sec ∧ a.nsec = b.nsec := by
  unfold timerCmp
  split_ifs <;> simp <;> omega

theorem timerNodeCmp_neg {a b : Addr} {expire other : Timespec} :
    timerNodeCmp a expire b other < 0 ↔ timerKey a expire < timerKey b other := by
  have order : timerKey a expire < timerKey b other ↔ timerCmp expire other < 0 ∨
      (timerCmp expire other = 0 ∧ a < b) := by
    rw [timerKey, timerKey, Prod.Lex.toLex_lt_toLex, Prod.Lex.toLex_lt_toLex, timerCmp_neg, timerCmp_zero]
    tauto
  rw [order]
  unfold timerNodeCmp
  by_cases equal : timerCmp expire other = 0
  · simp only [equal, ne_eq, not_true_eq_false, if_false, lt_irrefl, false_or, true_and]
    split_ifs with less greater
    · simp [less]
    · simp [less]
    · simp [less]
  · simp [equal]

end HevTaskSystem
