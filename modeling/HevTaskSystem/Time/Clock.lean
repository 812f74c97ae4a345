import HevTaskSystem.Time.Timespec

/-! The arithmetic of the timer on clock readings.

A reading is a number of nanoseconds in two parts. On normal readings the comparison
is that of the nanoseconds, an expiry lies exactly the requested milliseconds ahead,
and the time left is the distance in milliseconds, rounded up.
-/

set_option autoImplicit false

namespace HevTaskSystem

/-- An `unsigned int` as an `int`. -/
def toInt (n : Nat) : Int := Int.bmod n (2 ^ 32)

theorem toInt_of_lt {n : Nat} (fits : n < 2 ^ 31) : toInt n = n :=
  Int.bmod_eq_of_le (by omega) (by omega)

theorem toInt_mod_eq_iff {n m : Nat} : toInt (n % 2 ^ 32) = m ↔ m < 2 ^ 31 ∧ n % 2 ^ 32 = m := by
  unfold toInt
  rw [Int.bmod_def]
  split <;> omega

namespace Timespec

def getExpire (expire : Timespec) (milliseconds : Nat) : Timespec :=
  let sec := expire.sec + (milliseconds / 1000 : Nat)
  let nsec := expire.nsec + (milliseconds % 1000 * 1000000 : Nat)
  if nsec ≥ 1000000000 then ⟨sec + 1, nsec - 1000000000⟩ else ⟨sec, nsec⟩

def addNs (ts : Timespec) (ns : Nat) : Timespec :=
  let sec := ts.sec + (ns / 1000000000 : Nat)
  let nsec := ts.nsec + (ns % 1000000000 : Nat)
  if nsec ≥ 1000000000 then ⟨sec + 1, nsec - 1000000000⟩ else ⟨sec, nsec⟩

/-- `hev_task_timer_get_time`; the result is an `unsigned int`. -/
def getTime (curr expire : Timespec) : Nat :=
  let sec := expire.sec - curr.sec
  let nsec := expire.nsec - curr.nsec
  let (sec, nsec) := if nsec < 0 then (sec - 1, nsec + 1000000000) else (sec, nsec)
  if sec < 0 then 0 else ((sec * 1000 + (nsec + 999999) / 1000000) % 2 ^ 32).toNat

/-! ## Nanoseconds -/

def ns (t : Timespec) : Int := t.sec * 1000000000 + t.nsec

/-- What `clock_gettime` returns: the nanoseconds are less than a second. -/
def Normal (t : Timespec) : Prop := 0 ≤ t.nsec ∧ t.nsec < 1000000000

instance (t : Timespec) : Decidable t.Normal := inferInstanceAs (Decidable (_ ∧ _))

variable {a b t : Timespec}

theorem Normal.cmp_neg (left : a.Normal) (right : b.Normal) : timerCmp a b < 0 ↔ a.ns < b.ns := by
  obtain ⟨_, _⟩ := left
  obtain ⟨_, _⟩ := right
  rw [timerCmp_neg]
  unfold ns
  omega

theorem Normal.cmp_pos (left : a.Normal) (right : b.Normal) : timerCmp a b > 0 ↔ b.ns < a.ns := by
  obtain ⟨_, _⟩ := left
  obtain ⟨_, _⟩ := right
  unfold timerCmp ns
  split_ifs <;> omega

theorem Normal.getExpire (normal : t.Normal) (milliseconds : Nat) : (t.getExpire milliseconds).Normal := by
  obtain ⟨_, _⟩ := normal
  unfold Timespec.getExpire Normal
  dsimp only
  split_ifs <;> dsimp only <;> omega

theorem ns_getExpire (milliseconds : Nat) :
    (t.getExpire milliseconds).ns = t.ns + milliseconds * 1000000 := by
  unfold Timespec.getExpire ns
  dsimp only
  split_ifs <;> dsimp only <;> omega

theorem Normal.addNs (normal : t.Normal) (interval : Nat) : (t.addNs interval).Normal := by
  obtain ⟨_, _⟩ := normal
  unfold Timespec.addNs Normal
  dsimp only
  split_ifs <;> dsimp only <;> omega

def left (curr expire : Timespec) : Nat := ((expire.ns - curr.ns + 999999) / 1000000).toNat

theorem Normal.getTime (now : a.Normal) (later : b.Normal) : a.getTime b = a.left b % 2 ^ 32 := by
  obtain ⟨_, _⟩ := now
  obtain ⟨_, _⟩ := later
  unfold Timespec.getTime left ns
  by_cases borrow : b.nsec - a.nsec < 0
  · simp only [if_pos borrow]
    split_ifs <;> omega
  · simp only [if_neg borrow]
    split_ifs <;> omega

theorem Normal.toInt_getTime (now : a.Normal) (later : b.Normal) (fits : a.left b < 2 ^ 31) :
    toInt (a.getTime b) = a.left b := by
  rw [now.getTime later, Nat.mod_eq_of_lt (by omega), toInt_of_lt fits]

theorem left_le_iff {milliseconds : Nat} : a.left b ≤ milliseconds ↔ b.ns ≤ a.ns + milliseconds * 1000000 := by
  unfold left
  omega

theorem left_getExpire_le {start : Timespec} {milliseconds : Nat} (later : start.ns ≤ t.ns) :
    t.left (start.getExpire milliseconds) ≤ milliseconds := by
  unfold left
  rw [ns_getExpire]
  omega

end Timespec

end HevTaskSystem
