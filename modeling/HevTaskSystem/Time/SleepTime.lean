import HevTaskSystem.Time.Timeout

/-! The arithmetic of a sleep in the types of the source.

`time_t` and `long` have 64 bits, and an overflow in them is undefined; products of the
milliseconds are `unsigned int`. As long as the expiry itself fits a `time_t`, and the clock
does not start below zero, no intermediate value overflows, and the results are those of
`Timespec.getExpire` and `Timespec.getTime`.
-/

set_option autoImplicit false

namespace HevTaskSystem

open Foundation

def int64 (n : Int) : Option Int := if -2 ^ 63 ≤ n ∧ n < 2 ^ 63 then some n else none

theorem int64_eq {n : Int} (low : -2 ^ 63 ≤ n) (high : n < 2 ^ 63) : int64 n = some n := if_pos ⟨low, high⟩

namespace Timespec

def getExpire64 (expire : Timespec) (milliseconds : Nat) : Option Timespec := do
  let sec ← int64 (expire.sec + (milliseconds / 1000 : Nat))
  let nsec ← int64 (expire.nsec + (milliseconds % 1000 * 1000000 % 2 ^ 32 : Nat))
  if nsec ≥ 1000000000 then
    return ⟨← int64 (sec + 1), ← int64 (nsec - 1000000000)⟩
  else
    return ⟨sec, nsec⟩

def getTime64 (curr expire : Timespec) : Option Nat := do
  let sec ← int64 (expire.sec - curr.sec)
  let nsec ← int64 (expire.nsec - curr.nsec)
  let (sec, nsec) ←
    if nsec < 0 then do
      let sec ← int64 (sec - 1)
      let nsec ← int64 (nsec + 1000000000)
      pure (sec, nsec)
    else
      pure (sec, nsec)
  if sec < 0 then
    return 0
  else
    let whole ← int64 (sec * 1000)
    let part ← int64 (nsec + 999999)
    let time ← int64 (whole + part / 1000000)
    return (time % 2 ^ 32).toNat

variable {start resume expire : Timespec} {milliseconds : Nat}

theorem Normal.getExpire64 (normal : start.Normal) (low : -2 ^ 63 ≤ start.sec)
    (high : (start.getExpire milliseconds).sec < 2 ^ 63) :
    start.getExpire64 milliseconds = some (start.getExpire milliseconds) := by
  obtain ⟨nonneg, less⟩ := normal
  have product : milliseconds % 1000 * 1000000 % 2 ^ 32 = milliseconds % 1000 * 1000000 := by omega
  unfold Timespec.getExpire at high ⊢
  rw [Timespec.getExpire64, product]
  dsimp only at high ⊢
  by_cases carry : start.nsec + (milliseconds % 1000 * 1000000 : Nat) ≥ 1000000000
  · rw [if_pos carry] at high ⊢
    dsimp only at high
    simp (disch := omega) only [int64_eq, Option.bind_eq_bind, Option.bind_some, if_pos carry, Option.pure_def]
  · rw [if_neg carry] at high ⊢
    dsimp only at high
    simp (disch := omega) only [int64_eq, Option.bind_eq_bind, Option.bind_some, if_neg carry, Option.pure_def]

theorem milliseconds64 {sec nsec : Int} (nonneg : 0 ≤ sec) (few : sec < 2 ^ 32) (positive : 0 ≤ nsec)
    (less : nsec < 1000000000) :
    ((int64 (sec * 1000)).bind fun whole => (int64 (nsec + 999999)).bind fun part =>
      (int64 (whole + part / 1000000)).bind fun time => some (time % 2 ^ 32).toNat) =
        some ((sec * 1000 + (nsec + 999999) / 1000000) % 2 ^ 32).toNat := by
  have whole := @int64_eq (sec * 1000) (by omega) (by omega)
  have part := @int64_eq (nsec + 999999) (by omega) (by omega)
  have time := @int64_eq (sec * 1000 + (nsec + 999999) / 1000000) (by omega) (by omega)
  simp only [whole, part, time, Option.bind_some]

/-- Between readings above zero no subtraction overflows, and if the time left fits an
`unsigned int`, neither do the milliseconds. -/
theorem Normal.getTime64 (now : resume.Normal) (normal : expire.Normal) (nonneg : 0 ≤ resume.sec)
    (nonneg' : 0 ≤ expire.sec) (high : resume.sec < 2 ^ 63) (high' : expire.sec < 2 ^ 63)
    (near : resume.left expire < 2 ^ 32) : resume.getTime64 expire = some (resume.getTime expire) := by
  obtain ⟨_, _⟩ := now
  obtain ⟨_, _⟩ := normal
  -- All that is needed of the time left is that its seconds are few.
  have few : expire.sec - resume.sec < 2 ^ 32 := by
    unfold left ns at near
    omega
  clear near
  have seconds := @int64_eq (expire.sec - resume.sec) (by omega) (by omega)
  have nanoseconds := @int64_eq (expire.nsec - resume.nsec) (by omega) (by omega)
  simp only [Timespec.getTime64, Timespec.getTime, seconds, nanoseconds, Option.bind_eq_bind, Option.bind_some]
  by_cases borrow : expire.nsec - resume.nsec < 0
  · have seconds := @int64_eq (expire.sec - resume.sec - 1) (by omega) (by omega)
    have nanoseconds := @int64_eq (expire.nsec - resume.nsec + 1000000000) (by omega) (by omega)
    simp only [if_pos borrow, seconds, nanoseconds, Option.bind_some, Option.pure_def]
    by_cases past : expire.sec - resume.sec - 1 < 0
    · rw [if_pos past, if_pos past]
    · rw [if_neg past, if_neg past]
      exact milliseconds64 (by omega) (by omega) (by omega) (by omega)
  · simp only [if_neg borrow, Option.bind_some, Option.pure_def]
    by_cases past : expire.sec - resume.sec < 0
    · rw [if_pos past, if_pos past]
    · rw [if_neg past, if_neg past]
      exact milliseconds64 (by omega) (by omega) (by omega) (by omega)

/-- The value that a sleep returns: zero once the time has passed, and before that the time
that is left in whole milliseconds, rounded up. -/
structure Remains (start : Timespec) (milliseconds : Nat) (resume : Timespec) (result : Nat) : Prop where
  zero : result = 0 ↔ (milliseconds * 1000000 : Int) ≤ resume.ns - start.ns
  bound : result ≤ milliseconds
  up : start.ns + milliseconds * 1000000 - resume.ns ≤ result * 1000000
  least : result ≠ 0 → (result - 1 : Int) * 1000000 < start.ns + milliseconds * 1000000 - resume.ns

theorem remains_left (later : start.ns ≤ resume.ns) :
    Remains start milliseconds resume (resume.left (start.getExpire milliseconds)) := by
  have value : resume.left (start.getExpire milliseconds) =
      ((start.ns + milliseconds * 1000000 - resume.ns + 999999) / 1000000).toNat := by
    rw [left, ns_getExpire]
  rw [value]
  constructor <;> omega

structure Ordered (a b : Timespec) : Prop where
  less : timerCmp a b < 0 ↔ a.ns < b.ns
  equal : timerCmp a b = 0 ↔ a.ns = b.ns
  greater : timerCmp a b > 0 ↔ a.ns > b.ns

theorem Normal.ordered {a b : Timespec} (left : a.Normal) (right : b.Normal) : Ordered a b := by
  have less := left.cmp_neg right
  have greater := left.cmp_pos right
  refine ⟨less, ?_, greater⟩
  omega

theorem Normal.sec_nonneg {t : Timespec} (normal : t.Normal) (nonneg : 0 ≤ t.ns) : 0 ≤ t.sec := by
  obtain ⟨_, _⟩ := normal
  unfold ns at nonneg
  omega

end Timespec

namespace TimerHistory

variable {h : TimerHistory} {fuel result : Nat} {w : TimerWait} {resume : Timespec} {pool after : TaskPool}
  {timer : TaskTimer}

theorem Inv.waitReturn_result (inv : h.Inv) (inside : w.node ∈ h.timer.sort.nodes)
    (run : h.timer.waitReturn fuel w resume pool = some (timer, after, result)) :
    result = resume.getTime ((h.start w.node).getExpire (h.milliseconds w.node)) := by
  rw [(TaskTimer.waitReturn_erase run).2.2.2, inv.expire _ inside]

end TimerHistory

/-- For a normal start that is not negative, such that the expiry fits a `time_t`, and any
later normal clock: the expiry is computed without overflow and exact, the comparison orders
normal times as their nanoseconds, and a wait that began at the start, after any calls of the
timer, returns while the tasks of the tree are running or waiting, and its result, also
without overflow, is the time left rounded up to whole milliseconds. -/
theorem sleep_arithmetic (start resume : Timespec) (milliseconds : Nat) (fits : milliseconds < 2 ^ 32)
    (normal : start.Normal) (normal' : resume.Normal) (later : start.ns ≤ resume.ns) (nonneg : 0 ≤ start.sec)
    (expiry : (start.getExpire milliseconds).sec < 2 ^ 63) (reading : resume.sec < 2 ^ 63) :
    (∃ expire, start.getExpire64 milliseconds = some expire ∧ expire.Normal ∧
      expire.ns = start.ns + milliseconds * 1000000 ∧
      ∀ calls h, timerCalls.Run calls h → ∀ w : TimerWait, w.node ∈ h.timer.sort.nodes →
        h.start w.node = start → h.milliseconds w.node = milliseconds → ∀ (fuel : Nat) (pool : TaskPool),
        ((∀ n ∈ h.timer.sort.nodes,
            pool (h.timer.task n) = some .running ∨ pool (h.timer.task n) = some .waiting) →
          h.timer.sort.nodes.length < fuel →
            ∃ timer after result, h.timer.waitReturn fuel w resume pool = some (timer, after, result)) ∧
        ∀ timer after result, h.timer.waitReturn fuel w resume pool = some (timer, after, result) →
          resume.getTime64 expire = some result ∧ Timespec.Remains start milliseconds resume result) ∧
    ∀ a b : Timespec, a.Normal → b.Normal → Timespec.Ordered a b := by
  refine ⟨⟨start.getExpire milliseconds, ?_, normal.getExpire _, Timespec.ns_getExpire _, ?_⟩, ?_⟩
  · exact normal.getExpire64 (by omega) expiry
  · intro calls h run w inside began asked fuel pool
    have inv := timerCalls_inv run
    refine ⟨fun active bound => TaskTimer.waitReturn_returns inv.sorted inside active bound, ?_⟩
    intro timer after result returned
    have value := inv.waitReturn_result inside returned
    rw [began, asked] at value
    have short : resume.left (start.getExpire milliseconds) < 2 ^ 32 :=
      Nat.lt_of_le_of_lt (Timespec.left_getExpire_le later) fits
    have positive : 0 ≤ start.ns := by
      have := normal.1
      unfold Timespec.ns
      omega
    have seconds : 0 ≤ resume.sec := normal'.sec_nonneg (positive.trans later)
    have seconds' : 0 ≤ (start.getExpire milliseconds).sec := by
      apply (normal.getExpire milliseconds).sec_nonneg
      rw [Timespec.ns_getExpire]
      omega
    have exact64 := normal'.getTime64 (normal.getExpire milliseconds) seconds seconds' reading expiry short
    rw [← value] at exact64
    refine ⟨exact64, ?_⟩
    rw [value, normal'.getTime (normal.getExpire _), Nat.mod_eq_of_lt short]
    exact Timespec.remains_left later
  · exact fun a b left right => left.ordered right

/-- A sleep of 1500 milliseconds from 1.7 seconds on, resumed after 700.3 milliseconds. -/
theorem sleep_arithmetic_early : ∃ calls h timer after,
    timerCalls.Run calls h ∧
      h.timer.waitReturn 4 ⟨64, 1500, true, ⟨1, 700000000⟩⟩ ⟨2, 400300000⟩ (fun _ => none) =
        some (timer, after, 800) ∧
      Timespec.Remains ⟨1, 700000000⟩ 1500 ⟨2, 400300000⟩ 800 := by
  have run := timerCalls_step timerCalls_new (.wait 1500 4 64 ⟨1, 700000000⟩)
    ⟨by decide, by decide, by decide, by decide, by decide⟩ 2 rfl
  obtain ⟨⟨expire, _, _, _, waits⟩, _⟩ := sleep_arithmetic ⟨1, 700000000⟩ ⟨2, 400300000⟩ 1500 (by decide) (by decide)
    (by decide) (by decide) (by decide) (by decide) (by decide)
  have result := waits _ _ run ⟨64, 1500, true, ⟨1, 700000000⟩⟩ (by decide) rfl rfl 4 fun _ => none
  exact ⟨_, _, _, _, run, rfl, (result.2 _ _ 800 rfl).2⟩

/-- From the last second of a `time_t` an expiry overflows, and so does the distance from the
first second to the last. -/
theorem sleep_arithmetic_overflows :
    (⟨2 ^ 63 - 1, 0⟩ : Timespec).Normal ∧ (⟨2 ^ 63 - 1, 0⟩ : Timespec).getExpire64 1000 = none ∧
      (⟨-2 ^ 63, 0⟩ : Timespec).getExpire64 1000 = some ⟨-2 ^ 63 + 1, 0⟩ ∧
      (⟨2 ^ 63 - 1, 0⟩ : Timespec).getTime64 ⟨-2 ^ 63 + 1, 0⟩ = none := by
  decide

end HevTaskSystem
