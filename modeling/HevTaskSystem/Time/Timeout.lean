import HevTaskSystem.Time.Timer

/-! The timeout of a blocking poll, after any history of calls of the timer.

The tree holds the nodes of the waits that did not return yet. Its first node has the
earliest expiry, and `hev_task_timer_get_timeout` returns the distance to that expiry in
whole milliseconds, rounded up. It is measured from the timestamp of the last wait as long
as that is valid, and it is an `int`, so that a distance of 2^31 milliseconds or more
becomes negative. Apart from these two, the result is right.
-/

set_option autoImplicit false

namespace HevTaskSystem

open Foundation

/-- A timer and, for each node, the clock reading and the argument of the call of
`hev_task_timer_wait` that linked it. The calls do not read these two. -/
structure TimerHistory where
  timer : TaskTimer
  start : Addr → Timespec
  milliseconds : Addr → Nat

inductive TimerCall where
  | wait (milliseconds : Nat) (task node : Addr) (clock : Timespec)
  | waitReturn (w : TimerWait) (clock : Timespec) (pool : TaskPool)
  | getTimeout (clock : Timespec)
  | wake (clock : Timespec) (pool : TaskPool)
  | pollRearm (interval : Nat) (clock : Timespec)

namespace TimerCall

def apply (fuel : Nat) (h : TimerHistory) : TimerCall → Option TimerHistory
  | .wait milliseconds task node clock => do
    let (timer, _) ← h.timer.wait fuel milliseconds task node clock
    return ⟨timer, Function.update h.start node clock, Function.update h.milliseconds node milliseconds⟩
  | .waitReturn w clock pool => do
    let (timer, _, _) ← h.timer.waitReturn fuel w clock pool
    return { h with timer := timer }
  | .getTimeout clock => some { h with timer := (h.timer.getTimeout clock).2 }
  | .wake clock pool => do
    let (timer, _) ← h.timer.wake clock pool
    return { h with timer := timer }
  | .pollRearm interval clock => some { h with timer := h.timer.pollRearm interval clock }

/-- The argument of a wait is an `unsigned int`, its node a fresh aligned place on a stack. -/
def Ready (h : TimerHistory) : TimerCall → Prop
  | .wait milliseconds _ node clock =>
    milliseconds < 2 ^ 32 ∧ clock.Normal ∧ RBTree.Op.Fresh node h.timer.sort.nodes
  | .waitReturn w _ _ => w.node ∈ h.timer.sort.nodes
  | .getTimeout _ | .wake _ _ | .pollRearm _ _ => True

end TimerCall

/-- From a timer that `hev_task_timer_new` makes. -/
def timerCalls : System TimerHistory TimerCall where
  init h := (keyedSystem timerLess).init h.timer.sort ∧ h.timer.cachedCurrValid = false
  step h call next := call.Ready h ∧ ∃ fuel, call.apply fuel h = some next

def TimerHistory.new : TimerHistory where
  timer := ⟨⟨⟨RBTree.blank, 0⟩, fun _ => ⟨0, 0⟩, []⟩, fun _ => 0, ⟨0, 0⟩, false, ⟨0, 0⟩⟩
  start _ := ⟨0, 0⟩
  milliseconds _ := 0

theorem timerCalls_new : timerCalls.Run [] TimerHistory.new := .init ⟨⟨rfl, rfl, rfl⟩, rfl⟩

theorem timerCalls_step {calls : List TimerCall} {h : TimerHistory} (run : timerCalls.Run calls h) (call : TimerCall)
    (ready : call.Ready h) (fuel : Nat) (returns : (call.apply fuel h).isSome) :
    timerCalls.Run (calls ++ [call]) ((call.apply fuel h).get returns) :=
  run.step ⟨ready, fuel, (Option.some_get returns).symm⟩

namespace TimerHistory

/-- The time that `hev_task_timer_get_timeout` takes for the current one. -/
def base (h : TimerHistory) (clock : Timespec) : Timespec :=
  if h.timer.cachedCurrValid then h.timer.cachedCurr else clock

def Earliest (h : TimerHistory) (n : Addr) : Prop :=
  n ∈ h.timer.sort.nodes ∧ ∀ m ∈ h.timer.sort.nodes, (h.timer.sort.field n).ns ≤ (h.timer.sort.field m).ns

/-- Nodes are sorted by the expiry that their waits asked for. -/
structure Inv (h : TimerHistory) : Prop where
  sorted : h.timer.sort.Sorted timerKey
  expire : ∀ n ∈ h.timer.sort.nodes, h.timer.sort.field n = (h.start n).getExpire (h.milliseconds n)
  began : ∀ n ∈ h.timer.sort.nodes, (h.start n).Normal ∧ h.milliseconds n < 2 ^ 32
  cached : h.timer.cachedCurrValid = true → h.timer.cachedCurr.Normal

variable {h next : TimerHistory} {n : Addr}

theorem Inv.init (initial : timerCalls.init h) : h.Inv := by
  obtain ⟨empty, invalid⟩ := initial
  obtain ⟨holds, nodes⟩ := keyedSystem_empty empty
  refine ⟨⟨[], holds, by rw [nodes], .nil⟩, ?_, ?_, ?_⟩
  · simp [nodes]
  · simp [nodes]
  · simp [invalid]

theorem Inv.keep (inv : h.Inv) {timer : TaskTimer} (sort : timer.sort = h.timer.sort)
    (cached : timer.cachedCurrValid = true → h.timer.cachedCurrValid = true ∧ timer.cachedCurr = h.timer.cachedCurr) :
    Inv { h with timer := timer } := by
  refine ⟨?_, ?_, ?_, fun valid => ?_⟩
  · rw [sort]
    exact inv.sorted
  · rw [sort]
    exact inv.expire
  · rw [sort]
    exact inv.began
  · rw [(cached valid).2]
    exact inv.cached (cached valid).1

theorem Inv.wait (inv : h.Inv) {fuel milliseconds : Nat} {task node : Addr} {clock : Timespec} {timer : TaskTimer}
    {flag : Bool} (fits : milliseconds < 2 ^ 32) (normal : clock.Normal)
    (fresh : RBTree.Op.Fresh node h.timer.sort.nodes)
    (run : h.timer.wait fuel milliseconds task node clock = some (timer, flag)) :
    Inv ⟨timer, Function.update h.start node clock, Function.update h.milliseconds node milliseconds⟩ := by
  obtain ⟨field, nodes, _⟩ := TaskTimer.wait_fields run
  have shape := (TaskTimer.wait_insert run).2
  have old : ∀ n ∈ h.timer.sort.nodes, n ≠ node := fun n member same => fresh.2.2 (same ▸ member)
  have split : ∀ n ∈ timer.sort.nodes, n = node ∨ n ∈ h.timer.sort.nodes := by
    intro n member
    rw [nodes, List.mem_append, List.mem_singleton] at member
    exact member.symm
  refine ⟨TaskTimer.wait_sorted inv.sorted fresh run, fun n member => ?_, fun n member => ?_, fun _ => ?_⟩
  · dsimp only
    rcases split n member with rfl | before
    · rw [field, Function.update_self, Function.update_self, Function.update_self]
    · have apart := old n before
      rw [field, Function.update_of_ne apart, Function.update_of_ne apart, Function.update_of_ne apart]
      exact inv.expire n before
  · dsimp only
    rcases split n member with rfl | before
    · rw [Function.update_self, Function.update_self]
      exact ⟨normal, fits⟩
    · have apart := old n before
      rw [Function.update_of_ne apart, Function.update_of_ne apart]
      exact inv.began n before
  · dsimp only
    rw [shape]
    exact normal

theorem Inv.waitReturn (inv : h.Inv) {fuel : Nat} {w : TimerWait} {clock : Timespec} {pool after : TaskPool}
    {timer : TaskTimer} {result : Nat} (member : w.node ∈ h.timer.sort.nodes)
    (run : h.timer.waitReturn fuel w clock pool = some (timer, after, result)) : Inv { h with timer := timer } := by
  obtain ⟨field, nodes, _⟩ := TaskTimer.waitReturn_fields run
  have shape := (TaskTimer.waitReturn_erase run).2.1
  have old : ∀ n ∈ timer.sort.nodes, n ∈ h.timer.sort.nodes := by
    intro n inside
    rw [nodes] at inside
    exact List.mem_of_mem_erase inside
  refine ⟨TaskTimer.waitReturn_sorted inv.sorted member run, fun n inside => ?_, fun n inside => ?_, ?_⟩
  · rw [field]
    exact inv.expire n (old n inside)
  · exact inv.began n (old n inside)
  · rw [shape]
    exact inv.cached

theorem Inv.step (inv : h.Inv) {call : TimerCall} (step : timerCalls.step h call next) : next.Inv := by
  obtain ⟨ready, fuel, run⟩ := step
  cases call with
  | wait milliseconds task node clock =>
    obtain ⟨⟨timer, flag⟩, called, done⟩ := Option.bind_eq_some_iff.mp run
    cases done
    exact inv.wait ready.1 ready.2.1 ready.2.2 called
  | waitReturn w clock pool =>
    obtain ⟨⟨timer, after, result⟩, called, done⟩ := Option.bind_eq_some_iff.mp run
    cases done
    exact inv.waitReturn ready called
  | getTimeout clock =>
    cases run
    refine inv.keep ?_ ?_
    · unfold TaskTimer.getTimeout
      split_ifs <;> rfl
    · unfold TaskTimer.getTimeout
      split_ifs <;> simp_all
  | wake clock pool =>
    obtain ⟨⟨timer, after⟩, called, done⟩ := Option.bind_eq_some_iff.mp run
    cases done
    rw [(TaskTimer.wake_served called).1]
    exact inv.keep rfl (by simp)
  | pollRearm interval clock =>
    cases run
    exact inv.keep rfl fun valid => ⟨valid, rfl⟩

end TimerHistory

theorem timerCalls_inv {calls : List TimerCall} {h : TimerHistory} (run : timerCalls.Run calls h) : h.Inv :=
  run.invariant TimerHistory.Inv (fun _ => TimerHistory.Inv.init) fun _ _ _ inv step => inv.step step

namespace TimerHistory

variable {h : TimerHistory}

theorem Inv.normal (inv : h.Inv) {n : Addr} (member : n ∈ h.timer.sort.nodes) : (h.timer.sort.field n).Normal := by
  rw [inv.expire n member]
  exact (inv.began n member).1.getExpire _

theorem Inv.earliest (inv : h.Inv) (nonempty : h.timer.first ≠ 0) : h.Earliest h.timer.first := by
  have member := TaskTimer.first_mem inv.sorted nonempty
  refine ⟨member, fun m other => ?_⟩
  exact TaskTimer.timerKey_ns (inv.normal member) (inv.normal other) (TaskTimer.first_le inv.sorted other)

theorem getTimeout_eq (h : TimerHistory) (clock : Timespec) (nonempty : h.timer.first ≠ 0) :
    (h.timer.getTimeout clock).1 = toInt ((h.base clock).getTime h.timer.firstExpire) := by
  rw [TaskTimer.getTimeout, if_neg nonempty, base]
  by_cases valid : h.timer.cachedCurrValid = true
  · rw [if_pos valid, if_pos valid]
  · rw [if_neg valid, if_neg valid]

/-- The result of `hev_task_timer_get_timeout` is right for the current time. -/
structure Awaits (h : TimerHistory) (current : Timespec) (timeout : Int) : Prop where
  empty : timeout = -1 ↔ h.timer.sort.nodes = []
  finite : h.timer.sort.nodes ≠ [] → 0 ≤ timeout
  reaches : ∀ n, h.Earliest n → (h.timer.sort.field n).ns ≤ current.ns + timeout * 1000000
  least : ∀ n, h.Earliest n → ∀ other : Nat, (h.timer.sort.field n).ns ≤ current.ns + other * 1000000 →
    timeout ≤ other
  expired : ∀ n, h.Earliest n → (h.timer.sort.field n).ns ≤ current.ns → timeout = 0

/-- What is needed for it: from the current time on, and by the timestamp that the function
takes for it, the earliest expiry is the same number of milliseconds ahead, which is an `int`. -/
def Timely (h : TimerHistory) (current : Timespec) : Prop :=
  ∀ n, h.Earliest n → current.left (h.timer.sort.field n) < 2 ^ 31 ∧
    (h.base current).left (h.timer.sort.field n) % 2 ^ 32 = current.left (h.timer.sort.field n)

theorem Inv.base_normal (inv : h.Inv) {clock : Timespec} (normal : clock.Normal) : (h.base clock).Normal := by
  rw [base]
  split_ifs with valid
  · exact inv.cached valid
  · exact normal

/-- Nodes with the earliest expiry expire with the first one. -/
theorem Inv.left_earliest (inv : h.Inv) (nonempty : h.timer.first ≠ 0) {n : Addr} (earliest : h.Earliest n)
    (current : Timespec) : current.left (h.timer.sort.field n) = current.left h.timer.firstExpire := by
  have first := inv.earliest nonempty
  have same : (h.timer.sort.field n).ns = h.timer.firstExpire.ns :=
    le_antisymm (earliest.2 _ first.1) (first.2 _ earliest.1)
  rw [Timespec.left, Timespec.left, same]

/-- With a timer in the tree, one value is right. -/
theorem Inv.awaits_iff (inv : h.Inv) (nonempty : h.timer.first ≠ 0) {current : Timespec} {timeout : Int} :
    h.Awaits current timeout ↔ timeout = current.left h.timer.firstExpire := by
  have nodes : h.timer.sort.nodes ≠ [] := mt (TaskTimer.first_eq_zero inv.sorted).mpr nonempty
  constructor
  · intro awaits
    have first := inv.earliest nonempty
    obtain ⟨value, rfl⟩ := Int.eq_ofNat_of_zero_le (awaits.finite nodes)
    have enough := awaits.least _ first (current.left h.timer.firstExpire) (Timespec.left_le_iff.mp (Nat.le_refl _))
    have needed := Timespec.left_le_iff.mpr (awaits.reaches _ first)
    exact congrArg Int.ofNat (Nat.le_antisymm (Int.ofNat_le.mp enough) needed)
  · rintro rfl
    have least : ∀ n, h.Earliest n → ∀ other : Nat,
        (h.timer.sort.field n).ns ≤ current.ns + other * 1000000 ↔ current.left h.timer.firstExpire ≤ other := by
      intro n earliest other
      rw [← inv.left_earliest nonempty earliest, Timespec.left_le_iff]
    refine ⟨?_, fun _ => Int.natCast_nonneg _, ?_, ?_, ?_⟩
    · simp only [nodes, iff_false]
      omega
    · exact fun n earliest => (least n earliest _).mpr (Nat.le_refl _)
    · exact fun n earliest other enough => Int.ofNat_le.mpr ((least n earliest other).mp enough)
    · intro n earliest passed
      have zero := (least n earliest 0).mp (by simpa using passed)
      omega

theorem Inv.awaits_empty (inv : h.Inv) (empty : h.timer.first = 0) (current : Timespec) :
    h.Awaits current (-1) ∧ h.Timely current := by
  have nodes := (TaskTimer.first_eq_zero inv.sorted).mp empty
  have none : ∀ n, ¬ h.Earliest n := fun n earliest => by simp [Earliest, nodes] at earliest
  refine ⟨⟨by simp [nodes], fun nonempty => absurd nodes nonempty, ?_, ?_, ?_⟩, ?_⟩
  · exact fun n earliest => absurd earliest (none n)
  · exact fun n earliest => absurd earliest (none n)
  · exact fun n earliest => absurd earliest (none n)
  · exact fun n earliest => absurd earliest (none n)

theorem Inv.timely_iff (inv : h.Inv) (nonempty : h.timer.first ≠ 0) {current : Timespec} :
    h.Timely current ↔ current.left h.timer.firstExpire < 2 ^ 31 ∧
      (h.base current).left h.timer.firstExpire % 2 ^ 32 = current.left h.timer.firstExpire := by
  constructor
  · exact fun timely => timely _ (inv.earliest nonempty)
  · intro first n earliest
    rw [inv.left_earliest nonempty earliest, inv.left_earliest nonempty earliest]
    exact first

end TimerHistory

/-- After any calls of the timer and for every current time, the timeout is right exactly if the
earliest expiry is less than 2^31 milliseconds ahead and as many milliseconds ahead of the
timestamp of the last wait, while that is valid. -/
theorem poll_timeout_sound {calls : List TimerCall} {h : TimerHistory} (run : timerCalls.Run calls h)
    (current : Timespec) (normal : current.Normal) :
    h.Awaits current (h.timer.getTimeout current).1 ↔ h.Timely current := by
  have inv := timerCalls_inv run
  by_cases empty : h.timer.first = 0
  · obtain ⟨awaits, timely⟩ := inv.awaits_empty empty current
    have value : (h.timer.getTimeout current).1 = -1 := by rw [TaskTimer.getTimeout, if_pos empty]
    rw [value]
    exact iff_of_true awaits timely
  · have expire : h.timer.firstExpire.Normal := inv.normal (inv.earliest empty).1
    rw [inv.awaits_iff empty, inv.timely_iff empty, TimerHistory.getTimeout_eq h current empty,
      (inv.base_normal normal).getTime expire, toInt_mod_eq_iff]

/-- Two waits for 20 and 10 milliseconds; the timeout is that of the second. -/
theorem poll_timeout_sound_pair : ∃ calls h, timerCalls.Run calls h ∧ (h.timer.getTimeout ⟨0, 0⟩).1 = 10 ∧
    h.Awaits ⟨0, 0⟩ (h.timer.getTimeout ⟨0, 0⟩).1 := by
  have run := timerCalls_new
  have run := timerCalls_step run (.wait 20 4 64 ⟨0, 0⟩)
    ⟨by decide, by decide, by decide, by decide, by decide⟩ 2 rfl
  have run := timerCalls_step run (.wait 10 8 128 ⟨0, 0⟩)
    ⟨by decide, by decide, by decide, by decide, by decide⟩ 3 rfl
  refine ⟨_, _, run, by decide, (poll_timeout_sound run ⟨0, 0⟩ (by decide)).mpr ?_⟩
  exact ((timerCalls_inv run).timely_iff (by decide)).mpr (by decide)

/-- A wait for 2^31 milliseconds gives a negative timeout, one for 2^32 - 1 milliseconds the
timeout of an empty tree. A timestamp of ten milliseconds ago gives one that is too long. -/
theorem poll_timeout_wraps :
    (∃ calls h, timerCalls.Run calls h ∧ h.timer.sort.nodes = [64] ∧ h.start 64 = ⟨0, 0⟩ ∧
      (h.timer.getTimeout ⟨0, 0⟩).1 = -2147483648) ∧
    (∃ calls h, timerCalls.Run calls h ∧ h.timer.sort.nodes = [64] ∧ h.start 64 = ⟨0, 0⟩ ∧
      (h.timer.getTimeout ⟨0, 0⟩).1 = -1) ∧
    ∃ calls h, timerCalls.Run calls h ∧ h.timer.sort.nodes = [64] ∧ h.start 64 = ⟨0, 0⟩ ∧
      (h.timer.getTimeout ⟨0, 10000000⟩).1 = 20 ∧
      (h.timer.sort.field 64).ns ≤ (⟨0, 10000000⟩ : Timespec).ns + 10 * 1000000 := by
  refine ⟨?_, ?_, ?_⟩
  · have run := timerCalls_step timerCalls_new (.wait 2147483648 4 64 ⟨0, 0⟩)
      ⟨by omega, by decide, by decide, by decide, by decide⟩ 2 rfl
    exact ⟨_, _, run, rfl, rfl, by decide⟩
  · have run := timerCalls_step timerCalls_new (.wait 4294967295 4 64 ⟨0, 0⟩)
      ⟨by omega, by decide, by decide, by decide, by decide⟩ 2 rfl
    exact ⟨_, _, run, rfl, rfl, by decide⟩
  · have run := timerCalls_step timerCalls_new (.wait 20 4 64 ⟨0, 0⟩)
      ⟨by omega, by decide, by decide, by decide, by decide⟩ 2 rfl
    exact ⟨_, _, run, rfl, rfl, by decide, by decide⟩

end HevTaskSystem
