import HevTaskSystem.Channel.Channel
import HevTaskSystem.Io.Calls
import HevTaskSystem.Sync.Cond
import HevTaskSystem.Time.TimerInvariant

/-! Waits with a time limit.

`hev_task_cond_timedwait`, `hev_task_channel_select` and `hev_task_io_poll` sleep in a loop
for the milliseconds that the sleep before has left. A sleep rounds the rest up and counts
it from a new start, so a wakeup in between moves the deadline. It stays in place if the
task is woken a whole number of milliseconds after the start and sleeps on at once.
-/

set_option autoImplicit false

namespace HevTaskSystem

open Foundation

inductive TimedLoop where
  | condTimedwait
  | channelSelect
  | ioPoll
  deriving DecidableEq, Repr

namespace TimedLoop

/-- The condition of the loop. The wait is pending while the node of the condition variable
has its task, the list of the selector is empty, or `poll` has returned 0. -/
def again (milliseconds : Nat) (pending : Bool) : TimedLoop → Bool
  | .condTimedwait => milliseconds ≠ 0 && pending
  | .channelSelect => pending && milliseconds ≠ 0
  | .ioPoll => toInt milliseconds > 0 && pending

/-- The limits a caller can give: an `unsigned int`, or an `int` that is not negative. -/
def Accepts (budget : Nat) : TimedLoop → Prop
  | .condTimedwait => budget < 2 ^ 32
  | .channelSelect | .ioPoll => budget < 2 ^ 31

theorem again_condTimedwait {milliseconds : Nat} {pending : Bool} :
    condTimedwait.again milliseconds pending = true ↔ milliseconds ≠ 0 ∧ pending = true := by
  simp [again]

theorem again_channelSelect {milliseconds : Nat} {pending : Bool} :
    channelSelect.again milliseconds pending = true ↔ pending = true ∧ milliseconds ≠ 0 := by
  simp [again]

theorem again_iff {loop : TimedLoop} {budget milliseconds : Nat} (accepts : loop.Accepts budget)
    (within : milliseconds ≤ budget) : loop.again milliseconds true = true ↔ milliseconds ≠ 0 := by
  cases loop with
  | condTimedwait => simp [again_condTimedwait]
  | channelSelect => simp [again_channelSelect]
  | ioPoll =>
    have fits : budget < 2 ^ 31 := accepts
    simp only [again, toInt_of_lt (lt_of_le_of_lt within fits), Bool.and_true, decide_eq_true_eq]
    omega

end TimedLoop

/-- The test of the loop, or the sleep with its argument and the clock it started at. -/
inductive TimedCall where
  | testing (milliseconds : Nat)
  | sleeping (milliseconds : Nat) (start : Timespec)
  | ended
  deriving DecidableEq, Repr

/-- A wait that stays pending. Next to the call, the last clock reading, the first one and
that of the last return from a sleep are recorded. -/
structure TimedWait where
  call : TimedCall
  now : Timespec
  first : Option Timespec
  woken : Option Timespec
  deriving DecidableEq, Repr

inductive TimedOp where
  | sleep (clock : Timespec)
  | resume (clock : Timespec)
  | leave
  deriving DecidableEq, Repr

namespace TimedOp

def apply (loop : TimedLoop) (s : TimedWait) : TimedOp → Option TimedWait
  | .sleep clock =>
    match s.call with
    | .testing milliseconds =>
      if loop.again milliseconds true then
        some { s with call := .sleeping milliseconds clock, now := clock, first := some (s.first.getD clock) }
      else none
    | _ => none
  | .resume clock =>
    match s.call with
    | .sleeping milliseconds start =>
      some { s with
        call := .testing (clock.getTime (start.getExpire milliseconds))
        now := clock
        woken := some clock }
    | _ => none
  | .leave =>
    match s.call with
    | .testing milliseconds => if loop.again milliseconds true then none else some { s with call := .ended }
    | _ => none

def Monotone (s : TimedWait) : TimedOp → Prop
  | .sleep clock | .resume clock => clock.Normal ∧ s.now.ns ≤ clock.ns
  | .leave => True

/-- The task is woken early only at a whole number of milliseconds, and sleeps on at once. -/
def Aligned (s : TimedWait) : TimedOp → Prop
  | .sleep clock => ∀ woken, s.woken = some woken → clock = woken
  | .resume clock => ∀ milliseconds start, s.call = .sleeping milliseconds start →
      clock.ns < start.ns + milliseconds * 1000000 → (clock.ns - start.ns) % 1000000 = 0
  | .leave => True

end TimedOp

def timedSystem (loop : TimedLoop) (budget : Nat) : System TimedWait TimedOp where
  init s := loop.Accepts budget ∧ s.call = .testing budget ∧ s.first = none ∧ s.woken = none
  step s op next := op.Monotone s ∧ op.apply loop s = some next

/-! ## The loops of the models -/

theorem condTimedwaitLoop_again {s : SyncSystem} {t c m : Addr} {node : CondNode} (milliseconds : Nat)
    (found : s.condNode t = some node) :
    s.condTimedwaitLoop t c m milliseconds =
      if TimedLoop.condTimedwait.again milliseconds (node.task ≠ 0) then
        some ((s.setCall t (.timedwait c m milliseconds)).sleep t, .blocked)
      else s.lock t m (.timedwait c) := by
  simp only [SyncSystem.condTimedwaitLoop, found, Option.bind_eq_bind, Option.bind_some,
    TimedLoop.again_condTimedwait, decide_eq_true_eq, Option.pure_def]

theorem selectWait_again {s : ChannelSystem} {t self : Addr} {list : Readiness} {timeout : Int}
    (milliseconds : Nat) (known : s.derefSelect self = some ()) :
    s.selectWait t self list timeout milliseconds =
      if TimedLoop.channelSelect.again milliseconds (s.selectFirst self list = 0) then
        some ({ s.enter t (.select self list timeout milliseconds) with pool := s.pool.wait t }, .blocked)
      else some (s.leave t, .chan (s.selectFirst self list)) := by
  simp only [ChannelSystem.selectWait, known, Option.bind_eq_bind, Option.bind_some,
    TimedLoop.again_channelSelect, decide_eq_true_eq, Option.pure_def]
  rfl

/-- The time left is an `int` here; a sleep leaves no more than it was given. -/
theorem asked_again {left : Nat} (fits : left < 2 ^ 31) (res : Int) :
    PollPc.asked (some left) res =
      if TimedLoop.ioPoll.again left (res = 0) then .next (.sleep (some left) [] true) else .done res := by
  have goes : TimedLoop.ioPoll.again left (res = 0) = true ↔ res = 0 ∧ some left ≠ some 0 := by
    simp only [TimedLoop.again, toInt_of_lt fits, Bool.and_eq_true, decide_eq_true_eq, ne_eq, Option.some.injEq]
    omega
  simp only [PollPc.asked, goes]

theorem TimerSystem.Inv.sleep_left {s : TimerSystem} {t : Addr} {w : TimerWait} {clock : Timespec}
    {fuel left : Nat} {next : TaskTimer} {pool : TaskPool} (inv : s.Inv) (inside : s.waits t = some w)
    (run : s.timer.waitReturn fuel w clock s.pool = some (next, pool, left)) :
    left = clock.getTime (w.start.getExpire w.milliseconds) := by
  obtain ⟨_, _, _, rfl⟩ := TaskTimer.waitReturn_erase run
  rw [inv.linked.expire inside]

/-! ## The deadline -/

namespace TimedWait

def Expired (s : TimedWait) (budget : Nat) : Prop :=
  ∃ first woken, s.first = some first ∧ s.woken = some woken ∧ first.ns + budget * 1000000 ≤ woken.ns

def Punctual (s : TimedWait) (loop : TimedLoop) (budget : Nat) : Prop :=
  ∀ milliseconds, s.call = .testing milliseconds → s.Expired budget → loop.again milliseconds true = false

/-- The sleep ends at `ends`, in nanoseconds: not before the limit, and at it if `exact`. -/
def Due (budget : Nat) (exact : Prop) (first : Timespec) (ends : Int) : Prop :=
  first.ns + budget * 1000000 ≤ ends ∧ (exact → ends = first.ns + budget * 1000000)

/-- Where the wait stands. Between two sleeps the rest counts from the last reading. -/
def Inv (budget : Nat) (exact : Prop) (s : TimedWait) : Prop :=
  match s.call with
  | .testing milliseconds => milliseconds ≤ budget ∧
      (s.first = none ∧ s.woken = none ∧ milliseconds = budget ∨
        ∃ first woken, s.first = some first ∧ s.woken = some woken ∧ woken.ns ≤ s.now.ns ∧
          (milliseconds = 0 ∧ first.ns + budget * 1000000 ≤ woken.ns ∨
            Due budget exact first (woken.ns + milliseconds * 1000000) ∧ 0 < milliseconds))
  | .sleeping milliseconds start => milliseconds ≤ budget ∧ start.Normal ∧ start.ns ≤ s.now.ns ∧
      ∃ first, s.first = some first ∧ Due budget exact first (start.ns + milliseconds * 1000000)
  | .ended => True

variable {loop : TimedLoop} {budget milliseconds : Nat} {exact : Prop} {s next : TimedWait} {op : TimedOp}
  {ops : List TimedOp} {first start clock : Timespec}

theorem Due.resume (due : Due budget exact first (start.ns + milliseconds * 1000000))
    (aligned : exact → clock.ns < start.ns + milliseconds * 1000000 → (clock.ns - start.ns) % 1000000 = 0) :
    let left := clock.left (start.getExpire milliseconds)
    left = 0 ∧ first.ns + budget * 1000000 ≤ clock.ns ∨
      Due budget exact first (clock.ns + left * 1000000) ∧ 0 < left := by
  obtain ⟨later, same⟩ := due
  unfold Timespec.left
  rw [Timespec.ns_getExpire]
  by_cases past : start.ns + milliseconds * 1000000 ≤ clock.ns
  · refine .inl ⟨by omega, by omega⟩
  · refine .inr ⟨⟨by omega, fun holds => ?_⟩, by omega⟩
    have := aligned holds (not_le.mp past)
    have := same holds
    omega

theorem Inv.step (accepts : loop.Accepts budget) (inv : s.Inv budget exact)
    (aligned : exact → op.Aligned s) (step : (timedSystem loop budget).step s op next) : next.Inv budget exact := by
  obtain ⟨monotone, run⟩ := step
  cases op with
  | sleep clock =>
    obtain ⟨normal, later⟩ := monotone
    unfold TimedOp.apply at run
    dsimp only at run
    split at run
    · rename_i milliseconds call
      split at run
      · rename_i again
        cases run
        simp only [Inv, call] at inv
        obtain ⟨within, ⟨none, _, rfl⟩ | ⟨first, woken, known, last, past, rest⟩⟩ := inv
        · refine ⟨within, normal, le_refl _, clock, by simp [none], le_refl _, fun _ => rfl⟩
        · refine ⟨within, normal, le_refl _, first, by simp [known], ?_⟩
          obtain ⟨zero, _⟩ | ⟨⟨due, same⟩, _⟩ := rest
          · exact absurd zero ((TimedLoop.again_iff accepts within).mp again)
          · refine ⟨by omega, fun holds => ?_⟩
            rw [aligned holds woken last]
            exact same holds
      · cases run
    · cases run
  | resume clock =>
    obtain ⟨normal, later⟩ := monotone
    unfold TimedOp.apply at run
    dsimp only at run
    split at run
    · rename_i milliseconds start call
      cases run
      simp only [Inv, call] at inv
      obtain ⟨within, startNormal, past, first, known, due⟩ := inv
      have fits : budget < 2 ^ 32 := by
        cases loop <;> simp only [TimedLoop.Accepts] at accepts <;> omega
      have less : clock.left (start.getExpire milliseconds) ≤ milliseconds :=
        Timespec.left_getExpire_le (past.trans later)
      have rest : clock.getTime (start.getExpire milliseconds) = clock.left (start.getExpire milliseconds) := by
        rw [normal.getTime (startNormal.getExpire _), Nat.mod_eq_of_lt (by omega)]
      have after := due.resume fun holds early => aligned holds milliseconds start call early
      rw [← rest] at after less
      exact ⟨less.trans within, .inr ⟨first, clock, known, rfl, le_refl _, after⟩⟩
    · cases run
  | leave =>
    unfold TimedOp.apply at run
    dsimp only at run
    split at run
    · split at run
      · cases run
      · cases run
        trivial
    · cases run

theorem Inv.init (initial : (timedSystem loop budget).init s) : s.Inv budget exact := by
  obtain ⟨_, call, first, woken⟩ := initial
  simp only [Inv, call]
  exact ⟨le_refl _, .inl ⟨first, woken, trivial⟩⟩

theorem timedSystem_accepts (run : (timedSystem loop budget).Run ops s) : loop.Accepts budget := by
  induction run with
  | init initial => exact initial.1
  | step _ _ ih => exact ih

/-- A loop that ends while the wait is pending was given no time, or its limit has passed. -/
theorem not_early (run : (timedSystem loop budget).Run ops s) (call : s.call = .testing milliseconds)
    (stops : loop.again milliseconds true = false) : budget = 0 ∨ s.Expired budget := by
  have accepts := timedSystem_accepts run
  have inv : s.Inv budget False := run.invariant (Inv budget False) (fun _ => Inv.init) fun _ _ _ inv step =>
    inv.step accepts False.elim step
  simp only [Inv, call] at inv
  obtain ⟨within, rest⟩ := inv
  have none : milliseconds = 0 := by
    rw [← Bool.not_eq_true, TimedLoop.again_iff accepts within, not_not] at stops
    exact stops
  rcases rest with ⟨_, _, same⟩ | ⟨first, woken, started, returned, _, ⟨_, past⟩ | ⟨_, positive⟩⟩
  · exact .inl (same.symm.trans none)
  · exact .inr ⟨first, woken, started, returned, past⟩
  · rw [none] at positive
    exact absurd positive (lt_irrefl 0)

theorem not_early_poll : ∃ s, (timedSystem .ioPoll 1).Run [.sleep ⟨0, 0⟩, .resume ⟨0, 1000000⟩] s ∧ s.Expired 1 := by
  have start : (timedSystem .ioPoll 1).Run [] ⟨.testing 1, ⟨0, 0⟩, none, none⟩ :=
    .init ⟨show 1 < 2 ^ 31 by decide, rfl, rfl, rfl⟩
  have asleep : (timedSystem .ioPoll 1).Run [.sleep ⟨0, 0⟩] _ := start.step ⟨⟨by decide, by decide⟩, rfl⟩
  have resumed : (timedSystem .ioPoll 1).Run [_, .resume ⟨0, 1000000⟩] _ := asleep.step ⟨⟨by decide, by decide⟩, rfl⟩
  exact ⟨_, resumed, (not_early resumed rfl (by decide)).resolve_left (by decide)⟩

end TimedWait

open TimedWait

variable {loop : TimedLoop} {budget : Nat} {s : TimedWait} {ops : List TimedOp}

def alignedSystem (loop : TimedLoop) (budget : Nat) : System TimedWait TimedOp :=
  (timedSystem loop budget).restrict fun s op => op.Aligned s

/-- In every run of this kind, a loop that is resumed after its limit ends. -/
theorem timed_wait_punctual (run : (alignedSystem loop budget).Run ops s) : s.Punctual loop budget := by
  have accepts := timedSystem_accepts run.of_restrict
  have inv : s.Inv budget True := by
    refine run.invariant (TimedWait.Inv budget True) (fun s initial => ?_) ?_
    · exact @TimedWait.Inv.init loop budget True s initial
    · rintro s op next inv ⟨aligned, step⟩
      exact inv.step accepts (fun _ => aligned) step
  intro milliseconds call expired
  obtain ⟨first, woken, started, returned, past⟩ := expired
  simp only [TimedWait.Inv, call, started, returned] at inv
  obtain ⟨within, ⟨none, _⟩ | ⟨_, _, ⟨⟩, ⟨⟩, _, ⟨zero, _⟩ | ⟨⟨_, same⟩, positive⟩⟩⟩ := inv
  · cases none
  · rw [← Bool.not_eq_true, TimedLoop.again_iff accepts within, not_not]
    exact zero
  · have := same trivial
    omega

theorem aligned_step {next : TimedWait} (run : (alignedSystem loop budget).Run ops s) (op : TimedOp)
    (aligned : op.Aligned s) (monotone : op.Monotone s) (result : op.apply loop s = some next) :
    (alignedSystem loop budget).Run (ops ++ [op]) next :=
  run.step ⟨aligned, monotone, result⟩

/-- A limit of 5 ms and one wakeup after 2 ms. -/
theorem timed_wait_punctual_woken :
    ∃ ops s, (alignedSystem .condTimedwait 5).Run ops s ∧ s.Expired 5 ∧ s.call = .testing 0 ∧
      s.Punctual .condTimedwait 5 := by
  have accepts : TimedLoop.condTimedwait.Accepts 5 := show 5 < 2 ^ 32 by decide
  have run : (alignedSystem .condTimedwait 5).Run [] ⟨.testing 5, ⟨0, 0⟩, none, none⟩ :=
    .init ⟨accepts, rfl, rfl, rfl⟩
  have run := aligned_step run (.sleep ⟨0, 0⟩) (fun _ none => by cases none) ⟨by decide, by decide⟩ rfl
  have run := aligned_step run (.resume ⟨0, 2000000⟩) (by rintro _ _ ⟨⟩ _; decide) ⟨by decide, by decide⟩ rfl
  have run := aligned_step run (.sleep ⟨0, 2000000⟩) (by rintro _ ⟨⟩; rfl) ⟨by decide, by decide⟩ rfl
  have run := aligned_step run (.resume ⟨0, 5000000⟩) (by rintro _ _ ⟨⟩ _; decide) ⟨by decide, by decide⟩ rfl
  exact ⟨_, _, run, ⟨_, _, rfl, rfl, by decide⟩, by decide, timed_wait_punctual run⟩

def TimedLoop.Overslept (loop : TimedLoop) : Prop :=
  ∃ budget ops s milliseconds, (timedSystem loop budget).Run ops s ∧ s.Expired budget ∧
    s.call = .testing milliseconds ∧ loop.again milliseconds true = true

theorem overslept_of_accepts (accepts : loop.Accepts 2) (two : loop.again 2 true = true)
    (one : loop.again 1 true = true) : loop.Overslept := by
  have step : ∀ {s next : TimedWait} {ops} (op : TimedOp), (timedSystem loop 2).Run ops s → op.Monotone s →
      op.apply loop s = some next → (timedSystem loop 2).Run (ops ++ [op]) next :=
    fun op run monotone result => run.step ⟨monotone, result⟩
  have run : (timedSystem loop 2).Run [] ⟨.testing 2, ⟨0, 0⟩, none, none⟩ := .init ⟨accepts, rfl, rfl, rfl⟩
  have run := step (.sleep ⟨0, 0⟩) run ⟨by decide, by decide⟩ (if_pos two)
  have run := step (.resume ⟨0, 500000⟩) run ⟨by decide, by decide⟩ rfl
  have run := step (.sleep ⟨0, 500000⟩) run ⟨by decide, by decide⟩ (if_pos two)
  have run := step (.resume ⟨0, 2000000⟩) run ⟨by decide, by decide⟩ rfl
  exact ⟨2, _, _, 1, run, ⟨_, _, rfl, rfl, by decide⟩, rfl, one⟩

/-- A limit of 2 ms and a wakeup after 0.5 ms: the rest of 1.5 ms becomes a sleep of 2 ms. At
2 ms the task is woken again, has 1 ms left and sleeps on. -/
theorem timed_waits_oversleep :
    TimedLoop.condTimedwait.Overslept ∧ TimedLoop.channelSelect.Overslept ∧ TimedLoop.ioPoll.Overslept :=
  ⟨overslept_of_accepts (show 2 < 2 ^ 32 by decide) rfl rfl,
    overslept_of_accepts (show 2 < 2 ^ 31 by decide) rfl rfl,
    overslept_of_accepts (show 2 < 2 ^ 31 by decide) (by decide) (by decide)⟩

end HevTaskSystem
