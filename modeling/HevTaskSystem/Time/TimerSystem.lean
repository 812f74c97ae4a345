import HevTaskSystem.Time.Timer

/-! The timer under the scheduler.

Tasks sleep, wait for other events, wake each other and leave; between two of them the
scheduler makes a pass that polls, checks the timer and chooses a running task. With a
poll interval a pass may skip its poll. Which task is chosen, what the polls report and
the clock are arbitrary; the clock never goes back.
-/

set_option autoImplicit false

namespace HevTaskSystem

open Foundation

/-- Where the thread is: outside of `hev_task_system_run`, in a schedule pass before and
after its poll, or in a task. -/
inductive SchedPhase where
  | caller
  | kernel
  | polled
  | task (t : Addr)
  deriving DecidableEq, Repr

/-- The inputs of a poll: the clock as read for the timeout, for the check and for the
next deadline, and the tasks of the reactor's events. -/
structure TimerPoll where
  timeout : Timespec
  events : List Addr
  wake : Timespec
  rearm : Timespec
  deriving DecidableEq, Repr

/-- The last three fields only record the run: the last clock reading, that of the last
check of the timer, and the tasks that have run since `cached_curr` was recorded. -/
structure TimerSystem where
  pool : TaskPool
  phase : SchedPhase
  timer : TaskTimer
  waits : Addr → Option TimerWait
  now : Timespec
  checked : Option Timespec
  ran : List Addr

inductive TimerOp where
  | start (t : Addr)
  | run
  | wakeup (t : Addr)
  | yield
  | wait
  | exit
  | sleep (milliseconds : Nat) (node : Addr) (clock : Timespec)
  | pollMaybe (clock : Timespec) (io : TimerPoll)
  | poll (io : TimerPoll)
  | switch (t : Addr) (clock : Timespec)
  | finish
  deriving DecidableEq, Repr

namespace TimerSystem

def leave (s : TimerSystem) (state : TaskState) : Option TimerSystem :=
  match s.phase with
  | .task t => some { s with pool := Function.update s.pool t (some state), phase := .kernel }
  | _ => none

/-- `hev_task_sleep` of the current task, up to its yield. -/
def taskSleep (fuel : Nat) (s : TimerSystem) (milliseconds : Nat) (node : Addr) (clock : Timespec) :
    Option TimerSystem :=
  if milliseconds = 0 then some s
  else
    match s.phase with
    | .task t => do
      let (timer, leftmost) ← s.timer.wait fuel milliseconds t node clock
      return { s with
        pool := s.pool.wait t
        phase := .kernel
        timer := timer
        waits := Function.update s.waits t (some ⟨node, milliseconds, leftmost, clock⟩)
        ran := [] }
    | _ => none

/-- The timeout that `hev_task_system_io_poll` gives to the reactor. -/
def pollTimeout (s : TimerSystem) (timeout : Int) (clock : Timespec) : Int × TaskTimer :=
  if timeout < 0 then s.timer.getTimeout clock else (timeout, s.timer)

def ioPoll (interval : Nat) (s : TimerSystem) (timeout : Int) (io : TimerPoll) : Option TimerSystem := do
  -- The timeout only bounds how long the reactor takes; what it reports is an input.
  let timer := (s.pollTimeout timeout io.timeout).2
  let pool ← io.events.foldlM TaskPool.wakeup s.pool
  let (timer, pool) ← timer.wake io.wake pool
  return { s with
    pool := pool
    phase := .polled
    timer := if interval > 0 then timer.pollRearm interval io.rearm else timer
    checked := if timer.first = 0 then s.checked else some io.wake }

def ioPollMaybe (interval : Nat) (s : TimerSystem) (clock : Timespec) (io : TimerPoll) : Option TimerSystem :=
  if interval > 0 ∧ s.timer.pollDue clock = false then some { s with phase := .polled }
  else s.ioPoll interval 0 io

def switch (fuel : Nat) (s : TimerSystem) (t : Addr) (clock : Timespec) : Option TimerSystem :=
  match s.waits t with
  | none => some { s with phase := .task t, ran := s.ran ++ [t] }
  | some w => do
    let (timer, pool, _) ← s.timer.waitReturn fuel w clock s.pool
    return { s with
      pool := pool
      phase := .task t
      timer := timer
      waits := Function.update s.waits t none
      checked := if s.timer.checks w then some clock else s.checked
      ran := s.ran ++ [t] }

def Active (s : TimerSystem) (t : Addr) : Prop := s.pool t = some .running ∨ s.pool t = some .waiting

/-- No task is running: `running_task_count` is zero. -/
def Idle (s : TimerSystem) : Prop := ∀ t, s.pool t ≠ some .running

/-- Some task is waiting: `running_task_count` is less than `total_task_count`. -/
def Waits (s : TimerSystem) : Prop := ∃ t, s.pool t = some .waiting

/-- The scheduler is at `hev_task_system_io_poll (ctx, -1)`. -/
def Blocks (s : TimerSystem) : Prop := s.Idle ∧ (s.phase = .kernel ∧ s.Waits ∨ s.phase = .polled)

end TimerSystem

namespace TimerOp

def readings : TimerOp → List Timespec
  | .sleep _ _ clock | .switch _ clock => [clock]
  | .pollMaybe clock io => [clock, io.timeout, io.wake, io.rearm]
  | .poll io => [io.timeout, io.wake, io.rearm]
  | _ => []

def act (interval fuel : Nat) (s : TimerSystem) : TimerOp → Option TimerSystem
  | .start t => some { s with pool := Function.update s.pool t (some .running) }
  | .run => some { s with phase := .kernel }
  | .wakeup t => do return { s with pool := ← s.pool.wakeup t }
  | .yield => s.leave .running
  | .wait => s.leave .waiting
  | .exit => s.leave .stopped
  | .sleep milliseconds node clock => s.taskSleep fuel milliseconds node clock
  | .pollMaybe clock io => s.ioPollMaybe interval clock io
  | .poll io => s.ioPoll interval (-1) io
  | .switch t clock => s.switch fuel t clock
  | .finish => some { s with phase := .caller }

def apply (interval fuel : Nat) (s : TimerSystem) (op : TimerOp) : Option TimerSystem :=
  op.act interval fuel { s with now := op.readings.getLastD s.now }

/-- What the callers, the branches of `hev_task_system_pick_current_task` and the reactor
guarantee. A node is a fresh aligned place on a stack. -/
def Enabled (s : TimerSystem) : TimerOp → Prop
  | .start t => (s.phase = .caller ∨ ∃ c, s.phase = .task c) ∧ t ≠ 0 ∧
      (s.pool t = none ∨ s.pool t = some .stopped)
  | .run => s.phase = .caller
  | .wakeup t => (s.phase = .caller ∨ ∃ c, s.phase = .task c) ∧ s.Active t
  | .yield | .wait | .exit => ∃ c, s.phase = .task c
  | .sleep milliseconds node _ =>
    (∃ c, s.phase = .task c) ∧ milliseconds < 2 ^ 32 ∧ RBTree.Op.Fresh node s.timer.sort.nodes
  | .pollMaybe _ io => s.phase = .kernel ∧ ¬ s.Idle ∧ s.Waits ∧ ∀ t ∈ io.events, s.Active t
  | .poll io => s.Blocks ∧ ∀ t ∈ io.events, s.Active t
  | .switch t _ => s.pool t = some .running ∧ (s.phase = .kernel ∧ ¬ s.Waits ∨ s.phase = .polled)
  | .finish => s.phase = .kernel ∧ s.Idle ∧ ¬ s.Waits

def Monotone (s : TimerSystem) (op : TimerOp) : Prop :=
  (∀ clock ∈ op.readings, clock.Normal) ∧ (s.now :: op.readings).Pairwise fun a b => a.ns ≤ b.ns

instance (s : TimerSystem) (op : TimerOp) : Decidable (op.Monotone s) := inferInstanceAs (Decidable (_ ∧ _))

end TimerOp

/-- From the context and the timer that `hev_task_system_init` makes. -/
def timerSystem (interval : Nat) : System TimerSystem TimerOp where
  init s := (∀ t, s.pool t = none) ∧ s.phase = .caller ∧ (keyedSystem timerLess).init s.timer.sort ∧
    s.timer.cachedCurrValid = false ∧ s.timer.pollDeadline = ⟨0, 0⟩ ∧ (∀ t, s.waits t = none) ∧
    s.now.Normal ∧ s.checked = none ∧ s.ran = []
  step s op next := op.Enabled s ∧ op.Monotone s ∧ ∃ fuel, op.apply interval fuel s = some next

section Runs

variable {interval : Nat} {ops : List TimerOp} {s : TimerSystem}

def TimerSystem.new : TimerSystem where
  pool _ := none
  phase := .caller
  timer := ⟨⟨⟨RBTree.blank, 0⟩, fun _ => ⟨0, 0⟩, []⟩, fun _ => 0, ⟨0, 0⟩, false, ⟨0, 0⟩⟩
  waits _ := none
  now := ⟨0, 0⟩
  checked := none
  ran := []

theorem timerSystem_new : (timerSystem interval).Run [] TimerSystem.new :=
  .init ⟨fun _ => rfl, rfl, ⟨rfl, rfl, rfl⟩, rfl, rfl, fun _ => rfl, by decide, rfl, rfl⟩

theorem timer_step (run : (timerSystem interval).Run ops s) (op : TimerOp) (enabled : op.Enabled s)
    (monotone : op.Monotone s) (fuel : Nat) (returns : (op.apply interval fuel s).isSome) :
    (timerSystem interval).Run (ops ++ [op]) ((op.apply interval fuel s).get returns) :=
  run.step ⟨enabled, monotone, fuel, (Option.some_get returns).symm⟩

end Runs

end HevTaskSystem
