import HevTaskSystem.Scheduler.Fairness

/-! What an operation does before the next task is chosen, and what the polls of that choice
and whole steps leave of the tasks: a running task that is not current keeps its key, and a
waiting one keeps the key that is its priority, until that is set.
-/

set_option autoImplicit false

namespace HevTaskSystem

open Foundation

namespace SchedOp

def before (fuel : Nat) (ctx : SystemContext) : SchedOp → Option SystemContext
  | .yield type now _ _ => do
    let ctx ← ctx.updateSchedKey now
    match type with
    | .yield => ctx.reinsertCurrentTask fuel
    | .waitio => ctx.removeCurrentTask fuel .waiting
  | .exit _ _ => ctx.removeCurrentTask fuel .stopped
  | .systemRun _ _ => some ctx
  | _ => none

def polls : SchedOp → List (List Addr)
  | .yield _ _ polls _ | .exit polls _ | .systemRun polls _ => polls
  | _ => []

def clock : SchedOp → Option Timespec
  | .yield _ _ _ clock | .exit _ clock | .systemRun _ clock => clock
  | _ => none

theorem apply_eq {op : SchedOp} (schedules : op.Schedules) (fuel : Nat) (ctx : SystemContext) :
    op.apply fuel ctx = (op.before fuel ctx).bind fun mid => mid.scheduleNext fuel op.polls op.clock := by
  cases op with
  | yield type now polls clock =>
    cases type with
    | yield | waitio => exact (Option.bind_assoc ..).symm
  | exit polls clock => rfl
  | systemRun polls clock => rfl
  | _ => exact False.elim schedules

theorem before_stable {op : SchedOp} {ctx : SystemContext} : Stable fun fuel => op.before fuel ctx := by
  cases op with
  | yield type now polls clock =>
    refine .bind (.const _) fun mid => ?_
    cases type with
    | yield =>
      exact .bind (.const _) fun _ => .bind SystemContext.eraseNode_stable fun _ => SystemContext.insertNode_stable
    | waitio => exact SystemContext.removeCurrentTask_stable
  | exit polls clock => exact SystemContext.removeCurrentTask_stable
  | _ => exact .const _

end SchedOp

namespace SystemContext

variable {ctx mid next : SystemContext} {active : Finset Addr} {a b : Addr} {task : Task} {fuel lo : Nat}
  {op : SchedOp} {events : List Addr} {polls : List (List Addr)} {clock : Option Timespec}

/-- An operation on a reachable state has come to the choice of the next task, which polls. -/
def AboutToPoll (ctx mid : SystemContext) : Prop :=
  ∃ ops op fuel, schedSystem.Run ops ctx ∧ SchedOp.Ready ctx op ∧ op.before fuel ctx = some mid ∧
    mid.runningTaskCount < mid.totalTaskCount

/-- The task waits in this reachable state, and its priority has not been set since it began to. -/
inductive Unchanged (a : Addr) : SystemContext → Prop where
  | began {ctx next : SystemContext} {ops : List SchedOp} {op : SchedOp} : schedSystem.Run ops ctx →
      ctx.stateOf a ≠ some .waiting → schedSystem.step ctx op next → next.stateOf a = some .waiting → Unchanged a next
  | waits {ctx next : SystemContext} {op : SchedOp} : Unchanged a ctx → schedSystem.step ctx op next →
      (∀ priority, op ≠ .setPriority a priority) → next.stateOf a = some .waiting → Unchanged a next

/-- The key of a waiting task is its priority. -/
def Settled (ctx : SystemContext) (a : Addr) : Prop :=
  ctx.stateOf a = some .waiting ∧ ctx.schedKey a = ctx.nextPriority a

def Stays (ctx next : SystemContext) (b : Addr) : Prop :=
  next.stateOf b = some .running ∧ next.schedKey b = ctx.schedKey b

theorem Stays.refl (running : ctx.stateOf b = some .running) : ctx.Stays ctx b := ⟨running, rfl⟩

theorem Stays.trans (first : ctx.Stays mid b) (second : mid.Stays next b) : ctx.Stays next b :=
  ⟨second.1, second.2.trans first.2⟩

theorem Stays.of_tasks (running : ctx.stateOf b = some .running) (same : next.tasks b = ctx.tasks b) :
    ctx.Stays next b := by
  constructor
  · rw [stateOf, same]
    exact running
  · rw [schedKey, schedKey, same]

/-! ## Polls as steps that wake -/

inductive Wakes (ctx : SystemContext) : SystemContext → Prop where
  | refl : Wakes ctx ctx
  | wake {mid next : SystemContext} {fuel : Nat} {a : Addr} : Wakes ctx mid → mid.wakeupTask fuel a = some next →
      Wakes ctx next

theorem Wakes.ioPoll (wakes : ctx.Wakes mid) (run : mid.ioPoll fuel events = some next) : ctx.Wakes next := by
  induction events generalizing mid with
  | nil =>
    cases run
    exact wakes
  | cons a events ih =>
    simp only [SystemContext.ioPoll, List.foldlM_cons, Option.bind_eq_bind, Option.bind_eq_some_iff] at run
    obtain ⟨woken, wake, run⟩ := run
    exact ih (wakes.wake wake) run

theorem Wakes.ioPollWait (wakes : ctx.Wakes mid) (run : mid.ioPollWait fuel polls = some next) : ctx.Wakes next := by
  induction polls generalizing mid with
  | nil => cases run
  | cons events polls ih =>
    simp only [SystemContext.ioPollWait, Option.bind_eq_bind, Option.bind_eq_some_iff] at run
    obtain ⟨polled, poll, run⟩ := run
    split at run
    · exact ih (wakes.ioPoll poll) run
    · cases run
      exact wakes.ioPoll poll

theorem PickPolls.wakes (chosen : PickPolls fuel ctx polls next) : ctx.Wakes next := by
  cases chosen with
  | all | skipped => exact .refl
  | once _ _ poll => exact Wakes.refl.ioPoll poll
  | wait _ _ poll => exact Wakes.refl.ioPollWait poll

theorem scheduleNext_wakes (run : ctx.scheduleNext fuel polls clock = some next) :
    ∃ polled, ctx.Wakes polled ∧ next.tasks = polled.tasks := by
  unfold scheduleNext at run
  split at run
  · cases run
    exact ⟨ctx, .refl, rfl⟩
  · simp only [Option.bind_eq_bind, Option.bind_eq_some_iff] at run
    obtain ⟨picked, pick, task, _, run⟩ := run
    obtain ⟨polled, chosen, rfl⟩ := pickCurrentTask_polls pick
    refine ⟨polled, chosen.wakes, ?_⟩
    cases run
    cases clock <;> rfl

theorem Wakes.stays (wakes : ctx.Wakes next) (running : ctx.stateOf b = some .running) : ctx.Stays next b := by
  induction wakes with
  | refl => exact .refl running
  | @wake mid next fuel a _ wake ih =>
    refine ih.trans ?_
    rcases wakeupTask_fields wake with ⟨rfl, _⟩ | ⟨task, found, waiting, tasks, _⟩
    · exact .refl ih.1
    · have other : b ≠ a := by
        rintro rfl
        have state := ih.1
        rw [stateOf_eq found, waiting] at state
        cases state
      exact .of_tasks ih.1 (by rw [tasks, Function.update_of_ne other])

theorem Wakes.waiting (wakes : ctx.Wakes next) (waiting : next.stateOf a = some .waiting) :
    next.tasks a = ctx.tasks a := by
  induction wakes with
  | refl => rfl
  | @wake mid next fuel b _ wake ih =>
    rcases wakeupTask_fields wake with ⟨rfl, _⟩ | ⟨task, _, _, tasks, _⟩
    · exact ih waiting
    · have other : a ≠ b := by
        rintro rfl
        rw [stateOf_of_tasks tasks, Function.update_self] at waiting
        cases waiting
      have same : next.tasks a = mid.tasks a := by rw [tasks, Function.update_of_ne other]
      rw [stateOf, same] at waiting
      exact same.trans (ih waiting)

theorem Rated.wakeupTask (rated : ctx.Rated lo) (run : ctx.wakeupTask fuel a = some next) : next.Rated lo := by
  rcases wakeupTask_fields run with ⟨rfl, _⟩ | ⟨task, found, _, tasks, _⟩
  · exact rated
  · exact rated.of_tasks tasks ((rated a task found).enter (Nat.mod_lt _ (by decide)))

theorem Rated.wakes (rated : ctx.Rated lo) (wakes : ctx.Wakes next) : next.Rated lo := by
  induction wakes with
  | refl => exact rated
  | wake _ wake ih => exact ih.wakeupTask wake

/-! ## Steps -/

/-- What an operation has done when it comes to the choice of the next task. -/
structure Before (ctx mid : SystemContext) (lo : Nat) : Prop where
  core : ∃ active, mid.Core active ∧ active.card = mid.totalTaskCount
  rated : mid.Rated lo
  others : ∀ b, b ≠ ctx.currentTask → mid.tasks b = ctx.tasks b
  began : mid.stateOf ctx.currentTask = some .waiting → mid.Settled ctx.currentTask

theorem Inv.before_switch (inv : ctx.Inv active) (rated : ctx.Rated lo) (ready : ctx.currentTask ≠ 0)
    (now : Option Timespec) (bound : active.card < fuel)
    (run : ((ctx.updateSchedKey now).bind fun mid => mid.reinsertCurrentTask fuel) = some mid) : ctx.Before mid lo := by
  obtain ⟨task, found, running, _⟩ := inv.exists_current ready
  have fair := rated _ task found
  obtain ⟨mid', enter, core, _, total⟩ := inv.switch ready now bound
  cases run.symm.trans enter
  have tasks := switch_fields found enter
  refine ⟨⟨active, core, inv.total.trans total.symm⟩,
    rated.of_tasks tasks ⟨fair.next, fun _ => fair.next, fun waits => ?_, Nat.mod_lt _ (by decide)⟩,
    fun b other => by rw [tasks, Function.update_of_ne other], fun waits => ?_⟩
  · cases running.symm.trans waits
  · rw [stateOf_of_tasks tasks, Function.update_self, running] at waits
    cases waits

theorem Inv.before_wait (inv : ctx.Inv active) (rated : ctx.Rated lo) (ready : ctx.currentTask ≠ 0)
    (now : Option Timespec) (bound : active.card < fuel)
    (run : ((ctx.updateSchedKey now).bind fun mid => mid.removeCurrentTask fuel .waiting) = some mid) :
    ctx.Before mid lo := by
  obtain ⟨task, found, _⟩ := inv.exists_current ready
  have fair := rated _ task found
  obtain ⟨mid', enter, core, _, total⟩ := inv.wait ready now bound
  cases run.symm.trans enter
  have tasks := wait_fields found enter
  have began : mid.tasks ctx.currentTask = some { task with state := .waiting, schedKey := task.nextPriority } := by
    rw [tasks, Function.update_self]
  exact ⟨⟨active, core, inv.total.trans total.symm⟩,
    rated.of_tasks tasks ⟨fair.next, fun runs => (by cases runs), fun _ => fair.next,
      Nat.lt_of_le_of_lt fair.next.2 (by decide)⟩,
    fun b other => by rw [tasks, Function.update_of_ne other],
    fun waits => ⟨waits, by rw [schedKey_eq began, nextPriority_eq began]⟩⟩

theorem Inv.before_stop (inv : ctx.Inv active) (rated : ctx.Rated lo) (ready : ctx.currentTask ≠ 0)
    (bound : active.card < fuel) (run : ctx.removeCurrentTask fuel .stopped = some mid) : ctx.Before mid lo := by
  obtain ⟨task, found, _⟩ := inv.exists_current ready
  obtain ⟨mid', enter, core, _, total⟩ := inv.stop ready bound
  cases run.symm.trans enter
  have tasks := stop_fields found enter
  refine ⟨⟨_, core, total⟩, rated.of_stop found enter, fun b other => by rw [tasks, Function.update_of_ne other],
    fun waits => ?_⟩
  rw [stateOf, tasks, Function.update_self] at waits
  split at waits <;> cases waits

theorem Inv.before (inv : ctx.Inv active) (rated : ctx.Rated lo) (ready : op.Ready ctx)
    (run : op.before fuel ctx = some mid) : ctx.Before mid lo := by
  have bound := Nat.le_max_right fuel (active.card + 1)
  have run := SchedOp.before_stable (Nat.le_max_left fuel (active.card + 1)) run
  cases op with
  | yield type now polls clock =>
    cases type with
    | yield => exact inv.before_switch rated ready now bound run
    | waitio => exact inv.before_wait rated ready now bound run
  | exit polls clock => exact inv.before_stop rated ready bound run
  | systemRun polls clock =>
    cases run
    refine ⟨⟨active, inv.core, inv.total⟩, rated, fun _ _ => rfl, fun waits => ?_⟩
    obtain ⟨task, found, _⟩ := exists_task waits
    exact absurd ready (inv.core.heap _ task found).1
  | _ => cases run

/-- What a step leaves to a task that runs and is not current. -/
structure Aside (ctx next : SystemContext) (op : SchedOp) : Prop where
  rated : next.Rated 0
  stays : ∀ b, ctx.stateOf b = some .running → b ≠ ctx.currentTask → ctx.Stays next b
  current : ¬ op.Schedules → next.currentTask = ctx.currentTask

theorem Quiet.aside (quiet : Quiet 0 ctx next) : ctx.Aside next op :=
  ⟨quiet.rated, fun b running _ => ⟨(quiet.states b .running (by decide)).mpr running, quiet.keys b running⟩,
    fun _ => quiet.current⟩

theorem Aside.of_tasks {state : TaskState} (rated : next.Rated 0) (idle : ctx.stateOf a = some state)
    (unused : state ≠ .running) (tasks : next.tasks = Function.update ctx.tasks a (some task))
    (current : next.currentTask = ctx.currentTask) : ctx.Aside next op := by
  refine ⟨rated, fun b running _ => .of_tasks running ?_, fun _ => current⟩
  have other : b ≠ a := by
    rintro rfl
    exact unused (Option.some.inj (idle.symm.trans running))
  rw [tasks, Function.update_of_ne other]

theorem Aside.refl (rated : ctx.Rated 0) : ctx.Aside ctx op := ⟨rated, fun _ running _ => .refl running, fun _ => rfl⟩

theorem Inv.aside (inv : ctx.Inv active) (rated : ctx.Rated 0) (ready : op.Ready ctx)
    (run : op.apply fuel ctx = some next) : ctx.Aside next op := by
  have scheduled : op.Schedules → ctx.Aside next op := by
    intro schedules
    rw [SchedOp.apply_eq schedules, Option.bind_eq_some_iff] at run
    obtain ⟨mid, enter, run⟩ := run
    have before := inv.before rated ready enter
    obtain ⟨polled, wakes, tasks⟩ := scheduleNext_wakes run
    refine ⟨fun b task found => before.rated.wakes wakes b task (tasks ▸ found), fun b running other => ?_,
      fun calls => absurd schedules calls⟩
    have first : ctx.Stays mid b := .of_tasks running (before.others b other)
    have second := first.trans (wakes.stays first.1)
    exact second.trans (.of_tasks second.1 (congrFun tasks b))
  cases op with
  | new a =>
    cases run
    exact (Quiet.taskNew (Nat.zero_le 8) rated ready.2.2).aside
  | ref a =>
    obtain ⟨task, found⟩ := Option.isSome_iff_exists.mp ready
    simp only [SchedOp.apply, taskRef, found, Option.bind_eq_bind, Option.bind_some] at run
    cases run
    have fair := rated a task found
    exact Quiet.aside (.setTask rated found rfl rfl ⟨fair.next, fair.turn, fair.wake, fair.key⟩)
  | unref a =>
    obtain ⟨task, found, kept⟩ := ready
    exact (Quiet.taskUnref rated found kept run).aside
  | setPriority a priority => exact (Quiet.taskSetPriority (Nat.zero_le 8) rated (Nat.zero_le _) run).aside
  | run a =>
    rcases taskRun_fields run with ⟨rfl, _⟩ | ⟨task, found, stopped, tasks, _, current⟩
    · exact .refl rated
    · exact .of_tasks (rated.of_tasks tasks (rated a task found).start) (stateOf_eq found) (by simp [stopped]) tasks current
  | wakeup a =>
    rcases wakeupTask_fields run with ⟨rfl, _⟩ | ⟨task, found, waiting, tasks, _, current⟩
    · exact .refl rated
    · exact .of_tasks (rated.wakeupTask run) (stateOf_eq found) (by simp [waiting]) tasks current
  | _ => exact scheduled trivial

/-- A task that waits after the step waited before it, with the same key and priority. -/
def Agrees (ctx next : SystemContext) (a : Addr) : Prop :=
  ∀ task, next.tasks a = some task → task.state = .waiting → ∃ old, ctx.tasks a = some old ∧
    old.state = .waiting ∧ old.schedKey = task.schedKey ∧ old.nextPriority = task.nextPriority

theorem Agrees.of_eq (same : next.tasks a = ctx.tasks a) : ctx.Agrees next a :=
  fun task found state => ⟨task, same.symm.trans found, state, rfl, rfl⟩

theorem Agrees.of_update {entry : Option Task} (tasks : next.tasks = Function.update ctx.tasks b entry)
    (agrees : b = a → ∀ task, entry = some task → task.state = .waiting → ∃ old, ctx.tasks b = some old ∧
      old.state = .waiting ∧ old.schedKey = task.schedKey ∧ old.nextPriority = task.nextPriority) :
    ctx.Agrees next a := by
  by_cases here : b = a
  · subst here
    intro task found state
    rw [tasks, Function.update_self] at found
    exact agrees rfl task found state
  · exact .of_eq (by rw [tasks, Function.update_of_ne (Ne.symm here)])

theorem Agrees.of_idle (tasks : next.tasks = Function.update ctx.tasks b (some task)) (idle : task.state ≠ .waiting) :
    ctx.Agrees next a :=
  .of_update tasks fun _ _ is waits => absurd (Option.some.inj is ▸ waits) idle

theorem Agrees.settled (agrees : ctx.Agrees next a) (waiting : next.stateOf a = some .waiting)
    (before : ctx.stateOf a = some .waiting → ctx.Settled a) : next.Settled a := by
  obtain ⟨task, found, state⟩ := exists_task waiting
  obtain ⟨old, found', state', key, priority⟩ := agrees task found state
  have settled := (before (by rw [stateOf_eq found', state'])).2
  rw [schedKey_eq found', nextPriority_eq found', key, priority] at settled
  exact ⟨waiting, by rw [schedKey_eq found, nextPriority_eq found, settled]⟩

/-- The calls that go on with the same task. -/
theorem agrees_of_call (unchanged : ∀ priority, op ≠ .setPriority a priority) (calls : ¬ op.Schedules)
    (run : op.apply fuel ctx = some next) : ctx.Agrees next a := by
  cases op with
  | new b =>
    cases run
    exact .of_idle rfl (by decide)
  | ref b =>
    simp only [SchedOp.apply, taskRef, Option.bind_eq_bind, Option.bind_eq_some_iff] at run
    obtain ⟨old, found, run⟩ := run
    cases run
    refine .of_update rfl fun _ task is state => ?_
    cases is
    exact ⟨old, found, state, rfl, rfl⟩
  | unref b =>
    simp only [SchedOp.apply, SystemContext.taskUnref, Option.bind_eq_bind, Option.bind_eq_some_iff] at run
    obtain ⟨old, found, run⟩ := run
    split at run
    · cases run
      refine .of_update rfl fun _ task is state => ?_
      cases is
      exact ⟨old, found, state, rfl, rfl⟩
    · cases run
      exact .of_update rfl fun _ task is _ => by cases is
  | setPriority b priority =>
    simp only [SchedOp.apply, taskSetPriority, Option.bind_eq_bind, Option.bind_eq_some_iff] at run
    obtain ⟨old, found, run⟩ := run
    cases run
    exact .of_update rfl fun here => absurd (by rw [here]) (unchanged priority)
  | run b =>
    rcases taskRun_fields run with ⟨rfl, _⟩ | ⟨old, _, _, tasks, _⟩
    · exact .of_eq rfl
    · exact .of_idle tasks (by simp)
  | wakeup b =>
    rcases wakeupTask_fields run with ⟨rfl, _⟩ | ⟨old, _, _, tasks, _⟩
    · exact .of_eq rfl
    · exact .of_idle tasks (by simp)
  | _ => exact absurd trivial calls

theorem Inv.settled (inv : ctx.Inv active) (rated : ctx.Rated lo) (ready : op.Ready ctx)
    (run : op.apply fuel ctx = some next) (waiting : next.stateOf a = some .waiting)
    (unchanged : ∀ priority, op ≠ .setPriority a priority) (before : ctx.stateOf a = some .waiting → ctx.Settled a) :
    next.Settled a := by
  by_cases schedules : op.Schedules
  · rw [SchedOp.apply_eq schedules, Option.bind_eq_some_iff] at run
    obtain ⟨mid, enter, run⟩ := run
    have left := inv.before rated ready enter
    obtain ⟨polled, wakes, tasks⟩ := scheduleNext_wakes run
    have waiting' : polled.stateOf a = some .waiting := by
      rw [stateOf, ← tasks]
      exact waiting
    have same : next.tasks a = mid.tasks a := (congrFun tasks a).trans (wakes.waiting waiting')
    by_cases here : a = ctx.currentTask
    · subst here
      exact Agrees.settled (.of_eq same) waiting left.began
    · exact Agrees.settled (.of_eq (same.trans (left.others a here))) waiting before
  · exact (agrees_of_call unchanged schedules run).settled waiting before

end SystemContext

open SystemContext

theorem schedSystem_rated {ops : List SchedOp} {ctx : SystemContext} (run : schedSystem.Run ops ctx) :
    ctx.Rated 0 := by
  induction run with
  | init initial =>
    obtain ⟨_, _, _, _, _, tasks, _⟩ := initial
    intro a task found
    rw [tasks a] at found
    cases found
  | step run step rated =>
    obtain ⟨ready, fuel, result⟩ := step
    obtain ⟨active, inv⟩ := schedSystem_inv run
    exact (inv.aside rated ready result).rated

namespace SystemContext

variable {ctx mid : SystemContext} {a : Addr}

theorem Unchanged.settled (unchanged : Unchanged a ctx) : (∃ ops, schedSystem.Run ops ctx) ∧ ctx.Settled a := by
  induction unchanged with
  | began run other step waiting =>
    refine ⟨⟨_, run.step step⟩, ?_⟩
    obtain ⟨ready, fuel, result⟩ := step
    obtain ⟨active, inv⟩ := schedSystem_inv run
    have rated := schedSystem_rated run
    refine inv.settled rated ready result waiting (fun priority same => ?_) fun waits => absurd waits other
    -- Setting the priority does not begin a wait.
    subst same
    have quiet := Quiet.taskSetPriority (Nat.zero_le 8) rated (Nat.zero_le _) result
    exact other ((quiet.states a .waiting (by decide)).mp waiting)
  | waits _ step unset waiting ih =>
    obtain ⟨⟨ops, run⟩, settled⟩ := ih
    refine ⟨⟨_, run.step step⟩, ?_⟩
    obtain ⟨ready, fuel, result⟩ := step
    obtain ⟨active, inv⟩ := schedSystem_inv run
    exact inv.settled (schedSystem_rated run) ready result waiting unset fun _ => settled

theorem AboutToPoll.core (about : ctx.AboutToPoll mid) :
    (∃ active, mid.Core active ∧ active.card = mid.totalTaskCount) ∧ mid.Rated 0 := by
  obtain ⟨ops, op, fuel, run, ready, enter, _⟩ := about
  obtain ⟨active, inv⟩ := schedSystem_inv run
  have before := inv.before (schedSystem_rated run) ready enter
  exact ⟨before.core, before.rated⟩

theorem AboutToPoll.settled (about : ctx.AboutToPoll mid) (waiting : mid.stateOf a = some .waiting)
    (unchanged : ctx.stateOf a = some .waiting → Unchanged a ctx) : mid.Settled a := by
  obtain ⟨ops, op, fuel, run, ready, enter, _⟩ := about
  obtain ⟨active, inv⟩ := schedSystem_inv run
  have before := inv.before (schedSystem_rated run) ready enter
  by_cases here : a = ctx.currentTask
  · subst here
    exact before.began waiting
  · exact Agrees.settled (.of_eq (before.others a here)) waiting fun waits => (unchanged waits).settled.2

end SystemContext

end HevTaskSystem
