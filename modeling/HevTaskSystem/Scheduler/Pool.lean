import HevTaskSystem.Scheduler.Keys

/-! The tasks as the code above the scheduler sees them.

For that code a task is stopped, running or waiting. The tree, the keys and the
choice of the next task do not matter to it: whichever running task is chosen goes on
next. Each operation of the scheduler is one step of this view.
-/

set_option autoImplicit false

namespace HevTaskSystem

open Foundation SystemContext

/-- The states of all tasks; none for an address that holds no task. -/
abbrev TaskPool := Addr → Option TaskState

/-- What a call of a task comes to: nothing, a yield inside it, or a return value. -/
inductive TaskReply where
  | void
  | blocked
  | value (result : Int)
  deriving DecidableEq, Repr

namespace TaskPool

/-- `hev_task_wakeup`; waking a task that is stopped aborts. -/
def wakeup (pool : TaskPool) (t : Addr) : Option TaskPool :=
  match pool t with
  | some .running => some pool
  | some .waiting => some (Function.update pool t (some .running))
  | _ => none

def wakeupField (pool : TaskPool) (t : Addr) : Option TaskPool :=
  if t ≠ 0 then pool.wakeup t else some pool

/-- `hev_task_yield (HEV_TASK_WAITIO)` of the task `t`, until it is resumed. -/
def wait (pool : TaskPool) (t : Addr) : TaskPool := Function.update pool t (some .waiting)

/-- The wakeups of one poll. -/
def wakeupAll (pool : TaskPool) (events : List Addr) : Option TaskPool := events.foldlM wakeup pool

def Busy (pool : TaskPool) : Prop := ∃ t, pool t = some .running

/-- The polls before the next task is picked: none if no task waits, at most one while a task
runs, and otherwise as many as it takes until one does. -/
inductive Polls : TaskPool → List (List Addr) → TaskPool → Prop where
  | none {pool : TaskPool} {polls : List (List Addr)} : (∀ t, pool t ≠ some .waiting) → Polls pool polls pool
  | skipped {pool : TaskPool} {t : Addr} : pool t = some .waiting → pool.Busy → Polls pool [] pool
  | once {pool next : TaskPool} {t : Addr} {events : List Addr} {polls : List (List Addr)} :
      pool t = some .waiting → pool.Busy → pool.wakeupAll events = some next → Polls pool (events :: polls) next
  | last {pool next : TaskPool} {t : Addr} {events : List Addr} {polls : List (List Addr)} :
      pool t = some .waiting → ¬ pool.Busy → pool.wakeupAll events = some next → next.Busy →
        Polls pool (events :: polls) next
  | again {pool mid next : TaskPool} {t : Addr} {events : List Addr} {polls : List (List Addr)} :
      pool t = some .waiting → ¬ pool.Busy → pool.wakeupAll events = some mid → ¬ mid.Busy → Polls mid polls next →
        Polls pool (events :: polls) next

variable {pool next : TaskPool} {t : Addr}

theorem wakeup_eq (active : pool t = some .running ∨ pool t = some .waiting) :
    pool.wakeup t = some (Function.update pool t (some .running)) := by
  unfold wakeup
  rcases active with running | waiting
  · simp only [running]
    rw [← running, Function.update_eq_self]
  · simp only [waiting]

end TaskPool

/-- The tasks with the one that runs now; NULL outside `hev_task_system_run`. -/
structure PoolView where
  tasks : TaskPool
  current : Addr

namespace PoolView

/-- The next task is one that runs. There is none only when no task is left. -/
structure Picks (pool : TaskPool) (polls : List (List Addr)) (next : PoolView) : Prop where
  polls : pool.Polls polls next.tasks
  current : (next.current = 0 ∧ ∀ t, next.tasks t ≠ some .running ∧ next.tasks t ≠ some .waiting) ∨
    (next.current ≠ 0 ∧ next.tasks next.current = some .running)

/-- What each operation does. Whether a stopped task is freed depends on its references, which
this view does not have. -/
def Step (s : PoolView) (op : SchedOp) (next : PoolView) : Prop :=
  match op with
  | .new t => s.tasks t = none ∧ next = { s with tasks := Function.update s.tasks t (some .stopped) }
  | .ref t | .setPriority t _ => s.tasks t ≠ none ∧ next = s
  | .unref t => s.tasks t ≠ none ∧
      (next = s ∨ (s.tasks t = some .stopped ∧ next = { s with tasks := Function.update s.tasks t none }))
  | .run t => s.tasks t ≠ none ∧ next = { s with
      tasks := if s.tasks t = some .stopped then Function.update s.tasks t (some .running) else s.tasks }
  | .wakeup t => ∃ pool, s.tasks.wakeup t = some pool ∧ next = { s with tasks := pool }
  | .yield .yield _ polls _ => s.tasks s.current = some .running ∧ Picks s.tasks polls next
  | .yield .waitio _ polls _ => s.tasks s.current = some .running ∧ Picks (s.tasks.wait s.current) polls next
  | .exit polls _ => s.tasks s.current = some .running ∧ ∃ ended, (ended = some .stopped ∨ ended = none) ∧
      Picks (Function.update s.tasks s.current ended) polls next
  | .systemRun polls _ => s.current = 0 ∧ Picks s.tasks polls next

end PoolView

def poolSystem : System PoolView SchedOp where
  init s := (∀ t, s.tasks t = none) ∧ s.current = 0
  step := PoolView.Step

namespace SystemContext

variable {ctx next : SystemContext} {active : Finset Addr} {a : Addr} {fuel : Nat} {events : List Addr}
  {polls : List (List Addr)} {clock : Option Timespec}

def view (ctx : SystemContext) : PoolView := ⟨ctx.stateOf, ctx.currentTask⟩

/-- The branches of `hev_task_system_pick_current_task` as this view has them: the counts
tell whether a task is running and whether one is waiting. -/
theorem Core.pick_branches (core : ctx.Core active) (total : active.card = ctx.totalTaskCount) :
    (ctx.runningTaskCount ≠ 0 ↔ TaskPool.Busy ctx.stateOf) ∧
      (ctx.runningTaskCount < ctx.totalTaskCount ↔ ∃ a, ctx.stateOf a = some .waiting) := by
  have nodup : ctx.arrivals.Nodup := core.sorted.nodup
  refine ⟨core.count_ne_zero, ?_⟩
  rw [core.count, ← total, ← List.toFinset_card_of_nodup nodup]
  -- The nodes of the tree are all of the active tasks unless one of these waits.
  constructor
  · intro fewer
    obtain ⟨a, member, idle⟩ := Finset.exists_mem_notMem_of_card_lt_card fewer
    have stopped : ctx.stateOf a ≠ some .running := fun running =>
      idle (List.mem_toFinset.mpr ((core.running a).mpr running))
    exact ⟨a, ((core.active a).mp member).resolve_left stopped⟩
  · rintro ⟨a, waiting⟩
    refine Finset.card_lt_card (Finset.ssubset_iff_subset_ne.mpr ⟨core.arrivals_subset, fun same => ?_⟩)
    have member : a ∈ ctx.arrivals.toFinset := same ▸ (core.active a).mpr (.inr waiting)
    have running := (core.running a).mp (List.mem_toFinset.mp member)
    simp [running] at waiting

theorem Core.wakeup_refines (core : ctx.Core active) (bound : active.card < fuel)
    (run : ctx.wakeupTask fuel a = some next) :
    TaskPool.wakeup ctx.stateOf a = some next.stateOf ∧ next.Core active := by
  have member := core.mem_of_wakeup run
  obtain ⟨next', run', polled, states⟩ := core.wakeupTask member bound
  cases run.symm.trans run'
  rw [states]
  exact ⟨TaskPool.wakeup_eq ((core.active a).mp member), polled.core⟩

theorem Core.ioPoll_refines (core : ctx.Core active) (bound : active.card < fuel)
    (run : ctx.ioPoll fuel events = some next) : TaskPool.wakeupAll ctx.stateOf events = some next.stateOf := by
  induction events generalizing ctx with
  | nil =>
    cases run
    rfl
  | cons a events ih =>
    simp only [SystemContext.ioPoll, List.foldlM_cons, Option.bind_eq_bind, Option.bind_eq_some_iff] at run
    obtain ⟨mid, wake, run⟩ := run
    obtain ⟨woken, core'⟩ := core.wakeup_refines bound wake
    simp only [TaskPool.wakeupAll, List.foldlM_cons, woken]
    exact ih core' run

theorem Core.ioPollWait_refines (core : ctx.Core active) (total : active.card = ctx.totalTaskCount)
    (bound : active.card < fuel) (fewer : ctx.runningTaskCount < ctx.totalTaskCount) (idle : ctx.runningTaskCount = 0)
    (run : ctx.ioPollWait fuel polls = some next) : TaskPool.Polls ctx.stateOf polls next.stateOf := by
  induction polls generalizing ctx with
  | nil => cases run
  | cons events polls ih =>
    simp only [SystemContext.ioPollWait, Option.bind_eq_bind, Option.bind_eq_some_iff] at run
    obtain ⟨mid, poll, run⟩ := run
    have polled := core.polled_of_ioPoll bound poll
    have wakes := core.ioPoll_refines bound poll
    obtain ⟨busy, waits⟩ := core.pick_branches total
    obtain ⟨a, waiting⟩ := waits.mp fewer
    have idle' : ¬ TaskPool.Busy ctx.stateOf := fun runs => busy.mpr runs idle
    have total' := total.trans polled.total.symm
    obtain ⟨busy', _⟩ := polled.core.pick_branches total'
    split at run
    · rename_i none
      have fewer' : mid.runningTaskCount < mid.totalTaskCount := by
        rw [none, polled.total]
        exact Nat.zero_lt_of_lt fewer
      exact .again waiting idle' wakes (fun runs => busy'.mpr runs none) (ih polled.core total' fewer' none run)
    · rename_i some
      cases run
      exact .last waiting idle' wakes (busy'.mp some)

theorem Core.pick_refines (core : ctx.Core active) (total : active.card = ctx.totalTaskCount)
    (bound : active.card < fuel) (chosen : PickPolls fuel ctx polls next) :
    TaskPool.Polls ctx.stateOf polls next.stateOf := by
  obtain ⟨busy, waits⟩ := core.pick_branches total
  cases chosen with
  | all whole => exact .none fun a waiting => whole (waits.mpr ⟨a, waiting⟩)
  | skipped partly some =>
    obtain ⟨a, waiting⟩ := waits.mp partly
    exact .skipped waiting (busy.mp some)
  | once partly some poll =>
    obtain ⟨a, waiting⟩ := waits.mp partly
    exact .once waiting (busy.mp some) (core.ioPoll_refines bound poll)
  | wait partly none poll => exact core.ioPollWait_refines total bound partly none poll

theorem Core.schedule_refines (core : ctx.Core active) (total : active.card = ctx.totalTaskCount)
    (bound : active.card < fuel) (run : ctx.scheduleNext fuel polls clock = some next) :
    PoolView.Picks ctx.stateOf polls next.view := by
  obtain ⟨_, chosen⟩ := Inv.schedule core total bound run
  refine ⟨?_, chosen.imp_right fun ⟨nonnull, _, runs⟩ => ⟨nonnull, runs⟩⟩
  unfold scheduleNext at run
  split at run
  · rename_i none
    cases run
    refine .none fun a waiting => ?_
    have fewer := (core.pick_branches total).2.mpr ⟨a, waiting⟩
    omega
  · simp only [Option.bind_eq_bind, Option.bind_eq_some_iff] at run
    obtain ⟨picked, pick, _, _, run⟩ := run
    obtain ⟨polled, picks, rfl⟩ := pickCurrentTask_polls pick
    cases run
    have polls := core.pick_refines total bound picks
    cases clock with
    | none | some => exact polls

theorem taskUnref_refines {task : Task} (found : ctx.tasks a = some task)
    (kept : 1 < task.refCount ∨ task.state = .stopped) (run : ctx.taskUnref a = some next) :
    next.view = ctx.view ∨ (ctx.stateOf a = some .stopped ∧
      next.view = { ctx.view with tasks := Function.update ctx.stateOf a none }) := by
  simp only [taskUnref, found, Option.bind_eq_bind, Option.bind_some] at run
  split at run
  · cases run
    left
    rw [view, stateOf_setTask_same found (by rfl)]
    rfl
  · rename_i last
    cases run
    have stopped : task.state = .stopped := kept.resolve_left (by omega)
    refine .inr ⟨by rw [stateOf_eq found, stopped], ?_⟩
    rw [view, stateOf_free]
    rfl

theorem Inv.refines (inv : ctx.Inv active) {op : SchedOp} (ready : op.Ready ctx) (bound : active.card < fuel)
    (run : op.apply fuel ctx = some next) : ctx.view.Step op next.view := by
  have there {a : Addr} {task : Task} (found : ctx.tasks a = some task) : ctx.view.tasks a ≠ none := by
    simp [view, stateOf, found]
  have same {a : Addr} {task new : Task} (found : ctx.tasks a = some task) (state : new.state = task.state) :
      (ctx.setTask a new).view = ctx.view := by
    rw [view, stateOf_setTask_same found state]
    rfl
  cases op with
  | new a =>
    cases run
    refine ⟨by simp [view, stateOf, ready.2.2], ?_⟩
    rw [view, SystemContext.taskNew, stateOf_setTask]
    rfl
  | ref a =>
    obtain ⟨task, found⟩ := Option.isSome_iff_exists.mp ready
    simp only [SchedOp.apply, taskRef, found, Option.bind_eq_bind, Option.bind_some] at run
    cases run
    exact ⟨there found, same found rfl⟩
  | unref a =>
    obtain ⟨task, found, kept⟩ := ready
    exact ⟨there found, taskUnref_refines found kept run⟩
  | setPriority a priority =>
    obtain ⟨task, found⟩ := Option.isSome_iff_exists.mp ready
    simp only [SchedOp.apply, taskSetPriority, found, Option.bind_eq_bind, Option.bind_some] at run
    cases run
    exact ⟨there found, same found rfl⟩
  | run a =>
    obtain ⟨task, found⟩ := Option.isSome_iff_exists.mp ready
    obtain ⟨next', _, run', _, states⟩ := inv.taskRun found bound
    cases run.symm.trans run'
    have current : next.currentTask = ctx.currentTask := by
      rcases taskRun_fields run with ⟨rfl, _⟩ | ⟨_, _, _, _, _, same⟩
      · rfl
      · exact same
    refine ⟨there found, ?_⟩
    rw [view, states, current]
    simp [view, stateOf_eq found]
  | wakeup a =>
    have current : next.currentTask = ctx.currentTask := by
      rcases wakeupTask_fields run with ⟨rfl, _⟩ | ⟨_, _, _, _, _, same⟩
      · rfl
      · exact same
    exact ⟨_, (inv.core.wakeup_refines bound run).1, by rw [view, current, view]⟩
  | yield type now polls clock =>
    have runs := inv.current ready
    cases type with
    | yield =>
      obtain ⟨mid, enter, core, states, total⟩ := inv.switch ready now bound
      simp only [SchedOp.apply, taskYield, Option.bind_eq_bind] at run enter
      rw [← Option.bind_assoc, enter, Option.bind_some] at run
      have picks := core.schedule_refines (inv.total.trans total.symm) bound run
      rw [states] at picks
      exact ⟨runs, picks⟩
    | waitio =>
      obtain ⟨mid, enter, core, states, total⟩ := inv.wait ready now bound
      simp only [SchedOp.apply, taskYield, Option.bind_eq_bind] at run enter
      rw [← Option.bind_assoc, enter, Option.bind_some] at run
      have picks := core.schedule_refines (inv.total.trans total.symm) bound run
      rw [states] at picks
      exact ⟨runs, picks⟩
  | exit polls clock =>
    have runs := inv.current ready
    obtain ⟨mid, enter, core, states, total⟩ := inv.stop ready bound
    simp only [SchedOp.apply, taskExit, Option.bind_eq_bind, enter, Option.bind_some] at run
    have picks := core.schedule_refines total (Nat.lt_of_le_of_lt Finset.card_erase_le bound) run
    rcases states with states | states
    · rw [states] at picks
      exact ⟨runs, _, .inl rfl, picks⟩
    · -- The last reference was that of the scheduler.
      rw [states] at picks
      exact ⟨runs, _, .inr rfl, picks⟩
  | systemRun polls clock => exact ⟨ready, inv.core.schedule_refines inv.total bound run⟩

end SystemContext

/-- The scheduler refines this view. Every run of it is a run of the view, every step that it can
take next is one of the view, and the counts tell whether a task runs and whether one waits. -/
theorem scheduler_refines_pool {ops : List SchedOp} {ctx : SystemContext} (run : schedSystem.Run ops ctx) :
    poolSystem.Run ops ctx.view ∧
      (∀ op next, schedSystem.step ctx op next → ctx.view.Step op next.view) ∧
      (ctx.runningTaskCount ≠ 0 ↔ TaskPool.Busy ctx.stateOf) ∧
      (ctx.runningTaskCount < ctx.totalTaskCount ↔ ∃ a, ctx.stateOf a = some .waiting) := by
  have steps {ops : List SchedOp} {ctx : SystemContext} (run : schedSystem.Run ops ctx) (op : SchedOp)
      (next : SystemContext) (step : schedSystem.step ctx op next) : ctx.view.Step op next.view := by
    obtain ⟨active, inv⟩ := schedSystem_inv run
    obtain ⟨ready, fuel, result⟩ := step
    have result := SchedOp.apply_stable (Nat.le_max_left fuel (active.card + 1)) result
    exact inv.refines ready (Nat.le_max_right fuel (active.card + 1)) result
  obtain ⟨active, inv⟩ := schedSystem_inv run
  refine ⟨?_, steps run, inv.core.pick_branches inv.total⟩
  clear inv
  induction run with
  | init initial =>
    obtain ⟨_, _, current, _, _, none, _⟩ := initial
    exact .init ⟨fun t => by simp [view, stateOf, none], current⟩
  | step run step ih => exact .step ih (steps run _ _ step)

/-- The only task waits for an event, which the next poll reports. -/
theorem scheduler_refines_pool_wait : ∃ ctx,
    schedSystem.Run [.new 8, .run 8, .systemRun [] none, .yield .waitio none [[8]] none] ctx ∧
      poolSystem.Run [.new 8, .run 8, .systemRun [] none, .yield .waitio none [[8]] none] ctx.view ∧
      ctx.stateOf 8 = some .running := by
  obtain ⟨ctx, run, final⟩ := schedSystem_exec 3 (fun ctx => ctx.stateOf 8 = some .running)
    [.new 8, .run 8, .systemRun [] none, .yield .waitio none [[8]] none] (by decide)
  exact ⟨ctx, run, (scheduler_refines_pool run).1, of_decide_eq_true final⟩

end HevTaskSystem
