import HevTaskSystem.Scheduler.Polling

/-! The scheduler as a transition system, and its structural invariant.

The operations are those of the task interface, by the current task or, while no
task is current, by the caller of `hev_task_system_run`. Clock readings and poll
results come with the operation and are arbitrary.
-/

set_option autoImplicit false

namespace HevTaskSystem

open Foundation Foundation.RedBlack SystemContext

inductive SchedOp where
  | new (a : Addr)
  | ref (a : Addr)
  | unref (a : Addr)
  | setPriority (a : Addr) (priority : Int)
  | run (a : Addr)
  | wakeup (a : Addr)
  | yield (type : YieldType) (now : Option Timespec) (polls : List (List Addr)) (clock : Option Timespec)
  | exit (polls : List (List Addr)) (clock : Option Timespec)
  | systemRun (polls : List (List Addr)) (clock : Option Timespec)
  deriving DecidableEq, Repr

namespace SchedOp

def apply (fuel : Nat) (ctx : SystemContext) : SchedOp → Option SystemContext
  | .new a => some (ctx.taskNew a)
  | .ref a => ctx.taskRef a
  | .unref a => ctx.taskUnref a
  | .setPriority a priority => ctx.taskSetPriority a priority
  | .run a => ctx.taskRun fuel a
  | .wakeup a => ctx.wakeupTask fuel a
  | .yield type now polls clock => ctx.taskYield fuel type now polls clock
  | .exit polls clock => ctx.taskExit fuel polls clock
  | .systemRun polls clock => ctx.systemRun fuel polls clock

/-- What the allocator and the callers guarantee: a new task is a fresh aligned
block, a task in use is not freed, and yield and exit come from a task. -/
def Ready (ctx : SystemContext) : SchedOp → Prop
  | .new a => a ≠ 0 ∧ 4 ∣ a ∧ ctx.tasks a = none
  | .ref a | .setPriority a _ | .run a => (ctx.tasks a).isSome
  | .unref a => ∃ task, ctx.tasks a = some task ∧ (1 < task.refCount ∨ task.state = .stopped)
  | .wakeup a => ctx.stateOf a = some .running ∨ ctx.stateOf a = some .waiting
  | .yield .. | .exit .. => ctx.currentTask ≠ 0
  | .systemRun .. => ctx.currentTask = 0

def Schedules : SchedOp → Prop
  | .yield .. | .exit .. | .systemRun .. => True
  | _ => False

/-- What the polls of the operation report: only tasks that are then running or
waiting, and at least one if all of them are waiting. -/
def Reports (ctx : SystemContext) : SchedOp → Prop
  | .yield type _ polls _ =>
    (∀ events ∈ polls, ∀ a ∈ events, ctx.stateOf a = some .running ∨ ctx.stateOf a = some .waiting) ∧
      (type = .waitio → (∀ a, a ≠ ctx.currentTask → ctx.stateOf a ≠ some .running) →
        ∃ events ∈ polls, events ≠ [])
  | .exit polls _ =>
    (∀ events ∈ polls, ∀ a ∈ events, a ≠ ctx.currentTask ∧
        (ctx.stateOf a = some .running ∨ ctx.stateOf a = some .waiting)) ∧
      ((∃ a, ctx.stateOf a = some .waiting) →
        (∀ a, a ≠ ctx.currentTask → ctx.stateOf a ≠ some .running) → ∃ events ∈ polls, events ≠ [])
  | .systemRun polls _ =>
    (∀ events ∈ polls, ∀ a ∈ events, ctx.stateOf a = some .running ∨ ctx.stateOf a = some .waiting) ∧
      ((∃ a, ctx.stateOf a = some .waiting) → (∀ a, ctx.stateOf a ≠ some .running) →
        ∃ events ∈ polls, events ≠ [])
  | _ => True

end SchedOp

/-- From the context that `hev_task_system_init` makes. -/
def schedSystem : System SystemContext SchedOp where
  init ctx := ctx.totalTaskCount = 0 ∧ ctx.runningTaskCount = 0 ∧ ctx.currentTask = 0 ∧
    ctx.runningTasks.base.root = 0 ∧ ctx.runningTasks.leftmost = 0 ∧ (∀ a, ctx.tasks a = none) ∧
    ctx.arrivals = []
  step ctx op next := op.Ready ctx ∧ ∃ fuel, op.apply fuel ctx = some next

/-! ## Enough fuel -/

namespace SystemContext

variable {ctx : SystemContext} {a : Addr}

theorem insertNode_stable : Stable fun fuel => ctx.insertNode fuel a :=
  .bind RBTreeCached.insertBy_stable fun _ => .const _

theorem eraseNode_stable : Stable fun fuel => ctx.eraseNode fuel a :=
  .bind RBTreeCached.cachedErase_stable fun _ => .const _

theorem insertTask_stable : Stable fun fuel => ctx.insertTask fuel a :=
  .bind (.const _) fun _ => .bind insertNode_stable fun _ => .const _

theorem removeCurrentTask_stable {state : TaskState} : Stable fun fuel => ctx.removeCurrentTask fuel state :=
  .bind (.const _) fun _ => .bind eraseNode_stable fun _ => .const _

theorem wakeupTask_stable : Stable fun fuel => ctx.wakeupTask fuel a := by
  refine .bind (.const _) fun task => ?_
  cases task.state with
  | stopped => exact .const _
  | running => exact .const _
  | waiting => exact insertTask_stable

theorem ioPoll_stable {events : List Addr} : Stable fun fuel => ctx.ioPoll fuel events :=
  .foldlM (fun _ _ => wakeupTask_stable) _ _

theorem ioPollWait_stable {polls : List (List Addr)} : Stable fun fuel => ctx.ioPollWait fuel polls := by
  induction polls generalizing ctx with
  | nil => exact .const _
  | cons events polls ih => exact .bind ioPoll_stable fun _ => .ite ih (.const _)

theorem scheduleNext_stable {polls : List (List Addr)} {clock : Option Timespec} :
    Stable fun fuel => ctx.scheduleNext fuel polls clock := by
  refine .ite (.const _) (.bind ?_ fun _ => .const _)
  refine .ite (.ite (.bind ?_ fun _ => .const _) (.bind ioPollWait_stable fun _ => .const _)) (.const _)
  cases polls with
  | nil => exact .const _
  | cons events _ => exact ioPoll_stable

end SystemContext

theorem SchedOp.apply_stable {op : SchedOp} {ctx : SystemContext} : Stable fun fuel => op.apply fuel ctx := by
  cases op with
  | new a => exact .const _
  | ref a => exact .const _
  | unref a => exact .const _
  | setPriority a priority => exact .const _
  | run a => exact .bind (.const _) fun _ => .ite (.const _) (.bind insertTask_stable fun _ => .const _)
  | wakeup a => exact wakeupTask_stable
  | yield type now polls clock =>
    refine .bind (.const _) fun mid => ?_
    cases type with
    | yield =>
      exact .bind (.bind (.const _) fun _ => .bind eraseNode_stable fun _ => insertNode_stable)
        fun _ => scheduleNext_stable
    | waitio => exact .bind removeCurrentTask_stable fun _ => scheduleNext_stable
  | exit polls clock => exact .bind removeCurrentTask_stable fun _ => scheduleNext_stable
  | systemRun polls clock => exact scheduleNext_stable

/-! ## Steps -/

namespace SystemContext

structure Inv (ctx : SystemContext) (active : Finset Addr) : Prop where
  core : ctx.Core active
  total : active.card = ctx.totalTaskCount
  current : ctx.currentTask ≠ 0 → ctx.stateOf ctx.currentTask = some .running

variable {ctx next : SystemContext} {active : Finset Addr} {a : Addr} {task : Task} {fuel : Nat}

theorem Inv.of_polled (inv : ctx.Inv active) (polled : ctx.Polled next active) : next.Inv active := by
  refine ⟨polled.core, inv.total.trans polled.total.symm, fun nonnull => ?_⟩
  rw [polled.current] at nonnull ⊢
  exact polled.running (inv.current nonnull)

theorem Inv.of_scheduled (total : active.card = ctx.totalTaskCount)
    (scheduled : ctx.Scheduled next active) : next.Inv active := by
  refine ⟨scheduled.core, total.trans scheduled.total.symm, fun nonnull => ?_⟩
  rcases scheduled.choice with ⟨_, null⟩ | ⟨_, _, running⟩
  · exact absurd null nonnull
  · exact running

theorem Inv.setTask (inv : ctx.Inv active) {new : Task} (found : ctx.tasks a = some task)
    (state : new.state = task.state) (key : task.state = .running → new.schedKey = task.schedKey)
    (alive : 0 < new.refCount) : (ctx.setTask a new).Inv active := by
  refine ⟨inv.core.setTask found state key alive, inv.total, fun nonnull => ?_⟩
  rw [stateOf_setTask_same found state]
  exact inv.current nonnull

theorem Inv.taskNew (inv : ctx.Inv active) (nonnull : a ≠ 0) (aligned : 4 ∣ a)
    (absent : ctx.tasks a = none) : (ctx.taskNew a).Inv active := by
  refine ⟨inv.core.taskNew nonnull aligned absent, inv.total, fun current => ?_⟩
  have running := inv.current current
  have other : ctx.currentTask ≠ a := by
    intro same
    rw [same, stateOf, absent] at running
    cases running
  rw [SystemContext.taskNew, stateOf_setTask]
  exact (Function.update_of_ne other ..).trans running

theorem Inv.taskUnref (inv : ctx.Inv active) (found : ctx.tasks a = some task)
    (kept : 1 < task.refCount ∨ task.state = .stopped) :
    ∃ next, ctx.taskUnref a = some next ∧ next.Inv active := by
  simp only [SystemContext.taskUnref, found, Option.bind_eq_bind, Option.bind_some]
  by_cases last : task.refCount - 1 ≠ 0
  · rw [if_pos last]
    exact ⟨_, rfl, inv.setTask found rfl (fun _ => rfl) (Nat.pos_of_ne_zero last)⟩
  · rw [if_neg last]
    have stopped : task.state = .stopped := kept.resolve_left (by omega)
    have state : ctx.stateOf a = some .stopped := stopped ▸ stateOf_eq found
    refine ⟨_, rfl, inv.core.free state, inv.total, fun nonnull => ?_⟩
    have running := inv.current nonnull
    have other : ctx.currentTask ≠ a := by
      intro same
      rw [same, state] at running
      cases running
    simpa [stateOf, other] using running

theorem Inv.taskRun (inv : ctx.Inv active) (found : ctx.tasks a = some task) (bound : active.card < fuel) :
    ∃ next active', ctx.taskRun fuel a = some next ∧ next.Inv active' ∧
      next.stateOf = if task.state = .stopped then Function.update ctx.stateOf a (some .running)
        else ctx.stateOf := by
  by_cases stopped : task.state = .stopped
  -- The key counts from the least one in use, or from zero before the system runs.
  · set new : Task :=
      if ctx.currentTask ≠ 0 then
        { task with
          priority := task.nextPriority
          schedKey := (task.nextPriority + ctx.getMinSchedKey) % 2 ^ 64 }
      else
        { task with priority := task.nextPriority, schedKey := task.nextPriority } with hnew
    have state : new.state = .stopped := by
      rw [hnew]
      split <;> exact stopped
    have refs : new.refCount = task.refCount := by
      rw [hnew]
      split <;> rfl
    have changed : (ctx.setTask a new).Core active := by
      refine inv.core.setTask found (state.trans stopped.symm) ?_ (refs ▸ (inv.core.heap a task found).2.2)
      intro running
      rw [stopped] at running
      cases running
    obtain ⟨mid, enter, core, states, total, current⟩ := changed.insertTask
      (show (ctx.setTask a new).tasks a = some new by simp [SystemContext.setTask])
      (by rw [state]; decide) bound
    have outside : a ∉ active := by
      rw [inv.core.mem_active found, stopped]
      simp
    refine ⟨{ mid with totalTaskCount := mid.totalTaskCount + 1 }, insert a active, ?_,
      ⟨⟨core.sorted, core.running, core.count, core.active, core.heap⟩, ?_, fun nonnull => ?_⟩, ?_⟩
    · unfold SystemContext.taskRun
      rw [found]
      show (if task.state ≠ .stopped then _ else (ctx.setTask a new).insertTask fuel a >>= _) = _
      rw [if_neg (by simp [stopped]), enter]
      rfl
    · rw [Finset.card_insert_of_notMem outside, inv.total]
      exact congrArg (· + 1) total.symm
    · show mid.stateOf mid.currentTask = some .running
      have nonnull' : ctx.currentTask ≠ 0 := current ▸ nonnull
      rw [states, stateOf_setTask, Function.update_idem, current]
      -- The current task runs, so it is another one; either way it is running afterwards.
      by_cases same : ctx.currentTask = a
      · rw [show (ctx.setTask a new).currentTask = a from same, Function.update_self]
      · exact (Function.update_of_ne same ..).trans (inv.current nonnull')
    · rw [if_pos stopped]
      show mid.stateOf = _
      rw [states, stateOf_setTask, Function.update_idem]
  · refine ⟨ctx, active, ?_, inv, (if_neg stopped).symm⟩
    simp [SystemContext.taskRun, found, stopped]

/-! ## Giving up the processor -/

theorem Inv.exists_current (inv : ctx.Inv active) (nonnull : ctx.currentTask ≠ 0) :
    ∃ task, ctx.tasks ctx.currentTask = some task ∧ task.state = .running ∧ 0 < task.refCount := by
  obtain ⟨task, found, running⟩ := exists_task (inv.current nonnull)
  exact ⟨task, found, running, (inv.core.heap _ task found).2.2⟩

theorem updateSchedKey_eq (found : ctx.tasks ctx.currentTask = some task) (now : Option Timespec) :
    ∃ keyed : Task, ctx.updateSchedKey now = some (ctx.setTask ctx.currentTask keyed) ∧
      keyed.state = task.state ∧ keyed.refCount = task.refCount ∧
      (ctx.setTask ctx.currentTask keyed).tasks ctx.currentTask = some keyed := by
  refine ⟨{ task with schedKey := (task.schedKey + ctx.runtime now * task.priority) % 2 ^ 64 }, ?_, rfl,
    rfl, ?_⟩
  · simp [SystemContext.updateSchedKey, found]
  · simp [SystemContext.setTask]

theorem Inv.switch (inv : ctx.Inv active) (nonnull : ctx.currentTask ≠ 0) (now : Option Timespec)
    (bound : active.card < fuel) :
    ∃ mid, (do
        let ctx ← ctx.updateSchedKey now
        ctx.reinsertCurrentTask fuel) = some mid ∧ mid.Core active ∧ mid.stateOf = ctx.stateOf ∧
      mid.totalTaskCount = ctx.totalTaskCount := by
  obtain ⟨task, found, running, alive⟩ := inv.exists_current nonnull
  obtain ⟨keyed, update, state, refs, there⟩ := updateSchedKey_eq found now
  obtain ⟨mid, run, core, states, total, _⟩ := @Core.reinsert _ _ _ _ _ inv.core found
    { keyed with priority := keyed.nextPriority } running (state.trans running) (refs ▸ alive) bound
  refine ⟨mid, ?_, core, states, total⟩
  rw [← @setTask_setTask ctx _ _ keyed] at run
  rw [update]
  show ((ctx.setTask ctx.currentTask keyed).tasks ctx.currentTask >>= fun task => _) = _
  rw [there]
  exact run

theorem removeCurrentTask_eq {tree : RBTreeCached} {keyed : Task} {state : TaskState}
    (erased : (ctx.setTask ctx.currentTask { keyed with state }).eraseNode fuel ctx.currentTask =
      some { ctx.setTask ctx.currentTask { keyed with state } with
        runningTasks := tree
        arrivals := ctx.arrivals.erase ctx.currentTask })
    (there : ctx.tasks ctx.currentTask = some keyed) {removed : SystemContext}
    (hremoved : removed = { ctx.setTask ctx.currentTask { keyed with state } with
        runningTasks := tree
        arrivals := ctx.arrivals.erase ctx.currentTask
        runningTaskCount := ctx.runningTaskCount - 1 }) :
    ctx.removeCurrentTask fuel state =
      if state = .stopped then
        SystemContext.taskUnref { removed with totalTaskCount := ctx.totalTaskCount - 1 } ctx.currentTask
      else
        some (removed.setTask ctx.currentTask { keyed with state, schedKey := keyed.nextPriority }) := by
  subst hremoved
  unfold SystemContext.removeCurrentTask
  simp only [there, Option.bind_eq_bind, Option.bind_some, erased]
  split
  · rfl
  · simp [SystemContext.setTask]

theorem Inv.wait (inv : ctx.Inv active) (nonnull : ctx.currentTask ≠ 0) (now : Option Timespec)
    (bound : active.card < fuel) :
    ∃ mid, (do
        let ctx ← ctx.updateSchedKey now
        ctx.removeCurrentTask fuel .waiting) = some mid ∧ mid.Core active ∧
      mid.stateOf = Function.update ctx.stateOf ctx.currentTask (some .waiting) ∧
      mid.totalTaskCount = ctx.totalTaskCount := by
  obtain ⟨task, found, running, alive⟩ := inv.exists_current nonnull
  obtain ⟨keyed, update, state, refs, there⟩ := updateSchedKey_eq found now
  obtain ⟨tree, erased, core⟩ := @Core.leave _ _ _ _ fuel inv.core found { keyed with state := .waiting }
    running (by simp) (refs ▸ alive) bound
  rw [if_pos rfl] at core
  rw [← @setTask_setTask ctx _ _ keyed] at erased core
  set removed : SystemContext :=
    { (ctx.setTask ctx.currentTask keyed).setTask ctx.currentTask { keyed with state := .waiting } with
      runningTasks := tree
      arrivals := ctx.arrivals.erase ctx.currentTask
      runningTaskCount := ctx.runningTaskCount - 1 } with hremoved
  have run := @removeCurrentTask_eq (ctx.setTask ctx.currentTask keyed) fuel tree keyed .waiting erased there
    removed rfl
  rw [if_neg (by decide)] at run
  refine ⟨removed.setTask ctx.currentTask { keyed with state := .waiting, schedKey := keyed.nextPriority },
    ?_, ?_, ?_, rfl⟩
  · rw [update]
    exact run
  -- The key of a waiting task is relative and in no tree.
  · refine core.setTask (show removed.tasks ctx.currentTask = some { keyed with state := .waiting } from ?_)
      rfl (fun h => by cases h) (refs ▸ alive)
    simp [hremoved, SystemContext.setTask]
  · rw [stateOf_setTask]
    funext b
    by_cases same : b = ctx.currentTask
    · simp [same]
    · simp [hremoved, same, SystemContext.setTask, stateOf]

theorem Inv.stop (inv : ctx.Inv active) (nonnull : ctx.currentTask ≠ 0) (bound : active.card < fuel) :
    ∃ mid, ctx.removeCurrentTask fuel .stopped = some mid ∧ mid.Core (active.erase ctx.currentTask) ∧
      (mid.stateOf = Function.update ctx.stateOf ctx.currentTask (some .stopped) ∨
        mid.stateOf = Function.update ctx.stateOf ctx.currentTask none) ∧
      (active.erase ctx.currentTask).card = mid.totalTaskCount := by
  obtain ⟨task, found, running, alive⟩ := inv.exists_current nonnull
  obtain ⟨tree, erased, core⟩ := @Core.leave _ _ _ _ fuel inv.core found { task with state := .stopped }
    running (by simp) alive bound
  rw [if_neg (by simp)] at core
  set removed : SystemContext :=
    { ctx.setTask ctx.currentTask { task with state := .stopped } with
      runningTasks := tree
      arrivals := ctx.arrivals.erase ctx.currentTask
      runningTaskCount := ctx.runningTaskCount - 1 } with hremoved
  have run := @removeCurrentTask_eq ctx fuel tree task .stopped erased found removed rfl
  rw [if_pos rfl] at run
  set counted : SystemContext := { removed with totalTaskCount := ctx.totalTaskCount - 1 } with hcounted
  have core' : counted.Core (active.erase ctx.currentTask) :=
    ⟨core.sorted, core.running, core.count, core.active, core.heap⟩
  have there : counted.tasks ctx.currentTask = some { task with state := .stopped } := by
    simp [hcounted, hremoved, SystemContext.setTask]
  have states : counted.stateOf = Function.update ctx.stateOf ctx.currentTask (some .stopped) :=
    stateOf_setTask
  have member : ctx.currentTask ∈ active := by
    rw [inv.core.mem_active found, running]
    decide
  have card : (active.erase ctx.currentTask).card = ctx.totalTaskCount - 1 := by
    rw [Finset.card_erase_of_mem member, inv.total]
  simp only [SystemContext.taskUnref, there, Option.bind_eq_bind, Option.bind_some] at run
  -- A task that nobody refers to is freed at once.
  by_cases last : task.refCount - 1 ≠ 0
  · rw [if_pos last] at run
    refine ⟨_, run, core'.setTask there rfl (fun h => by cases h) (Nat.pos_of_ne_zero last), .inl ?_, card⟩
    rw [stateOf_setTask, states, Function.update_idem]
  · rw [if_neg last] at run
    refine ⟨_, run, core'.free (by rw [states, Function.update_self]), .inr ?_, card⟩
    rw [stateOf_free, states, Function.update_idem]

def Chosen (ctx : SystemContext) : Prop :=
  (ctx.currentTask = 0 ∧ ∀ a, ctx.stateOf a ≠ some .running ∧ ctx.stateOf a ≠ some .waiting) ∨
    (ctx.currentTask ≠ 0 ∧ ctx.currentTask = ctx.runningTasks.cachedFirst ∧
      ctx.stateOf ctx.currentTask = some .running)

theorem Scheduled.chosen {mid : SystemContext} (scheduled : mid.Scheduled next active) : next.Chosen := by
  refine scheduled.choice.imp_left fun ⟨empty, null⟩ => ⟨null, fun a => ?_⟩
  have none := mt (scheduled.core.active a).mpr (by simp [empty])
  exact ⟨fun h => none (.inl h), fun h => none (.inr h)⟩

theorem Inv.schedule {mid : SystemContext} {polls : List (List Addr)} {clock : Option Timespec}
    (core : mid.Core active) (total : active.card = mid.totalTaskCount) (bound : active.card < fuel)
    (run : mid.scheduleNext fuel polls clock = some next) : next.Inv active ∧ next.Chosen := by
  have scheduled := core.scheduled total bound run
  exact ⟨.of_scheduled total scheduled, scheduled.chosen⟩

variable {op : SchedOp}

theorem Inv.step (inv : ctx.Inv active) (ready : op.Ready ctx) (bound : active.card < fuel)
    (run : op.apply fuel ctx = some next) :
    ∃ active', next.Inv active' ∧ (op.Schedules → next.Chosen) := by
  cases op with
  | new a =>
    obtain ⟨nonnull, aligned, absent⟩ := ready
    cases run
    exact ⟨active, inv.taskNew nonnull aligned absent, False.elim⟩
  | ref a =>
    obtain ⟨task, found⟩ := Option.isSome_iff_exists.mp ready
    simp only [SchedOp.apply, taskRef, found, Option.bind_eq_bind, Option.bind_some] at run
    cases run
    exact ⟨active, inv.setTask found rfl (fun _ => rfl) (Nat.succ_pos _), False.elim⟩
  | unref a =>
    obtain ⟨task, found, kept⟩ := ready
    obtain ⟨next', run', inv'⟩ := inv.taskUnref found kept
    cases run.symm.trans run'
    exact ⟨active, inv', False.elim⟩
  | setPriority a priority =>
    obtain ⟨task, found⟩ := Option.isSome_iff_exists.mp ready
    simp only [SchedOp.apply, taskSetPriority, found, Option.bind_eq_bind, Option.bind_some] at run
    cases run
    exact ⟨active, inv.setTask found rfl (fun _ => rfl) (inv.core.heap a task found).2.2, False.elim⟩
  | run a =>
    obtain ⟨task, found⟩ := Option.isSome_iff_exists.mp ready
    obtain ⟨next', active', run', inv', _⟩ := inv.taskRun found bound
    cases run.symm.trans run'
    exact ⟨active', inv', False.elim⟩
  | wakeup a =>
    obtain ⟨next', run', polled, _⟩ := inv.core.wakeupTask ((inv.core.active a).mpr ready) bound
    cases run.symm.trans run'
    exact ⟨active, inv.of_polled polled, False.elim⟩
  | yield type now polls clock =>
    simp only [SchedOp.apply, taskYield, Option.bind_eq_bind] at run
    cases type with
    | yield =>
      obtain ⟨mid, enter, core, _, total⟩ := inv.switch ready now bound
      rw [Option.bind_eq_bind] at enter
      rw [← Option.bind_assoc, enter, Option.bind_some] at run
      obtain ⟨inv', chosen⟩ := Inv.schedule core (inv.total.trans total.symm) bound run
      exact ⟨active, inv', fun _ => chosen⟩
    | waitio =>
      obtain ⟨mid, enter, core, _, total⟩ := inv.wait ready now bound
      rw [Option.bind_eq_bind] at enter
      rw [← Option.bind_assoc, enter, Option.bind_some] at run
      obtain ⟨inv', chosen⟩ := Inv.schedule core (inv.total.trans total.symm) bound run
      exact ⟨active, inv', fun _ => chosen⟩
  | exit polls clock =>
    obtain ⟨mid, enter, core, _, total⟩ := inv.stop ready bound
    simp only [SchedOp.apply, taskExit, Option.bind_eq_bind, enter, Option.bind_some] at run
    obtain ⟨inv', chosen⟩ := Inv.schedule core total (Nat.lt_of_le_of_lt (Finset.card_erase_le) bound) run
    exact ⟨_, inv', fun _ => chosen⟩
  | systemRun polls clock =>
    obtain ⟨inv', chosen⟩ := Inv.schedule inv.core inv.total bound run
    exact ⟨active, inv', fun _ => chosen⟩

theorem Inv.returns (inv : ctx.Inv active) (ready : op.Ready ctx) (reports : op.Reports ctx)
    (bound : active.card < fuel) : ∃ next, op.apply fuel ctx = some next := by
  cases op with
  | new a => exact ⟨_, rfl⟩
  | ref a =>
    obtain ⟨task, found⟩ := Option.isSome_iff_exists.mp ready
    exact ⟨_, by simp [SchedOp.apply, taskRef, found]; rfl⟩
  | unref a =>
    obtain ⟨task, found, kept⟩ := ready
    obtain ⟨next, run, _⟩ := inv.taskUnref found kept
    exact ⟨next, run⟩
  | setPriority a priority =>
    obtain ⟨task, found⟩ := Option.isSome_iff_exists.mp ready
    exact ⟨_, by simp [SchedOp.apply, taskSetPriority, found]; rfl⟩
  | run a =>
    obtain ⟨task, found⟩ := Option.isSome_iff_exists.mp ready
    obtain ⟨next, _, run, _⟩ := inv.taskRun found bound
    exact ⟨next, run⟩
  | wakeup a =>
    obtain ⟨next, run, _⟩ := inv.core.wakeupTask ((inv.core.active a).mpr ready) bound
    exact ⟨next, run⟩
  | yield type now polls clock =>
    have inside : ∀ events ∈ polls, ∀ a ∈ events, a ∈ active :=
      fun events h a h' => (inv.core.active a).mpr (reports.1 events h a h')
    simp only [SchedOp.apply, taskYield, Option.bind_eq_bind]
    cases type with
    | yield =>
      obtain ⟨mid, enter, core, states, total⟩ := inv.switch ready now bound
      rw [Option.bind_eq_bind] at enter
      rw [← Option.bind_assoc, enter, Option.bind_some]
      refine core.scheduleNext_returns (inv.total.trans total.symm) bound clock inside fun _ idle => ?_
      -- The task that yields keeps running, so the scheduler does not wait for an event.
      exact absurd (states ▸ inv.current ready) (idle ctx.currentTask)
    | waitio =>
      obtain ⟨mid, enter, core, states, total⟩ := inv.wait ready now bound
      rw [Option.bind_eq_bind] at enter
      rw [← Option.bind_assoc, enter, Option.bind_some]
      refine core.scheduleNext_returns (inv.total.trans total.symm) bound clock inside fun _ idle => ?_
      -- The scheduler is idle: a poll reports some event, which is what the input promises.
      refine reports.2 rfl fun a other => ?_
      have rest := idle a
      rwa [states, Function.update_of_ne other] at rest
  | exit polls clock =>
    obtain ⟨mid, enter, core, states, total⟩ := inv.stop ready bound
    have elsewhere : ∀ a, a ≠ ctx.currentTask → mid.stateOf a = ctx.stateOf a := by
      intro a other
      rcases states with states | states
      · rw [states, Function.update_of_ne other]
      · rw [states, Function.update_of_ne other]
    simp only [SchedOp.apply, taskExit, Option.bind_eq_bind, enter, Option.bind_some]
    refine core.scheduleNext_returns total (Nat.lt_of_le_of_lt Finset.card_erase_le bound) clock ?_ ?_
    · intro events h a h'
      obtain ⟨other, state⟩ := reports.1 events h a h'
      exact Finset.mem_erase.mpr ⟨other, (inv.core.active a).mpr state⟩
    · rintro ⟨a, member⟩ idle
      have other := (Finset.mem_erase.mp member).1
      have waiting := ((core.active a).mp member).resolve_left (idle a)
      refine reports.2 ⟨a, elsewhere a other ▸ waiting⟩ fun b other => ?_
      rw [← elsewhere b other]
      exact idle b
  | systemRun polls clock =>
    refine inv.core.scheduleNext_returns inv.total bound clock
      (fun events h a h' => (inv.core.active a).mpr (reports.1 events h a h')) ?_
    rintro ⟨a, member⟩ idle
    exact reports.2 ⟨a, ((inv.core.active a).mp member).resolve_left (idle a)⟩ idle

end SystemContext

/-! ## The structural invariant -/

/-- The running tree, the counters and the task states agree, and the tree is sorted
by `sched_key` with equal keys in the order of insertion. -/
structure SystemContext.Wellformed (ctx : SystemContext) : Prop where
  tree : ∃ t, ctx.runningTasks.base.Represents t ∧ t.Valid ∧
    (∀ a, a ∈ t.toList ↔ ctx.stateOf a = some .running) ∧
    ctx.runningTaskCount = t.toList.length ∧ t.toList.Perm ctx.arrivals ∧
    t.toList.Pairwise fun a b => ctx.schedKey a < ctx.schedKey b ∨
      (ctx.schedKey a = ctx.schedKey b ∧ [a, b].Sublist ctx.arrivals)
  total : ∃ active : Finset Addr, active.card = ctx.totalTaskCount ∧
    ∀ a, a ∈ active ↔ ctx.stateOf a = some .running ∨ ctx.stateOf a = some .waiting
  current : ctx.currentTask ≠ 0 → ctx.stateOf ctx.currentTask = some .running

theorem SystemContext.Inv.wellformed {ctx : SystemContext} {active : Finset Addr} (inv : ctx.Inv active) :
    ctx.Wellformed := by
  refine ⟨?_, ⟨active, inv.total, inv.core.active⟩, inv.current⟩
  obtain ⟨order, holds, perm, pairwise⟩ := inv.core.sorted
  obtain ⟨t, represents, valid, rfl⟩ := holds.base
  refine ⟨t, represents, valid, fun a => ?_, ?_, perm, pairwise⟩
  · rw [perm.mem_iff]
    exact inv.core.running a
  · rw [perm.length_eq]
    exact inv.core.count

theorem schedSystem_inv {ops : List SchedOp} {ctx : SystemContext} (run : schedSystem.Run ops ctx) :
    ∃ active, ctx.Inv active := by
  refine run.invariant (fun ctx => ∃ active, ctx.Inv active) ?_ ?_
  · rintro ctx ⟨total, count, current, root, leftmost, tasks, arrivals⟩
    have state : ∀ a, ctx.stateOf a = none := fun a => by simp [stateOf, tasks a]
    have holds : ctx.runningTasks.Holds [] :=
      ⟨⟨.leaf, ⟨root, trivial, List.nodup_nil⟩, .of_balanced rfl rfl, rfl⟩, leftmost⟩
    refine ⟨∅, ⟨⟨[], holds, ?_, .nil⟩, ?_, ?_, ?_, ?_⟩, total.symm, fun nonnull => absurd current nonnull⟩
    · show [].Perm ctx.arrivals
      rw [arrivals]
    · simp [arrivals, state]
    · simp [count, arrivals]
    · simp [state]
    · intro a task found
      simp [tasks a] at found
  · rintro ctx op next ⟨active, inv⟩ ⟨ready, fuel, result⟩
    have enough := SchedOp.apply_stable (Nat.le_max_left fuel (active.card + 1)) result
    obtain ⟨active', inv', _⟩ := inv.step ready (Nat.le_max_right fuel (active.card + 1)) enough
    exact ⟨active', inv'⟩

/-- Between any two operations the context is well formed. An operation that enters the
scheduler leaves it for the first task of the tree, or for the caller of
`hev_task_system_run` once no task is running or waiting; and every operation returns. -/
theorem scheduler_correct {ops : List SchedOp} {ctx : SystemContext} (run : schedSystem.Run ops ctx) :
    ctx.Wellformed ∧
      (∀ op next, schedSystem.step ctx op next → op.Schedules → next.Chosen) ∧
      ∀ op : SchedOp, op.Ready ctx → op.Reports ctx → ∀ fuel, ctx.totalTaskCount < fuel →
        ∃ next, op.apply fuel ctx = some next := by
  obtain ⟨active, inv⟩ := schedSystem_inv run
  refine ⟨inv.wellformed, ?_, ?_⟩
  · rintro op next ⟨ready, fuel, result⟩
    have enough := SchedOp.apply_stable (Nat.le_max_left fuel (active.card + 1)) result
    obtain ⟨_, _, chosen⟩ := inv.step ready (Nat.le_max_right fuel (active.card + 1)) enough
    exact chosen
  · intro op ready reports fuel bound
    exact inv.returns ready reports (inv.total ▸ bound)

instance SchedOp.decidableReady (ctx : SystemContext) (op : SchedOp) : Decidable (op.Ready ctx) :=
  match op with
  | .new a => inferInstanceAs (Decidable (a ≠ 0 ∧ 4 ∣ a ∧ ctx.tasks a = none))
  | .ref a | .setPriority a _ | .run a => inferInstanceAs (Decidable ((ctx.tasks a).isSome = true))
  | .unref a => decidable_of_iff ((ctx.tasks a).any fun task => 1 < task.refCount ∨ task.state = .stopped)
      (by simp [SchedOp.Ready, Option.any_eq_true])
  | .wakeup a =>
    inferInstanceAs (Decidable (ctx.stateOf a = some .running ∨ ctx.stateOf a = some .waiting))
  | .yield .. | .exit .. => inferInstanceAs (Decidable (ctx.currentTask ≠ 0))
  | .systemRun .. => inferInstanceAs (Decidable (ctx.currentTask = 0))

def SchedOp.perform (fuel : Nat) (ctx : SystemContext) (op : SchedOp) : Option SystemContext :=
  if op.Ready ctx then op.apply fuel ctx else none

theorem SchedOp.perform_sound {fuel : Nat} {ctx next : SystemContext} {op : SchedOp}
    (result : op.perform fuel ctx = some next) : schedSystem.step ctx op next := by
  unfold perform at result
  split at result
  · exact ⟨‹_›, fuel, result⟩
  · cases result

def SystemContext.blank : SystemContext := ⟨0, 0, 0, ⟨RBTree.blank, 0⟩, ⟨0, 0⟩, fun _ => none, []⟩

theorem schedSystem_exec (fuel : Nat) (final : SystemContext → Bool) (ops : List SchedOp)
    (result : (ops.foldlM (SchedOp.perform fuel) .blank).any final = true) :
    ∃ ctx, schedSystem.Run ops ctx ∧ final ctx = true :=
  System.Run.exists_exec _ final (fun _ _ _ => SchedOp.perform_sound)
    (.init ⟨rfl, rfl, rfl, rfl, rfl, fun _ => rfl, rfl⟩) ops result

/-- Two tasks: the second waits while the first leaves, and a later poll wakes it. -/
theorem scheduler_correct_two : ∃ ctx, schedSystem.Run [.new 8, .new 16, .run 8, .run 16, .systemRun [] none,
      .yield .yield none [] none, .yield .waitio none [] none, .exit [[], [16]] none] ctx ∧
    ctx.Wellformed ∧ ctx.stateOf 16 = some .running ∧ ctx.totalTaskCount = 1 := by
  obtain ⟨ctx, run, final⟩ := schedSystem_exec 3 (fun ctx => ctx.stateOf 16 = some .running ∧ ctx.totalTaskCount = 1)
    [.new 8, .new 16, .run 8, .run 16, .systemRun [] none, .yield .yield none [] none,
      .yield .waitio none [] none, .exit [[], [16]] none] (by decide)
  exact ⟨ctx, run, (scheduler_correct run).1, of_decide_eq_true final⟩

end HevTaskSystem
