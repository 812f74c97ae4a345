import HevTaskSystem.Foundation.FairQueue
import HevTaskSystem.Scheduler.System

/-! The running tasks as a queue that charges turns to keys.

Without a schedule clock a turn costs the priority of the task. For the keys an operation
of the scheduler is a turn of the current task, or its leaving, and then tasks that enter:
those that are started or woken. As long as no key wraps, these are the moves of a fair
queue. A wait replaces the key of the task by what will be charged when it is woken.
-/

set_option autoImplicit false

namespace HevTaskSystem

open Foundation

/-- Priorities that are charged: at least `lo`. -/
def FairPriority (lo p : Nat) : Prop := lo ≤ p ∧ p ≤ 15

/-- What a task will be charged is fair: its priority at its next turn if it is running, its
key if it is waiting, and its next priority later on. -/
structure Task.Rated (lo : Nat) (task : Task) : Prop where
  next : FairPriority lo task.nextPriority
  turn : task.state = .running → FairPriority lo task.priority
  wake : task.state = .waiting → FairPriority lo task.schedKey
  key : task.schedKey < 2 ^ 64

theorem Task.Rated.enter {lo key : Nat} {task : Task} (fair : task.Rated lo) (fits : key < 2 ^ 64) :
    Task.Rated lo { task with state := .running, priority := task.nextPriority, schedKey := key } :=
  ⟨fair.next, fun _ => fair.next, fun waits => (by cases waits), fits⟩

theorem Task.Rated.start {lo min : Nat} {task : Task} {started : Prop} [Decidable started] (fair : task.Rated lo) :
    Task.Rated lo { task with
      state := .running
      priority := task.nextPriority
      schedKey := if started then (task.nextPriority + min) % 2 ^ 64 else task.nextPriority } := by
  refine fair.enter ?_
  split
  · exact Nat.mod_lt _ (by decide)
  · exact Nat.lt_of_le_of_lt fair.next.2 (by decide)

namespace SystemContext

def priority (ctx : SystemContext) (a : Addr) : Nat := (ctx.tasks a).elim 0 Task.priority

def nextPriority (ctx : SystemContext) (a : Addr) : Nat := (ctx.tasks a).elim 0 Task.nextPriority

def queue (ctx : SystemContext) (charge : Addr → Nat) : FairQueue Addr := fun a =>
  if ctx.stateOf a = some .running then some ⟨ctx.schedKey a, charge a⟩ else none

def woken (ctx next : SystemContext) (charge : Addr → Nat) : Addr → Nat := fun a =>
  if ctx.stateOf a = some .waiting ∧ next.stateOf a = some .running then ctx.schedKey a else charge a

variable {ctx mid next : SystemContext} {active : Finset Addr} {a b : Addr} {task : Task} {fuel lo : Nat}
  {charge : Addr → Nat} {events : List Addr} {polls : List (List Addr)}

/-! ## No wrap -/

def WakeFits (ctx : SystemContext) (a : Addr) : Prop :=
  ctx.stateOf a = some .waiting → ctx.schedKey a + ctx.getMinSchedKey < 2 ^ 64

def PollFits : List Addr → SystemContext → Prop
  | [], _ => True
  | a :: events, ctx => ctx.WakeFits a ∧ ∀ fuel next, ctx.wakeupTask fuel a = some next → PollFits events next

/-- The same for the polls of one choice, up to the one that ends it. -/
def PollsFit : List (List Addr) → SystemContext → Prop
  | [], _ => True
  | events :: polls, ctx => PollFits events ctx ∧
      ∀ fuel next, ctx.ioPoll fuel events = some next → next.runningTaskCount = 0 → PollsFit polls next

/-- The choice of the next task polls only if some task is waiting. -/
def PickFits (ctx : SystemContext) (polls : List (List Addr)) : Prop :=
  ctx.runningTaskCount < ctx.totalTaskCount → PollsFit polls ctx

/-! ## Entries -/

theorem queue_of_running (running : ctx.stateOf a = some .running) :
    ctx.queue charge a = some ⟨ctx.schedKey a, charge a⟩ := if_pos running

theorem queue_of_not_running (idle : ctx.stateOf a ≠ some .running) : ctx.queue charge a = none := if_neg idle

theorem of_queue {e : Entry} (here : ctx.queue charge a = some e) :
    ctx.stateOf a = some .running ∧ e = ⟨ctx.schedKey a, charge a⟩ := by
  unfold queue at here
  split at here
  · exact ⟨‹_›, (Option.some.inj here).symm⟩
  · cases here

theorem schedKey_eq (found : ctx.tasks a = some task) : ctx.schedKey a = task.schedKey := by
  simp [schedKey, found]

theorem priority_eq (found : ctx.tasks a = some task) : ctx.priority a = task.priority := by
  simp [priority, found]

theorem nextPriority_eq (found : ctx.tasks a = some task) : ctx.nextPriority a = task.nextPriority := by
  simp [nextPriority, found]

theorem schedKey_of_tasks (tasks : next.tasks = Function.update ctx.tasks a (some task)) :
    next.schedKey = Function.update ctx.schedKey a task.schedKey := by
  rw [← schedKey_setTask]
  funext b
  simp [schedKey, tasks, setTask]

theorem queue_update {charge' : Addr → Nat} (tasks : next.tasks = Function.update ctx.tasks a (some task))
    (running : task.state = .running) (same : ∀ b, b ≠ a → charge' b = charge b) :
    next.queue charge' = Function.update (ctx.queue charge) a (some ⟨task.schedKey, charge' a⟩) := by
  have states := stateOf_of_tasks tasks
  have keys := schedKey_of_tasks tasks
  funext b
  by_cases here : b = a
  · subst here
    rw [Function.update_self, queue_of_running (by rw [states, Function.update_self, running]), keys,
      Function.update_self]
  · rw [Function.update_of_ne here, queue, queue, states, keys, Function.update_of_ne here, Function.update_of_ne here,
      same b here]

theorem queue_leave {entry : Option Task} (tasks : next.tasks = Function.update ctx.tasks a entry)
    (idle : entry.map Task.state ≠ some .running) : next.queue charge = (ctx.queue charge).leave a := by
  funext b
  by_cases here : b = a
  · subst here
    rw [FairQueue.leave, Function.update_self, queue_of_not_running]
    simpa [stateOf, tasks] using idle
  · rw [FairQueue.leave_of_ne here]
    simp [queue, stateOf, schedKey, tasks, here]

theorem queue_congr {charge' : Addr → Nat} (states : ∀ b, next.stateOf b = some .running ↔ ctx.stateOf b = some .running)
    (keys : ∀ b, ctx.stateOf b = some .running → next.schedKey b = ctx.schedKey b)
    (charges : ∀ b, ctx.stateOf b = some .running → charge' b = charge b) : next.queue charge' = ctx.queue charge := by
  funext b
  by_cases running : ctx.stateOf b = some .running
  · rw [queue_of_running running, queue_of_running ((states b).mpr running), keys b running, charges b running]
  · rw [queue_of_not_running running, queue_of_not_running (mt (states b).mp running)]

theorem woken_of_same (same : next.stateOf a = ctx.stateOf a) : ctx.woken next charge a = charge a := by
  refine if_neg ?_
  rintro ⟨waiting, running⟩
  rw [same, waiting] at running
  cases running

theorem woken_self : ctx.woken ctx charge = charge := funext fun _ => woken_of_same rfl

theorem Core.first_le (core : ctx.Core active) (running : ctx.stateOf a = some .running) :
    ctx.runningTasks.cachedFirst ∈ ctx.arrivals ∧ ctx.schedKey ctx.runningTasks.cachedFirst ≤ ctx.schedKey a := by
  have member := (core.running a).mpr running
  obtain ⟨first, least⟩ := core.sorted.firstLeast (List.ne_nil_of_mem member)
  refine ⟨first, ?_⟩
  by_cases same : a = ctx.runningTasks.cachedFirst
  · rw [← same]
  · rcases least a member same with less | ⟨equal, _⟩
    · exact Nat.le_of_lt less
    · exact Nat.le_of_eq equal

theorem Core.getMinSchedKey_eq (core : ctx.Core active) (running : ctx.stateOf a = some .running) :
    ctx.getMinSchedKey = ctx.schedKey ctx.runningTasks.cachedFirst := by
  have first := (core.running _).mp (core.first_le running).1
  obtain ⟨task, found, _⟩ := exists_task first
  simp [getMinSchedKey, (core.heap _ task found).1]

theorem Core.least (core : ctx.Core active) (charge : Addr → Nat) : (ctx.queue charge).Least ctx.getMinSchedKey := by
  refine ⟨fun a e here => ?_, fun a e here => ?_, fun none => ?_⟩
  · obtain ⟨running, rfl⟩ := of_queue here
    rw [core.getMinSchedKey_eq running]
    exact (core.first_le running).2
  · obtain ⟨running, _⟩ := of_queue here
    have first := (core.running _).mp (core.first_le running).1
    exact ⟨_, _, queue_of_running first, (core.getMinSchedKey_eq running).symm⟩
  · have empty : ctx.arrivals = [] := by
      refine List.eq_nil_iff_forall_not_mem.mpr fun a member => ?_
      have here := none a
      rw [queue_of_running ((core.running a).mp member)] at here
      cases here
    obtain ⟨order, holds, perm, _⟩ := core.sorted
    have leftmost : ctx.runningTasks.cachedFirst = order.headD 0 := holds.leftmost
    have none : order = [] := List.Perm.eq_nil (perm.trans (List.Perm.of_eq empty))
    simp [getMinSchedKey, leftmost, none]

/-! ## What the operations write -/

theorem insertNode_fields (run : ctx.insertNode fuel a = some next) :
    ∃ tree, next = { ctx with runningTasks := tree, arrivals := ctx.arrivals ++ [a] } := by
  simp only [insertNode, Option.bind_eq_bind, Option.bind_eq_some_iff, Option.pure_def, Option.some.injEq] at run
  obtain ⟨tree, _, rfl⟩ := run
  exact ⟨tree, rfl⟩

theorem eraseNode_fields (run : ctx.eraseNode fuel a = some next) :
    ∃ tree, next = { ctx with runningTasks := tree, arrivals := ctx.arrivals.erase a } := by
  simp only [eraseNode, Option.bind_eq_bind, Option.bind_eq_some_iff, Option.pure_def, Option.some.injEq] at run
  obtain ⟨tree, _, rfl⟩ := run
  exact ⟨tree, rfl⟩

theorem insertTask_fields (run : ctx.insertTask fuel a = some next) : ∃ task, ctx.tasks a = some task ∧
    next.tasks = Function.update ctx.tasks a (some { task with state := .running, priority := task.nextPriority }) ∧
    next.arrivals = ctx.arrivals ++ [a] ∧ next.currentTask = ctx.currentTask := by
  simp only [insertTask, Option.bind_eq_bind, Option.bind_eq_some_iff, Option.pure_def, Option.some.injEq] at run
  obtain ⟨task, found, mid, insert, rfl⟩ := run
  obtain ⟨tree, rfl⟩ := insertNode_fields insert
  exact ⟨task, found, rfl, rfl, rfl⟩

theorem wakeupTask_fields (run : ctx.wakeupTask fuel a = some next) :
    (next = ctx ∧ ctx.stateOf a = some .running) ∨ ∃ task, ctx.tasks a = some task ∧ task.state = .waiting ∧
      next.tasks = Function.update ctx.tasks a (some { task with
        state := .running
        priority := task.nextPriority
        schedKey := (task.schedKey + ctx.getMinSchedKey) % 2 ^ 64 }) ∧
      next.arrivals = ctx.arrivals ++ [a] ∧ next.currentTask = ctx.currentTask := by
  simp only [wakeupTask, Option.bind_eq_bind, Option.bind_eq_some_iff] at run
  obtain ⟨task, found, run⟩ := run
  cases state : task.state with
  | running =>
    simp only [state] at run
    cases run
    exact .inl ⟨rfl, by rw [stateOf_eq found, state]⟩
  | stopped =>
    simp only [state] at run
    cases run
  | waiting =>
    simp only [state] at run
    obtain ⟨task', found', tasks, arrivals, current⟩ := insertTask_fields run
    have same : { task with schedKey := (task.schedKey + ctx.getMinSchedKey) % 2 ^ 64 } = task' := by
      simpa [setTask, state] using found'
    subst same
    refine .inr ⟨task, found, state, ?_, arrivals, current⟩
    simpa [setTask, Function.update_idem] using tasks

theorem setTask_self : (ctx.setTask a task).tasks a = some task := Function.update_self ..

theorem taskRun_fields (run : ctx.taskRun fuel a = some next) :
    (next = ctx ∧ ctx.stateOf a ≠ some .stopped) ∨ ∃ task, ctx.tasks a = some task ∧ task.state = .stopped ∧
      next.tasks = Function.update ctx.tasks a (some { task with
        state := .running
        priority := task.nextPriority
        schedKey := if ctx.currentTask ≠ 0 then (task.nextPriority + ctx.getMinSchedKey) % 2 ^ 64
          else task.nextPriority }) ∧
      next.arrivals = ctx.arrivals ++ [a] ∧ next.currentTask = ctx.currentTask := by
  simp only [taskRun, Option.bind_eq_bind, Option.bind_eq_some_iff] at run
  obtain ⟨task, found, run⟩ := run
  by_cases stopped : task.state = .stopped
  · rw [if_neg (not_not.mpr stopped), Option.bind_eq_some_iff] at run
    obtain ⟨mid, insert, run⟩ := run
    cases run
    obtain ⟨new, found', tasks, arrivals, current⟩ := insertTask_fields insert
    refine .inr ⟨task, found, stopped, ?_, arrivals, current⟩
    obtain rfl := Option.some.inj (setTask_self.symm.trans found')
    refine tasks.trans ((Function.update_idem ..).trans ?_)
    split <;> rfl
  · rw [if_pos stopped] at run
    cases run
    refine .inl ⟨rfl, fun is => stopped ?_⟩
    exact Option.some.inj ((stateOf_eq found).symm.trans is)

theorem switch_fields {now : Option Timespec} (found : ctx.tasks ctx.currentTask = some task)
    (run : ((ctx.updateSchedKey now).bind fun mid => mid.reinsertCurrentTask fuel) = some next) :
    next.tasks = Function.update ctx.tasks ctx.currentTask (some { task with
      priority := task.nextPriority
      schedKey := (task.schedKey + ctx.runtime now * task.priority) % 2 ^ 64 }) := by
  simp only [updateSchedKey, found, reinsertCurrentTask, Option.bind_eq_bind, Option.bind_some, Option.pure_def,
    Option.bind_eq_some_iff] at run
  obtain ⟨task', found', erased, erase, insert⟩ := run
  obtain ⟨_, rfl⟩ := eraseNode_fields erase
  obtain ⟨_, rfl⟩ := insertNode_fields insert
  obtain rfl := Option.some.inj (setTask_self.symm.trans found')
  simp [setTask]

theorem wait_fields {now : Option Timespec} (found : ctx.tasks ctx.currentTask = some task)
    (run : ((ctx.updateSchedKey now).bind fun mid => mid.removeCurrentTask fuel .waiting) = some next) :
    next.tasks = Function.update ctx.tasks ctx.currentTask (some { task with
      state := .waiting
      schedKey := task.nextPriority }) := by
  simp only [updateSchedKey, found, removeCurrentTask, Option.bind_eq_bind, Option.bind_some, Option.pure_def,
    Option.bind_eq_some_iff] at run
  obtain ⟨task', found', erased, erase, run⟩ := run
  obtain ⟨_, rfl⟩ := eraseNode_fields erase
  obtain rfl := Option.some.inj (setTask_self.symm.trans found')
  rw [if_neg (by decide), Option.bind_eq_some_iff] at run
  obtain ⟨task', found', run⟩ := run
  cases run
  have same : task' = { task with
      state := .waiting
      schedKey := (task.schedKey + ctx.runtime now * task.priority) % 2 ^ 64 } := by
    simpa [setTask] using found'.symm
  subst same
  simp [setTask]

theorem stop_fields (found : ctx.tasks ctx.currentTask = some task)
    (run : ctx.removeCurrentTask fuel .stopped = some next) :
    next.tasks = Function.update ctx.tasks ctx.currentTask
      (if task.refCount - 1 ≠ 0 then some { task with state := .stopped, refCount := task.refCount - 1 } else none) := by
  simp only [removeCurrentTask, found, Option.bind_eq_bind, Option.bind_some, Option.bind_eq_some_iff] at run
  obtain ⟨erased, erase, run⟩ := run
  obtain ⟨_, rfl⟩ := eraseNode_fields erase
  simp only [setTask, if_true, taskUnref, Function.update_self, Option.bind_eq_bind, Option.bind_some] at run
  split at run
  · cases run
    rw [if_pos ‹_›]
    exact Function.update_idem ..
  · cases run
    rw [if_neg ‹_›]
    exact Function.update_idem ..

/-! ## Priorities -/

def Rated (lo : Nat) (ctx : SystemContext) : Prop := ∀ a task, ctx.tasks a = some task → task.Rated lo

theorem Rated.of_tasks (rated : ctx.Rated lo) (tasks : next.tasks = Function.update ctx.tasks a (some task))
    (fair : task.Rated lo) : next.Rated lo := by
  intro b other found
  rw [tasks] at found
  by_cases here : b = a
  · subst here
    obtain rfl : task = other := by simpa using found
    exact fair
  · exact rated b other (by simpa [here] using found)

theorem Rated.of_stop (rated : ctx.Rated lo) (found : ctx.tasks ctx.currentTask = some task)
    (run : ctx.removeCurrentTask fuel .stopped = some next) : next.Rated lo := by
  have fair := rated _ task found
  intro b other there
  rw [stop_fields found run] at there
  by_cases here : b = ctx.currentTask
  · subst here
    rw [Function.update_self] at there
    split at there
    · cases there
      exact ⟨fair.next, fun runs => (by cases runs), fun waits => (by cases waits), fair.key⟩
    · cases there
  · exact rated b other ((Function.update_of_ne here ..).symm.trans there)

/-! ## Waking -/

/-- Waiting tasks have entered the queue; the others wait on with the same keys. -/
structure Awakened (lo : Nat) (ctx next : SystemContext) : Prop where
  enters : ∀ charge, FairQueue.Enters (FairPriority lo) (ctx.queue charge) (next.queue (ctx.woken next charge))
  states : ∀ b, next.stateOf b = ctx.stateOf b ∨
    (ctx.stateOf b = some .waiting ∧ next.stateOf b = some .running)
  waiting : ∀ b, next.stateOf b = some .waiting → next.schedKey b = ctx.schedKey b
  rated : next.Rated lo

theorem Awakened.refl (rated : ctx.Rated lo) : Awakened lo ctx ctx := by
  refine ⟨fun charge => ?_, fun _ => .inl rfl, fun _ _ => rfl, rated⟩
  rw [woken_self]
  exact .refl _

theorem Awakened.trans (first : Awakened lo ctx mid) (second : Awakened lo mid next) : Awakened lo ctx next := by
  refine ⟨fun charge => ?_, fun b => ?_, fun b waiting => ?_, second.rated⟩
  · have both := (first.enters charge).trans (second.enters (ctx.woken mid charge))
    -- A task is charged at the one step in which it is woken.
    have same : next.queue (mid.woken next (ctx.woken mid charge)) = next.queue (ctx.woken next charge) := by
      funext a
      by_cases running : next.stateOf a = some .running
      · rw [queue_of_running running, queue_of_running running]
        have charges : mid.woken next (ctx.woken mid charge) a = ctx.woken next charge a := by
          rcases first.states a with same | ⟨waiting, woke⟩
          · by_cases waits : ctx.stateOf a = some .waiting
            · have still := same.trans waits
              simp [woken, waits, still, running, first.waiting a still]
            · simp [woken, waits, same]
          · simp [woken, waiting, woke, running]
        rw [charges]
      · rw [queue_of_not_running running, queue_of_not_running running]
    rwa [same] at both
  · rcases first.states b with same | ⟨waiting, running⟩
    · rw [← same]
      exact second.states b
    · rcases second.states b with same | ⟨waiting', _⟩
      · exact .inr ⟨waiting, same.trans running⟩
      · cases running.symm.trans waiting'
  · have before : mid.stateOf b = some .waiting := by
      rcases second.states b with same | ⟨_, running⟩
      · exact same.symm.trans waiting
      · cases waiting.symm.trans running
    rw [second.waiting b waiting, first.waiting b before]

theorem Core.awakened (core : ctx.Core active) (rated : ctx.Rated lo) (fits : ctx.WakeFits a)
    (run : ctx.wakeupTask fuel a = some next) : Awakened lo ctx next := by
  rcases wakeupTask_fields run with ⟨rfl, _⟩ | ⟨task, found, waiting, tasks, _⟩
  · exact .refl rated
  · have state : ctx.stateOf a = some .waiting := waiting ▸ stateOf_eq found
    have sum := fits state
    rw [schedKey_eq found] at sum
    have states := stateOf_of_tasks tasks
    have keys := schedKey_of_tasks tasks
    have fair := rated a task found
    refine ⟨fun charge => ?_, fun b => ?_, fun b still => ?_,
      rated.of_tasks tasks (fair.enter (Nat.mod_lt _ (by decide)))⟩
    -- The relative key of a waiting task is the charge it enters with.
    · have entered : next.queue (ctx.woken next charge) =
          (ctx.queue charge).enter a ctx.getMinSchedKey task.schedKey := by
        have elsewhere : ∀ b, b ≠ a → ctx.woken next charge b = charge b := fun b other =>
          woken_of_same (by rw [states, Function.update_of_ne other])
        rw [queue_update tasks rfl elsewhere, FairQueue.enter, woken, if_pos ⟨state, by rw [states, Function.update_self]⟩,
          schedKey_eq found]
        simp only [Nat.mod_eq_of_lt sum, Nat.add_comm]
      rw [entered]
      exact .enter (.refl _) (queue_of_not_running (by simp [state])) (core.least charge) (fair.wake waiting)
    · rw [states]
      by_cases here : b = a
      · subst here
        exact .inr ⟨state, Function.update_self ..⟩
      · exact .inl (Function.update_of_ne here ..)
    · have here : b ≠ a := by
        rintro rfl
        rw [states, Function.update_self] at still
        cases still
      rw [keys, Function.update_of_ne here]

theorem Awakened.of_tasks (awakened : Awakened lo ctx mid) (tasks : next.tasks = mid.tasks) : Awakened lo ctx next := by
  have states : next.stateOf = mid.stateOf := by
    funext b
    simp [stateOf, tasks]
  have keys : next.schedKey = mid.schedKey := by
    funext b
    simp [schedKey, tasks]
  refine ⟨fun charge => ?_, fun b => ?_, fun b => ?_, fun b task found => awakened.rated b task (tasks ▸ found)⟩
  · have enters := awakened.enters charge
    unfold queue woken at enters ⊢
    rwa [states, keys]
  · rw [states]
    exact awakened.states b
  · rw [states, keys]
    exact awakened.waiting b

theorem Core.of_wakeup (core : ctx.Core active) (bound : active.card < fuel)
    (run : ctx.wakeupTask fuel a = some next) : next.Core active := by
  obtain ⟨next', run', polled, _⟩ := core.wakeupTask (core.mem_of_wakeup run) bound
  cases run.symm.trans run'
  exact polled.core

theorem Core.awakened_of_ioPoll (core : ctx.Core active) (bound : active.card < fuel) (rated : ctx.Rated lo)
    (fits : PollFits events ctx) (run : ctx.ioPoll fuel events = some next) : Awakened lo ctx next := by
  induction events generalizing ctx with
  | nil =>
    cases run
    exact .refl rated
  | cons a events ih =>
    simp only [SystemContext.ioPoll, List.foldlM_cons, Option.bind_eq_bind, Option.bind_eq_some_iff] at run
    obtain ⟨mid, wake, run⟩ := run
    have first := core.awakened rated fits.1 wake
    exact first.trans (ih (core.of_wakeup bound wake) first.rated (fits.2 fuel mid wake) run)

theorem Core.awakened_of_ioPollWait (core : ctx.Core active) (bound : active.card < fuel) (rated : ctx.Rated lo)
    (fits : PollsFit polls ctx) (run : ctx.ioPollWait fuel polls = some next) : Awakened lo ctx next := by
  induction polls generalizing ctx with
  | nil => cases run
  | cons events polls ih =>
    simp only [ioPollWait, Option.bind_eq_bind, Option.bind_eq_some_iff] at run
    obtain ⟨mid, poll, run⟩ := run
    have first := core.awakened_of_ioPoll bound rated fits.1 poll
    by_cases idle : mid.runningTaskCount = 0
    · rw [if_pos idle] at run
      have core' := (core.polled_of_ioPoll bound poll).core
      exact first.trans (ih core' first.rated (fits.2 fuel mid poll idle) run)
    · rw [if_neg idle] at run
      cases run
      exact first

theorem Core.awakened_of_pick (core : ctx.Core active) (bound : active.card < fuel) (rated : ctx.Rated lo)
    (fits : ctx.PickFits polls) (run : ctx.pickCurrentTask fuel polls = some next) : Awakened lo ctx next := by
  obtain ⟨mid, chosen, rfl⟩ := pickCurrentTask_polls run
  have woken : Awakened lo ctx mid := by
    cases chosen with
    | all | skipped => exact .refl rated
    | once partly _ poll => exact core.awakened_of_ioPoll bound rated (fits partly).1 poll
    | wait partly _ poll => exact core.awakened_of_ioPollWait bound rated (fits partly) poll
  exact woken.of_tasks rfl

theorem Core.awakened_of_schedule (core : ctx.Core active) (bound : active.card < fuel) (rated : ctx.Rated lo)
    (fits : ctx.PickFits polls) (run : ctx.scheduleNext fuel polls none = some next) : Awakened lo ctx next := by
  unfold scheduleNext at run
  split at run
  · cases run
    exact (Awakened.refl rated).of_tasks rfl
  · simp only [Option.bind_eq_bind, Option.bind_eq_some_iff] at run
    obtain ⟨picked, pick, _, _, run⟩ := run
    cases run
    exact core.awakened_of_pick bound rated fits pick

/-! ## Turns -/

theorem queue_woken {charge' : Addr → Nat} {p : Nat} (elsewhere : ∀ b, b ≠ a → mid.tasks b = ctx.tasks b)
    (same : ∀ b, b ≠ a → charge' b = charge b)
    (here : next.stateOf a = some .running → mid.woken next charge' a = p) :
    next.queue (mid.woken next charge') = next.queue (Function.update (ctx.woken next charge) a p) := by
  refine queue_congr (fun _ => Iff.rfl) (fun _ _ => rfl) fun b running => ?_
  by_cases current : b = a
  · subst current
    rw [Function.update_self, here running]
  · rw [Function.update_of_ne current]
    simp [woken, stateOf, schedKey, elsewhere b current, same b current]

theorem Inv.turn (inv : ctx.Inv active) (rated : ctx.Rated lo) (nonnull : ctx.currentTask ≠ 0)
    (bound : active.card < fuel) (sum : ctx.schedKey ctx.currentTask + ctx.priority ctx.currentTask < 2 ^ 64)
    (fits : ∀ fuel mid, ((ctx.updateSchedKey none).bind fun mid => mid.reinsertCurrentTask fuel) = some mid →
      mid.PickFits polls)
    (run : ctx.taskYield fuel .yield none polls none = some next) :
    next.Rated lo ∧ FairPriority lo (ctx.priority ctx.currentTask) ∧
      FairQueue.Enters (FairPriority lo)
        ((ctx.queue charge).enter ctx.currentTask (ctx.schedKey ctx.currentTask) (ctx.priority ctx.currentTask))
        (next.queue (Function.update (ctx.woken next charge) ctx.currentTask (ctx.priority ctx.currentTask))) := by
  obtain ⟨task, found, running, _⟩ := inv.exists_current nonnull
  obtain ⟨mid, enter, core, _, total⟩ := inv.switch nonnull none bound
  rw [Option.bind_eq_bind] at enter
  simp only [taskYield, Option.bind_eq_bind] at run
  rw [← Option.bind_assoc, enter, Option.bind_some] at run
  have tasks := switch_fields found enter
  simp only [runtime, one_mul] at tasks
  have fair := rated _ task found
  rw [schedKey_eq found, priority_eq found] at sum ⊢
  have rated' : mid.Rated lo := rated.of_tasks tasks ⟨fair.next, fun _ => fair.next,
    fun waits => (by cases running.symm.trans waits), Nat.mod_lt _ (by decide)⟩
  have awakened := core.awakened_of_schedule bound rated' (fits fuel mid enter) run
  refine ⟨awakened.rated, fair.turn running, ?_⟩
  -- The task is charged for its turn first, and the others are woken after that.
  set charge' := Function.update charge ctx.currentTask task.priority with hcharge
  have elsewhere : ∀ b, b ≠ ctx.currentTask → charge' b = charge b := fun b other => Function.update_of_ne other ..
  have seen : next.queue (mid.woken next charge') =
      next.queue (Function.update (ctx.woken next charge) ctx.currentTask task.priority) := by
    refine queue_woken (fun b other => by rw [tasks, Function.update_of_ne other]) elsewhere fun run => ?_
    have here : mid.stateOf ctx.currentTask = some .running := by
      rw [stateOf_of_tasks tasks, Function.update_self, running]
    rw [woken_of_same (run.trans here.symm), hcharge, Function.update_self]
  have enters := awakened.enters charge'
  rw [queue_update tasks running elsewhere, seen] at enters
  have charged : charge' ctx.currentTask = task.priority := Function.update_self ..
  rw [charged] at enters
  simpa only [FairQueue.enter, Nat.mod_eq_of_lt sum] using enters

theorem Inv.wait_leave (inv : ctx.Inv active) (rated : ctx.Rated lo) (nonnull : ctx.currentTask ≠ 0)
    (bound : active.card < fuel)
    (fits : ∀ fuel mid, ((ctx.updateSchedKey none).bind fun mid => mid.removeCurrentTask fuel .waiting) = some mid →
      mid.PickFits polls)
    (run : ctx.taskYield fuel .waitio none polls none = some next) :
    next.Rated lo ∧ FairQueue.Enters (FairPriority lo) ((ctx.queue charge).leave ctx.currentTask)
      (next.queue (Function.update (ctx.woken next charge) ctx.currentTask (ctx.nextPriority ctx.currentTask))) := by
  obtain ⟨task, found, running, _⟩ := inv.exists_current nonnull
  obtain ⟨mid, enter, core, _, total⟩ := inv.wait nonnull none bound
  rw [Option.bind_eq_bind] at enter
  simp only [taskYield, Option.bind_eq_bind] at run
  rw [← Option.bind_assoc, enter, Option.bind_some] at run
  have tasks := wait_fields found enter
  have fair := rated _ task found
  rw [nextPriority_eq found]
  have rated' : mid.Rated lo := rated.of_tasks tasks ⟨fair.next, fun runs => (by cases runs), fun _ => fair.next,
    Nat.lt_of_le_of_lt fair.next.2 (by decide)⟩
  have awakened := core.awakened_of_schedule bound rated' (fits fuel mid enter) run
  refine ⟨awakened.rated, ?_⟩
  -- If the task is woken before the choice ends, it is charged its next priority.
  have seen : next.queue (mid.woken next charge) =
      next.queue (Function.update (ctx.woken next charge) ctx.currentTask task.nextPriority) := by
    refine queue_woken (fun b other => by rw [tasks, Function.update_of_ne other]) (fun _ _ => rfl) fun run => ?_
    have here : mid.stateOf ctx.currentTask = some .waiting := by
      rw [stateOf_of_tasks tasks, Function.update_self]
    rw [woken, if_pos ⟨here, run⟩, schedKey_of_tasks tasks, Function.update_self]
  have enters := awakened.enters charge
  rwa [queue_leave tasks (by simp), seen] at enters

theorem Inv.exit_leave (inv : ctx.Inv active) (rated : ctx.Rated lo) (nonnull : ctx.currentTask ≠ 0)
    (bound : active.card < fuel)
    (fits : ∀ fuel mid, ctx.removeCurrentTask fuel .stopped = some mid → mid.PickFits polls)
    (run : ctx.taskExit fuel polls none = some next) :
    next.Rated lo ∧ FairQueue.Enters (FairPriority lo) ((ctx.queue charge).leave ctx.currentTask)
      (next.queue (ctx.woken next charge)) := by
  obtain ⟨task, found, running, _⟩ := inv.exists_current nonnull
  obtain ⟨mid, enter, core, states, total⟩ := inv.stop nonnull bound
  simp only [taskExit, Option.bind_eq_bind, enter, Option.bind_some] at run
  have tasks := stop_fields found enter
  have rated' := rated.of_stop found enter
  have bound' : (active.erase ctx.currentTask).card < fuel := Nat.lt_of_le_of_lt Finset.card_erase_le bound
  have awakened := core.awakened_of_schedule bound' rated' (fits fuel mid enter) run
  refine ⟨awakened.rated, ?_⟩
  -- A stopped or freed task is not woken by the choice that follows.
  have gone : mid.stateOf ctx.currentTask ≠ some .running ∧ mid.stateOf ctx.currentTask ≠ some .waiting := by
    rcases states with states | states
    · simp [states]
    · simp [states]
  have seen : next.queue (mid.woken next charge) = next.queue (ctx.woken next charge) := by
    refine queue_congr (fun _ => Iff.rfl) (fun _ _ => rfl) fun b runs => ?_
    have other : b ≠ ctx.currentTask := by
      rintro rfl
      rcases awakened.states ctx.currentTask with same | ⟨waits, _⟩
      · exact gone.1 (same.symm.trans runs)
      · exact gone.2 waits
    simp [woken, stateOf, schedKey, tasks, other]
  have enters := awakened.enters charge
  rw [queue_leave tasks, seen] at enters
  · exact enters
  · split
    · simp
    · simp

end SystemContext

end HevTaskSystem
