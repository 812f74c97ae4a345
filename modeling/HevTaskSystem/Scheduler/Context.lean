import HevTaskSystem.RBTree.Sorted

/-! The task system context and the operations of the scheduler.

Tasks are heap cells; a freed task is `none`, and an access to it is a fault. A
task is identified with its node in `running_tasks`. Clock readings and the tasks
reported by the polls are inputs of the operations that take them. Switching to a
task is the state in which `current_task` is that task; `current_task` is NULL
while the caller of `hev_task_system_run` executes.
-/

set_option autoImplicit false

namespace HevTaskSystem

inductive TaskState where
  | stopped
  | running
  | waiting
  deriving DecidableEq, Repr

inductive YieldType where
  | yield
  | waitio
  deriving DecidableEq, Repr

structure Task where
  schedKey : Nat
  priority : Nat
  nextPriority : Nat
  state : TaskState
  refCount : Nat
  deriving DecidableEq, Repr

/-- `HevTaskSystemContext`. The last field is no field of the source: it lists the
tasks in the tree in the order of their insertion, and no operation reads it. -/
structure SystemContext where
  totalTaskCount : Nat
  runningTaskCount : Nat
  currentTask : Addr
  runningTasks : RBTreeCached
  schedTime : Timespec
  tasks : Addr → Option Task
  arrivals : List Addr

namespace SystemContext

def setTask (ctx : SystemContext) (a : Addr) (task : Task) : SystemContext :=
  { ctx with tasks := Function.update ctx.tasks a (some task) }

def schedKey (ctx : SystemContext) (a : Addr) : Nat :=
  match ctx.tasks a with
  | some task => task.schedKey
  | none => 0

/-! ## The running tree -/

/-- `runtime` in `hev_task_system_update_sched_key`; without a schedule clock it is one. -/
def runtime (ctx : SystemContext) (clock : Option Timespec) : Nat :=
  match clock with
  | none => 1
  | some now =>
    let sec := now.sec - ctx.schedTime.sec
    let nsec := now.nsec - ctx.schedTime.nsec
    let (sec, nsec) := if nsec < 0 then (sec - 1, nsec + 1000000000) else (sec, nsec)
    ((1 + (sec * 1000000000 + nsec)) % 2 ^ 64).toNat

def updateSchedKey (ctx : SystemContext) (clock : Option Timespec) : Option SystemContext := do
  let task ← ctx.tasks ctx.currentTask
  return ctx.setTask ctx.currentTask
    { task with schedKey := (task.schedKey + ctx.runtime clock * task.priority) % 2 ^ 64 }

def updateSchedTime (ctx : SystemContext) (clock : Option Timespec) : SystemContext :=
  match clock with
  | none => ctx
  | some now => { ctx with schedTime := now }

def getMinSchedKey (ctx : SystemContext) : Nat :=
  let schedNode := ctx.runningTasks.cachedFirst
  if schedNode ≠ 0 then ctx.schedKey schedNode else 0

def insertNode (fuel : Nat) (ctx : SystemContext) (a : Addr) : Option SystemContext := do
  let tree ← ctx.runningTasks.insertBy fuel
    (fun this => schedLess a (ctx.schedKey a) this (ctx.schedKey this)) a
  return { ctx with runningTasks := tree, arrivals := ctx.arrivals ++ [a] }

/-- `hev_rbtree_cached_erase (&ctx->running_tasks, &task->sched_node)` -/
def eraseNode (fuel : Nat) (ctx : SystemContext) (a : Addr) : Option SystemContext := do
  let tree ← ctx.runningTasks.cachedErase fuel a
  return { ctx with runningTasks := tree, arrivals := ctx.arrivals.erase a }

def insertTask (fuel : Nat) (ctx : SystemContext) (a : Addr) : Option SystemContext := do
  let task ← ctx.tasks a
  let ctx := ctx.setTask a { task with state := .running, priority := task.nextPriority }
  let ctx ← ctx.insertNode fuel a
  return { ctx with runningTaskCount := ctx.runningTaskCount + 1 }

def reinsertCurrentTask (fuel : Nat) (ctx : SystemContext) : Option SystemContext := do
  let a := ctx.currentTask
  let task ← ctx.tasks a
  let ctx := ctx.setTask a { task with priority := task.nextPriority }
  let ctx ← ctx.eraseNode fuel a
  ctx.insertNode fuel a

/-- `hev_task_unref`; the last reference frees the task. -/
def taskUnref (ctx : SystemContext) (a : Addr) : Option SystemContext := do
  let task ← ctx.tasks a
  let task := { task with refCount := task.refCount - 1 }
  if task.refCount ≠ 0 then
    return ctx.setTask a task
  else
    return { ctx with tasks := Function.update ctx.tasks a none }

def removeCurrentTask (fuel : Nat) (ctx : SystemContext) (state : TaskState) :
    Option SystemContext := do
  let a := ctx.currentTask
  let task ← ctx.tasks a
  let ctx := ctx.setTask a { task with state }
  let ctx ← ctx.eraseNode fuel a
  let ctx := { ctx with runningTaskCount := ctx.runningTaskCount - 1 }
  if state = .stopped then
    let ctx := { ctx with totalTaskCount := ctx.totalTaskCount - 1 }
    ctx.taskUnref a
  else
    let task ← ctx.tasks a
    return ctx.setTask a { task with schedKey := task.nextPriority }

/-! ## Waking and polling -/

/-- `hev_task_system_wakeup_task_with_context`; waking a stopped task aborts. -/
def wakeupTask (fuel : Nat) (ctx : SystemContext) (a : Addr) : Option SystemContext := do
  let task ← ctx.tasks a
  match task.state with
  | .running => return ctx
  | .stopped => none
  | .waiting =>
    let ctx := ctx.setTask a { task with schedKey := (task.schedKey + ctx.getMinSchedKey) % 2 ^ 64 }
    ctx.insertTask fuel a

/-- `hev_task_system_io_poll`: the tasks of the reactor's events, then that of an
expired timer. -/
def ioPoll (fuel : Nat) (ctx : SystemContext) (events : List Addr) : Option SystemContext :=
  events.foldlM (wakeupTask fuel) ctx

/-- `hev_task_system_io_poll_maybe`: no poll before the deadline. -/
def ioPollMaybe (fuel : Nat) (ctx : SystemContext) (polls : List (List Addr)) : Option SystemContext :=
  match polls with
  | [] => some ctx
  | events :: _ => ctx.ioPoll fuel events

/-- `do { … } while (!ctx->running_task_count)` on what the polls report; while none has
reported a task the loop is still waiting. -/
def ioPollWait (fuel : Nat) (ctx : SystemContext) : List (List Addr) → Option SystemContext
  | [] => none
  | events :: polls => do
    let ctx ← ctx.ioPoll fuel events
    if ctx.runningTaskCount = 0 then ctx.ioPollWait fuel polls else return ctx

def pickCurrentTask (fuel : Nat) (ctx : SystemContext) (polls : List (List Addr)) :
    Option SystemContext := do
  let ctx ←
    if ctx.runningTaskCount < ctx.totalTaskCount then
      if ctx.runningTaskCount ≠ 0 then ctx.ioPollMaybe fuel polls else ctx.ioPollWait fuel polls
    else
      some ctx
  let schedNode := ctx.runningTasks.cachedFirst
  return { ctx with currentTask := schedNode }

/-! ## Scheduling -/

/-- `hev_task_system_schedule` after the switch on the reason. -/
def scheduleNext (fuel : Nat) (ctx : SystemContext) (polls : List (List Addr))
    (clock : Option Timespec) : Option SystemContext := do
  if ctx.totalTaskCount = 0 then
    return { ctx with currentTask := 0 }
  else
    let ctx ← ctx.pickCurrentTask fuel polls
    let ctx := ctx.updateSchedTime clock
    -- The stack of the task is entered, so the task has to be there.
    let _ ← ctx.tasks ctx.currentTask
    return ctx

/-- `hev_task_system_run`, called with no current task. -/
def systemRun (fuel : Nat) (ctx : SystemContext) (polls : List (List Addr)) (clock : Option Timespec) :
    Option SystemContext :=
  ctx.scheduleNext fuel polls clock

/-- `hev_task_yield`, called by the current task; `now` is read before the key is
updated, `clock` before the next task is entered. -/
def taskYield (fuel : Nat) (ctx : SystemContext) (type : YieldType) (now : Option Timespec)
    (polls : List (List Addr)) (clock : Option Timespec) : Option SystemContext := do
  let ctx ← ctx.updateSchedKey now
  let ctx ←
    match type with
    | .yield => ctx.reinsertCurrentTask fuel
    | .waitio => ctx.removeCurrentTask fuel .waiting
  ctx.scheduleNext fuel polls clock

def taskExit (fuel : Nat) (ctx : SystemContext) (polls : List (List Addr)) (clock : Option Timespec) :
    Option SystemContext := do
  let ctx ← ctx.removeCurrentTask fuel .stopped
  ctx.scheduleNext fuel polls clock

/-! ## Tasks -/

/-- `hev_task_new` with the address of the allocation. -/
def taskNew (ctx : SystemContext) (a : Addr) : SystemContext :=
  ctx.setTask a ⟨0, 0, 8, .stopped, 1⟩

def taskRef (ctx : SystemContext) (a : Addr) : Option SystemContext := do
  let task ← ctx.tasks a
  return ctx.setTask a { task with refCount := task.refCount + 1 }

def taskSetPriority (ctx : SystemContext) (a : Addr) (priority : Int) : Option SystemContext := do
  let task ← ctx.tasks a
  let priority := if priority < 0 then 0 else if priority > 15 then 15 else priority
  return ctx.setTask a { task with nextPriority := priority.toNat }

def taskRun (fuel : Nat) (ctx : SystemContext) (a : Addr) : Option SystemContext := do
  let task ← ctx.tasks a
  if task.state ≠ .stopped then
    return ctx
  else
    let task := { task with priority := task.nextPriority, schedKey := task.nextPriority }
    let task :=
      if ctx.currentTask ≠ 0 then
        { task with schedKey := (task.schedKey + ctx.getMinSchedKey) % 2 ^ 64 }
      else
        task
    let ctx ← (ctx.setTask a task).insertTask fuel a
    return { ctx with totalTaskCount := ctx.totalTaskCount + 1 }

end SystemContext

end HevTaskSystem
