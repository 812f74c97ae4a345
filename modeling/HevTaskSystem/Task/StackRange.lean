import Mathlib.Logic.Function.Basic
import HevTaskSystem.Foundation.Transition
import HevTaskSystem.RBTree.Memory

/-! The stack range of the thread on Windows.

The system finds the bounds of the running stack in two fields of the thread. They are moved
in three places: the scheduler enters the range of the task it switches to and saves the
previous one in the context, the way back to the kernel context restores that one, and
`hev_sys_task_execute` sets the range of another stack for the time of one activation. Tasks
are switched inside such activations too, and the activations of one task do not return in any
order with those of another.
-/

set_option autoImplicit false

namespace HevTaskSystem

open Foundation

/-- `HevSysTaskStack`; also `StackBase` and `StackLimit` of the thread. -/
structure StackRange where
  base : Addr
  limit : Addr
  deriving DecidableEq, Repr

/-- An activation of `hev_sys_task_execute` that has not returned: its range and its two
locals. `suspended` remembers whether a switch left the activation while it was the innermost
one. -/
structure Execution where
  range : StackRange
  saved : StackRange
  suspended : Bool
  deriving DecidableEq, Repr

/-- The reason given to `hev_task_system_schedule`, or to the kernel context when a task ends. -/
inductive SchedType where
  | switch
  | waitio
  | remove
  deriving DecidableEq, Repr

structure TaskThread where
  tib : StackRange
  sysTaskStack : StackRange
  currentTask : Option Nat
  totalTaskCount : Nat
  /-- Control is in the task context, not in the kernel context. -/
  inTask : Bool
  /-- `stack_bottom` and `hev_task_stack_get_base` of every task that was run and has not ended. -/
  stackOf : Nat → Option StackRange
  /-- Activations on the stack of a task, innermost first. -/
  calls : Nat → List Execution
  /-- Activations on the stack of the thread itself. -/
  outer : List Execution

namespace TaskThread

def stackEnter (self : TaskThread) (range : StackRange) : TaskThread :=
  { self with sysTaskStack := self.tib, tib := range }

def stackLeave (self : TaskThread) : TaskThread :=
  if self.sysTaskStack.base = 0 then self else { self with tib := self.sysTaskStack }

def running (self : TaskThread) : List Execution :=
  match self.inTask, self.currentTask with
  | true, some task => self.calls task
  | _, _ => self.outer

def setRunning (self : TaskThread) (calls : List Execution) : TaskThread :=
  match self.inTask, self.currentTask with
  | true, some task => { self with calls := Function.update self.calls task calls }
  | _, _ => { self with outer := calls }

/-- `hev_sys_task_execute` up to the jump to the other stack. -/
def executeEnter (self : TaskThread) (range : StackRange) : TaskThread :=
  { self.setRunning (⟨range, self.tib, false⟩ :: self.running) with tib := range }

/-- `hev_sys_task_execute` from the return of the innermost activation on. -/
def executeReturn (self : TaskThread) : Option TaskThread :=
  match self.running with
  | [] => none
  | call :: rest => some { self.setRunning rest with tib := call.saved }

/-- `hev_task_system_run_new_task`; `hev_task_executer` saves the context of the task on its
stack and returns. -/
def runNewTask (self : TaskThread) (task : Nat) (range : StackRange) : Option TaskThread := do
  let self ← (self.executeEnter range).executeReturn
  return { self with
    stackOf := Function.update self.stackOf task (some range)
    totalTaskCount := self.totalTaskCount + 1 }

/-- `hev_task_system_schedule` in the task context, and `hev_task_system_kill_current_task`:
back to the kernel context. Nothing of a task that ends is left on its stack. -/
def schedule (self : TaskThread) (type : SchedType) : Option TaskThread :=
  match self.inTask, self.currentTask with
  | true, some task =>
    let left := self.stackLeave
    match type with
    | .switch | .waitio => some { left with
        inTask := false
        calls := Function.update self.calls task
          ((self.calls task).modifyHead fun call => { call with suspended := true }) }
    | .remove => some { left with
        inTask := false
        totalTaskCount := self.totalTaskCount - 1
        stackOf := Function.update self.stackOf task none
        calls := Function.update self.calls task [] }
  | _, _ => none

/-- The end of `hev_task_system_schedule` in the kernel context: to the task picked, or back to
the caller of `hev_task_system_run` when all tasks have ended. -/
def pick (self : TaskThread) (task : Nat) : Option TaskThread :=
  if self.inTask then none
  else if self.totalTaskCount = 0 then some { self with currentTask := none }
  else match self.stackOf task with
    | some range => some { { self with currentTask := some task }.stackEnter range with inTask := true }
    | none => none

end TaskThread

inductive RangeOp where
  | runNewTask (task : Nat) (range : StackRange)
  | pick (task : Nat)
  | schedule (type : SchedType)
  | callJump (range : StackRange)
  | callReturn
  deriving DecidableEq, Repr

namespace RangeOp

def exec (self : TaskThread) : RangeOp → Option TaskThread
  | .runNewTask task range => self.runNewTask task range
  | .pick task => self.pick task
  | .schedule type => self.schedule type
  | .callJump range => some (self.executeEnter range)
  | .callReturn => self.executeReturn

/-- A task is run that is stopped, and no stack lies at address zero. -/
def Ready (self : TaskThread) : RangeOp → Prop
  | .runNewTask task _ => self.stackOf task = none
  | .callJump range => range.base ≠ 0
  | _ => True

instance (self : TaskThread) (op : RangeOp) : Decidable (op.Ready self) :=
  match op with
  | .runNewTask task _ => inferInstanceAs (Decidable (self.stackOf task = none))
  | .callJump range => inferInstanceAs (Decidable (range.base ≠ 0))
  | .pick _ | .schedule _ | .callReturn => inferInstanceAs (Decidable True)

end RangeOp

/-- A thread with a stack of its own whose context was just made by `hev_task_system_init`. -/
def rangeSystem (thread : StackRange) : System TaskThread RangeOp where
  init s := thread.base ≠ 0 ∧ s = ⟨thread, ⟨0, 0⟩, none, 0, false, fun _ => none, fun _ => [], []⟩
  step s op next := op.Ready s ∧ op.exec s = some next

/-! ## What the fields show -/

/-- On a stack with these activations the fields show the range of the innermost one, but the
stack's own range when that one was suspended. -/
def shownRange (own : StackRange) : List Execution → StackRange
  | [] => own
  | call :: _ => if call.suspended then own else call.range

def TaskThread.ownRange (thread : StackRange) (s : TaskThread) : StackRange :=
  match s.inTask, s.currentTask with
  | true, some task => (s.stackOf task).getD thread
  | _, _ => thread

inductive Restores (own : StackRange) : List Execution → Prop where
  | nil : Restores own []
  | cons {call : Execution} {rest : List Execution} :
      call.saved = shownRange own rest → Restores own rest → Restores own (call :: rest)

theorem Restores.suspend {own : StackRange} {calls : List Execution} (restores : Restores own calls) :
    Restores own (calls.modifyHead fun call => { call with suspended := true }) := by
  cases restores with
  | nil => exact .nil
  | cons saved rest => exact .cons saved rest

theorem shownRange_suspend (own : StackRange) (calls : List Execution) :
    shownRange own (calls.modifyHead fun call => { call with suspended := true }) = own := by
  cases calls with
  | nil => rfl
  | cons call rest => rfl

/-- What a task leaves on its stack while it does not run. -/
structure Sleeps (stack : Option StackRange) (calls : List Execution) : Prop where
  fresh : stack = none → calls = []
  restores : ∀ own, stack = some own → Restores own calls
  shown : ∀ own, stack = some own → shownRange own calls = own

theorem Sleeps.nil (stack : Option StackRange) : Sleeps stack [] := ⟨fun _ => rfl, fun _ _ => .nil, fun _ _ => rfl⟩

structure RangeInv (thread : StackRange) (s : TaskThread) : Prop where
  nonnull : thread.base ≠ 0
  outer : Restores thread s.outer
  awake : ∀ call ∈ s.outer, call.suspended = false ∧ call.range.base ≠ 0
  asleep : ∀ task, (s.inTask = true → s.currentTask ≠ some task) → Sleeps (s.stackOf task) (s.calls task)
  kernel : s.inTask = false → s.tib = shownRange thread s.outer
  task : s.inTask = true → ∃ task own, s.currentTask = some task ∧ s.stackOf task = some own ∧
    Restores own (s.calls task) ∧ s.tib = shownRange own (s.calls task) ∧ s.sysTaskStack = shownRange thread s.outer

section Steps

variable {thread range own : StackRange} {s next : TaskThread} {task : Nat} {calls : List Execution}

theorem TaskThread.inside (inside : s.inTask = true) (current : s.currentTask = some task)
    (has : s.stackOf task = some own) : s.running = s.calls task ∧ s.ownRange thread = own ∧
      ∀ calls, s.setRunning calls = { s with calls := Function.update s.calls task calls } := by
  simp [running, ownRange, setRunning, inside, current, has]

theorem TaskThread.outside (outside : s.inTask = false) : s.running = s.outer ∧ s.ownRange thread = thread ∧
    ∀ calls, s.setRunning calls = { s with outer := calls } := by
  simp [running, ownRange, setRunning, outside]

theorem RangeInv.running (inv : RangeInv thread s) :
    Restores (s.ownRange thread) s.running ∧ s.tib = shownRange (s.ownRange thread) s.running ∧
      (s.inTask = false → ∀ call ∈ s.running, call.suspended = false ∧ call.range.base ≠ 0) := by
  cases context : s.inTask with
  | false =>
    obtain ⟨running, own, -⟩ := @TaskThread.outside thread s context
    rw [running, own]
    exact ⟨inv.outer, inv.kernel context, fun _ => inv.awake⟩
  | true =>
    obtain ⟨task, own, current, has, restores, shown, -⟩ := inv.task context
    obtain ⟨running, same, -⟩ := @TaskThread.inside thread own s task context current has
    rw [running, same]
    exact ⟨restores, shown, fun other => absurd other Bool.noConfusion⟩

/-- The range of the kernel context is never at address zero, so leaving a task restores it. -/
theorem RangeInv.stackLeave (inv : RangeInv thread s) (inside : s.inTask = true) :
    s.stackLeave = { s with tib := shownRange thread s.outer } := by
  obtain ⟨_, _, _, _, _, _, saved⟩ := inv.task inside
  have nonnull : s.sysTaskStack.base ≠ 0 := by
    rw [saved]
    cases outer : s.outer with
    | nil => exact inv.nonnull
    | cons call rest =>
      obtain ⟨awake, base⟩ := inv.awake call (outer ▸ List.mem_cons_self)
      simpa [shownRange, awake] using base
  rw [TaskThread.stackLeave, if_neg nonnull, saved]

theorem RangeInv.setRunning (inv : RangeInv thread s) (shown : StackRange)
    (restores : Restores (s.ownRange thread) calls) (same : shown = shownRange (s.ownRange thread) calls)
    (awake : s.inTask = false → ∀ call ∈ calls, call.suspended = false ∧ call.range.base ≠ 0) :
    RangeInv thread { s.setRunning calls with tib := shown } := by
  cases context : s.inTask with
  | false =>
    obtain ⟨-, own, set⟩ := @TaskThread.outside thread s context
    rw [set]
    rw [own] at restores same
    have away : s.inTask ≠ true := by simp [context]
    exact ⟨inv.nonnull, restores, awake context, inv.asleep, fun _ => same, fun inside => absurd inside away⟩
  | true =>
    obtain ⟨task, own, current, has, -, -, saved⟩ := inv.task context
    obtain ⟨-, here, set⟩ := @TaskThread.inside thread own s task context current has
    rw [set]
    rw [here] at restores same
    refine ⟨inv.nonnull, inv.outer, inv.awake, fun other away => ?_, fun kernel => ?_,
      fun _ => ⟨task, own, current, has, by simpa using restores, by simpa using same, saved⟩⟩
    · have which : other ≠ task := by
        rintro rfl
        exact away context current
      simpa [which] using inv.asleep other away
    · exact absurd (context.symm.trans kernel) Bool.noConfusion

theorem RangeInv.executeEnter (inv : RangeInv thread s) (base : range.base ≠ 0) :
    RangeInv thread (s.executeEnter range) := by
  obtain ⟨restores, shown, awake⟩ := inv.running
  refine inv.setRunning range (.cons shown restores) rfl fun context call member => ?_
  rcases List.mem_cons.mp member with rfl | old
  · exact ⟨rfl, base⟩
  · exact awake context call old

theorem RangeInv.executeReturn (inv : RangeInv thread s) (result : s.executeReturn = some next) :
    RangeInv thread next := by
  obtain ⟨restores, -, awake⟩ := inv.running
  unfold TaskThread.executeReturn at result
  split at result
  · cases result
  · next call rest running =>
    cases result
    rw [running] at restores awake
    cases restores with
    | cons saved restores =>
      exact inv.setRunning call.saved restores saved fun context other member =>
        awake context other (List.mem_cons_of_mem _ member)

theorem TaskThread.executeEnter_return (s : TaskThread) (range : StackRange) :
    (s.executeEnter range).executeReturn = some s := by
  obtain ⟨tib, saved, current, total, inTask, stackOf, calls, outer⟩ := s
  cases inTask with
  | false => rfl
  | true =>
    cases current with
    | none => rfl
    | some task => simp [executeReturn, executeEnter, setRunning, running]

theorem RangeInv.runNewTask (inv : RangeInv thread s) (stopped : s.stackOf task = none)
    (result : s.runNewTask task range = some next) : RangeInv thread next := by
  simp only [TaskThread.runNewTask, s.executeEnter_return range, Option.bind_eq_bind, Option.bind_some,
    Option.pure_def, Option.some.injEq] at result
  subst result
  have other {running : Nat} {own : StackRange} (has : s.stackOf running = some own) : running ≠ task := by
    rintro rfl
    cases has.symm.trans stopped
  have empty : s.calls task = [] := by
    refine (inv.asleep task fun inside current => ?_).fresh stopped
    obtain ⟨running, own, current', has, -⟩ := inv.task inside
    exact other has (Option.some.inj (current'.symm.trans current))
  refine ⟨inv.nonnull, inv.outer, inv.awake, fun which away => ?_, inv.kernel, fun inside => ?_⟩
  · by_cases new : which = task
    · subst new
      simpa [empty] using Sleeps.nil (some range)
    · simpa [new] using inv.asleep which away
  · obtain ⟨running, own, current, has, rest⟩ := inv.task inside
    exact ⟨running, own, current, by simpa [other has] using has, rest⟩

theorem RangeInv.leave (inv : RangeInv thread s) (current : s.currentTask = some task) {stack : Option StackRange}
    (sleeps : Sleeps stack calls) (total : Nat) :
    RangeInv thread { s with
      tib := shownRange thread s.outer
      inTask := false
      totalTaskCount := total
      stackOf := Function.update s.stackOf task stack
      calls := Function.update s.calls task calls } := by
  refine ⟨inv.nonnull, inv.outer, inv.awake, fun other _ => ?_, fun _ => rfl, fun inside => absurd inside (by simp)⟩
  by_cases which : other = task
  · subst which
    simpa using sleeps
  · have away : s.inTask = true → s.currentTask ≠ some other := fun _ same =>
      which (Option.some.inj (same.symm.trans current))
    simpa [which] using inv.asleep other away

theorem RangeInv.schedule (inv : RangeInv thread s) {type : SchedType} (result : s.schedule type = some next) :
    RangeInv thread next := by
  unfold TaskThread.schedule at result
  split at result
  · next task context current =>
    obtain ⟨task', own, current', has, restores, -⟩ := inv.task context
    obtain rfl : task = task' := Option.some.inj (current.symm.trans current')
    rw [inv.stackLeave context] at result
    have sleeps : Sleeps (s.stackOf task) ((s.calls task).modifyHead fun call => { call with suspended := true }) := by
      rw [has]
      refine ⟨fun none => absurd none (by simp), ?_, fun own _ => shownRange_suspend own _⟩
      rintro _ ⟨⟩
      exact restores.suspend
    have suspended := inv.leave current sleeps s.totalTaskCount
    rw [Function.update_eq_self] at suspended
    cases type with
    | switch | waitio =>
      cases result
      exact suspended
    | remove =>
      cases result
      exact inv.leave current (.nil none) _
  · cases result

theorem RangeInv.pick (inv : RangeInv thread s) (result : s.pick task = some next) : RangeInv thread next := by
  unfold TaskThread.pick at result
  split_ifs at result with context none
  · cases result
    exact ⟨inv.nonnull, inv.outer, inv.awake, fun task _ => inv.asleep task fun inside => absurd inside context,
      inv.kernel, fun inside => absurd inside context⟩
  · split at result
    · next range has =>
      cases result
      have asleep : ∀ other, Sleeps (s.stackOf other) (s.calls other) :=
        fun other => inv.asleep other fun inside => absurd inside context
      exact ⟨inv.nonnull, inv.outer, inv.awake, fun other _ => asleep other,
        fun kernel => absurd kernel Bool.noConfusion, fun _ => ⟨task, range, rfl, has, (asleep task).restores _ has,
          ((asleep task).shown _ has).symm, inv.kernel (by simpa using context)⟩⟩
    · cases result

end Steps

theorem rangeSystem_inv {thread : StackRange} {ops : List RangeOp} {s : TaskThread}
    (run : (rangeSystem thread).Run ops s) : RangeInv thread s := by
  refine run.invariant (RangeInv thread) ?_ ?_
  · rintro s ⟨nonnull, rfl⟩
    exact ⟨nonnull, .nil, fun _ member => absurd member List.not_mem_nil, fun _ _ => .nil none, fun _ => rfl,
      fun inside => absurd inside (by simp)⟩
  · rintro s op next inv ⟨ready, result⟩
    cases op with
    | runNewTask task range => exact inv.runNewTask ready result
    | pick task => exact inv.pick result
    | schedule type => exact inv.schedule result
    | callJump range =>
      cases result
      exact inv.executeEnter ready
    | callReturn => exact inv.executeReturn result

/-- After every run the fields show the stack that runs. The one exception is a call on another
stack inside which the task was switched away from: until it returns they show the task's own
stack. In the kernel context there is no exception, so the thread gets back the range it had. -/
theorem stack_range_in_force {thread : StackRange} {ops : List RangeOp} {s : TaskThread}
    (run : (rangeSystem thread).Run ops s) :
    s.tib = shownRange (s.ownRange thread) s.running ∧
      (s.inTask = true → ∃ task own, s.currentTask = some task ∧ s.stackOf task = some own ∧
        s.ownRange thread = own ∧ s.running = s.calls task) ∧
      (s.inTask = false → s.running = s.outer ∧ ∀ call ∈ s.outer, call.suspended = false) ∧
      (s.inTask = false → s.outer = [] → s.tib = thread) := by
  have inv := rangeSystem_inv run
  refine ⟨inv.running.2.1, fun inside => ?_, fun outside => ?_, fun outside empty => ?_⟩
  · obtain ⟨task, own, current, has, -⟩ := inv.task inside
    obtain ⟨running, same, -⟩ := @TaskThread.inside thread own s task inside current has
    exact ⟨task, own, current, has, same, running⟩
  · exact ⟨(@TaskThread.outside thread s outside).1, fun call member => (inv.awake call member).1⟩
  · rw [inv.kernel outside, empty]
    rfl

def RangeOp.perform (s : TaskThread) (op : RangeOp) : Option TaskThread :=
  if op.Ready s then op.exec s else none

theorem RangeOp.perform_sound {thread : StackRange} {s next : TaskThread} {op : RangeOp}
    (result : op.perform s = some next) : (rangeSystem thread).step s op next := by
  unfold perform at result
  split at result
  · exact ⟨‹_›, result⟩
  · cases result

/-- A task switched away from inside a call: on return to it the call runs with the range of the
task, and when the task has ended the thread has its own again. -/
theorem stack_range_in_force_call :
    (∃ s, (rangeSystem ⟨1000, 500⟩).Run [.runNewTask 1 ⟨200, 100⟩, .pick 1, .callJump ⟨400, 300⟩,
      .schedule .waitio, .pick 1] s ∧ s.running.map Execution.range = [⟨400, 300⟩] ∧ s.tib = ⟨200, 100⟩) ∧
    ∃ s, (rangeSystem ⟨1000, 500⟩).Run [.runNewTask 1 ⟨200, 100⟩, .pick 1, .callJump ⟨400, 300⟩,
      .schedule .waitio, .pick 1, .callReturn, .schedule .remove, .pick 1] s ∧ s.tib = ⟨1000, 500⟩ := by
  have start : (rangeSystem ⟨1000, 500⟩).Run []
      ⟨⟨1000, 500⟩, ⟨0, 0⟩, none, 0, false, fun _ => none, fun _ => [], []⟩ := .init ⟨by decide, rfl⟩
  constructor
  · refine start.exists_reached RangeOp.perform
      (fun s => s.running = [⟨⟨400, 300⟩, ⟨200, 100⟩, true⟩] ∧ s.ownRange ⟨1000, 500⟩ = ⟨200, 100⟩)
      (fun _ _ _ => RangeOp.perform_sound) (by decide +kernel) fun s run final => ?_
    obtain ⟨running, own⟩ := of_decide_eq_true final
    refine ⟨by rw [running]; rfl, ?_⟩
    rw [(stack_range_in_force run).1, running, own]
    rfl
  · refine start.exists_reached RangeOp.perform (fun s => s.inTask = false ∧ s.outer = [])
      (fun _ _ _ => RangeOp.perform_sound) (by decide +kernel) fun s run final => ?_
    obtain ⟨outside, empty⟩ := of_decide_eq_true final
    exact (stack_range_in_force run).2.2.2 outside empty

end HevTaskSystem
