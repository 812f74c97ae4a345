import Mathlib.Data.Finset.Card
import HevTaskSystem.Scheduler.Context

/-! What the scheduler keeps between its operations.

`Core` ties the running tree, the task states and the running counter together;
its second argument is the set of tasks that are running or waiting. Every
operation is described once by what it does to the task states.
-/

set_option autoImplicit false

namespace HevTaskSystem.SystemContext

open Foundation Foundation.RedBlack

def keyed (ctx : SystemContext) : Keyed Nat := ⟨ctx.runningTasks, ctx.schedKey, ctx.arrivals⟩

def stateOf (ctx : SystemContext) (a : Addr) : Option TaskState := (ctx.tasks a).map Task.state

/-- The key of a tree node is its `sched_key`. -/
abbrev bySchedKey : Addr → Nat → Nat := fun _ key => key

structure Core (ctx : SystemContext) (active : Finset Addr) : Prop where
  sorted : ctx.keyed.Sorted bySchedKey
  running : ∀ a, a ∈ ctx.arrivals ↔ ctx.stateOf a = some .running
  count : ctx.runningTaskCount = ctx.arrivals.length
  active : ∀ a, a ∈ active ↔ ctx.stateOf a = some .running ∨ ctx.stateOf a = some .waiting
  heap : ∀ a task, ctx.tasks a = some task → a ≠ 0 ∧ 4 ∣ a ∧ 0 < task.refCount

variable {ctx next : SystemContext} {active : Finset Addr} {a b : Addr} {task : Task} {fuel : Nat}

theorem stateOf_eq (found : ctx.tasks a = some task) : ctx.stateOf a = some task.state := by
  simp [stateOf, found]

theorem exists_task {state : TaskState} (is : ctx.stateOf a = some state) :
    ∃ task, ctx.tasks a = some task ∧ task.state = state := by
  unfold stateOf at is
  exact Option.map_eq_some_iff.mp is

theorem stateOf_setTask : (ctx.setTask a task).stateOf = Function.update ctx.stateOf a (some task.state) := by
  funext b
  by_cases same : b = a
  · subst same
    simp [stateOf, setTask]
  · simp [stateOf, setTask, same]

theorem stateOf_setTask_same {new : Task} (found : ctx.tasks a = some task) (state : new.state = task.state) :
    (ctx.setTask a new).stateOf = ctx.stateOf := by
  rw [stateOf_setTask, state, ← stateOf_eq found, Function.update_eq_self]

theorem stateOf_free :
    stateOf { ctx with tasks := Function.update ctx.tasks a none } = Function.update ctx.stateOf a none := by
  funext b
  by_cases same : b = a
  · subst same
    simp [stateOf]
  · simp [stateOf, same]

theorem schedKey_setTask :
    (ctx.setTask a task).schedKey = Function.update ctx.schedKey a task.schedKey := by
  funext b
  by_cases same : b = a
  · subst same
    simp [schedKey, setTask]
  · simp [schedKey, setTask, same]

theorem Core.arrivals_subset (core : ctx.Core active) : ctx.arrivals.toFinset ⊆ active := by
  intro a member
  rw [List.mem_toFinset] at member
  exact (core.active a).mpr (.inl ((core.running a).mp member))

theorem Core.arrivals_le (core : ctx.Core active) : ctx.arrivals.length ≤ active.card := by
  have nodup : ctx.arrivals.Nodup := core.sorted.nodup
  rw [← List.toFinset_card_of_nodup nodup]
  exact Finset.card_le_card core.arrivals_subset

/-! ## Changing one task -/

theorem stateOf_of_tasks (tasks : next.tasks = Function.update ctx.tasks a (some task)) :
    next.stateOf = Function.update ctx.stateOf a (some task.state) := by
  rw [← stateOf_setTask]
  funext b
  simp [stateOf, tasks, setTask]

theorem Core.change (core : ctx.Core active) {active' : Finset Addr} (nonnull : a ≠ 0) (aligned : 4 ∣ a)
    (tasks : next.tasks = Function.update ctx.tasks a (some task)) (alive : 0 < task.refCount)
    (sorted : next.keyed.Sorted bySchedKey)
    (others : ∀ b, b ≠ a → (b ∈ next.arrivals ↔ b ∈ ctx.arrivals))
    (self : a ∈ next.arrivals ↔ task.state = .running)
    (count : next.runningTaskCount = next.arrivals.length)
    (others' : ∀ b, b ≠ a → (b ∈ active' ↔ b ∈ active)) (self' : a ∈ active' ↔ task.state ≠ .stopped) :
    next.Core active' := by
  have states := stateOf_of_tasks tasks
  refine ⟨sorted, ?_, count, ?_, ?_⟩
  · intro b
    rw [states]
    by_cases same : b = a
    · subst same
      simp [self]
    · simp [same, others b same, core.running b]
  · intro b
    rw [states]
    by_cases same : b = a
    · subst same
      rw [self', Function.update_self]
      cases task.state <;> simp
    · simp [same, others' b same, core.active b]
  · intro b other there
    rw [tasks] at there
    by_cases same : b = a
    · subst same
      have equal : task = other := by simpa using there
      exact ⟨nonnull, aligned, equal ▸ alive⟩
    · exact core.heap b other (by simpa [same] using there)

theorem Core.mem_arrivals (core : ctx.Core active) (found : ctx.tasks a = some task) :
    a ∈ ctx.arrivals ↔ task.state = .running := by
  rw [core.running a, stateOf_eq found, Option.some.injEq]

theorem Core.mem_active (core : ctx.Core active) (found : ctx.tasks a = some task) :
    a ∈ active ↔ task.state ≠ .stopped := by
  rw [core.active a, stateOf_eq found]
  cases task.state <;> simp

theorem Core.setTask (core : ctx.Core active) {new : Task} (found : ctx.tasks a = some task)
    (state : new.state = task.state) (key : task.state = .running → new.schedKey = task.schedKey)
    (alive : 0 < new.refCount) : (ctx.setTask a new).Core active := by
  obtain ⟨nonnull, aligned, _⟩ := core.heap a task found
  refine core.change nonnull aligned rfl alive ?_ (fun _ _ => Iff.rfl) ?_ core.count (fun _ _ => Iff.rfl) ?_
  · refine core.sorted.congr fun b member => ?_
    rw [schedKey_setTask]
    by_cases self : b = a
    · subst self
      simp [key ((core.mem_arrivals found).mp member), keyed, schedKey, found]
    · simp [self, keyed]
  · rw [state]
    exact core.mem_arrivals found
  · rw [state]
    exact core.mem_active found

theorem Core.taskNew (core : ctx.Core active) (nonnull : a ≠ 0) (aligned : 4 ∣ a)
    (absent : ctx.tasks a = none) : (ctx.taskNew a).Core active := by
  have state : ctx.stateOf a = none := by simp [stateOf, absent]
  have outside : a ∉ ctx.arrivals := by simp [core.running a, state]
  have inactive : a ∉ active := by simp [core.active a, state]
  refine core.change nonnull aligned rfl Nat.one_pos ?_ (fun _ _ => Iff.rfl) ?_ core.count
    (fun _ _ => Iff.rfl) ?_
  · refine core.sorted.congr fun b member => ?_
    have other : b ≠ a := fun h => outside (h ▸ member)
    simp only [SystemContext.taskNew, schedKey_setTask, Function.update_of_ne other]
    rfl
  · exact iff_of_false outside (by decide)
  · exact iff_of_false inactive (by decide)

theorem setTask_setTask {first : Task} : (ctx.setTask a first).setTask a task = ctx.setTask a task := by
  simp [SystemContext.setTask, Function.update_idem]

theorem Core.free (core : ctx.Core active) (stopped : ctx.stateOf a = some .stopped) :
    Core { ctx with tasks := Function.update ctx.tasks a none } active := by
  have elsewhere : ∀ {b state}, state ≠ .stopped → (ctx.stateOf b = some state ↔
      stateOf { ctx with tasks := Function.update ctx.tasks a none } b = some state) := by
    intro b state active
    rw [stateOf_free]
    by_cases self : b = a
    · subst self
      rw [stopped]
      simp [active.symm]
    · simp [self]
  refine ⟨?_, ?_, core.count, ?_, ?_⟩
  · refine core.sorted.congr fun b member => ?_
    have running := (core.running b).mp member
    -- A stopped task is not in the tree, so no key that the tree uses is lost.
    have other : b ≠ a := by
      rintro rfl
      rw [stopped] at running
      cases running
    simp [schedKey, keyed, other]
  · intro b
    rw [← elsewhere (by decide)]
    exact core.running b
  · intro b
    rw [← elsewhere (by decide), ← elsewhere (by decide)]
    exact core.active b
  · intro b other there
    by_cases self : b = a
    · simp [self] at there
    · exact core.heap b other (by simpa [self] using there)

/-! ## Nodes of the tree -/

theorem schedLess_iff (a : Addr) (key : Nat) (b : Addr) (other : Nat) :
    schedLess a key b other = true ↔ bySchedKey a key < bySchedKey b other := by
  simp [schedLess]

theorem insertNode_spec (sorted : ctx.keyed.Sorted bySchedKey) (nonnull : a ≠ 0) (aligned : 4 ∣ a)
    (fresh : a ∉ ctx.arrivals) (bound : ctx.arrivals.length < fuel) :
    ∃ tree, ctx.insertNode fuel a =
        some { ctx with runningTasks := tree, arrivals := ctx.arrivals ++ [a] } ∧
      Keyed.Sorted bySchedKey ⟨tree, ctx.schedKey, ctx.arrivals ++ [a]⟩ := by
  have ⟨order, holds, perm, _⟩ := sorted
  have ready : KeyedOp.Ready ctx.keyed (.insert a (ctx.schedKey a)) := ⟨nonnull, aligned, fresh⟩
  obtain ⟨result, _, run, _⟩ := @KeyedOp.apply_spec _ schedLess _ _ _ _ holds perm ready bound
  have kept := @Keyed.Sorted.keep _ _ _ _ _ (.insert a (ctx.schedKey a)) _ _ schedLess_iff sorted trivial
    ⟨ready, fuel, run⟩
  simp only [KeyedOp.apply, Option.bind_eq_bind, Option.bind_eq_some_iff, Option.pure_def,
    Option.some.injEq] at run
  obtain ⟨tree, insert, rfl⟩ := run
  refine ⟨tree, ?_, ?_⟩
  · have insert' : ctx.runningTasks.insertBy fuel
        (fun this => schedLess a (ctx.schedKey a) this (ctx.schedKey this)) a = some tree := insert
    simp [insertNode, insert']
  · have field : Function.update ctx.keyed.field a (ctx.schedKey a) = ctx.schedKey :=
      Function.update_eq_self a ctx.schedKey
    rw [field] at kept
    exact kept

theorem eraseNode_spec {field : Addr → Nat}
    (sorted : Keyed.Sorted bySchedKey ⟨ctx.runningTasks, field, ctx.arrivals⟩)
    (others : ∀ b, b ≠ a → ctx.schedKey b = field b) (member : a ∈ ctx.arrivals)
    (bound : ctx.arrivals.length < fuel) :
    ∃ tree, ctx.eraseNode fuel a =
        some { ctx with runningTasks := tree, arrivals := ctx.arrivals.erase a } ∧
      Keyed.Sorted bySchedKey ⟨tree, ctx.schedKey, ctx.arrivals.erase a⟩ := by
  have nodup : ctx.arrivals.Nodup := sorted.nodup
  have ⟨order, holds, perm, _⟩ := sorted
  obtain ⟨result, _, run, _⟩ := @KeyedOp.apply_spec _ schedLess _ (.erase a) _ _ holds perm member bound
  have kept := @Keyed.Sorted.keep _ _ _ _ _ (.erase a) _ _ schedLess_iff sorted trivial ⟨member, fuel, run⟩
  simp only [KeyedOp.apply, Option.bind_eq_bind, Option.bind_eq_some_iff, Option.pure_def,
    Option.some.injEq] at run
  obtain ⟨tree, erased, rfl⟩ := run
  refine ⟨tree, by simp [eraseNode, erased], kept.congr fun b inside => others b ?_⟩
  rintro rfl
  exact (nodup.not_mem_erase) inside

/-! ## Entering and leaving the tree -/

theorem Core.insertTask (core : ctx.Core active) (found : ctx.tasks a = some task)
    (idle : task.state ≠ .running) (bound : active.card < fuel) :
    ∃ next, ctx.insertTask fuel a = some next ∧ next.Core (insert a active) ∧
      next.stateOf = Function.update ctx.stateOf a (some .running) ∧
      next.totalTaskCount = ctx.totalTaskCount ∧ next.currentTask = ctx.currentTask := by
  set new : Task := { task with state := .running, priority := task.nextPriority } with hnew
  have fresh : a ∉ ctx.arrivals := fun member => idle ((core.mem_arrivals found).mp member)
  obtain ⟨nonnull, aligned, alive⟩ := core.heap a task found
  -- The task is not in the tree yet, so its changed fields do not disturb the order.
  have sorted : (ctx.setTask a new).keyed.Sorted bySchedKey := by
    refine core.sorted.congr fun b member => ?_
    have other : b ≠ a := fun h => fresh (h ▸ member)
    rw [schedKey_setTask, Function.update_of_ne other]
    rfl
  obtain ⟨tree, insert, sorted'⟩ := insertNode_spec sorted nonnull aligned fresh
    (Nat.lt_of_le_of_lt core.arrivals_le bound)
  refine ⟨{ ctx.setTask a new with
      runningTasks := tree
      arrivals := ctx.arrivals ++ [a]
      runningTaskCount := ctx.runningTaskCount + 1 }, ?_, ?_, stateOf_setTask, rfl, rfl⟩
  · simp only [SystemContext.insertTask, found, Option.bind_eq_bind, Option.bind_some, ← hnew, insert]
    rfl
  · refine core.change nonnull aligned rfl alive sorted' ?_ ?_ ?_ ?_ ?_
    · intro b other
      simp [other]
    · simp [hnew]
    · simp [core.count]
    · intro b other
      simp [other]
    · simp [hnew]

theorem Core.reinsert (core : ctx.Core active) (found : ctx.tasks a = some task) {new : Task}
    (running : task.state = .running) (running' : new.state = .running) (alive : 0 < new.refCount)
    (bound : active.card < fuel) :
    ∃ next, (do
        let ctx ← (ctx.setTask a new).eraseNode fuel a
        ctx.insertNode fuel a) = some next ∧ next.Core active ∧ next.stateOf = ctx.stateOf ∧
      next.totalTaskCount = ctx.totalTaskCount ∧ next.currentTask = ctx.currentTask := by
  have member := (core.mem_arrivals found).mpr running
  have short := Nat.lt_of_le_of_lt core.arrivals_le bound
  obtain ⟨nonnull, aligned, _⟩ := core.heap a task found
  have nodup : ctx.arrivals.Nodup := core.sorted.nodup
  -- The key is written while the node is still in the tree; erasing needs the old order of the
  -- other nodes only.
  obtain ⟨tree, erased, sorted⟩ := @eraseNode_spec (ctx.setTask a new) a fuel ctx.schedKey core.sorted
    (fun b other => by rw [schedKey_setTask, Function.update_of_ne other]) member short
  have length : (ctx.arrivals.erase a).length < fuel := by
    have := List.length_erase_of_mem member
    omega
  set cleared : SystemContext := { ctx.setTask a new with
    runningTasks := tree
    arrivals := ctx.arrivals.erase a } with hcleared
  obtain ⟨tree', insert, sorted'⟩ := @insertNode_spec cleared a fuel sorted nonnull aligned
    nodup.not_mem_erase length
  refine ⟨{ cleared with runningTasks := tree', arrivals := ctx.arrivals.erase a ++ [a] }, ?_, ?_, ?_,
    rfl, rfl⟩
  · rw [erased]
    exact insert
  · refine core.change nonnull aligned rfl alive sorted' ?_ ?_ ?_ (fun _ _ => Iff.rfl) ?_
    · intro b other
      simp [other, List.mem_erase_of_ne]
    · simp [running']
    · have positive : 0 < ctx.arrivals.length := List.length_pos_of_mem member
      simp only [hcleared, List.length_append, List.length_erase_of_mem member, List.length_singleton]
      rw [show (ctx.setTask a new).runningTaskCount = ctx.arrivals.length from core.count]
      omega
    · rw [core.mem_active found, running, running']
  · have states : Function.update ctx.stateOf a (some new.state) = ctx.stateOf := by
      rw [running', ← running, ← stateOf_eq found, Function.update_eq_self]
    rw [← states]
    exact stateOf_setTask

theorem Core.leave (core : ctx.Core active) (found : ctx.tasks a = some task) {new : Task}
    (running : task.state = .running) (idle : new.state ≠ .running) (alive : 0 < new.refCount)
    (bound : active.card < fuel) :
    ∃ tree, (ctx.setTask a new).eraseNode fuel a =
        some { ctx.setTask a new with runningTasks := tree, arrivals := ctx.arrivals.erase a } ∧
      Core { ctx.setTask a new with
          runningTasks := tree
          arrivals := ctx.arrivals.erase a
          runningTaskCount := ctx.runningTaskCount - 1 }
        (if new.state = .waiting then active else active.erase a) := by
  have member := (core.mem_arrivals found).mpr running
  have nodup : ctx.arrivals.Nodup := core.sorted.nodup
  obtain ⟨tree, erased, sorted⟩ := @eraseNode_spec (ctx.setTask a new) a fuel ctx.schedKey core.sorted
    (fun b other => by rw [schedKey_setTask, Function.update_of_ne other]) member
    (Nat.lt_of_le_of_lt core.arrivals_le bound)
  obtain ⟨nonnull, aligned, _⟩ := core.heap a task found
  refine ⟨tree, erased, core.change nonnull aligned rfl alive sorted ?_ ?_ ?_ ?_ ?_⟩
  · intro b other
    exact List.mem_erase_of_ne other
  · simp [nodup.not_mem_erase, idle]
  · rw [List.length_erase_of_mem member, core.count]
  · intro b other
    split <;> simp [other]
  · cases state : new.state with
    | running => exact absurd state idle
    | waiting => simp [core.mem_active found, running]
    | stopped => simp

end HevTaskSystem.SystemContext
