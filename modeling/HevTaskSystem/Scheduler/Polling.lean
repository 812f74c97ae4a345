import HevTaskSystem.Scheduler.Invariant

/-! Polls and the choice of the next task.

A poll wakes tasks one after the other. It never stops or frees a task, and it
never takes a task out of the tree, so a tree with a node keeps one. The loop
that polls without a running task ends only when there is one.
-/

set_option autoImplicit false

namespace HevTaskSystem.SystemContext

variable {ctx mid next : SystemContext} {active : Finset Addr} {a b : Addr} {fuel : Nat}
  {events : List Addr} {polls : List (List Addr)}

/-- Some waiting tasks have been woken; nothing else has changed for the tasks. -/
structure Polled (ctx next : SystemContext) (active : Finset Addr) : Prop where
  core : next.Core active
  states : ∀ b, next.stateOf b = ctx.stateOf b ∨
    (ctx.stateOf b = some .waiting ∧ next.stateOf b = some .running)
  total : next.totalTaskCount = ctx.totalTaskCount
  current : next.currentTask = ctx.currentTask

theorem Polled.refl (core : ctx.Core active) : ctx.Polled ctx active :=
  ⟨core, fun _ => .inl rfl, rfl, rfl⟩

theorem Polled.running (polled : ctx.Polled next active) (running : ctx.stateOf b = some .running) :
    next.stateOf b = some .running := by
  rcases polled.states b with same | ⟨_, woken⟩
  · rw [same, running]
  · exact woken

theorem Polled.trans (first : ctx.Polled mid active) (second : mid.Polled next active) :
    ctx.Polled next active := by
  refine ⟨second.core, fun b => ?_, second.total.trans first.total, second.current.trans first.current⟩
  rcases first.states b with same | ⟨waiting, running⟩
  · rw [← same]
    exact second.states b
  · exact .inr ⟨waiting, second.running running⟩

theorem Core.count_ne_zero (core : ctx.Core active) :
    ctx.runningTaskCount ≠ 0 ↔ ∃ b, ctx.stateOf b = some .running := by
  rw [core.count]
  constructor
  · intro positive
    obtain ⟨b, member⟩ := List.exists_mem_of_length_pos (Nat.pos_of_ne_zero positive)
    exact ⟨b, (core.running b).mp member⟩
  · rintro ⟨b, running⟩
    exact Nat.ne_of_gt (List.length_pos_of_mem ((core.running b).mpr running))

/-! ## Waking -/

theorem Core.wakeupTask (core : ctx.Core active) (member : a ∈ active) (bound : active.card < fuel) :
    ∃ next, ctx.wakeupTask fuel a = some next ∧ ctx.Polled next active ∧
      next.stateOf = Function.update ctx.stateOf a (some .running) := by
  have state := (core.active a).mp member
  rcases state with running | waiting
  · obtain ⟨task, found, state⟩ := exists_task running
    refine ⟨ctx, ?_, .refl core, ?_⟩
    · simp [SystemContext.wakeupTask, found, state]
    · rw [← running, Function.update_eq_self]
  · obtain ⟨task, found, state⟩ := exists_task waiting
    set new : Task := { task with schedKey := (task.schedKey + ctx.getMinSchedKey) % 2 ^ 64 } with hnew
    have changed : (ctx.setTask a new).Core active := by
      refine core.setTask found rfl ?_ (core.heap a task found).2.2
      intro running
      rw [state] at running
      cases running
    -- Waking makes the relative key absolute before the task goes into the tree.
    have there : (ctx.setTask a new).tasks a = some new := by simp [SystemContext.setTask]
    obtain ⟨next, insert, core', states, total, current⟩ := changed.insertTask there
      (by rw [hnew, state]; decide) bound
    rw [Finset.insert_eq_of_mem member] at core'
    have states' : next.stateOf = Function.update ctx.stateOf a (some .running) := by
      rw [states, stateOf_setTask, Function.update_idem]
    refine ⟨next, ?_, ⟨core', fun b => ?_, total, current⟩, states'⟩
    · simp only [SystemContext.wakeupTask, found, Option.bind_eq_bind, Option.bind_some]
      split
      · simp_all
      · simp_all
      · exact insert
    · rw [states']
      by_cases same : b = a
      · subst same
        exact .inr ⟨waiting, Function.update_self ..⟩
      · exact .inl (Function.update_of_ne same ..)

theorem Core.mem_of_wakeup (core : ctx.Core active) (run : ctx.wakeupTask fuel a = some next) :
    a ∈ active := by
  simp only [SystemContext.wakeupTask, Option.bind_eq_bind, Option.bind_eq_some_iff] at run
  obtain ⟨task, found, run⟩ := run
  rw [core.mem_active found]
  intro stopped
  rw [stopped] at run
  cases run

/-! ## Polls -/

theorem Core.ioPoll (core : ctx.Core active) (inside : ∀ a ∈ events, a ∈ active)
    (bound : active.card < fuel) :
    ∃ next, ctx.ioPoll fuel events = some next ∧ ctx.Polled next active ∧
      ∀ a ∈ events, next.stateOf a = some .running := by
  induction events generalizing ctx with
  | nil => exact ⟨ctx, rfl, .refl core, by simp⟩
  | cons a events ih =>
    obtain ⟨mid, wake, polled, states⟩ := core.wakeupTask (inside a List.mem_cons_self) bound
    obtain ⟨next, run, polled', woken⟩ := ih polled.core fun b h => inside b (List.mem_cons_of_mem _ h)
    refine ⟨next, ?_, polled.trans polled', fun b member => ?_⟩
    · simp only [SystemContext.ioPoll, List.foldlM_cons, wake] at run ⊢
      exact run
    · rcases List.mem_cons.mp member with rfl | later
      · exact polled'.running (by rw [states, Function.update_self])
      · exact woken b later

theorem Core.inside_of_ioPoll (core : ctx.Core active) (bound : active.card < fuel)
    (run : ctx.ioPoll fuel events = some next) : ∀ a ∈ events, a ∈ active := by
  induction events generalizing ctx with
  | nil => simp
  | cons a events ih =>
    simp only [SystemContext.ioPoll, List.foldlM_cons, Option.bind_eq_bind, Option.bind_eq_some_iff] at run
    obtain ⟨mid, wake, run⟩ := run
    have first := core.mem_of_wakeup wake
    obtain ⟨mid', wake', polled, _⟩ := core.wakeupTask first bound
    rw [wake, Option.some.injEq] at wake'
    subst wake'
    intro b member
    rcases List.mem_cons.mp member with rfl | later
    · exact first
    · exact ih polled.core run b later

theorem Core.polled_of_ioPoll (core : ctx.Core active) (bound : active.card < fuel)
    (run : ctx.ioPoll fuel events = some next) : ctx.Polled next active := by
  obtain ⟨next', run', polled, _⟩ := core.ioPoll (core.inside_of_ioPoll bound run) bound
  rw [run, Option.some.injEq] at run'
  exact run' ▸ polled

theorem Core.polled_of_ioPollWait (core : ctx.Core active) (bound : active.card < fuel)
    (run : ctx.ioPollWait fuel polls = some next) : ctx.Polled next active ∧ next.runningTaskCount ≠ 0 := by
  induction polls generalizing ctx with
  | nil => cases run
  | cons events polls ih =>
    simp only [ioPollWait, Option.bind_eq_bind, Option.bind_eq_some_iff] at run
    obtain ⟨mid, poll, run⟩ := run
    have polled := core.polled_of_ioPoll bound poll
    by_cases idle : mid.runningTaskCount = 0
    · rw [if_pos idle] at run
      obtain ⟨rest, nonzero⟩ := ih polled.core run
      exact ⟨polled.trans rest, nonzero⟩
    · rw [if_neg idle] at run
      cases run
      exact ⟨polled, idle⟩

theorem Core.ioPollWait_returns (core : ctx.Core active) (bound : active.card < fuel)
    (inside : ∀ events ∈ polls, ∀ a ∈ events, a ∈ active) (wakes : ∃ events ∈ polls, events ≠ []) :
    ∃ next, ctx.ioPollWait fuel polls = some next := by
  induction polls generalizing ctx with
  | nil => simp at wakes
  | cons events polls ih =>
    obtain ⟨mid, poll, polled, woken⟩ := core.ioPoll (inside events List.mem_cons_self) bound
    by_cases idle : mid.runningTaskCount = 0
    · have none : events = [] := by
        cases events with
        | nil => rfl
        | cons a rest =>
          exact absurd idle (polled.core.count_ne_zero.mpr ⟨a, woken a List.mem_cons_self⟩)
      subst none
      have later : ∃ events ∈ polls, events ≠ [] := by simpa using wakes
      obtain ⟨next, run⟩ := ih polled.core (fun e h => inside e (List.mem_cons_of_mem _ h)) later
      exact ⟨next, by simp [ioPollWait, poll, idle, run]⟩
    · exact ⟨mid, by simp [ioPollWait, poll, idle]⟩

/-! ## Choosing the next task -/

theorem Core.withCurrent (core : ctx.Core active) (current : Addr) :
    Core { ctx with currentTask := current } active :=
  ⟨core.sorted, core.running, core.count, core.active, core.heap⟩

theorem Core.first_running (core : ctx.Core active) (nonempty : ctx.runningTaskCount ≠ 0) :
    ctx.stateOf ctx.runningTasks.cachedFirst = some .running := by
  have exists' : ctx.arrivals ≠ [] := by
    rw [core.count] at nonempty
    exact List.ne_nil_of_length_pos (Nat.pos_of_ne_zero nonempty)
  exact (core.running _).mp (core.sorted.firstLeast exists').1

/-- The polls of `hev_task_system_pick_current_task`. -/
inductive PickPolls (fuel : Nat) (ctx : SystemContext) : List (List Addr) → SystemContext → Prop where
  | all {polls : List (List Addr)} : ¬ ctx.runningTaskCount < ctx.totalTaskCount → PickPolls fuel ctx polls ctx
  | skipped : ctx.runningTaskCount < ctx.totalTaskCount → ctx.runningTaskCount ≠ 0 → PickPolls fuel ctx [] ctx
  | once {events : List Addr} {polls : List (List Addr)} {polled : SystemContext} :
      ctx.runningTaskCount < ctx.totalTaskCount → ctx.runningTaskCount ≠ 0 → ctx.ioPoll fuel events = some polled →
        PickPolls fuel ctx (events :: polls) polled
  | wait {polls : List (List Addr)} {polled : SystemContext} :
      ctx.runningTaskCount < ctx.totalTaskCount → ctx.runningTaskCount = 0 → ctx.ioPollWait fuel polls = some polled →
        PickPolls fuel ctx polls polled

theorem pickCurrentTask_polls (run : ctx.pickCurrentTask fuel polls = some next) :
    ∃ polled, PickPolls fuel ctx polls polled ∧
      next = { polled with currentTask := polled.runningTasks.cachedFirst } := by
  simp only [pickCurrentTask, Option.bind_eq_bind] at run
  by_cases partly : ctx.runningTaskCount < ctx.totalTaskCount
  · rw [if_pos partly] at run
    by_cases busy : ctx.runningTaskCount ≠ 0
    · rw [if_pos busy] at run
      obtain ⟨polled, poll, pick⟩ := Option.bind_eq_some_iff.mp run
      cases pick
      cases polls with
      | nil =>
        cases poll
        exact ⟨ctx, .skipped partly busy, rfl⟩
      | cons events polls => exact ⟨polled, .once partly busy poll, rfl⟩
    · rw [if_neg busy] at run
      obtain ⟨polled, poll, pick⟩ := Option.bind_eq_some_iff.mp run
      cases pick
      exact ⟨polled, .wait partly (not_not.mp busy) poll, rfl⟩
  · rw [if_neg partly] at run
    cases run
    exact ⟨ctx, .all partly, rfl⟩

theorem Core.pick (core : ctx.Core active) (total : active.card = ctx.totalTaskCount)
    (nonzero : ctx.totalTaskCount ≠ 0) (bound : active.card < fuel)
    (run : ctx.pickCurrentTask fuel polls = some next) :
    ∃ polled, ctx.Polled polled active ∧ polled.runningTaskCount ≠ 0 ∧
      next = { polled with currentTask := polled.runningTasks.cachedFirst } := by
  obtain ⟨mid, chosen, rfl⟩ := pickCurrentTask_polls run
  cases chosen with
  | all whole => exact ⟨ctx, .refl core, by omega, rfl⟩
  | skipped _ busy => exact ⟨ctx, .refl core, busy, rfl⟩
  | once _ busy poll =>
    have polled := core.polled_of_ioPoll bound poll
    -- Polls only wake, so the tree stays nonempty.
    obtain ⟨b, running⟩ := core.count_ne_zero.mp busy
    exact ⟨mid, polled, polled.core.count_ne_zero.mpr ⟨b, polled.running running⟩, rfl⟩
  | wait _ _ poll =>
    obtain ⟨polled, nonempty⟩ := core.polled_of_ioPollWait bound poll
    exact ⟨mid, polled, nonempty, rfl⟩

theorem Core.pick_returns (core : ctx.Core active) (bound : active.card < fuel)
    (inside : ∀ events ∈ polls, ∀ a ∈ events, a ∈ active)
    (wakes : ctx.runningTaskCount = 0 → ∃ events ∈ polls, events ≠ []) :
    ∃ next, ctx.pickCurrentTask fuel polls = some next := by
  simp only [pickCurrentTask, Option.bind_eq_bind]
  by_cases partly : ctx.runningTaskCount < ctx.totalTaskCount
  · rw [if_pos partly]
    by_cases busy : ctx.runningTaskCount ≠ 0
    · rw [if_pos busy]
      cases polls with
      | nil => exact ⟨_, rfl⟩
      | cons events _ =>
        obtain ⟨mid, poll, _⟩ := core.ioPoll (inside events List.mem_cons_self) bound
        exact ⟨_, by simp only [ioPollMaybe, poll]; rfl⟩
    · rw [if_neg busy]
      obtain ⟨mid, poll⟩ := core.ioPollWait_returns bound inside (wakes (not_not.mp busy))
      exact ⟨_, by rw [poll]; rfl⟩
  · rw [if_neg partly]
    exact ⟨_, rfl⟩

/-- The scheduler has left the kernel: for its caller once no task is active, or
for the first task of the tree. -/
structure Scheduled (ctx next : SystemContext) (active : Finset Addr) : Prop where
  core : next.Core active
  states : ∀ b, next.stateOf b = ctx.stateOf b ∨
    (ctx.stateOf b = some .waiting ∧ next.stateOf b = some .running)
  total : next.totalTaskCount = ctx.totalTaskCount
  choice : (active = ∅ ∧ next.currentTask = 0) ∨
    (next.currentTask ≠ 0 ∧ next.currentTask = next.runningTasks.cachedFirst ∧
      next.stateOf next.currentTask = some .running)

theorem Core.scheduled (core : ctx.Core active) (total : active.card = ctx.totalTaskCount)
    (bound : active.card < fuel) {clock : Option Timespec}
    (run : ctx.scheduleNext fuel polls clock = some next) : ctx.Scheduled next active := by
  unfold scheduleNext at run
  by_cases none : ctx.totalTaskCount = 0
  · rw [if_pos none] at run
    cases run
    refine ⟨core.withCurrent 0, fun _ => .inl rfl, rfl, .inl ⟨?_, rfl⟩⟩
    exact Finset.card_eq_zero.mp (total.trans none)
  · rw [if_neg none] at run
    simp only [Option.bind_eq_bind, Option.bind_eq_some_iff] at run
    obtain ⟨picked, pick, task, found, run⟩ := run
    obtain ⟨polled, wakes, nonempty, rfl⟩ := core.pick total none bound pick
    have first := wakes.core.first_running nonempty
    obtain ⟨task, there, _⟩ := exists_task first
    cases run
    cases clock with
    | none =>
      exact ⟨wakes.core.withCurrent _, wakes.states, wakes.total,
        .inr ⟨(wakes.core.heap _ task there).1, rfl, first⟩⟩
    | some now =>
      exact ⟨⟨wakes.core.sorted, wakes.core.running, wakes.core.count, wakes.core.active, wakes.core.heap⟩,
        wakes.states, wakes.total, .inr ⟨(wakes.core.heap _ task there).1, rfl, first⟩⟩

/-- The choice never fails: if all active tasks are waiting, the polls have to report one. -/
theorem Core.scheduleNext_returns (core : ctx.Core active) (total : active.card = ctx.totalTaskCount)
    (bound : active.card < fuel) (clock : Option Timespec)
    (inside : ∀ events ∈ polls, ∀ a ∈ events, a ∈ active)
    (wakes : active.Nonempty → (∀ a, ctx.stateOf a ≠ some .running) → ∃ events ∈ polls, events ≠ []) :
    ∃ next, ctx.scheduleNext fuel polls clock = some next := by
  unfold scheduleNext
  by_cases none : ctx.totalTaskCount = 0
  · rw [if_pos none]
    exact ⟨_, rfl⟩
  · rw [if_neg none]
    have some : active.Nonempty := by
      rw [← Finset.card_pos]
      omega
    have idle : ctx.runningTaskCount = 0 → ∀ a, ctx.stateOf a ≠ .some .running := fun zero a running =>
      core.count_ne_zero.mpr ⟨a, running⟩ zero
    obtain ⟨picked, pick⟩ := core.pick_returns bound inside fun zero => wakes some (idle zero)
    obtain ⟨polled, woken, nonempty, rfl⟩ := core.pick total none bound pick
    obtain ⟨task, there, _⟩ := exists_task (woken.core.first_running nonempty)
    simp only [Option.bind_eq_bind, pick, Option.bind_some]
    cases clock with
    | none | some now => exact ⟨_, by simp only [updateSchedTime, there, Option.bind_some]; rfl⟩

end HevTaskSystem.SystemContext
