import HevTaskSystem.Scheduler.Keys

/-! Fair shares of the processor without a schedule clock.

A context is taken together with what was last added to the key of every task. As long as
no key wraps, the tasks in the tree are a fair queue, and the current task is its first
member. This bounds how far keys can be apart, how often one task can be chosen before
another, and how the turns of two tasks compare.
-/

set_option autoImplicit false

namespace HevTaskSystem

open Foundation SystemContext

namespace SchedOp

def NoClock : SchedOp → Prop
  | .yield _ now _ clock => now = none ∧ clock = none
  | .exit _ clock | .systemRun _ clock => clock = none
  | _ => True

/-- The priorities that are set are at least `lo`. -/
def Rates (lo : Nat) : SchedOp → Prop
  | .setPriority _ priority => lo ≤ priority.toNat
  | _ => True

def Fits (ctx : SystemContext) : SchedOp → Prop
  | .run a => ctx.currentTask ≠ 0 → ctx.stateOf a = some .stopped →
      ctx.nextPriority a + ctx.getMinSchedKey < 2 ^ 64
  | .wakeup a => ctx.WakeFits a
  | .yield .yield now polls _ => ctx.schedKey ctx.currentTask + ctx.priority ctx.currentTask < 2 ^ 64 ∧
      ∀ fuel mid, ((ctx.updateSchedKey now).bind fun mid => mid.reinsertCurrentTask fuel) = some mid →
        mid.PickFits polls
  | .yield .waitio now polls _ =>
      ∀ fuel mid, ((ctx.updateSchedKey now).bind fun mid => mid.removeCurrentTask fuel .waiting) = some mid →
        mid.PickFits polls
  | .exit polls _ => ∀ fuel mid, ctx.removeCurrentTask fuel .stopped = some mid → mid.PickFits polls
  | .systemRun polls _ => ctx.PickFits polls
  | _ => True

/-- The turn of the current task ends, and the task stays in the tree. -/
def Yields : SchedOp → Prop
  | .yield .yield .. => True
  | _ => False

def Leaves : SchedOp → Prop
  | .yield .waitio .. | .exit .. => True
  | _ => False

/-- What was last added to the keys, after the operation: the priority for a turn, the next
priority when a task is started or waits, the key itself when a waiting task is woken. -/
def charges (ctx next : SystemContext) (charge : Addr → Nat) : SchedOp → Addr → Nat
  | .run a => if ctx.stateOf a = some .stopped then Function.update charge a (ctx.nextPriority a) else charge
  | .yield .yield _ _ _ =>
      Function.update (ctx.woken next charge) ctx.currentTask (ctx.priority ctx.currentTask)
  | .yield .waitio _ _ _ =>
      Function.update (ctx.woken next charge) ctx.currentTask (ctx.nextPriority ctx.currentTask)
  | _ => ctx.woken next charge

end SchedOp

/-- A context and what was last added to the key of every task, which no operation reads. -/
structure ChargedContext where
  ctx : SystemContext
  charge : Addr → Nat

def chargedSystem : System ChargedContext SchedOp where
  init s := schedSystem.init s.ctx
  step s op next := schedSystem.step s.ctx op next.ctx ∧ next.charge = op.charges s.ctx next.ctx s.charge

theorem chargedSystem_records {ops : List SchedOp} {ctx : SystemContext} (run : schedSystem.Run ops ctx) :
    ∃ charge, chargedSystem.Run ops ⟨ctx, charge⟩ := by
  induction run with
  | init initial => exact ⟨fun _ => 0, .init initial⟩
  | @step _ ctx next op _ step ih =>
    obtain ⟨charge, run⟩ := ih
    have charged : chargedSystem.step ⟨ctx, charge⟩ op ⟨next, op.charges ctx next charge⟩ := ⟨step, rfl⟩
    exact ⟨_, run.step charged⟩

/-- No schedule clock, no wrap, and priorities of at least `lo`. -/
def fairSystem (lo : Nat) : System ChargedContext SchedOp :=
  chargedSystem.restrict fun s op => op.NoClock ∧ op.Rates lo ∧ op.Fits s.ctx

/-! ## Operations that leave the queue alone -/

namespace SystemContext

variable {ctx next : SystemContext} {active : Finset Addr} {a : Addr} {task : Task} {lo fuel : Nat}
  {charge : Addr → Nat}

/-- Nothing that the scheduler reads of a running or waiting task has changed. -/
structure Quiet (lo : Nat) (ctx next : SystemContext) : Prop where
  states : ∀ b state, state ≠ .stopped → (next.stateOf b = some state ↔ ctx.stateOf b = some state)
  keys : ∀ b, ctx.stateOf b = some .running → next.schedKey b = ctx.schedKey b
  rated : next.Rated lo
  arrivals : next.arrivals = ctx.arrivals
  current : next.currentTask = ctx.currentTask

theorem Quiet.queue (quiet : Quiet lo ctx next) : next.queue (ctx.woken next charge) = ctx.queue charge := by
  refine queue_congr (fun b => quiet.states b .running (by decide)) quiet.keys fun b running => ?_
  exact woken_of_same (((quiet.states b .running (by decide)).mpr running).trans running.symm)

theorem Quiet.setTask (rated : ctx.Rated lo) (found : ctx.tasks a = some task) {new : Task}
    (state : new.state = task.state) (key : new.schedKey = task.schedKey) (fair : new.Rated lo) :
    Quiet lo ctx (ctx.setTask a new) := by
  have states : (ctx.setTask a new).stateOf = ctx.stateOf := by
    rw [stateOf_setTask_same found state]
  have keys : (ctx.setTask a new).schedKey = ctx.schedKey := by
    rw [schedKey_setTask, key, ← schedKey_eq found, Function.update_eq_self]
  refine ⟨fun b state _ => by rw [states], fun b _ => by rw [keys], ?_, rfl, rfl⟩
  exact rated.of_tasks rfl fair

theorem Quiet.taskNew (low : lo ≤ 8) (rated : ctx.Rated lo) (absent : ctx.tasks a = none) :
    Quiet lo ctx (ctx.taskNew a) := by
  have gone : ctx.stateOf a = none := by simp [stateOf, absent]
  have states : (ctx.taskNew a).stateOf = Function.update ctx.stateOf a (some .stopped) := stateOf_setTask
  have keys : (ctx.taskNew a).schedKey = Function.update ctx.schedKey a 0 := schedKey_setTask
  refine ⟨fun b state active => ?_, fun b running => ?_, ?_, rfl, rfl⟩
  · by_cases here : b = a
    · subst here
      simp [states, gone, active.symm]
    · rw [states, Function.update_of_ne here]
  · have here : b ≠ a := by
      rintro rfl
      cases gone.symm.trans running
    rw [keys, Function.update_of_ne here]
  · refine rated.of_tasks rfl ⟨⟨low, by decide⟩, fun runs => ?_, fun waits => ?_, by decide⟩
    · cases runs
    · cases waits

theorem Quiet.free (rated : ctx.Rated lo) (stopped : ctx.stateOf a = some .stopped) :
    Quiet lo ctx { ctx with tasks := Function.update ctx.tasks a none } := by
  refine ⟨fun b state active => ?_, fun b running => ?_, fun b task found => ?_, rfl, rfl⟩
  · by_cases here : b = a
    · subst here
      rw [stopped]
      simp [stateOf, active.symm]
    · simp [stateOf, here]
  · have here : b ≠ a := by
      rintro rfl
      cases stopped.symm.trans running
    simp [schedKey, here]
  · by_cases here : b = a
    · subst here
      simp at found
    · exact rated b task (by simpa [here] using found)

theorem Quiet.taskUnref (rated : ctx.Rated lo) (found : ctx.tasks a = some task)
    (kept : 1 < task.refCount ∨ task.state = .stopped) (run : ctx.taskUnref a = some next) : Quiet lo ctx next := by
  simp only [SystemContext.taskUnref, found, Option.bind_eq_bind, Option.bind_some] at run
  have fair := rated a task found
  split at run
  · cases run
    exact .setTask rated found rfl rfl ⟨fair.next, fair.turn, fair.wake, fair.key⟩
  · cases run
    refine .free rated ?_
    rw [stateOf_eq found, kept.resolve_left (by omega)]

theorem Quiet.taskSetPriority (low : lo ≤ 8) (rated : ctx.Rated lo) {priority : Int} (rates : lo ≤ priority.toNat)
    (run : ctx.taskSetPriority a priority = some next) : Quiet lo ctx next := by
  simp only [SystemContext.taskSetPriority, Option.bind_eq_bind, Option.bind_eq_some_iff] at run
  obtain ⟨task, found, run⟩ := run
  have fair := rated a task found
  cases run
  refine .setTask rated found rfl rfl ⟨?_, fair.turn, fair.wake, fair.key⟩
  unfold FairPriority
  dsimp only
  split
  · omega
  · split
    · omega
    · omega

theorem not_both_orders {l : List Addr} {x y : Addr} (nodup : l.Nodup) (first : [x, y].Sublist l)
    (second : [y, x].Sublist l) : False := by
  induction l with
  | nil => cases first
  | cons z rest ih =>
    rw [List.nodup_cons] at nodup
    cases first with
    | cons _ first =>
      cases second with
      | cons _ second => exact ih nodup.2 first second
      | cons_cons _ _ => exact nodup.1 (first.subset (by simp))
    | cons_cons _ first =>
      cases second with
      | cons _ second => exact nodup.1 (second.subset (by simp))
      | cons_cons _ _ => exact nodup.1 (first.subset (by simp))

theorem Core.first_stays {active' : Finset Addr} {charge' : Addr → Nat} {more : List Addr} (core : ctx.Core active)
    (core' : next.Core active') (running : ctx.stateOf a = some .running)
    (enters : FairQueue.Enters (FairPriority lo) (ctx.queue charge) (next.queue charge'))
    (arrivals : next.arrivals = ctx.arrivals ++ more) :
    next.runningTasks.cachedFirst = ctx.runningTasks.cachedFirst := by
  set c := ctx.runningTasks.cachedFirst with hc
  have member : c ∈ ctx.arrivals := (core.first_le running).1
  have first := (core.running c).mp member
  have key : ∀ b, b ∈ ctx.arrivals → next.schedKey b = ctx.schedKey b := by
    intro b there
    have kept := enters.kept (queue_of_running ((core.running b).mp there))
    exact (congrArg Entry.key (of_queue kept).2).symm
  have least : (ctx.queue charge).AtLeast (ctx.schedKey c) := by
    rw [← core.getMinSchedKey_eq running]
    exact (core.least charge).le
  -- Who enters starts from the least key, which is that of the first task.
  have above : ∀ b, b ∈ next.arrivals → ctx.schedKey c ≤ next.schedKey b := fun b there =>
    least.enters (queue_of_running first) enters b _ (queue_of_running ((core'.running b).mp there))
  have member' : c ∈ next.arrivals := by
    rw [arrivals]
    exact List.mem_append_left _ member
  obtain ⟨there, precedes⟩ := core'.sorted.firstLeast (List.ne_nil_of_mem member')
  by_contra other
  have nodup : next.arrivals.Nodup := core'.sorted.nodup
  set d := next.runningTasks.cachedFirst with hd
  rcases precedes c member' (Ne.symm other) with less | ⟨equal, order⟩
  · have less : next.schedKey d < next.schedKey c := less
    rw [key c member] at less
    exact absurd (above d there) (Nat.not_le.mpr less)
  · -- The new first one has the same key and came earlier, so it was there and behind `c`.
    have equal : next.schedKey d = next.schedKey c := equal
    have order : [d, c].Sublist next.arrivals := order
    suffices [c, d].Sublist next.arrivals from not_both_orders nodup order this
    have there' : d ∈ next.arrivals := there
    rw [arrivals] at there' ⊢
    rcases List.mem_append.mp there' with old | new
    · rcases (core.sorted.firstLeast (List.ne_nil_of_mem member)).2 d old other with less | ⟨_, order⟩
      · have less : ctx.schedKey c < ctx.schedKey d := less
        rw [key d old, key c member] at equal
        omega
      · exact order.trans (List.sublist_append_left _ _)
    · exact (List.singleton_sublist.mpr member).append (List.singleton_sublist.mpr new)

end SystemContext

namespace ChargedContext

def queue (s : ChargedContext) : FairQueue Addr := s.ctx.queue s.charge

/-- Before `hev_task_system_run`: tasks were started and nothing else. -/
structure Unstarted (s : ChargedContext) : Prop where
  waiting : ∀ a, s.ctx.stateOf a ≠ some .waiting
  keys : ∀ a e, s.queue a = some e → e.key = e.charge

structure Fair (lo : Nat) (s : ChargedContext) (active : Finset Addr) : Prop where
  inv : s.ctx.Inv active
  rated : s.ctx.Rated lo
  window : s.queue.Window
  charged : s.queue.Charged (FairPriority lo)
  first : s.ctx.currentTask ≠ 0 → s.ctx.currentTask = s.ctx.runningTasks.cachedFirst
  unstarted : s.ctx.currentTask = 0 → s.Unstarted

inductive Moved (lo : Nat) (s : ChargedContext) (op : SchedOp) (next : ChargedContext) : Prop where
  | started : s.ctx.currentTask = 0 → ¬ op.Schedules → (∀ b e, s.queue b = some e → next.queue b = some e) →
      next.Unstarted → next.queue.Charged (FairPriority lo) → Moved lo s op next
  | entered : (s.ctx.currentTask = 0 ↔ op.Schedules) → FairQueue.Enters (FairPriority lo) s.queue next.queue →
      Moved lo s op next
  | turned : s.ctx.currentTask ≠ 0 → op.Yields → FairPriority lo (s.ctx.priority s.ctx.currentTask) →
      FairQueue.Enters (FairPriority lo) (s.queue.enter s.ctx.currentTask (s.ctx.schedKey s.ctx.currentTask)
        (s.ctx.priority s.ctx.currentTask)) next.queue → Moved lo s op next
  | left : s.ctx.currentTask ≠ 0 → op.Leaves →
      FairQueue.Enters (FairPriority lo) (s.queue.leave s.ctx.currentTask) next.queue → Moved lo s op next

structure Stepped (lo : Nat) (s : ChargedContext) (op : SchedOp) (next : ChargedContext) : Prop where
  moved : Moved lo s op next
  rated : next.ctx.Rated lo
  stays : ¬ op.Schedules → next.ctx.currentTask = s.ctx.currentTask ∧
    ∃ more, next.ctx.arrivals = s.ctx.arrivals ++ more

variable {lo fuel : Nat} {s next : ChargedContext} {op : SchedOp} {active : Finset Addr} {a : Addr}
  {polls : List (List Addr)}

theorem Fair.quiet (fair : Fair lo s active) (calls : ¬ op.Schedules) (quiet : Quiet lo s.ctx next.ctx)
    (charge : next.charge = s.ctx.woken next.ctx s.charge) : Stepped lo s op next := by
  have same : next.queue = s.queue := by
    unfold queue
    rw [charge]
    exact quiet.queue
  refine ⟨?_, quiet.rated, fun _ => ⟨quiet.current, [], by rw [quiet.arrivals, List.append_nil]⟩⟩
  by_cases null : s.ctx.currentTask = 0
  · have before := fair.unstarted null
    refine .started null calls (fun b e here => by rwa [same]) ⟨fun b waits => ?_, ?_⟩ (same ▸ fair.charged)
    · exact before.waiting b ((quiet.states b .waiting (by decide)).mp waits)
    · rw [same]
      exact before.keys
  · refine .entered (iff_of_false null calls) ?_
    rw [same]
    exact .refl _

theorem Fair.run (fair : Fair lo s active) (fits : (SchedOp.run a).Fits s.ctx)
    (run : s.ctx.taskRun fuel a = some next.ctx)
    (charge : next.charge = (SchedOp.run a).charges s.ctx next.ctx s.charge) :
    Stepped lo s (.run a) next := by
  rcases taskRun_fields run with ⟨same, active⟩ | ⟨task, found, stopped, tasks, arrivals, current⟩
  · refine fair.quiet (fun h => h) ?_ ?_
    · rw [same]
      exact ⟨fun _ _ _ => Iff.rfl, fun _ _ => rfl, fair.rated, rfl, rfl⟩
    · rw [charge, same, SchedOp.charges, if_neg active, woken_self]
  · have state : s.ctx.stateOf a = some .stopped := stopped ▸ stateOf_eq found
    have pays := (fair.rated a task found).next
    rw [SchedOp.charges, if_pos state, nextPriority_eq found] at charge
    have queued := @queue_update s.ctx next.ctx a _ s.charge next.charge tasks rfl fun b other => by
      rw [charge, Function.update_of_ne other]
    rw [charge, Function.update_self, ← charge] at queued
    refine ⟨?_, fair.rated.of_tasks tasks (fair.rated a task found).start,
      fun _ => ⟨current, _, arrivals⟩⟩
    -- Before the system runs the keys count from zero, and no order has to be kept.
    by_cases null : s.ctx.currentTask = 0
    · have before := fair.unstarted null
      have entered : next.queue = s.queue.enter a 0 task.nextPriority := by
        simp only [null, ne_eq, not_true_eq_false, if_false] at queued
        rw [FairQueue.enter, Nat.zero_add]
        exact queued
      refine .started null (fun h => h) (fun b e here => ?_) ⟨fun b waits => ?_, fun b e here => ?_⟩ ?_
      · rw [entered, FairQueue.enter_of_ne, here]
        rintro rfl
        cases state.symm.trans (of_queue here).1
      · rw [stateOf_of_tasks tasks] at waits
        by_cases here : b = a
        · subst here
          simp at waits
        · exact before.waiting b ((Function.update_of_ne here ..).symm.trans waits)
      · rcases FairQueue.enter_cases (entered ▸ here) with ⟨_, rfl⟩ | ⟨_, old⟩
        · exact Nat.zero_add _
        · exact before.keys b e old
      · rw [entered]
        exact fair.charged.enter pays
    -- Below the bound the sum does not wrap and the task enters behind the least key.
    · have sum := fits null state
      rw [nextPriority_eq found] at sum
      simp only [ne_eq, null, not_false_eq_true, if_true, Nat.mod_eq_of_lt sum] at queued
      refine .entered (iff_of_false null fun h => h) ?_
      have entered : next.queue = s.queue.enter a s.ctx.getMinSchedKey task.nextPriority := by
        rw [FairQueue.enter, Nat.add_comm]
        exact queued
      rw [entered]
      exact .enter (.refl _) (queue_of_not_running (by simp [state])) (fair.inv.core.least _) pays

theorem Fair.wakeup (fair : Fair lo s active) (fits : s.ctx.WakeFits a)
    (run : s.ctx.wakeupTask fuel a = some next.ctx)
    (charge : next.charge = s.ctx.woken next.ctx s.charge) : Stepped lo s (.wakeup a) next := by
  have awakened := fair.inv.core.awakened fair.rated fits run
  rcases wakeupTask_fields run with ⟨same, _⟩ | ⟨task, found, waiting, tasks, arrivals, current⟩
  · refine fair.quiet (fun h => h) ?_ charge
    rw [same]
    exact ⟨fun _ _ _ => Iff.rfl, fun _ _ => rfl, fair.rated, rfl, rfl⟩
  · refine ⟨.entered (iff_of_false (fun null => ?_) fun h => h) ?_, awakened.rated, fun _ => ⟨current, _, arrivals⟩⟩
    · exact (fair.unstarted null).waiting a (waiting ▸ stateOf_eq found)
    · unfold queue
      rw [charge]
      exact awakened.enters s.charge

theorem Fair.stepped (low : lo ≤ 8) (fair : Fair lo s active) (bound : active.card < fuel)
    (ready : op.Ready s.ctx) (clock : op.NoClock) (rates : op.Rates lo) (fits : op.Fits s.ctx)
    (run : op.apply fuel s.ctx = some next.ctx) (charge : next.charge = op.charges s.ctx next.ctx s.charge) :
    Stepped lo s op next := by
  cases op with
  | new a =>
    refine fair.quiet (fun h => h) ?_ charge
    rw [← Option.some.inj run]
    exact .taskNew low fair.rated ready.2.2
  | ref a =>
    obtain ⟨task, found⟩ := Option.isSome_iff_exists.mp ready
    simp only [SchedOp.apply, taskRef, found, Option.bind_eq_bind, Option.bind_some] at run
    have rated := fair.rated a task found
    refine fair.quiet (fun h => h) ?_ charge
    rw [← Option.some.inj run]
    exact .setTask fair.rated found rfl rfl ⟨rated.next, rated.turn, rated.wake, rated.key⟩
  | unref a =>
    obtain ⟨task, found, kept⟩ := ready
    exact fair.quiet (fun h => h) (.taskUnref fair.rated found kept run) charge
  | setPriority a priority => exact fair.quiet (fun h => h) (.taskSetPriority low fair.rated rates run) charge
  | run a => exact fair.run fits run charge
  | wakeup a => exact fair.wakeup fits run charge
  | yield type now polls after =>
    obtain ⟨rfl, rfl⟩ := clock
    cases type with
    | yield =>
      obtain ⟨rated, pays, enters⟩ := fair.inv.turn fair.rated ready bound fits.1 fits.2 run
      refine ⟨.turned ready trivial pays ?_, rated, fun h => absurd trivial h⟩
      unfold queue
      rw [charge]
      exact enters
    | waitio =>
      obtain ⟨rated, enters⟩ := fair.inv.wait_leave fair.rated ready bound fits run
      refine ⟨.left ready trivial ?_, rated, fun h => absurd trivial h⟩
      unfold queue
      rw [charge]
      exact enters
  | exit polls after =>
    cases clock
    obtain ⟨rated, enters⟩ := fair.inv.exit_leave fair.rated ready bound fits run
    refine ⟨.left ready trivial ?_, rated, fun h => absurd trivial h⟩
    unfold queue
    rw [charge]
    exact enters
  | systemRun polls after =>
    cases clock
    have awakened := fair.inv.core.awakened_of_schedule bound fair.rated fits run
    refine ⟨.entered (iff_of_true ready trivial) ?_, awakened.rated, fun h => absurd trivial h⟩
    unfold queue
    rw [charge]
    exact awakened.enters s.charge

theorem Fair.least (fair : Fair lo s active) (nonnull : s.ctx.currentTask ≠ 0) :
    s.queue s.ctx.currentTask = some ⟨s.ctx.schedKey s.ctx.currentTask, s.charge s.ctx.currentTask⟩ ∧
      s.queue.Least (s.ctx.schedKey s.ctx.currentTask) := by
  have running := fair.inv.current nonnull
  refine ⟨queue_of_running running, ?_⟩
  have key := fair.inv.core.getMinSchedKey_eq running
  rw [← fair.first nonnull] at key
  rw [← key]
  exact fair.inv.core.least s.charge

theorem Fair.turn (fair : Fair lo s active) (nonnull : s.ctx.currentTask ≠ 0) (schedules : op.Schedules)
    (moved : Moved lo s op next) : FairQueue.Turn (FairPriority lo) s.ctx.currentTask s.queue next.queue := by
  cases moved with
  | started null => exact absurd null nonnull
  | entered iff => exact absurd (iff.mpr schedules) nonnull
  | turned _ _ pays enters =>
    obtain ⟨here, least⟩ := fair.least nonnull
    exact .again here least pays enters
  | left _ _ enters => exact .gone enters

theorem Fair.enters (nonnull : s.ctx.currentTask ≠ 0) (calls : ¬ op.Schedules)
    (moved : Moved lo s op next) : FairQueue.Enters (FairPriority lo) s.queue next.queue := by
  cases moved with
  | started null => exact absurd null nonnull
  | entered _ enters => exact enters
  | turned _ yields =>
    cases op with
    | yield => exact absurd trivial calls
    | _ => cases yields
  | left _ leaves =>
    cases op with
    | yield | exit => exact absurd trivial calls
    | _ => cases leaves

theorem Unstarted.window (unstarted : s.Unstarted) : s.queue.Window := fun a e _ _ here _ => by
  have key := unstarted.keys a e here
  omega

theorem Fair.queue_moved (fair : Fair lo s active) (moved : Moved lo s op next) :
    next.queue.Window ∧ next.queue.Charged (FairPriority lo) := by
  cases moved with
  | started _ _ _ unstarted charged => exact ⟨unstarted.window, charged⟩
  | entered _ enters => exact ⟨fair.window.enters enters, fair.charged.enters enters⟩
  | turned nonnull _ pays enters =>
    obtain ⟨here, least⟩ := fair.least nonnull
    have turn : FairQueue.Turn (FairPriority lo) _ s.queue next.queue := .again here least pays enters
    exact ⟨fair.window.turn turn, fair.charged.turn turn⟩
  | left nonnull _ enters =>
    have turn : FairQueue.Turn (FairPriority lo) _ s.queue next.queue := .gone enters
    exact ⟨fair.window.turn turn, fair.charged.turn turn⟩

theorem Fair.step (low : lo ≤ 8) (fair : Fair lo s active) (step : (fairSystem lo).step s op next) :
    Stepped lo s op next ∧ (op.Schedules → next.ctx.Chosen) ∧ ∃ active', Fair lo next active' := by
  obtain ⟨⟨clock, rates, fits⟩, ⟨ready, fuel, result⟩, charge⟩ := step
  have enough := SchedOp.apply_stable (Nat.le_max_left fuel (active.card + 1)) result
  have bound : active.card < max fuel (active.card + 1) := Nat.le_max_right ..
  obtain ⟨active', inv, chosen⟩ := fair.inv.step ready bound enough
  have stepped := fair.stepped low bound ready clock rates fits enough charge
  obtain ⟨window, charged⟩ := fair.queue_moved stepped.moved
  refine ⟨stepped, chosen, active', inv, stepped.rated, window, charged, fun nonnull => ?_, fun null => ?_⟩
  · by_cases schedules : op.Schedules
    · exact ((chosen schedules).resolve_left fun h => nonnull h.1).2.1
    · obtain ⟨same, more, arrivals⟩ := stepped.stays schedules
      have nonnull' : s.ctx.currentTask ≠ 0 := same ▸ nonnull
      have enters := Fair.enters nonnull' schedules stepped.moved
      rw [same, fair.first nonnull']
      exact (fair.inv.core.first_stays inv.core (fair.inv.current nonnull') enters arrivals).symm
  · by_cases schedules : op.Schedules
    · -- The scheduler has returned to its caller.
      have none := ((chosen schedules).resolve_right fun h => h.1 null).2
      refine ⟨fun a => (none a).2, fun a e here => absurd (of_queue here).1 (none a).1⟩
    · have null' : s.ctx.currentTask = 0 := (stepped.stays schedules).1 ▸ null
      cases stepped.moved with
      | started _ _ _ unstarted => exact unstarted
      | entered iff => exact absurd (iff.mp null') schedules
      | turned nonnull | left nonnull => exact absurd null' nonnull

theorem Fair.init (initial : chargedSystem.init s) : ∃ active, Fair lo s active := by
  have none : ∀ a, s.ctx.tasks a = Option.none := initial.2.2.2.2.2.1
  have states : ∀ a, s.ctx.stateOf a = Option.none := fun a => by simp [stateOf, none a]
  have empty : ∀ a e, s.queue a ≠ some e := fun a e here => by
    cases (states a).symm.trans (of_queue here).1
  obtain ⟨active, inv⟩ := schedSystem_inv (.init initial)
  refine ⟨active, inv, fun a task found => ?_, fun a e _ _ here => absurd here (empty a e),
    fun a e here => absurd here (empty a e), fun nonnull => absurd initial.2.2.1 nonnull,
    fun _ => ⟨fun a => by simp [states a], fun a e here => absurd here (empty a e)⟩⟩
  cases (none a).symm.trans found

end ChargedContext

theorem fairSystem_fair {lo : Nat} {ops : List SchedOp} {s : ChargedContext} (low : lo ≤ 8)
    (run : (fairSystem lo).Run ops s) : ∃ active, s.Fair lo active := by
  refine run.invariant (fun s => ∃ active, s.Fair lo active) (fun _ => ChargedContext.Fair.init) ?_
  rintro s op next ⟨active, fair⟩ step
  exact (fair.step low step).2.2

end HevTaskSystem
