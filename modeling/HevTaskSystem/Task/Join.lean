import HevTaskSystem.Foundation.Transition
import HevTaskSystem.Scheduler.Pool

/-! Joining a task, `kern/task/hev-task.c` and `kern/task/hev-task-executer.c`.

A task ends when its entry function returns to the executer, or by `hev_task_exit`. Only
the first of the two looks at the joiner. A joiner that waits is woken by the executer, or
for another reason, and then looks at the state of the task again.
-/

set_option autoImplicit false

namespace HevTaskSystem

open Foundation

/-- The tasks, the task that each of them is joining, and the field `joiner`. -/
structure JoinSystem where
  pool : TaskPool
  joining : Addr → Option Addr
  joiner : Addr → Addr

namespace JoinSystem

/-- `hev_task_new` with the address of the allocation. -/
def taskNew (s : JoinSystem) (t : Addr) : JoinSystem where
  pool := Function.update s.pool t (some .stopped)
  joining := s.joining
  joiner := Function.update s.joiner t 0

def taskRun (s : JoinSystem) (t : Addr) : JoinSystem :=
  if s.pool t ≠ some .stopped then s else { s with pool := Function.update s.pool t (some .running) }

def taskExit (s : JoinSystem) (t : Addr) : JoinSystem :=
  { s with pool := Function.update s.pool t (some .stopped) }

/-- `hev_task_executer` after the entry function of `t` has returned. -/
def taskReturn (s : JoinSystem) (t : Addr) : Option JoinSystem := do
  let pool ← s.pool.wakeupField (s.joiner t)
  return ({ s with pool } : JoinSystem).taskExit t

/-- The loop of `hev_task_join`, up to a yield or the return. -/
def joinLoop (s : JoinSystem) (t task : Addr) : Option (JoinSystem × TaskReply) := do
  let state ← s.pool task
  if state = .stopped then
    return ({ s with joiner := Function.update s.joiner task 0, joining := Function.update s.joining t none },
      .value 0)
  else
    let pool ← s.pool.wakeup task
    return ({ s with pool := pool.wait t }, .blocked)

def taskJoin (s : JoinSystem) (t task : Addr) : Option (JoinSystem × TaskReply) := do
  let _ ← s.pool task
  if s.joiner task ≠ 0 then
    return (s, .value (-1))
  else
    let s := { s with joiner := Function.update s.joiner task t, joining := Function.update s.joining t (some task) }
    s.joinLoop t task

/-- The task goes on after its yield in `hev_task_join`. -/
def resume (s : JoinSystem) (t : Addr) : Option (JoinSystem × TaskReply) := do
  let task ← s.joining t
  s.joinLoop t task

end JoinSystem

inductive JoinOp where
  | new (t : Addr)
  | free (t : Addr)
  | run (t : Addr)
  | exit (t : Addr)
  | finish (t : Addr)
  | wait (t : Addr)
  | wake (t : Addr)
  | join (t task : Addr)
  | resume (t : Addr)
  deriving DecidableEq, Repr

namespace JoinOp

def apply (s : JoinSystem) : JoinOp → Option (JoinSystem × TaskReply)
  | .new t => some (s.taskNew t, .void)
  | .free t => some ({ s with pool := Function.update s.pool t none }, .void)
  | .run t => some (s.taskRun t, .void)
  | .exit t => some (s.taskExit t, .void)
  | .finish t => do return (← s.taskReturn t, .void)
  | .wait t => some ({ s with pool := s.pool.wait t }, .blocked)
  | .wake t => do
    let pool ← s.pool.wakeup t
    return ({ s with pool }, .void)
  | .join t task => s.taskJoin t task
  | .resume t => s.resume t

def Calls (s : JoinSystem) (t : Addr) : Prop := s.pool t = some .running ∧ s.joining t = none

/-- What the scheduler and the callers guarantee. A joiner holds a reference, so the task
it joins is not freed; no task joins itself. -/
def Ready (s : JoinSystem) : JoinOp → Prop
  | .new t => t ≠ 0 ∧ s.pool t = none
  | .free t => s.pool t = some .stopped ∧ ∀ u, s.joining u ≠ some t
  | .run t => ∃ state, s.pool t = some state
  | .exit t | .finish t | .wait t => Calls s t
  | .wake t => s.pool t = some .running ∨ s.pool t = some .waiting
  | .join t task => Calls s t ∧ s.pool task ≠ none ∧ t ≠ task
  | .resume t => s.pool t = some .running ∧ s.joining t ≠ none

/-- No task ends by `hev_task_exit` while another one is joining it. -/
def Unjoined (s : JoinSystem) : JoinOp → Prop
  | .exit t => s.joiner t = 0
  | _ => True

end JoinOp

def joinSystem : System JoinSystem JoinOp where
  init s := (∀ t, s.pool t = none) ∧ (∀ t, s.joining t = none) ∧ ∀ t, s.joiner t = 0
  step s op next := op.Ready s ∧ ∃ reply, op.apply s = some (next, reply)

namespace JoinSystem

def empty : JoinSystem := ⟨fun _ => none, fun _ => none, fun _ => 0⟩

theorem empty_init : joinSystem.init empty := ⟨fun _ => rfl, fun _ => rfl, fun _ => rfl⟩

/-- A task that joins another one can be woken, is that one's joiner, and does not sleep
when the other is stopped. -/
structure Joins (s : JoinSystem) (t task : Addr) : Prop where
  active : s.pool t = some .running ∨ s.pool t = some .waiting
  joiner : s.joiner task = t
  other : t ≠ task
  present : s.pool task ≠ none
  awake : s.pool t = some .waiting → s.pool task ≠ some .stopped

structure Inv (s : JoinSystem) : Prop where
  null : s.pool 0 = none
  joins : ∀ t task, s.joining t = some task → s.Joins t task
  joined : ∀ task, s.pool task ≠ none → s.joiner task ≠ 0 → s.joining (s.joiner task) = some task

variable {s next : JoinSystem} {t task : Addr}

theorem Inv.nonnull (inv : s.Inv) (present : s.pool t ≠ none) : t ≠ 0 := by
  rintro rfl
  exact present inv.null

theorem Inv.setPool (inv : s.Inv) {state : TaskState} (present : s.pool t ≠ none)
    (active : s.joining t ≠ none → state = .running ∨ (state = .waiting ∧ ∀ task, s.joining t = some task →
      s.pool task ≠ some .stopped))
    (ends : state = .stopped → ∀ u, s.joining u = some t → s.pool u ≠ some .waiting) :
    ({ s with pool := Function.update s.pool t (some state) } : JoinSystem).Inv := by
  have nonnull := inv.nonnull present
  refine ⟨(Function.update_of_ne nonnull.symm ..).trans inv.null, ?_, fun task there => ?_⟩
  · intro u task (joins : s.joining u = some task)
    obtain ⟨hactive, joiner, other, hpresent, awake⟩ := inv.joins u task joins
    refine ⟨?_, joiner, other, ?_, ?_⟩
    · by_cases here : u = t
      · subst here
        rcases active (by simp [joins]) with running | ⟨waiting, _⟩
        · simp [running]
        · simp [waiting]
      · simpa [here] using hactive
    · by_cases here : task = t
      · simp [here]
      · simpa [here] using hpresent
    · by_cases here : u = t
      · subst here
        intro waits
        -- A task goes to sleep in a join only if the other one is not stopped.
        have last : state = .waiting := by simpa using waits
        rcases active (by simp [joins]) with running | ⟨_, alive⟩
        · exact absurd (running.symm.trans last) (by simp)
        · simpa [Ne.symm other] using alive task joins
      · intro waits
        have old : s.pool u = some .waiting := by simpa [here] using waits
        by_cases target : task = t
        · subst target
          intro stopped
          exact ends (by simpa using stopped) u joins old
        · simpa [target] using awake old
  · refine inv.joined task ?_
    by_cases here : task = t
    · exact here ▸ present
    · simpa [here] using there

theorem Inv.taskNew (inv : s.Inv) (nonnull : t ≠ 0) (absent : s.pool t = none) : (s.taskNew t).Inv := by
  have other : ∀ u, s.pool u ≠ none → u ≠ t := fun u present same => present (same ▸ absent)
  refine ⟨(Function.update_of_ne nonnull.symm ..).trans inv.null, ?_, fun task there joiner => ?_⟩
  · intro u task (joins : s.joining u = some task)
    obtain ⟨active, joiner, apart, present, awake⟩ := inv.joins u task joins
    have hu : u ≠ t := other u (by rcases active with up | waits <;> simp [*])
    have htask : task ≠ t := other task present
    refine ⟨?_, ?_, apart, ?_, ?_⟩
    · simpa [JoinSystem.taskNew, hu] using active
    · simpa [JoinSystem.taskNew, htask] using joiner
    · simpa [JoinSystem.taskNew, htask] using present
    · simpa [JoinSystem.taskNew, hu, htask] using awake
  · by_cases here : task = t
    · simp [JoinSystem.taskNew, here] at joiner
    · simp only [JoinSystem.taskNew, Function.update_of_ne here] at there joiner ⊢
      exact inv.joined task there joiner

theorem Inv.taskFree (inv : s.Inv) (stopped : s.pool t = some .stopped) (unjoined : ∀ u, s.joining u ≠ some t) :
    ({ s with pool := Function.update s.pool t none } : JoinSystem).Inv := by
  refine ⟨?_, ?_, fun task there => ?_⟩
  · by_cases here : (0 : Addr) = t
    · simp [here]
    · exact (Function.update_of_ne here ..).trans inv.null
  · intro u task (joins : s.joining u = some task)
    obtain ⟨active, joiner, apart, present, awake⟩ := inv.joins u task joins
    have hu : u ≠ t := by
      rintro rfl
      simp [stopped] at active
    have htask : task ≠ t := by
      rintro rfl
      exact unjoined u joins
    refine ⟨?_, joiner, apart, ?_, ?_⟩
    · simpa [hu] using active
    · simpa [htask] using present
    · simpa [hu, htask] using awake
  · have here : task ≠ t := by
      rintro rfl
      simp at there
    exact inv.joined task (by simpa [here] using there)

theorem Inv.wakeup (inv : s.Inv) (active : s.pool t = some .running ∨ s.pool t = some .waiting) :
    ({ s with pool := Function.update s.pool t (some .running) } : JoinSystem).Inv := by
  refine inv.setPool (by rcases active with up | waits <;> simp [*]) (fun _ => .inl rfl) ?_
  intro stopped
  cases stopped

theorem Inv.taskExit (inv : s.Inv) (calls : JoinOp.Calls s t)
    (awake : ∀ u, s.joining u = some t → s.pool u ≠ some .waiting) : (s.taskExit t).Inv :=
  inv.setPool (by simp [calls.1]) (fun joins => absurd calls.2 joins) fun _ => awake

theorem Inv.taskReturn (inv : s.Inv) (calls : JoinOp.Calls s t) :
    ∃ next, s.taskReturn t = some next ∧ next.Inv := by
  by_cases null : s.joiner t = 0
  · refine ⟨s.taskExit t, by simp [JoinSystem.taskReturn, TaskPool.wakeupField, null],
      inv.taskExit calls fun u joins => ?_⟩
    obtain ⟨active, joiner, _⟩ := inv.joins u t joins
    rw [null] at joiner
    subst joiner
    simp [inv.null] at active
  · have joins := inv.joined t (by simp [calls.1]) null
    obtain ⟨active, _, other, _⟩ := inv.joins _ t joins
    have woken := inv.wakeup active
    refine ⟨_, by simp [JoinSystem.taskReturn, TaskPool.wakeupField, null, TaskPool.wakeup_eq active]; rfl, ?_⟩
    refine woken.taskExit ⟨(Function.update_of_ne other.symm ..).trans calls.1, calls.2⟩ fun u also => ?_
    obtain rfl : s.joiner t = u := (inv.joins u t also).joiner
    simp

theorem Inv.beginJoin (inv : s.Inv) (calls : JoinOp.Calls s t) (present : s.pool task ≠ none) (other : t ≠ task)
    (null : s.joiner task = 0) : ({ s with
      joiner := Function.update s.joiner task t
      joining := Function.update s.joining t (some task) } : JoinSystem).Inv := by
  refine ⟨inv.null, fun u task' also => ?_, fun task' there some => ?_⟩
  · by_cases hu : u = t
    · subst hu
      obtain rfl : task = task' := by simpa using also
      refine ⟨.inl calls.1, by simp, other, present, fun waits => ?_⟩
      exact absurd (calls.1.symm.trans waits) (by simp)
    · obtain ⟨active, joiner, apart, present', awake⟩ := inv.joins u task' (by simpa [hu] using also)
      have htask : task' ≠ task := by
        rintro rfl
        rw [null] at joiner
        subst joiner
        simp [inv.null] at active
      exact ⟨active, by simpa [htask] using joiner, apart, present', awake⟩
  · by_cases htask : task' = task
    · simp [htask]
    · have old := inv.joined task' there (by simpa [htask] using some)
      have hu : s.joiner task' ≠ t := by
        intro same
        rw [same, calls.2] at old
        cases old
      simpa [htask, hu] using old

theorem Inv.endJoin (inv : s.Inv) (joins : s.joining t = some task) : ({ s with
      joiner := Function.update s.joiner task 0
      joining := Function.update s.joining t none } : JoinSystem).Inv := by
  have joiner := (inv.joins t task joins).joiner
  refine ⟨inv.null, fun u task' also => ?_, fun task' there some => ?_⟩
  · have hu : u ≠ t := by
      rintro rfl
      simp at also
    obtain ⟨active, joiner', apart, present', awake⟩ := inv.joins u task' (by simpa [hu] using also)
    have htask : task' ≠ task := by
      rintro rfl
      exact hu (joiner'.symm.trans joiner)
    exact ⟨active, by simpa [htask] using joiner', apart, present', awake⟩
  · have htask : task' ≠ task := by
      rintro rfl
      simp at some
    have old := inv.joined task' there (by simpa [htask] using some)
    have hu : s.joiner task' ≠ t := by
      intro same
      rw [same, joins] at old
      exact htask (Option.some.inj old).symm
    simpa [htask, hu] using old

/-- One pass of the loop in `hev_task_join`: it returns if the task is stopped, and else
wakes it and waits. -/
theorem Inv.joinLoop (inv : s.Inv) (running : s.pool t = some .running) (joins : s.joining t = some task) :
    ∃ next reply, s.joinLoop t task = some (next, reply) ∧ next.Inv ∧
      (reply = .blocked ∨ (reply = .value 0 ∧ s.pool task = some .stopped ∧ next.joiner task = 0)) := by
  obtain ⟨_, _, other, present, _⟩ := inv.joins t task joins
  obtain ⟨state, found⟩ := Option.ne_none_iff_exists'.mp present
  by_cases stopped : state = .stopped
  · subst stopped
    refine ⟨{ s with joiner := Function.update s.joiner task 0, joining := Function.update s.joining t none }, .value 0,
      by simp [JoinSystem.joinLoop, found], inv.endJoin joins, .inr ⟨rfl, found, by simp⟩⟩
  · have active : s.pool task = some .running ∨ s.pool task = some .waiting := by
      cases state <;> simp_all
    have woken := inv.wakeup active
    refine ⟨{ s with pool := TaskPool.wait (Function.update s.pool task (some .running)) t }, .blocked,
      by simp [JoinSystem.joinLoop, found, stopped, TaskPool.wakeup_eq active], ?_, .inl rfl⟩
    refine woken.setPool (by simp [other, running]) (fun _ => .inr ⟨rfl, fun task' also => ?_⟩) ?_
    · obtain rfl : task' = task := Option.some.inj (also.symm.trans joins)
      simp
    · intro ends
      cases ends

theorem Inv.taskJoin (inv : s.Inv) (calls : JoinOp.Calls s t) (present : s.pool task ≠ none) (other : t ≠ task) :
    ∃ next reply, s.taskJoin t task = some (next, reply) ∧ next.Inv ∧ (reply = .value (-1) ↔ s.joiner task ≠ 0) ∧
      (reply = .value (-1) ∨ reply = .blocked ∨
        (reply = .value 0 ∧ s.pool task = some .stopped ∧ next.joiner task = 0)) := by
  obtain ⟨state, found⟩ := Option.ne_none_iff_exists'.mp present
  by_cases taken : s.joiner task ≠ 0
  · exact ⟨s, .value (-1), by simp [JoinSystem.taskJoin, found, taken], inv, by simp [taken], .inl rfl⟩
  · have null : s.joiner task = 0 := not_not.mp taken
    obtain ⟨next, reply, run, kept, result⟩ :=
      (inv.beginJoin calls present other null).joinLoop calls.1 (Function.update_self ..)
    refine ⟨next, reply, by simp [JoinSystem.taskJoin, found, null, ← run], kept, ?_, .inr result⟩
    rcases result with rfl | ⟨rfl, _⟩ <;> simp [null]

end JoinSystem

namespace JoinOp

open JoinSystem

variable {s next : JoinSystem} {op : JoinOp} {reply : TaskReply}

/-- What a join returns: -1 if the task has a joiner already, and 0 only when the task is
stopped, which then has no joiner. -/
def Returns (s next : JoinSystem) (reply : TaskReply) : JoinOp → Prop
  | .join _ task => (reply = .value (-1) ↔ s.joiner task ≠ 0) ∧ (reply = .value (-1) ∨ reply = .blocked ∨
      (reply = .value 0 ∧ s.pool task = some .stopped ∧ next.joiner task = 0))
  | .resume t => ∃ task, s.joining t = some task ∧ (reply = .blocked ∨
      (reply = .value 0 ∧ s.pool task = some .stopped ∧ next.joiner task = 0))
  | _ => True

theorem progress (inv : s.Inv) (ready : op.Ready s) (unjoined : op.Unjoined s) :
    ∃ next reply, op.apply s = some (next, reply) ∧ next.Inv ∧ op.Returns s next reply := by
  cases op with
  | new t => exact ⟨_, _, rfl, inv.taskNew ready.1 ready.2, trivial⟩
  | free t => exact ⟨_, _, rfl, inv.taskFree ready.1 ready.2, trivial⟩
  | run t =>
    refine ⟨_, _, rfl, ?_, trivial⟩
    unfold taskRun
    split
    · exact inv
    · obtain ⟨state, found⟩ := ready
      exact inv.setPool (by simp [found]) (fun _ => .inl rfl) fun ends => by cases ends
  | exit t =>
    refine ⟨_, _, rfl, inv.taskExit ready fun u joins => ?_, trivial⟩
    obtain ⟨active, joiner, _⟩ := inv.joins u t joins
    obtain rfl : 0 = u := unjoined.symm.trans joiner
    simp [inv.null] at active
  | finish t =>
    obtain ⟨next, run, kept⟩ := inv.taskReturn ready
    exact ⟨next, .void, by simp [apply, run], kept, trivial⟩
  | wait t =>
    refine ⟨_, _, rfl, inv.setPool (by simp [ready.1]) (fun joins => absurd ready.2 joins) ?_, trivial⟩
    intro ends
    cases ends
  | wake t => exact ⟨_, .void, by simp [apply, TaskPool.wakeup_eq ready], inv.wakeup ready, trivial⟩
  | join t task => exact inv.taskJoin ready.1 ready.2.1 ready.2.2
  | resume t =>
    obtain ⟨task, joins⟩ := Option.ne_none_iff_exists'.mp ready.2
    obtain ⟨next, reply, run, kept, result⟩ := inv.joinLoop ready.1 joins
    exact ⟨next, reply, by simp [apply, JoinSystem.resume, joins, run], kept, task, joins, result⟩

end JoinOp

theorem joinSystem_inv {ops : List JoinOp} {s : JoinSystem}
    (run : (joinSystem.restrict fun s op => op.Unjoined s).Run ops s) : s.Inv := by
  refine run.invariant JoinSystem.Inv ?_ ?_
  · rintro s ⟨pool, joining, joiner⟩
    exact ⟨pool 0, fun t task joins => by simp [joining] at joins, fun task there => absurd (pool task) there⟩
  · rintro s op next inv ⟨unjoined, ready, reply, step⟩
    obtain ⟨next', reply', step', kept, _⟩ := JoinOp.progress inv ready unjoined
    cases step.symm.trans step'
    exact kept

theorem join_step {allowed : JoinSystem → JoinOp → Prop} {ops : List JoinOp} {s next : JoinSystem}
    {reply : TaskReply} (run : (joinSystem.restrict allowed).Run ops s) (op : JoinOp) (permitted : allowed s op)
    (ready : op.Ready s) (applied : op.apply s = some (next, reply)) :
    (joinSystem.restrict allowed).Run (ops ++ [op]) next :=
  run.step ⟨permitted, ready, reply, applied⟩

/-- A task that ends by `hev_task_exit` does not wake its joiner. -/
theorem join_sleeps_after_exit : ∃ s, joinSystem.Run [.new 4, .new 8, .run 4, .run 8, .join 4 8, .exit 8] s ∧
    s.joining 4 = some 8 ∧ s.pool 4 = some .waiting ∧ s.pool 8 = some .stopped := by
  have run : (joinSystem.restrict fun _ _ => True).Run [] .empty := .init JoinSystem.empty_init
  have run := join_step run (.new 4) trivial ⟨by decide, rfl⟩ rfl
  have run := join_step run (.new 8) trivial ⟨by decide, rfl⟩ rfl
  have run := join_step run (.run 4) trivial ⟨_, rfl⟩ rfl
  have run := join_step run (.run 8) trivial ⟨_, rfl⟩ rfl
  have run := join_step run (.join 4 8) trivial ⟨⟨rfl, rfl⟩, by decide, by decide⟩ rfl
  have run := join_step run (.exit 8) trivial ⟨rfl, rfl⟩ rfl
  exact ⟨_, run.of_restrict, rfl, rfl, rfl⟩

/-- As long as no task ends by `hev_task_exit` while it is being joined, no task sleeps
in a join of a stopped one, and the joins return what they should. -/
theorem join_never_sleeps {ops : List JoinOp} {s : JoinSystem}
    (run : (joinSystem.restrict fun s op => op.Unjoined s).Run ops s) :
    (∀ t task, s.joining t = some task → s.pool t = some .waiting → s.pool task ≠ some .stopped) ∧
      (∀ (op : JoinOp) (next : JoinSystem) (reply : TaskReply), op.Ready s → op.Unjoined s →
        op.apply s = some (next, reply) → op.Returns s next reply) ∧
      ∀ op : JoinOp, op.Ready s → op.Unjoined s → ∃ next reply, op.apply s = some (next, reply) := by
  have inv := joinSystem_inv run
  refine ⟨fun t task joins => (inv.joins t task joins).awake, fun op next reply ready unjoined step => ?_,
    fun op ready unjoined => ?_⟩
  · obtain ⟨next', reply', step', _, returns⟩ := JoinOp.progress inv ready unjoined
    cases step.symm.trans step'
    exact returns
  · obtain ⟨next, reply, step, _⟩ := JoinOp.progress inv ready unjoined
    exact ⟨next, reply, step⟩

/-- A task that waits in a join. -/
theorem join_never_sleeps_pair : ∃ s, (joinSystem.restrict fun s op => op.Unjoined s).Run
    [.new 4, .new 8, .run 4, .run 8, .join 4 8] s ∧ s.joining 4 = some 8 ∧ s.pool 4 = some .waiting ∧
      s.pool 8 ≠ some .stopped := by
  have run : (joinSystem.restrict fun s op => op.Unjoined s).Run [] .empty := .init JoinSystem.empty_init
  have run := join_step run (.new 4) trivial ⟨by decide, rfl⟩ rfl
  have run := join_step run (.new 8) trivial ⟨by decide, rfl⟩ rfl
  have run := join_step run (.run 4) trivial ⟨_, rfl⟩ rfl
  have run := join_step run (.run 8) trivial ⟨_, rfl⟩ rfl
  have run := join_step run (.join 4 8) trivial ⟨⟨rfl, rfl⟩, by decide, by decide⟩ rfl
  exact ⟨_, run, rfl, rfl, (join_never_sleeps run).1 4 8 rfl rfl⟩

end HevTaskSystem
