import HevTaskSystem.Foundation.Loop
import HevTaskSystem.Foundation.Transition
import HevTaskSystem.List.HevList
import HevTaskSystem.Scheduler.Context
import HevTaskSystem.Task.Resources
import Mathlib.Algebra.BigOperators.Group.List.Basic
import Mathlib.Algebra.Order.Group.Multiset

/-! The life of a task system and of its tasks, `kern/core/hev-task-system.c` and
`kern/task/hev-task.c`.

A task is freed with its last reference: those of its callers, and one that it has itself
while it runs. The task system has a list of all its tasks, so that it can free those
that are left when it ends.
-/

set_option autoImplicit false

namespace HevTaskSystem

open Foundation

/-- The options of a build: `ENABLE_MEMALLOC_SLICE`, `ENABLE_STACK_OVERFLOW_DETECTOR` and
`CONFIG_STACK_BACKEND`. -/
structure SystemBuild where
  slice : Bool
  detector : Bool
  stack : StackBackend

/-- The fields of `HevTaskSystemContext` that own something. -/
structure ContextBlock where
  block : Addr
  reactor : TaskReactor
  timer : Addr
  detector : Option Addr
  proxy : Option DnsProxyBlock
  allTasks : HevList

structure TaskBlock where
  refCount : Int
  state : TaskState
  stack : TaskStack
  deriving DecidableEq

structure InitAnswer where
  sys : Bool
  slice : Addr
  context : MallocAnswer
  reactor : ReactorAnswer
  timer : MallocAnswer
  detector : DetectorAnswer

structure TaskNewAnswer where
  task : MallocAnswer
  stack : StackAnswer

namespace Process

def sliceNew (p : Process) (answer : Addr) : Option (Process × Addr) :=
  if answer = 0 then some (p, 0)
  else do
    let p ← p.acquire (.allocator answer)
    return (p, answer)

def buildAllocator (p : Process) (build : SystemBuild) (answer : Addr) : Option (Process × Addr) :=
  if build.slice then p.sliceNew answer else some (p, 0)

def buildDetector (p : Process) (build : SystemBuild) (answer : DetectorAnswer) : Option (Process × Option Addr) :=
  if build.detector then p.detectorNew answer else some (p, none)

/-- The end of `hev_task_system_fini`, and of `hev_task_system_init` from the label `exit` on. -/
def systemExit (p : Process) : Process := (p.allocatorReplace 0).release .winsock

/-- The function `hev_task_system_init` if there is no context yet. -/
def systemInit (build : SystemBuild) (p : Process) (answer : InitAnswer) :
    Option (Process × Option ContextBlock) := do
  if ¬ answer.sys then return (p, none)
  else
    let p ← p.acquire .winsock
    let (p, allocator) ← p.buildAllocator build answer.slice
    let p := p.allocatorReplace allocator
    let (p, context) ← p.malloc answer.context
    if context = 0 then return (p.systemExit, none)
    else
      let (p, reactor) ← p.reactorNew answer.reactor
      match reactor with
      | none => return ((p.free context).systemExit, none)
      | some reactor =>
        let (p, timer) ← p.malloc answer.timer
        if timer = 0 then return (((p.reactorDestroy reactor).free context).systemExit, none)
        else
          let (p, detector) ← p.buildDetector build answer.detector
          if build.detector ∧ detector = none then
            return ((((p.free timer).reactorDestroy reactor).free context).systemExit, none)
          else return (p, some ⟨context, reactor, timer, detector, none, ⟨0, 0⟩⟩)

def systemFini (p : Process) (context : ContextBlock) : Process :=
  let p := context.proxy.elim p p.proxyDestroy
  let p := context.detector.elim p fun detector => p.release (.raw detector)
  (((p.free context.timer).reactorDestroy context.reactor).free context.block).systemExit

end Process

/-- The process and the tasks of a thread. The references that callers have and the order in
which the tasks at large were made are recorded. -/
structure TaskSystem where
  process : Process
  context : Option ContextBlock
  tasks : Addr → Option TaskBlock
  nodes : ListNodes
  refs : Addr → Nat
  order : List Addr

namespace TaskSystem

def start (nodes : ListNodes) : TaskSystem := ⟨.start, none, fun _ => none, nodes, fun _ => 0, []⟩

def setTask (s : TaskSystem) (t : Addr) (b : TaskBlock) : TaskSystem :=
  { s with tasks := Function.update s.tasks t (some b) }

def setRefs (s : TaskSystem) (t : Addr) (n : Nat) : TaskSystem :=
  { s with refs := Function.update s.refs t n }

def init (build : SystemBuild) (s : TaskSystem) (answer : InitAnswer) : Option TaskSystem :=
  if s.context.isSome then some s
  else do
    let (process, context) ← s.process.systemInit build answer
    return { s with process, context }

def taskNew (build : SystemBuild) (s : TaskSystem) (answer : TaskNewAnswer) : Option TaskSystem := do
  let (p, self) ← s.process.malloc answer.task
  if self = 0 then return { s with process := p }
  else
    let (p, stack) ← p.stackNew answer.stack build.stack
    match stack with
    | none => return { s with process := p.free self }
    | some stack =>
      let context ← s.context
      let (list, nodes) := context.allTasks.addTail s.nodes self
      return { s with
        process := p
        context := some { context with allTasks := list }
        tasks := Function.update s.tasks self (some ⟨1, .stopped, stack⟩)
        nodes
        refs := Function.update s.refs self 1
        order := s.order ++ [self] }

def destroy (s : TaskSystem) (t : Addr) : Option TaskSystem := do
  let context ← s.context
  let b ← s.tasks t
  let (list, nodes) := context.allTasks.del s.nodes t
  return { s with
    process := (s.process.stackDestroy b.stack).free t
    context := some { context with allTasks := list }
    tasks := Function.update s.tasks t none
    nodes
    refs := Function.update s.refs t 0
    order := s.order.erase t }

def ref (s : TaskSystem) (t : Addr) : Option TaskSystem := do
  let b ← s.tasks t
  return s.setTask t { b with refCount := b.refCount + 1 }

def unref (s : TaskSystem) (t : Addr) : Option TaskSystem := do
  let b ← s.tasks t
  let s := s.setTask t { b with refCount := b.refCount - 1 }
  if b.refCount - 1 ≠ 0 then return s else s.destroy t

/-- The function `hev_task_run`; the task takes the reference of the caller. -/
def run (s : TaskSystem) (t : Addr) : Option TaskSystem := do
  let b ← s.tasks t
  if b.state ≠ .stopped then return s
  else return (s.setTask t { b with state := .running }).setRefs t (s.refs t - 1)

def exit (s : TaskSystem) (t : Addr) : Option TaskSystem := do
  let b ← s.tasks t
  (s.setTask t { b with state := .stopped }).unref t

def wait (s : TaskSystem) (t : Addr) : Option TaskSystem := do
  let b ← s.tasks t
  return s.setTask t { b with state := .waiting }

/-- The function `hev_task_system_wakeup_task_with_context`, which aborts for a stopped task. -/
def wakeup (s : TaskSystem) (t : Addr) : Option TaskSystem := do
  let b ← s.tasks t
  match b.state with
  | .running => return s
  | .stopped => none
  | .waiting => return s.setTask t { b with state := .running }

def proxyGet (s : TaskSystem) (answer : ProxyAnswer) : Option TaskSystem := do
  let context ← s.context
  if context.proxy.isSome then return s
  else
    let (process, proxy) ← s.process.proxyNew answer
    return { s with process, context := some { context with proxy } }

/-- A pass of the loop of `hev_task_system_fini` over the tasks that are left. -/
def finiPass (s : TaskSystem) : Option (Foundation.Flow TaskSystem TaskSystem) := do
  let context ← s.context
  if context.allTasks.head = 0 then return .done s
  else return .next (← s.destroy context.allTasks.head)

def fini (fuel : Nat) (s : TaskSystem) : Option TaskSystem :=
  match s.context with
  | none => some s
  | some _ => do
    let s ← loop finiPass fuel s
    let context ← s.context
    return { s with process := s.process.systemFini context, context := none }

end TaskSystem

/-- What the thread does. The call `malloc` is one of the user, for the allocator it may make. -/
inductive LifeOp where
  | init (answer : InitAnswer)
  | malloc (simple : Addr)
  | new (answer : TaskNewAnswer)
  | ref (t : Addr)
  | unref (t : Addr)
  | run (t : Addr)
  | exit (t : Addr)
  | wait (t : Addr)
  | wakeup (t : Addr)
  | dns (answer : ProxyAnswer)
  | fini (fuel : Nat)

namespace LifeOp

def apply (build : SystemBuild) (s : TaskSystem) : LifeOp → Option TaskSystem
  | .init answer => s.init build answer
  | .malloc simple => do
    let process ← s.process.allocatorDefault simple
    return { s with process }
  | .new answer => s.taskNew build answer
  | .ref t => (s.setRefs t (s.refs t + 1)).ref t
  | .unref t => (s.setRefs t (s.refs t - 1)).unref t
  | .run t => s.run t
  | .exit t => s.exit t
  | .wait t => s.wait t
  | .wakeup t => s.wakeup t
  | .dns answer => s.proxyGet answer
  | .fini fuel => s.fini fuel

/-- What the users keep to: they use a task by a reference, or because it runs, and give
back no more references than they have. -/
def Ready (s : TaskSystem) : LifeOp → Prop
  | .init _ | .malloc _ | .fini _ => True
  | .new _ | .dns _ => s.context.isSome = true
  | .ref t => s.tasks t ≠ none
  | .unref t | .run t => 0 < s.refs t
  | .exit t | .wait t => (s.tasks t).map TaskBlock.state = some .running
  | .wakeup t => (s.tasks t).map TaskBlock.state = some .running ∨ (s.tasks t).map TaskBlock.state = some .waiting

instance (s : TaskSystem) (op : LifeOp) : Decidable (op.Ready s) := by
  cases op <;> unfold Ready <;> infer_instance

end LifeOp

def lifeSystem (build : SystemBuild) : System TaskSystem LifeOp where
  init s := ∃ nodes, s = .start nodes
  step s op next := op.Ready s ∧ op.apply build s = some next

/-! ## Footprints -/

def ContextBlock.resources (context : ContextBlock) : Multiset Resource :=
  context.proxy.elim 0 DnsProxyBlock.resources + (context.detector.elim 0 (fun detector => {.raw detector}) +
    (.block context.timer ::ₘ (context.reactor.resources + .block context.block ::ₘ {.winsock})))

namespace Process

variable {p next : Process} {m : Multiset Resource} {build : SystemBuild}

theorem Holds.allocatorReset (holds : p.Holds {.winsock}) : (p.allocatorReplace 0).Holds {.winsock} :=
  Holds.allocatorReplace (by simpa using holds) fun b => by simp

theorem Holds.systemExit (holds : p.Holds {.winsock}) : p.systemExit.Holds 0 := holds.allocatorReset.release

theorem release_allocator (p : Process) (r : Resource) : (p.release r).allocator = p.allocator := by
  unfold Process.release
  split <;> rfl

theorem systemExit_allocator (p : Process) : p.systemExit.allocator = 0 := by
  unfold Process.systemExit Process.allocatorReplace
  dsimp only
  split_ifs
  · rw [release_allocator, allocatorUnref, release_allocator]
  · rw [release_allocator]

theorem Holds.buildAllocator {answer a : Addr} {mid : Process} (holds : p.Holds {.winsock})
    (run : p.buildAllocator build answer = some (mid, a)) : (mid.allocatorReplace a).Holds {.winsock} := by
  unfold Process.buildAllocator at run
  split_ifs at run
  · unfold Process.sliceNew at run
    split_ifs at run with failed
    · cases run
      exact holds.allocatorReset
    · obtain ⟨given, acquired, last⟩ := Option.bind_eq_some_iff.mp run
      cases last
      have held := holds.acquire acquired fun a => by simp
      exact Holds.allocatorReplace (by simpa [failed] using held) fun b => by simp
  · cases run
    exact holds.allocatorReset

theorem Holds.systemInit {answer : InitAnswer} {context : Option ContextBlock} (holds : p.Holds 0)
    (run : p.systemInit build answer = some (next, context)) :
    next.Holds (context.elim 0 ContextBlock.resources) ∧ ∀ c, context = some c → c.allTasks = ⟨0, 0⟩ := by
  have none {next : Process} (holds : next.Holds 0) :
      next.Holds ((none : Option ContextBlock).elim 0 ContextBlock.resources) ∧
        ∀ c, (none : Option ContextBlock) = some c → c.allTasks = ⟨0, 0⟩ :=
    ⟨holds, fun _ equal => by cases equal⟩
  unfold Process.systemInit at run
  by_cases sys : answer.sys = true
  · rw [if_neg (not_not.mpr sys)] at run
    obtain ⟨started, first, run⟩ := Option.bind_eq_some_iff.mp run
    obtain ⟨⟨sliced, allocator⟩, second, run⟩ := Option.bind_eq_some_iff.mp run
    obtain ⟨⟨allocated, block⟩, third, run⟩ := Option.bind_eq_some_iff.mp run
    have holds := (holds.acquire first fun a => by simp).buildAllocator second
    rcases holds.malloc third with ⟨rfl, holds⟩ | ⟨nonnull, holds⟩
    · cases run
      exact none holds.systemExit
    · dsimp only at run
      rw [if_neg nonnull] at run
      obtain ⟨⟨reacting, reactor⟩, fourth, run⟩ := Option.bind_eq_some_iff.mp run
      have holds := holds.reactorNew fourth
      cases reactor with
      | none =>
        cases run
        exact none (Holds.free (by simpa using holds)).systemExit
      | some reactor =>
        obtain ⟨⟨timing, timer⟩, fifth, run⟩ := Option.bind_eq_some_iff.mp run
        rcases holds.malloc fifth with ⟨rfl, holds⟩ | ⟨nonnull, holds⟩
        · cases run
          exact none holds.reactorDestroy.free.systemExit
        · dsimp only at run
          rw [if_neg nonnull] at run
          obtain ⟨⟨detecting, detector⟩, sixth, run⟩ := Option.bind_eq_some_iff.mp run
          have holds : detecting.Holds (detector.elim 0 (fun a => {.raw a}) +
              (.block timer ::ₘ (reactor.resources + .block block ::ₘ {.winsock}))) := by
            unfold Process.buildDetector at sixth
            split_ifs at sixth
            · exact holds.detectorNew sixth
            · cases sixth
              simpa using holds
          split_ifs at run with failed
          · obtain ⟨_, rfl⟩ := failed
            cases run
            refine none (Holds.systemExit (Holds.free (Holds.reactorDestroy (Holds.free ?_))))
            simpa using holds
          · cases run
            refine ⟨?_, fun c equal => by cases equal; rfl⟩
            simpa [ContextBlock.resources] using holds
  · rw [if_pos sys] at run
    cases run
    exact none holds

theorem Holds.systemFini {context : ContextBlock} (holds : p.Holds context.resources) :
    (p.systemFini context).Holds 0 := by
  obtain ⟨block, reactor, timer, detector, proxy, list⟩ := context
  unfold Process.systemFini
  refine Holds.systemExit (Holds.free (Holds.reactorDestroy (Holds.free ?_)))
  have first : (proxy.elim p p.proxyDestroy).Holds (detector.elim 0 (fun detector => {.raw detector}) +
      (.block timer ::ₘ (reactor.resources + .block block ::ₘ {.winsock}))) := by
    cases proxy with
    | none =>
      rw [ContextBlock.resources, Option.elim_none, Multiset.zero_add] at holds
      exact holds
    | some proxy => exact holds.proxyDestroy
  cases detector with
  | none =>
    rw [Option.elim_none, Multiset.zero_add] at first
    exact first
  | some detector =>
    rw [Option.elim_some, Multiset.singleton_add] at first
    exact first.release

end Process

namespace TaskSystem

def taskResources (t : Addr) (stack : Option TaskStack) : Multiset Resource :=
  stack.elim 0 fun stack => stack.resources + {.block t}

def footprint (tasks : Addr → Option TaskBlock) (order : List Addr) : Multiset Resource :=
  (order.map fun t => taskResources t ((tasks t).map TaskBlock.stack)).sum

/-- A task has the references of its callers, and one of its own while it is not stopped. -/
def Counted (b : TaskBlock) (refs : Nat) : Prop :=
  b.refCount = refs + (if b.state = .stopped then 0 else 1) ∧ 0 < b.refCount

/-- The resources at large are those of the context and of the tasks, and the list has all
tasks in the order of their creation. -/
structure Inv (s : TaskSystem) : Prop where
  absent : s.context = none → s.process.Holds 0 ∧ s.order = []
  present : ∀ context, s.context = some context →
    s.process.Holds (context.resources + footprint s.tasks s.order) ∧ context.allTasks.Holds s.nodes s.order
  live : ∀ t, t ∈ s.order ↔ s.tasks t ≠ none
  unused : ∀ t, s.tasks t = none → s.refs t = 0
  counted : ∀ t b, s.tasks t = some b → Counted b (s.refs t)

variable {s next : TaskSystem} {t : Addr} {b : TaskBlock} {tasks tasks' : Addr → Option TaskBlock} {order : List Addr}
  {context : ContextBlock} {build : SystemBuild} {fuel : Nat}

theorem footprint_congr (same : ∀ t ∈ order, (tasks' t).map TaskBlock.stack = (tasks t).map TaskBlock.stack) :
    footprint tasks' order = footprint tasks order := by
  unfold footprint
  rw [List.map_congr_left fun t member => congrArg (taskResources t) (same t member)]

theorem footprint_erase (member : t ∈ order) (nodup : order.Nodup) (here : tasks t = some b) :
    footprint tasks order = b.stack.resources + {.block t} +
      footprint (Function.update tasks t none) (order.erase t) := by
  have rest : footprint (Function.update tasks t none) (order.erase t) = footprint tasks (order.erase t) := by
    refine footprint_congr fun u inside => ?_
    have other : u ≠ t := ((List.Nodup.mem_erase_iff nodup).mp inside).1
    rw [Function.update_of_ne other]
  have split := List.sum_map_erase (fun t => taskResources t ((tasks t).map TaskBlock.stack)) member
  rw [rest, footprint, ← split, here]
  rfl

theorem footprint_concat (fresh : t ∉ order) :
    footprint (Function.update tasks t (some b)) (order ++ [t]) =
      b.stack.resources + {.block t} + footprint tasks order := by
  have old : footprint (Function.update tasks t (some b)) order = footprint tasks order := by
    refine footprint_congr fun u inside => ?_
    rw [Function.update_of_ne (ne_of_mem_of_not_mem inside fresh)]
  calc footprint (Function.update tasks t (some b)) (order ++ [t])
      = footprint (Function.update tasks t (some b)) order + (b.stack.resources + {.block t}) := by
        simp [footprint, taskResources]
    _ = b.stack.resources + {.block t} + footprint tasks order := by rw [old, add_comm]

/-! ## Steps -/

theorem Inv.context_of_task (inv : s.Inv) (here : s.tasks t = some b) : ∃ context, s.context = some context := by
  cases there : s.context with
  | some context => exact ⟨context, rfl⟩
  | none =>
    have member := (inv.live t).mpr (by simp [here])
    rw [(inv.absent there).2] at member
    exact absurd member List.not_mem_nil

theorem Inv.setTask {old : TaskBlock} {n : Nat} (inv : s.Inv) (here : s.tasks t = some old) (same : b.stack = old.stack)
    (counted : Counted b n) : ((s.setTask t b).setRefs t n).Inv := by
  have own : ((s.setTask t b).setRefs t n).tasks t = some b := Function.update_self ..
  have others {u : Addr} (other : u ≠ t) : ((s.setTask t b).setRefs t n).tasks u = s.tasks u :=
    Function.update_of_ne other ..
  have refs {u : Addr} (other : u ≠ t) : ((s.setTask t b).setRefs t n).refs u = s.refs u :=
    Function.update_of_ne other ..
  have kept : footprint ((s.setTask t b).setRefs t n).tasks s.order = footprint s.tasks s.order := by
    refine footprint_congr fun u _ => ?_
    by_cases equal : u = t
    · rw [equal, own, here, Option.map_some, Option.map_some, same]
    · rw [others equal]
  refine ⟨inv.absent, fun context there => ?_, fun u => ?_, fun u gone => ?_, fun u c present => ?_⟩
  · obtain ⟨holds, list⟩ := inv.present context there
    exact ⟨kept.symm ▸ holds, list⟩
  · refine (inv.live u).trans ?_
    by_cases equal : u = t
    · simp [equal, own, here]
    · rw [others equal]
  · have other : u ≠ t := by
      rintro rfl
      cases own.symm.trans gone
    exact (refs other).trans (inv.unused u ((others other).symm.trans gone))
  · by_cases equal : u = t
    · subst equal
      cases own.symm.trans present
      simpa [TaskSystem.setRefs] using counted
    · rw [refs equal]
      exact inv.counted u c ((others equal).symm.trans present)

theorem setTask_self (here : s.tasks t = some b) : s.setTask t b = s := by
  simp [TaskSystem.setTask, ← here]

theorem setRefs_self (s : TaskSystem) (t : Addr) : s.setRefs t (s.refs t) = s := by
  simp [TaskSystem.setRefs]

theorem setTask_again (s : TaskSystem) (t : Addr) (b b' : TaskBlock) (n : Nat) :
    ((s.setTask t b).setRefs t n).setTask t b' = (s.setTask t b').setRefs t n := by
  simp [TaskSystem.setTask, TaskSystem.setRefs]

theorem destroy_setTask {old : TaskBlock} (here : s.tasks t = some old) (same : b.stack = old.stack) (n : Nat) :
    ((s.setTask t b).setRefs t n).destroy t = s.destroy t := by
  simp [TaskSystem.destroy, TaskSystem.setTask, TaskSystem.setRefs, here, same]

theorem Inv.destroy (inv : s.Inv) (here : s.tasks t = some b) :
    ∃ next, s.destroy t = some next ∧ next.Inv ∧ next.order = s.order.erase t ∧ next.context.isSome = true := by
  obtain ⟨context, there⟩ := inv.context_of_task here
  obtain ⟨holds, list⟩ := inv.present context there
  have member := (inv.live t).mpr (by simp [here])
  obtain ⟨front, back, _, split, erased⟩ := List.exists_erase_eq member
  have list' : context.allTasks.Holds s.nodes (front ++ t :: back) := split ▸ list
  refine ⟨_, by simp [TaskSystem.destroy, there, here]; rfl, ⟨?_, ?_, fun u => ?_, fun u gone => ?_, ?_⟩, rfl, rfl⟩
  · exact fun gone => by cases gone
  · intro _ equal
    cases equal
    refine ⟨?_, erased.symm ▸ HevList.del_holds list'⟩
    rw [footprint_erase member list.nodup here, add_left_comm, add_assoc] at holds
    have freed := holds.stackDestroy
    rw [Multiset.singleton_add] at freed
    exact freed.free
  · change u ∈ s.order.erase t ↔ Function.update s.tasks t none u ≠ none
    rw [List.Nodup.mem_erase_iff list.nodup, inv.live u]
    by_cases equal : u = t
    · simp [equal]
    · simp [equal]
  · change Function.update s.refs t 0 u = 0
    by_cases equal : u = t
    · simp [equal]
    · rw [Function.update_of_ne equal]
      exact inv.unused u (by simpa [equal] using gone)
  · intro u c present
    have other : u ≠ t := by
      rintro rfl
      simp at present
    simpa [other] using inv.counted u c (by simpa [other] using present)

theorem Inv.unref {old : TaskBlock} {n : Nat} (inv : s.Inv) (here : s.tasks t = some old) (same : b.stack = old.stack)
    (counted : b.refCount - 1 = n + (if b.state = .stopped then 0 else 1)) :
    ∃ next, ((s.setTask t b).setRefs t n).unref t = some next ∧ next.Inv := by
  have found : ((s.setTask t b).setRefs t n).tasks t = some b := Function.update_self ..
  by_cases last : b.refCount - 1 = 0
  · obtain ⟨next, run, after, _⟩ := inv.destroy here
    refine ⟨next, ?_, after⟩
    have ends : (((s.setTask t b).setRefs t n).setTask t { b with refCount := b.refCount - 1 }).destroy t = some next := by
      rw [setTask_again]
      refine Eq.trans (destroy_setTask here ?_ n) run
      exact same
    rw [TaskSystem.unref, found]
    simpa [last] using ends
  · have nonneg : 0 ≤ b.refCount - 1 := by
      rw [counted]
      split_ifs <;> omega
    refine ⟨((s.setTask t b).setRefs t n).setTask t { b with refCount := b.refCount - 1 }, ?_, ?_⟩
    · rw [TaskSystem.unref, found]
      simp [last]
    · rw [setTask_again]
      exact inv.setTask here same ⟨counted, lt_of_le_of_ne nonneg (Ne.symm last)⟩

theorem Inv.init {answer : InitAnswer} (inv : s.Inv) (run : s.init build answer = some next) : next.Inv := by
  unfold TaskSystem.init at run
  split_ifs at run with there
  · cases run
    exact inv
  · obtain ⟨⟨process, context⟩, started, last⟩ := Option.bind_eq_some_iff.mp run
    cases last
    have none : s.context = none := Option.not_isSome_iff_eq_none.mp there
    obtain ⟨holds, empty⟩ := inv.absent none
    obtain ⟨holds, list⟩ := holds.systemInit started
    refine ⟨fun gone => ?_, fun c here => ?_, inv.live, inv.unused, inv.counted⟩
    · obtain rfl : context = Option.none := gone
      exact ⟨holds, empty⟩
    · obtain rfl : context = some c := here
      refine ⟨?_, ?_⟩
      · simpa [footprint, empty] using holds
      · rw [list c rfl, empty]
        exact .empty _

theorem Inv.setProcess {p : Process} (inv : s.Inv) (keep : ∀ m, s.process.Holds m → p.Holds m) :
    ({ s with process := p } : TaskSystem).Inv := by
  refine ⟨fun gone => ?_, fun c here => ?_, inv.live, inv.unused, inv.counted⟩
  · exact ⟨keep _ (inv.absent gone).1, (inv.absent gone).2⟩
  · exact ⟨keep _ (inv.present c here).1, (inv.present c here).2⟩

theorem Inv.taskNew {answer : TaskNewAnswer} (inv : s.Inv) (run : s.taskNew build answer = some next) : next.Inv := by
  obtain ⟨⟨mid, self⟩, first, rest⟩ := Option.bind_eq_some_iff.mp run
  by_cases failed : self = 0
  · dsimp only at rest
    rw [if_pos failed] at rest
    cases rest
    refine inv.setProcess fun m holds => ?_
    rcases holds.malloc first with ⟨_, holds⟩ | ⟨nonnull, _⟩
    · exact holds
    · exact absurd failed nonnull
  · have block (m : Multiset Resource) (holds : s.process.Holds m) : mid.Holds (.block self ::ₘ m) := by
      rcases holds.malloc first with ⟨null, _⟩ | ⟨_, holds⟩
      · exact absurd null failed
      · exact holds
    dsimp only at rest
    rw [if_neg failed] at rest
    obtain ⟨⟨last, stack⟩, second, rest⟩ := Option.bind_eq_some_iff.mp rest
    cases stack with
    | none =>
      cases rest
      refine inv.setProcess fun m holds => Process.Holds.free ?_
      simpa using (block m holds).stackNew second
    | some stack =>
      obtain ⟨context, there, rest⟩ := Option.bind_eq_some_iff.mp rest
      cases rest
      obtain ⟨holds, list⟩ := inv.present context there
      have after := (block _ holds).stackNew second
      -- The block is no task at large, since their blocks are in the footprint.
      have fresh : self ∉ s.order := by
        intro member
        obtain ⟨b, here⟩ := Option.ne_none_iff_exists'.mp ((inv.live self).mp member)
        have inside : Resource.block self ∈ context.resources + footprint s.tasks s.order := by
          rw [footprint_erase member list.nodup here]
          simp
        have nodup := (Multiset.nodup_add.mp (block _ holds).ledger.nodup).2.1
        exact (Multiset.nodup_cons.mp nodup).1 inside
      have absent : s.tasks self = none := by
        by_contra present
        exact fresh ((inv.live self).mpr present)
      refine ⟨fun gone => ?_, ?_, fun u => ?_, fun u gone => ?_, fun u c here => ?_⟩
      · cases gone
      · intro _ equal
        cases equal
        refine ⟨?_, HevList.addTail_holds list failed fresh⟩
        rw [footprint_concat fresh]
        have order : stack.resources + .block self ::ₘ (context.resources + footprint s.tasks s.order) =
            context.resources + (stack.resources + {.block self} + footprint s.tasks s.order) := by
          rw [← Multiset.singleton_add, add_left_comm context.resources, add_assoc stack.resources]
        exact order ▸ after
      · change u ∈ s.order ++ [self] ↔ Function.update s.tasks self _ u ≠ none
        rw [List.mem_append, inv.live u, List.mem_singleton]
        by_cases equal : u = self
        · simp [equal]
        · simp [equal]
      · have other : u ≠ self := by
          rintro rfl
          simp at gone
        simpa [other] using inv.unused u (by simpa [other] using gone)
      · by_cases equal : u = self
        · subst equal
          obtain rfl : (⟨1, .stopped, stack⟩ : TaskBlock) = c := by simpa using here
          simp [Counted]
        · simpa [equal] using inv.counted u c (by simpa [equal] using here)

theorem Inv.proxyGet {answer : ProxyAnswer} (inv : s.Inv) (run : s.proxyGet answer = some next) : next.Inv := by
  obtain ⟨context, there, rest⟩ := Option.bind_eq_some_iff.mp run
  obtain ⟨holds, list⟩ := inv.present context there
  split_ifs at rest with old
  · cases rest
    exact inv
  · obtain ⟨⟨process, proxy⟩, made, rest⟩ := Option.bind_eq_some_iff.mp rest
    cases rest
    have none : context.proxy = none := Option.not_isSome_iff_eq_none.mp old
    refine ⟨fun gone => ?_, ?_, inv.live, inv.unused, inv.counted⟩
    · cases gone
    · intro _ equal
      cases equal
      refine ⟨?_, list⟩
      have after := holds.proxyNew made
      simpa [ContextBlock.resources, none, add_assoc] using after

/-- The tasks that the loop of `hev_task_system_fini` still has to free. -/
def Left (rank : Nat) (s : TaskSystem) : Prop := s.Inv ∧ s.order.length = rank ∧ s.context.isSome = true

theorem Inv.finiLoop (inv : s.Inv) (there : s.context.isSome = true) (enough : s.order.length < fuel) :
    ∃ next, loop finiPass fuel s = some next ∧ Left 0 next := by
  have pass : ∀ rank s, Left rank s → ∃ flow, finiPass s = some flow ∧ Pass Left (Left 0) rank flow := by
    rintro rank s ⟨inv, length, there⟩
    obtain ⟨context, here⟩ := Option.isSome_iff_exists.mp there
    obtain ⟨_, list⟩ := inv.present context here
    by_cases empty : context.allTasks.head = 0
    · refine ⟨.done s, by simp [finiPass, here, empty], inv, ?_, there⟩
      rw [list.head_eq_zero.mp empty, List.length_nil]
    · have member := list.head_mem empty
      obtain ⟨b, task⟩ := Option.ne_none_iff_exists'.mp ((inv.live _).mp member)
      obtain ⟨next, run, after, order, still⟩ := inv.destroy task
      refine ⟨.next next, by simp [finiPass, here, empty, run], next.order.length, ?_, after, rfl, still⟩
      rw [order, List.length_erase_of_mem member, ← length]
      exact Nat.sub_lt (List.length_pos_of_mem member) Nat.one_pos
  exact loop_total pass ⟨inv, rfl, there⟩ enough

theorem Inv.fini (inv : s.Inv) (there : s.context.isSome = true) (enough : s.order.length < fuel) :
    ∃ next, s.fini fuel = some next ∧ next.Inv ∧ next.context = none ∧ next.process.allocator = 0 := by
  obtain ⟨left, run, after, length, still⟩ := inv.finiLoop there enough
  obtain ⟨context, here⟩ := Option.isSome_iff_exists.mp there
  obtain ⟨last, present⟩ := Option.isSome_iff_exists.mp still
  have empty : left.order = [] := List.length_eq_zero_iff.mp length
  refine ⟨{ left with process := left.process.systemFini last, context := none }, ?_, ⟨fun _ => ?_, ?_,
    after.live, after.unused, after.counted⟩, rfl, Process.systemExit_allocator _⟩
  · simp [TaskSystem.fini, here, run, present]
  · refine ⟨Process.Holds.systemFini ?_, empty⟩
    simpa [footprint, empty] using (after.present last present).1
  · intro _ gone
    cases gone

theorem fini_mono {more : Nat} (bound : fuel ≤ more) (run : s.fini fuel = some next) : s.fini more = some next := by
  unfold TaskSystem.fini at run ⊢
  cases here : s.context with
  | none => simpa [here] using run
  | some context =>
    rw [here] at run
    obtain ⟨left, freed, rest⟩ := Option.bind_eq_some_iff.mp run
    exact Option.bind_eq_some_iff.mpr ⟨left, loop_mono bound freed, rest⟩

theorem Inv.of_fini (inv : s.Inv) (run : s.fini fuel = some next) : next.Inv := by
  cases here : s.context with
  | none =>
    obtain rfl : s = next := by simpa [TaskSystem.fini, here] using run
    exact inv
  | some context =>
    obtain ⟨last, enough, after, _⟩ := inv.fini (by simp [here]) (Nat.lt_succ_self s.order.length)
    have first := fini_mono (Nat.le_max_left fuel (s.order.length + 1)) run
    cases first.symm.trans (fini_mono (Nat.le_max_right fuel (s.order.length + 1)) enough)
    exact after

end TaskSystem

namespace LifeOp

variable {build : SystemBuild} {s next : TaskSystem} {op : LifeOp}

def onTask : LifeOp → Bool
  | .ref _ | .unref _ | .run _ | .exit _ | .wait _ | .wakeup _ => true
  | _ => false

theorem onTask_inv (inv : s.Inv) (ready : op.Ready s) (kind : op.onTask = true) :
    ∃ next, op.apply build s = some next ∧ next.Inv := by
  have referred (t : Addr) (refs : 0 < s.refs t) : ∃ b, s.tasks t = some b := by
    refine Option.ne_none_iff_exists'.mp fun gone => ?_
    rw [inv.unused t gone] at refs
    exact Nat.lt_irrefl 0 refs
  -- The state of a task changes, and with it who has its references.
  have change {t : Addr} {b : TaskBlock} (here : s.tasks t = some b) (refCount : Int) (state : TaskState) (refs : Nat)
      (counted : refCount = refs + (if state = .stopped then 0 else 1)) (positive : 0 < refCount) :
      ((s.setTask t ⟨refCount, state, b.stack⟩).setRefs t refs).Inv := inv.setTask here rfl ⟨counted, positive⟩
  cases op with
  | ref t =>
    obtain ⟨b, here⟩ := Option.ne_none_iff_exists'.mp ready
    obtain ⟨count, positive⟩ := inv.counted t b here
    refine ⟨_, ?_, change here (b.refCount + 1) b.state (s.refs t + 1) (by push_cast; omega) (by omega)⟩
    simp [apply, TaskSystem.ref, TaskSystem.setRefs, TaskSystem.setTask, here]
  | unref t =>
    obtain ⟨b, here⟩ := referred t ready
    obtain ⟨count, positive⟩ := inv.counted t b here
    have some' : 0 < s.refs t := ready
    have less : b.refCount - 1 = (s.refs t - 1 : Nat) + (if b.state = .stopped then 0 else 1) := by omega
    obtain ⟨next, run, after⟩ := inv.unref here rfl less
    rw [TaskSystem.setTask_self here] at run
    exact ⟨next, run, after⟩
  | run t =>
    obtain ⟨b, here⟩ := referred t ready
    obtain ⟨count, positive⟩ := inv.counted t b here
    by_cases stopped : b.state = .stopped
    · have some' : 0 < s.refs t := ready
      rw [if_pos stopped] at count
      refine ⟨_, ?_, change here b.refCount .running (s.refs t - 1) ?_ positive⟩
      · simp [apply, TaskSystem.run, here, stopped]
      · rw [if_neg (by decide)]
        omega
    · exact ⟨s, by simp [apply, TaskSystem.run, here, stopped], inv⟩
  | exit t =>
    obtain ⟨b, here, state⟩ := Option.map_eq_some_iff.mp ready
    obtain ⟨count, positive⟩ := inv.counted t b here
    have less : b.refCount - 1 = s.refs t + (if TaskState.stopped = .stopped then 0 else 1) := by
      rw [if_pos rfl, count, state, if_neg (by decide)]
      omega
    obtain ⟨next, run, after⟩ := inv.unref (b := { b with state := .stopped }) here rfl less
    rw [show ((s.setTask t { b with state := .stopped }).setRefs t (s.refs t)) =
      s.setTask t { b with state := .stopped } from TaskSystem.setRefs_self ..] at run
    exact ⟨next, by simpa [apply, TaskSystem.exit, here] using run, after⟩
  | wait t =>
    obtain ⟨b, here, state⟩ := Option.map_eq_some_iff.mp ready
    obtain ⟨count, positive⟩ := inv.counted t b here
    refine ⟨_, ?_, change here b.refCount .waiting (s.refs t) ?_ positive⟩
    · simp [apply, TaskSystem.wait, TaskSystem.setRefs, TaskSystem.setTask, here]
    · rw [count, state]
      rfl
  | wakeup t =>
    rcases ready with ready | ready
    · obtain ⟨b, here, state⟩ := Option.map_eq_some_iff.mp ready
      exact ⟨s, by simp [apply, TaskSystem.wakeup, here, state], inv⟩
    · obtain ⟨b, here, state⟩ := Option.map_eq_some_iff.mp ready
      obtain ⟨count, positive⟩ := inv.counted t b here
      refine ⟨_, ?_, change here b.refCount .running (s.refs t) ?_ positive⟩
      · simp [apply, TaskSystem.wakeup, TaskSystem.setRefs, TaskSystem.setTask, here, state]
      · rw [count, state]
        rfl
  | init answer => cases kind
  | malloc simple => cases kind
  | new answer => cases kind
  | dns answer => cases kind
  | fini fuel => cases kind

theorem apply_inv (inv : s.Inv) (ready : op.Ready s) (run : op.apply build s = some next) : next.Inv := by
  by_cases kind : op.onTask = true
  · obtain ⟨next', run', after⟩ : ∃ next', op.apply build s = some next' ∧ next'.Inv := onTask_inv inv ready kind
    cases run.symm.trans run'
    exact after
  · cases op with
    | init answer => exact inv.init run
    | malloc simple =>
      obtain ⟨process, ready, last⟩ := Option.bind_eq_some_iff.mp run
      cases last
      exact inv.setProcess fun m holds => (holds.allocatorDefault ready).1
    | new answer => exact inv.taskNew run
    | dns answer => exact inv.proxyGet run
    | fini fuel => exact inv.of_fini run
    | ref t | unref t | run t | exit t | wait t | wakeup t => exact absurd rfl kind

end LifeOp

namespace TaskSystem

variable {build : SystemBuild} {ops : List LifeOp} {s : TaskSystem} {fuel : Nat}

theorem start_inv (nodes : ListNodes) : (start nodes).Inv where
  absent _ := ⟨Process.start_holds, rfl⟩
  present _ gone := by cases gone
  live t := by simp [start]
  unused _ _ := rfl
  counted _ _ gone := by cases gone

def exec (build : SystemBuild) (s : TaskSystem) (op : LifeOp) : Option TaskSystem :=
  if op.Ready s then op.apply build s else none

theorem exec_step (build : SystemBuild) (s : TaskSystem) (op : LifeOp) (next : TaskSystem)
    (taken : s.exec build op = some next) : (lifeSystem build).step s op next := by
  unfold exec at taken
  split_ifs at taken with ready
  exact ⟨ready, taken⟩

theorem life_inv (run : (lifeSystem build).Run ops s) : s.Inv := by
  refine run.invariant Inv ?_ ?_
  · rintro _ ⟨nodes, rfl⟩
    exact start_inv nodes
  · exact fun _ _ _ inv step => LifeOp.apply_inv inv step.1 step.2

/-- In every build and whichever requests fail, nothing is released twice or by another allocator
than the one that issued it. A task is there as long as it runs or someone has a reference to
it, so that no operation meets a task that is gone, and the list has all tasks in
the order of their creation. Without a context nothing is left but the default allocator. -/
theorem task_system_life (run : (lifeSystem build).Run ops s) :
    s.process.faults = 0 ∧ s.process.ledger.Sound ∧
      (∀ op : LifeOp, op.onTask = true → op.Ready s → ∃ next, op.apply build s = some next) ∧
      (∀ t, t ∈ s.order ↔ s.tasks t ≠ none) ∧
      (∀ t b, s.tasks t = some b → b.refCount = s.refs t + (if b.state = .stopped then 0 else 1) ∧ 0 < b.refCount) ∧
      (∀ context, s.context = some context → context.allTasks.Holds s.nodes s.order) ∧
      (s.context = none → ∀ r, (s.process.ledger.number r).isSome = true → r = .allocator s.process.allocator) := by
  have inv := life_inv run
  have process : s.process.faults = 0 ∧ s.process.ledger.Sound := by
    cases here : s.context with
    | none => exact ⟨(inv.absent here).1.faults, (inv.absent here).1.ledger.sound⟩
    | some context =>
      obtain ⟨holds, _⟩ := inv.present context here
      exact ⟨holds.faults, holds.ledger.sound⟩
  refine ⟨process.1, process.2, fun op kind ready => ?_, inv.live, inv.counted, ?_, ?_⟩
  · obtain ⟨next, run, _⟩ : ∃ next, op.apply build s = some next ∧ next.Inv := LifeOp.onTask_inv inv ready kind
    exact ⟨next, run⟩
  · exact fun context here => (inv.present context here).2
  · intro gone r out
    have ledger := (inv.absent gone).1.ledger
    have member := (ledger.out r).mp out
    unfold Process.defaults at member
    split_ifs at member
    · simp at member
    · simpa using member

/-- The slice build with mapped stacks. The stack of the second task cannot be protected; the first
task ends and is kept by a reference of its caller. -/
theorem task_system_life_kept : ∃ s, (lifeSystem ⟨true, false, .mmap true⟩).Run [.malloc 16,
    .init ⟨true, 32, ⟨0, 48⟩, ⟨⟨0, 64⟩, some 3, true⟩, ⟨0, 80⟩, ⟨none, true⟩⟩,
    .new ⟨⟨0, 96⟩, ⟨0, 112⟩, some 4096, true⟩, .new ⟨⟨0, 128⟩, ⟨0, 144⟩, some 8192, false⟩,
    .ref 96, .run 96, .wait 96, .wakeup 96, .exit 96] s ∧ s.order = [96] ∧ s.process.ledger.back = [0, 12, 11, 10] ∧
    s.process.faults = 0 := by
  have started : (lifeSystem ⟨true, false, .mmap true⟩).Run [] (start ⟨fun _ => 0, fun _ => 0⟩) := .init ⟨_, rfl⟩
  refine started.exists_reached (exec _) (fun s => s.order = [96] ∧ s.process.ledger.back = [0, 12, 11, 10])
    (exec_step _) (by decide +kernel) fun s run final => ?_
  obtain ⟨order, back⟩ := of_decide_eq_true final
  exact ⟨order, back, (task_system_life run).1⟩

/-- The end of the task system takes one pass of its loop for each task that is left and one more;
after it nothing that the task system acquired is at large. -/
theorem task_system_fini (run : (lifeSystem build).Run ops s) (there : s.context.isSome = true)
    (enough : s.order.length < fuel) :
    ∃ next, s.fini fuel = some next ∧ next.context = none ∧ (∀ t, next.tasks t = none) ∧
      next.process.faults = 0 ∧ ∀ r, next.process.ledger.number r = none := by
  obtain ⟨next, ended, after, gone, allocator⟩ := (life_inv run).fini there enough
  obtain ⟨holds, empty⟩ := after.absent gone
  refine ⟨next, ended, gone, fun t => ?_, holds.faults, fun r => ?_⟩
  · by_contra present
    have member := (after.live t).mpr present
    rw [empty] at member
    exact absurd member List.not_mem_nil
  · refine holds.ledger.number_none.mpr ?_
    simp [Process.defaults, allocator]

/-- A task that was never run is freed with the system. -/
theorem task_system_fini_left : ∃ s, (lifeSystem ⟨false, true, .heap⟩).Run [
    .init ⟨true, 0, ⟨16, 48⟩, ⟨⟨0, 64⟩, some 3, true⟩, ⟨0, 80⟩, ⟨some 8, true⟩⟩,
    .new ⟨⟨0, 96⟩, ⟨0, 112⟩, none, true⟩] s ∧ s.order = [96] ∧ ∃ next, s.fini 2 = some next ∧
    ∀ r, next.process.ledger.number r = none := by
  have started : (lifeSystem ⟨false, true, .heap⟩).Run [] (start ⟨fun _ => 0, fun _ => 0⟩) := .init ⟨_, rfl⟩
  refine started.exists_reached (exec _) (fun s => s.order = [96] ∧ s.context.isSome = true) (exec_step _)
    (by decide +kernel) fun s run final => ?_
  obtain ⟨order, there⟩ := of_decide_eq_true final
  have enough : s.order.length < 2 := by
    rw [order]
    decide
  obtain ⟨next, ended, _, _, _, none⟩ := task_system_fini run there enough
  exact ⟨order, next, ended, none⟩

end TaskSystem

end HevTaskSystem
