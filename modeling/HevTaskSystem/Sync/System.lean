import HevTaskSystem.Foundation.Linked
import HevTaskSystem.Foundation.Transition
import HevTaskSystem.Sync.Cond

/-! Tasks that use mutexes and condition variables, as a transition system.

Any running task may be the next one to go on, and any waiting task may be woken by a
timer or for no reason at all.
-/

set_option autoImplicit false

namespace HevTaskSystem

open Foundation SyncSystem

/-- The first five are of the tasks: started, ended, waiting for something else, woken
by something else, and resumed. -/
inductive SyncOp where
  | start (t : Addr)
  | exit (t : Addr)
  | wait (t : Addr)
  | wake (t : Addr)
  | resume (t : Addr) (left : Nat)
  | lock (t m : Addr)
  | trylock (t m : Addr)
  | unlock (t m : Addr)
  | condWait (t c m : Addr)
  | condTimedwait (t c m : Addr) (milliseconds : Nat)
  | signal (t c : Addr)
  | broadcast (t c : Addr)
  deriving DecidableEq, Repr

namespace SyncOp

def apply (fuel : Nat) (s : SyncSystem) : SyncOp → Option (SyncSystem × TaskReply)
  | .start t => some ({ s with pool := Function.update s.pool t (some .running) }, .void)
  | .exit t => some ({ s with pool := Function.update s.pool t (some .stopped) }, .void)
  | .wait t => some (s.sleep t, .blocked)
  | .wake t => do
    let pool ← s.pool.wakeup t
    return ({ s with pool }, .void)
  | .resume t left => s.resume t left
  | .lock t m => s.lock t m .user
  | .trylock t m => some (s.mutexTrylock t m)
  | .unlock t m => do return (← s.mutexUnlock t m, .value 0)
  | .condWait t c m => s.condWait t c m
  | .condTimedwait t c m milliseconds => s.condTimedwait t c m milliseconds
  | .signal _ c => do return (← s.condSignal c, .value 0)
  | .broadcast _ c => do return (← s.condBroadcast fuel c, .value 0)

def Calls (s : SyncSystem) (t : Addr) : Prop := s.pool t = some .running ∧ s.calls t = .idle

/-- What the scheduler and the callers guarantee: only the holder of a mutex unlocks it
or waits with it. -/
def Ready (s : SyncSystem) : SyncOp → Prop
  | .start t => t ≠ 0 ∧ (s.pool t = none ∨ s.pool t = some .stopped)
  | .exit t | .wait t | .lock t _ | .trylock t _ | .signal t _ | .broadcast t _ => Calls s t
  | .wake t => s.pool t = some .waiting
  | .resume t _ => s.pool t = some .running ∧ s.calls t ≠ .idle
  | .unlock t m | .condWait t _ m | .condTimedwait t _ m _ => Calls s t ∧ s.held m t = true

end SyncOp

/-- From a state with no tasks, where all mutexes and condition variables are as they are
after their initialisation. -/
def syncSystem : System SyncSystem SyncOp where
  init s := (∀ t, s.pool t = none) ∧ (∀ t, s.calls t = .idle) ∧ (∀ m, s.mutex m = mutexInit) ∧
    (∀ c, s.waiters c = 0) ∧ (∀ t, s.condNode t = none) ∧ ∀ m t, s.held m t = false
  step s op next := op.Ready s ∧ ∃ fuel reply, op.apply fuel s = some (next, reply)

def SyncCall.mutex : SyncCall → Option Addr
  | .lock m _ => some m
  | .idle | .wait .. | .timedwait .. => none

def LockCaller.cond : LockCaller → Option Addr
  | .user => none
  | .wait c | .timedwait c => some c

def SyncCall.cond : SyncCall → Option Addr
  | .idle => none
  | .lock _ caller => caller.cond
  | .wait c _ | .timedwait c _ _ => some c

theorem LockCaller.call_mutex (caller : LockCaller) (m : Addr) : (caller.call m).mutex = none := by
  cases caller <;> rfl

theorem LockCaller.call_cond (caller : LockCaller) (m : Addr) : (caller.call m).cond = caller.cond := by
  cases caller <;> rfl

/-- The task is in the loop of a wait, before it locks the mutex again. -/
def SyncCall.Waits : SyncCall → Prop
  | .wait .. | .timedwait .. => True
  | .idle | .lock .. => False

namespace SyncSystem

def empty : SyncSystem where
  pool _ := none
  calls _ := .idle
  mutex _ := mutexInit
  mutexNode _ := none
  waiters _ := 0
  condNode _ := none
  held _ _ := false
  removed _ := false

theorem empty_init : syncSystem.init empty := by simp [syncSystem, empty]

/-! ## The invariant -/

def Active (s : SyncSystem) (t : Addr) : Prop := s.pool t = some .running ∨ s.pool t = some .waiting

structure Tasks (s : SyncSystem) : Prop where
  null : s.pool 0 = none
  active : ∀ t, s.calls t ≠ .idle → s.Active t

/-- The nodes of the list are linked in order, each with its task, up to NULL. -/
def Chained (nodes : Addr → Option MutexNode) : Addr → List Addr → Prop
  | first, [] => first = 0
  | first, t :: rest => first = t ∧ ∃ next, nodes t = some ⟨next, t⟩ ∧ Chained nodes next rest

/-- Where the task of the first waiter is not running, the mutex is taken. -/
structure MutexOk (s : SyncSystem) (m : Addr) (chain : List Addr) : Prop where
  chained : Chained s.mutexNode (s.mutex m).waiters chain
  nodup : chain.Nodup
  mem : ∀ t, t ∈ chain ↔ (s.calls t).mutex = some m
  holder : ((s.mutex m).locker = 0 ∧ ∀ t, s.held m t = false) ∨
    ((s.mutex m).locker = 1 ∧ ∃ t, ∀ u, s.held m u = true ↔ u = t)
  awake : (s.mutex m).locker = 0 → (s.mutex m).waiters ≠ 0 → s.pool (s.mutex m).waiters = some .running

/-- A wait has a node until it returns. Its task is NULL once it was removed by a signaller,
and then the waiter does not sleep in its loop. Without a timeout it leaves its loop
only then. -/
structure CondNodes (s : SyncSystem) : Prop where
  live : ∀ t, (s.calls t).cond ≠ none → ∃ node, s.condNode t = some node ∧
    node.task = if s.removed t then 0 else t
  dead : ∀ t, (s.calls t).cond = none → s.condNode t = none
  awake : ∀ t, (s.calls t).Waits → s.removed t = true → s.pool t = some .running
  signalled : ∀ t m c, s.calls t = .lock m (.wait c) → s.removed t = true

def condNext (s : SyncSystem) (a : Addr) : Addr := (s.condNode a).elim 0 CondNode.next

def condPrev (s : SyncSystem) (a : Addr) : Addr := (s.condNode a).elim 0 CondNode.prev

/-- The list of the waiters that no signaller has removed; `before` is what the first one
has as its previous node. -/
structure CondOk (s : SyncSystem) (c before : Addr) (order : List Addr) : Prop where
  head : s.waiters c = order.headD 0
  linked : Linked s.condNext s.condPrev before 0 order
  nodup : order.Nodup
  mem : ∀ t, t ∈ order ↔ (s.calls t).cond = some c ∧ s.removed t = false

structure Inv (s : SyncSystem) : Prop where
  tasks : s.Tasks
  mutexes : ∀ m, ∃ chain, s.MutexOk m chain
  nodes : s.CondNodes
  conds : ∀ c, ∃ order, s.CondOk c 0 order

end SyncSystem

end HevTaskSystem
