import HevTaskSystem.Scheduler.Pool

/-! Mutexes and the tasks that use them, `kern/sync/hev-task-mutex.c`.

A node lives on the stack of the task that waits, from its link to the return of the
function; it is identified with that task, and an access to a node that is no longer
there is a fault. Where a task yields inside an operation, its place is kept as the
call that goes on when the task is resumed.
-/

set_option autoImplicit false

namespace HevTaskSystem

structure MutexNode where
  next : Addr
  task : Addr
  deriving DecidableEq, Repr

structure HevTaskMutex where
  locker : Nat
  waiters : Addr
  deriving DecidableEq, Repr

def mutexInit : HevTaskMutex := ⟨0, 0⟩

structure CondNode where
  prev : Addr
  next : Addr
  task : Addr
  deriving DecidableEq, Repr

inductive LockCaller where
  | user
  | wait (c : Addr)
  | timedwait (c : Addr)
  deriving DecidableEq, Repr

inductive SyncCall where
  | idle
  | lock (m : Addr) (caller : LockCaller)
  | wait (c m : Addr)
  | timedwait (c m : Addr) (milliseconds : Nat)
  deriving DecidableEq, Repr

/-- All mutexes and condition variables, with the tasks. `waiters` is the only field of
`HevTaskCond`. The last two fields are none of the source and no operation reads them:
the tasks between a lock and its unlock, and the tasks whose last wait was ended by a
signal or a broadcast. -/
structure SyncSystem where
  pool : TaskPool
  calls : Addr → SyncCall
  mutex : Addr → HevTaskMutex
  mutexNode : Addr → Option MutexNode
  waiters : Addr → Addr
  condNode : Addr → Option CondNode
  held : Addr → Addr → Bool
  removed : Addr → Bool

def LockCaller.call (m : Addr) : LockCaller → SyncCall
  | .user => .idle
  | .wait c => .wait c m
  | .timedwait c => .timedwait c m 0

namespace SyncSystem

@[simps -fullyApplied]
def setMutex (s : SyncSystem) (m : Addr) (mutex : HevTaskMutex) : SyncSystem :=
  { s with mutex := Function.update s.mutex m mutex }

@[simps -fullyApplied]
def setCall (s : SyncSystem) (t : Addr) (call : SyncCall) : SyncSystem :=
  { s with calls := Function.update s.calls t call }

@[simps -fullyApplied]
def setHeld (s : SyncSystem) (m t : Addr) (value : Bool) : SyncSystem :=
  { s with held := Function.update s.held m (Function.update (s.held m) t value) }

/-- `hev_task_yield (HEV_TASK_WAITIO)` of the task `t`, until it is resumed. -/
@[simps -fullyApplied]
def sleep (s : SyncSystem) (t : Addr) : SyncSystem := { s with pool := s.pool.wait t }

/-- `self->locker = 1` -/
@[simps! -fullyApplied]
def take (s : SyncSystem) (t m : Addr) : SyncSystem :=
  (s.setMutex m { s.mutex m with locker := 1 }).setHeld m t true

/-- `self->locker = 0` -/
@[simps! -fullyApplied]
def release (s : SyncSystem) (t m : Addr) : SyncSystem :=
  (s.setMutex m { s.mutex m with locker := 0 }).setHeld m t false

/-- The node of `t` becomes the first waiter. -/
@[simps! -fullyApplied]
def linkWaiter (s : SyncSystem) (t m : Addr) : SyncSystem :=
  let s := { s with mutexNode := Function.update s.mutexNode t (some ⟨(s.mutex m).waiters, t⟩) }
  s.setMutex m { s.mutex m with waiters := t }

/-- `self->waiters = node.next`; the node of `t` is not used any more. -/
@[simps! -fullyApplied]
def unlinkWaiter (s : SyncSystem) (t m : Addr) (node : MutexNode) : SyncSystem :=
  let s := s.setMutex m { s.mutex m with waiters := node.next }
  { s with mutexNode := Function.update s.mutexNode t none }

/-- `hev_task_mutex_lock` up to its first yield; the flag is set if it returns before. -/
def mutexLock (s : SyncSystem) (t m : Addr) (caller : LockCaller) : SyncSystem × Bool :=
  if (s.mutex m).locker ≠ 0 then
    (((s.linkWaiter t m).setCall t (.lock m caller)).sleep t, false)
  else
    (s.take t m, true)

def mutexLockResume (s : SyncSystem) (t m : Addr) (caller : LockCaller) : Option (SyncSystem × Bool) :=
  if (s.mutex m).locker ≠ 0 ∨ (s.mutex m).waiters ≠ t then
    some (s.sleep t, false)
  else do
    let node ← s.mutexNode t
    return (((s.unlinkWaiter t m node).setCall t (caller.call m)).take t m, true)

def mutexTrylock (s : SyncSystem) (t m : Addr) : SyncSystem × TaskReply :=
  if (s.mutex m).locker ≠ 0 then (s, .value (-1)) else (s.take t m, .value 0)

def mutexUnlock (s : SyncSystem) (t m : Addr) : Option SyncSystem :=
  let s := s.release t m
  if (s.mutex m).waiters ≠ 0 then do
    let node ← s.mutexNode (s.mutex m).waiters
    let pool ← s.pool.wakeup node.task
    return { s with pool }
  else
    some s

end SyncSystem

end HevTaskSystem
