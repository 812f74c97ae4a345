import HevTaskSystem.Foundation.Loop
import HevTaskSystem.Sync.Mutex

/-! Condition variables, `kern/sync/hev-task-cond.c`.

The waiters of a condition variable are a doubly linked list of nodes on the stacks of
the waiting tasks. A signaller takes nodes from its head; a waiter that has timed out
takes its own node from wherever it is.
-/

set_option autoImplicit false

namespace HevTaskSystem

open Foundation

namespace SyncSystem

def condStore (s : SyncSystem) (a : Addr) (assign : CondNode → CondNode) : Option SyncSystem := do
  let node ← s.condNode a
  return { s with condNode := Function.update s.condNode a (some (assign node)) }

def condStoreField (s : SyncSystem) (a : Addr) (assign : CondNode → CondNode) : Option SyncSystem :=
  if a ≠ 0 then s.condStore a assign else some s

/-- Both waits up to the unlock: the node of `t` is linked as the first. -/
def condLink (s : SyncSystem) (t c : Addr) (call : SyncCall) : Option SyncSystem := do
  let s := { s with condNode := Function.update s.condNode t (some ⟨0, s.waiters c, t⟩) }
  let s := { s with removed := Function.update s.removed t false }
  let s ← s.condStoreField (s.waiters c) fun first => { first with prev := t }
  return ({ s with waiters := Function.update s.waiters c t }).setCall t call

def condReturn (s : SyncSystem) (t : Addr) : SyncSystem :=
  ({ s with condNode := Function.update s.condNode t none }).setCall t .idle

/-- `hev_task_cond_timedwait` on a node that was not signalled: the node is unlinked. -/
def condUnlink (s : SyncSystem) (t c : Addr) : Option SyncSystem := do
  let node ← s.condNode t
  let s ← s.condStoreField node.prev fun before => { before with next := node.next }
  let node ← s.condNode t
  let s ← s.condStoreField node.next fun after => { after with prev := node.prev }
  let node ← s.condNode t
  if s.waiters c = t then
    return { s with waiters := Function.update s.waiters c node.next }
  else
    return s

/-- What the callers of `hev_task_mutex_lock` do when it returns. -/
def lockReturn (s : SyncSystem) (t : Addr) : LockCaller → Option (SyncSystem × TaskReply)
  | .user => some (s.setCall t .idle, .value 0)
  | .wait _ => some (s.condReturn t, .value 0)
  | .timedwait c => do
    let node ← s.condNode t
    if node.task ≠ 0 then
      let s ← s.condUnlink t c
      return (s.condReturn t, .value (-1))
    else
      return (s.condReturn t, .value 0)

/-- `hev_task_mutex_lock`, and its caller if it returns. -/
def lock (s : SyncSystem) (t m : Addr) (caller : LockCaller) : Option (SyncSystem × TaskReply) :=
  match s.mutexLock t m caller with
  | (s, true) => s.lockReturn t caller
  | (s, false) => some (s, .blocked)

def condWait (s : SyncSystem) (t c m : Addr) : Option (SyncSystem × TaskReply) := do
  let s ← s.condLink t c (.wait c m)
  let s ← s.mutexUnlock t m
  return (s.sleep t, .blocked)

/-- `while (node.task)` of `hev_task_cond_wait`, after a yield. -/
def condWaitResume (s : SyncSystem) (t c m : Addr) : Option (SyncSystem × TaskReply) := do
  let node ← s.condNode t
  if node.task ≠ 0 then
    return (s.sleep t, .blocked)
  else
    s.lock t m (.wait c)

/-- `while (milliseconds && node.task)` of `hev_task_cond_timedwait`. -/
def condTimedwaitLoop (s : SyncSystem) (t c m : Addr) (milliseconds : Nat) : Option (SyncSystem × TaskReply) := do
  let node ← s.condNode t
  if milliseconds ≠ 0 ∧ node.task ≠ 0 then
    return ((s.setCall t (.timedwait c m milliseconds)).sleep t, .blocked)
  else
    s.lock t m (.timedwait c)

def condTimedwait (s : SyncSystem) (t c m : Addr) (milliseconds : Nat) : Option (SyncSystem × TaskReply) := do
  let s ← s.condLink t c (.timedwait c m milliseconds)
  let s ← s.mutexUnlock t m
  s.condTimedwaitLoop t c m milliseconds

def condPop (s : SyncSystem) (c : Addr) : Option SyncSystem := do
  let first := s.waiters c
  let node ← s.condNode first
  let pool ← s.pool.wakeup node.task
  let s ← { s with pool }.condStore first fun node => { node with task := 0 }
  let s := { s with removed := Function.update s.removed first true }
  return { s with waiters := Function.update s.waiters c node.next }

def condSignal (s : SyncSystem) (c : Addr) : Option SyncSystem :=
  if s.waiters c ≠ 0 then do
    let s ← s.condPop c
    s.condStoreField (s.waiters c) fun first => { first with prev := 0 }
  else
    some s

/-- `while (self->waiters)` of `hev_task_cond_broadcast`. -/
def condBroadcastPass (c : Addr) (s : SyncSystem) : Option (Foundation.Flow SyncSystem SyncSystem) :=
  if s.waiters c ≠ 0 then do
    let s ← s.condPop c
    return .next s
  else
    some (.done s)

def condBroadcast (fuel : Nat) (s : SyncSystem) (c : Addr) : Option SyncSystem :=
  loop (condBroadcastPass c) fuel s

/-- The task goes on after its yield; `left` is the result of `hev_task_sleep`. -/
def resume (s : SyncSystem) (t : Addr) (left : Nat) : Option (SyncSystem × TaskReply) :=
  match s.calls t with
  | .idle => none
  | .lock m caller => do
    let (s, taken) ← s.mutexLockResume t m caller
    if taken then s.lockReturn t caller else return (s, .blocked)
  | .wait c m => s.condWaitResume t c m
  | .timedwait c m _ => s.condTimedwaitLoop t c m left

end SyncSystem

end HevTaskSystem
