import HevTaskSystem.Sync.Waiters

/-! Every operation keeps the invariant, and what it comes to.

No operation faults in a reachable state. Mutual exclusion, the exact lists of waiters
and the results of the waits follow for every interleaving.
-/

set_option autoImplicit false

namespace HevTaskSystem

open Foundation

namespace SyncSystem

variable {s next : SyncSystem} {t m c : Addr} {caller : LockCaller} {reply : TaskReply}

/-! ## Locks -/

/-- The task yields inside its call, or the call returns: a wait that no signaller has
removed with -1, everything else with 0. -/
def Returns (s : SyncSystem) (t : Addr) (cond : Option Addr) (next : SyncSystem) (reply : TaskReply) : Prop :=
  (reply = .blocked ∧ (next.calls t).cond = cond) ∨
    (reply = .value (if cond ≠ none ∧ s.removed t = false then -1 else 0) ∧ next.calls t = .idle)

/-- The task runs, is not blocked in a lock, and waits for what the caller of the lock waits for. -/
structure Locks (s : SyncSystem) (t : Addr) (caller : LockCaller) : Prop where
  running : s.pool t = some .running
  outside : (s.calls t).mutex = none
  cond : (s.calls t).cond = caller.cond
  signalled : ∀ c, caller = .wait c → s.removed t = true

theorem Inv.lockReturn (inv : s.Inv) (locks : s.Locks t caller) :
    ∃ next reply, s.lockReturn t caller = some (next, reply) ∧ next.Inv ∧ next.removed = s.removed ∧
      s.Returns t caller.cond next reply := by
  cases caller with
  | user =>
    refine ⟨_, _, rfl, inv.setCall locks.running locks.outside rfl locks.cond.symm, rfl, .inr ⟨?_, ?_⟩⟩
    · simp [LockCaller.cond]
    · simp
  | wait c =>
    have removed := locks.signalled c rfl
    refine ⟨_, _, rfl, inv.condReturn locks.outside removed, rfl, .inr ⟨?_, ?_⟩⟩
    · simp [removed]
    · simp [SyncSystem.condReturn]
  | timedwait c =>
    have unfinished : (s.calls t).cond = some c := locks.cond
    obtain ⟨node, live, task⟩ := inv.nodes.live t (by simp [unfinished])
    have nonnull := inv.tasks.nonnull (.inl locks.running)
    -- The task of the node tells whether a signaller has removed it.
    cases removed : s.removed t with
    | true =>
      have null : node.task = 0 := by simpa [removed] using task
      refine ⟨s.condReturn t, .value 0, ?_, inv.condReturn locks.outside removed, rfl, .inr ⟨?_, ?_⟩⟩
      · simp [SyncSystem.lockReturn, live, null]
      · simp [removed]
      · simp [SyncSystem.condReturn]
    | false =>
      have some : node.task ≠ 0 := by simpa [task, removed] using nonnull
      obtain ⟨mid, unlink, kept, same, _⟩ := inv.timedOut locks.outside unfinished removed
      refine ⟨mid.condReturn t, .value (-1), ?_, kept, same, .inr ⟨?_, ?_⟩⟩
      · simp [SyncSystem.lockReturn, live, some, unlink]
      · simp [removed, LockCaller.cond]
      · simp [SyncSystem.condReturn]

theorem Inv.lock (inv : s.Inv) (locks : s.Locks t caller) :
    ∃ next reply, s.lock t m caller = some (next, reply) ∧ next.Inv ∧ next.removed = s.removed ∧
      s.Returns t caller.cond next reply := by
  by_cases taken : (s.mutex m).locker ≠ 0
  · refine ⟨((s.linkWaiter t m).setCall t (.lock m caller)).sleep t, .blocked,
      by rw [SyncSystem.lock, mutexLock, if_pos taken], ?_, rfl, .inl ⟨rfl, ?_⟩⟩
    · exact inv.blocked locks.running taken locks.outside locks.cond.symm locks.signalled
    · simp [SyncCall.cond]
  · obtain ⟨next, reply, run, after⟩ := (inv.take (not_not.mp taken)).lockReturn (t := t)
      ⟨locks.running, locks.outside, locks.cond, locks.signalled⟩
    exact ⟨next, reply, by rw [SyncSystem.lock, mutexLock, if_neg taken]; exact run, after⟩

theorem Inv.resumeLock (inv : s.Inv) (running : s.pool t = some .running) (blocked : s.calls t = .lock m caller)
    (left : Nat) : ∃ next reply, s.resume t left = some (next, reply) ∧ next.Inv ∧ next.removed = s.removed ∧
      s.Returns t caller.cond next reply := by
  simp only [resume, blocked]
  by_cases again : (s.mutex m).locker ≠ 0 ∨ (s.mutex m).waiters ≠ t
  · refine ⟨s.sleep t, .blocked, by simp [mutexLockResume, if_pos again], inv.sleep running ⟨fun m' here => ?_, ?_⟩,
      rfl, .inl ⟨rfl, by simp [blocked, SyncCall.cond]⟩⟩
    · obtain rfl : m = m' := by simpa [blocked, SyncCall.mutex] using here
      exact fun free => again.resolve_left (not_not.mpr free)
    · simp [blocked, SyncCall.Waits]
  · obtain ⟨free, first⟩ : (s.mutex m).locker = 0 ∧ (s.mutex m).waiters = t := by simpa [not_or] using again
    obtain ⟨node, live, kept⟩ := inv.pop running blocked free first
    have locks : (((s.unlinkWaiter t m node).setCall t (caller.call m)).take t m).Locks t caller := by
      refine ⟨running, ?_, ?_, fun c same => ?_⟩
      · simpa using caller.call_mutex m
      · simpa using caller.call_cond m
      · exact inv.nodes.signalled t m c (blocked.trans (by rw [same]))
    obtain ⟨next, reply, run, after⟩ := kept.lockReturn locks
    exact ⟨next, reply, by simp [mutexLockResume, free, first, live, run], after⟩

/-! ## Waits -/

theorem Inv.condTimedwaitLoop (inv : s.Inv) (running : s.pool t = some .running)
    (outside : (s.calls t).mutex = none) (cond : (s.calls t).cond = some c) (milliseconds : Nat) :
    ∃ next reply, s.condTimedwaitLoop t c m milliseconds = some (next, reply) ∧ next.Inv ∧
      next.removed = s.removed ∧ s.Returns t (some c) next reply := by
  obtain ⟨node, live, task⟩ := inv.nodes.live t (by simp [cond])
  simp only [SyncSystem.condTimedwaitLoop, live, Option.bind_eq_bind, Option.bind_some]
  by_cases again : milliseconds ≠ 0 ∧ node.task ≠ 0
  · rw [if_pos again]
    refine ⟨_, .blocked, rfl, ?_, rfl, .inl ⟨rfl, by simp [SyncCall.cond]⟩⟩
    have moved := @Inv.setCall s t (.timedwait c m milliseconds) inv running outside rfl cond.symm
    refine moved.sleep running ⟨fun m' here => ?_, fun _ => ?_⟩
    · simp [SyncCall.mutex] at here
    · have kept : s.removed t ≠ true := fun removed => again.2 (by simpa [removed] using task)
      simpa using kept
  · rw [if_neg again]
    exact inv.lock ⟨running, outside, cond, fun _ other => by cases other⟩

theorem Inv.condWaitResume (inv : s.Inv) (running : s.pool t = some .running) (waits : s.calls t = .wait c m) :
    ∃ next reply, s.condWaitResume t c m = some (next, reply) ∧ next.Inv ∧ next.removed = s.removed ∧
      s.Returns t (some c) next reply := by
  have cond : (s.calls t).cond = some c := by rw [waits]; rfl
  have outside : (s.calls t).mutex = none := by rw [waits]; rfl
  obtain ⟨node, live, task⟩ := inv.nodes.live t (by simp [cond])
  simp only [SyncSystem.condWaitResume, live, Option.bind_eq_bind, Option.bind_some]
  by_cases again : node.task ≠ 0
  · rw [if_pos again]
    refine ⟨_, .blocked, rfl, inv.sleep running ⟨fun m' here => ?_, fun _ => ?_⟩, rfl, .inl ⟨rfl, cond⟩⟩
    · simp [outside] at here
    · have kept : s.removed t ≠ true := fun removed => again (by simpa [removed] using task)
      simpa using kept
  · rw [if_neg again]
    refine inv.lock ⟨running, outside, cond, fun _ _ => ?_⟩
    by_contra kept
    refine again ?_
    simpa [task, kept] using inv.tasks.nonnull (.inl running)

theorem Inv.startWait (inv : s.Inv) (running : s.pool t = some .running) (idle : s.calls t = .idle)
    (held : s.held m t = true) {call : SyncCall} (cond : call.cond = some c) (outside : call.mutex = none) :
    ∃ mid next, s.condLink t c call = some mid ∧ mid.mutexUnlock t m = some next ∧ next.Inv ∧
      next.pool t = some .running ∧ next.calls t = call ∧ next.removed = Function.update s.removed t false := by
  obtain ⟨mid, link, linked⟩ := @Inv.condLinked s t c call inv idle
  have kept := inv.condLink running idle cond outside linked
  obtain ⟨next, unlock, after, frame⟩ := kept.mutexUnlock (t := t) (m := m) (by rw [linked.held]; exact held)
  refine ⟨mid, next, link, unlock, after, ?_, ?_, ?_⟩
  · exact frame.running t (by rw [linked.pool]; exact running)
  · rw [frame.calls, linked.calls, Function.update_self]
  · rw [frame.removed, linked.removed]

theorem Inv.condWait (inv : s.Inv) (running : s.pool t = some .running) (idle : s.calls t = .idle)
    (held : s.held m t = true) : ∃ next, s.condWait t c m = some (next, .blocked) ∧ next.Inv ∧
      next.removed = Function.update s.removed t false := by
  obtain ⟨mid, next, link, unlock, after, up, call, removed⟩ :=
    @Inv.startWait s t m c inv running idle held (.wait c m) rfl rfl
  refine ⟨next.sleep t, by simp [SyncSystem.condWait, link, unlock], after.sleep up ⟨fun m' here => ?_, fun _ => ?_⟩,
    removed⟩
  · simp [call, SyncCall.mutex] at here
  · simp [removed]

theorem Inv.condTimedwait (inv : s.Inv) (running : s.pool t = some .running) (idle : s.calls t = .idle)
    (held : s.held m t = true) (milliseconds : Nat) :
    ∃ next reply, s.condTimedwait t c m milliseconds = some (next, reply) ∧ next.Inv ∧
      next.removed = Function.update s.removed t false ∧ (reply = .blocked ∨ reply = .value (-1)) := by
  obtain ⟨mid, ready, link, unlock, after, up, call, removed⟩ :=
    @Inv.startWait s t m c inv running idle held (.timedwait c m milliseconds) rfl rfl
  obtain ⟨next, reply, run, kept, same, returns⟩ :=
    after.condTimedwaitLoop (m := m) up (by rw [call]; rfl) (by rw [call]; rfl) milliseconds
  refine ⟨next, reply, by simp [SyncSystem.condTimedwait, link, unlock, run], kept, same.trans removed, ?_⟩
  rcases returns with ⟨blocked, _⟩ | ⟨value, _⟩
  · exact .inl blocked
  · exact .inr (by simpa [removed] using value)

/-- The waiters of a condition variable as a reader of the source sees them: a doubly
linked list of the nodes of the unfinished waits whose task is not NULL. -/
structure Waiters (s : SyncSystem) (c : Addr) (order : List Addr) : Prop where
  head : s.waiters c = order.headD 0
  linked : Linked s.condNext s.condPrev 0 0 order
  nodup : order.Nodup
  mem : ∀ t, t ∈ order ↔ (s.calls t).cond = some c ∧ ∃ node, s.condNode t = some node ∧ node.task ≠ 0

theorem Inv.task_iff (inv : s.Inv) (unfinished : (s.calls t).cond = some c) :
    (∃ node, s.condNode t = some node ∧ node.task ≠ 0) ↔ s.removed t = false := by
  obtain ⟨node, live, task⟩ := inv.nodes.live t (by simp [unfinished])
  have nonnull := inv.tasks.nonnull_of_call (busy_of_cond unfinished)
  cases removed : s.removed t <;> simp [live, task, removed, nonnull]

theorem Inv.waiters_iff (inv : s.Inv) {order : List Addr} : s.CondOk c 0 order ↔ s.Waiters c order := by
  have mem : ∀ t, ((s.calls t).cond = some c ∧ ∃ node, s.condNode t = some node ∧ node.task ≠ 0) ↔
      ((s.calls t).cond = some c ∧ s.removed t = false) := fun t => and_congr_right fun unfinished =>
    inv.task_iff unfinished
  constructor
  · intro ok
    exact ⟨ok.head, ok.linked, ok.nodup, fun t => (ok.mem t).trans (mem t).symm⟩
  · intro waiters
    exact ⟨waiters.head, waiters.linked, waiters.nodup, fun t => (waiters.mem t).trans (mem t)⟩

end SyncSystem

namespace SyncOp

open SyncSystem

variable {s next : SyncSystem} {op : SyncOp} {reply : TaskReply} {fuel : Nat}

theorem apply_stable : Stable fun fuel => op.apply fuel s := by
  cases op with
  | broadcast t c => exact .bind .loop fun _ => .const _
  | _ => exact .const _

/-- What the operation does to the waits: which of them it begins, which ones it removes
from their list, and what the call of the task returns. -/
def Outcome (s next : SyncSystem) (reply : TaskReply) : SyncOp → Prop
  | .resume t _ => next.removed = s.removed ∧ s.Returns t (s.calls t).cond next reply
  | .condWait t _ _ => next.removed = Function.update s.removed t false ∧ reply = .blocked
  | .condTimedwait t _ _ _ => next.removed = Function.update s.removed t false ∧
      (reply = .blocked ∨ reply = .value (-1))
  | .signal _ c => ∀ order, s.Waiters c order → next.Waiters c order.tail ∧ s.Removed (order.take 1) next
  | .broadcast _ c => ∀ order, s.Waiters c order → next.Waiters c [] ∧ s.Removed order next
  | .start _ | .exit _ | .wait _ | .wake _ | .lock _ _ | .trylock _ _ | .unlock _ _ => next.removed = s.removed

theorem progress (inv : s.Inv) (ready : op.Ready s) :
    ∃ fuel next reply, op.apply fuel s = some (next, reply) ∧ next.Inv ∧ op.Outcome s next reply := by
  cases op with
  | start t =>
    exact ⟨0, _, _, rfl, inv.setPool ready.1 (fun _ => .inl rfl) (.inl rfl), rfl⟩
  | exit t =>
    have nonnull := inv.tasks.nonnull (.inl ready.1)
    exact ⟨0, _, _, rfl, inv.setPool nonnull (fun busy => absurd ready.2 busy) (.inr (.of_idle ready.2)), rfl⟩
  | wait t => exact ⟨0, _, _, rfl, inv.sleep ready.1 (.of_idle ready.2), rfl⟩
  | wake t =>
    have active : s.Active t := .inr ready
    refine ⟨0, { s with pool := Function.update s.pool t (some .running) }, .void, ?_, inv.awaken active, rfl⟩
    simp [apply, TaskPool.wakeup_eq active]
  | resume t left =>
    obtain ⟨running, busy⟩ := ready
    have resumed : ∃ next reply, s.resume t left = some (next, reply) ∧ next.Inv ∧ next.removed = s.removed ∧
        s.Returns t (s.calls t).cond next reply := by
      cases call : s.calls t with
      | idle => exact absurd call busy
      | lock m caller => exact inv.resumeLock running call left
      | wait c m =>
        simp only [SyncSystem.resume, call]
        exact inv.condWaitResume running call
      | timedwait c m milliseconds =>
        simp only [SyncSystem.resume, call]
        exact inv.condTimedwaitLoop running (by rw [call]; rfl) (by rw [call]; rfl) left
    obtain ⟨next, reply, run, kept, outcome⟩ := resumed
    exact ⟨0, next, reply, run, kept, outcome⟩
  | lock t m =>
    obtain ⟨running, idle⟩ := ready
    obtain ⟨next, reply, run, kept, removed, _⟩ := inv.lock (m := m)
      ⟨running, by rw [idle]; rfl, by rw [idle]; rfl, fun c (other : LockCaller.user = _) => by cases other⟩
    exact ⟨0, next, reply, run, kept, removed⟩
  | trylock t m =>
    by_cases taken : (s.mutex m).locker ≠ 0
    · exact ⟨0, s, .value (-1), by simp [apply, mutexTrylock, taken], inv, rfl⟩
    · have free := not_not.mp taken
      exact ⟨0, s.take t m, .value 0, by simp [apply, mutexTrylock, free], inv.take free, rfl⟩
  | unlock t m =>
    obtain ⟨next, run, kept, frame⟩ := inv.mutexUnlock ready.2
    exact ⟨0, next, .value 0, by simp [apply, run], kept, frame.removed⟩
  | condWait t c m =>
    obtain ⟨⟨running, idle⟩, held⟩ := ready
    obtain ⟨next, run, kept, removed⟩ := inv.condWait (c := c) running idle held
    exact ⟨0, next, .blocked, run, kept, removed, rfl⟩
  | condTimedwait t c m milliseconds =>
    obtain ⟨⟨running, idle⟩, held⟩ := ready
    obtain ⟨next, reply, run, kept, outcome⟩ := inv.condTimedwait (c := c) running idle held milliseconds
    exact ⟨0, next, reply, run, kept, outcome⟩
  | signal t c =>
    obtain ⟨order, ok⟩ := inv.conds c
    obtain ⟨next, run, kept, _⟩ := (inv.at ok).condSignal
    refine ⟨0, next, .value 0, by simp [apply, run], kept.inv, fun order waiters => ?_⟩
    obtain ⟨next', run', kept', removed⟩ := (inv.at (inv.waiters_iff.mpr waiters)).condSignal
    cases run.symm.trans run'
    exact ⟨kept'.inv.waiters_iff.mp kept'.here, removed⟩
  | broadcast t c =>
    -- The order of the invariant gives the fuel, and the one asked for gives the outcome.
    obtain ⟨order, ok⟩ := inv.conds c
    obtain ⟨next, run, kept, _⟩ := (inv.at ok).condBroadcast (Nat.lt_succ_self order.length)
    refine ⟨order.length + 1, next, .value 0, by simp [apply, run], kept.inv, fun order' waiters => ?_⟩
    obtain ⟨next', run', kept', removed⟩ :=
      (inv.at (inv.waiters_iff.mpr waiters)).condBroadcast (Nat.lt_succ_self order'.length)
    have stable : Stable fun fuel => s.condBroadcast fuel c := .loop
    cases stable.unique run run'
    exact ⟨kept'.inv.waiters_iff.mp kept'.here, removed⟩

theorem outcome (inv : s.Inv) (ready : op.Ready s) (run : op.apply fuel s = some (next, reply)) :
    next.Inv ∧ op.Outcome s next reply := by
  obtain ⟨fuel', next', reply', run', after⟩ := progress inv ready
  cases apply_stable.unique run run'
  exact after

theorem reply_held {t m : Addr} (run : op.apply fuel s = some (next, reply))
    (locks : op = .lock t m ∨ op = .trylock t m ∨ (s.calls t = .lock m .user ∧ ∃ left, op = .resume t left)) :
    (reply = .value 0 ∧ next.held m t = true) ∨ (reply ≠ .value 0 ∧ next.held m t = s.held m t) := by
  rcases locks with rfl | rfl | ⟨blocked, left, rfl⟩
  · simp only [apply, SyncSystem.lock, mutexLock] at run
    by_cases taken : (s.mutex m).locker ≠ 0
    · rw [if_pos taken] at run
      cases run
      exact .inr ⟨by decide, rfl⟩
    · rw [if_neg taken] at run
      cases run
      exact .inl ⟨rfl, by simp⟩
  · simp only [apply, mutexTrylock] at run
    split at run <;> cases run
    · exact .inr ⟨by decide, rfl⟩
    · exact .inl ⟨rfl, by simp⟩
  · simp only [apply, SyncSystem.resume, blocked, mutexLockResume] at run
    by_cases again : (s.mutex m).locker ≠ 0 ∨ (s.mutex m).waiters ≠ t
    · rw [if_pos again] at run
      cases run
      exact .inr ⟨by decide, rfl⟩
    · rw [if_neg again] at run
      simp only [Option.bind_eq_bind, Option.bind_eq_some_iff] at run
      obtain ⟨⟨mid, taken⟩, ⟨node, _, took⟩, run⟩ := run
      cases took
      cases run
      exact .inl ⟨rfl, by simp⟩

end SyncOp

theorem syncSystem_inv {ops : List SyncOp} {s : SyncSystem} (run : syncSystem.Run ops s) : s.Inv := by
  refine run.invariant SyncSystem.Inv ?_ ?_
  · rintro s ⟨pool, calls, mutex, waiters, nodes, held⟩
    have busy : ∀ t, s.calls t ≠ .idle → False := fun t busy => busy (calls t)
    refine ⟨⟨pool 0, fun t here => (busy t here).elim⟩, fun m => ⟨[], ?_⟩, ?_, fun c => ⟨[], ?_⟩⟩
    · refine ⟨by simp [SyncSystem.Chained, mutex, mutexInit], List.nodup_nil, fun t => ?_, .inl ⟨?_, held m⟩, ?_⟩
      · simp [calls, SyncCall.mutex]
      · simp [mutex, mutexInit]
      · simp [mutex, mutexInit]
    · exact ⟨fun t => by simp [calls, SyncCall.cond], fun t _ => nodes t, fun t => by simp [calls, SyncCall.Waits],
        fun t m c => by simp [calls]⟩
    · exact ⟨waiters c, trivial, List.nodup_nil, fun t => by simp [calls, SyncCall.cond]⟩
  · rintro s op next inv ⟨ready, fuel, reply, step⟩
    exact (SyncOp.outcome inv ready step).1

/-! ## Mutual exclusion and bookkeeping -/

/-- At most one task is between a lock and its unlock, and `locker` tells whether there is
one. The chain holds the tasks blocked in the lock, each once, and if the mutex is free,
the task of the first waiter runs. No operation faults, and the reply 0 of a lock or a trylock
means that the task has the mutex now. -/
theorem mutex_exclusion {ops : List SyncOp} {s : SyncSystem} (run : syncSystem.Run ops s) (m : Addr) :
    (∀ t u, s.held m t = true → s.held m u = true → t = u) ∧
      ((s.mutex m).locker = 1 ↔ ∃ t, s.held m t = true) ∧ ((s.mutex m).locker = 0 ∨ (s.mutex m).locker = 1) ∧
      (∃ chain, SyncSystem.Chained s.mutexNode (s.mutex m).waiters chain ∧ chain.Nodup ∧
        ∀ t, t ∈ chain ↔ ∃ caller, s.calls t = .lock m caller) ∧
      ((s.mutex m).locker = 0 → (s.mutex m).waiters ≠ 0 →
        ∃ node, s.mutexNode (s.mutex m).waiters = some node ∧ s.pool node.task = some .running) ∧
      (∀ op : SyncOp, op.Ready s → ∃ fuel next reply, op.apply fuel s = some (next, reply)) ∧
      ∀ (t : Addr) (op : SyncOp) (fuel : Nat) (next : SyncSystem) (reply : TaskReply),
        op.apply fuel s = some (next, reply) →
        op = .lock t m ∨ op = .trylock t m ∨ (s.calls t = .lock m .user ∧ ∃ left, op = .resume t left) →
        (reply = .value 0 ∧ next.held m t = true) ∨ (reply ≠ .value 0 ∧ next.held m t = s.held m t) := by
  have inv := syncSystem_inv run
  obtain ⟨chain, ok⟩ := inv.mutexes m
  refine ⟨fun t u first second => ?_, ?_, ?_, ⟨chain, ok.chained, ok.nodup, fun t => ?_⟩, fun free nonnull => ?_,
    fun op ready => ?_, fun t op fuel next reply => SyncOp.reply_held⟩
  · rcases ok.holder with ⟨_, none⟩ | ⟨_, holder, only⟩
    · exact absurd first (by simp [none t])
    · exact ((only t).mp first).trans ((only u).mp second).symm
  · rcases ok.holder with ⟨free, none⟩ | ⟨taken, holder, only⟩
    · simp [free, none]
    · exact iff_of_true taken ⟨holder, (only holder).mpr rfl⟩
  · rcases ok.holder with ⟨free, _⟩ | ⟨taken, _⟩
    · exact .inl free
    · exact .inr taken
  · rw [ok.mem t]
    cases s.calls t <;> simp [SyncCall.mutex]
  · have awake := ok.awake free nonnull
    have chained := ok.chained
    cases chain with
    | nil => exact absurd chained nonnull
    | cons first rest =>
      obtain ⟨same, next, node, _⟩ := chained
      rw [same] at awake ⊢
      exact ⟨_, node, awake⟩
  · obtain ⟨fuel, next, reply, step, _⟩ := SyncOp.progress inv ready
    exact ⟨fuel, next, reply, step⟩

theorem sync_step {ops : List SyncOp} {s next : SyncSystem} {reply : TaskReply} (run : syncSystem.Run ops s)
    (op : SyncOp) (ready : op.Ready s) (fuel : Nat) (applied : op.apply fuel s = some (next, reply)) :
    syncSystem.Run (ops ++ [op]) next :=
  run.step ⟨ready, fuel, reply, applied⟩

/-- A mutex that is unlocked while a task is blocked. -/
theorem mutex_exclusion_pair : ∃ s, syncSystem.Run [.start 4, .start 8, .lock 4 16, .lock 8 16, .unlock 4 16] s ∧
    (s.mutex 16).locker = 0 ∧ (s.mutex 16).waiters = 8 ∧
      ∃ node, s.mutexNode 8 = some node ∧ s.pool node.task = some .running := by
  have run : syncSystem.Run [] .empty := .init SyncSystem.empty_init
  have run := sync_step run (.start 4) ⟨by decide, .inl rfl⟩ 0 rfl
  have run := sync_step run (.start 8) ⟨by decide, .inl rfl⟩ 0 rfl
  have run := sync_step run (.lock 4 16) ⟨rfl, rfl⟩ 0 rfl
  have run := sync_step run (.lock 8 16) ⟨rfl, rfl⟩ 0 rfl
  have run := sync_step run (.unlock 4 16) ⟨⟨rfl, rfl⟩, rfl⟩ 0 rfl
  exact ⟨_, run, rfl, rfl, (mutex_exclusion run 16).2.2.2.2.1 rfl (by decide)⟩

/-- The waiters are a doubly linked list of the unfinished waits whose task is not NULL,
and that is so until a signaller removes the node: a signal removes the first, a broadcast
all. A removed waiter does not sleep in its loop and returns 0; one that was not removed
when it has the mutex again returns -1. A wait that has returned has no node. -/
theorem cond_bookkeeping {ops : List SyncOp} {s : SyncSystem} (run : syncSystem.Run ops s) :
    (∀ c, ∃ order, s.Waiters c order) ∧ (∀ t, (s.calls t).cond = none → s.condNode t = none) ∧
      (∀ t c, (s.calls t).cond = some c →
        ((∃ node, s.condNode t = some node ∧ node.task ≠ 0) ↔ s.removed t = false)) ∧
      (∀ t, (s.calls t).Waits → s.removed t = true → s.pool t = some .running) ∧
      (∀ (op : SyncOp) (fuel : Nat) (next : SyncSystem) (reply : TaskReply), op.Ready s →
        op.apply fuel s = some (next, reply) → op.Outcome s next reply) ∧
      ∀ op : SyncOp, op.Ready s → ∃ fuel next reply, op.apply fuel s = some (next, reply) := by
  have inv := syncSystem_inv run
  refine ⟨fun c => ?_, inv.nodes.dead, fun t c unfinished => inv.task_iff unfinished, inv.nodes.awake,
    fun op fuel next reply ready step => (SyncOp.outcome inv ready step).2, fun op ready => ?_⟩
  · obtain ⟨order, ok⟩ := inv.conds c
    exact ⟨order, inv.waiters_iff.mp ok⟩
  · obtain ⟨fuel, next, reply, step, _⟩ := SyncOp.progress inv ready
    exact ⟨fuel, next, reply, step⟩

/-- Two waiters; a signal removes the second to come. -/
theorem cond_bookkeeping_pair : ∃ s next, syncSystem.Run [.start 4, .start 8, .start 12, .lock 4 16,
    .condTimedwait 4 20 16 5, .lock 8 16, .condTimedwait 8 20 16 5] s ∧
      s.waiters 20 = 8 ∧ s.condNext 8 = 4 ∧ s.condPrev 4 = 8 ∧ next.waiters 20 = 4 ∧ next.condPrev 4 = 0 ∧
      (∃ order, s.Waiters 20 order) ∧ (SyncOp.signal 12 20).Outcome s next (.value 0) := by
  have run : syncSystem.Run [] .empty := .init SyncSystem.empty_init
  have run := sync_step run (.start 4) ⟨by decide, .inl rfl⟩ 0 rfl
  have run := sync_step run (.start 8) ⟨by decide, .inl rfl⟩ 0 rfl
  have run := sync_step run (.start 12) ⟨by decide, .inl rfl⟩ 0 rfl
  have run := sync_step run (.lock 4 16) ⟨rfl, rfl⟩ 0 rfl
  have run := sync_step run (.condTimedwait 4 20 16 5) ⟨⟨rfl, rfl⟩, rfl⟩ 0 rfl
  have run := sync_step run (.lock 8 16) ⟨rfl, rfl⟩ 0 rfl
  have run := sync_step run (.condTimedwait 8 20 16 5) ⟨⟨rfl, rfl⟩, rfl⟩ 0 rfl
  have facts := cond_bookkeeping run
  have signal := facts.2.2.2.2.1 (.signal 12 20) 0 _ _ ⟨rfl, rfl⟩ rfl
  exact ⟨_, _, run, rfl, rfl, rfl, rfl, rfl, facts.1 20, signal⟩

end HevTaskSystem
