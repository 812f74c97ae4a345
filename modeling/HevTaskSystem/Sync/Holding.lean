import HevTaskSystem.Sync.Run

/-! A mutex as the code that locks and unlocks it sees it.

For that code a task is in the lock or out of it, and has the mutex or not. No operation of
one task changes that for another.
-/

set_option autoImplicit false

namespace HevTaskSystem

namespace SyncSystem

/-- The operation of a task changes its own call and its own hold of the mutex only, and ends
no task. -/
structure Touches (m t : Addr) (s next : SyncSystem) : Prop where
  inv : next.Inv
  calls : ∀ u, u ≠ t → next.calls u = s.calls u
  held : ∀ u, u ≠ t → next.held m u = s.held m u
  active : ∀ u, s.Active u → next.Active u

variable {s next : SyncSystem} {m t u : Addr}

theorem Inv.touches_self (inv : s.Inv) : Touches m t s s :=
  ⟨inv, fun _ _ => rfl, fun _ _ => rfl, fun _ active => active⟩

theorem active_update {value : TaskState} (alive : value = .running ∨ value = .waiting) (active : s.Active u) :
    Function.update s.pool t (some value) u = some .running ∨
      Function.update s.pool t (some value) u = some .waiting := by
  by_cases same : u = t
  · rw [same, Function.update_self]
    rcases alive with rfl | rfl
    · exact .inl rfl
    · exact .inr rfl
  · rw [Function.update_of_ne same]
    exact active

theorem active_of_wakeup {pool : TaskPool} (woken : s.pool.wakeup t = some pool) (active : s.Active u) :
    pool u = some .running ∨ pool u = some .waiting := by
  cases state : s.pool t with
  | none => simp [TaskPool.wakeup, state] at woken
  | some value =>
    cases value with
    | stopped => simp [TaskPool.wakeup, state] at woken
    | running =>
      cases woken.symm.trans (TaskPool.wakeup_eq (.inl state))
      exact active_update (.inl rfl) active
    | waiting =>
      cases woken.symm.trans (TaskPool.wakeup_eq (.inr state))
      exact active_update (.inl rfl) active

theorem Inv.lock_user (inv : s.Inv) (running : s.pool t = some .running) (idle : s.calls t = .idle) :
    ∃ next reply, s.lock t m .user = some (next, reply) ∧ Touches m t s next ∧
      ((reply = .blocked ∧ next.calls t = .lock m .user ∧ next.held m t = s.held m t) ∨
        (reply ≠ .blocked ∧ next.calls t = .idle ∧ next.held m t = true)) := by
  have kept {next : SyncSystem} {reply : TaskReply} (result : s.lock t m .user = some (next, reply)) :
      next.Inv := by
    have ready : (SyncOp.lock t m).Ready s := ⟨running, idle⟩
    exact (SyncOp.outcome inv ready (show SyncOp.apply 0 s (.lock t m) = _ from result)).1
  by_cases taken : (s.mutex m).locker ≠ 0
  · have result : s.lock t m .user = some (((s.linkWaiter t m).setCall t (.lock m .user)).sleep t, .blocked) := by
      rw [SyncSystem.lock, mutexLock, if_pos taken]
    refine ⟨_, _, result, ⟨kept result, fun u other => ?_, fun _ _ => rfl,
      fun u active => active_update (.inr rfl) active⟩, .inl ⟨rfl, ?_, rfl⟩⟩
    · exact Function.update_of_ne other _ _
    · exact Function.update_self _ _ _
  · have result : s.lock t m .user = some ((s.take t m).setCall t .idle, .value 0) := by
      rw [SyncSystem.lock, mutexLock, if_neg taken]
      rfl
    refine ⟨_, _, result, ⟨kept result, fun u other => ?_, fun u other => ?_,
      fun _ active => active⟩, .inr ⟨by decide, ?_, ?_⟩⟩
    · exact Function.update_of_ne other _ _
    · simp [other]
    · exact Function.update_self _ _ _
    · simp

theorem Inv.resume_user (inv : s.Inv) (running : s.pool t = some .running) (blocked : s.calls t = .lock m .user) :
    ∃ next reply, s.resume t 0 = some (next, reply) ∧ Touches m t s next ∧
      ((reply = .blocked ∧ next.calls t = .lock m .user ∧ next.held m t = s.held m t) ∨
        (reply ≠ .blocked ∧ next.calls t = .idle ∧ next.held m t = true)) := by
  have kept {next : SyncSystem} {reply : TaskReply} (result : s.resume t 0 = some (next, reply)) : next.Inv := by
    obtain ⟨next', reply', result', inv', -⟩ := inv.resumeLock running blocked 0
    cases result.symm.trans result'
    exact inv'
  by_cases again : (s.mutex m).locker ≠ 0 ∨ (s.mutex m).waiters ≠ t
  · have result : s.resume t 0 = some (s.sleep t, .blocked) := by
      simp [resume, blocked, mutexLockResume, again]
    refine ⟨_, _, result, ⟨kept result, fun _ _ => rfl, fun _ _ => rfl,
      fun _ active => active_update (.inr rfl) active⟩, .inl ⟨rfl, blocked, rfl⟩⟩
  · obtain ⟨free, first⟩ : (s.mutex m).locker = 0 ∧ (s.mutex m).waiters = t := by simpa [not_or] using again
    obtain ⟨node, live, -⟩ := inv.pop running blocked free first
    have result : s.resume t 0 =
        some ((((s.unlinkWaiter t m node).setCall t .idle).take t m).setCall t .idle, .value 0) := by
      simp [resume, blocked, mutexLockResume, free, first, live, SyncSystem.lockReturn, LockCaller.call]
    refine ⟨_, _, result, ⟨kept result, fun u other => ?_, fun u other => ?_,
      fun _ active => active⟩, .inr ⟨by decide, ?_, ?_⟩⟩
    · simp [other]
    · simp [other]
    · simp
    · simp

theorem Inv.unlock_user (inv : s.Inv) (idle : s.calls t = .idle) (held : s.held m t = true) :
    ∃ next, s.mutexUnlock t m = some next ∧ Touches m t s next ∧ next.calls t = .idle ∧ next.held m t = false := by
  obtain ⟨next, result, kept, frame⟩ := inv.mutexUnlock held
  have view : next.held = (s.release t m).held ∧ ∀ u, s.Active u → next.Active u := by
    by_cases some : (s.mutex m).waiters = 0
    · have same : s.mutexUnlock t m = .some (s.release t m) := by simp [SyncSystem.mutexUnlock, some]
      cases result.symm.trans same
      exact ⟨rfl, fun _ active => active⟩
    · simp only [SyncSystem.mutexUnlock, release_mutex, Function.update_self, ne_eq, some, not_false_eq_true, if_true,
        Option.bind_eq_bind, Option.bind_eq_some_iff, Option.pure_def, Option.some.injEq] at result
      obtain ⟨node, -, pool, woken, rfl⟩ := result
      exact ⟨rfl, fun _ active => active_of_wakeup woken active⟩
  refine ⟨next, result, ⟨kept, fun u _ => congrFun frame.calls u, fun u other => ?_, view.2⟩, ?_, ?_⟩
  · simp [view.1, other]
  · rw [frame.calls, idle]
  · simp [view.1]

end SyncSystem

end HevTaskSystem
