import HevTaskSystem.Sync.System

/-! What the parts of the operations do to the invariant.

Each operation is a sequence of parts that keep it; only the loop of a broadcast goes
through states in which the first node of the list still has a previous one.
-/

set_option autoImplicit false

namespace HevTaskSystem.SyncSystem

open Foundation

variable {s next : SyncSystem} {t u m c before : Addr} {chain order : List Addr} {call : SyncCall}
  {caller : LockCaller}

/-! ## Frames -/

theorem Chained.congr {nodes nodes' : Addr → Option MutexNode} {first : Addr}
    (chained : Chained nodes first chain) (same : ∀ t ∈ chain, nodes' t = nodes t) :
    Chained nodes' first chain := by
  induction chain generalizing first with
  | nil => exact chained
  | cons t chain ih =>
    obtain ⟨here, next, node, rest⟩ := chained
    refine ⟨here, next, (same t List.mem_cons_self).trans node, ih rest fun u member => ?_⟩
    exact same u (List.mem_cons_of_mem t member)

theorem view_update {β : Type} {view : SyncCall → β} (same : view call = view (s.calls t)) (u : Addr) :
    view (Function.update s.calls t call u) = view (s.calls u) := by
  by_cases here : u = t
  · rw [here, Function.update_self, same]
  · rw [Function.update_of_ne here]

theorem MutexOk.congr (ok : s.MutexOk m chain) (mutex : next.mutex m = s.mutex m)
    (nodes : ∀ t ∈ chain, next.mutexNode t = s.mutexNode t)
    (calls : ∀ t, (next.calls t).mutex = some m ↔ (s.calls t).mutex = some m) (held : next.held m = s.held m)
    (awake : (s.mutex m).locker = 0 → (s.calls (s.mutex m).waiters).mutex = some m →
      s.pool (s.mutex m).waiters = some .running → next.pool (s.mutex m).waiters = some .running) :
    next.MutexOk m chain := by
  refine ⟨mutex ▸ ok.chained.congr nodes, ok.nodup, fun t => (ok.mem t).trans (calls t).symm, ?_, ?_⟩
  · rw [mutex, held]
    exact ok.holder
  · rw [mutex]
    intro free nonnull
    refine awake free ((ok.mem _).mp ?_) (ok.awake free nonnull)
    cases chain with
    | nil => exact absurd ok.chained nonnull
    | cons first rest => exact ok.chained.1 ▸ List.mem_cons_self

theorem CondOk.congr (ok : s.CondOk c before order) (head : next.waiters c = s.waiters c)
    (links : ∀ t ∈ order, next.condNext t = s.condNext t ∧ next.condPrev t = s.condPrev t)
    (mem : ∀ t, (next.calls t).cond = some c ∧ next.removed t = false ↔
      (s.calls t).cond = some c ∧ s.removed t = false) : next.CondOk c before order :=
  ⟨head.trans ok.head, ok.linked.congr links, ok.nodup, fun t => (ok.mem t).trans (mem t).symm⟩

theorem Inv.conds_congr (inv : s.Inv) (waiters : next.waiters = s.waiters) (nodes : next.condNode = s.condNode)
    (calls : ∀ t, (next.calls t).cond = (s.calls t).cond) (removed : next.removed = s.removed) (c : Addr) :
    ∃ order, next.CondOk c 0 order := by
  obtain ⟨order, ok⟩ := inv.conds c
  refine ⟨order, ok.congr (congrFun waiters c) (fun t _ => ?_) fun t => ?_⟩
  · simp only [condNext, condPrev, nodes, and_self]
  · rw [calls, removed]

theorem CondNodes.congr (ok : s.CondNodes) (nodes : next.condNode = s.condNode)
    (calls : ∀ t, (next.calls t).cond = (s.calls t).cond) (removed : next.removed = s.removed)
    (awake : ∀ t, (next.calls t).Waits → s.removed t = true → next.pool t = some .running)
    (signalled : ∀ t m c, next.calls t = .lock m (.wait c) → s.removed t = true) : next.CondNodes := by
  constructor
  · intro t
    rw [calls, nodes, removed]
    exact ok.live t
  · intro t
    rw [calls, nodes]
    exact ok.dead t
  · rwa [removed]
  · rwa [removed]

theorem Tasks.nonnull (tasks : s.Tasks) (active : s.Active t) : t ≠ 0 := by
  rintro rfl
  rcases active with running | waiting
  · exact absurd (tasks.null.symm.trans running) (by simp)
  · exact absurd (tasks.null.symm.trans waiting) (by simp)

theorem Tasks.nonnull_of_call (tasks : s.Tasks) (busy : s.calls t ≠ .idle) : t ≠ 0 :=
  tasks.nonnull (tasks.active t busy)

theorem busy_of_cond (unfinished : (s.calls t).cond = some c) : s.calls t ≠ .idle := by
  intro idle
  simp [idle, SyncCall.cond] at unfinished

theorem busy_of_mutex (blocked : (s.calls t).mutex = some m) : s.calls t ≠ .idle := by
  intro idle
  simp [idle, SyncCall.mutex] at blocked

/-! ## The pool -/

/-- The task may go to sleep: no free mutex has it as its first waiter, and it is not in
the loop of a wait that has been signalled. -/
structure MaySleep (s : SyncSystem) (t : Addr) : Prop where
  mutex : ∀ m, (s.calls t).mutex = some m → (s.mutex m).locker = 0 → (s.mutex m).waiters ≠ t
  cond : (s.calls t).Waits → s.removed t = false

theorem MaySleep.of_idle (idle : s.calls t = .idle) : s.MaySleep t := by
  constructor
  · intro m blocked
    simp [idle, SyncCall.mutex] at blocked
  · intro waits
    simp [idle, SyncCall.Waits] at waits

theorem Inv.setPool (inv : s.Inv) {value : Option TaskState} (nonnull : t ≠ 0)
    (active : s.calls t ≠ .idle → value = some .running ∨ value = some .waiting)
    (awake : value = some .running ∨ s.MaySleep t) :
    ({ s with pool := Function.update s.pool t value } : SyncSystem).Inv := by
  constructor
  · constructor
    · exact (Function.update_of_ne nonnull.symm ..).trans inv.tasks.null
    · intro u busy
      by_cases here : u = t
      · subst here
        simpa [Active] using active busy
      · simpa [Active, here] using inv.tasks.active u busy
  · intro m
    obtain ⟨chain, ok⟩ := inv.mutexes m
    refine ⟨chain, ok.congr rfl (fun _ _ => rfl) (fun _ => Iff.rfl) rfl fun free blocked running => ?_⟩
    by_cases here : (s.mutex m).waiters = t
    -- The first waiter of a free mutex has to run.
    · rcases awake with up | sleeps
      · rw [here, up]
        exact Function.update_self ..
      · exact absurd here (sleeps.mutex m (here ▸ blocked) free)
    · exact (Function.update_of_ne here ..).trans running
  · refine inv.nodes.congr rfl (fun _ => rfl) rfl (fun u waits removed => ?_) inv.nodes.signalled
    by_cases here : u = t
    · subst here
      rcases awake with up | sleeps
      · rw [up]
        exact Function.update_self ..
      · exact absurd removed (by simp [sleeps.cond waits])
    · exact (Function.update_of_ne here ..).trans (inv.nodes.awake u waits removed)
  · exact inv.conds_congr rfl rfl (fun _ => rfl) rfl

theorem Inv.awaken (inv : s.Inv) (active : s.Active t) :
    ({ s with pool := Function.update s.pool t (some .running) } : SyncSystem).Inv :=
  inv.setPool (inv.tasks.nonnull active) (fun _ => .inl rfl) (.inl rfl)

theorem Inv.sleep (inv : s.Inv) (running : s.pool t = some .running) (sleeps : s.MaySleep t) :
    (s.sleep t).Inv :=
  inv.setPool (inv.tasks.nonnull (.inl running)) (fun _ => .inr rfl) (.inr sleeps)

/-! ## The mutex -/

theorem MutexOk.unheld (ok : s.MutexOk m chain) (free : (s.mutex m).locker = 0) (u : Addr) :
    s.held m u = false := by
  rcases ok.holder with ⟨_, none⟩ | ⟨taken, _⟩
  · exact none u
  · exact absurd (free.symm.trans taken) (by simp)

theorem Inv.take (inv : s.Inv) (free : (s.mutex m).locker = 0) : (s.take t m).Inv := by
  refine ⟨⟨inv.tasks.null, inv.tasks.active⟩, fun m' => ?_,
    inv.nodes.congr rfl (fun _ => rfl) rfl inv.nodes.awake inv.nodes.signalled, inv.conds_congr rfl rfl (fun _ => rfl) rfl⟩
  obtain ⟨chain, ok⟩ := inv.mutexes m'
  by_cases here : m' = m
  · subst here
    have none := ok.unheld free
    refine ⟨chain, ?_, ok.nodup, ok.mem, .inr ⟨?_, t, fun u => ?_⟩, ?_⟩
    · simpa using ok.chained
    · simp
    · by_cases same : u = t
      · simp [same]
      · simp [same, none u]
    · simp
  · refine ⟨chain, ok.congr (Function.update_of_ne here ..) (fun _ _ => rfl) (fun _ => Iff.rfl)
      (Function.update_of_ne here ..) fun _ _ running => running⟩

theorem Inv.setCall (inv : s.Inv) (running : s.pool t = some .running) (old : (s.calls t).mutex = none)
    (new : call.mutex = none) (cond : call.cond = (s.calls t).cond) : (s.setCall t call).Inv := by
  constructor
  · refine ⟨inv.tasks.null, fun u busy => ?_⟩
    by_cases here : u = t
    · rw [here]
      exact .inl running
    · exact inv.tasks.active u (by simpa [here] using busy)
  · intro m
    obtain ⟨chain, ok⟩ := inv.mutexes m
    refine ⟨chain, ok.congr rfl (fun _ _ => rfl) (fun u => ?_) rfl fun _ _ running => running⟩
    exact Eq.congr_left (view_update (new.trans old.symm) u)
  · refine inv.nodes.congr rfl (view_update cond) rfl (fun u waits removed => ?_) fun u m c locks => ?_
    · by_cases here : u = t
      · rw [here]
        exact running
      · exact inv.nodes.awake u (by simpa [here] using waits) removed
    · by_cases here : u = t
      · simp only [here, setCall_calls, Function.update_self] at locks
        simp [locks, SyncCall.mutex] at new
      · exact inv.nodes.signalled u m c (by simpa [here] using locks)
  · exact inv.conds_congr rfl rfl (view_update cond) rfl

theorem MutexOk.not_mem (ok : s.MutexOk m chain) (outside : (s.calls t).mutex ≠ some m) : t ∉ chain :=
  fun member => outside ((ok.mem t).mp member)

theorem Inv.blocked (inv : s.Inv) (running : s.pool t = some .running) (taken : (s.mutex m).locker ≠ 0)
    (outside : (s.calls t).mutex = none) (cond : caller.cond = (s.calls t).cond)
    (signalled : ∀ c, caller = .wait c → s.removed t = true) :
    (((s.linkWaiter t m).setCall t (.lock m caller)).sleep t).Inv := by
  have nonnull := inv.tasks.nonnull (.inl running)
  constructor
  · constructor
    · exact (Function.update_of_ne nonnull.symm ..).trans inv.tasks.null
    · intro u busy
      by_cases here : u = t
      · simp [Active, TaskPool.wait, here]
      · simpa [Active, TaskPool.wait, here] using inv.tasks.active u (by simpa [here] using busy)
  · intro m'
    obtain ⟨chain, ok⟩ := inv.mutexes m'
    have fresh := ok.not_mem (t := t) (by simp [outside])
    have nodes : ∀ u ∈ chain, Function.update s.mutexNode t (some ⟨(s.mutex m).waiters, t⟩) u = s.mutexNode u :=
      fun u member => Function.update_of_ne (ne_of_mem_of_not_mem member fresh) ..
    by_cases here : m' = m
    -- The waiters form a stack: the last one to be blocked comes first.
    · subst here
      refine ⟨t :: chain, ?_, List.nodup_cons.mpr ⟨fresh, ok.nodup⟩, fun u => ?_, ?_, ?_⟩
      · exact ⟨by simp, (s.mutex m').waiters, Function.update_self .., ok.chained.congr nodes⟩
      · rw [List.mem_cons, ok.mem u]
        by_cases same : u = t
        · simp [same, SyncCall.mutex]
        · simp [same]
      · simpa using ok.holder
      · intro free
        exact absurd (by simpa using free) taken
    · refine ⟨chain, ok.congr (by simp [here]) nodes (fun u => ?_) rfl ?_⟩
      · by_cases same : u = t
        · subst same
          simp only [sleep_calls, setCall_calls, Function.update_self, outside]
          simpa [SyncCall.mutex] using Ne.symm here
        · simp [same]
      · intro _ waits up
        refine (Function.update_of_ne ?_ ..).trans up
        rintro same
        rw [same, outside] at waits
        cases waits
  · refine inv.nodes.congr rfl (view_update cond) rfl (fun u waits removed => ?_) fun u m c locks => ?_
    · by_cases here : u = t
      · simp [here, SyncCall.Waits] at waits
      · exact (Function.update_of_ne here ..).trans (inv.nodes.awake u (by simpa [here] using waits) removed)
    · by_cases here : u = t
      · subst here
        simp only [sleep_calls, setCall_calls, Function.update_self, SyncCall.lock.injEq] at locks
        exact signalled c locks.2
      · exact inv.nodes.signalled u m c (by simpa [here] using locks)
  · exact inv.conds_congr rfl rfl (view_update cond) rfl

theorem Inv.pop (inv : s.Inv) (running : s.pool t = some .running) (blocked : s.calls t = .lock m caller)
    (free : (s.mutex m).locker = 0) (first : (s.mutex m).waiters = t) :
    ∃ node, s.mutexNode t = some node ∧
      (((s.unlinkWaiter t m node).setCall t (caller.call m)).take t m).Inv := by
  have nonnull := inv.tasks.nonnull (.inl running)
  have outside := LockCaller.call_mutex caller m
  have cond : (caller.call m).cond = (s.calls t).cond := by
    rw [blocked, LockCaller.call_cond, SyncCall.cond]
  obtain ⟨chain, ok⟩ := inv.mutexes m
  obtain ⟨rest, after, rfl, node, chained⟩ : ∃ rest after, chain = t :: rest ∧
      s.mutexNode t = some ⟨after, t⟩ ∧ Chained s.mutexNode after rest := by
    have chained := ok.chained
    rw [first] at chained
    cases chain with
    | nil => exact absurd chained nonnull
    | cons _ rest =>
      obtain ⟨rfl, after, node, chained⟩ := chained
      exact ⟨rest, after, rfl, node, chained⟩
  refine ⟨_, node, ⟨inv.tasks.null, fun u busy => ?_⟩, fun m' => ?_, ?_, ?_⟩
  · by_cases here : u = t
    · rw [here]
      exact .inl running
    · exact inv.tasks.active u (by simpa [here] using busy)
  · by_cases here : m' = m
    · subst here
      obtain ⟨fresh, nodup⟩ := List.nodup_cons.mp ok.nodup
      have none := ok.unheld free
      have kept : Chained (Function.update s.mutexNode t .none) after rest :=
        chained.congr fun u member => Function.update_of_ne (ne_of_mem_of_not_mem member fresh) ..
      refine ⟨rest, by simpa using kept, nodup, fun u => ?_, .inr ⟨by simp, t, fun u => ?_⟩, by simp⟩
      · by_cases same : u = t
        · simp [same, outside, fresh]
        · simpa [same] using ok.mem u
      · by_cases same : u = t
        · simp [same]
        · simp [same, none u]
    · obtain ⟨chain, ok⟩ := inv.mutexes m'
      have other : (s.calls t).mutex ≠ some m' := by
        simpa [blocked, SyncCall.mutex] using Ne.symm here
      refine ⟨chain, ok.congr (by simp [here]) (fun u member => ?_) (fun u => ?_) (by simp [here])
        fun _ _ up => up⟩
      · exact Function.update_of_ne (ne_of_mem_of_not_mem member (ok.not_mem other)) ..
      · by_cases same : u = t
        · subst same
          simp [outside, other]
        · simp [same]
  · refine inv.nodes.congr rfl (view_update cond) rfl (fun u waits removed => ?_) fun u m' c locks => ?_
    · by_cases here : u = t
      · exact here ▸ running
      · exact inv.nodes.awake u (by simpa [here] using waits) removed
    · by_cases here : u = t
      · simp only [here, take_calls, setCall_calls, Function.update_self] at locks
        simp [locks, SyncCall.mutex] at outside
      · exact inv.nodes.signalled u m' c (by simpa [here] using locks)
  · exact inv.conds_congr rfl rfl (view_update cond) rfl

structure Unlocked (s : SyncSystem) (next : SyncSystem) : Prop where
  calls : next.calls = s.calls
  waiters : next.waiters = s.waiters
  condNode : next.condNode = s.condNode
  removed : next.removed = s.removed
  running : ∀ t, s.pool t = some .running → next.pool t = some .running

theorem Inv.release (inv : s.Inv) (held : s.held m t = true)
    (awake : (s.mutex m).waiters ≠ 0 → s.pool (s.mutex m).waiters = some .running) : (s.release t m).Inv := by
  refine ⟨⟨inv.tasks.null, inv.tasks.active⟩, fun m' => ?_,
    inv.nodes.congr rfl (fun _ => rfl) rfl inv.nodes.awake inv.nodes.signalled,
    inv.conds_congr rfl rfl (fun _ => rfl) rfl⟩
  obtain ⟨chain, ok⟩ := inv.mutexes m'
  by_cases here : m' = m
  · subst here
    obtain ⟨_, holder, only⟩ : (s.mutex m').locker = 1 ∧ ∃ u, ∀ v, s.held m' v = true ↔ v = u := by
      rcases ok.holder with ⟨_, none⟩ | taken
      · exact absurd held (by simp [none t])
      · exact taken
    refine ⟨chain, by simpa using ok.chained, ok.nodup, ok.mem, .inl ⟨by simp, fun u => ?_⟩, fun _ => ?_⟩
    · by_cases same : u = t
      · simp [same]
      · have other : s.held m' u ≠ true := fun also => same (((only u).mp also).trans ((only t).mp held).symm)
        simpa [same] using other
    · simpa using awake
  · exact ⟨chain, ok.congr (by simp [here]) (fun _ _ => rfl) (fun _ => Iff.rfl) (by simp [here])
      fun _ _ up => up⟩

theorem Inv.mutexUnlock (inv : s.Inv) (held : s.held m t = true) :
    ∃ next, s.mutexUnlock t m = some next ∧ next.Inv ∧ s.Unlocked next := by
  obtain ⟨chain, ok⟩ := inv.mutexes m
  cases chain with
  | nil =>
    have none : (s.mutex m).waiters = 0 := ok.chained
    refine ⟨s.release t m, by simp [SyncSystem.mutexUnlock, none], ?_, rfl, rfl, rfl, rfl, fun _ up => up⟩
    exact inv.release held fun some => absurd none some
  | cons first rest =>
    obtain ⟨same, after, node, _⟩ := ok.chained
    have blocked := busy_of_mutex ((ok.mem first).mp List.mem_cons_self)
    have nonnull := inv.tasks.nonnull_of_call blocked
    have active := inv.tasks.active first blocked
    -- The mutex stays free; the woken waiter takes it when it is resumed.
    refine ⟨{ s.release t m with pool := Function.update s.pool first (some .running) }, ?_, ?_, rfl, rfl, rfl,
      rfl, fun u up => ?_⟩
    · simp [SyncSystem.mutexUnlock, same, nonnull, node, TaskPool.wakeup_eq active]
    · refine (inv.awaken active).release held fun _ => ?_
      rw [same]
      exact Function.update_self ..
    · by_cases here : u = first
      · simp [here]
      · simpa [here] using up

end HevTaskSystem.SyncSystem
