import HevTaskSystem.List.HevList
import HevTaskSystem.Sync.Invariant

/-! What the operations do to the list of a condition variable.

Waiters are put in front, signallers take them from the front, and a waiter whose time
is over takes itself from any place. Each time the invariant is kept; between two passes
of a broadcast it holds except for the previous node of the first waiter.
-/

set_option autoImplicit false

namespace HevTaskSystem.SyncSystem

open Foundation

variable {s next : SyncSystem} {t u a c before : Addr} {order front back : List Addr} {call : SyncCall}
  {node : CondNode} {after prior : Addr → Addr}

/-! ## Links -/

@[simps -fullyApplied]
def relink (s : SyncSystem) (after prior : Addr → Addr) : SyncSystem :=
  { s with condNode := fun a => (s.condNode a).map fun node => { node with next := after a, prev := prior a } }

theorem condNext_eq (live : s.condNode a = some node) : s.condNext a = node.next := by simp [condNext, live]

theorem condPrev_eq (live : s.condNode a = some node) : s.condPrev a = node.prev := by simp [condPrev, live]

theorem relink_next (live : s.condNode a = some node) : (s.relink after prior).condNext a = after a := by
  simp [condNext, live]

theorem relink_prev (live : s.condNode a = some node) : (s.relink after prior).condPrev a = prior a := by
  simp [condPrev, live]

theorem relink_self : s.relink s.condNext s.condPrev = s := by
  have same : (s.relink s.condNext s.condPrev).condNode = s.condNode := by
    funext a
    cases live : s.condNode a with
    | none => simp [live]
    | some node => simp [live, condNext, condPrev]
  simp only [relink] at same ⊢
  rw [same]

theorem relink_storeNext (live : a ≠ 0 → ∃ node, s.condNode a = some node) (value : Addr) :
    (s.relink after prior).condStoreField a (fun node => { node with next := value }) =
      some (s.relink (if a = 0 then after else Function.update after a value) prior) := by
  by_cases null : a = 0
  · simp [condStoreField, null]
  · obtain ⟨node, live⟩ := live null
    have same : Function.update (s.relink after prior).condNode a (some ⟨prior a, value, node.task⟩) =
        (s.relink (Function.update after a value) prior).condNode := by
      funext b
      by_cases here : b = a
      · subst here
        simp [live]
      · simp [here]
    simp only [relink] at same
    simp [condStoreField, condStore, null, live, relink, same]

theorem relink_storePrev (live : a ≠ 0 → ∃ node, s.condNode a = some node) (value : Addr) :
    (s.relink after prior).condStoreField a (fun node => { node with prev := value }) =
      some (s.relink after (if a = 0 then prior else Function.update prior a value)) := by
  by_cases null : a = 0
  · simp [condStoreField, null]
  · obtain ⟨node, live⟩ := live null
    have same : Function.update (s.relink after prior).condNode a (some ⟨value, after a, node.task⟩) =
        (s.relink after (Function.update prior a value)).condNode := by
      funext b
      by_cases here : b = a
      · subst here
        simp [live]
      · simp [here]
    simp only [relink] at same
    simp [condStoreField, condStore, null, live, relink, same]

theorem CondNodes.relink (ok : s.CondNodes) : (s.relink after prior).CondNodes := by
  refine ⟨fun t unfinished => ?_, fun t finished => ?_, ok.awake, ok.signalled⟩
  · obtain ⟨node, live, task⟩ := ok.live t unfinished
    exact ⟨{ node with next := after t, prev := prior t }, by simp [live], task⟩
  · simp [ok.dead t finished]

/-! ## Lists -/

/-- The invariant, but for the previous node of the first waiter of `c`. -/
structure InvAt (s : SyncSystem) (c before : Addr) (order : List Addr) : Prop where
  tasks : s.Tasks
  mutexes : ∀ m, ∃ chain, s.MutexOk m chain
  nodes : s.CondNodes
  others : ∀ c', c' ≠ c → ∃ order, s.CondOk c' 0 order
  here : s.CondOk c before order

theorem Inv.at (inv : s.Inv) (ok : s.CondOk c 0 order) : s.InvAt c 0 order :=
  ⟨inv.tasks, inv.mutexes, inv.nodes, fun c' _ => inv.conds c', ok⟩

theorem InvAt.inv (inv : s.InvAt c 0 order) : s.Inv := by
  refine ⟨inv.tasks, inv.mutexes, inv.nodes, fun c' => ?_⟩
  by_cases same : c' = c
  · exact same ▸ ⟨order, inv.here⟩
  · exact inv.others c' same

theorem InvAt.of_nil (inv : s.InvAt c before []) : s.InvAt c 0 [] :=
  ⟨inv.tasks, inv.mutexes, inv.nodes, inv.others, inv.here.head, trivial, inv.here.nodup, inv.here.mem⟩

theorem CondOk.cond (ok : s.CondOk c before order) (member : t ∈ order) : (s.calls t).cond = some c :=
  ((ok.mem t).mp member).1

theorem CondOk.live (ok : s.CondOk c before order) (nodes : s.CondNodes) (member : t ∈ order) :
    ∃ node, s.condNode t = some node ∧ node.task = t := by
  obtain ⟨unfinished, kept⟩ := (ok.mem t).mp member
  obtain ⟨node, live, task⟩ := nodes.live t (by simp [unfinished])
  exact ⟨node, live, by simpa [kept] using task⟩

theorem CondOk.nonnull (ok : s.CondOk c before order) (tasks : s.Tasks) (member : t ∈ order) : t ≠ 0 :=
  tasks.nonnull_of_call (busy_of_cond (ok.cond member))

theorem CondOk.head_eq_zero (ok : s.CondOk c before order) (tasks : s.Tasks) : s.waiters c = 0 ↔ order = [] := by
  rw [ok.head]
  cases order with
  | nil => simp
  | cons first rest => simpa using ok.nonnull tasks List.mem_cons_self

theorem CondOk.apart {c' before' : Addr} {order' : List Addr} (ok : s.CondOk c before order)
    (ok' : s.CondOk c' before' order') (other : c' ≠ c) (member : t ∈ order) : t ∉ order' := by
  intro member'
  exact other (Option.some.inj ((ok'.cond member').symm.trans (ok.cond member)))

theorem InvAt.relink {before' : Addr} (inv : s.InvAt c before order)
    (frame : ∀ b, b ∉ order → after b = s.condNext b ∧ prior b = s.condPrev b)
    (linked : Linked after prior before' 0 order) : (s.relink after prior).InvAt c before' order := by
  have links : ∀ {c' : Addr} {before : Addr} {order' : List Addr}, s.CondOk c' before order' → ∀ b ∈ order',
      (s.relink after prior).condNext b = after b ∧ (s.relink after prior).condPrev b = prior b := by
    intro c' before order' ok b member
    obtain ⟨node, live, _⟩ := ok.live inv.nodes member
    exact ⟨relink_next live, relink_prev live⟩
  refine ⟨⟨inv.tasks.null, inv.tasks.active⟩, fun m => ?_, inv.nodes.relink, fun c' other => ?_, ?_⟩
  · obtain ⟨chain, ok⟩ := inv.mutexes m
    exact ⟨chain, ok.congr rfl (fun _ _ => rfl) (fun _ => Iff.rfl) rfl fun _ _ up => up⟩
  · obtain ⟨order', ok⟩ := inv.others c' other
    refine ⟨order', ok.congr rfl (fun b member => ?_) fun _ => Iff.rfl⟩
    obtain ⟨hnext, hprev⟩ := links ok b member
    obtain ⟨sameNext, samePrev⟩ := frame b fun here => inv.here.apart ok other here member
    exact ⟨hnext.trans sameNext, hprev.trans samePrev⟩
  · exact ⟨inv.here.head, linked.congr (links inv.here), inv.here.nodup, inv.here.mem⟩

theorem CondOk.live_head (ok : s.CondOk c before order) (nodes : s.CondNodes) (nonempty : s.waiters c ≠ 0) :
    s.waiters c ∈ order ∧ ∃ node, s.condNode (s.waiters c) = some node := by
  rw [ok.head] at nonempty ⊢
  cases order with
  | nil => exact absurd rfl nonempty
  | cons first rest =>
    obtain ⟨node, live, _⟩ := ok.live nodes List.mem_cons_self
    exact ⟨List.mem_cons_self, node, live⟩

theorem InvAt.setFirst (inv : s.InvAt c before order) (value : Addr) :
    (s.relink s.condNext (if s.waiters c = 0 then s.condPrev else
      Function.update s.condPrev (s.waiters c) value)).InvAt c value order := by
  simp only [inv.here.head_eq_zero inv.tasks]
  rw [inv.here.head]
  refine inv.relink (fun b outside => ⟨rfl, ?_⟩) (inv.here.linked.set_before inv.here.nodup value)
  cases order with
  | nil => rfl
  | cons first rest =>
    exact Function.update_of_ne (ne_of_mem_of_not_mem List.mem_cons_self outside).symm ..

/-! ## Signals -/

/-- The tasks `gone` were removed from the list of `c`, and run. -/
structure Removed (s : SyncSystem) (gone : List Addr) (next : SyncSystem) : Prop where
  calls : next.calls = s.calls
  removed : ∀ t, next.removed t = true ↔ t ∈ gone ∨ s.removed t = true
  pool : ∀ t, next.pool t = if t ∈ gone then some .running else s.pool t

theorem Removed.refl : s.Removed [] s := ⟨rfl, by simp, by simp⟩

theorem Removed.trans {mid : SyncSystem} {gone gone' : List Addr} (first : s.Removed gone mid)
    (second : mid.Removed gone' next) : s.Removed (gone ++ gone') next := by
  refine ⟨second.calls.trans first.calls, fun t => ?_, fun t => ?_⟩
  · rw [second.removed, first.removed, List.mem_append]
    tauto
  · rw [second.pool, first.pool]
    by_cases member : t ∈ gone' <;> simp [member]

theorem InvAt.condPop (inv : s.InvAt c before (t :: back)) :
    ∃ next, s.condPop c = some next ∧ next.InvAt c t back ∧ s.Removed [t] next := by
  obtain ⟨node, live, task⟩ := inv.here.live inv.nodes List.mem_cons_self
  have unfinished := inv.here.cond List.mem_cons_self
  have active := inv.tasks.active t (busy_of_cond unfinished)
  have nonnull := inv.tasks.nonnull active
  obtain ⟨fresh, nodup⟩ := List.nodup_cons.mp inv.here.nodup
  obtain ⟨_, hnext, linked⟩ := inv.here.linked
  have first : s.waiters c = t := inv.here.head
  rw [condNext_eq live] at hnext
  -- Only the task and the head change: the links of the node stay, and the next one is not told.
  let next : SyncSystem := { s with
    pool := Function.update s.pool t (some .running)
    condNode := Function.update s.condNode t (some { node with task := 0 })
    removed := Function.update s.removed t true
    waiters := Function.update s.waiters c node.next }
  have links : ∀ b, next.condNext b = s.condNext b ∧ next.condPrev b = s.condPrev b := by
    intro b
    by_cases same : b = t
    · subst same
      simp [next, condNext, condPrev, live]
    · simp [next, condNext, condPrev, same]
  refine ⟨next, by simp [SyncSystem.condPop, condStore, first, live, task, TaskPool.wakeup_eq active, next], ?_, ?_⟩
  · refine ⟨⟨?_, fun b busy => ?_⟩, fun m => ?_, ⟨fun b here => ?_, fun b here => ?_, fun b waits removed => ?_, ?_⟩,
      fun c' other => ?_, ?_⟩
    · exact (Function.update_of_ne nonnull.symm ..).trans inv.tasks.null
    · by_cases same : b = t
      · exact .inl (same ▸ Function.update_self ..)
      · simpa [Active, next, same] using inv.tasks.active b busy
    · obtain ⟨chain, ok⟩ := inv.mutexes m
      refine ⟨chain, ok.congr rfl (fun _ _ => rfl) (fun _ => Iff.rfl) rfl fun _ _ up => ?_⟩
      by_cases same : (s.mutex m).waiters = t
      · simp [next, same]
      · simpa [next, same] using up
    · by_cases same : b = t
      · exact ⟨{ node with task := 0 }, by simp [next, same], by simp [next, same]⟩
      · simpa [next, same] using inv.nodes.live b here
    · have other : b ≠ t := by
        rintro rfl
        exact absurd (here.symm.trans unfinished) (by simp)
      simpa [next, other] using inv.nodes.dead b here
    · by_cases same : b = t
      · exact same ▸ Function.update_self ..
      · simpa [next, same] using inv.nodes.awake b waits (by simpa [next, same] using removed)
    · intro b m c locks
      by_cases same : b = t
      · simp [next, same]
      · simpa [next, same] using inv.nodes.signalled b m c locks
    · obtain ⟨order, ok⟩ := inv.others c' other
      refine ⟨order, ok.congr (Function.update_of_ne other ..) (fun b _ => links b) fun b => ?_⟩
      by_cases same : b = t
      · subst same
        simp [next, unfinished, other.symm]
      · simp [next, same]
    · refine ⟨(Function.update_self ..).trans hnext, linked.congr fun b _ => links b, nodup, fun b => ?_⟩
      have old := inv.here.mem b
      by_cases same : b = t
      · subst same
        simp [next, fresh]
      · simpa [next, same] using old
  · refine ⟨rfl, fun b => ?_, fun b => ?_⟩
    · by_cases same : b = t <;> simp [next, same]
    · by_cases same : b = t <;> simp [next, same]

theorem InvAt.condSignal (inv : s.InvAt c 0 order) :
    ∃ next, s.condSignal c = some next ∧ next.InvAt c 0 order.tail ∧ s.Removed (order.take 1) next := by
  have empty := inv.here.head_eq_zero inv.tasks
  cases order with
  | nil =>
    refine ⟨s, ?_, inv, .refl⟩
    simp [SyncSystem.condSignal, empty]
  | cons first rest =>
    have nonempty : s.waiters c ≠ 0 := by simpa using empty
    obtain ⟨mid, pop, popped, removed⟩ := inv.condPop
    refine ⟨_, ?_, popped.setFirst 0, removed.calls, removed.removed, removed.pool⟩
    rw [SyncSystem.condSignal, if_pos nonempty, pop]
    have store := @relink_storePrev mid (mid.waiters c) mid.condNext mid.condPrev
      (fun some => (popped.here.live_head popped.nodes some).2) 0
    rwa [relink_self] at store

/-- Between two passes of a broadcast: some waiters are gone, `rank` of them are left. -/
def Broadcasting (s : SyncSystem) (c : Addr) (order : List Addr) (rank : Nat) (mid : SyncSystem) : Prop :=
  ∃ before gone rest, order = gone ++ rest ∧ rest.length = rank ∧ mid.InvAt c before rest ∧ s.Removed gone mid

theorem Broadcasting.pass {rank : Nat} {mid : SyncSystem} (broadcasting : s.Broadcasting c order rank mid) :
    ∃ flow, condBroadcastPass c mid = some flow ∧
      Pass (s.Broadcasting c order) (fun next => next.InvAt c 0 [] ∧ s.Removed order next) rank flow := by
  obtain ⟨before, gone, rest, rfl, rfl, now, removed⟩ := broadcasting
  have empty := now.here.head_eq_zero now.tasks
  cases rest with
  | nil =>
    refine ⟨.done mid, by simp [condBroadcastPass, empty], now.of_nil, ?_⟩
    rwa [List.append_nil]
  | cons first rest =>
    obtain ⟨mid', pop, popped, more⟩ := now.condPop
    refine ⟨.next mid', ?_, rest.length, by simp, first, gone ++ [first], rest, by simp, rfl, popped,
      removed.trans more⟩
    rw [condBroadcastPass, if_pos (by simpa using empty), pop]
    rfl

theorem InvAt.condBroadcast (inv : s.InvAt c 0 order) {fuel : Nat} (bound : order.length < fuel) :
    ∃ next, s.condBroadcast fuel c = some next ∧ next.InvAt c 0 [] ∧ s.Removed order next :=
  loop_total (fun _ _ => Broadcasting.pass) ⟨0, [], order, rfl, rfl, inv, .refl⟩ bound

/-! ## Waits -/

theorem CondOk.fresh (ok : s.CondOk c before order) (idle : s.calls t = .idle) : t ∉ order := by
  intro member
  simpa [idle, SyncCall.cond] using ok.cond member

/-- What linking the node of `t` as the first of the list does. -/
structure CondLinked (s : SyncSystem) (t c : Addr) (call : SyncCall) (next : SyncSystem) : Prop where
  pool : next.pool = s.pool
  mutex : next.mutex = s.mutex
  mutexNode : next.mutexNode = s.mutexNode
  held : next.held = s.held
  calls : next.calls = Function.update s.calls t call
  removed : next.removed = Function.update s.removed t false
  waiters : next.waiters = Function.update s.waiters c t
  node : next.condNode t = some ⟨0, s.waiters c, t⟩
  task : ∀ b, b ≠ t → (next.condNode b).map CondNode.task = (s.condNode b).map CondNode.task
  after : ∀ b, b ≠ t → next.condNext b = s.condNext b
  prior : ∀ b, b ≠ t → b ≠ 0 → next.condPrev b = if b = s.waiters c then t else s.condPrev b

theorem Inv.condLinked (inv : s.Inv) (idle : s.calls t = .idle) :
    ∃ next, s.condLink t c call = some next ∧ s.CondLinked t c call next := by
  obtain ⟨order, ok⟩ := inv.conds c
  have apart := ok.fresh idle
  by_cases empty : s.waiters c = 0
  · let next : SyncSystem := ({ s with
      condNode := Function.update s.condNode t (some ⟨0, 0, t⟩)
      removed := Function.update s.removed t false
      waiters := Function.update s.waiters c t }).setCall t call
    refine ⟨next, by simp [condLink, condStoreField, empty, next], rfl, rfl, rfl, rfl, rfl, rfl, rfl, ?_, ?_, ?_, ?_⟩
    · simp [empty, next]
    · intro b other
      simp [other, next]
    · intro b other
      simp [condNext, other, next]
    · intro b other some
      simp [condPrev, other, empty, some, next]
  · obtain ⟨member, node, live⟩ := ok.live_head inv.nodes empty
    have other : s.waiters c ≠ t := ne_of_mem_of_not_mem member apart
    let next : SyncSystem := ({ s with
      condNode := Function.update (Function.update s.condNode t (some ⟨0, s.waiters c, t⟩)) (s.waiters c)
        (some { node with prev := t })
      removed := Function.update s.removed t false
      waiters := Function.update s.waiters c t }).setCall t call
    refine ⟨next, by simp [condLink, condStoreField, condStore, empty, other, live, next], rfl, rfl, rfl, rfl, rfl,
      rfl, rfl, ?_, ?_, ?_, ?_⟩
    · simp [other.symm, next]
    · intro b fresh
      by_cases first : b = s.waiters c
      · simp [first, live, next]
      · simp [first, fresh, next]
    · intro b fresh
      by_cases first : b = s.waiters c
      · simp [condNext, first, live, next]
      · simp [condNext, first, fresh, next]
    · intro b fresh _
      by_cases first : b = s.waiters c
      · simp [condPrev, first, next]
      · simp [condPrev, first, fresh, next]

theorem CondLinked.nodes (linked : s.CondLinked t c call next) (nodes : s.CondNodes) (cond : call.cond = some c)
    (outside : call.mutex = none) : next.CondNodes := by
  constructor
  · intro b unfinished
    by_cases here : b = t
    · subst here
      exact ⟨_, linked.node, by simp [linked.removed]⟩
    · obtain ⟨node, live, task⟩ := nodes.live b (by simpa [linked.calls, here] using unfinished)
      have same := linked.task b here
      rw [live] at same
      obtain ⟨node', live', task'⟩ := Option.map_eq_some_iff.mp same
      exact ⟨node', live', by simpa [linked.removed, here] using task'.trans task⟩
  · intro b finished
    have other : b ≠ t := by
      rintro rfl
      simp [linked.calls, cond] at finished
    have dead := nodes.dead b (by simpa [linked.calls, other] using finished)
    simpa [dead] using linked.task b other
  · intro b waits removed
    by_cases here : b = t
    · simp [linked.removed, here] at removed
    · rw [linked.pool]
      exact nodes.awake b (by simpa [linked.calls, here] using waits)
        (by simpa [linked.removed, here] using removed)
  · intro b m c locks
    by_cases here : b = t
    · rw [linked.calls, here, Function.update_self] at locks
      simp [locks, SyncCall.mutex] at outside
    · simpa [linked.removed, here] using nodes.signalled b m c (by simpa [linked.calls, here] using locks)

theorem CondLinked.list (linked : s.CondLinked t c call next) (inv : s.Inv) (idle : s.calls t = .idle)
    (cond : call.cond = some c) (ok : s.CondOk c 0 order) : next.CondOk c 0 (t :: order) := by
  have fresh := ok.fresh idle
  refine ⟨by simp [linked.waiters], ⟨?_, ?_, ?_⟩, List.nodup_cons.mpr ⟨fresh, ok.nodup⟩, fun b => ?_⟩
  · rw [condPrev_eq linked.node]
  · rw [condNext_eq linked.node]
    exact ok.head
  · refine (ok.linked.set_before ok.nodup t).congr fun b member => ?_
    have other := ne_of_mem_of_not_mem member fresh
    refine ⟨linked.after b other, ?_⟩
    rw [linked.prior b other (ok.nonnull inv.tasks member), ok.head]
    cases order with
    | nil => cases member
    | cons first rest =>
      by_cases same : b = first
      · simp [same]
      · simp [same]
  · by_cases same : b = t
    · simp [same, linked.calls, linked.removed, cond]
    · simpa [same, linked.calls, linked.removed] using ok.mem b

theorem CondLinked.other_list {c' : Addr} (linked : s.CondLinked t c call next) (inv : s.Inv)
    (idle : s.calls t = .idle) (cond : call.cond = some c) (ok : s.CondOk c' 0 order) (here : c' ≠ c) :
    next.CondOk c' 0 order := by
  refine ok.congr ?_ (fun b member => ?_) fun b => ?_
  · simp [linked.waiters, here]
  · have other := ne_of_mem_of_not_mem member (ok.fresh idle)
    refine ⟨linked.after b other, ?_⟩
    rw [linked.prior b other (ok.nonnull inv.tasks member), if_neg]
    -- The old first node of `c`, which gets a new previous one, is in no other list.
    rintro rfl
    obtain ⟨order', ok'⟩ := inv.conds c
    have first := (ok'.live_head inv.nodes (ok.nonnull inv.tasks member)).1
    exact ok'.apart ok here first member
  · by_cases same : b = t
    · subst same
      rw [linked.calls, Function.update_self, cond, idle]
      simp [SyncCall.cond, Ne.symm here]
    · simp [same, linked.calls, linked.removed]

theorem Inv.condLink (inv : s.Inv) (running : s.pool t = some .running) (idle : s.calls t = .idle)
    (cond : call.cond = some c) (outside : call.mutex = none) (linked : s.CondLinked t c call next) :
    next.Inv := by
  refine ⟨⟨linked.pool ▸ inv.tasks.null, fun b busy => ?_⟩, fun m => ?_, linked.nodes inv.nodes cond outside,
    fun c' => ?_⟩
  · rw [Active, linked.pool]
    by_cases here : b = t
    · exact here ▸ .inl running
    · exact inv.tasks.active b (by simpa [linked.calls, here] using busy)
  · obtain ⟨chain, ok⟩ := inv.mutexes m
    refine ⟨chain, ok.congr (congrFun linked.mutex m) (fun b _ => congrFun linked.mutexNode b) (fun b => ?_)
      (congrFun linked.held m) fun _ _ up => linked.pool ▸ up⟩
    rw [linked.calls]
    refine Eq.congr_left (view_update ?_ b)
    rw [outside, idle]
    rfl
  · obtain ⟨order, ok⟩ := inv.conds c'
    by_cases here : c' = c
    · subst here
      exact ⟨t :: order, linked.list inv idle cond ok⟩
    · exact ⟨order, linked.other_list inv idle cond ok here⟩

/-! ## Returns -/

/-- The list of `c` is as it should be when the wait of `t` has returned. -/
structure Without (s : SyncSystem) (t c : Addr) (order : List Addr) : Prop where
  head : s.waiters c = order.headD 0
  linked : Linked s.condNext s.condPrev 0 0 order
  nodup : order.Nodup
  fresh : t ∉ order
  mem : ∀ b, b ≠ t → (b ∈ order ↔ (s.calls b).cond = some c ∧ s.removed b = false)

theorem Without.returned (tasks : s.Tasks) (mutexes : ∀ m, ∃ chain, s.MutexOk m chain) (nodes : s.CondNodes)
    (lists : ∀ c, ∃ order, s.Without t c order) (outside : (s.calls t).mutex = none) : (s.condReturn t).Inv := by
  constructor
  · refine ⟨tasks.null, fun b busy => tasks.active b ?_⟩
    by_cases here : b = t
    · simp [condReturn, here] at busy
    · simpa [condReturn, here] using busy
  · intro m
    obtain ⟨chain, ok⟩ := mutexes m
    refine ⟨chain, ok.congr rfl (fun _ _ => rfl) (fun b => ?_) rfl fun _ _ up => up⟩
    refine Eq.congr_left (view_update ?_ b)
    exact outside.symm
  · refine ⟨fun b unfinished => ?_, fun b finished => ?_, fun b waits removed => ?_, fun b m c locks => ?_⟩
    · have other : b ≠ t := by
        rintro rfl
        simp [condReturn, SyncCall.cond] at unfinished
      simpa [condReturn, other] using nodes.live b (by simpa [condReturn, other] using unfinished)
    · by_cases here : b = t
      · simp [condReturn, here]
      · simpa [condReturn, here] using nodes.dead b (by simpa [condReturn, here] using finished)
    · have other : b ≠ t := by
        rintro rfl
        simp [condReturn, SyncCall.Waits] at waits
      exact nodes.awake b (by simpa [condReturn, other] using waits) removed
    · have other : b ≠ t := by
        rintro rfl
        simp [condReturn] at locks
      exact nodes.signalled b m c (by simpa [condReturn, other] using locks)
  · intro c
    obtain ⟨order, list⟩ := lists c
    refine ⟨order, list.head, list.linked.congr fun b member => ?_, list.nodup, fun b => ?_⟩
    · have other := ne_of_mem_of_not_mem member list.fresh
      simp [condReturn, condNext, condPrev, other]
    · by_cases here : b = t
      · simp [condReturn, here, list.fresh, SyncCall.cond]
      · simpa [condReturn, here] using list.mem b here

theorem Inv.condReturn (inv : s.Inv) (outside : (s.calls t).mutex = none) (removed : s.removed t = true) :
    (s.condReturn t).Inv := by
  refine Without.returned inv.tasks inv.mutexes inv.nodes (fun c => ?_) outside
  obtain ⟨order, ok⟩ := inv.conds c
  refine ⟨order, ok.head, ok.linked, ok.nodup, fun member => ?_, fun b _ => ok.mem b⟩
  exact absurd ((ok.mem t).mp member).2 (by simp [removed])

theorem getLastD_mem {α : Type} {list : List α} {default : α} (other : list.getLastD default ≠ default) :
    list.getLastD default ∈ list := by
  rcases List.eq_nil_or_concat list with rfl | ⟨init, last, rfl⟩
  · exact absurd rfl other
  · simp

theorem CondOk.place (ok : s.CondOk c 0 (front ++ t :: back)) (tasks : s.Tasks) :
    s.condPrev t = front.getLastD 0 ∧ s.condNext t = back.headD 0 ∧ s.condPrev t ≠ t ∧ s.condNext t ≠ t ∧
      (s.condPrev t = 0 ↔ front = []) ∧ (s.condNext t = 0 ↔ back = []) := by
  have holds : HevList.Holds ⟨s.waiters c, (front ++ t :: back).getLastD 0⟩ ⟨s.condNext, s.condPrev⟩
      (front ++ t :: back) := by
    refine ⟨ok.head, rfl, ok.linked, ok.nodup, fun member => ?_⟩
    exact ok.nonnull tasks member rfl
  obtain ⟨hprev, hnext, other, first, last⟩ := holds.place
  refine ⟨hprev, hnext, other, ?_, first, last⟩
  intro same
  have fresh := (List.nodup_cons.mp (List.nodup_append.mp ok.nodup).2.1).1
  replace same := hnext.symm.trans same
  cases back with
  | nil => exact ok.nonnull tasks (by simp) same.symm
  | cons second back => exact fresh (by simp [show t = second from same.symm])

theorem CondOk.condUnlink (ok : s.CondOk c 0 (front ++ t :: back)) (tasks : s.Tasks) (nodes : s.CondNodes) :
    s.condUnlink t c = some { s.relink
      (if front = [] then s.condNext else Function.update s.condNext (front.getLastD 0) (back.headD 0))
      (if back = [] then s.condPrev else Function.update s.condPrev (back.headD 0) (front.getLastD 0)) with
      waiters := Function.update s.waiters c ((front ++ back).headD 0) } := by
  obtain ⟨hprev, hnext, otherPrev, otherNext, first, last⟩ := ok.place tasks
  obtain ⟨node, live, _⟩ := ok.live nodes (show t ∈ front ++ t :: back by simp)
  rw [condPrev_eq live] at hprev otherPrev first
  rw [condNext_eq live] at hnext otherNext last
  have lives : ∀ b, b ∈ front ++ t :: back → ∃ node, s.condNode b = some node := by
    intro b member
    obtain ⟨node, live, _⟩ := ok.live nodes member
    exact ⟨node, live⟩
  let after := if node.prev = 0 then s.condNext else Function.update s.condNext node.prev node.next
  let prior := if node.next = 0 then s.condPrev else Function.update s.condPrev node.next node.prev
  have sameAfter : after t = node.next := by
    by_cases null : node.prev = 0
    · simp [after, null, condNext_eq live]
    · simp [after, null, otherPrev.symm, condNext_eq live]
  have samePrior : prior t = node.prev := by
    by_cases null : node.next = 0
    · simp [prior, null, condPrev_eq live]
    · simp [prior, null, otherNext.symm, condPrev_eq live]
  -- The node before it, the node after it, and the node itself, which neither store changes.
  have store : s.condStoreField node.prev (fun before => { before with next := node.next }) =
      some (s.relink after s.condPrev) := by
    have store := @relink_storeNext s node.prev s.condNext s.condPrev (fun some => lives _ ?_) node.next
    · rwa [relink_self] at store
    · rw [hprev] at some ⊢
      exact List.mem_append_left _ (getLastD_mem some)
  have kept : (s.relink after s.condPrev).condNode t = some node := by
    simp [live, sameAfter, condPrev_eq live]
  have store' : (s.relink after s.condPrev).condStoreField node.next (fun after => { after with prev := node.prev }) =
      some (s.relink after prior) := by
    refine relink_storePrev (fun some => lives _ ?_) node.prev
    rw [hnext] at some ⊢
    cases back with
    | nil => exact absurd rfl some
    | cons second back => simp
  have kept' : (s.relink after prior).condNode t = some node := by
    simp [live, sameAfter, samePrior]
  have links : after = (if front = [] then s.condNext else
      Function.update s.condNext (front.getLastD 0) (back.headD 0)) ∧ prior = (if back = [] then s.condPrev else
      Function.update s.condPrev (back.headD 0) (front.getLastD 0)) := by
    simp only [after, prior, first, last]
    rw [hprev, hnext]
    exact ⟨rfl, rfl⟩
  rw [← links.1, ← links.2]
  simp only [SyncSystem.condUnlink, live, store, kept, store', kept', Option.bind_eq_bind, Option.bind_some]
  have head := ok.head
  cases front with
  | nil =>
    have here : s.waiters c = t := head
    simp [here, hnext]
  | cons b front =>
    have here : s.waiters c = b := head
    have other : b ≠ t := by
      rintro rfl
      simpa using ok.nodup
    have same : Function.update s.waiters c b = s.waiters := by
      rw [← here, Function.update_eq_self]
    simp [here, other, same]
    rfl

theorem Inv.timedOut (inv : s.Inv) (outside : (s.calls t).mutex = none) (cond : (s.calls t).cond = some c)
    (kept : s.removed t = false) :
    ∃ mid, s.condUnlink t c = some mid ∧ (mid.condReturn t).Inv ∧ mid.removed = s.removed ∧ mid.calls = s.calls := by
  obtain ⟨order, ok⟩ := inv.conds c
  obtain ⟨front, back, rfl⟩ := List.append_of_mem ((ok.mem t).mpr ⟨cond, kept⟩)
  refine ⟨_, ok.condUnlink inv.tasks inv.nodes, ?_, rfl, rfl⟩
  have sub : (front ++ back).Sublist (front ++ t :: back) :=
    List.Sublist.append_left (List.sublist_cons_self t back) front
  have fresh : t ∉ front ++ back := by
    have nodup := ok.nodup.perm List.perm_middle
    exact (List.nodup_cons.mp nodup).1
  refine Without.returned ⟨inv.tasks.null, inv.tasks.active⟩ (fun m => ?_) ?_ (fun c' => ?_) outside
  · obtain ⟨chain, ok⟩ := inv.mutexes m
    exact ⟨chain, ok.congr rfl (fun _ _ => rfl) (fun _ => Iff.rfl) rfl fun _ _ up => up⟩
  · exact inv.nodes.relink.congr rfl (fun _ => rfl) rfl inv.nodes.awake inv.nodes.signalled
  · by_cases here : c' = c
    · subst here
      refine ⟨front ++ back, Function.update_self .., ?_, ok.nodup.sublist sub, fresh, fun b other => ?_⟩
      · refine (ok.linked.remove ok.nodup).congr fun b member => ?_
        obtain ⟨node, live, _⟩ := ok.live inv.nodes (sub.subset member)
        exact ⟨relink_next live, relink_prev live⟩
      · refine Iff.trans ?_ (ok.mem b)
        simp [other]
    · obtain ⟨order, ok'⟩ := inv.conds c'
      have apart : ∀ b, b ∈ order → b ∉ front ++ t :: back := fun b member inside => ok.apart ok' here inside member
      refine ⟨order, (Function.update_of_ne here ..).trans ok'.head, ok'.linked.congr fun b member => ?_, ok'.nodup,
        fun member => apart t member (by simp), fun b _ => ok'.mem b⟩
      obtain ⟨node, live, _⟩ := ok'.live inv.nodes member
      obtain ⟨sameAfter, samePrior⟩ := @Linked.remove_frame _ s.condNext s.condPrev 0 0 t front back _ b (apart b member)
      exact ⟨(relink_next live).trans sameAfter, (relink_prev live).trans samePrior⟩

end HevTaskSystem.SyncSystem
