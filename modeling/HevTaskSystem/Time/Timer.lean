import HevTaskSystem.RBTree.Sorted
import HevTaskSystem.Scheduler.Pool
import HevTaskSystem.Time.Clock

/-! The timer, `kern/time/hev-task-timer.c`.

A sleeping task has a node on its stack, linked into a tree sorted by expiry. A check
of the timer wakes the task of the first node only; when that task goes on it takes
its node out and checks again. Clock readings come with each call.
-/

set_option autoImplicit false

namespace HevTaskSystem

open Foundation

/-- `HevTaskTimer`, with the fields of the nodes: the tree is keyed by `expire`. -/
structure TaskTimer where
  sort : Keyed Timespec
  task : Addr → Addr
  cachedCurr : Timespec
  cachedCurrValid : Bool
  pollDeadline : Timespec

/-- A call of `hev_task_timer_wait` during its yield: its node, its argument and its
local `leftmost`. Nothing reads the clock reading `start` of the call again. -/
structure TimerWait where
  node : Addr
  milliseconds : Nat
  leftmost : Bool
  start : Timespec
  deriving DecidableEq, Repr

namespace TaskTimer

def first (self : TaskTimer) : Addr := self.sort.tree.cachedFirst

def firstExpire (self : TaskTimer) : Timespec := self.sort.field self.first

/-- `hev_task_timer_get_timeout`; the remaining time becomes an `int`. -/
def getTimeout (self : TaskTimer) (clock : Timespec) : Int × TaskTimer :=
  if self.first = 0 then (-1, self)
  else if self.cachedCurrValid then
    (toInt (self.cachedCurr.getTime self.firstExpire), { self with cachedCurrValid := false })
  else
    (toInt (clock.getTime self.firstExpire), self)

def wakeup (self : TaskTimer) (curr : Timespec) (pool : TaskPool) : Option TaskPool :=
  if self.first = 0 then some pool
  else if timerCmp curr self.firstExpire < 0 then some pool
  else pool.wakeup (self.task self.first)

def wake (self : TaskTimer) (clock : Timespec) (pool : TaskPool) : Option (TaskTimer × TaskPool) := do
  let self := { self with cachedCurrValid := false }
  if self.first = 0 then
    return (self, pool)
  else
    return (self, ← self.wakeup clock pool)

def pollDue (self : TaskTimer) (clock : Timespec) : Bool :=
  if timerCmp clock self.pollDeadline < 0 then
    -- Before the deadline only a timer that expires no later than it makes a poll due.
    !(self.first = 0 || timerCmp self.firstExpire self.pollDeadline > 0)
  else
    true

def pollRearm (self : TaskTimer) (interval : Nat) (clock : Timespec) : TaskTimer :=
  { self with pollDeadline := clock.addNs interval }

/-- `hev_task_timer_wait` up to its yield, with the flag it goes on with. -/
def wait (fuel : Nat) (self : TaskTimer) (milliseconds : Nat) (task node : Addr) (clock : Timespec) :
    Option (TaskTimer × Bool) := do
  let expire := clock.getExpire milliseconds
  let less this := timerLess node expire this (self.sort.field this)
  let s ← loop (RBTreeCached.descentPass self.sort.tree.base less) fuel ⟨.root, 0, true⟩
  let tree := { self.sort.tree with base := ← self.sort.tree.base.nodeLink node s.parent s.link }
  let tree ← tree.cachedInsertColor fuel node s.leftmost
  return ({ self with
    sort := ⟨tree, Function.update self.sort.field node expire, self.sort.nodes ++ [node]⟩
    task := Function.update self.task node task
    cachedCurr := clock
    cachedCurrValid := true }, s.leftmost)

def checks (self : TaskTimer) (w : TimerWait) : Bool := w.leftmost || w.node = self.first

/-- `hev_task_timer_wait` after its yield, with its result. -/
def waitReturn (fuel : Nat) (self : TaskTimer) (w : TimerWait) (clock : Timespec) (pool : TaskPool) :
    Option (TaskTimer × TaskPool × Nat) := do
  -- The flag is that of the insertion; a node that has become the first since is checked as well.
  let leftmost := self.checks w
  let sort ← (KeyedOp.erase w.node).apply timerLess fuel self.sort
  let self := { self with sort := sort }
  let pool ← (if leftmost then self.wakeup clock pool else some pool)
  return (self, pool, clock.getTime (self.sort.field w.node))

/-! ## The first node -/

variable {self next : TaskTimer} {pool after : TaskPool} {node a : Addr} {clock : Timespec} {fuel : Nat}

theorem timerLess_iff (a : Addr) (x : Timespec) (b : Addr) (y : Timespec) :
    timerLess a x b y = true ↔ timerKey a x < timerKey b y := by
  rw [timerLess, decide_eq_true_iff, timerNodeCmp_neg]

theorem timerKey_addr {a b : Addr} {x y : Timespec} (same : timerKey a x = timerKey b y) : a = b := by
  simp only [timerKey, EmbeddingLike.apply_eq_iff_eq, Prod.mk.injEq] at same
  exact same.2.2

theorem timerCmp_le_of_key {a b : Addr} {x y : Timespec} (smaller : timerKey a x ≤ timerKey b y) :
    timerCmp x y ≤ 0 := by
  by_contra greater
  have before : timerCmp y x < 0 := by
    rw [timerCmp_neg]
    unfold timerCmp at greater
    split_ifs at greater <;> omega
  refine absurd smaller (not_le.mpr (timerNodeCmp_neg.mp ?_))
  rw [timerNodeCmp, if_pos (by omega)]
  exact before

theorem timerKey_ns {a b : Addr} {x y : Timespec} (left : x.Normal) (right : y.Normal)
    (smaller : timerKey a x ≤ timerKey b y) : x.ns ≤ y.ns := by
  have order := timerCmp_le_of_key smaller
  by_contra less
  have after := (left.cmp_pos right).mpr (not_le.mp less)
  omega

theorem first_eq_zero (sorted : self.sort.Sorted timerKey) : self.first = 0 ↔ self.sort.nodes = [] := by
  obtain ⟨order, holds, perm, _⟩ := sorted
  exact (Keyed.Sound.firstAgrees ⟨order, holds, perm⟩).null

theorem first_mem (sorted : self.sort.Sorted timerKey) (nonempty : self.first ≠ 0) :
    self.first ∈ self.sort.nodes :=
  (sorted.firstLeast (mt (first_eq_zero sorted).mpr nonempty)).1

theorem first_le (sorted : self.sort.Sorted timerKey) (member : a ∈ self.sort.nodes) :
    timerKey self.first self.firstExpire ≤ timerKey a (self.sort.field a) := by
  by_cases same : a = self.first
  · rw [firstExpire, same]
  · rcases (sorted.firstLeast (List.ne_nil_of_mem member)).2 a member same with less | ⟨equal, _⟩
    · exact le_of_lt less
    · exact le_of_eq equal

theorem first_unique (sorted : self.sort.Sorted timerKey) (member : a ∈ self.sort.nodes)
    (least : ∀ b ∈ self.sort.nodes, timerKey a (self.sort.field a) ≤ timerKey b (self.sort.field b)) :
    self.first = a :=
  timerKey_addr (le_antisymm (first_le sorted member)
    (least _ (sorted.firstLeast (List.ne_nil_of_mem member)).1))

end TaskTimer

/-! ## Waking -/

def TaskPool.Woken (pool next : TaskPool) : Prop :=
  ∀ a, next a = pool a ∨ (pool a = some .waiting ∧ next a = some .running)

namespace TaskPool

variable {pool mid next : TaskPool} {t : Addr}

theorem Woken.refl (pool : TaskPool) : Woken pool pool := fun _ => .inl rfl

theorem Woken.trans (first : Woken pool mid) (second : Woken mid next) : Woken pool next := by
  intro a
  rcases second a with same | ⟨waiting, running⟩
  · rw [same]
    exact first a
  · rcases first a with same | ⟨_, up⟩
    · exact .inr ⟨same ▸ waiting, running⟩
    · exact absurd (up.symm.trans waiting) (by simp)

theorem Woken.running (woken : Woken pool next) (running : pool t = some .running) : next t = some .running := by
  rcases woken t with same | ⟨_, up⟩
  · exact same.trans running
  · exact up

theorem Woken.active (woken : Woken pool next) (active : pool t = some .running ∨ pool t = some .waiting) :
    next t = some .running ∨ next t = some .waiting := by
  rcases woken t with same | ⟨_, up⟩
  · rw [same]
    exact active
  · exact .inl up

theorem woken_of_wakeup (run : pool.wakeup t = some next) : Woken pool next ∧ next t = some .running := by
  unfold wakeup at run
  split at run
  · rename_i running
    cases run
    exact ⟨.refl pool, running⟩
  · rename_i waiting
    cases run
    refine ⟨fun a => ?_, Function.update_self ..⟩
    by_cases here : a = t
    · subst here
      exact .inr ⟨waiting, Function.update_self ..⟩
    · exact .inl (Function.update_of_ne here ..)
  · cases run

theorem woken_of_events {events : List Addr} (run : events.foldlM wakeup pool = some next) :
    Woken pool next := by
  induction events generalizing pool with
  | nil =>
    cases run
    exact .refl _
  | cons t events ih =>
    simp only [List.foldlM_cons, Option.bind_eq_bind, Option.bind_eq_some_iff] at run
    obtain ⟨mid, one, rest⟩ := run
    exact (woken_of_wakeup one).1.trans (ih rest)

theorem events_return {events : List Addr}
    (active : ∀ t ∈ events, pool t = some .running ∨ pool t = some .waiting) :
    ∃ next, events.foldlM wakeup pool = some next := by
  induction events generalizing pool with
  | nil => exact ⟨pool, rfl⟩
  | cons t events ih =>
    have one := wakeup_eq (active t List.mem_cons_self)
    have woken := (woken_of_wakeup one).1
    obtain ⟨next, rest⟩ := ih fun a member => woken.active (active a (List.mem_cons_of_mem _ member))
    exact ⟨next, by rw [List.foldlM_cons, one]; exact rest⟩

end TaskPool

namespace TaskTimer

variable {self next : TaskTimer} {pool after : TaskPool} {node a task : Addr} {clock time : Timespec} {fuel : Nat}

/-- The first node was not due at the time, or its task has been woken. -/
def Served (self : TaskTimer) (pool : TaskPool) (time : Timespec) : Prop :=
  self.first ≠ 0 → timerCmp time self.firstExpire < 0 ∨ pool (self.task self.first) = some .running

theorem wakeup_served (run : self.wakeup clock pool = some after) :
    self.Served after clock ∧ pool.Woken after := by
  unfold wakeup at run
  split at run
  · rename_i empty
    cases run
    exact ⟨fun nonempty => absurd empty nonempty, .refl pool⟩
  · split at run
    · rename_i early
      cases run
      exact ⟨fun _ => .inl early, .refl pool⟩
    · obtain ⟨woken, running⟩ := TaskPool.woken_of_wakeup run
      exact ⟨fun _ => .inr running, woken⟩

theorem wakeup_returns (active : self.first ≠ 0 →
    pool (self.task self.first) = some .running ∨ pool (self.task self.first) = some .waiting) :
    ∃ after, self.wakeup clock pool = some after := by
  unfold wakeup
  split
  · exact ⟨_, rfl⟩
  · split
    · exact ⟨_, rfl⟩
    · exact ⟨_, TaskPool.wakeup_eq (active ‹_›)⟩

theorem wake_served (run : self.wake clock pool = some (next, after)) :
    next = { self with cachedCurrValid := false } ∧ self.Served after clock ∧ pool.Woken after := by
  unfold wake at run
  dsimp only at run
  split at run
  · rename_i empty
    cases run
    exact ⟨rfl, fun nonempty => absurd empty nonempty, .refl _⟩
  · simp only [Option.bind_eq_bind, Option.bind_eq_some_iff, Option.pure_def, Option.some.injEq,
      Prod.mk.injEq] at run
    obtain ⟨_, check, rfl, rfl⟩ := run
    exact ⟨rfl, wakeup_served check⟩

theorem wake_returns (active : self.first ≠ 0 →
    pool (self.task self.first) = some .running ∨ pool (self.task self.first) = some .waiting) :
    ∃ next after, self.wake clock pool = some (next, after) := by
  unfold wake
  dsimp only
  split
  · exact ⟨_, _, rfl⟩
  · obtain ⟨after, run⟩ := @wakeup_returns { self with cachedCurrValid := false } pool clock active
    exact ⟨_, after, by rw [run]; rfl⟩

/-! ## Linking and unlinking the node -/

variable {milliseconds : Nat} {flag : Bool} {w : TimerWait} {result : Nat}

theorem wait_insert (run : self.wait fuel milliseconds task node clock = some (next, flag)) :
    (KeyedOp.insert node (clock.getExpire milliseconds)).apply timerLess fuel self.sort = some next.sort ∧
      next = { self with
        sort := next.sort
        task := Function.update self.task node task
        cachedCurr := clock
        cachedCurrValid := true } := by
  simp only [wait, Option.bind_eq_bind, Option.bind_eq_some_iff, Option.pure_def, Option.some.injEq,
    Prod.mk.injEq] at run
  obtain ⟨s, descent, base, link, tree, color, rfl, _⟩ := run
  refine ⟨?_, rfl⟩
  simp only [KeyedOp.apply, RBTreeCached.insertBy, Option.bind_eq_bind, descent, link, color,
    Option.bind_some, Option.pure_def]

theorem wait_fields (run : self.wait fuel milliseconds task node clock = some (next, flag)) :
    next.sort.field = Function.update self.sort.field node (clock.getExpire milliseconds) ∧
      next.sort.nodes = self.sort.nodes ++ [node] ∧ next.task = Function.update self.task node task := by
  obtain ⟨insert, shape⟩ := wait_insert run
  obtain ⟨field, nodes⟩ := KeyedOp.insert_fields insert
  exact ⟨field, nodes, by rw [shape]⟩

theorem wait_sorted (sorted : self.sort.Sorted timerKey) (fresh : RBTree.Op.Fresh node self.sort.nodes)
    (run : self.wait fuel milliseconds task node clock = some (next, flag)) : next.sort.Sorted timerKey :=
  @Keyed.Sorted.keep _ _ _ _ _ (.insert node (clock.getExpire milliseconds)) _ _ timerLess_iff sorted trivial
    ⟨fresh, fuel, (wait_insert run).1⟩

theorem wait_returns (sorted : self.sort.Sorted timerKey) (fresh : RBTree.Op.Fresh node self.sort.nodes)
    (bound : self.sort.nodes.length < fuel) :
    ∃ next flag, self.wait fuel milliseconds task node clock = some (next, flag) := by
  obtain ⟨order, holds, perm, _⟩ := sorted
  obtain ⟨sort, _, run, _⟩ := @KeyedOp.apply_spec _ timerLess self.sort
    (.insert node (clock.getExpire milliseconds)) fuel order holds perm fresh bound
  simp only [KeyedOp.apply, RBTreeCached.insertBy, Option.bind_eq_bind, Option.bind_eq_some_iff,
    Option.pure_def, Option.some.injEq] at run
  obtain ⟨tree, ⟨s, descent, base, link, color⟩, rfl⟩ := run
  exact ⟨_, s.leftmost, by simp only [wait, Option.bind_eq_bind, descent, link, color, Option.bind_some]; rfl⟩

theorem waitReturn_erase (run : self.waitReturn fuel w clock pool = some (next, after, result)) :
    (KeyedOp.erase w.node).apply timerLess fuel self.sort = some next.sort ∧
      next = { self with sort := next.sort } ∧
      (if self.checks w then next.wakeup clock pool else some pool) = some after ∧
      result = clock.getTime (self.sort.field w.node) := by
  simp only [waitReturn, Option.bind_eq_bind, Option.bind_eq_some_iff, Option.pure_def, Option.some.injEq,
    Prod.mk.injEq] at run
  obtain ⟨sort, erase, pool', check, rfl, rfl, rfl⟩ := run
  refine ⟨erase, rfl, check, ?_⟩
  rw [(KeyedOp.erase_fields erase).1]

theorem waitReturn_fields (run : self.waitReturn fuel w clock pool = some (next, after, result)) :
    next.sort.field = self.sort.field ∧ next.sort.nodes = self.sort.nodes.erase w.node ∧
      next.task = self.task := by
  obtain ⟨erase, shape, _⟩ := waitReturn_erase run
  obtain ⟨field, nodes⟩ := KeyedOp.erase_fields erase
  exact ⟨field, nodes, by rw [shape]⟩

theorem waitReturn_woken (run : self.waitReturn fuel w clock pool = some (next, after, result)) :
    pool.Woken after := by
  obtain ⟨_, _, check, _⟩ := waitReturn_erase run
  split_ifs at check
  · exact (wakeup_served check).2
  · rw [Option.some.inj check]
    exact .refl after

theorem waitReturn_sorted (sorted : self.sort.Sorted timerKey) (member : w.node ∈ self.sort.nodes)
    (run : self.waitReturn fuel w clock pool = some (next, after, result)) : next.sort.Sorted timerKey :=
  @Keyed.Sorted.keep _ _ _ _ _ (.erase w.node) _ _ timerLess_iff sorted trivial
    ⟨member, fuel, (waitReturn_erase run).1⟩

theorem waitReturn_returns (sorted : self.sort.Sorted timerKey) (member : w.node ∈ self.sort.nodes)
    (active : ∀ n ∈ self.sort.nodes,
      pool (self.task n) = some .running ∨ pool (self.task n) = some .waiting)
    (bound : self.sort.nodes.length < fuel) :
    ∃ next after result, self.waitReturn fuel w clock pool = some (next, after, result) := by
  have ⟨order, holds, perm, _⟩ := sorted
  obtain ⟨sort, _, erase, _⟩ := @KeyedOp.apply_spec _ timerLess self.sort (.erase w.node) fuel order holds perm
    member bound
  have rest : sort.Sorted timerKey :=
    @Keyed.Sorted.keep _ _ _ _ _ (.erase w.node) _ _ timerLess_iff sorted trivial ⟨member, fuel, erase⟩
  obtain ⟨after, check⟩ : ∃ after, TaskTimer.wakeup { self with sort := sort } clock pool = some after := by
    refine wakeup_returns fun nonempty => active _ ?_
    have inside := @first_mem { self with sort := sort } rest nonempty
    have kept : sort.nodes = self.sort.nodes.erase w.node := (KeyedOp.erase_fields erase).2
    exact List.mem_of_mem_erase (kept ▸ inside)
  unfold waitReturn
  simp only [erase, Option.bind_eq_bind, Option.bind_some]
  split_ifs
  · exact ⟨_, after, _, by rw [check]; rfl⟩
  · exact ⟨_, pool, _, rfl⟩

end TaskTimer

end HevTaskSystem
