import Mathlib.Data.List.Pairwise
import HevTaskSystem.Scheduler.Passes

/-! The order in which one poll wakes its tasks, and the order in which they are picked.

A task that is woken gets its priority on top of the least key in the tree. As long as
the tree has a task and no key wraps, no task woken by the poll changes that key, so the
tasks end up in the order of their priorities, whatever the order of the events. In an
empty tree, and after a key has wrapped, the key of the task that was woken becomes the
least one.
-/

set_option autoImplicit false

namespace HevTaskSystem

open Foundation

namespace SystemContext

variable {ctx mid next : SystemContext} {active : Finset Addr} {a b : Addr} {fuel : Nat} {events : List Addr}
  {polls : List (List Addr)} {clock : Option Timespec}

/-! ## The keys of the tasks that a poll wakes -/

theorem ioPoll_append (first second : List Addr) :
    ctx.ioPoll fuel (first ++ second) = (ctx.ioPoll fuel first).bind fun mid => mid.ioPoll fuel second :=
  List.foldlM_append

theorem Core.wake (core : ctx.Core active) (bound : active.card < fuel) (waiting : ctx.stateOf a = some .waiting) :
    ∃ mid, ctx.ioPoll fuel [a] = some mid ∧ mid.Core active ∧
      mid.stateOf = Function.update ctx.stateOf a (some .running) ∧
      mid.schedKey = Function.update ctx.schedKey a ((ctx.schedKey a + ctx.getMinSchedKey) % 2 ^ 64) ∧
      (∀ c, c ≠ a → mid.tasks c = ctx.tasks c) ∧ mid.arrivals = ctx.arrivals ++ [a] := by
  obtain ⟨mid, wake, polled, states⟩ := core.wakeupTask ((core.active a).mpr (.inr waiting)) bound
  rcases wakeupTask_fields wake with ⟨_, runs⟩ | ⟨task, found, _, tasks, arrivals, _⟩
  · cases waiting.symm.trans runs
  refine ⟨mid, ?_, polled.core, states, ?_, fun c other => by rw [tasks, Function.update_of_ne other], arrivals⟩
  · simp only [SystemContext.ioPoll, List.foldlM_cons, List.foldlM_nil, wake]
    rfl
  · rw [schedKey_of_tasks tasks, schedKey_eq found]

/-- The first node afterwards is the task that was woken, or was in the tree before. -/
theorem Core.min_of_wake {key : Nat} (after : next.Core active)
    (states : next.stateOf = Function.update ctx.stateOf a (some .running))
    (keys : next.schedKey = Function.update ctx.schedKey a key) :
    next.getMinSchedKey ≤ key ∧ (next.getMinSchedKey = key ∨
      ∃ c, ctx.stateOf c = some .running ∧ next.getMinSchedKey = ctx.schedKey c) := by
  have runs : next.stateOf a = some .running := by rw [states, Function.update_self]
  obtain ⟨member, least⟩ := after.first_le runs
  have first := (after.running _).mp member
  rw [← after.getMinSchedKey_eq runs, keys, Function.update_self] at least
  refine ⟨least, ?_⟩
  rw [after.getMinSchedKey_eq runs, keys]
  by_cases here : next.runningTasks.cachedFirst = a
  · rw [here, Function.update_self]
    exact .inl rfl
  · rw [states, Function.update_of_ne here] at first
    rw [Function.update_of_ne here]
    exact .inr ⟨_, first, rfl⟩

theorem Core.min_kept {key : Nat} (core : ctx.Core active) (after : next.Core active)
    (waiting : ctx.stateOf a = some .waiting) (states : next.stateOf = Function.update ctx.stateOf a (some .running))
    (keys : next.schedKey = Function.update ctx.schedKey a key) (running : ctx.stateOf b = some .running)
    (above : ctx.getMinSchedKey ≤ key) : next.getMinSchedKey = ctx.getMinSchedKey := by
  apply Nat.le_antisymm
  · -- The first node before the wakeup is still in the tree.
    have front := (core.running _).mp (core.first_le running).1
    have other : ctx.runningTasks.cachedFirst ≠ a := by
      intro same
      cases waiting.symm.trans (same ▸ front)
    have front' : next.stateOf ctx.runningTasks.cachedFirst = some .running := by
      rw [states, Function.update_of_ne other, front]
    have least := (after.first_le front').2
    rw [← after.getMinSchedKey_eq front', keys, Function.update_of_ne other, ← core.getMinSchedKey_eq running] at least
    exact least
  · rcases (after.min_of_wake states keys).2 with same | ⟨c, before, same⟩
    · rw [same]
      exact above
    · rw [same, core.getMinSchedKey_eq before]
      exact (core.first_le before).2

theorem Core.min_taken {key : Nat} (after : next.Core active)
    (states : next.stateOf = Function.update ctx.stateOf a (some .running))
    (keys : next.schedKey = Function.update ctx.schedKey a key)
    (below : ∀ c, ctx.stateOf c = some .running → key ≤ ctx.schedKey c) : next.getMinSchedKey = key := by
  obtain ⟨least, same | ⟨c, before, same⟩⟩ := after.min_of_wake states keys
  · exact same
  · exact Nat.le_antisymm least (by rw [same]; exact below c before)

/-- The tasks have been woken with the least key of the tree on top of their keys. -/
structure Raised (ctx next : SystemContext) (active : Finset Addr) (events : List Addr) : Prop where
  core : next.Core active
  woken : ∀ a ∈ events, next.stateOf a = some .running ∧ next.schedKey a = ctx.schedKey a + ctx.getMinSchedKey
  others : ∀ c, c ∉ events → next.tasks c = ctx.tasks c
  min : next.getMinSchedKey = ctx.getMinSchedKey
  arrivals : next.arrivals = ctx.arrivals ++ events

theorem Raised.stays (raised : ctx.Raised next active events) (waiting : ∀ a ∈ events, ctx.stateOf a = some .waiting)
    (running : ctx.stateOf b = some .running) : ctx.Stays next b := by
  refine .of_tasks running (raised.others b fun member => ?_)
  cases running.symm.trans (waiting b member)

theorem Core.poll_raised (core : ctx.Core active) (bound : active.card < fuel) (running : ctx.stateOf b = some .running)
    (nodup : events.Nodup) (waiting : ∀ a ∈ events, ctx.stateOf a = some .waiting)
    (fits : ∀ a ∈ events, ctx.schedKey a + ctx.getMinSchedKey < 2 ^ 64) :
    ∃ next, ctx.ioPoll fuel events = some next ∧ ctx.Raised next active events := by
  induction events generalizing ctx with
  | nil => exact ⟨ctx, rfl, core, by simp, fun _ _ => rfl, rfl, by simp⟩
  | cons a events ih =>
    obtain ⟨outside, nodup⟩ := List.nodup_cons.mp nodup
    have waits := waiting a List.mem_cons_self
    obtain ⟨mid, wake, core', states, keys, others, arrivals⟩ := core.wake bound waits
    rw [Nat.mod_eq_of_lt (fits a List.mem_cons_self)] at keys
    have min := core.min_kept core' waits states keys running (Nat.le_add_left ..)
    have other : ∀ c ∈ events, c ≠ a := fun c member same => outside (same ▸ member)
    have runs : mid.stateOf b = some .running := by
      rw [states, Function.update_of_ne]
      · exact running
      · rintro rfl
        cases waits.symm.trans running
    obtain ⟨next, poll, raised⟩ := ih core' runs nodup
      (fun c member => by
        rw [states, Function.update_of_ne (other c member)]
        exact waiting c (List.mem_cons_of_mem _ member))
      (fun c member => by
        rw [keys, Function.update_of_ne (other c member), min]
        exact fits c (List.mem_cons_of_mem _ member))
    refine ⟨next, ?_, raised.core, fun c member => ?_, fun c absent => ?_, raised.min.trans min, ?_⟩
    · rw [← List.singleton_append, ioPoll_append, wake]
      exact poll
    · rcases List.mem_cons.mp member with rfl | later
      · have same := raised.others c outside
        rw [stateOf, schedKey, same]
        change mid.stateOf c = _ ∧ mid.schedKey c = _
        rw [states, keys, Function.update_self, Function.update_self]
        exact ⟨rfl, rfl⟩
      · obtain ⟨runs, key⟩ := raised.woken c later
        exact ⟨runs, by rw [key, keys, Function.update_of_ne (other c later), min]⟩
    · rw [raised.others c fun member => absent (List.mem_cons_of_mem _ member)]
      exact others c fun same => absent (same ▸ List.mem_cons_self)
    · rw [raised.arrivals, arrivals, List.append_assoc]
      rfl

/-- A task that is woken into an empty tree, or with a key that wraps, comes first. -/
def Leads (ctx : SystemContext) (a : Addr) : Prop :=
  ctx.runningTaskCount = 0 ∨ 2 ^ 64 ≤ ctx.nextPriority a + ctx.getMinSchedKey

theorem Core.min_of_idle (core : ctx.Core active) (idle : ctx.runningTaskCount = 0) :
    (∀ b, ctx.stateOf b ≠ some .running) ∧ ctx.getMinSchedKey = 0 := by
  have none : ∀ b, ctx.stateOf b ≠ some .running := fun b runs => core.count_ne_zero.mpr ⟨b, runs⟩ idle
  exact ⟨none, (core.least fun _ => 0).empty fun b => queue_of_not_running (none b)⟩

theorem Core.min_lt (core : ctx.Core active) (rated : ctx.Rated 0) : ctx.getMinSchedKey < 2 ^ 64 := by
  by_cases idle : ctx.runningTaskCount = 0
  · rw [(core.min_of_idle idle).2]
    decide
  · obtain ⟨b, running⟩ := core.count_ne_zero.mp idle
    obtain ⟨task, found, _⟩ := exists_task ((core.running _).mp (core.first_le running).1)
    rw [core.getMinSchedKey_eq running, schedKey_eq found]
    exact (rated _ task found).key

theorem Rated.settled_le (rated : ctx.Rated 0) (settled : ctx.Settled a) : ctx.schedKey a ≤ 15 := by
  obtain ⟨task, found, waiting⟩ := exists_task settled.1
  rw [schedKey_eq found]
  exact ((rated a task found).wake waiting).2

theorem Leads.key (leads : ctx.Leads a) (core : ctx.Core active) (rated : ctx.Rated 0) (settled : ctx.Settled a) :
    (ctx.schedKey a + ctx.getMinSchedKey) % 2 ^ 64 ≤ 15 ∧
      ∀ c, ctx.stateOf c = some .running → (ctx.schedKey a + ctx.getMinSchedKey) % 2 ^ 64 < ctx.schedKey c := by
  have small := rated.settled_le settled
  rcases leads with idle | wraps
  · obtain ⟨none, zero⟩ := core.min_of_idle idle
    refine ⟨?_, fun c runs => absurd runs (none c)⟩
    rw [zero]
    omega
  · rw [← settled.2] at wraps
    have low := core.min_lt rated
    have wrapped : (ctx.schedKey a + ctx.getMinSchedKey) % 2 ^ 64 = ctx.schedKey a + ctx.getMinSchedKey - 2 ^ 64 := by
      omega
    refine ⟨by omega, fun c runs => ?_⟩
    have least := (core.first_le runs).2
    rw [← core.getMinSchedKey_eq runs] at least
    omega

/-- After a task that comes first, the others get its key on top of theirs. -/
structure Headed (ctx next : SystemContext) (active : Finset Addr) (a : Addr) (events : List Addr) : Prop where
  core : next.Core active
  woken : ∀ b ∈ a :: events, next.stateOf b = some .running
  key : next.schedKey a = (ctx.schedKey a + ctx.getMinSchedKey) % 2 ^ 64
  keys : ∀ b ∈ events, next.schedKey b = ctx.schedKey b + next.schedKey a
  stays : ∀ c, ctx.stateOf c = some .running → ctx.Stays next c
  arrivals : next.arrivals = ctx.arrivals ++ a :: events

theorem Leads.poll (leads : ctx.Leads a) (core : ctx.Core active) (rated : ctx.Rated 0) (bound : active.card < fuel)
    (nodup : (a :: events).Nodup) (settled : ∀ b ∈ a :: events, ctx.Settled b) :
    ∃ next, ctx.ioPoll fuel (a :: events) = some next ∧ ctx.Headed next active a events := by
  obtain ⟨outside, nodup⟩ := List.nodup_cons.mp nodup
  have first := settled a List.mem_cons_self
  obtain ⟨low, below⟩ := leads.key core rated first
  obtain ⟨mid, wake, core', states, keys, others, arrivals⟩ := core.wake bound first.1
  have min := core'.min_taken states keys fun c runs => (below c runs).le
  have runs : mid.stateOf a = some .running := by rw [states, Function.update_self]
  have later : ∀ b ∈ events, ctx.Settled b ∧ b ≠ a := fun b member =>
    ⟨settled b (List.mem_cons_of_mem _ member), fun same => outside (same ▸ member)⟩
  have waiting : ∀ b ∈ events, mid.stateOf b = some .waiting := fun b member => by
    rw [states, Function.update_of_ne (later b member).2]
    exact (later b member).1.1
  obtain ⟨next, poll, raised⟩ := core'.poll_raised bound runs nodup waiting fun b member => by
    have := rated.settled_le (later b member).1
    rw [keys, Function.update_of_ne (later b member).2, min]
    omega
  obtain ⟨runs', kept⟩ := raised.stays waiting runs
  have key : next.schedKey a = (ctx.schedKey a + ctx.getMinSchedKey) % 2 ^ 64 := by
    rw [kept, keys, Function.update_self]
  refine ⟨next, ?_, raised.core, fun b member => ?_, key, fun b member => ?_, fun c running => ?_, ?_⟩
  · rw [← List.singleton_append, ioPoll_append, wake]
    exact poll
  · rcases List.mem_cons.mp member with rfl | member
    · exact runs'
    · exact (raised.woken b member).1
  · rw [(raised.woken b member).2, keys, Function.update_of_ne (later b member).2, min, key]
  · have other : c ≠ a := by
      rintro rfl
      cases first.1.symm.trans running
    have stays : ctx.Stays mid c := .of_tasks running (others c other)
    exact stays.trans (raised.stays waiting stays.1)
  · rw [raised.arrivals, arrivals, List.append_assoc]
    rfl

/-- The tree has a task and no key wraps, or the task of the first event comes first and has
the least priority. -/
def Led (ctx : SystemContext) (events : List Addr) : Prop :=
  (ctx.runningTaskCount ≠ 0 ∧ ∀ a ∈ events, ctx.nextPriority a + ctx.getMinSchedKey < 2 ^ 64) ∨
    ∀ a ∈ events.head?, ctx.Leads a ∧ ∀ b ∈ events, ctx.nextPriority a ≤ ctx.nextPriority b

theorem Core.poll_sorted (core : ctx.Core active) (rated : ctx.Rated 0) (bound : active.card < fuel)
    (nodup : events.Nodup) (settled : ∀ a ∈ events, ctx.Settled a) (led : ctx.Led events) :
    ∃ next, ctx.ioPoll fuel events = some next ∧ next.Core active ∧
      (∀ a ∈ events, next.stateOf a = some .running) ∧
      ∀ a ∈ events, ∀ b ∈ events, ctx.nextPriority a < ctx.nextPriority b → next.schedKey a < next.schedKey b := by
  rcases led with ⟨busy, fits⟩ | led
  · obtain ⟨b, running⟩ := core.count_ne_zero.mp busy
    obtain ⟨next, poll, raised⟩ := core.poll_raised bound running nodup (fun a member => (settled a member).1)
      fun a member => by
        rw [(settled a member).2]
        exact fits a member
    refine ⟨next, poll, raised.core, fun a member => (raised.woken a member).1, fun a first b second less => ?_⟩
    rw [(raised.woken a first).2, (raised.woken b second).2, (settled a first).2, (settled b second).2]
    exact Nat.add_lt_add_right less _
  · cases events with
    | nil => exact ⟨ctx, rfl, core, by simp, by simp⟩
    | cons a events =>
      obtain ⟨leads, least⟩ := led a rfl
      obtain ⟨next, poll, headed⟩ := leads.poll core rated bound nodup settled
      refine ⟨next, poll, headed.core, headed.woken, fun b first c second less => ?_⟩
      -- The first task has its own key, the others have that key on top of theirs.
      have key : ∀ d ∈ events, next.schedKey d = ctx.nextPriority d + next.schedKey a := fun d member => by
        rw [headed.keys d member, (settled d (List.mem_cons_of_mem _ member)).2]
      have above := least b first
      rcases List.mem_cons.mp first with rfl | first <;> rcases List.mem_cons.mp second with rfl | second
      · exact absurd less (Nat.lt_irrefl _)
      · have := key c second
        omega
      · omega
      · have := key b first
        have := key c second
        omega

theorem Settled.of_tasks (settled : ctx.Settled a) (same : next.tasks a = ctx.tasks a) :
    next.Settled a ∧ next.nextPriority a = ctx.nextPriority a := by
  simp only [Settled, stateOf, schedKey, nextPriority, same] at settled ⊢
  exact ⟨settled, trivial⟩

/-- Some woken task is in the tree before one with a smaller priority value. -/
structure Misplaced (ctx : SystemContext) (events : List Addr) (priority : Addr → Nat) (a b : Addr) : Prop where
  first : a ∈ events
  second : b ∈ events
  running : ctx.stateOf a = some .running
  running' : ctx.stateOf b = some .running
  precedes : ctx.keyed.Precedes bySchedKey a b
  less : priority b < priority a

theorem exists_first_wrap (low : ¬ 2 ^ 64 ≤ ctx.nextPriority a + ctx.getMinSchedKey)
    (wraps : ¬ ∀ b ∈ a :: events, ctx.nextPriority b + ctx.getMinSchedKey < 2 ^ 64) :
    ∃ front j back, a :: events = front ++ j :: back ∧ a ∈ front ∧
      2 ^ 64 ≤ ctx.nextPriority j + ctx.getMinSchedKey ∧
      ∀ b ∈ front, ctx.nextPriority b + ctx.getMinSchedKey < 2 ^ 64 := by
  obtain ⟨j, found⟩ : ∃ j, (a :: events).find? (fun b => 2 ^ 64 ≤ ctx.nextPriority b + ctx.getMinSchedKey) = some j := by
    refine Option.isSome_iff_exists.mp (List.find?_isSome.mpr ?_)
    push Not at wraps
    obtain ⟨b, member, high⟩ := wraps
    exact ⟨b, member, decide_eq_true high⟩
  obtain ⟨high, front, back, same, fits⟩ := List.find?_eq_some_iff_append.mp found
  replace high := of_decide_eq_true high
  refine ⟨front, j, back, same, ?_, high, fun b member => by simpa using fits b member⟩
  cases front with
  | nil =>
    obtain ⟨rfl, _⟩ := List.cons.inj same
    exact absurd high low
  | cons c front =>
    obtain ⟨rfl, _⟩ := List.cons.inj same
    exact List.mem_cons_self

/-- A task whose key wraps goes before the tasks that were woken before it. -/
theorem Core.poll_wrapped (core : ctx.Core active) (rated : ctx.Rated 0) (bound : active.card < fuel)
    (nodup : (a :: events).Nodup) (settled : ∀ b ∈ a :: events, ctx.Settled b) (follows : ¬ ctx.Leads a)
    (wraps : ¬ ∀ b ∈ a :: events, ctx.nextPriority b + ctx.getMinSchedKey < 2 ^ 64) :
    ∃ next, ctx.ioPoll fuel (a :: events) = some next ∧ next.Core active ∧
      ∃ c b, next.Misplaced (a :: events) ctx.nextPriority c b := by
  obtain ⟨busy, low⟩ := not_or.mp follows
  obtain ⟨d, running⟩ := core.count_ne_zero.mp busy
  obtain ⟨front, j, back, same, before, high, fits⟩ := exists_first_wrap low wraps
  rw [same] at nodup settled ⊢
  obtain ⟨nodup, nodup', apart⟩ := List.nodup_append.mp nodup
  have inFront : ∀ b ∈ front, ctx.Settled b := fun b member => settled b (List.mem_append_left _ member)
  obtain ⟨mid, poll, raised⟩ := core.poll_raised bound running nodup (fun b member => (inFront b member).1)
    fun b member => by
      rw [(inFront b member).2]
      exact fits b member
  have rated' := rated.wakes (Wakes.refl.ioPoll poll)
  have behind : ∀ b ∈ j :: back, mid.Settled b ∧ mid.nextPriority b = ctx.nextPriority b := fun b member =>
    (settled b (List.mem_append_right _ member)).of_tasks (raised.others b fun first => apart b first b member rfl)
  have leads : mid.Leads j := .inr (by rw [(behind j List.mem_cons_self).2, raised.min]; exact high)
  obtain ⟨next, poll', headed⟩ := leads.poll raised.core rated' bound nodup' fun b member => (behind b member).1
  have runs := (raised.woken a before).1
  have less := (leads.key raised.core rated' (behind j List.mem_cons_self).1).2 a runs
  refine ⟨next, ?_, headed.core, j, a, List.mem_append_right _ List.mem_cons_self, List.mem_append_left _ before,
    headed.woken j List.mem_cons_self, (headed.stays a runs).1, .inl ?_, ?_⟩
  · rw [ioPoll_append, poll]
    exact poll'
  · simp only [keyed, bySchedKey]
    rw [headed.key, (headed.stays a runs).2]
    exact less
  · have := fits a before
    omega

/-- Otherwise some task comes before one with a smaller priority value. -/
theorem Core.poll_misplaced (core : ctx.Core active) (rated : ctx.Rated 0) (bound : active.card < fuel)
    (nodup : events.Nodup) (settled : ∀ a ∈ events, ctx.Settled a) (unled : ¬ ctx.Led events) :
    ∃ next, ctx.ioPoll fuel events = some next ∧ next.Core active ∧
      ∃ a b, next.Misplaced events ctx.nextPriority a b := by
  cases events with
  | nil => exact absurd (.inr fun a member => (by cases member)) unled
  | cons a events =>
    by_cases leads : ctx.Leads a
    · -- The first task has the least key, but not the least priority.
      obtain ⟨b, member, less⟩ : ∃ b ∈ a :: events, ctx.nextPriority b < ctx.nextPriority a := by
        by_contra none
        refine unled (.inr fun c first => ?_)
        cases first
        exact ⟨leads, fun b member => Nat.le_of_not_lt fun less => none ⟨b, member, less⟩⟩
      obtain ⟨next, poll, headed⟩ := leads.poll core rated bound nodup settled
      have later : b ∈ events := by
        rcases List.mem_cons.mp member with rfl | later
        · exact absurd less (Nat.lt_irrefl _)
        · exact later
      refine ⟨next, poll, headed.core, a, b, List.mem_cons_self, member, headed.woken a List.mem_cons_self,
        headed.woken b member, ?_, less⟩
      have key := headed.keys b later
      have queued : [a, b].Sublist next.arrivals := by
        rw [headed.arrivals]
        exact (List.Sublist.cons_cons a (List.singleton_sublist.mpr later)).trans (List.sublist_append_right ..)
      rcases Nat.eq_zero_or_pos (ctx.schedKey b) with zero | positive
      · exact .inr ⟨by simp only [keyed, bySchedKey]; omega, queued⟩
      · exact .inl (by simp only [keyed, bySchedKey]; omega)
    · exact core.poll_wrapped rated bound nodup settled leads fun fits => unled (.inl ⟨fun idle => leads (.inl idle), fits⟩)

theorem Core.woken_order {p : Addr → Nat} (core : ctx.Core active) (nodup : events.Nodup)
    (running : ∀ a ∈ events, ctx.stateOf a = some .running)
    (distinct : ∀ a ∈ events, ∀ b ∈ events, p a = p b → a = b)
    (sorted : ∀ a ∈ events, ∀ b ∈ events, p a < p b → ctx.schedKey a < ctx.schedKey b) :
    ∃ order, ctx.runningTasks.Holds order ∧ (order.filter (· ∈ events)).Perm events ∧
      (order.filter (· ∈ events)).Pairwise fun a b => p a < p b := by
  obtain ⟨order, holds, perm, pairwise⟩ := core.sorted
  have nodup' : order.Nodup := holds.base.nodup
  refine ⟨order, holds, ?_, ?_⟩
  · refine (List.perm_ext_iff_of_nodup (nodup'.filter _) nodup).mpr fun a => ?_
    rw [List.mem_filter, decide_eq_true_iff, and_iff_right_iff_imp]
    intro member
    exact perm.mem_iff.mpr ((core.running a).mpr (running a member))
  · refine ((pairwise.and nodup').filter _).imp_of_mem fun {a b} first second ⟨precedes, other⟩ => ?_
    have first : a ∈ events := of_decide_eq_true (List.mem_filter.mp first).2
    have second : b ∈ events := of_decide_eq_true (List.mem_filter.mp second).2
    -- A smaller priority of the later task would have given it the smaller key.
    have above : ¬ p b < p a := fun less => by
      have := sorted b second a first less
      rcases precedes with before | ⟨same, _⟩
      · exact absurd before (Nat.not_lt_of_lt this)
      · exact absurd same this.ne'
    exact (Nat.le_of_not_lt above).lt_of_ne fun same => other (distinct a first b second same)

theorem Misplaced.not_ordered {p : Addr → Nat} {order : List Addr} (misplaced : ctx.Misplaced events p a b)
    (core : ctx.Core active) (holds : ctx.runningTasks.Holds order) :
    ¬ (order.filter (· ∈ events)).Pairwise fun a b => p a < p b := by
  intro increasing
  have nodup := core.sorted.nodup
  obtain ⟨order', holds', perm, sorted⟩ := core.sorted
  obtain rfl := holds.base.unique holds'.base
  have inside : ∀ {c}, c ∈ events → ctx.stateOf c = some .running → c ∈ order.filter (· ∈ events) := fun member runs =>
    List.mem_filter.mpr ⟨perm.mem_iff.mpr ((core.running _).mpr runs), decide_eq_true member⟩
  let R (c d : Addr) := (p c < p d ∧ ctx.keyed.Precedes bySchedKey c d) ∨ p d < p c ∧ ctx.keyed.Precedes bySchedKey d c
  have : Std.Symm R := ⟨fun _ _ => Or.symm⟩
  have either : (order.filter (· ∈ events)).Pairwise R := (increasing.and (sorted.filter _)).imp .inl
  have other : a ≠ b := fun same => absurd misplaced.less (same ▸ Nat.lt_irrefl _)
  rcases either.forall (inside misplaced.first misplaced.running) (inside misplaced.second misplaced.running') other
    with ⟨more, _⟩ | ⟨_, back⟩
  · exact absurd misplaced.less (Nat.not_lt_of_lt more)
  · exact misplaced.precedes.asymm nodup back

/-! ## Picking -/

/-- Both tasks are in the tree, the first one with a smaller key. -/
structure Ahead (ctx : SystemContext) (a b : Addr) : Prop where
  first : ctx.stateOf a = some .running
  second : ctx.stateOf b = some .running
  less : ctx.schedKey a < ctx.schedKey b

/-- Steps that are made while `a` is not the current task. -/
inductive Unpicked (a : Addr) (ctx : SystemContext) : SystemContext → Prop where
  | refl : Unpicked a ctx ctx
  | step {mid next : SystemContext} {op : SchedOp} : Unpicked a ctx mid → mid.currentTask ≠ a →
      schedSystem.step mid op next → Unpicked a ctx next

theorem Core.ahead_of_first (core : ctx.Core active) (ahead : ctx.Ahead a b) : ctx.runningTasks.cachedFirst ≠ b := by
  intro here
  have least := (core.first_le ahead.first).2
  rw [here] at least
  exact absurd ahead.less (Nat.not_lt_of_le least)

theorem Chosen.ne_second (chosen : ctx.Chosen) (core : ctx.Core active) (ahead : ctx.Ahead a b) :
    ctx.currentTask ≠ b := by
  rcases chosen with ⟨_, none⟩ | ⟨_, here, _⟩
  · exact absurd ahead.first (none a).1
  · rw [here]
    exact core.ahead_of_first ahead

theorem Unpicked.ahead (path : Unpicked a ctx next) (inv : ctx.Inv active) (rated : ctx.Rated 0)
    (ahead : ctx.Ahead a b) (other : ctx.currentTask ≠ b) :
    (∃ active', next.Inv active') ∧ next.Rated 0 ∧ next.Ahead a b ∧ next.currentTask ≠ b := by
  induction path with
  | refl => exact ⟨⟨active, inv⟩, rated, ahead, other⟩
  | @step mid next op _ unpicked step ih =>
    obtain ⟨⟨active, inv⟩, rated, ahead, other⟩ := ih
    obtain ⟨ready, fuel, result⟩ := step
    have enough := SchedOp.apply_stable (Nat.le_max_left fuel (active.card + 1)) result
    obtain ⟨active', inv', chosen⟩ := inv.step ready (Nat.le_max_right fuel (active.card + 1)) enough
    have aside := inv.aside rated ready result
    have first := aside.stays a ahead.first unpicked.symm
    have second := aside.stays b ahead.second other.symm
    have ahead' : next.Ahead a b := ⟨first.1, second.1, by rw [first.2, second.2]; exact ahead.less⟩
    refine ⟨⟨active', inv'⟩, aside.rated, ahead', ?_⟩
    by_cases schedules : op.Schedules
    · exact (chosen schedules).ne_second inv'.core ahead'
    · rw [aside.current schedules]
      exact other

theorem scheduleNext_tasks (waits : ctx.runningTaskCount < ctx.totalTaskCount)
    (poll : ctx.ioPoll fuel events = some mid) (some : mid.runningTaskCount ≠ 0)
    (run : ctx.scheduleNext fuel (events :: polls) clock = .some next) : next.tasks = mid.tasks := by
  have picked : ctx.pickCurrentTask fuel (events :: polls) =
      .some { mid with currentTask := mid.runningTasks.cachedFirst } := by
    simp only [pickCurrentTask, Option.bind_eq_bind]
    rw [if_pos waits]
    by_cases busy : ctx.runningTaskCount ≠ 0
    · rw [if_pos busy]
      simp only [ioPollMaybe, poll, Option.bind_some]
      rfl
    · rw [if_neg busy]
      simp only [ioPollWait, poll, Option.bind_eq_bind, Option.bind_some]
      rw [if_neg some]
      rfl
  unfold scheduleNext at run
  rw [if_neg (Nat.ne_zero_of_lt waits), picked] at run
  simp only [Option.bind_eq_bind, Option.bind_some, Option.bind_eq_some_iff] at run
  obtain ⟨task, _, run⟩ := run
  cases run
  cases clock <;> rfl

/-- The events that a poll reports, of waiting tasks whose priorities are distinct and have not
been set since they began to wait. -/
structure Reports (ctx mid : SystemContext) (events : List Addr) : Prop where
  about : ctx.AboutToPoll mid
  nodup : events.Nodup
  waiting : ∀ a ∈ events, mid.stateOf a = some .waiting
  unchanged : ∀ a ∈ events, ctx.stateOf a = some .waiting → Unchanged a ctx
  distinct : ∀ a ∈ events, ∀ b ∈ events, mid.nextPriority a = mid.nextPriority b → a = b

theorem Reports.settled (reports : ctx.Reports mid events) : ∀ a ∈ events, mid.Settled a := fun a member =>
  reports.about.settled (reports.waiting a member) (reports.unchanged a member)

/-- After the wakeups of the poll the tasks are in the tree in increasing order of their priority
values. -/
def OrderedByPriority (mid : SystemContext) (events : List Addr) : Prop :=
  ∃ next order, (∀ fuel, mid.totalTaskCount < fuel → mid.ioPoll fuel events = some next) ∧
    next.runningTasks.Holds order ∧ (order.filter (· ∈ events)).Perm events ∧
      (order.filter (· ∈ events)).Pairwise fun a b => mid.nextPriority a < mid.nextPriority b

/-- Whatever is done after the poll, no task is picked before one with a smaller priority value
has been. -/
def PickedByPriority (mid : SystemContext) (events : List Addr) : Prop :=
  ∀ fuel polls clock ctx, mid.scheduleNext fuel (events :: polls) clock = some ctx →
    ∀ a ∈ events, ∀ b ∈ events, mid.nextPriority a < mid.nextPriority b →
      ∀ next, Unpicked a ctx next → next.currentTask ≠ b

theorem Reports.ordered (reports : ctx.Reports mid events) (led : mid.Led events) : mid.OrderedByPriority events := by
  obtain ⟨⟨active, core, total⟩, rated⟩ := reports.about.core
  obtain ⟨next, poll, core', running, sorted⟩ := core.poll_sorted rated (Nat.lt_succ_self _) reports.nodup
    reports.settled led
  obtain ⟨order, holds, perm, increasing⟩ := core'.woken_order reports.nodup running reports.distinct sorted
  exact ⟨next, order, fun fuel bound => ioPoll_stable (total ▸ bound) poll, holds, perm, increasing⟩

theorem Reports.picked (reports : ctx.Reports mid events) (led : mid.Led events) : mid.PickedByPriority events := by
  intro fuel polls clock ctx run a first b second less next path
  obtain ⟨⟨active, core, total⟩, rated⟩ := reports.about.core
  obtain ⟨_, _, _, _, _, _, waits⟩ := reports.about
  have bound := Nat.le_max_right fuel (active.card + 1)
  have run := scheduleNext_stable (Nat.le_max_left fuel (active.card + 1)) run
  generalize max fuel (active.card + 1) = fuel at bound run
  obtain ⟨polled, poll, core', running, sorted⟩ := core.poll_sorted rated bound reports.nodup reports.settled led
  have tasks := scheduleNext_tasks waits poll (core'.count_ne_zero.mpr ⟨a, running a first⟩) run
  obtain ⟨inv, chosen⟩ := Inv.schedule core total bound run
  have ahead : ctx.Ahead a b := by
    have same : ∀ c, ctx.stateOf c = polled.stateOf c ∧ ctx.schedKey c = polled.schedKey c := fun c => by
      simp only [stateOf, schedKey, tasks, and_self]
    refine ⟨?_, ?_, ?_⟩
    · rw [(same a).1, running a first]
    · rw [(same b).1, running b second]
    · rw [(same a).2, (same b).2]
      exact sorted a first b second less
  obtain ⟨wokenUp, wakes, same⟩ := scheduleNext_wakes run
  have rated' : ctx.Rated 0 := fun c task found => rated.wakes wakes c task (same ▸ found)
  exact (path.ahead inv rated' ahead (chosen.ne_second inv.core ahead)).2.2.2

theorem Reports.not_ordered (reports : ctx.Reports mid events) (unled : ¬ mid.Led events) :
    ¬ mid.OrderedByPriority events := by
  rintro ⟨next, order, poll, holds, _, increasing⟩
  obtain ⟨⟨active, core, total⟩, rated⟩ := reports.about.core
  obtain ⟨next', poll', core', a, b, misplaced⟩ :=
    core.poll_misplaced rated (Nat.lt_succ_self _) reports.nodup reports.settled unled
  cases (poll _ (total ▸ Nat.lt_succ_self _)).symm.trans poll'
  exact misplaced.not_ordered core' holds increasing

end SystemContext

open SystemContext

/-- One poll wakes tasks that wait with distinct priorities. They are in the tree in the order
of their priorities, and are picked in this order, exactly if the tree has a task and no key
wraps, or the first event is that of the task with the least priority and puts it first. -/
theorem wakeup_by_priority {ctx mid : SystemContext} {events : List Addr} (reports : ctx.Reports mid events) :
    mid.OrderedByPriority events ∧ mid.PickedByPriority events ↔ mid.Led events := by
  constructor
  · rintro ⟨ordered, _⟩
    by_contra unled
    exact reports.not_ordered unled ordered
  · intro led
    exact ⟨reports.ordered led, reports.picked led⟩

/-- A task that yields is in the tree. Two waiting tasks are woken, the one with the greater
priority value first. -/
theorem wakeup_by_priority_busy : ∃ ctx mid : SystemContext, ctx.Reports mid [8, 4] ∧ mid.nextPriority 4 = 1 ∧
    mid.nextPriority 8 = 2 ∧ mid.OrderedByPriority [8, 4] := by
  obtain ⟨early, run, final⟩ := schedSystem_exec 4
    (fun early => (early.stateOf 4 = some .running ∧ early.stateOf 8 = some .running) ∧
      (SchedOp.perform 4 early (.yield .waitio none [] none)).any fun middle =>
        (middle.stateOf 4 = some .waiting ∧ middle.stateOf 8 = some .running) ∧
        (SchedOp.perform 4 middle (.yield .waitio none [] none)).any fun ctx =>
          (ctx.currentTask ≠ 0 ∧ ctx.stateOf 4 = some .waiting ∧ ctx.stateOf 8 = some .waiting) ∧
          ((SchedOp.yield .yield none [] none).before 4 ctx).any fun mid =>
            (mid.runningTaskCount < mid.totalTaskCount ∧ mid.runningTaskCount ≠ 0 ∧ mid.getMinSchedKey = 16) ∧
            (mid.stateOf 4 = some .waiting ∧ mid.nextPriority 4 = 1) ∧
            mid.stateOf 8 = some .waiting ∧ mid.nextPriority 8 = 2)
    [.new 4, .new 8, .new 12, .setPriority 4 1, .setPriority 8 2, .run 4, .run 8, .run 12, .systemRun [] none] (by decide)
  obtain ⟨⟨runs4, runs8⟩, rest⟩ := of_decide_eq_true final
  obtain ⟨middle, wait, rest⟩ := (Option.any_eq_true _ _).mp rest
  obtain ⟨⟨waits4, runs8'⟩, rest⟩ := of_decide_eq_true rest
  obtain ⟨ctx, wait', rest⟩ := (Option.any_eq_true _ _).mp rest
  obtain ⟨⟨ready, waits4', waits8⟩, rest⟩ := of_decide_eq_true rest
  obtain ⟨mid, enter, checks⟩ := (Option.any_eq_true _ _).mp rest
  obtain ⟨⟨polls, busy, min⟩, ⟨waiting4, next4⟩, waiting8, next8⟩ := of_decide_eq_true checks
  have step := SchedOp.perform_sound wait
  have step' := SchedOp.perform_sound wait'
  have run' := (run.step step).step step'
  have unchanged4 : Unchanged 4 ctx :=
    (Unchanged.began run (by simp [runs4]) step waits4).waits step' (fun _ => SchedOp.noConfusion) waits4'
  have unchanged8 : Unchanged 8 ctx := .began (run.step step) (by simp [runs8']) step' waits8
  have reports : ctx.Reports mid [8, 4] := by
    refine ⟨⟨_, .yield .yield none [] none, 4, run', ready, enter, polls⟩, by decide, ?_, ?_, ?_⟩
    · simp [waiting4, waiting8]
    · simp [unchanged4, unchanged8]
    · simp [next4, next8]
  have led : mid.Led [8, 4] := .inl ⟨busy, by simp [next4, next8, min]⟩
  exact ⟨ctx, mid, reports, next4, next8, ((wakeup_by_priority reports).mpr led).1⟩

/-- The last task in the tree has begun to wait. Of two tasks that the next poll wakes, the
one whose event comes first has the smaller key, also if its priority value is the greater
one, and is picked first. -/
theorem wakeup_by_event_order : ∃ ctx mid : SystemContext, ctx.Reports mid [8, 4] ∧
    mid.nextPriority 4 = 1 ∧ mid.nextPriority 8 = 2 ∧ ¬ mid.OrderedByPriority [8, 4] ∧
      (∃ next, mid.ioPoll 4 [8, 4] = some next ∧ next.schedKey 8 = 2 ∧ next.schedKey 4 = 3 ∧
        next.runningTasks.cachedFirst = 8) ∧
      ∃ next, mid.ioPoll 4 [4, 8] = some next ∧ next.schedKey 4 = 1 ∧ next.schedKey 8 = 3 ∧
        next.runningTasks.cachedFirst = 4 := by
  obtain ⟨early, run, final⟩ := schedSystem_exec 4
    (fun early => early.stateOf 4 = some .running ∧
      (SchedOp.perform 4 early (.yield .waitio none [] none)).any fun ctx =>
        (ctx.currentTask ≠ 0 ∧ ctx.stateOf 4 = some .waiting ∧ ctx.stateOf 8 = some .running) ∧
        ((SchedOp.yield .waitio none [] none).before 4 ctx).any fun mid =>
          (mid.runningTaskCount < mid.totalTaskCount ∧ mid.runningTaskCount = 0) ∧
          (mid.stateOf 4 = some .waiting ∧ mid.nextPriority 4 = 1) ∧
          (mid.stateOf 8 = some .waiting ∧ mid.nextPriority 8 = 2) ∧
          ((mid.ioPoll 4 [8, 4]).any fun next =>
            next.schedKey 8 = 2 ∧ next.schedKey 4 = 3 ∧ next.runningTasks.cachedFirst = 8) ∧
          (mid.ioPoll 4 [4, 8]).any fun next =>
            next.schedKey 4 = 1 ∧ next.schedKey 8 = 3 ∧ next.runningTasks.cachedFirst = 4)
    [.new 4, .new 8, .setPriority 4 1, .setPriority 8 2, .run 4, .run 8, .systemRun [] none] (by decide)
  obtain ⟨runs4, rest⟩ := of_decide_eq_true final
  obtain ⟨ctx, wait, rest⟩ := (Option.any_eq_true _ _).mp rest
  obtain ⟨⟨ready, waits4, runs8⟩, rest⟩ := of_decide_eq_true rest
  obtain ⟨mid, enter, checks⟩ := (Option.any_eq_true _ _).mp rest
  obtain ⟨⟨polls, idle⟩, ⟨waiting4, next4⟩, ⟨waiting8, next8⟩, first, second⟩ := of_decide_eq_true checks
  obtain ⟨next, poll, keys⟩ := (Option.any_eq_true _ _).mp first
  obtain ⟨next', poll', keys'⟩ := (Option.any_eq_true _ _).mp second
  have step := SchedOp.perform_sound wait
  have unchanged4 : Unchanged 4 ctx := .began run (by simp [runs4]) step waits4
  have reports : ctx.Reports mid [8, 4] := by
    refine ⟨⟨_, .yield .waitio none [] none, 4, run.step step, ready, enter, polls⟩, by decide, ?_, ?_, ?_⟩
    · simp [waiting4, waiting8]
    · simp [unchanged4, runs8]
    · simp [next4, next8]
  have unled : ¬ mid.Led [8, 4] := by simp [Led, idle, next4, next8]
  exact ⟨ctx, mid, reports, next4, next8, reports.not_ordered unled, ⟨next, poll, of_decide_eq_true keys⟩,
    next', poll', of_decide_eq_true keys'⟩

end HevTaskSystem
