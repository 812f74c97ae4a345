import Mathlib.Algebra.Order.Group.Int
import Mathlib.Algebra.Order.Group.Abs
import HevTaskSystem.Scheduler.Fairness

/-! What the fair queue means for the tasks.

Keys stay in a window above the smallest one, which does not decrease while there are
running tasks. A running task is passed over by another one only a bounded number of
times. Two tasks that only yield have turns in inverse proportion to their priorities.
-/

set_option autoImplicit false

namespace HevTaskSystem

open Foundation SystemContext

/-! ## Computed runs -/

namespace SchedOp

/-- A condition on an operation without polls that keeps it in `fairSystem`. -/
def Plain (ctx : SystemContext) : SchedOp → Prop
  | .setPriority _ priority => 1 ≤ priority.toNat
  | .run a => ctx.nextPriority a + ctx.getMinSchedKey < 2 ^ 64
  | .wakeup a => ctx.schedKey a + ctx.getMinSchedKey < 2 ^ 64
  | .yield _ now polls clock => now = none ∧ polls = [] ∧ clock = none ∧
      ctx.schedKey ctx.currentTask + ctx.priority ctx.currentTask < 2 ^ 64
  | .exit polls clock | .systemRun polls clock => polls = [] ∧ clock = none
  | _ => True

instance (ctx : SystemContext) (op : SchedOp) : Decidable (op.Plain ctx) := by
  cases op <;> unfold Plain <;> infer_instance

theorem Plain.allowed {lo : Nat} (low : lo ≤ 1) {ctx : SystemContext} {op : SchedOp} (plain : op.Plain ctx) :
    op.NoClock ∧ op.Rates lo ∧ op.Fits ctx := by
  cases op with
  | setPriority a priority => exact ⟨trivial, low.trans plain, trivial⟩
  | run a => exact ⟨trivial, trivial, fun _ _ => plain⟩
  | wakeup a => exact ⟨trivial, trivial, fun _ => plain⟩
  | yield type now polls clock =>
    obtain ⟨rfl, rfl, rfl, sum⟩ := plain
    cases type with
    | yield => exact ⟨⟨rfl, rfl⟩, trivial, sum, fun _ _ _ _ => trivial⟩
    | waitio => exact ⟨⟨rfl, rfl⟩, trivial, fun _ _ _ _ => trivial⟩
  | exit polls clock =>
    obtain ⟨rfl, rfl⟩ := plain
    exact ⟨rfl, trivial, fun _ _ _ _ => trivial⟩
  | systemRun polls clock =>
    obtain ⟨rfl, rfl⟩ := plain
    exact ⟨rfl, trivial, fun _ => trivial⟩
  | _ => exact ⟨trivial, trivial, trivial⟩

def performCharged (fuel : Nat) (s : ChargedContext) (op : SchedOp) : Option ChargedContext :=
  if op.Plain s.ctx then (op.perform fuel s.ctx).map fun next => ⟨next, op.charges s.ctx next s.charge⟩ else none

theorem performCharged_sound {lo fuel : Nat} (low : lo ≤ 1) {s next : ChargedContext} {op : SchedOp}
    (result : op.performCharged fuel s = some next) : (fairSystem lo).step s op next := by
  unfold performCharged at result
  split at result
  · obtain ⟨ctx, run, rfl⟩ := Option.map_eq_some_iff.mp result
    exact ⟨Plain.allowed low ‹_›, perform_sound run, rfl⟩
  · cases result

end SchedOp

def ChargedContext.start : ChargedContext :=
  ⟨.blank, fun _ => 0⟩

theorem fairSystem_start (lo : Nat) : (fairSystem lo).Run [] .start :=
  .init ⟨rfl, rfl, rfl, rfl, rfl, fun _ => rfl, rfl⟩

namespace ChargedContext

variable {lo : Nat} {s next : ChargedContext} {op : SchedOp} {active active' : Finset Addr} {a b t x : Addr}

theorem queue_at (running : s.ctx.stateOf a = some .running) :
    s.queue a = some ⟨s.ctx.schedKey a, s.charge a⟩ := queue_of_running running

/-! ## The key window -/

theorem head_current {ctx : SystemContext} {order : List Addr} (holds : ctx.runningTasks.Holds order)
    (nonnull : ctx.currentTask ≠ 0) (first : ctx.currentTask = ctx.runningTasks.cachedFirst) :
    order.head? = some ctx.currentTask := by
  have leftmost : ctx.runningTasks.cachedFirst = order.headD 0 := holds.leftmost
  cases order with
  | nil => exact absurd (first.trans leftmost) nonnull
  | cons a rest => exact congrArg some (first.trans leftmost).symm

/-- Every key in the tree is at least the smallest one, and above it by at most what was
last added to it. -/
structure KeyWindow (s : ChargedContext) (order : List Addr) : Prop where
  least : ∀ a ∈ order, s.ctx.getMinSchedKey ≤ s.ctx.schedKey a
  attained : order ≠ [] → ∃ a ∈ order, s.ctx.schedKey a = s.ctx.getMinSchedKey
  window : ∀ a ∈ order, s.ctx.schedKey a ≤ s.ctx.getMinSchedKey + s.charge a
  charge : ∀ a ∈ order, s.charge a ≤ 15

theorem Fair.keyWindow (fair : Fair lo s active) {order : List Addr}
    (holds : ∀ a, a ∈ order ↔ s.ctx.stateOf a = some .running) : s.KeyWindow order := by
  have least : s.queue.Least s.ctx.getMinSchedKey := fair.inv.core.least s.charge
  have here : ∀ a ∈ order, s.queue a = some ⟨s.ctx.schedKey a, s.charge a⟩ :=
    fun a member => queue_at ((holds a).mp member)
  refine ⟨fun a member => least.le a _ (here a member), fun nonempty => ?_, fun a member => ?_,
    fun a member => (fair.charged a _ (here a member)).2⟩
  · obtain ⟨a, member⟩ := List.exists_mem_of_ne_nil order nonempty
    obtain ⟨b, e, there, key⟩ := least.attained a _ (here a member)
    obtain ⟨running, rfl⟩ := of_queue there
    exact ⟨b, (holds b).mpr running, key⟩
  · obtain ⟨b, e, there, key⟩ := least.attained a _ (here a member)
    have bound := fair.window a _ b e (here a member) there
    rwa [key] at bound

theorem Fair.min_le (fair : Fair lo s active) (fair' : Fair lo next active') (moved : Moved lo s op next)
    (inside : s.ctx.currentTask ≠ 0 ∨ op.Schedules) (running : s.ctx.stateOf b = some .running)
    (stays : op.Leaves → b ≠ s.ctx.currentTask) : s.ctx.getMinSchedKey ≤ next.ctx.getMinSchedKey := by
  have bound : s.queue.AtLeast s.ctx.getMinSchedKey := (fair.inv.core.least s.charge).le
  have least : next.queue.Least next.ctx.getMinSchedKey := fair'.inv.core.least next.charge
  have here := queue_at running
  cases moved with
  | started null calls => exact absurd (inside.resolve_left (not_not.mpr null)) calls
  | entered _ enters => exact (bound.enters here enters).le_least least (enters.kept here)
  | turned nonnull _ _ enters =>
    have current := queue_at (fair.inv.current nonnull)
    have entered := bound.enter (a := s.ctx.currentTask) (p := s.ctx.priority s.ctx.currentTask) (bound _ _ current)
    exact (entered.enters FairQueue.enter_self enters).le_least least (enters.kept FairQueue.enter_self)
  | left _ leaves enters =>
    have here := (FairQueue.leave_of_ne (stays leaves)).trans here
    exact (bound.leave.enters here enters).le_least least (enters.kept here)

end ChargedContext

/-- In every state the keys are in the window above the smallest key, and the current task
is the first node of the tree. A call of the current task leaves it so. While the scheduler
runs, the smallest key does not decrease as long as some task stays in the tree. -/
theorem key_window {ops : List SchedOp} {s : ChargedContext} (run : (fairSystem 0).Run ops s) :
    ∃ order, s.ctx.runningTasks.Holds order ∧ s.KeyWindow order ∧
      (s.ctx.currentTask ≠ 0 → order.head? = some s.ctx.currentTask) ∧
      ∀ op next, (fairSystem 0).step s op next →
        (s.ctx.currentTask ≠ 0 → ¬ op.Schedules → next.ctx.currentTask = s.ctx.currentTask ∧
          ∀ order', next.ctx.runningTasks.Holds order' → order'.head? = some s.ctx.currentTask) ∧
        (s.ctx.currentTask ≠ 0 ∨ op.Schedules → (∃ b ∈ order, op.Leaves → b ≠ s.ctx.currentTask) →
          s.ctx.getMinSchedKey ≤ next.ctx.getMinSchedKey) := by
  obtain ⟨active, fair⟩ := fairSystem_fair (Nat.zero_le 8) run
  obtain ⟨order, holds, perm, _⟩ := fair.inv.core.sorted
  have members : ∀ a, a ∈ order ↔ s.ctx.stateOf a = some .running := fun a => by
    rw [perm.mem_iff]
    exact fair.inv.core.running a
  refine ⟨order, holds, fair.keyWindow members,
    fun nonnull => ChargedContext.head_current holds nonnull (fair.first nonnull), ?_⟩
  intro op next step
  obtain ⟨stepped, _, active', fair'⟩ := fair.step (Nat.zero_le 8) step
  refine ⟨fun nonnull calls => ?_, fun inside => ?_⟩
  · have same := (stepped.stays calls).1
    have nonnull' : next.ctx.currentTask ≠ 0 := same ▸ nonnull
    exact ⟨same, fun order' holds' => same ▸ ChargedContext.head_current holds' nonnull' (fair'.first nonnull')⟩
  · rintro ⟨b, member, stays⟩
    exact fair.min_le fair' stepped.moved inside ((members b).mp member) stays

/-- The second of two tasks has been started by the first, which has yielded. -/
theorem key_window_pair : ∃ s, (fairSystem 0).Run [.new 4, .new 8, .run 4, .systemRun [] none,
      .run 8, .yield .yield none [] none] s ∧
    s.ctx.currentTask = 8 ∧ s.ctx.schedKey 8 = 16 ∧ s.ctx.schedKey 4 = 16 ∧
    ∃ order, s.ctx.runningTasks.Holds order ∧ s.KeyWindow order ∧ order.head? = some 8 := by
  obtain ⟨s, run, final⟩ := (fairSystem_start 0).exists_exec (SchedOp.performCharged 3)
    (fun s => s.ctx.currentTask = 8 ∧ s.ctx.schedKey 8 = 16 ∧ s.ctx.schedKey 4 = 16)
    (fun _ _ _ => SchedOp.performCharged_sound (Nat.zero_le 1))
    [.new 4, .new 8, .run 4, .systemRun [] none, .run 8, .yield .yield none [] none] (by decide)
  obtain ⟨current, key, key'⟩ := of_decide_eq_true final
  obtain ⟨order, holds, window, head, _⟩ := key_window run
  refine ⟨s, run, current, key, key', order, holds, window, ?_⟩
  rw [head (by rw [current]; decide), current]

/-! ## Bounded bypass -/

namespace ChargedContext

variable {lo n : Nat} {s mid next : ChargedContext} {op : SchedOp} {active : Finset Addr} {t x : Addr}

/-- Steps through which `t` is running and is never chosen, with the number of times that
`x` is chosen. -/
inductive Bypassed (lo : Nat) (t x : Addr) (s : ChargedContext) : Nat → ChargedContext → Prop where
  | refl : Bypassed lo t x s 0 s
  | pick {n : Nat} {mid next : ChargedContext} {op : SchedOp} : Bypassed lo t x s n mid →
      (fairSystem lo).step mid op next → next.ctx.stateOf t = some .running → next.ctx.currentTask ≠ t →
      op.Schedules → next.ctx.currentTask = x → Bypassed lo t x s (n + 1) next
  | pass {n : Nat} {mid next : ChargedContext} {op : SchedOp} : Bypassed lo t x s n mid →
      (fairSystem lo).step mid op next → next.ctx.stateOf t = some .running → next.ctx.currentTask ≠ t →
      (op.Schedules → next.ctx.currentTask ≠ x) → Bypassed lo t x s n next

/-- After `n` choices of `x` its key has come so close to that of `t`, which has the key
`k` and the charge `p`. -/
structure Lag (t x : Addr) (k p n : Nat) (s : ChargedContext) : Prop where
  waits : s.ctx.currentTask ≠ t
  there : s.queue t = some ⟨k, p⟩
  near : n ≠ 0 → s.ctx.currentTask ≠ 0 ∧ ∃ m, k + n ≤ m + p + 1 ∧
    ((s.ctx.currentTask = x ∧ s.queue.AtLeast m) ∨ s.queue.Passed x m)

theorem Moved.kept {e : Entry} (moved : Moved lo s op next) (waits : s.ctx.currentTask ≠ t)
    (here : s.queue t = some e) : next.queue t = some e := by
  cases moved with
  | started _ _ kept => exact kept t e here
  | entered _ enters => exact enters.kept here
  | turned _ _ _ enters => exact enters.kept ((FairQueue.enter_of_ne (Ne.symm waits)).trans here)
  | left _ _ enters => exact enters.kept ((FairQueue.leave_of_ne (Ne.symm waits)).trans here)

theorem Lag.le {k p : Nat} (lag : Lag t x k p n s) : n ≤ p + 1 := by
  by_cases zero : n = 0
  · omega
  · obtain ⟨_, m, close, bound⟩ := lag.near zero
    have below : m ≤ k := by
      rcases bound with ⟨_, all⟩ | passed
      · exact all t _ lag.there
      · exact passed.all t _ lag.there
    omega

theorem Lag.pass {k p : Nat} (fair : Fair 1 s active) (lag : Lag t x k p n s) (moved : Moved 1 s op next)
    (stays : ¬ op.Schedules → next.ctx.currentTask = s.ctx.currentTask)
    (chosen : op.Schedules → next.ctx.currentTask ≠ 0) (waits : next.ctx.currentTask ≠ t) :
    Lag t x k p n next ∧ (op.Schedules → n ≠ 0 → ∃ m, k + n ≤ m + p + 1 ∧ next.queue.Passed x m) := by
  have positive : ∀ p, FairPriority 1 p → 0 < p := fun _ fair => fair.1
  have there := moved.kept lag.waits lag.there
  by_cases schedules : op.Schedules
  · have passed : n ≠ 0 → ∃ m, k + n ≤ m + p + 1 ∧ next.queue.Passed x m := by
      intro some
      obtain ⟨nonnull, m, close, bound⟩ := lag.near some
      have turn := fair.turn nonnull schedules moved
      refine ⟨m, close, ?_⟩
      rcases bound with ⟨rfl, all⟩ | passed
      · exact all.turn lag.waits.symm lag.there positive turn
      · exact passed.turn lag.waits.symm lag.there positive turn
    refine ⟨⟨waits, there, fun some => ⟨chosen schedules, ?_⟩⟩, fun _ => passed⟩
    obtain ⟨m, close, passed⟩ := passed some
    exact ⟨m, close, .inr passed⟩
  · refine ⟨⟨waits, there, fun some => ?_⟩, fun h => absurd h schedules⟩
    obtain ⟨nonnull, m, close, bound⟩ := lag.near some
    have enters := Fair.enters nonnull schedules moved
    rw [stays schedules]
    refine ⟨nonnull, m, close, ?_⟩
    rcases bound with ⟨current, all⟩ | passed
    · exact .inl ⟨current, all.enters lag.there enters⟩
    · exact .inr (passed.enters lag.there positive enters)

theorem Lag.pick {k p : Nat} (fair : Fair lo s active) (lag : Lag t x k p n s) (current : s.ctx.currentTask = x)
    (nonnull : s.ctx.currentTask ≠ 0) (passed : n ≠ 0 → ∃ m, k + n ≤ m + p + 1 ∧ s.queue.Passed x m) :
    Lag t x k p (n + 1) s := by
  subst current
  obtain ⟨here, least⟩ := fair.least nonnull
  refine ⟨lag.waits, lag.there, fun _ => ⟨nonnull, s.ctx.schedKey s.ctx.currentTask, ?_, .inl ⟨rfl, least.le⟩⟩⟩
  by_cases zero : n = 0
  · have window := fair.window t _ _ _ lag.there here
    dsimp only at window
    omega
  · obtain ⟨m, close, passed⟩ := passed zero
    have above : m < s.ctx.schedKey s.ctx.currentTask := passed.above _ here
    omega

theorem Bypassed.lag {k p : Nat} {active : Finset Addr} (fair : Fair 1 s active) (waits : s.ctx.currentTask ≠ t)
    (there : s.queue t = some ⟨k, p⟩) (bypassed : Bypassed 1 t x s n next) :
    Lag t x k p n next ∧ ∃ active', Fair 1 next active' := by
  -- One step, whether or not `x` is chosen in it.
  have along : ∀ {n mid next op active}, Fair 1 mid active → Lag t x k p n mid → (fairSystem 1).step mid op next →
      next.ctx.stateOf t = some .running → next.ctx.currentTask ≠ t →
      (op.Schedules → next.ctx.currentTask ≠ 0) ∧ (∃ active', Fair 1 next active') ∧ Lag t x k p n next ∧
        (op.Schedules → n ≠ 0 → ∃ m, k + n ≤ m + p + 1 ∧ next.queue.Passed x m) := by
    intro n mid next op active fair lag step running waits
    obtain ⟨stepped, chosen, fair'⟩ := fair.step (by decide) step
    have chosen : op.Schedules → next.ctx.currentTask ≠ 0 := fun schedules =>
      ((chosen schedules).resolve_left fun none => (none.2 t).1 running).1
    exact ⟨chosen, fair', lag.pass fair stepped.moved (fun h => (stepped.stays h).1) chosen waits⟩
  induction bypassed with
  | refl => exact ⟨⟨waits, there, fun some => absurd rfl some⟩, active, fair⟩
  | pick _ step running waits schedules current ih =>
    obtain ⟨lag, active, fair⟩ := ih
    obtain ⟨chosen, ⟨active', fair'⟩, lag', passed⟩ := along fair lag step running waits
    exact ⟨lag'.pick fair' current (chosen schedules) (passed schedules), active', fair'⟩
  | pass _ step running waits _ ih =>
    obtain ⟨lag, active, fair⟩ := ih
    obtain ⟨_, fair', lag', _⟩ := along fair lag step running waits
    exact ⟨lag', fair'⟩

end ChargedContext

/-- While a running task is not chosen, no other task is chosen more often than once for
each unit that was last added to its key, and once more. -/
theorem bounded_bypass {ops : List SchedOp} {s next : ChargedContext} {t x : Addr} {n : Nat}
    (run : (fairSystem 1).Run ops s) (running : s.ctx.stateOf t = some .running) (waits : s.ctx.currentTask ≠ t)
    (bypassed : ChargedContext.Bypassed 1 t x s n next) : n ≤ s.charge t + 1 ∧ s.charge t ≤ 15 := by
  obtain ⟨active, fair⟩ := fairSystem_fair (by decide) run
  have there := ChargedContext.queue_at running
  exact ⟨(bypassed.lag fair waits there).1.le, (fair.charged t _ there).2⟩

/-- A task of priority 1 is chosen twice before one of priority 8. -/
theorem bounded_bypass_pair : ∃ s next, (fairSystem 1).Run [.new 4, .new 8, .setPriority 4 1, .run 4, .run 8] s ∧
    s.ctx.stateOf 8 = some .running ∧ ChargedContext.Bypassed 1 8 4 s 2 next ∧ 2 ≤ s.charge 8 + 1 ∧
    s.charge 8 ≤ 15 := by
  obtain ⟨s, run, final⟩ := (fairSystem_start 1).exists_exec (SchedOp.performCharged 3)
    (fun s => s.ctx.stateOf 8 = some .running ∧ s.ctx.currentTask ≠ 8 ∧
      (SchedOp.performCharged 3 s (.systemRun [] none)).any fun mid =>
        mid.ctx.stateOf 8 = some .running ∧ mid.ctx.currentTask = 4 ∧
        (SchedOp.performCharged 3 mid (.yield .yield none [] none)).any fun next =>
          next.ctx.stateOf 8 = some .running ∧ next.ctx.currentTask = 4)
    (fun _ _ _ => SchedOp.performCharged_sound (Nat.le_refl 1))
    [.new 4, .new 8, .setPriority 4 1, .run 4, .run 8] (by decide)
  obtain ⟨running, waits, final⟩ := of_decide_eq_true final
  obtain ⟨mid, first, final⟩ := (Option.any_eq_true ..).mp final
  obtain ⟨running', current', final⟩ := of_decide_eq_true final
  obtain ⟨next, second, final⟩ := (Option.any_eq_true ..).mp final
  obtain ⟨running'', current''⟩ := of_decide_eq_true final
  have bypassed : ChargedContext.Bypassed 1 8 4 s 2 next :=
    .pick (.pick .refl (SchedOp.performCharged_sound (Nat.le_refl 1) first) running' (by rw [current']; decide) trivial
      current') (SchedOp.performCharged_sound (Nat.le_refl 1) second) running'' (by rw [current'']; decide) trivial
      current''
  exact ⟨s, next, run, running, bypassed, bounded_bypass run running waits bypassed⟩

/-! ## Proportional shares -/

namespace ChargedContext

variable {lo p n : Nat} {s next : ChargedContext} {op : SchedOp} {active : Finset Addr} {x : Addr}

instance (op : SchedOp) : Decidable op.Yields := by
  unfold SchedOp.Yields
  split <;> infer_instance

/-- The task `x` is running with the priority `p`, which it will also have next. -/
structure Steady (x : Addr) (p : Nat) (s : ChargedContext) : Prop where
  running : s.ctx.stateOf x = some .running
  priority : s.ctx.priority x = p
  nextPriority : s.ctx.nextPriority x = p

instance (x : Addr) (p : Nat) (s : ChargedContext) : Decidable (s.Steady x p) :=
  decidable_of_iff (s.ctx.stateOf x = some .running ∧ s.ctx.priority x = p ∧ s.ctx.nextPriority x = p)
    ⟨fun h => ⟨h.1, h.2.1, h.2.2⟩, fun h => ⟨h.running, h.priority, h.nextPriority⟩⟩

def yields (s : ChargedContext) (op : SchedOp) (x : Addr) : Nat :=
  if op.Yields ∧ s.ctx.currentTask = x then 1 else 0

/-- Steps through which `x` and `y` only yield, with constant priorities, and the numbers of
their yields. -/
inductive Shared (x y : Addr) (p q : Nat) (s : ChargedContext) : Nat → Nat → ChargedContext → Prop where
  | refl : s.Steady x p → s.Steady y q → Shared x y p q s 0 0 s
  | step {m n : Nat} {mid next : ChargedContext} {op : SchedOp} : Shared x y p q s m n mid →
      (fairSystem 0).step mid op next →
      (mid.ctx.currentTask = x ∨ mid.ctx.currentTask = y → op.Schedules → op.Yields) →
      next.Steady x p → next.Steady y q → Shared x y p q s (m + mid.yields op x) (n + mid.yields op y) next

theorem not_yields (calls : ¬ op.Schedules) : ¬ op.Yields := by
  intro yields
  cases op with
  | yield => exact calls trivial
  | _ => cases yields

theorem schedules_of_leaves (leaves : op.Leaves) : op.Schedules ∧ ¬ op.Yields := by
  cases op with
  | yield type =>
    cases type with
    | yield => cases leaves
    | waitio => exact ⟨trivial, fun h => h⟩
  | exit => exact ⟨trivial, fun h => h⟩
  | _ => cases leaves

theorem Steady.step {k : Nat} (fair : Fair lo s active) (moved : Moved lo s op next) (steady : s.Steady x p)
    (only : s.ctx.currentTask = x → op.Schedules → op.Yields) (here : s.queue x = some ⟨k, p⟩) :
    next.queue x = some ⟨k + p * s.yields op x, p⟩ := by
  by_cases current : s.ctx.currentTask = x
  · subst current
    obtain ⟨task, found, _⟩ := exists_task steady.running
    have nonnull := (fair.inv.core.heap _ task found).1
    have key : s.ctx.schedKey s.ctx.currentTask = k := congrArg Entry.key (of_queue here).2.symm
    cases moved with
    | started null => exact absurd null nonnull
    | entered iff enters =>
      rw [enters.kept here, yields, if_neg fun h => not_yields (mt iff.mpr nonnull) h.1]
      rfl
    | turned _ turn _ enters =>
      rw [key, steady.priority] at enters
      rw [enters.kept FairQueue.enter_self, yields, if_pos ⟨turn, rfl⟩, Nat.mul_one]
    | left _ leaves =>
      obtain ⟨schedules, stays⟩ := schedules_of_leaves leaves
      exact absurd (only rfl schedules) stays
  · rw [moved.kept current here]
    simp [yields, current]

theorem Shared.start {y : Addr} {q m n : Nat} (shared : Shared x y p q s m n next) : s.Steady x p ∧ s.Steady y q := by
  induction shared with
  | refl steady steady' => exact ⟨steady, steady'⟩
  | step _ _ _ _ _ ih => exact ih

theorem Shared.keys {y : Addr} {q m n k l : Nat} (fair : Fair 0 s active) (first : s.queue x = some ⟨k, p⟩)
    (second : s.queue y = some ⟨l, q⟩) (shared : Shared x y p q s m n next) :
    next.queue x = some ⟨k + p * m, p⟩ ∧ next.queue y = some ⟨l + q * n, q⟩ ∧ next.Steady x p ∧ next.Steady y q ∧
      ∃ active', Fair 0 next active' := by
  induction shared with
  | refl steady steady' => exact ⟨first, second, steady, steady', active, fair⟩
  | step _ step only steady steady' ih =>
    obtain ⟨keyX, keyY, before, before', active, fair⟩ := ih
    obtain ⟨stepped, _, fair'⟩ := fair.step (Nat.zero_le 8) step
    refine ⟨?_, ?_, steady, steady', fair'⟩
    · rw [before.step fair stepped.moved (fun current => only (.inl current)) keyX, Nat.mul_add, Nat.add_assoc]
    · rw [before'.step fair stepped.moved (fun current => only (.inr current)) keyY, Nat.mul_add, Nat.add_assoc]

end ChargedContext

/-- The task `x` has the next turns, while the priorities stay as they are. -/
def ChargedContext.Alone (fuel : Nat) (x y : Addr) (p q : Nat) : Nat → ChargedContext → Bool
  | 0, _ => true
  | turns + 1, s => s.ctx.currentTask = x &&
      (SchedOp.performCharged fuel s (.yield .yield none [] none)).any fun next =>
        next.Steady x p && next.Steady y q && Alone fuel x y p q turns next

theorem ChargedContext.Shared.alone {fuel turns m : Nat} {x y : Addr} {p q : Nat} {s mid : ChargedContext} (other : x ≠ y)
    (shared : Shared x y p q s m 0 mid) (alone : Alone fuel x y p q turns mid = true) :
    ∃ next, Shared x y p q s (m + turns) 0 next := by
  induction turns generalizing m mid with
  | zero => exact ⟨mid, shared⟩
  | succ turns ih =>
    simp only [Alone, Bool.and_eq_true, decide_eq_true_eq] at alone
    obtain ⟨current, some'⟩ := alone
    obtain ⟨next, turn, rest⟩ := (Option.any_eq_true ..).mp some'
    simp only [Bool.and_eq_true, decide_eq_true_eq] at rest
    obtain ⟨⟨first, second⟩, alone⟩ := rest
    have after := shared.step (SchedOp.performCharged_sound (Nat.zero_le 1) turn) (fun _ _ => trivial) first second
    have mine : mid.yields (.yield .yield none [] none) x = 1 := if_pos ⟨trivial, current⟩
    have none : mid.yields (.yield .yield none [] none) y = 0 := if_neg fun h => other (current.symm.trans h.2)
    rw [mine, none] at after
    obtain ⟨last, shared⟩ := ih after alone
    exact ⟨last, by rwa [Nat.add_assoc, Nat.add_comm 1] at shared⟩

end HevTaskSystem
