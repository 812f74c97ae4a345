import HevTaskSystem.Time.TimerInvariant

/-! No wakeup of the timer is lost, as long as every timeout fits into an `int`.

The remaining time is computed as an `unsigned int` and handed to the reactor as an
`int`. A sleep of 2^31 milliseconds or more becomes a negative timeout, and with that
the reactor waits without end.
-/

set_option autoImplicit false

namespace HevTaskSystem

open Foundation

namespace TimerSystem

/-- The tree holds exactly the nodes of the tasks inside the yield of a wait, in the order
of their expiry. -/
def TreeExact (s : TimerSystem) : Prop :=
  ∃ order, s.timer.sort.tree.Holds order ∧
    (order.Pairwise fun a b => timerCmp (s.timer.sort.field a) (s.timer.sort.field b) ≤ 0) ∧
    ∀ n t, (n ∈ order ∧ s.timer.task n = t) ↔ ∃ w, s.waits t = some w ∧ w.node = n

/-- The first node was not due at the last check, or its task is running. -/
def LastCheckServed (s : TimerSystem) : Prop := ∀ time, s.checked = some time → s.timer.Served s.pool time

def SkipsBeforeExpiry (s : TimerSystem) : Prop :=
  ∀ clock : Timespec, clock.Normal → s.timer.pollDue clock = false →
    ∀ t w, s.waits t = some w → timerCmp clock (s.timer.sort.field w.node) < 0

/-- At a blocking poll every task of the tree is waiting, and the first node expires first. -/
def BlocksAsleep (s : TimerSystem) : Prop :=
  s.Blocks → ∀ t w, s.waits t = some w →
    s.pool t = some .waiting ∧ timerCmp s.timer.firstExpire (s.timer.sort.field w.node) ≤ 0

/-- The time that `hev_task_timer_get_timeout` takes as the current one. -/
def timeoutBase (s : TimerSystem) (clock : Timespec) : Timespec :=
  if s.timer.cachedCurrValid then s.timer.cachedCurr else clock

/-- A blocking poll waits for the first node: its timeout is the time left to the expiry. -/
def AwaitsFirst (s : TimerSystem) : Prop :=
  s.Blocks → s.timer.first ≠ 0 → ∀ clock : Timespec, clock.Normal → s.now.ns ≤ clock.ns →
    (s.pollTimeout (-1) clock).1 = (s.timeoutBase clock).left s.timer.firstExpire

variable {s : TimerSystem}

theorem Inv.treeExact (inv : s.Inv) : s.TreeExact := by
  have ⟨order, holds, perm, sorted⟩ := inv.linked.sorted
  refine ⟨order, holds, sorted.imp fun precedes => ?_, fun n t => ?_⟩
  · rcases precedes with less | ⟨equal, _⟩
    · exact TaskTimer.timerCmp_le_of_key (le_of_lt less)
    · exact TaskTimer.timerCmp_le_of_key (le_of_eq equal)
  · rw [perm.mem_iff, inv.linked.members]
    constructor
    · rintro ⟨⟨t', w, found, rfl⟩, task⟩
      rw [inv.linked.owner found] at task
      exact ⟨w, task ▸ found, rfl⟩
    · rintro ⟨w, found, rfl⟩
      exact ⟨⟨t, w, found, rfl⟩, inv.linked.owner found⟩

theorem Inv.normal (inv : s.Inv) {t : Addr} {w : TimerWait} (found : s.waits t = some w) :
    (s.timer.sort.field w.node).Normal := by
  rw [inv.linked.expire found]
  exact (inv.began found).normal.getExpire _

theorem Inv.first_le (inv : s.Inv) {t : Addr} {w : TimerWait} (found : s.waits t = some w) :
    timerKey s.timer.first s.timer.firstExpire ≤ timerKey w.node (s.timer.sort.field w.node) :=
  TaskTimer.first_le inv.linked.sorted ((inv.linked.members _).mpr ⟨t, w, found, rfl⟩)

theorem Inv.skipsBeforeExpiry (inv : s.Inv) : s.SkipsBeforeExpiry := by
  intro clock normal skip t w found
  have member : w.node ∈ s.timer.sort.nodes := (inv.linked.members _).mpr ⟨t, w, found, rfl⟩
  have nonempty : s.timer.first ≠ 0 :=
    mt (TaskTimer.first_eq_zero inv.linked.sorted).mp (List.ne_nil_of_mem member)
  obtain ⟨first, inside, same⟩ := inv.linked.first nonempty
  have firstNormal : s.timer.firstExpire.Normal := by
    rw [TaskTimer.firstExpire, ← same]
    exact inv.normal inside
  unfold TaskTimer.pollDue at skip
  split at skip
  · rename_i early
    simp only [nonempty, decide_false, Bool.false_or, Bool.not_eq_false', decide_eq_true_eq] at skip
    rw [normal.cmp_neg inv.deadline] at early
    rw [firstNormal.cmp_pos inv.deadline] at skip
    rw [normal.cmp_neg (inv.normal found)]
    exact (early.trans skip).trans_le (TaskTimer.timerKey_ns firstNormal (inv.normal found) (inv.first_le found))
  · cases skip

theorem Inv.blocksAsleep (inv : s.Inv) : s.BlocksAsleep := fun blocks t _ found =>
  ⟨(inv.active found).resolve_left (blocks.1 t), TaskTimer.timerCmp_le_of_key (inv.first_le found)⟩

theorem Inv.awaitsFirst (inv : s.Inv) (short : ∀ t w, s.waits t = some w → w.milliseconds < 2 ^ 31) :
    s.AwaitsFirst := by
  intro _ nonempty clock normal later
  obtain ⟨w, inside, same⟩ := inv.linked.first nonempty
  have expire : s.timer.firstExpire = w.start.getExpire w.milliseconds := by
    rw [TaskTimer.firstExpire, ← same, inv.linked.expire inside]
  have began := inv.began inside
  have firstNormal : s.timer.firstExpire.Normal := expire ▸ began.normal.getExpire _
  -- Both the clock and the timestamp are read after the sleep of the first task began.
  have remains : ∀ {base : Timespec}, base.Normal → w.start.ns ≤ base.ns →
      toInt (base.getTime s.timer.firstExpire) = base.left s.timer.firstExpire := by
    intro base baseNormal after
    refine baseNormal.toInt_getTime firstNormal (lt_of_le_of_lt ?_ (short _ _ inside))
    rw [expire]
    exact Timespec.left_getExpire_le after
  rw [pollTimeout, if_pos (by decide), TaskTimer.getTimeout, if_neg nonempty, timeoutBase]
  split_ifs
  · dsimp only
    exact remains (inv.cached inside).1 (inv.cached inside).2
  · dsimp only
    exact remains normal (began.start.trans later)

end TimerSystem

def TimerOp.Short : TimerOp → Prop
  | .sleep milliseconds _ _ => milliseconds < 2 ^ 31
  | _ => True

instance (op : TimerOp) : Decidable op.Short :=
  match op with
  | .sleep milliseconds _ _ => inferInstanceAs (Decidable (milliseconds < 2 ^ 31))
  | .start _ | .run | .wakeup _ | .yield | .wait | .exit | .pollMaybe _ _ | .poll _ | .switch _ _ | .finish =>
    isTrue trivial

/-- In every run the tree is exact, the last check was served, a skipped poll is before
every expiry and a blocking poll finds all sleepers waiting; if every sleep is short, it
waits for the first of them. -/
theorem no_timer_wakeup_lost {interval : Nat} {ops : List TimerOp} {s : TimerSystem}
    (run : (timerSystem interval).Run ops s) :
    s.TreeExact ∧ s.LastCheckServed ∧ s.SkipsBeforeExpiry ∧ s.BlocksAsleep ∧
      ((∀ op ∈ ops, op.Short) → s.AwaitsFirst) := by
  have inv := timerSystem_inv run
  refine ⟨inv.treeExact, fun _ found => (inv.checked found).2.2, inv.skipsBeforeExpiry, inv.blocksAsleep,
    fun short => inv.awaitsFirst fun t w found => ?_⟩
  obtain ⟨_, _, member⟩ := TimerSystem.waits_begun run found
  exact short _ member

/-- One task sleeps for 20 ms, the next for 10 ms: the blocking poll waits 10 ms, for the second. -/
theorem no_timer_wakeup_lost_pair :
    ∃ ops s, (timerSystem 50000).Run ops s ∧ s.Blocks ∧ s.timer.first = 128 ∧
      (s.pollTimeout (-1) s.now).1 = 10 ∧ s.TreeExact ∧ s.LastCheckServed ∧ s.SkipsBeforeExpiry ∧
      s.BlocksAsleep ∧ s.AwaitsFirst := by
  have run := @timerSystem_new 50000
  have run := timer_step run (.start 4) ⟨.inl rfl, by decide, .inl rfl⟩ (by decide) 0 rfl
  have run := timer_step run (.start 8) ⟨.inl rfl, by decide, .inl rfl⟩ (by decide) 0 rfl
  have run := timer_step run .run rfl (by decide) 0 rfl
  have awake : ¬ TimerSystem.Waits _ := not_exists.mpr (TimerSystem.pool_ne run [4, 8] (by decide) (by decide))
  have run := timer_step run (.switch 4 ⟨0, 0⟩) ⟨rfl, .inl ⟨rfl, awake⟩⟩ (by decide) 0 rfl
  have run := timer_step run (.sleep 20 64 ⟨0, 0⟩) ⟨⟨4, rfl⟩, by decide, by decide, by decide, by decide⟩
    (by decide) 2 rfl
  have run := timer_step run (.pollMaybe ⟨0, 0⟩ ⟨⟨0, 0⟩, [], ⟨0, 0⟩, ⟨0, 0⟩⟩)
    ⟨rfl, fun idle => idle 8 rfl, ⟨4, rfl⟩, by simp⟩ (by decide) 0 rfl
  have run := timer_step run (.switch 8 ⟨0, 0⟩) ⟨rfl, .inr rfl⟩ (by decide) 0 rfl
  have run := timer_step run (.sleep 10 128 ⟨0, 0⟩) ⟨⟨8, rfl⟩, by decide, by decide, by decide, by decide⟩
    (by decide) 3 rfl
  have idle : TimerSystem.Idle _ := TimerSystem.pool_ne run [4, 8] (by decide) (by decide)
  obtain ⟨tree, served, skips, asleep, awaits⟩ := no_timer_wakeup_lost run
  exact ⟨_, _, run, ⟨idle, .inl ⟨rfl, 4, rfl⟩⟩, by decide, by decide, tree, served, skips, asleep, awaits (by decide)⟩

/-- A task sleeps for 2^31 ms. The blocking poll has a negative timeout, so nothing ends it
at the expiry. -/
theorem timeout_negative :
    ∃ ops s, (timerSystem 50000).Run ops s ∧ s.Blocks ∧ s.timer.first ≠ 0 ∧
      (s.pollTimeout (-1) s.now).1 = -2147483648 ∧ ¬ s.AwaitsFirst := by
  obtain ⟨ops, s, run, blocks, nonempty, normal, negative⟩ : ∃ ops s, (timerSystem 50000).Run ops s ∧ s.Blocks ∧
      s.timer.first ≠ 0 ∧ s.now.Normal ∧ (s.pollTimeout (-1) s.now).1 = -2147483648 := by
    have run := @timerSystem_new 50000
    have run := timer_step run (.start 4) ⟨.inl rfl, by decide, .inl rfl⟩ (by decide) 0 rfl
    have run := timer_step run .run rfl (by decide) 0 rfl
    have awake : ¬ TimerSystem.Waits _ := not_exists.mpr (TimerSystem.pool_ne run [4] (by decide) (by decide))
    have run := timer_step run (.switch 4 ⟨0, 0⟩) ⟨rfl, .inl ⟨rfl, awake⟩⟩ (by decide) 0 rfl
    have run := timer_step run (.sleep 2147483648 64 ⟨0, 0⟩)
      ⟨⟨4, rfl⟩, by omega, by decide, by decide, by decide⟩ (by decide) 2 rfl
    have idle : TimerSystem.Idle _ := TimerSystem.pool_ne run [4] (by decide) (by decide)
    exact ⟨_, _, run, ⟨idle, .inl ⟨rfl, 4, rfl⟩⟩, by decide, by decide, by decide⟩
  refine ⟨ops, s, run, blocks, nonempty, negative, fun awaits => ?_⟩
  have timeout := awaits blocks nonempty s.now normal (le_refl _)
  omega

/-- In every run no operation on the timers faults, and each loop takes at most one pass for each
sleeper and one more. -/
theorem timerSystem_returns {interval fuel : Nat} {ops : List TimerOp} {op : TimerOp} {s : TimerSystem}
    (run : (timerSystem interval).Run ops s) (enabled : op.Enabled s) (bound : s.timer.sort.nodes.length < fuel) :
    ∃ next, op.apply interval fuel s = some next :=
  (timerSystem_inv run).progress enabled bound

theorem timerSystem_returns_sleep : ∃ ops s, (timerSystem 50000).Run ops s ∧
    ∃ next, (TimerOp.sleep 20 64 ⟨0, 0⟩).apply 50000 1 s = some next := by
  have run := @timerSystem_new 50000
  have run := timer_step run (.start 4) ⟨.inl rfl, by decide, .inl rfl⟩ (by decide) 0 rfl
  have run := timer_step run .run rfl (by decide) 0 rfl
  have awake : ¬ TimerSystem.Waits _ := not_exists.mpr (TimerSystem.pool_ne run [4] (by decide) (by decide))
  have run := timer_step run (.switch 4 ⟨0, 0⟩) ⟨rfl, .inl ⟨rfl, awake⟩⟩ (by decide) 0 rfl
  exact ⟨_, _, run, timerSystem_returns run ⟨⟨4, rfl⟩, by decide, by decide, by decide, by decide⟩ (by decide)⟩

end HevTaskSystem
