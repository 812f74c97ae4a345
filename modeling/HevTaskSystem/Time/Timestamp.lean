import HevTaskSystem.Time.Wakeups

/-! The cached timestamp of the timer.

A wait records the clock for the poll of the pass that it enters. Every poll drops the
timestamp, but a pass that skips its poll does not: the next tasks run, and a later
blocking poll takes the old time as the current one. Where no poll is skipped while the
timestamp is valid, it is only ever used in the pass it was recorded for.
-/

set_option autoImplicit false

namespace HevTaskSystem

open Foundation

def TimerOp.DropsStamp (interval : Nat) (s : TimerSystem) : TimerOp → Prop
  | .pollMaybe clock _ => interval > 0 → s.timer.pollDue clock = false → s.timer.cachedCurrValid = false
  | _ => True

def droppingSystem (interval : Nat) : System TimerSystem TimerOp :=
  (timerSystem interval).restrict fun s op => op.DropsStamp interval s

theorem dropping_step {interval : Nat} {ops : List TimerOp} {s : TimerSystem}
    (run : (droppingSystem interval).Run ops s) (op : TimerOp) (drops : op.DropsStamp interval s)
    (enabled : op.Enabled s) (monotone : op.Monotone s) (fuel : Nat)
    (returns : (op.apply interval fuel s).isSome) :
    (droppingSystem interval).Run (ops ++ [op]) ((op.apply interval fuel s).get returns) :=
  run.step ⟨drops, enabled, monotone, fuel, (Option.some_get returns).symm⟩

namespace TimerSystem

/-- A blocking poll that uses the timestamp does so before any task has run. -/
def StampFresh (s : TimerSystem) : Prop :=
  s.Blocks → s.timer.first ≠ 0 → s.timer.cachedCurrValid = true → s.ran = []

/-- A valid timestamp belongs to the pass that the sleep just entered. -/
def Stamped (s : TimerSystem) : Prop :=
  s.timer.cachedCurrValid = true → s.phase = .kernel ∧ s.Waits ∧ s.ran = []

variable {s next : TimerSystem} {interval : Nat} {op : TimerOp} {ops : List TimerOp}

theorem Stamped.of_invalid (invalid : s.timer.cachedCurrValid = false) : s.Stamped := fun valid => by
  simp [invalid] at valid

theorem Stamped.invalid (stamped : s.Stamped) (elsewhere : s.phase ≠ .kernel ∨ ¬ s.Waits) :
    s.timer.cachedCurrValid = false := by
  by_contra valid
  obtain ⟨kernel, waits, _⟩ := stamped (by simpa using valid)
  rcases elsewhere with other | awake
  · exact other kernel
  · exact awake waits

theorem Stamped.step (stamped : s.Stamped) (step : (droppingSystem interval).step s op next) : next.Stamped := by
  have effect := step_effect step.2
  obtain ⟨drops, enabled, _⟩ := step
  have entered : ∀ {t clock}, op = .switch t clock → s.timer.cachedCurrValid = false := by
    rintro t clock rfl
    refine stamped.invalid ?_
    rcases enabled.2 with ⟨_, awake⟩ | polled
    · exact .inr awake
    · exact .inl (by simp [polled])
  cases effect with
  | start | wakeup _ =>
    refine .of_invalid (stamped.invalid (.inl ?_))
    rcases enabled.1 with phase | ⟨c, phase⟩ <;> simp [phase]
  | run =>
    have phase : s.phase = .caller := enabled
    exact .of_invalid (stamped.invalid (.inl (by simp [phase])))
  | leave _ phase => exact .of_invalid (stamped.invalid (.inl (by simp [show s.phase = _ from phase])))
  | noSleep => exact stamped
  | sleep _ _ _ => exact fun _ => ⟨rfl, ⟨_, Function.update_self ..⟩, rfl⟩
  | skip positive early => exact .of_invalid (drops positive early)
  | poll _ _ _ => exact .of_invalid rfl
  | enter _ => exact .of_invalid (entered rfl)
  | awake _ returned =>
    obtain ⟨_, shape, _⟩ := TaskTimer.waitReturn_erase returned
    exact .of_invalid (by rw [shape]; exact entered rfl)
  | finish => exact .of_invalid (stamped.invalid (.inr enabled.2.2))

theorem droppingSystem_stamped (run : (droppingSystem interval).Run ops s) : s.Stamped := by
  refine run.invariant Stamped ?_ fun _ _ _ stamped step => stamped.step step
  rintro s ⟨_, _, _, invalid, _⟩
  exact .of_invalid invalid

theorem Stamped.fresh (stamped : s.Stamped) : s.StampFresh := fun _ _ valid => (stamped valid).2.2

end TimerSystem

/-- In every run that skips no poll while the timestamp is valid, a blocking poll uses it
only if no task has run since; if every sleep is short, the timeout is the time left from
then, or from the clock reading of the poll itself. -/
theorem stamp_used_in_its_pass {interval : Nat} {ops : List TimerOp} {s : TimerSystem}
    (run : (droppingSystem interval).Run ops s) :
    s.StampFresh ∧ ((∀ op ∈ ops, op.Short) → s.AwaitsFirst) := by
  have inv := timerSystem_inv run.of_restrict
  refine ⟨(TimerSystem.droppingSystem_stamped run).fresh, fun short => inv.awaitsFirst fun t w found => ?_⟩
  obtain ⟨_, _, member⟩ := TimerSystem.waits_begun run.of_restrict found
  exact short _ member

/-- The only task sleeps, and the poll that waits for it uses the timestamp. -/
theorem stamp_used_in_its_pass_sleep :
    ∃ ops s, (droppingSystem 50000).Run ops s ∧ s.Blocks ∧ s.timer.cachedCurrValid = true ∧
      (s.pollTimeout (-1) s.now).1 = 10 ∧ s.StampFresh ∧ s.AwaitsFirst := by
  have run : (droppingSystem 50000).Run [] TimerSystem.new :=
    .init ⟨fun _ => rfl, rfl, ⟨rfl, rfl, rfl⟩, rfl, rfl, fun _ => rfl, by decide, rfl, rfl⟩
  have run := dropping_step run (.start 4) trivial ⟨.inl rfl, by decide, .inl rfl⟩ (by decide) 0 rfl
  have run := dropping_step run .run trivial rfl (by decide) 0 rfl
  have awake : ¬ TimerSystem.Waits _ := not_exists.mpr (TimerSystem.pool_ne run.of_restrict [4] (by decide) (by decide))
  have run := dropping_step run (.switch 4 ⟨0, 0⟩) trivial ⟨rfl, .inl ⟨rfl, awake⟩⟩ (by decide) 0 rfl
  have run := dropping_step run (.sleep 10 64 ⟨0, 0⟩) trivial
    ⟨⟨4, rfl⟩, by decide, by decide, by decide, by decide⟩ (by decide) 2 rfl
  have idle : TimerSystem.Idle _ := TimerSystem.pool_ne run.of_restrict [4] (by decide) (by decide)
  obtain ⟨fresh, awaits⟩ := stamp_used_in_its_pass run
  exact ⟨_, _, run, ⟨idle, .inl ⟨rfl, 4, rfl⟩⟩, by decide, by decide, fresh, awaits (by decide)⟩

/-- Task 8 waits and a poll arms the deadline. Task 4 wakes it and sleeps for 100 ms; the
next poll is skipped, task 8 runs for 50 ms and waits. The blocking poll then waits for
100 ms instead of the 50 ms that are left. -/
theorem stamp_survives_skipped_poll :
    ∃ ops s, (timerSystem 50000).Run ops s ∧ s.Blocks ∧ s.timer.first ≠ 0 ∧
      s.timer.cachedCurrValid = true ∧ s.ran = [8] ∧ s.now.ns ≤ Timespec.ns ⟨0, 50000000⟩ ∧
      (s.pollTimeout (-1) ⟨0, 50000000⟩).1 = 100 ∧ Timespec.left ⟨0, 50000000⟩ s.timer.firstExpire = 50 := by
  have run := @timerSystem_new 50000
  have run := timer_step run (.start 8) ⟨.inl rfl, by decide, .inl rfl⟩ (by decide) 0 rfl
  have run := timer_step run (.start 4) ⟨.inl rfl, by decide, .inl rfl⟩ (by decide) 0 rfl
  have run := timer_step run .run rfl (by decide) 0 rfl
  have awake : ¬ TimerSystem.Waits _ := not_exists.mpr (TimerSystem.pool_ne run [4, 8] (by decide) (by decide))
  have run := timer_step run (.switch 8 ⟨0, 0⟩) ⟨rfl, .inl ⟨rfl, awake⟩⟩ (by decide) 0 rfl
  have run := timer_step run .wait ⟨8, rfl⟩ (by decide) 0 rfl
  have run := timer_step run (.pollMaybe ⟨0, 0⟩ ⟨⟨0, 0⟩, [], ⟨0, 0⟩, ⟨0, 0⟩⟩)
    ⟨rfl, fun idle => idle 4 rfl, ⟨8, rfl⟩, by simp⟩ (by decide) 0 rfl
  have run := timer_step run (.switch 4 ⟨0, 0⟩) ⟨rfl, .inr rfl⟩ (by decide) 0 rfl
  have run := timer_step run (.wakeup 8) ⟨.inr ⟨4, rfl⟩, .inr rfl⟩ (by decide) 0 rfl
  have run := timer_step run (.sleep 100 64 ⟨0, 0⟩) ⟨⟨4, rfl⟩, by decide, by decide, by decide, by decide⟩
    (by decide) 2 rfl
  have run := timer_step run (.pollMaybe ⟨0, 0⟩ ⟨⟨0, 0⟩, [], ⟨0, 0⟩, ⟨0, 0⟩⟩)
    ⟨rfl, fun idle => idle 8 rfl, ⟨4, rfl⟩, by simp⟩ (by decide) 0 rfl
  have run := timer_step run (.switch 8 ⟨0, 0⟩) ⟨rfl, .inr rfl⟩ (by decide) 0 rfl
  have run := timer_step run .wait ⟨8, rfl⟩ (by decide) 0 rfl
  have idle : TimerSystem.Idle _ := TimerSystem.pool_ne run [4, 8] (by decide) (by decide)
  exact ⟨_, _, run, ⟨idle, .inl ⟨rfl, 4, rfl⟩⟩, by decide, by decide, by decide, by decide, by decide, by decide⟩

end HevTaskSystem
