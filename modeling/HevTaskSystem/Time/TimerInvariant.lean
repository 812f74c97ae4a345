import HevTaskSystem.Time.TimerSystem

/-! What holds of the timer in every state.

A check wakes one task only, so an expired node may stay in the tree behind others. But
the first node was not due at the last check, or its task is running: that task will take
its node out and check again.
-/

set_option autoImplicit false

namespace HevTaskSystem

open Foundation

namespace TimerSystem

/-! ## The tree and the waits -/

/-- The tree holds exactly the nodes of the waits, each with its task and its expiry. -/
structure Linked (timer : TaskTimer) (waits : Addr → Option TimerWait) : Prop where
  sorted : timer.sort.Sorted timerKey
  members : ∀ n, n ∈ timer.sort.nodes ↔ ∃ t w, waits t = some w ∧ w.node = n
  owner : ∀ {t w}, waits t = some w → timer.task w.node = t
  expire : ∀ {t w}, waits t = some w → timer.sort.field w.node = w.start.getExpire w.milliseconds

variable {timer next : TaskTimer} {waits : Addr → Option TimerWait} {pool after : TaskPool} {t node : Addr}
  {w : TimerWait} {clock time : Timespec} {fuel milliseconds result : Nat} {flag : Bool}

theorem begin_iff {t' : Addr} {w' : TimerWait} :
    Function.update waits t (some w) t' = some w' ↔ t' = t ∧ w' = w ∨ t' ≠ t ∧ waits t' = some w' := by
  by_cases here : t' = t
  · subst here
    simp [eq_comm]
  · simp [here]

theorem end_iff {t' : Addr} {w' : TimerWait} :
    Function.update waits t none t' = some w' ↔ t' ≠ t ∧ waits t' = some w' := by
  by_cases here : t' = t
  · simp [here]
  · simp [here]

theorem Linked.first (linked : Linked timer waits) (nonempty : timer.first ≠ 0) :
    ∃ w, waits (timer.task timer.first) = some w ∧ w.node = timer.first := by
  obtain ⟨t, w, found, same⟩ := (linked.members _).mp (TaskTimer.first_mem linked.sorted nonempty)
  refine ⟨w, ?_, same⟩
  rw [← same, linked.owner found, found]

theorem Linked.wait (linked : Linked timer waits) (outside : waits t = none)
    (fresh : RBTree.Op.Fresh node timer.sort.nodes)
    (run : timer.wait fuel milliseconds t node clock = some (next, flag)) :
    Linked next (Function.update waits t (some ⟨node, milliseconds, flag, clock⟩)) := by
  obtain ⟨field, nodes, task⟩ := TaskTimer.wait_fields run
  have other : ∀ {t' w}, waits t' = some w → w.node ≠ node := fun found same =>
    fresh.2.2 (same ▸ (linked.members _).mpr ⟨_, _, found, rfl⟩)
  refine ⟨TaskTimer.wait_sorted linked.sorted fresh run, fun n => ?_, ?_, ?_⟩
  · rw [nodes, List.mem_append, List.mem_singleton, linked.members]
    constructor
    · rintro (⟨t', w, found, same⟩ | here)
      · have apart : t' ≠ t := fun h => by simp [← h, found] at outside
        exact ⟨t', w, begin_iff.mpr (.inr ⟨apart, found⟩), same⟩
      · exact ⟨t, _, Function.update_self .., here.symm⟩
    · rintro ⟨t', w, found, same⟩
      rcases begin_iff.mp found with ⟨_, rfl⟩ | ⟨_, found⟩
      · exact .inr same.symm
      · exact .inl ⟨t', w, found, same⟩
  · intro t' w found
    rcases begin_iff.mp found with ⟨rfl, rfl⟩ | ⟨_, found⟩
    · rw [task, Function.update_self]
    · rw [task, Function.update_of_ne (other found), linked.owner found]
  · intro t' w found
    rcases begin_iff.mp found with ⟨_, rfl⟩ | ⟨_, found⟩
    · rw [field, Function.update_self]
    · rw [field, Function.update_of_ne (other found), linked.expire found]

theorem Linked.waitReturn (linked : Linked timer waits) (inside : waits t = some w)
    (run : timer.waitReturn fuel w clock pool = some (next, after, result)) :
    Linked next (Function.update waits t none) := by
  obtain ⟨field, nodes, task⟩ := TaskTimer.waitReturn_fields run
  have member : w.node ∈ timer.sort.nodes := (linked.members _).mpr ⟨t, w, inside, rfl⟩
  refine ⟨TaskTimer.waitReturn_sorted linked.sorted member run, fun n => ?_, ?_, ?_⟩
  · rw [nodes, linked.sorted.nodup.mem_erase_iff, linked.members]
    constructor
    · rintro ⟨apart, t', w', found, rfl⟩
      have other : t' ≠ t := by
        rintro rfl
        exact apart (by rw [Option.some.inj (found.symm.trans inside)])
      exact ⟨t', w', end_iff.mpr ⟨other, found⟩, rfl⟩
    · rintro ⟨t', w', found, rfl⟩
      obtain ⟨other, found⟩ := end_iff.mp found
      refine ⟨fun same => other ?_, t', w', found, rfl⟩
      rw [← linked.owner found, same, linked.owner inside]
  · intro t' w' found
    rw [task, linked.owner (end_iff.mp found).2]
  · intro t' w' found
    rw [field, linked.expire (end_iff.mp found).2]

/-! ## The first node and the last check -/

theorem served_wait (linked : Linked timer waits) (fresh : RBTree.Op.Fresh node timer.sort.nodes)
    (run : timer.wait fuel milliseconds t node clock = some (next, flag))
    (later : timerCmp time (clock.getExpire milliseconds) < 0) (served : timer.Served pool time) :
    next.Served pool time := by
  obtain ⟨field, nodes, task⟩ := TaskTimer.wait_fields run
  have sorted := TaskTimer.wait_sorted linked.sorted fresh run
  intro nonempty
  by_cases here : next.first = node
  · rw [TaskTimer.firstExpire, here, field, Function.update_self]
    exact .inl later
  · have old : ∀ b ∈ timer.sort.nodes, next.sort.field b = timer.sort.field b := by
      intro b member
      have apart : b ≠ node := fun h => fresh.2.2 (h ▸ member)
      rw [field, Function.update_of_ne apart]
    have member : next.first ∈ timer.sort.nodes := by
      have inside := TaskTimer.first_mem sorted nonempty
      rw [nodes, List.mem_append, List.mem_singleton] at inside
      exact inside.resolve_right here
    -- The first node of the new tree is an old one, and least among the old ones too.
    have same : timer.first = next.first := by
      refine TaskTimer.first_unique linked.sorted member fun b inside => ?_
      rw [← old _ member, ← old b inside]
      exact TaskTimer.first_le sorted (by rw [nodes]; exact List.mem_append_left _ inside)
    have known : timer.first ≠ 0 := fun h => nonempty (same ▸ h)
    rw [TaskTimer.firstExpire, old _ member, task, Function.update_of_ne here, ← same]
    exact served known

theorem first_waitReturn (linked : Linked timer waits) (inside : waits t = some w)
    (run : timer.waitReturn fuel w clock pool = some (next, after, result)) (other : w.node ≠ timer.first) :
    next.first = timer.first := by
  obtain ⟨field, nodes, _⟩ := TaskTimer.waitReturn_fields run
  have present : w.node ∈ timer.sort.nodes := (linked.members _).mpr ⟨t, w, inside, rfl⟩
  have sorted := TaskTimer.waitReturn_sorted linked.sorted present run
  have first := (linked.sorted.firstLeast (List.ne_nil_of_mem present)).1
  refine TaskTimer.first_unique sorted ?_ fun b member => ?_
  · rw [nodes]
    exact (List.mem_erase_of_ne other.symm).mpr first
  · rw [nodes] at member
    rw [field]
    exact TaskTimer.first_le linked.sorted (List.mem_of_mem_erase member)

theorem served_waitReturn (linked : Linked timer waits) (inside : waits t = some w)
    (run : timer.waitReturn fuel w clock pool = some (next, after, result)) (quiet : timer.checks w = false)
    (served : timer.Served pool time) : next.Served after time := by
  have other : w.node ≠ timer.first := by
    simp only [TaskTimer.checks, Bool.or_eq_false_iff, decide_eq_false_iff_not] at quiet
    exact quiet.2
  have same := first_waitReturn linked inside run other
  obtain ⟨field, _, task⟩ := TaskTimer.waitReturn_fields run
  obtain ⟨_, _, check, _⟩ := TaskTimer.waitReturn_erase run
  have kept : pool = after := by simpa [quiet] using check
  rw [TaskTimer.Served, TaskTimer.firstExpire, same, task, field, ← kept]
  exact served

/-! ## What a step does -/

variable {s : TimerSystem} {interval : Nat} {io : TimerPoll}

theorem ioPoll_eq {timeout : Int} {next : TimerSystem} (run : s.ioPoll interval timeout io = some next) :
    ∃ pool, s.pool.Woken pool ∧ s.timer.Served pool io.wake ∧ next = { s with
      pool := pool
      phase := .polled
      timer := { s.timer with
        cachedCurrValid := false
        pollDeadline := if interval > 0 then io.rearm.addNs interval else s.timer.pollDeadline }
      checked := if s.timer.first = 0 then s.checked else some io.wake } := by
  have timer : ∃ valid, (s.pollTimeout timeout io.timeout).2 = { s.timer with cachedCurrValid := valid } := by
    unfold pollTimeout TaskTimer.getTimeout
    split_ifs <;> exact ⟨_, rfl⟩
  obtain ⟨valid, timer⟩ := timer
  simp only [ioPoll, timer, Option.bind_eq_bind, Option.bind_eq_some_iff, Option.pure_def,
    Option.some.injEq, Prod.exists] at run
  obtain ⟨mid, events, waked, pool, wake, rfl⟩ := run
  obtain ⟨rfl, served, woken⟩ := TaskTimer.wake_served wake
  refine ⟨pool, (TaskPool.woken_of_events events).trans woken, served, ?_⟩
  by_cases positive : interval > 0
  · rw [if_pos positive, if_pos positive]
    rfl
  · rw [if_neg positive, if_neg positive]
    rfl

/-- What an operation can do to the state. This is all that the invariants below need. -/
inductive Effect (interval : Nat) (s : TimerSystem) : TimerOp → TimerSystem → Prop where
  | start {t : Addr} : Effect interval s (.start t) { s with pool := Function.update s.pool t (some .running) }
  | run : Effect interval s .run { s with phase := .kernel }
  | wakeup {t : Addr} {pool : TaskPool} : s.pool.Woken pool → Effect interval s (.wakeup t) { s with pool := pool }
  | leave {op : TimerOp} {t : Addr} {state : TaskState} : op ∈ [TimerOp.yield, .wait, .exit] → s.phase = .task t →
      Effect interval s op { s with pool := Function.update s.pool t (some state), phase := .kernel }
  | noSleep {node : Addr} {clock : Timespec} : Effect interval s (.sleep 0 node clock) s
  | sleep {t node : Addr} {milliseconds fuel : Nat} {clock : Timespec} {timer : TaskTimer} {flag : Bool} :
      s.phase = .task t → 0 < milliseconds → s.timer.wait fuel milliseconds t node clock = some (timer, flag) →
      Effect interval s (.sleep milliseconds node clock) { s with
        pool := s.pool.wait t
        phase := .kernel
        timer := timer
        waits := Function.update s.waits t (some ⟨node, milliseconds, flag, clock⟩)
        ran := [] }
  | skip {clock : Timespec} {io : TimerPoll} : interval > 0 → s.timer.pollDue clock = false →
      Effect interval s (.pollMaybe clock io) { s with phase := .polled }
  | poll {op : TimerOp} {io : TimerPoll} {pool : TaskPool} : op = .poll io ∨ (∃ clock, op = .pollMaybe clock io) →
      s.pool.Woken pool → s.timer.Served pool io.wake → Effect interval s op { s with
        pool := pool
        phase := .polled
        timer := { s.timer with
          cachedCurrValid := false
          pollDeadline := if interval > 0 then io.rearm.addNs interval else s.timer.pollDeadline }
        checked := if s.timer.first = 0 then s.checked else some io.wake }
  | enter {t : Addr} {clock : Timespec} : s.waits t = none →
      Effect interval s (.switch t clock) { s with phase := .task t, ran := s.ran ++ [t] }
  | awake {t : Addr} {clock : Timespec} {w : TimerWait} {timer : TaskTimer} {pool : TaskPool} {fuel left : Nat} :
      s.waits t = some w → s.timer.waitReturn fuel w clock s.pool = some (timer, pool, left) →
      Effect interval s (.switch t clock) { s with
        pool := pool
        phase := .task t
        timer := timer
        waits := Function.update s.waits t none
        checked := if s.timer.checks w then some clock else s.checked
        ran := s.ran ++ [t] }
  | finish : Effect interval s .finish { s with phase := .caller }

theorem leave_effect {op : TimerOp} {state : TaskState} {next : TimerSystem}
    (leaves : op ∈ [TimerOp.yield, .wait, .exit]) (run : s.leave state = some next) : Effect interval s op next := by
  unfold TimerSystem.leave at run
  split at run
  · rename_i phase
    cases run
    exact .leave leaves phase
  · cases run

theorem act_effect {op : TimerOp} {next : TimerSystem} (run : op.act interval fuel s = some next) :
    Effect interval s op next := by
  cases op with
  | start t =>
    cases run
    exact .start
  | run =>
    cases run
    exact .run
  | wakeup t =>
    simp only [TimerOp.act, Option.bind_eq_bind, Option.bind_eq_some_iff, Option.pure_def, Option.some.injEq] at run
    obtain ⟨pool, wake, rfl⟩ := run
    exact .wakeup (TaskPool.woken_of_wakeup wake).1
  | yield | wait | exit => exact leave_effect (by simp) run
  | sleep milliseconds node clock =>
    simp only [TimerOp.act, taskSleep] at run
    split at run
    · rename_i zero
      cases run
      subst zero
      exact .noSleep
    · rename_i positive
      split at run
      · rename_i phase
        simp only [Option.bind_eq_bind, Option.bind_eq_some_iff, Option.pure_def, Option.some.injEq,
          Prod.exists] at run
        obtain ⟨timer, flag, wait, rfl⟩ := run
        exact .sleep phase (Nat.pos_of_ne_zero positive) wait
      · cases run
  | pollMaybe clock io =>
    simp only [TimerOp.act, ioPollMaybe] at run
    split at run
    · rename_i skip
      cases run
      exact .skip skip.1 skip.2
    · obtain ⟨pool, woken, served, rfl⟩ := ioPoll_eq run
      exact .poll (.inr ⟨clock, rfl⟩) woken served
  | poll io =>
    obtain ⟨pool, woken, served, rfl⟩ := ioPoll_eq run
    exact .poll (.inl rfl) woken served
  | switch t clock =>
    simp only [TimerOp.act, TimerSystem.switch] at run
    split at run
    · rename_i outside
      cases run
      exact .enter outside
    · rename_i w inside
      simp only [Option.bind_eq_bind, Option.bind_eq_some_iff, Option.pure_def, Option.some.injEq,
        Prod.exists] at run
      obtain ⟨timer, pool, left, returned, rfl⟩ := run
      exact .awake inside returned
  | finish =>
    cases run
    exact .finish

theorem step_effect {op : TimerOp} {next : TimerSystem} (step : (timerSystem interval).step s op next) :
    Effect interval { s with now := op.readings.getLastD s.now } op next := by
  obtain ⟨_, _, fuel, run⟩ := step
  exact act_effect run

/-! ## The invariant -/

structure Began (w : TimerWait) (now : Timespec) : Prop where
  normal : w.start.Normal
  start : w.start.ns ≤ now.ns
  positive : 0 < w.milliseconds
  fits : w.milliseconds < 2 ^ 32

structure Inv (s : TimerSystem) : Prop where
  linked : Linked s.timer s.waits
  active : ∀ {t w}, s.waits t = some w → s.Active t
  began : ∀ {t w}, s.waits t = some w → Began w s.now
  cached : ∀ {t w}, s.waits t = some w → s.timer.cachedCurr.Normal ∧ w.start.ns ≤ s.timer.cachedCurr.ns
  checked : ∀ {time}, s.checked = some time → time.Normal ∧ time.ns ≤ s.now.ns ∧ s.timer.Served s.pool time
  current : ∀ {t}, s.phase = .task t → s.waits t = none ∧ s.pool t = some .running
  deadline : s.timer.pollDeadline.Normal

theorem Inv.init (initial : (timerSystem interval).init s) : s.Inv := by
  obtain ⟨_, phase, empty, _, deadline, waits, _, checked, _⟩ := initial
  obtain ⟨holds, nodes⟩ := keyedSystem_empty empty
  have outside : ∀ {t w}, s.waits t = some w → False := fun {t w} found => by simp [waits t] at found
  refine ⟨⟨⟨[], holds, by rw [nodes], .nil⟩, fun n => ?_, ?_, ?_⟩, ?_, ?_, ?_, ?_, ?_, ?_⟩
  · simp [nodes, waits]
  · exact fun found => (outside found).elim
  · exact fun found => (outside found).elim
  · exact fun found => (outside found).elim
  · exact fun found => (outside found).elim
  · exact fun found => (outside found).elim
  · intro time found
    simp [checked] at found
  · intro t found
    simp [phase] at found
  · rw [deadline]
    decide

theorem Inv.tick (inv : s.Inv) {now : Timespec} (later : s.now.ns ≤ now.ns) : Inv { s with now := now } where
  linked := inv.linked
  active := inv.active
  began found :=
    let began := inv.began found
    ⟨began.normal, began.start.trans later, began.positive, began.fits⟩
  cached := inv.cached
  checked found :=
    let ⟨normal, past, served⟩ := inv.checked found
    ⟨normal, past.trans later, served⟩
  current := inv.current
  deadline := inv.deadline

theorem Inv.move (inv : s.Inv) {pool : TaskPool} {phase : SchedPhase} {ran : List Addr}
    (woken : ∀ {t w}, s.waits t = some w → pool t = s.pool t ∨ pool t = some .running)
    (current : ∀ {t}, phase = .task t → s.waits t = none ∧ pool t = some .running) :
    Inv { s with pool := pool, phase := phase, ran := ran } where
  linked := inv.linked
  active := by
    intro t w found
    rcases woken found with same | up
    · exact (inv.active found).imp same.trans same.trans
    · exact .inl up
  began := inv.began
  cached := inv.cached
  checked := by
    intro time found
    obtain ⟨normal, past, served⟩ := inv.checked found
    refine ⟨normal, past, fun nonempty => (served nonempty).imp_right fun running => ?_⟩
    -- The first node belongs to a task inside of a wait, which stays running.
    obtain ⟨w, inside, _⟩ := inv.linked.first nonempty
    rcases woken inside with same | up
    · exact same.trans running
    · exact up
  current := current
  deadline := inv.deadline

theorem Inv.leave (inv : s.Inv) {t : Addr} (current : s.phase = .task t) (state : Option TaskState) :
    Inv { s with pool := Function.update s.pool t state, phase := .kernel } := by
  refine inv.move (fun {t' w} found => ?_) (fun h => nomatch h)
  have other : t' ≠ t := fun h => by simp [h, (inv.current current).1] at found
  exact .inl (Function.update_of_ne other ..)

theorem Inv.sleep (inv : s.Inv) {t : Addr} (current : s.phase = .task t)
    (fresh : RBTree.Op.Fresh node s.timer.sort.nodes) (normal : clock.Normal) (now : s.now = clock)
    (positive : 0 < milliseconds) (fits : milliseconds < 2 ^ 32)
    (run : s.timer.wait fuel milliseconds t node clock = some (next, flag)) :
    Inv { s with
      pool := s.pool.wait t
      phase := .kernel
      timer := next
      waits := Function.update s.waits t (some ⟨node, milliseconds, flag, clock⟩)
      ran := [] } := by
  obtain ⟨outside, _⟩ := inv.current current
  obtain ⟨_, shape⟩ := TaskTimer.wait_insert run
  have stamp : next.cachedCurr = clock := by rw [shape]
  have deadline : next.pollDeadline = s.timer.pollDeadline := by rw [shape]
  refine ⟨inv.linked.wait outside fresh run, ?_, ?_, ?_, ?_, fun h => (nomatch h), deadline ▸ inv.deadline⟩
  · intro t' w found
    rcases begin_iff.mp found with ⟨rfl, _⟩ | ⟨other, found⟩
    · exact .inr (Function.update_self ..)
    · have same : s.pool.wait t t' = s.pool t' := Function.update_of_ne other ..
      exact (inv.active found).imp same.trans same.trans
  · intro t' w found
    rcases begin_iff.mp found with ⟨_, rfl⟩ | ⟨_, found⟩
    · exact ⟨normal, by rw [now], positive, fits⟩
    · exact inv.began found
  · intro t' w found
    rcases begin_iff.mp found with ⟨_, rfl⟩ | ⟨_, found⟩
    · exact ⟨stamp ▸ normal, by rw [stamp]⟩
    · exact ⟨stamp ▸ normal, by rw [stamp, ← now]; exact (inv.began found).start⟩
  · intro time found
    obtain ⟨past, before, served⟩ := inv.checked found
    refine ⟨past, before, served_wait inv.linked fresh run ?_ fun nonempty => ?_⟩
    -- The new expiry lies after the clock, and the clock after the last check.
    · rw [past.cmp_neg (normal.getExpire _), Timespec.ns_getExpire, ← now]
      omega
    · refine (served nonempty).imp_right fun running => ?_
      obtain ⟨w, inside, _⟩ := inv.linked.first nonempty
      have other : s.timer.task s.timer.first ≠ t := fun h => by simp [h, outside] at inside
      have same : s.pool.wait t (s.timer.task s.timer.first) = _ := Function.update_of_ne other ..
      exact same.trans running

theorem Inv.poll (inv : s.Inv) (wake : io.wake.Normal) (past : io.wake.ns ≤ s.now.ns) (rearm : io.rearm.Normal)
    (woken : s.pool.Woken pool) (served : s.timer.Served pool io.wake) :
    Inv { s with
      pool := pool
      phase := .polled
      timer := { s.timer with
        cachedCurrValid := false
        pollDeadline := if interval > 0 then io.rearm.addNs interval else s.timer.pollDeadline }
      checked := if s.timer.first = 0 then s.checked else some io.wake } := by
  refine ⟨⟨inv.linked.sorted, inv.linked.members, inv.linked.owner, inv.linked.expire⟩,
    fun found => woken.active (inv.active found), inv.began, inv.cached, ?_, fun h => (nomatch h), ?_⟩
  · intro time found
    dsimp only at found
    split_ifs at found with empty
    · obtain ⟨normal, before, _⟩ := inv.checked found
      exact ⟨normal, before, fun nonempty => absurd empty nonempty⟩
    · rw [← Option.some.inj found]
      exact ⟨wake, past, served⟩
  · dsimp only
    split_ifs
    · exact rearm.addNs interval
    · exact inv.deadline

theorem Inv.awake (inv : s.Inv) {t : Addr} (running : s.pool t = some .running) (inside : s.waits t = some w)
    (normal : clock.Normal) (past : clock.ns ≤ s.now.ns)
    (run : s.timer.waitReturn fuel w clock s.pool = some (next, after, result)) :
    Inv { s with
      pool := after
      phase := .task t
      timer := next
      waits := Function.update s.waits t none
      checked := if s.timer.checks w then some clock else s.checked
      ran := s.ran ++ [t] } := by
  obtain ⟨_, shape, check, _⟩ := TaskTimer.waitReturn_erase run
  have stamp : next.cachedCurr = s.timer.cachedCurr := by rw [shape]
  have deadline : next.pollDeadline = s.timer.pollDeadline := by rw [shape]
  have woken := TaskTimer.waitReturn_woken run
  have remaining : ∀ {t' w'}, Function.update s.waits t none t' = some w' → s.waits t' = some w' :=
    fun found => (end_iff.mp found).2
  refine ⟨inv.linked.waitReturn inside run, fun found => woken.active (inv.active (remaining found)),
    fun found => inv.began (remaining found), ?_, ?_, ?_, deadline ▸ inv.deadline⟩
  · intro t' w' found
    rw [stamp]
    exact inv.cached (remaining found)
  · intro time found
    dsimp only at found
    split_ifs at found check with checks
    · rw [← Option.some.inj found]
      exact ⟨normal, past, (TaskTimer.wakeup_served check).1⟩
    -- Without a check the node taken out was not the first one.
    · obtain ⟨normal, before, served⟩ := inv.checked found
      exact ⟨normal, before, served_waitReturn inv.linked inside run (by simpa using checks) served⟩
  · intro t' h
    cases h
    exact ⟨Function.update_self .., woken.running running⟩

end TimerSystem

theorem TimerOp.Monotone.later {op : TimerOp} {s : TimerSystem} (monotone : op.Monotone s) :
    s.now.ns ≤ (op.readings.getLastD s.now).ns := by
  obtain ⟨_, order⟩ := monotone
  rw [List.pairwise_cons] at order
  cases same : op.readings.getLast? with
  | none => simp [List.getLastD_eq_getLast?, same]
  | some last =>
    rw [List.getLastD_eq_getLast?, same]
    exact order.1 last (List.mem_of_getLast? same)

theorem TimerOp.Monotone.poll {op : TimerOp} {s : TimerSystem} {io : TimerPoll} (monotone : op.Monotone s)
    (polls : op = .poll io ∨ ∃ clock, op = .pollMaybe clock io) :
    io.wake.Normal ∧ io.rearm.Normal ∧ io.wake.ns ≤ (op.readings.getLastD s.now).ns := by
  obtain ⟨normal, order⟩ := monotone
  rcases polls with rfl | ⟨clock, rfl⟩
  · simp only [TimerOp.readings, List.pairwise_cons] at order
    exact ⟨normal _ (by simp [TimerOp.readings]), normal _ (by simp [TimerOp.readings]),
      order.2.2.1 io.rearm (List.mem_singleton_self _)⟩
  · simp only [TimerOp.readings, List.pairwise_cons] at order
    exact ⟨normal _ (by simp [TimerOp.readings]), normal _ (by simp [TimerOp.readings]),
      order.2.2.2.1 io.rearm (List.mem_singleton_self _)⟩

open TimerSystem

variable {s next : TimerSystem} {op : TimerOp} {ops : List TimerOp} {interval : Nat}

theorem TimerSystem.Inv.step (inv : s.Inv) (step : (timerSystem interval).step s op next) : next.Inv := by
  have effect := step_effect step
  obtain ⟨enabled, monotone, _⟩ := step
  have ticked := inv.tick monotone.later
  cases effect with
  | @start t =>
    obtain ⟨_, _, free⟩ := enabled
    -- A task that may be started is new or stopped, so it is in no wait.
    have outside : s.waits t = none := by
      by_contra inside
      obtain ⟨w, found⟩ := Option.ne_none_iff_exists'.mp inside
      rcases inv.active found with up | up <;> simp [up] at free
    refine ticked.move (fun {t' w} found => ?_) fun {t'} phase => ⟨(ticked.current phase).1, ?_⟩
    · have other : t' ≠ t := fun h => by simp [h, outside] at found
      exact .inl (Function.update_of_ne other ..)
    · by_cases here : t' = t
      · rw [here, Function.update_self]
      · rw [Function.update_of_ne here]
        exact (ticked.current phase).2
  | run => exact ticked.move (fun _ => .inl rfl) fun h => (nomatch h)
  | wakeup woken =>
    refine ticked.move (fun {t' _} _ => (woken t').imp_right And.right) fun phase => ?_
    exact ⟨(ticked.current phase).1, woken.running (ticked.current phase).2⟩
  | leave _ phase => exact ticked.leave phase _
  | noSleep => exact ticked
  | @sleep _ _ _ _ clock _ _ phase positive wait =>
    obtain ⟨_, fits, fresh⟩ := enabled
    exact ticked.sleep phase fresh (monotone.1 clock (List.mem_singleton_self _)) rfl positive fits wait
  | skip _ _ => exact ticked.move (fun _ => .inl rfl) fun h => (nomatch h)
  | poll polls woken served =>
    obtain ⟨wake, rearm, past⟩ := monotone.poll polls
    exact ticked.poll wake past rearm woken served
  | enter outside =>
    refine ticked.move (fun _ => .inl rfl) fun h => ?_
    cases h
    exact ⟨outside, enabled.1⟩
  | @awake _ clock _ _ _ _ _ inside returned =>
    exact ticked.awake enabled.1 inside (monotone.1 clock (List.mem_singleton_self _)) (le_refl _) returned
  | finish => exact ticked.move (fun _ => .inl rfl) fun h => (nomatch h)

/-- A task whose node is in the tree is not stopped, so waking it never aborts. -/
theorem TimerSystem.Inv.owners (inv : s.Inv) {n : Addr} (member : n ∈ s.timer.sort.nodes) :
    s.Active (s.timer.task n) := by
  obtain ⟨t, w, found, rfl⟩ := (inv.linked.members n).mp member
  rw [inv.linked.owner found]
  exact inv.active found

theorem TimerSystem.Inv.ioPoll_returns {timeout : Int} {io : TimerPoll} {now : Timespec} (inv : s.Inv)
    (events : ∀ t ∈ io.events, s.Active t) :
    ∃ next, TimerSystem.ioPoll interval { s with now := now } timeout io = some next := by
  obtain ⟨mid, report⟩ := TaskPool.events_return events
  have wakes : ∀ {timer : TaskTimer}, timer.sort = s.timer.sort → timer.task = s.timer.task →
      ∃ next after, timer.wake io.wake mid = some (next, after) := by
    intro timer sort task
    refine TaskTimer.wake_returns fun nonempty => (TaskPool.woken_of_events report).active ?_
    rw [TaskTimer.first, sort] at nonempty ⊢
    rw [task]
    exact inv.owners (TaskTimer.first_mem inv.linked.sorted nonempty)
  obtain ⟨timer, after, wake⟩ := @wakes (pollTimeout { s with now := now } timeout io.timeout).2
    (by unfold pollTimeout TaskTimer.getTimeout; split_ifs <;> rfl)
    (by unfold pollTimeout TaskTimer.getTimeout; split_ifs <;> rfl)
  exact ⟨_, by simp only [TimerSystem.ioPoll, report, wake, Option.bind_eq_bind, Option.bind_some]; rfl⟩

theorem TimerSystem.Inv.progress {fuel : Nat} (inv : s.Inv) (enabled : op.Enabled s)
    (bound : s.timer.sort.nodes.length < fuel) : ∃ next, op.apply interval fuel s = some next := by
  cases op with
  | start t => exact ⟨_, rfl⟩
  | run => exact ⟨_, rfl⟩
  | wakeup t =>
    have wake := TaskPool.wakeup_eq enabled.2
    exact ⟨_, by simp only [TimerOp.apply, TimerOp.act, wake]; rfl⟩
  | yield | wait | exit =>
    obtain ⟨t, phase⟩ := enabled
    exact ⟨_, by simp only [TimerOp.apply, TimerOp.act, TimerSystem.leave, phase]; rfl⟩
  | sleep milliseconds node clock =>
    obtain ⟨⟨t, phase⟩, _, fresh⟩ := enabled
    obtain ⟨timer, flag, wait⟩ := @TaskTimer.wait_returns s.timer node t clock fuel milliseconds
      inv.linked.sorted fresh bound
    simp only [TimerOp.apply, TimerOp.act, taskSleep, phase, wait]
    split_ifs <;> exact ⟨_, rfl⟩
  | pollMaybe clock io =>
    simp only [TimerOp.apply, TimerOp.act, ioPollMaybe]
    split_ifs
    · exact ⟨_, rfl⟩
    · exact inv.ioPoll_returns enabled.2.2.2
  | poll io => exact inv.ioPoll_returns enabled.2
  | switch t clock =>
    simp only [TimerOp.apply, TimerOp.act, TimerSystem.switch]
    split
    · exact ⟨_, rfl⟩
    · rename_i w inside
      obtain ⟨timer, pool, result, run⟩ := @TaskTimer.waitReturn_returns s.timer s.pool clock fuel w
        inv.linked.sorted ((inv.linked.members _).mpr ⟨t, w, inside, rfl⟩) (fun _ => inv.owners) bound
      exact ⟨_, by simp only [run]; rfl⟩
  | finish => exact ⟨_, rfl⟩

theorem timerSystem_inv (run : (timerSystem interval).Run ops s) : s.Inv :=
  run.invariant Inv (fun _ => Inv.init) fun _ _ _ inv step => inv.step step

/-! ## What a run has done -/

theorem TimerSystem.waits_step {t : Addr} {w : TimerWait} (step : (timerSystem interval).step s op next)
    (found : next.waits t = some w) : s.waits t = some w ∨ ∃ node clock, op = .sleep w.milliseconds node clock := by
  cases step_effect step with
  | start | run | wakeup _ | leave _ _ | noSleep | skip _ _ | poll _ _ _ | enter _ | finish => exact .inl found
  | sleep _ _ _ =>
    rcases begin_iff.mp found with ⟨_, rfl⟩ | ⟨_, found⟩
    · exact .inr ⟨_, _, rfl⟩
    · exact .inl found
  | awake _ _ => exact .inl (end_iff.mp found).2

theorem TimerSystem.waits_begun (run : (timerSystem interval).Run ops s) {t : Addr} {w : TimerWait}
    (found : s.waits t = some w) : ∃ node clock, .sleep w.milliseconds node clock ∈ ops := by
  induction run with
  | init initial =>
    obtain ⟨_, _, _, _, _, waits, _⟩ := initial
    simp [waits t] at found
  | step _ step ih =>
    rcases waits_step step found with before | ⟨node, clock, rfl⟩
    · obtain ⟨node, clock, member⟩ := ih before
      exact ⟨node, clock, List.mem_append_left _ member⟩
    · exact ⟨node, clock, List.mem_append_right _ (List.mem_singleton_self _)⟩

theorem TimerSystem.Inv.pool_step {t : Addr} (inv : s.Inv) (step : (timerSystem interval).step s op next)
    (new : s.pool t = none) : next.pool t = none ∨ op = .start t := by
  have kept : ∀ {pool : TaskPool}, s.pool.Woken pool → pool t = none := by
    intro pool woken
    rcases woken t with same | ⟨waiting, _⟩
    · exact same.trans new
    · simp [new] at waiting
  have other : ∀ {current}, s.phase = .task current → t ≠ current := fun phase same => by
    simp [same, (inv.current phase).2] at new
  cases step_effect step with
  | @start started =>
    by_cases here : t = started
    · exact .inr (by rw [here])
    · exact .inl ((Function.update_of_ne here ..).trans new)
  | run | noSleep | skip _ _ | enter _ | finish => exact .inl new
  | leave _ phase | sleep phase _ _ => exact .inl ((Function.update_of_ne (other phase) ..).trans new)
  | wakeup woken | poll _ woken _ => exact .inl (kept woken)
  | awake _ returned => exact .inl (kept (TaskTimer.waitReturn_woken returned))

def TimerOp.StartsIn (tasks : List Addr) : TimerOp → Prop
  | .start t => t ∈ tasks
  | _ => True

instance (tasks : List Addr) (op : TimerOp) : Decidable (op.StartsIn tasks) :=
  match op with
  | .start t => inferInstanceAs (Decidable (t ∈ tasks))
  | .run | .wakeup _ | .yield | .wait | .exit | .sleep _ _ _ | .pollMaybe _ _ | .poll _ | .switch _ _ | .finish =>
    isTrue trivial

theorem TimerSystem.pool_ne {state : TaskState} (run : (timerSystem interval).Run ops s) (tasks : List Addr)
    (starts : ∀ op ∈ ops, op.StartsIn tasks) (other : ∀ t ∈ tasks, s.pool t ≠ some state) (t : Addr) :
    s.pool t ≠ some state := by
  by_cases member : t ∈ tasks
  · exact other t member
  · have none : s.pool t = none := by
      -- It speaks of the last state only and would get into the induction.
      clear other
      induction run with
      | init initial => exact initial.1 t
      | step before step ih =>
        have new := ih fun op member => starts op (List.mem_append_left _ member)
        refine ((timerSystem_inv before).pool_step step new).resolve_right ?_
        rintro rfl
        exact member (starts _ (List.mem_append_right _ (List.mem_singleton_self _)))
    simp [none]

end HevTaskSystem
