import HevTaskSystem.Dns.Invariant

/-! The protocol between the tasks, the aide thread and the drain of a proxy.

Tasks that wait for the mutex know their own record only, so that a step of its holder
does not concern them; a drain finds no task at all.
-/

set_option autoImplicit false

namespace HevTaskSystem

open Foundation

namespace DnsSystem

variable {m t u : Addr} {s next : DnsSystem} {use other : DnsUse} {phase : DnsPhase} {io : DnsIo}

/-! ## The tasks -/

theorem Drain.of_idle (idle : s.drain = .idle)
    (quiet : (∀ t use, s.uses t = some use → use.phase ≠ .read) → s.echo.flight = []) : s.Drain := by
  refine ⟨fun busy => absurd idle busy, fun _ => quiet, fun asked => (nomatch idle.symm.trans asked), fun stopped => ?_⟩
  rcases stopped with done | ⟨asked, -⟩
  · exact nomatch idle.symm.trans done
  · exact nomatch idle.symm.trans asked

theorem Inv.undrained (inv : s.Inv m) (here : s.uses t = some use) : s.drain = .idle := by
  by_contra busy
  exact nomatch ((inv.drain.alone busy).1 t).symm.trans here

theorem Inv.quiet (inv : s.Inv m) (here : s.uses t = some use) (holds : use.phase.holds = true)
    (other : use.phase ≠ .read) : s.echo.flight = [] := by
  refine inv.drain.quiet (by rw [inv.undrained here]; decide) fun u found there reads => ?_
  cases inv.callers.single here there holds (by rw [reads]; rfl)
  cases here.symm.trans there
  exact other reads

theorem Inv.turn (inv : s.Inv m) (here : s.uses t = some use) (holds : use.phase.holds = true)
    (callers : next.Callers m) (uses : next.uses = Function.update s.uses t (some { use with phase := phase }))
    (stage : next.Stage { use with phase := phase }) (handler : next.Handler) (drain : next.drain = s.drain)
    (quiet : phase ≠ .read → next.echo.flight = []) (executed : next.executed = s.executed)
    (records : next.records = s.records) : next.Inv m := by
  refine ⟨callers, fun u other found => ?_, handler, .of_idle (drain.trans (inv.undrained here)) fun none => ?_⟩
  · rw [uses] at found
    by_cases same : u = t
    · rw [same, Function.update_self] at found
      cases found
      exact stage
    · rw [Function.update_of_ne same] at found
      refine (inv.stages u other found).outside ?_ (congrFun executed _) (congrFun records _)
      cases also : other.phase.holds with
      | false => rfl
      | true => exact absurd (inv.callers.single found here also holds) same
  · exact quiet (none t _ (by rw [uses, Function.update_self]))

theorem Callers.syncs (callers : s.Callers m) {sync : SyncSystem} (inv : sync.Inv) (calls : sync.calls = s.sync.calls)
    (held : sync.held m = s.sync.held m) (active : ∀ t use, s.uses t = some use → sync.Active t) :
    Callers m { s with sync := sync } :=
  ⟨inv, active, fun t => (congrFun calls t).trans (callers.calls t), fun t => (congrFun held t).trans (callers.held t),
    callers.sched, callers.record, callers.apart⟩

theorem Inv.syncs (inv : s.Inv m) {sync : SyncSystem} (callers : Callers m { s with sync := sync }) :
    Inv m { s with sync := sync } :=
  ⟨callers, inv.stages, ⟨inv.handler.fetched, inv.handler.exec, inv.handler.resolve⟩,
    ⟨inv.drain.alone, inv.drain.quiet, inv.drain.asked, inv.drain.stopped⟩⟩

theorem Inv.sleep (inv : s.Inv m) (running : s.sync.pool t = some .running) (idle : s.sync.calls t = .idle) :
    Inv m { s with sync := s.sync.sleep t } := by
  refine inv.syncs (inv.callers.syncs (inv.callers.sync.sleep running (.of_idle idle)) rfl rfl fun u use here => ?_)
  exact SyncSystem.active_update (.inr rfl) (inv.callers.active u use here)

theorem Inv.event (inv : s.Inv m) : ∃ next, s.event = some next ∧ next.Inv m := by
  by_cases none : s.schedTask = 0
  · have skips : s.sync.pool.wakeupField s.schedTask = some s.sync.pool := by simp [TaskPool.wakeupField, none]
    exact ⟨s, by rw [DnsSystem.event, skips]; rfl, inv⟩
  · obtain ⟨use, here, -⟩ := inv.callers.sched none
    have active := inv.callers.active _ use here
    refine ⟨{ s with sync := { s.sync with pool := Function.update s.sync.pool s.schedTask (some .running) } }, ?_, ?_⟩
    · simp [DnsSystem.event, TaskPool.wakeupField, none, TaskPool.wakeup_eq active]
    · refine inv.syncs (inv.callers.syncs (inv.callers.sync.awaken active) rfl rfl fun u use here => ?_)
      exact SyncSystem.active_update (.inl rfl) (inv.callers.active u use here)

theorem Callers.idle (callers : s.Callers m) (here : s.uses t = some use) (after : use.phase ≠ .lock) :
    s.sync.calls t = .idle := by
  rw [callers.calls, here]
  obtain ⟨record, query, phase⟩ := use
  cases phase with
  | lock => exact absurd rfl after
  | setCall | write | read | unlock | finish => rfl

theorem Callers.blocked (callers : s.Callers m) (here : s.uses t = some use) (at' : use.phase = .lock) :
    s.sync.calls t = .lock m .user := by
  rw [callers.calls, here]
  obtain ⟨record, query, phase⟩ := use
  cases at'
  rfl

theorem Callers.holding (callers : s.Callers m) (here : s.uses t = some use) :
    s.sync.held m t = use.phase.holds := by
  rw [callers.held, here]
  rfl

theorem Callers.unscheduled (callers : s.Callers m) (here : s.uses t = some use) (free : use.phase.holds = false) :
    s.schedTask ≠ t := by
  rintro rfl
  have nonnull := callers.sync.tasks.nonnull (callers.active _ use here)
  obtain ⟨other, there, holds⟩ := callers.sched nonnull
  cases here.symm.trans there
  exact nomatch free.symm.trans holds

theorem Callers.goes (callers : s.Callers m) (here : s.uses t = some use) (sync : next.sync = s.sync)
    (uses : next.uses = Function.update s.uses t (some { use with phase := phase })) (before : use.phase.holds = true)
    (after : phase.holds = true) (sched : next.schedTask = s.schedTask ∨ next.schedTask = t)
    (records : next.records = s.records) : next.Callers m := by
  have other : use.phase ≠ .lock := by
    intro at'
    rw [at'] at before
    exact nomatch before
  refine callers.update here (by rw [sync]; exact callers.sync.touches_self) uses ?_ ?_
    (.inr (sched.imp (fun kept => ⟨kept, fun _ => after⟩) fun mine => ⟨mine, after⟩)) records
  · rw [sync, callers.idle here other]
    cases phase with
    | lock => exact nomatch after
    | setCall | write | read | unlock | finish => rfl
  · rw [sync, callers.holding here, before, after]

theorem Handler.of_free (free : s.handler.sync = none) (fetched : s.handler = .fetched → s.requests ≠ []) :
    s.Handler := by
  refine ⟨fetched, fun sync exec => ?_, fun sync a resolve => ?_⟩
  · rw [exec] at free
    exact nomatch free
  · rw [resolve] at free
    exact nomatch free

theorem Inv.setCall (inv : s.Inv m) (here : s.uses t = some use) (at' : use.phase = .setCall) :
    Inv m (setPhase { s with call := use.record, schedTask := t } t use .write) := by
  have holds : use.phase.holds = true := by rw [at']; rfl
  have empty := inv.quiet here holds (by rw [at']; decide)
  have stage := inv.stages t use here
  rw [Stage, at'] at stage
  refine inv.turn here holds (inv.callers.goes here rfl rfl holds rfl (.inr rfl) rfl) rfl ?_
    (.of_free (Echo.of_flight_nil empty).2.1 inv.handler.fetched) rfl (fun _ => empty) rfl rfl
  exact ⟨stage, rfl⟩

theorem Inv.written (inv : s.Inv m) (here : s.uses t = some use) (at' : use.phase = .write) :
    Inv m (setPhase { s with requests := s.requests ++ [.s], recorded := true } t use .read) := by
  have holds : use.phase.holds = true := by rw [at']; rfl
  have empty := inv.quiet here holds (by rw [at']; decide)
  obtain ⟨-, free, unanswered⟩ := Echo.of_flight_nil empty
  have stage := inv.stages t use here
  rw [Stage, at'] at stage
  obtain ⟨fresh, current⟩ := stage
  refine inv.turn here holds (inv.callers.goes here rfl rfl holds rfl (.inl rfl) rfl) rfl ?_
    (.of_free free fun _ => by simp [setPhase]) rfl (fun other => absurd rfl other) rfl rfl
  refine ⟨current, (Echo.flight_send (e := s.echo) DnsSync.s).trans (by rw [empty]; rfl), fun served => ?_, fun _ => fresh⟩
  rcases served with some | ⟨sync, writes⟩
  · exact absurd unanswered some
  · have writes : s.handler = .write sync := writes
    simp [echo, writes, HandlerPhase.sync] at free

theorem Inv.received (inv : s.Inv m) (here : s.uses t = some use) (at' : use.phase = .read) {sync : DnsSync}
    {rest : List DnsSync} (first : s.responses = sync :: rest) :
    Inv m (setPhase { s with responses := rest } t use .unlock) := by
  have holds : use.phase.holds = true := by rw [at']; rfl
  have stage := inv.stages t use here
  rw [Stage, at'] at stage
  obtain ⟨-, one, after, -⟩ := stage
  have answered := after (.inl (by simp [first]))
  have empty : Echo.flight { s.echo with responses := rest } = [] := by
    have split := one.symm.trans (Echo.flight_collect first)
    exact (List.cons.inj split).2.symm
  refine inv.turn here holds (inv.callers.goes here rfl rfl holds rfl (.inl rfl) rfl) rfl ?_
    ⟨inv.handler.fetched, inv.handler.exec, inv.handler.resolve⟩ rfl (fun _ => empty) rfl rfl
  exact answered

theorem Inv.unlocked (inv : s.Inv m) (here : s.uses t = some use) (at' : use.phase = .unlock) :
    ∃ sync, s.sync.mutexUnlock t m = some sync ∧
      Inv m (setPhase { s with sync := sync, schedTask := 0 } t use .finish) := by
  have holds : use.phase.holds = true := by rw [at']; rfl
  have empty := inv.quiet here holds (by rw [at']; decide)
  have stage := inv.stages t use here
  rw [Stage, at'] at stage
  obtain ⟨sync, result, touches, idle, free⟩ := inv.callers.sync.unlock_user
    (inv.callers.idle here (by rw [at']; decide)) ((inv.callers.holding here).trans holds)
  refine ⟨sync, result, inv.turn here holds (inv.callers.update here touches rfl idle free (.inl rfl) rfl) rfl ?_
    ⟨inv.handler.fetched, inv.handler.exec, inv.handler.resolve⟩ rfl (fun _ => empty) rfl rfl⟩
  exact stage

theorem Inv.enters (inv : s.Inv m) {record : Addr} {query : DnsQuery} (callers : next.Callers m)
    (uses : next.uses = Function.update s.uses t (some ⟨record, query, phase⟩)) (early : phase = .lock ∨ phase = .setCall)
    (before : ∀ use, s.uses t = some use → use.phase ≠ .read) (fresh : next.executed record = [])
    (others : ∀ u use, u ≠ t → s.uses u = some use →
      next.executed use.record = s.executed use.record ∧ next.records use.record = s.records use.record)
    (call : next.call = s.call) (requests : next.requests = s.requests) (responses : next.responses = s.responses)
    (handler : next.handler = s.handler) (drain : next.drain = .idle) (idle : s.drain = .idle) : next.Inv m := by
  have echo : next.echo = s.echo := by rw [DnsSystem.echo, requests, responses, handler, DnsSystem.echo]
  refine ⟨callers, fun u other found => ?_, ?_, .of_idle drain fun none => ?_⟩
  · rw [uses] at found
    by_cases same : u = t
    · rw [same, Function.update_self] at found
      cases found
      rcases early with rfl | rfl
      · exact fresh
      · exact fresh
    · rw [Function.update_of_ne same] at found
      obtain ⟨executed, records⟩ := others u other same found
      refine (inv.stages u other found).congr call (by rw [echo]) (fun _ => ?_) executed records
      rw [Served, Served, responses, handler]
  · refine ⟨?_, ?_, ?_⟩
    · rw [handler, requests]
      exact inv.handler.fetched
    · rw [handler, call]
      exact inv.handler.exec
    · rw [handler, call]
      exact inv.handler.resolve
  · rw [echo]
    refine inv.drain.quiet (by rw [idle]; decide) fun u other found => ?_
    by_cases same : u = t
    · exact before other (same ▸ found)
    · exact none u other (by rw [uses, Function.update_of_ne same, found])

theorem Inv.lock (inv : s.Inv m) (here : s.uses t = some use) (at' : use.phase = .lock)
    (running : s.sync.pool t = some .running) :
    ∃ sync reply, s.sync.resume t 0 = some (sync, reply) ∧ Inv m (locked { s with sync := sync } t use reply) := by
  have blocked := inv.callers.blocked here at'
  have unheld : s.sync.held m t = false := (inv.callers.holding here).trans (by rw [at']; rfl)
  have stage := inv.stages t use here
  rw [Stage, at'] at stage
  have idle := inv.undrained here
  have before (other : DnsUse) (there : s.uses t = some other) : other.phase ≠ .read := by
    cases here.symm.trans there
    rw [at']
    decide
  obtain ⟨sync, reply, result, touches, outcome⟩ := inv.callers.sync.resume_user running blocked
  refine ⟨sync, reply, result, ?_⟩
  have aside : s.schedTask ≠ t := inv.callers.unscheduled here (by rw [at']; rfl)
  have sched (phase : DnsPhase) : s.schedTask = 0 ∨ (s.schedTask = s.schedTask ∧ (s.schedTask = t → phase.holds = true)) ∨
      (s.schedTask = t ∧ phase.holds = true) := .inr (.inl ⟨rfl, fun same => absurd same aside⟩)
  rcases outcome with ⟨rfl, waits, kept⟩ | ⟨done, free, held⟩
  · refine inv.enters (inv.callers.update here touches rfl waits (kept.trans unheld) (sched _) rfl) rfl (.inl rfl)
      before stage (fun _ _ _ _ => ⟨rfl, rfl⟩) rfl rfl rfl rfl idle idle
  · rw [locked, if_neg done]
    refine inv.enters (inv.callers.update here touches rfl free held (sched _) rfl) rfl (.inr rfl)
      before stage (fun _ _ _ _ => ⟨rfl, rfl⟩) rfl rfl rfl rfl idle idle

theorem Callers.used (callers : s.Callers m) {a : Addr} (here : s.uses t = some use) (free : s.records a = none) :
    use.record ≠ a := by
  rintro rfl
  obtain ⟨-, call, found, -⟩ := callers.record t use here
  exact nomatch free.symm.trans found

theorem Callers.joins (callers : s.Callers m) {record : Addr} {query : DnsQuery} (outside : s.uses t = none)
    (touches : SyncSystem.Touches m t s.sync next.sync)
    (uses : next.uses = Function.update s.uses t (some ⟨record, query, phase⟩))
    (calls : next.sync.calls t = syncCall m (some ⟨record, query, phase⟩)) (held : next.sync.held m t = phase.holds)
    (active : next.sync.Active t) (sched : next.schedTask = s.schedTask) (nonnull : record ≠ 0)
    (free : s.records record = none)
    (records : next.records = Function.update s.records record (some ⟨query, -1, none⟩)) : next.Callers m := by
  have apart {u : Addr} {other : DnsUse} (there : s.uses u = some other) := callers.used there free
  obtain ⟨calls, held⟩ := callers.agree (fun u other => ⟨touches.calls u other, touches.held u other⟩) calls held
  rw [← uses] at calls held
  refine ⟨touches.inv, fun u other there => ?_, calls, held, fun some => ?_, fun u other there => ?_,
    fun u v first second there there' same => ?_⟩
  · rw [uses] at there
    by_cases same : u = t
    · exact same ▸ active
    · rw [Function.update_of_ne same] at there
      exact touches.active u (callers.active u other there)
  · rw [sched] at some ⊢
    obtain ⟨use, there, holds⟩ := callers.sched some
    refine ⟨use, ?_, holds⟩
    rw [uses, Function.update_of_ne, there]
    intro same
    rw [same, outside] at there
    exact nomatch there
  · rw [uses] at there
    rw [records]
    by_cases same : u = t
    · rw [same, Function.update_self] at there
      cases there
      exact ⟨nonnull, _, Function.update_self _ _ _, rfl⟩
    · rw [Function.update_of_ne same] at there
      rw [Function.update_of_ne (apart there)]
      exact callers.record u other there
  · rw [uses] at there there'
    by_cases first' : u = t <;> by_cases second' : v = t
    · exact first'.trans second'.symm
    · rw [first', Function.update_self] at there
      rw [Function.update_of_ne second'] at there'
      cases there
      exact absurd same.symm (apart there')
    · rw [second', Function.update_self] at there'
      rw [Function.update_of_ne first'] at there
      cases there'
      exact absurd same (apart there)
    · rw [Function.update_of_ne first'] at there
      rw [Function.update_of_ne second'] at there'
      exact callers.apart u v first second there there' same

theorem Inv.start (inv : s.Inv m) {record : Addr} (query : DnsQuery) (running : s.sync.pool t = some .running)
    (outside : s.uses t = none) (idle : s.drain = .idle) (nonnull : record ≠ 0) (free : s.records record = none) :
    ∃ next, s.start m t record query = some next ∧ next.Inv m := by
  have unheld : s.sync.held m t = false := by
    rw [inv.callers.held, outside]
    rfl
  have before (use : DnsUse) (here : s.uses t = some use) : use.phase ≠ .read := nomatch outside.symm.trans here
  obtain ⟨sync, reply, result, touches, outcome⟩ := inv.callers.sync.lock_user (m := m) running (by
    rw [inv.callers.calls, outside]
    rfl)
  have active := touches.active t (.inl running)
  have starts : s.start m t record query = some (locked { s with
      sync := sync
      records := Function.update s.records record (some ⟨query, -1, none⟩)
      executed := Function.update s.executed record [] } t ⟨record, query, .lock⟩ reply) := by
    rw [DnsSystem.start, result]
    rfl
  refine ⟨_, starts, ?_⟩
  have others (u : Addr) (use : DnsUse) (_ : u ≠ t) (there : s.uses u = some use) :
      Function.update s.executed record [] use.record = s.executed use.record ∧
        Function.update s.records record (some ⟨query, -1, none⟩) use.record = s.records use.record := by
    have apart := inv.callers.used there free
    exact ⟨Function.update_of_ne apart _ _, Function.update_of_ne apart _ _⟩
  rcases outcome with ⟨rfl, waits, kept⟩ | ⟨done, idle', held⟩
  · exact inv.enters (inv.callers.joins outside touches rfl waits (kept.trans unheld) active rfl nonnull free rfl) rfl
      (.inl rfl) before (Function.update_self _ _ _) others rfl rfl rfl rfl idle idle
  · rw [locked, if_neg done]
    exact inv.enters (inv.callers.joins outside touches rfl idle' held active rfl nonnull free rfl) rfl
      (.inr rfl) before (Function.update_self _ _ _) others rfl rfl rfl rfl idle idle

theorem Callers.left (callers : s.Callers m) (here : s.uses t = some use)
    (there : Function.update s.uses t none u = some other) : u ≠ t ∧ s.uses u = some other ∧ other.record ≠ use.record := by
  by_cases same : u = t
  · rw [same, Function.update_self] at there
    exact nomatch there
  · rw [Function.update_of_ne same] at there
    exact ⟨same, there, fun equal => same (callers.apart u t other use there here equal)⟩

theorem Callers.leaves (callers : s.Callers m) (here : s.uses t = some use) (at' : use.phase = .finish) :
    Callers m { s with
      records := Function.update s.records use.record none
      uses := Function.update s.uses t none } := by
  have idle : s.sync.calls t = syncCall m none := callers.idle here (by rw [at']; decide)
  have free : s.sync.held m t = holds none := by
    rw [callers.holding here, at']
    rfl
  obtain ⟨calls, held⟩ := callers.agree (fun _ _ => ⟨rfl, rfl⟩) idle free
  refine ⟨callers.sync, fun u other there => ?_, calls, held, fun some => ?_, fun u other there => ?_,
    fun u v first second there there' same => ?_⟩
  · exact callers.active u other (callers.left here there).2.1
  · obtain ⟨other, there, holds⟩ := callers.sched some
    have apart := callers.unscheduled here (by rw [at']; rfl)
    exact ⟨other, (Function.update_of_ne apart _ _).trans there, holds⟩
  · obtain ⟨-, before, apart⟩ := callers.left here there
    obtain ⟨nonnull, call, found, query⟩ := callers.record u other before
    exact ⟨nonnull, call, (Function.update_of_ne apart _ _).trans found, query⟩
  · exact callers.apart u v first second (callers.left here there).2.1 (callers.left here there').2.1 same

theorem Inv.finish (inv : s.Inv m) (here : s.uses t = some use) (at' : use.phase = .finish) :
    ∃ libc result, s.executed use.record = [(use.query, libc)] ∧ DnsResult.Answers libc result use.query ∧
      s.records use.record = some ⟨use.query, result.ret, some result.err⟩ ∧ Inv m { s with
        records := Function.update s.records use.record none
        uses := Function.update s.uses t none } := by
  have stage := inv.stages t use here
  rw [Stage, at'] at stage
  obtain ⟨libc, result, once, answers, record⟩ := stage
  have idle := inv.undrained here
  refine ⟨libc, result, once, answers, record, inv.callers.leaves here at', fun u other there => ?_,
    ⟨inv.handler.fetched, inv.handler.exec, inv.handler.resolve⟩, .of_idle idle fun none => ?_⟩
  · obtain ⟨-, before, apart⟩ := inv.callers.left here there
    exact (inv.stages u other before).congr rfl rfl (fun _ => Iff.rfl) rfl (Function.update_of_ne apart _ _)
  · refine inv.drain.quiet (by rw [idle]; decide) fun u other found => ?_
    by_cases same : u = t
    · rw [same] at found
      cases here.symm.trans found
      rw [at']
      decide
    · exact none u other ((Function.update_of_ne same _ _).trans found)

/-- Every step of a task finds its record, and a call that returns has the result of its only execution. -/
theorem Inv.advance (inv : s.Inv m) (here : s.uses t = some use) (running : s.sync.pool t = some .running)
    (readable : use.phase = .read → io = .done → s.responses ≠ []) :
    ∃ next reply, s.advance m t use io = some (next, reply) ∧ next.Inv m ∧
      ∀ result, reply = some result →
        ∃ libc, s.executed use.record = [(use.query, libc)] ∧ result.Answers libc use.query := by
  cases at' : use.phase with
  | lock =>
    obtain ⟨sync, reply, result, inv'⟩ := inv.lock here at' running
    exact ⟨_, none, by simp [DnsSystem.advance, at', result], inv', nofun⟩
  | setCall => exact ⟨_, none, by simp [DnsSystem.advance, at'], inv.setCall here at', nofun⟩
  | write =>
    have idle := inv.callers.idle here (by rw [at']; decide)
    cases io with
    | done => exact ⟨_, none, by simp [DnsSystem.advance, at'], inv.written here at', nofun⟩
    | eintr => exact ⟨s, none, by simp [DnsSystem.advance, at'], inv, nofun⟩
    | eagain => exact ⟨_, none, by simp [DnsSystem.advance, at'], inv.sleep running idle, nofun⟩
  | read =>
    have idle := inv.callers.idle here (by rw [at']; decide)
    cases io with
    | done =>
      cases first : s.responses with
      | nil => exact absurd first (readable at' rfl)
      | cons sync rest =>
        exact ⟨_, none, by simp [DnsSystem.advance, at', first], inv.received here at' first, nofun⟩
    | eintr => exact ⟨s, none, by simp [DnsSystem.advance, at'], inv, nofun⟩
    | eagain => exact ⟨_, none, by simp [DnsSystem.advance, at'], inv.sleep running idle, nofun⟩
  | unlock =>
    obtain ⟨sync, result, inv'⟩ := inv.unlocked here at'
    exact ⟨_, none, by simp [DnsSystem.advance, at', result], inv', nofun⟩
  | finish =>
    obtain ⟨libc, result, once, answers, record, inv'⟩ := inv.finish here at'
    refine ⟨_, some result, by simp [DnsSystem.advance, at', record], inv', ?_⟩
    rintro _ ⟨⟩
    exact ⟨libc, once, answers⟩

theorem Inv.outside (inv : s.Inv m) {op : SyncOp} (outside : DnsOp.Outside s op) (ready : op.Ready s.sync) :
    ∃ sync reply, op.apply 0 s.sync = some (sync, reply) ∧ Inv m { s with sync := sync } := by
  have syncs {pool : TaskPool} {reply : TaskReply} (result : op.apply 0 s.sync = some ({ s.sync with pool }, reply))
      (active : ∀ t use, s.uses t = some use → pool t = some .running ∨ pool t = some .waiting) :
      ∃ sync reply, op.apply 0 s.sync = some (sync, reply) ∧ Inv m { s with sync := sync } :=
    ⟨_, _, result, inv.syncs (inv.callers.syncs (SyncOp.outcome inv.callers.sync ready result).1 rfl rfl active)⟩
  cases op with
  | start t =>
    exact syncs rfl fun u use here => SyncSystem.active_update (.inl rfl) (inv.callers.active u use here)
  | wait t =>
    exact syncs rfl fun u use here => SyncSystem.active_update (.inr rfl) (inv.callers.active u use here)
  | exit t =>
    refine syncs rfl fun u use here => ?_
    have apart : u ≠ t := by
      rintro rfl
      exact nomatch (show s.uses u = none from outside).symm.trans here
    rw [Function.update_of_ne apart]
    exact inv.callers.active u use here
  | wake t =>
    have woken := TaskPool.wakeup_eq (show s.sync.Active t from .inr ready)
    refine syncs (by rw [SyncOp.apply, woken]; rfl) fun u use here => ?_
    exact SyncSystem.active_update (.inl rfl) (inv.callers.active u use here)
  | resume | lock | trylock | unlock | condWait | condTimedwait | signal | broadcast => exact False.elim outside

/-! ## The drain -/

theorem Inv.deserted (inv : s.Inv m) (none : ∀ t, s.uses t = none) (sync : next.sync = s.sync)
    (uses : next.uses = s.uses) (sched : next.schedTask = s.schedTask) (records : next.records = s.records)
    (handler : next.Handler) (drain : next.Drain) : next.Inv m := by
  refine ⟨inv.callers.keep sync uses sched fun a call there => ⟨call, ?_, rfl⟩, fun t use here => ?_, handler, drain⟩
  · rw [records, there]
  · rw [uses, none] at here
    exact nomatch here

theorem Inv.drains (inv : s.Inv m) (alone : s.drain = .idle → ∀ t, s.uses t = none) (unfinished : s.drain ≠ .done)
    (readable : s.drain = .read → io = .done → s.responses ≠ []) :
    ∃ next, s.drainNext io = some next ∧ next.Inv m := by
  cases at' : s.drain with
  | done => exact absurd at' unfinished
  | idle =>
    have none := alone at'
    have empty := inv.empty none (by rw [at']; decide)
    refine ⟨{ s with call := 0, drain := .write }, by simp [drainNext, at'], inv.deserted none rfl rfl rfl rfl
      (.of_free (Echo.of_flight_nil empty).2.1 inv.handler.fetched) ⟨fun _ => ⟨none, rfl⟩, fun _ _ => empty, nofun, ?_⟩⟩
    rintro (⟨⟨⟩⟩ | ⟨⟨⟩, -⟩)
  | write =>
    obtain ⟨none, null⟩ := inv.drain.alone (by rw [at']; decide)
    have empty := inv.empty none (by rw [at']; decide)
    obtain ⟨-, free, unanswered⟩ := Echo.of_flight_nil empty
    cases io with
    | done =>
      refine ⟨{ s with requests := s.requests ++ [.d], recorded := true, drain := .read }, by simp [drainNext, at'],
        inv.deserted none rfl rfl rfl rfl (.of_free free fun _ => by simp)
          ⟨fun _ => ⟨none, null⟩, fun other => absurd rfl other, fun _ => ?_, ?_⟩⟩
      · exact (Echo.flight_send (e := s.echo) DnsSync.d).trans (by rw [empty]; rfl)
      · rintro (⟨⟨⟩⟩ | ⟨-, answered⟩)
        exact absurd unanswered answered
    | eintr | eagain => exact ⟨s, by simp [drainNext, at'], inv⟩
  | read =>
    obtain ⟨none, null⟩ := inv.drain.alone (by rw [at']; decide)
    cases io with
    | done =>
      cases first : s.responses with
      | nil => exact absurd first (readable at' rfl)
      | cons sync rest =>
        have idle := inv.drain.stopped (.inr ⟨at', by simp [first]⟩)
        obtain ⟨rfl, empty⟩ := List.cons.inj ((inv.drain.asked at').symm.trans (Echo.flight_collect first))
        refine ⟨{ s with responses := rest, drain := .done }, by simp [drainNext, at', first],
          inv.deserted none rfl rfl rfl rfl ⟨inv.handler.fetched, inv.handler.exec, inv.handler.resolve⟩
            ⟨fun _ => ⟨none, null⟩, fun _ _ => empty.symm, nofun, fun _ => idle⟩⟩
    | eintr | eagain => exact ⟨s, by simp [drainNext, at'], inv⟩

/-! ## Runs -/

theorem Inv.step (inv : s.Inv m) {op : DnsOp} (readable : op.Readable s) (ready : op.Ready s) :
    ∃ next reply, op.apply m s = some (next, reply) ∧ next.Inv m := by
  cases op with
  | task op =>
    obtain ⟨sync, reply, result, inv'⟩ := inv.outside ready.1 ready.2
    exact ⟨_, none, by simp [DnsOp.apply, result], inv'⟩
  | start t record query =>
    obtain ⟨⟨running, -⟩, outside, idle, nonnull, free⟩ := ready
    obtain ⟨next, result, inv'⟩ := inv.start query running outside idle nonnull free
    exact ⟨next, none, by simp [DnsOp.apply, result], inv'⟩
  | advance t io =>
    obtain ⟨running, use, here, readable⟩ := ready
    obtain ⟨next, reply, result, inv', -⟩ := inv.advance here running readable
    exact ⟨next, reply, by simp [DnsOp.apply, here, result], inv'⟩
  | event =>
    obtain ⟨next, result, inv'⟩ := inv.event
    exact ⟨next, none, by simp [DnsOp.apply, result], inv'⟩
  | fetch => exact ⟨_, none, rfl, inv.fetch ready.1 readable⟩
  | serve io libc =>
    obtain ⟨next, result, inv'⟩ := inv.serve libc ready.1 ready.2
    exact ⟨next, none, by simp [DnsOp.apply, result], inv'⟩
  | drain io =>
    obtain ⟨alone, unfinished, readable⟩ := ready
    obtain ⟨next, result, inv'⟩ := inv.drains alone unfinished readable
    exact ⟨next, none, by simp [DnsOp.apply, result], inv'⟩

theorem Inv.initial (start : (readableSystem m).init s) : s.Inv m := by
  obtain ⟨sync, call, sched, requests, responses, -, records, uses, handler, drain⟩ := start
  have kept := syncSystem_inv (.init sync)
  obtain ⟨-, calls, -, -, -, held⟩ := sync
  have outside (t : Addr) (use : DnsUse) : s.uses t ≠ some use := by
    rw [uses]
    nofun
  refine ⟨⟨kept, fun t use here => absurd here (outside t use), fun t => ?_, fun t => ?_, fun some => absurd sched some,
    fun t use here => absurd here (outside t use), fun t u use other here => absurd here (outside t use)⟩,
    fun t use here => absurd here (outside t use), .of_free (by rw [handler]; rfl) ?_, .of_idle drain fun _ => ?_⟩
  · rw [calls, uses]
    rfl
  · rw [held, uses]
    rfl
  · rw [handler]
    nofun
  · rw [echo, requests, responses, handler]
    rfl

end DnsSystem

theorem readableSystem_inv {m : Addr} {ops : List DnsOp} {s : DnsSystem} (run : (readableSystem m).Run ops s) :
    s.Inv m := by
  refine run.invariant (DnsSystem.Inv m) (fun s start => .initial start) fun s op next inv step => ?_
  obtain ⟨readable, ready, reply, result⟩ := step
  obtain ⟨next', reply', result', inv'⟩ := inv.step readable ready
  cases result.symm.trans result'
  exact inv'

def DnsOp.Serves : DnsOp → Prop
  | .fetch | .serve .. => True
  | .task _ | .start .. | .advance .. | .event | .drain _ => False

namespace DnsSystem

variable {m : Addr} {s next : DnsSystem}

theorem Inv.ended (inv : s.Inv m) (done : s.drain = .done) : s.requests = [] ∧ s.responses = [] ∧ s.handler = .idle := by
  have empty := inv.empty (inv.drain.alone (by rw [done]; decide)).1 (by rw [done]; decide)
  obtain ⟨requests, -, responses⟩ := Echo.of_flight_nil empty
  exact ⟨requests, responses, inv.drain.stopped (.inl done)⟩

theorem Inv.after (inv : s.Inv m) (done : s.drain = .done) {op : DnsOp} (readable : op.Readable s) (ready : op.Ready s)
    {reply : Option DnsResult} (result : op.apply m s = some (next, reply)) : next.drain = .done ∧ ¬ op.Serves := by
  obtain ⟨none, -⟩ := inv.drain.alone (by rw [done]; decide)
  obtain ⟨empty, -, idle⟩ := inv.ended done
  cases op with
  | task op =>
    obtain ⟨sync, _, result', -⟩ := inv.outside ready.1 ready.2
    simp only [DnsOp.apply, result', Option.bind_eq_bind, Option.bind_some, Option.pure_def, Option.some.injEq,
      Prod.mk.injEq] at result
    obtain ⟨rfl, -⟩ := result
    exact ⟨done, nofun⟩
  | start t record query => exact nomatch ready.2.2.1.symm.trans done
  | advance t io =>
    obtain ⟨-, use, here, -⟩ := ready
    exact nomatch (none t).symm.trans here
  | event =>
    simp only [DnsOp.apply, DnsSystem.event, Option.bind_eq_bind, Option.bind_eq_some_iff, Option.pure_def,
      Option.some.injEq, Prod.mk.injEq] at result
    obtain ⟨_, ⟨pool, -, rfl⟩, rfl, -⟩ := result
    exact ⟨done, nofun⟩
  | fetch => exact absurd empty readable
  | serve io libc => exact absurd idle ready.1
  | drain io => exact absurd done ready.2.1

theorem Inv.never_serves (inv : s.Inv m) (done : s.drain = .done) {more : List DnsOp} {later : DnsSystem}
    (run : ((readableSystem m).startAt s).Run more later) : ∀ op ∈ more, ¬ op.Serves := by
  have kept : (later.Inv m ∧ later.drain = .done) ∧ ∀ op ∈ more, ¬ op.Serves := by
    induction run with
    | init same =>
      subst same
      exact ⟨⟨inv, done⟩, nofun⟩
    | step run step ih =>
      obtain ⟨⟨inv', done'⟩, before⟩ := ih
      obtain ⟨readable, ready, reply, result⟩ := step
      obtain ⟨still, quiet⟩ := inv'.after done' readable ready result
      obtain ⟨next, reply', result', inv''⟩ := inv'.step readable ready
      cases result.symm.trans result'
      refine ⟨⟨inv'', still⟩, fun op member => ?_⟩
      rcases List.mem_append.mp member with old | last
      · exact before op old
      · exact List.mem_singleton.mp last ▸ quiet
  exact kept.2

theorem Inv.single (inv : s.Inv m) : s.requests.count .s + s.responses.count .s ≤ 1 := by
  have bound := Echo.count_le s.echo DnsSync.s
  have one : s.echo.flight.count .s ≤ 1 := by
    by_cases asked : s.drain = .read
    · rw [inv.drain.asked asked]
      decide
    · by_cases reads : ∃ t use, s.uses t = some use ∧ use.phase = .read
      · obtain ⟨t, use, here, at'⟩ := reads
        have stage := inv.stages t use here
        rw [Stage, at'] at stage
        rw [stage.2.1]
        decide
      · rw [inv.drain.quiet asked fun t use here at' => reads ⟨t, use, here, at'⟩]
        decide
  exact Nat.le_trans bound one

theorem Inv.executes (inv : s.Inv m) {sync : DnsSync} {a : Addr}
    (executes : (s.handler = .exec sync ∧ s.call = a) ∨ s.handler = .resolve sync a) :
    ∃ t use, s.uses t = some use ∧ use.record = a ∧ use.phase = .read := by
  have current : s.call = a ∧ s.call ≠ 0 ∧ s.handler.sync = some sync := by
    rcases executes with ⟨exec, rfl⟩ | resolve
    · exact ⟨rfl, inv.handler.exec sync exec, by rw [exec]; rfl⟩
    · obtain ⟨rfl, nonnull⟩ := inv.handler.resolve sync a resolve
      exact ⟨rfl, nonnull, by rw [resolve]; rfl⟩
  obtain ⟨rfl, nonnull, taken⟩ := current
  obtain ⟨t, use, here, reads, same⟩ := inv.reader taken nonnull
  exact ⟨t, use, here, same.symm, reads⟩

/-- What the tasks and the owner of a proxy may rely on. -/
structure Protocol (m : Addr) (s : DnsSystem) : Prop where
  /-- The record of a call that returns has been executed once, and the call returns what libc
  answered to its query. -/
  returns : ∀ t use io next result, s.uses t = some use → (DnsOp.advance t io).Ready s →
    s.advance m t use io = some (next, some result) →
      ∃ libc, s.executed use.record = [(use.query, libc)] ∧ result.Answers libc use.query
  /-- The task of a record that is executed waits for it. -/
  executes : ∀ sync a, (s.handler = .exec sync ∧ s.call = a) ∨ s.handler = .resolve sync a →
    ∃ t use, s.uses t = some use ∧ use.record = a ∧ use.phase = .read
  single : s.requests.count .s + s.responses.count .s ≤ 1
  drained : s.drain = .done → s.requests = [] ∧ s.responses = [] ∧
    ∀ more later, ((readableSystem m).startAt s).Run more later → ∀ op ∈ more, ¬ op.Serves
  /-- No step uses a record that has been given up. -/
  faultless : ∀ op : DnsOp, op.Ready s → ∃ next reply, op.apply m s = some (next, reply)

end DnsSystem

/-- With a reactor that returns readable descriptors only, the protocol is kept in every state
reached. -/
theorem dns_protocol {m : Addr} {ops : List DnsOp} {s : DnsSystem} (run : (readableSystem m).Run ops s) :
    s.Protocol m := by
  have inv := readableSystem_inv run
  refine ⟨fun t use io next result here ready returns => ?_, fun sync a executes => inv.executes executes, inv.single,
    fun done => ?_, fun op ready => ?_⟩
  · obtain ⟨running, use', there, readable⟩ := ready
    cases here.symm.trans there
    obtain ⟨next', reply, returns', -, once⟩ := inv.advance here running readable
    cases returns.symm.trans returns'
    exact once result rfl
  · obtain ⟨requests, responses, -⟩ := inv.ended done
    exact ⟨requests, responses, fun more later rest => inv.never_serves done rest⟩
  · by_cases readable : op.Readable s
    · obtain ⟨next, reply, result, -⟩ := inv.step readable ready
      exact ⟨next, reply, result⟩
    · cases op with
      | fetch => exact ⟨_, _, rfl⟩
      | task | start | advance | event | serve | drain => exact absurd trivial readable

theorem dns_step {m : Addr} {ops : List DnsOp} {s next : DnsSystem} {reply : Option DnsResult}
    (run : (readableSystem m).Run ops s) (op : DnsOp) (readable : op.Readable s) (ready : op.Ready s)
    (applied : op.apply m s = some (next, reply)) : (readableSystem m).Run (ops ++ [op]) next :=
  run.step ⟨readable, ready, reply, applied⟩

def nullResolver : Resolver := ⟨fun _ _ _ _ => ⟨0, 0⟩, fun _ _ _ _ _ _ _ => ⟨-1, 2⟩⟩

/-- One call, and a drain that finds the handler still in its loop. -/
theorem dns_call_and_drain : ∃ ops s, (readableSystem 16).Run ops s ∧ s.drain = .done ∧ s.recorded = true ∧
    s.executed 100 = [(.getaddrinfo 1 2 3 4, nullResolver)] := by
  have run : (readableSystem 16).Run [] ⟨.empty, 0, 0, [], [], false, fun _ => none, fun _ => none, .idle, .idle,
      fun _ => []⟩ :=
    .init ⟨SyncSystem.empty_init, rfl, rfl, rfl, rfl, rfl, fun _ => rfl, fun _ => rfl, rfl, rfl⟩
  have run := dns_step run (.task (.start 4)) trivial ⟨trivial, by decide, .inl rfl⟩ rfl
  have run := dns_step run (.start 4 100 (.getaddrinfo 1 2 3 4)) trivial ⟨⟨rfl, rfl⟩, rfl, rfl, by decide, rfl⟩ rfl
  have run := dns_step run (.advance 4 .done) trivial ⟨rfl, _, rfl, nofun⟩ rfl
  have run := dns_step run (.advance 4 .done) trivial ⟨rfl, _, rfl, nofun⟩ rfl
  have run := dns_step run .fetch nofun ⟨rfl, .inl nofun⟩ rfl
  have run := dns_step run (.serve .done nullResolver) trivial ⟨nofun, nofun⟩ rfl
  have run := dns_step run (.serve .done nullResolver) trivial ⟨nofun, fun _ _ => nofun⟩ rfl
  have run := dns_step run (.serve .done nullResolver) trivial ⟨nofun, nofun⟩ rfl
  have run := dns_step run (.serve .done nullResolver) trivial ⟨nofun, nofun⟩ rfl
  have run := dns_step run (.serve .done nullResolver) trivial ⟨nofun, nofun⟩ rfl
  have run := dns_step run (.serve .done nullResolver) trivial ⟨nofun, nofun⟩ rfl
  have run := dns_step run (.advance 4 .done) trivial ⟨rfl, _, rfl, fun _ _ => nofun⟩ rfl
  have run := dns_step run (.advance 4 .done) trivial ⟨rfl, _, rfl, nofun⟩ rfl
  have run := dns_step run (.advance 4 .done) trivial ⟨rfl, _, rfl, nofun⟩ rfl
  have run := dns_step run (.drain .done) trivial ⟨fun _ t => by
    by_cases same : t = 4
    · rw [same]
      rfl
    · simp [DnsSystem.setPhase, DnsSystem.locked, same], nofun, nofun⟩ rfl
  have run := dns_step run (.drain .done) trivial ⟨nofun, nofun, nofun⟩ rfl
  have run := dns_step run (.serve .done nullResolver) trivial ⟨nofun, fun _ _ => nofun⟩ rfl
  have run := dns_step run (.serve .done nullResolver) trivial ⟨nofun, nofun⟩ rfl
  have run := dns_step run (.serve .done nullResolver) trivial ⟨nofun, nofun⟩ rfl
  have run := dns_step run (.drain .done) trivial ⟨nofun, nofun, fun _ _ => nofun⟩ rfl
  exact ⟨_, _, run, rfl, rfl, rfl⟩

theorem dns_protocol_call : ∃ ops s, (readableSystem 16).Run ops s ∧ s.drain = .done ∧
    s.executed 100 = [(.getaddrinfo 1 2 3 4, nullResolver)] ∧ s.Protocol 16 := by
  obtain ⟨ops, s, run, done, -, executed⟩ := dns_call_and_drain
  exact ⟨ops, s, run, done, executed, dns_protocol run⟩

/-- The byte of the drain arrived while the handler was in its loop, which read it. The event
that was recorded for it is returned after the drain has returned, and the handler runs again. -/
theorem handler_after_drain : ∃ ops s, (dnsSystem 16).Run ops s ∧ s.drain = .done ∧
    ∃ later, ((dnsSystem 16).startAt s).Run [.fetch, .serve .eagain nullResolver] later ∧ later.handler = .read := by
  obtain ⟨ops, s, run, done, recorded, -⟩ := dns_call_and_drain
  obtain ⟨-, -, idle⟩ := (readableSystem_inv run).ended done
  have fetch : ((dnsSystem 16).startAt s).Run [.fetch] { s with recorded := false, handler := .fetched } :=
    (System.Run.init rfl).step ⟨⟨idle, .inr recorded⟩, none, rfl⟩
  exact ⟨ops, s, run.of_restrict, done, _, fetch.step ⟨⟨nofun, nofun⟩, none, rfl⟩, rfl⟩

end HevTaskSystem
