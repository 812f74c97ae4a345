import HevTaskSystem.Dns.Proxy
import HevTaskSystem.Sync.Holding

/-! What the tasks, the aide thread and the drain of a proxy rely on.

The mutex lets one task at a time past the lock. Between its write and its read there is
one byte in flight, and where that byte is tells whether the record has been executed.
-/

set_option autoImplicit false

namespace HevTaskSystem

open Foundation

def HandlerPhase.sync : HandlerPhase → Option DnsSync
  | .idle | .fetched | .read => none
  | .check sync | .exec sync | .resolve sync _ | .write sync => some sync

/-- What libc returns for the query. -/
def DnsResult.Answers (libc : Resolver) (result : DnsResult) : DnsQuery → Prop
  | .getaddrinfo node service hints res => libc.getaddrinfo node service hints res = result
  | .getnameinfo addr addrlen node nodelen service servicelen flags =>
    libc.getnameinfo addr addrlen node nodelen service servicelen flags = result

theorem DnsQuery.resolve_answers (libc : Resolver) (query : DnsQuery) : (query.resolve libc).Answers libc query := by
  cases query <;> rfl

def DnsPhase.holds : DnsPhase → Bool
  | .lock | .finish => false
  | .setCall | .write | .read | .unlock => true

namespace DnsSystem

def echo (s : DnsSystem) : Echo DnsSync := ⟨s.requests, s.handler.sync, s.responses⟩

def syncCall (m : Addr) : Option DnsUse → SyncCall
  | some ⟨_, _, .lock⟩ => .lock m .user
  | _ => .idle

def holds : Option DnsUse → Bool
  | some use => use.phase.holds
  | none => false

structure Callers (m : Addr) (s : DnsSystem) : Prop where
  sync : s.sync.Inv
  active : ∀ t use, s.uses t = some use → s.sync.Active t
  calls : ∀ t, s.sync.calls t = syncCall m (s.uses t)
  held : ∀ t, s.sync.held m t = holds (s.uses t)
  sched : s.schedTask ≠ 0 → ∃ use, s.uses s.schedTask = some use ∧ use.phase.holds = true
  record : ∀ t use, s.uses t = some use → use.record ≠ 0 ∧ ∃ call, s.records use.record = some call ∧ call.query = use.query
  apart : ∀ t u use other, s.uses t = some use → s.uses u = some other → use.record = other.record → t = u

def Answered (s : DnsSystem) (use : DnsUse) : Prop :=
  ∃ (libc : Resolver) (result : DnsResult), s.executed use.record = [(use.query, libc)] ∧
    result.Answers libc use.query ∧
    s.records use.record = some ⟨use.query, result.ret, some result.err⟩

def Served (s : DnsSystem) : Prop := s.responses ≠ [] ∨ ∃ sync, s.handler = .write sync

def Stage (s : DnsSystem) (use : DnsUse) : Prop :=
  match use.phase with
  | .lock | .setCall => s.executed use.record = []
  | .write => s.executed use.record = [] ∧ s.call = use.record
  | .read => s.call = use.record ∧ s.echo.flight = [.s] ∧ (s.Served → s.Answered use) ∧
      (¬ s.Served → s.executed use.record = [])
  | .unlock | .finish => s.Answered use

structure Handler (s : DnsSystem) : Prop where
  fetched : s.handler = .fetched → s.requests ≠ []
  exec : ∀ sync, s.handler = .exec sync → s.call ≠ 0
  resolve : ∀ sync a, s.handler = .resolve sync a → s.call = a ∧ a ≠ 0

structure Drain (s : DnsSystem) : Prop where
  alone : s.drain ≠ .idle → (∀ t, s.uses t = none) ∧ s.call = 0
  quiet : s.drain ≠ .read → (∀ t use, s.uses t = some use → use.phase ≠ .read) → s.echo.flight = []
  asked : s.drain = .read → s.echo.flight = [.d]
  stopped : s.drain = .done ∨ (s.drain = .read ∧ s.responses ≠ []) → s.handler = .idle

structure Inv (m : Addr) (s : DnsSystem) : Prop where
  callers : s.Callers m
  stages : ∀ t use, s.uses t = some use → s.Stage use
  handler : s.Handler
  drain : s.Drain

variable {m t u : Addr} {s next : DnsSystem} {use other : DnsUse} {phase : DnsPhase} {io : DnsIo}

/-! ## Frames -/

theorem Callers.single (callers : s.Callers m) (here : s.uses t = some use) (there : s.uses u = some other)
    (first : use.phase.holds = true) (second : other.phase.holds = true) : t = u := by
  obtain ⟨chain, ok⟩ := callers.sync.mutexes m
  have held : s.sync.held m t = true := by rw [callers.held, here]; exact first
  have also : s.sync.held m u = true := by rw [callers.held, there]; exact second
  rcases ok.holder with ⟨-, none⟩ | ⟨-, holder, only⟩
  · exact nomatch (none t).symm.trans held
  · exact ((only t).mp held).trans ((only u).mp also).symm

theorem Stage.outside (stage : s.Stage use) (free : use.phase.holds = false)
    (executed : next.executed use.record = s.executed use.record)
    (records : next.records use.record = s.records use.record) : next.Stage use := by
  unfold Stage at stage ⊢
  cases at' : use.phase with
  | lock =>
    rw [at'] at stage
    exact executed.trans stage
  | finish =>
    rw [at'] at stage
    obtain ⟨libc, result, once, answers, record⟩ := stage
    exact ⟨libc, result, executed.trans once, answers, records.trans record⟩
  | setCall | write | read | unlock => rw [at'] at free; exact nomatch free

theorem Stage.congr (stage : s.Stage use) (call : next.call = s.call) (flight : next.echo.flight = s.echo.flight)
    (served : use.phase = .read → (next.Served ↔ s.Served)) (executed : next.executed use.record = s.executed use.record)
    (records : next.records use.record = s.records use.record) : next.Stage use := by
  have answered : s.Answered use → next.Answered use := by
    rintro ⟨libc, result, once, answers, record⟩
    exact ⟨libc, result, executed.trans once, answers, records.trans record⟩
  unfold Stage at stage ⊢
  cases at' : use.phase with
  | lock | setCall =>
    rw [at'] at stage
    exact executed.trans stage
  | write =>
    rw [at'] at stage
    exact ⟨executed.trans stage.1, call.trans stage.2⟩
  | unlock | finish =>
    rw [at'] at stage
    exact answered stage
  | read =>
    rw [at'] at stage
    obtain ⟨current, one, after, before⟩ := stage
    have same := served at'
    exact ⟨call.trans current, flight.trans one, fun there => answered (after (same.mp there)),
      fun unserved => executed.trans (before fun there => unserved (same.mpr there))⟩

theorem Callers.agree (callers : s.Callers m) {entry : Option DnsUse} {calls : Addr → SyncCall} {held : Addr → Bool}
    (others : ∀ u, u ≠ t → calls u = s.sync.calls u ∧ held u = s.sync.held m u) (call : calls t = syncCall m entry)
    (mine : held t = holds entry) :
    (∀ u, calls u = syncCall m (Function.update s.uses t entry u)) ∧
      ∀ u, held u = holds (Function.update s.uses t entry u) := by
  constructor <;> intro u <;> by_cases same : u = t
  · rw [same, Function.update_self, call]
  · rw [Function.update_of_ne same, (others u same).1, callers.calls]
  · rw [same, Function.update_self, mine]
  · rw [Function.update_of_ne same, (others u same).2, callers.held]

theorem Callers.update (callers : s.Callers m) (here : s.uses t = some use)
    (touches : SyncSystem.Touches m t s.sync next.sync)
    (uses : next.uses = Function.update s.uses t (some { use with phase := phase }))
    (calls : next.sync.calls t = syncCall m (some { use with phase := phase }))
    (held : next.sync.held m t = phase.holds)
    (sched : next.schedTask = 0 ∨ (next.schedTask = s.schedTask ∧ (s.schedTask = t → phase.holds = true)) ∨
      (next.schedTask = t ∧ phase.holds = true))
    (records : next.records = s.records) : next.Callers m := by
  have old {u : Addr} {other : DnsUse} (there : next.uses u = some other) :
      ∃ before, s.uses u = some before ∧ before.record = other.record ∧ before.query = other.query := by
    rw [uses] at there
    by_cases same : u = t
    · rw [same, Function.update_self] at there
      cases there
      exact ⟨use, same ▸ here, rfl, rfl⟩
    · rw [Function.update_of_ne same] at there
      exact ⟨other, there, rfl, rfl⟩
  obtain ⟨calls, held⟩ := callers.agree (fun u other => ⟨touches.calls u other, touches.held u other⟩) calls held
  rw [← uses] at calls held
  refine ⟨touches.inv, fun u other there => ?_, calls, held, fun some => ?_, fun u other there => ?_,
    fun u v first second there there' same => ?_⟩
  · obtain ⟨before, there', -⟩ := old there
    exact touches.active u (callers.active u before there')
  · rw [uses]
    rcases sched with none | ⟨kept, still⟩ | ⟨mine, holds⟩
    · exact absurd none some
    · rw [kept] at some ⊢
      by_cases same : s.schedTask = t
      · exact ⟨_, by rw [same, Function.update_self], still same⟩
      · rw [Function.update_of_ne same]
        exact callers.sched some
    · exact ⟨_, by rw [mine, Function.update_self], holds⟩
  · obtain ⟨before, there', record, query⟩ := old there
    rw [records, ← record, ← query]
    exact callers.record u before there'
  · obtain ⟨before, here', record, -⟩ := old there
    obtain ⟨before', there'', record', -⟩ := old there'
    exact callers.apart u v before before' here' there'' (record.trans (same.trans record'.symm))

theorem Callers.keep (callers : s.Callers m) (sync : next.sync = s.sync) (uses : next.uses = s.uses)
    (sched : next.schedTask = s.schedTask)
    (records : ∀ a call, s.records a = some call → ∃ call', next.records a = some call' ∧ call'.query = call.query) :
    next.Callers m := by
  refine ⟨sync ▸ callers.sync, ?_, ?_, ?_, ?_, fun t use here => ?_, ?_⟩
  · rw [sync, uses]
    exact callers.active
  · rw [sync, uses]
    exact callers.calls
  · rw [sync, uses]
    exact callers.held
  · rw [sched, uses]
    exact callers.sched
  · rw [uses] at here
    obtain ⟨nonnull, call, there, same⟩ := callers.record t use here
    obtain ⟨call', there', same'⟩ := records use.record call there
    exact ⟨nonnull, call', there', same'.trans same⟩
  · rw [uses]
    exact callers.apart

/-! ## The aide thread -/

theorem Inv.handle (inv : s.Inv m) {requests responses : List DnsSync} {recorded : Bool} {handler : HandlerPhase}
    (flight : responses ++ handler.sync.toList ++ requests = s.echo.flight)
    (served : s.call ≠ 0 → ((responses ≠ [] ∨ ∃ sync, handler = .write sync) ↔ s.Served))
    (works : Handler { s with requests := requests, responses := responses, recorded := recorded, handler := handler })
    (stopped : s.drain = .done ∨ (s.drain = .read ∧ responses ≠ []) → handler = .idle) :
    Inv m { s with requests := requests, responses := responses, recorded := recorded, handler := handler } := by
  refine ⟨inv.callers.keep rfl rfl rfl fun a call there => ⟨call, there, rfl⟩, fun t use here => ?_, works, ?_⟩
  · refine (inv.stages t use here).congr rfl flight (fun reads => served ?_) rfl rfl
    have stage := inv.stages t use here
    rw [Stage, reads] at stage
    rw [stage.1]
    exact (inv.callers.record t use here).1
  · exact ⟨inv.drain.alone, fun other none => flight.trans (inv.drain.quiet other none),
      fun asked => flight.trans (inv.drain.asked asked), stopped⟩

theorem Inv.empty (inv : s.Inv m) (none : ∀ t, s.uses t = none) (other : s.drain ≠ .read) : s.echo.flight = [] := by
  refine inv.drain.quiet other fun t use here => ?_
  exact nomatch (none t).symm.trans here

theorem Inv.reader (inv : s.Inv m) {sync : DnsSync} (taken : s.handler.sync = some sync) (nonnull : s.call ≠ 0) :
    ∃ t use, s.uses t = some use ∧ use.phase = .read ∧ s.call = use.record := by
  by_contra none
  have drained : s.drain ≠ .read := by
    intro asked
    exact nonnull (inv.drain.alone (by rw [asked]; decide)).2
  have empty : s.echo.flight = [] := by
    refine inv.drain.quiet drained fun t use here reads => none ⟨t, use, here, reads, ?_⟩
    have stage := inv.stages t use here
    rw [Stage, reads] at stage
    exact stage.1
  exact nomatch (Echo.of_flight_nil empty).2.1.symm.trans taken

theorem Inv.record_of_call (inv : s.Inv m) {sync : DnsSync} (taken : s.handler.sync = some sync) (nonnull : s.call ≠ 0) :
    ∃ call, s.records s.call = some call := by
  obtain ⟨t, use, here, -, current⟩ := inv.reader taken nonnull
  obtain ⟨-, call, there, -⟩ := inv.callers.record t use here
  exact ⟨call, current ▸ there⟩

theorem Inv.unstopped (inv : s.Inv m) (busy : s.handler ≠ .idle) {handler : HandlerPhase} :
    s.drain = .done ∨ (s.drain = .read ∧ s.responses ≠ []) → handler = .idle :=
  fun stopped => absurd (inv.drain.stopped stopped) busy

theorem Inv.fetch (inv : s.Inv m) (idle : s.handler = .idle) (readable : s.requests ≠ []) :
    Inv m { s with recorded := false, handler := .fetched } := by
  refine inv.handle ?_ (fun _ => ?_) (by constructor <;> simp [readable]) fun stopped => ?_
  · simp [echo, Echo.flight, idle, HandlerPhase.sync]
  · simp [Served, idle]
  · rcases stopped with done | ⟨asked, answered⟩
    · have empty := inv.empty (inv.drain.alone (by rw [done]; decide)).1 (by rw [done]; decide)
      exact absurd (Echo.of_flight_nil empty).1 readable
    · rcases Echo.of_flight_single (inv.drain.asked asked) with ⟨-, -, none⟩ | ⟨none, -⟩ | ⟨none, -⟩
      · exact absurd none answered
      · exact absurd none readable
      · exact absurd none readable

theorem not_served_of_resolve {sync : DnsSync} {a : Addr} (at' : s.handler = .resolve sync a)
    (one : s.echo.flight = [.s]) : ¬ s.Served := by
  have taken : s.echo.hand = some sync := by simp [echo, at', HandlerPhase.sync]
  rintro (some | ⟨sync', writes⟩)
  · rcases Echo.of_flight_single one with ⟨-, none, -⟩ | ⟨-, -, none⟩ | ⟨-, none, -⟩
    · exact nomatch none.symm.trans taken
    · exact some none
    · exact nomatch none.symm.trans taken
  · simp [at'] at writes

theorem Inv.resolve (inv : s.Inv m) {sync : DnsSync} {a : Addr} (at' : s.handler = .resolve sync a) (libc : Resolver) :
    ∃ call, s.records a = some call ∧ Inv m { s with
      records := Function.update s.records a
        (some { call with ret := (call.query.resolve libc).ret, err := some (call.query.resolve libc).err })
      executed := Function.update s.executed a (s.executed a ++ [(call.query, libc)])
      handler := .write sync } := by
  obtain ⟨rfl, nonnull⟩ := inv.handler.resolve sync a at'
  have taken : s.handler.sync = some sync := by rw [at']; rfl
  obtain ⟨t, use, here, reads, current⟩ := inv.reader taken nonnull
  have stage := inv.stages t use here
  rw [Stage, reads] at stage
  obtain ⟨-, one, -, before⟩ := stage
  obtain ⟨-, call, there, query⟩ := inv.callers.record t use here
  rw [← current] at there
  have flight : s.responses ++ [sync] ++ s.requests = s.echo.flight := by
    simp [echo, Echo.flight, at', HandlerPhase.sync]
  have fresh : s.executed s.call = [] := by
    rw [current]
    exact before (not_served_of_resolve at' one)
  refine ⟨call, there, ⟨inv.callers.keep rfl rfl rfl fun a old found => ?_, fun u other found => ?_, by constructor <;> simp,
    ⟨inv.drain.alone, fun quiet none => flight.trans (inv.drain.quiet quiet none),
      fun asked => flight.trans (inv.drain.asked asked), inv.unstopped (by simp [at'])⟩⟩⟩
  · by_cases same : a = s.call
    · subst same
      cases found.symm.trans there
      exact ⟨_, Function.update_self _ _ _, rfl⟩
    · exact ⟨old, (Function.update_of_ne same _ _).trans found, rfl⟩
  · by_cases same : u = t
    -- the reader finds its own record executed
    · subst same
      cases here.symm.trans found
      have answered : Answered { s with
          records := Function.update s.records s.call
            (some { call with ret := (call.query.resolve libc).ret, err := some (call.query.resolve libc).err })
          executed := Function.update s.executed s.call (s.executed s.call ++ [(call.query, libc)])
          handler := .write sync } use := by
        refine ⟨libc, call.query.resolve libc, ?_, ?_, ?_⟩
        · simp [← current, fresh, query]
        · rw [← query]
          exact call.query.resolve_answers libc
        · simp [← current, query]
      unfold Stage
      rw [reads]
      exact ⟨current, flight.trans one, fun _ => answered, fun unserved => absurd (.inr ⟨sync, rfl⟩) unserved⟩
    · have apart : other.record ≠ s.call := by
        rw [current]
        exact fun equal => same (inv.callers.apart u t other use found here equal)
      refine (inv.stages u other found).outside ?_ (Function.update_of_ne apart _ _) (Function.update_of_ne apart _ _)
      cases holds : other.phase.holds with
      | false => rfl
      | true => exact absurd (inv.callers.single found here holds (by rw [reads]; rfl)) same

theorem Inv.serve (inv : s.Inv m) (libc : Resolver) (busy : s.handler ≠ .idle)
    (readable : s.handler = .read → io = .done → s.requests ≠ []) :
    ∃ next, s.serve io libc = some next ∧ next.Inv m := by
  cases at' : s.handler with
  | idle => exact absurd at' busy
  | fetched =>
    refine ⟨{ s with handler := .read }, by simp [DnsSystem.serve, at'], ?_⟩
    refine inv.handle ?_ (fun _ => ?_) ⟨nofun, nofun, nofun⟩ (inv.unstopped busy)
    · simp [echo, Echo.flight, at', HandlerPhase.sync]
    · simp [Served, at']
  | read =>
    cases io with
    | done =>
      cases queue : s.requests with
      | nil => exact absurd queue (readable at' rfl)
      | cons sync rest =>
        refine ⟨{ s with requests := rest, recorded := s.recorded || !rest.isEmpty, handler := .check sync },
          by simp [DnsSystem.serve, at', queue], ?_⟩
        refine inv.handle ?_ (fun _ => ?_) ⟨nofun, nofun, nofun⟩ (inv.unstopped busy)
        · have free : s.echo.hand = none := by simp [echo, at', HandlerPhase.sync]
          exact Echo.flight_take free queue
        · simp [Served, at']
    | eintr => exact ⟨s, by simp [DnsSystem.serve, at'], inv⟩
    | eagain =>
      refine ⟨{ s with handler := .idle }, by simp [DnsSystem.serve, at'], ?_⟩
      refine inv.handle ?_ (fun _ => ?_) ⟨nofun, nofun, nofun⟩ fun _ => rfl
      · simp [echo, Echo.flight, at', HandlerPhase.sync]
      · simp [Served, at']
  | check sync =>
    by_cases null : s.call = 0
    · refine ⟨{ s with handler := .write sync }, by simp [DnsSystem.serve, at', null], ?_⟩
      refine inv.handle ?_ (fun nonnull => absurd null nonnull) ⟨nofun, nofun, nofun⟩ (inv.unstopped busy)
      simp [echo, Echo.flight, at', HandlerPhase.sync]
    · refine ⟨{ s with handler := .exec sync }, by simp [DnsSystem.serve, at', null], ?_⟩
      refine inv.handle ?_ (fun _ => ?_) ⟨nofun, fun _ _ => null, nofun⟩ (inv.unstopped busy)
      · simp [echo, Echo.flight, at', HandlerPhase.sync]
      · simp [Served, at']
  | exec sync =>
    have nonnull := inv.handler.exec sync at'
    obtain ⟨call, there⟩ := inv.record_of_call (by rw [at']; rfl) nonnull
    refine ⟨{ s with handler := .resolve sync s.call }, by simp [DnsSystem.serve, at', there], ?_⟩
    refine inv.handle ?_ (fun _ => ?_) ⟨nofun, nofun, ?_⟩ (inv.unstopped busy)
    · simp [echo, Echo.flight, at', HandlerPhase.sync]
    · simp [Served, at']
    · rintro _ _ ⟨⟩
      exact ⟨rfl, nonnull⟩
  | resolve sync a =>
    obtain ⟨call, there, inv'⟩ := inv.resolve at' libc
    exact ⟨_, by simp [DnsSystem.serve, at', there], inv'⟩
  | write sync =>
    have taken : s.echo.hand = some sync := by simp [echo, at', HandlerPhase.sync]
    cases io with
    | done =>
      refine ⟨{ s with responses := s.responses ++ [sync], handler := if sync = .d then .idle else .read },
        by simp [DnsSystem.serve, at'], inv.handle ?_ (fun _ => ?_) ?_ fun stopped => ?_⟩
      · have none : HandlerPhase.sync (if sync = .d then .idle else .read) = none := by split <;> rfl
        rw [none]
        exact Echo.flight_reply taken
      · simp [Served, at']
      · constructor <;> split <;> nofun
      -- the handler returns after it has echoed the byte of the drain
      · rcases stopped with done | ⟨asked, -⟩
        · exact absurd (inv.drain.stopped (.inl done)) busy
        · rcases Echo.of_flight_single (inv.drain.asked asked) with ⟨-, none, -⟩ | ⟨-, same, -⟩ | ⟨-, none, -⟩
          · exact nomatch none.symm.trans taken
          · cases same.symm.trans taken
            rfl
          · exact nomatch none.symm.trans taken
    | eintr | eagain => exact ⟨s, by simp [DnsSystem.serve, at'], inv⟩

end DnsSystem

end HevTaskSystem
