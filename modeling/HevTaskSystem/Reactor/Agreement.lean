import HevTaskSystem.Reactor.Retarget

/-! The kqueue reactor follows the epoll reactor.

A call is one request to epoll, but up to three changes to kqueue, of which deletions may
fail. A sequence of calls that succeeds over epoll also succeeds over kqueue, and then both
wake the same tasks for the same events. Calls name at least one event: a record without
events has no knote in kqueue.
-/

set_option autoImplicit false

namespace HevTaskSystem

open Foundation

def FdCall.Names : FdCall → Prop
  | .add _ _ events | .mod _ _ events => ∃ f, events.selects f = true
  | .del _ => True

/-- The filters with a knote are those that the record selects, and carry its data. -/
def Epoll.Agrees (e : Epoll) (k : Kqueue) : Prop :=
  ∀ fd f data, k.knotes fd f = some data ↔
    ∃ record, e.records fd = some record ∧ record.events.selects f = true ∧ record.data = data

def Epoll.Named (e : Epoll) : Prop := ∀ fd record, e.records fd = some record → ∃ f, record.events.selects f = true

section Succeeds

variable {k : Kqueue}

theorem Kqueue.kevent_succeeds (k : Kqueue) (fd : Nat) (data : Addr) (fs : List KqueueFilter) :
    ∃ next, k.kevent (fun _ => true) (fs.map fun f => ⟨fd, f, false, data⟩) = (true, next) := by
  induction fs generalizing k with
  | nil => exact ⟨k, rfl⟩
  | cons f fs ih =>
    obtain ⟨next, rest⟩ := ih ⟨Function.update k.knotes fd (Function.update (k.knotes fd) f (some data))⟩
    exact ⟨next, by simpa [kevent, change] using rest⟩

theorem Kqueue.setup_adds_succeeds (k : Kqueue) (fd : Nat) (data : Addr) (res : Bool) {fs : List KqueueFilter}
    (nonempty : fs ≠ []) :
    ∃ next, k.setup (fun _ => true) res (fs.map fun f => ⟨fd, f, false, data⟩) = (true, next) := by
  obtain ⟨next, adds⟩ := k.kevent_succeeds fd data fs
  cases fs with
  | nil => exact absurd rfl nonempty
  | cons f fs => exact ⟨next, by simpa [setup] using adds⟩

theorem Kqueue.setup_deletes_succeeds (k : Kqueue) (fd : Nat) (data : Addr) (res : Bool) (fs : List KqueueFilter)
    (found : res = true ∨ ∃ f ∈ fs, (k.knotes fd f).isSome = true) :
    (k.setup (fun _ => true) res (fs.map fun f => ⟨fd, f, true, data⟩)).1 = true := by
  induction fs generalizing k res with
  | nil =>
    rcases found with done | ⟨f, member, _⟩
    · exact done
    · exact absurd member List.not_mem_nil
  | cons f fs ih =>
    cases here : k.knotes fd f with
    | some old =>
      have step := ih ⟨Function.update k.knotes fd (Function.update (k.knotes fd) f none)⟩ true (.inl rfl)
      simpa [setup, kevent, change, here] using step
    | none =>
      have later : res = true ∨ ∃ g ∈ fs, (k.knotes fd g).isSome = true := by
        refine found.imp_right ?_
        rintro ⟨g, member, there⟩
        rcases List.mem_cons.mp member with rfl | member
        · rw [here] at there
          cases there
        · exact ⟨g, member, there⟩
      have step := ih k res later
      simpa [setup, kevent, change, here] using step

theorem PollEvents.filters_ne_nil {events : PollEvents} {f : KqueueFilter} (selects : events.selects f = true) :
    Kqueue.filters.filter events.selects ≠ [] := by
  intro empty
  have member : f ∈ Kqueue.filters.filter events.selects := List.mem_filter.mpr ⟨Kqueue.mem_filters f, selects⟩
  rw [empty] at member
  exact absurd member List.not_mem_nil

theorem kqueue_call_succeeds {e next : Epoll} {c : FdCall} (agrees : e.Agrees k) (named : e.Named) (names : c.Names)
    (called : epoll.call e c next) : ∃ next, kqueue.call k c next := by
  cases c with
  | add task fd events =>
    obtain ⟨f, selects⟩ := names
    obtain ⟨next, adds⟩ := k.setup_adds_succeeds fd task false (PollEvents.filters_ne_nil selects)
    exact ⟨next, fun _ => true, adds⟩
  | mod task fd events =>
    obtain ⟨f, selects⟩ := names
    obtain ⟨mid, res, rest, _⟩ := Kqueue.setup_deletes k (fun _ => true) fd task
      (Kqueue.filters.filter fun f => !events.selects f) false
      ((Kqueue.filters.filter events.selects).map fun f => ⟨fd, f, false, task⟩)
    obtain ⟨next, adds⟩ := mid.setup_adds_succeeds fd task res (PollEvents.filters_ne_nil selects)
    exact ⟨next, fun _ => true, rest.trans adds⟩
  | del fd =>
    -- The record is there, since epoll deletes it, and it has a knote for each of its events.
    obtain ⟨record, there⟩ : ∃ record, e.records fd = some record := by
      obtain ⟨admits, result⟩ := called
      cases there : e.records fd with
      | some record => exact ⟨record, rfl⟩
      | none => simp [FdCall.gen, Epoll.setupEventFdGen, Epoll.setup, Epoll.ctl, there] at result
    obtain ⟨f, selects⟩ := named fd record there
    have knote : (k.knotes fd f).isSome = true := by
      rw [(agrees fd f record.data).mpr ⟨record, there, selects, rfl⟩]
      rfl
    have unwanted : (!(⟨false, false, false⟩ : PollEvents).selects f) = true := by cases f <;> rfl
    have member : f ∈ Kqueue.filters.filter fun f => !(⟨false, false, false⟩ : PollEvents).selects f :=
      List.mem_filter.mpr ⟨Kqueue.mem_filters f, unwanted⟩
    have deleted := k.setup_deletes_succeeds fd 0 false _ (.inr ⟨f, member, knote⟩)
    exact ⟨_, fun _ => true, Prod.ext deleted rfl⟩

end Succeeds

section Agrees

variable {e next : Epoll} {k : Kqueue} {c : FdCall}

def FdCall.record : FdCall → Option EpollEvent
  | .add task _ events | .mod task _ events => some ⟨events, task⟩
  | .del _ => none

theorem epoll_call_records (called : epoll.call e c next) :
    next.records = Function.update e.records c.fd c.record ∧
      ∀ task fd events, c = .add task fd events → e.records fd = none := by
  obtain ⟨admits, result⟩ := called
  have single (setup : EpollSetup) (result : e.setup admits true [setup] = (true, next)) :
      e.ctl admits setup = (true, next) := by
    simpa [Epoll.setup, Prod.ext_iff] using result
  cases c with
  | add task fd events =>
    obtain ⟨records, absent⟩ := Epoll.ctl_spec (single _ result)
    refine ⟨records, ?_⟩
    rintro _ _ _ ⟨⟩
    exact absent rfl
  | mod task fd events => exact ⟨(Epoll.ctl_spec (single _ result)).1, fun _ _ _ other => FdCall.noConfusion other⟩
  | del fd => exact ⟨(Epoll.ctl_spec (single _ result)).1, fun _ _ _ other => FdCall.noConfusion other⟩

theorem Epoll.Agrees.absent (agrees : e.Agrees k) {fd : Nat} (none : e.records fd = none) (f : KqueueFilter) :
    k.knotes fd f = Option.none := by
  cases there : k.knotes fd f with
  | none => rfl
  | some data =>
    obtain ⟨record, here, _⟩ := (agrees fd f data).mp there
    cases none.symm.trans here

theorem Epoll.Agrees.call {after : Kqueue} (agrees : e.Agrees k) (called : epoll.call e c next)
    (followed : kqueue.call k c after) : next.Agrees after := by
  obtain ⟨records, fresh⟩ := epoll_call_records called
  intro fd f data
  rw [kqueue_call followed, records]
  by_cases here : fd = c.fd
  · rw [if_pos here, here, Function.update_self]
    cases c with
    | add task fd events =>
      -- The descriptor was new, so there is no knote of other events.
      rw [FdCall.fd, FdCall.knote, agrees.absent (fresh task fd events rfl)]
      cases wanted : events.selects f <;> simp [FdCall.record, wanted]
    | mod task fd events => cases wanted : events.selects f <;> simp [FdCall.knote, FdCall.record, wanted]
    | del fd => simp [FdCall.knote, FdCall.record]
  · rw [if_neg here, Function.update_of_ne here]
    exact agrees fd f data

theorem Epoll.Named.call (named : e.Named) (names : c.Names) (called : epoll.call e c next) : next.Named := by
  intro fd r there
  rw [(epoll_call_records called).1] at there
  by_cases here : fd = c.fd
  · rw [here, Function.update_self] at there
    cases c with
    | add task fd events | mod task fd events =>
      cases there
      exact names
    | del fd => cases there
  · rw [Function.update_of_ne here] at there
    exact named fd r there

end Agrees

def naming (_ : Watched epoll) (label : Option FdCall) : Prop := ∀ c, label = some c → c.Names

/-- The same calls were made, and both reactors agree about what they are to wake. -/
def Follows (s : Watched epoll) (other : Watched kqueue) : Prop :=
  other.last = s.last ∧ s.state.Agrees other.state ∧ s.state.Named

/-- Calls that succeed over epoll succeed over kqueue, and then a descriptor wakes the same task for
the same events. -/
theorem kqueue_follows_epoll {labels : List (Option FdCall)} {s : Watched epoll}
    (run : (epoll.system.restrict naming).Run labels s) :
    ∃ other : Watched kqueue, kqueue.system.Run labels other ∧ other.last = s.last ∧
      ∀ fd f data, other.state.knotes fd f = some data ↔
        ∃ record, s.state.records fd = some record ∧ record.events.selects f = true ∧ record.data = data := by
  have start (s : Watched epoll) (initial : (epoll.system.restrict naming).init s) :
      ∃ other, kqueue.system.init other ∧ Follows s other := by
    obtain ⟨blank, none⟩ := initial
    refine ⟨⟨⟨fun _ _ => Option.none⟩, s.last⟩, ⟨fun _ _ => rfl, none⟩, rfl, fun fd f data => ?_, fun fd record there => ?_⟩
    · simp [blank fd]
    · cases (blank fd).symm.trans there
  have keep (s : Watched epoll) (label : Option FdCall) (next : Watched epoll) (other : Watched kqueue)
      (follows : Follows s other) (step : (epoll.system.restrict naming).step s label next) :
      ∃ reached, kqueue.system.step other label reached ∧ Follows next reached := by
    obtain ⟨last, agrees, named⟩ := follows
    obtain ⟨names, step⟩ := step
    cases label with
    | none => exact step.1.elim
    | some c =>
      obtain ⟨called, recorded⟩ := step
      obtain ⟨after, followed⟩ := kqueue_call_succeeds agrees named (names c rfl) called
      refine ⟨⟨after, Function.update other.last c.fd (some c)⟩, ⟨followed, rfl⟩, ?_, agrees.call called followed,
        named.call (names c rfl) called⟩
      rw [recorded, last]
  obtain ⟨other, followed, last, agrees, _⟩ := run.followed Follows start keep
  exact ⟨other, followed, last, agrees⟩

/-- A descriptor is added for reading, and turned to writing by another task. -/
theorem kqueue_follows_epoll_turned : ∃ other : Watched kqueue, kqueue.system.Run
    [some (.add 8 3 ⟨true, false, false⟩), some (.mod 16 3 ⟨false, true, true⟩)] other ∧
      other.state.knotes 3 .write = some 16 := by
  let blank : Epoll := ⟨fun _ => none⟩
  let added : Epoll := ⟨Function.update blank.records 3 (some ⟨⟨true, false, false⟩, 8⟩)⟩
  let turned : Epoll := ⟨Function.update added.records 3 (some ⟨⟨false, true, true⟩, 16⟩)⟩
  have start : (epoll.system.restrict naming).Run [] ⟨blank, fun _ => none⟩ := .init ⟨fun _ => rfl, fun _ => rfl⟩
  have add : epoll.call blank (.add 8 3 ⟨true, false, false⟩) added := ⟨true, rfl⟩
  have mod : epoll.call added (.mod 16 3 ⟨false, true, true⟩) turned := ⟨true, rfl⟩
  have first := start.call (fun c named => by cases named; exact ⟨.read, rfl⟩) add
  have second := first.call (fun c named => by cases named; exact ⟨.write, rfl⟩) mod
  obtain ⟨other, followed, _, agrees⟩ := kqueue_follows_epoll second
  exact ⟨other, followed, (agrees 3 .write 16).mpr ⟨_, rfl, rfl, rfl⟩⟩

end HevTaskSystem
