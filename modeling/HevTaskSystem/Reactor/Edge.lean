import HevTaskSystem.Foundation.Edge
import HevTaskSystem.Reactor.Retarget

/-! epoll and kqueue with the events that they queue.

Both reactors register edge-triggered: `EPOLLET` is set for every epoll record and `EV_CLEAR`
for every knote. The readiness of the descriptors belongs to the kernel and changes at any
time. What the rest of the system needs to know of the two is stated once, and both are
shown to have it.
-/

set_option autoImplicit false

namespace HevTaskSystem

open Foundation Relation

instance : Fintype KqueueFilter := ⟨{.read, .write, .except}, fun f => by cases f <;> decide⟩

def FdCall.selects : FdCall → KqueueFilter → Bool
  | .add _ _ events, f => events.selects f
  | .mod _ _ events, f => events.selects f
  | .del _, _ => false

/-- A reactor with the readiness of the descriptors: which task the events of a kind wake,
whether such an event is queued, what the kernel does by itself, the calls with their
results, and the delivery of an event. -/
structure EdgeReactor where
  State : Type
  init : State → Prop
  level : State → Nat → KqueueFilter → Bool
  wakes : State → Nat → KqueueFilter → Addr → Prop
  queued : State → Nat → KqueueFilter → Prop
  drift : State → State → Prop
  call : State → FdCall → Bool → State → Prop
  deliver : State → Addr → State → Prop

namespace EdgeReactor

/-- A task that the descriptor wakes does not miss that it is ready. -/
def Safe (r : EdgeReactor) (s : r.State) (fd : Nat) (k : KqueueFilter) (task : Addr) : Prop :=
  r.wakes s fd k task → r.level s fd k = true → r.queued s fd k

theorem safe_of_low {r : EdgeReactor} {s : r.State} {fd : Nat} {k : KqueueFilter} (low : r.level s fd k = false)
    (task : Addr) : r.Safe s fd k task := by
  intro _ high
  rw [low] at high
  exact absurd high Bool.false_ne_true

/-- Only the delivery of an event to the task itself makes it unsafe. -/
structure Lawful (r : EdgeReactor) : Prop where
  drift : ∀ {s next fd k task}, r.drift s next → r.Safe s fd k task → r.Safe next fd k task
  drift_wakes : ∀ {s next fd k task}, r.drift s next → (r.wakes next fd k task ↔ r.wakes s fd k task)
  call : ∀ {s c ok next fd k task}, r.call s c ok next → r.Safe s fd k task → r.Safe next fd k task
  call_wakes : ∀ {s c ok next fd k task}, r.call s c ok next → fd ≠ c.fd →
    (r.wakes next fd k task ↔ r.wakes s fd k task)
  watched : ∀ {s c next k task}, r.call s c true next → c.owner = some task → c.selects k = true →
    r.wakes next c.fd k task ∧ r.Safe next c.fd k task
  deliver : ∀ {s other next fd k task}, r.deliver s other next → other ≠ task → r.Safe s fd k task →
    r.Safe next fd k task
  delivers : ∀ {s fd k task}, r.wakes s fd k task → r.queued s fd k → ∃ next, r.deliver s task next

end EdgeReactor

/-! ## epoll -/

def EpollEvent.selects (e : EpollEvent) (k : KqueueFilter) : Bool := e.events.selects k

abbrev EpollQueue := Notifier Nat KqueueFilter EpollEvent

namespace EpollQueue

def epoll (self : EpollQueue) : Epoll := ⟨self.records⟩

/-- `epoll_ctl` with its effect on the list of ready records. -/
def ctl (self : EpollQueue) (admits : Bool) (e : EpollSetup) : Bool × EpollQueue :=
  if (self.epoll.ctl admits e).1 then
    (true, if e.op = .del then self.unwatch e.fd else self.watch EpollEvent.selects e.fd e.event)
  else (false, self)

def setup (self : EpollQueue) (admits : Bool) (res : Bool) : List EpollSetup → Bool × EpollQueue
  | [] => (res, self)
  | e :: rest =>
    let (ok, self) := self.ctl admits e
    self.setup admits (res && ok) rest

variable {self next : EpollQueue} {admits ok : Bool} {e : EpollSetup}

theorem ctl_epoll (self : EpollQueue) (admits : Bool) (e : EpollSetup) :
    ((self.ctl admits e).1, (self.ctl admits e).2.epoll) = self.epoll.ctl admits e := by
  obtain ⟨op, fd, event⟩ := e
  cases op <;> cases found : self.records fd <;> cases admits <;>
    simp [ctl, Epoll.ctl, epoll, found, Notifier.watch, Notifier.unwatch]

theorem setup_epoll (self : EpollQueue) (admits res : Bool) (es : List EpollSetup) :
    ((self.setup admits res es).1, (self.setup admits res es).2.epoll) = self.epoll.setup admits res es := by
  induction es generalizing self res with
  | nil => rfl
  | cons e rest ih =>
    have step := ctl_epoll self admits e
    simp only [setup, Epoll.setup, ← step]
    exact ih _ _

theorem ctl_updates (result : self.ctl admits e = (ok, next)) :
    ReflTransGen (Notifier.Update EpollEvent.selects (· = e.fd)) self next := by
  unfold ctl at result
  split at result
  · obtain ⟨-, rfl⟩ := Prod.mk.inj result
    split
    · exact .single (.unwatch rfl)
    · exact .single (.watch rfl)
  · obtain ⟨-, rfl⟩ := Prod.mk.inj result
    exact .refl

theorem ctl_watch (result : self.ctl admits e = (true, next)) (kept : e.op ≠ .del) :
    next = self.watch EpollEvent.selects e.fd e.event := by
  rw [ctl, if_neg kept] at result
  split at result
  · exact (Prod.mk.inj result).2.symm
  · cases (Prod.mk.inj result).1

theorem setup_single (self : EpollQueue) (admits : Bool) (e : EpollSetup) :
    self.setup admits true [e] = self.ctl admits e := by
  simp [setup]

end EpollQueue

def epollEdge : EdgeReactor where
  State := EpollQueue
  init s := (∀ fd, s.records fd = none) ∧ ∀ fd, s.queued fd = false
  level s := s.level
  wakes s fd k task := ∃ e, s.records fd = some e ∧ e.selects k = true ∧ e.data = task
  queued s fd _ := s.queued fd = true
  drift := Notifier.Drift EpollEvent.selects
  call s c ok next := ∃ admits, s.setup admits true (c.gen Epoll.setupEventFdGen) = (ok, next)
  deliver s task next := ∃ fd e, s.records fd = some e ∧ s.queued fd = true ∧ e.data = task ∧ next = s.deliver fd

section Epoll

variable {s next : EpollQueue} {fd : Nat} {k : KqueueFilter} {task : Addr}

theorem epollEdge_call {c : FdCall} {ok : Bool} (called : epollEdge.call s c ok next) :
    ∃ admits e, e.fd = c.fd ∧ s.ctl admits e = (ok, next) ∧
      (∀ owner, c.owner = some owner → e.op ≠ .del ∧ e.event.data = owner ∧ ∀ k, e.event.selects k = c.selects k) := by
  obtain ⟨admits, result⟩ := called
  cases c with
  | add task fd events | mod task fd events =>
    refine ⟨admits, ⟨_, fd, ⟨events, task⟩⟩, rfl, (EpollQueue.setup_single ..).symm.trans result, ?_⟩
    rintro owner ⟨⟩
    exact ⟨ReactorOp.noConfusion, rfl, fun _ => rfl⟩
  | del fd =>
    refine ⟨admits, ⟨.del, fd, ⟨⟨false, false, false⟩, 0⟩⟩, rfl, (EpollQueue.setup_single ..).symm.trans result, ?_⟩
    rintro owner ⟨⟩

theorem epollEdge_safe : epollEdge.Safe s fd k task ↔
    s.Announced EpollEvent.selects (fun e => e.data = task) fd k := by
  constructor
  · intro safe e found owner selected high
    exact safe ⟨e, found, selected, owner⟩ high
  · rintro announced ⟨e, found, selected, owner⟩ high
    exact announced e found owner selected high

theorem epollEdge_watched {c : FdCall} (called : epollEdge.call s c true next) (owner : c.owner = some task)
    (selected : c.selects k = true) : epollEdge.wakes next c.fd k task ∧ epollEdge.Safe next c.fd k task := by
  obtain ⟨admits, e, here, result, asked⟩ := epollEdge_call called
  obtain ⟨kept, data, kinds⟩ := asked task owner
  rw [EpollQueue.ctl_watch result kept, ← here]
  exact ⟨⟨e.event, Function.update_self .., (kinds k).trans selected, data⟩, epollEdge_safe.mpr Notifier.announced_watch⟩

theorem epollEdge_safe_deliver {other : Addr} (delivered : epollEdge.deliver s other next) (different : other ≠ task)
    (safe : epollEdge.Safe s fd k task) : epollEdge.Safe next fd k task := by
  obtain ⟨there, e, found, -, owner, rfl⟩ := delivered
  refine epollEdge_safe.mpr ((epollEdge_safe.mp safe).deliver fun record found' owner' => ?_)
  cases found.symm.trans found'
  exact different (owner.symm.trans owner')

theorem epollEdge_lawful : epollEdge.Lawful where
  drift drift safe := epollEdge_safe.mpr ((epollEdge_safe.mp safe).drift drift)
  drift_wakes drift := by
    simp only [epollEdge, Notifier.Drift.records drift]
  call called safe := by
    obtain ⟨admits, e, -, result, -⟩ := epollEdge_call called
    exact epollEdge_safe.mpr ((epollEdge_safe.mp safe).updates (EpollQueue.ctl_updates result))
  call_wakes called other := by
    obtain ⟨admits, e, here, result, -⟩ := epollEdge_call called
    simp only [epollEdge, Notifier.records_of_updates (EpollQueue.ctl_updates result) (here ▸ other)]
  watched := epollEdge_watched
  deliver := epollEdge_safe_deliver
  delivers {s fd k task} wakes queued := by
    obtain ⟨e, found, -, owner⟩ := wakes
    exact ⟨_, fd, e, found, queued, owner, rfl⟩

end Epoll

/-! ## kqueue -/

abbrev KqueueQueue := Notifier (Nat × KqueueFilter) Unit Addr

namespace KqueueQueue

def selects (_ : Addr) (_ : Unit) : Bool := true

def kqueue (self : KqueueQueue) : Kqueue := ⟨fun fd f => self.records (fd, f)⟩

def change (self : KqueueQueue) (admits : KqueueFilter → Bool) (e : Kevent) : Option KqueueQueue :=
  if (self.kqueue.change admits e).isSome then
    some (if e.delete then self.unwatch (e.fd, e.filter) else self.watch selects (e.fd, e.filter) e.udata)
  else none

def kevent (self : KqueueQueue) (admits : KqueueFilter → Bool) : List Kevent → Bool × KqueueQueue
  | [] => (true, self)
  | e :: rest =>
    match self.change admits e with
    | some self => self.kevent admits rest
    | none => (false, self)

def setup (self : KqueueQueue) (admits : KqueueFilter → Bool) (res : Bool) : List Kevent → Bool × KqueueQueue
  | [] => (res, self)
  | e :: rest =>
    if ¬ e.delete then self.kevent admits (e :: rest)
    else
      let (ok, self) := self.kevent admits [e]
      self.setup admits (res || ok) rest

variable {self next : KqueueQueue} {admits : KqueueFilter → Bool} {res ok : Bool} {e : Kevent} {es : List Kevent}

theorem change_kqueue (self : KqueueQueue) (admits : KqueueFilter → Bool) (e : Kevent) :
    (self.change admits e).map kqueue = self.kqueue.change admits e := by
  have update (value : Option Addr) : kqueue { self with records := Function.update self.records (e.fd, e.filter) value } =
      ⟨Function.update self.kqueue.knotes e.fd (Function.update (self.kqueue.knotes e.fd) e.filter value)⟩ := by
    simp only [kqueue, Kqueue.mk.injEq]
    funext fd f
    by_cases here : fd = e.fd
    · subst here
      by_cases same : f = e.filter
      · simp [same]
      · simp [same]
    · simp [here]
  unfold change Kqueue.change
  by_cases delete : e.delete
  · simp only [delete, if_true]
    split
    · exact congrArg some (update none)
    · rfl
  · simp only [delete, Bool.false_eq_true, if_false]
    split
    · exact congrArg some (update (some e.udata))
    · rfl

theorem kevent_kqueue (self : KqueueQueue) (admits : KqueueFilter → Bool) (es : List Kevent) :
    ((self.kevent admits es).1, (self.kevent admits es).2.kqueue) = self.kqueue.kevent admits es := by
  induction es generalizing self with
  | nil => rfl
  | cons e rest ih =>
    have step := change_kqueue self admits e
    unfold kevent Kqueue.kevent
    cases changed : self.change admits e with
    | none =>
      rw [changed] at step
      rw [← step]
      rfl
    | some after =>
      rw [changed] at step
      rw [← step]
      exact ih after

theorem setup_kqueue (self : KqueueQueue) (admits : KqueueFilter → Bool) (res : Bool) (es : List Kevent) :
    ((self.setup admits res es).1, (self.setup admits res es).2.kqueue) = self.kqueue.setup admits res es := by
  induction es generalizing self res with
  | nil => rfl
  | cons e rest ih =>
    unfold setup Kqueue.setup
    split
    · exact kevent_kqueue ..
    · have step := kevent_kqueue self admits [e]
      simp only [← step]
      exact ih _ _

theorem change_updates {fd : Nat} (own : e.fd = fd) (result : self.change admits e = some next) :
    self.Update selects (fun i => i.1 = fd) next := by
  unfold change at result
  split at result
  · obtain rfl := Option.some.inj result
    split
    · exact .unwatch own
    · exact .watch own
  · cases result

theorem kevent_updates {fd : Nat} (own : ∀ e ∈ es, e.fd = fd) (result : self.kevent admits es = (ok, next)) :
    ReflTransGen (Notifier.Update selects (fun i => i.1 = fd)) self next := by
  induction es generalizing self with
  | nil =>
    obtain ⟨-, rfl⟩ := Prod.mk.inj result
    exact .refl
  | cons e rest ih =>
    unfold kevent at result
    cases changed : self.change admits e with
    | none =>
      rw [changed] at result
      obtain ⟨-, rfl⟩ := Prod.mk.inj result
      exact .refl
    | some after =>
      rw [changed] at result
      exact .head (change_updates (own e List.mem_cons_self) changed)
        (ih (fun e member => own e (List.mem_cons_of_mem _ member)) result)

theorem setup_updates {fd : Nat} (own : ∀ e ∈ es, e.fd = fd) (result : self.setup admits res es = (ok, next)) :
    ReflTransGen (Notifier.Update selects (fun i => i.1 = fd)) self next := by
  induction es generalizing self res with
  | nil =>
    obtain ⟨-, rfl⟩ := Prod.mk.inj result
    exact .refl
  | cons e rest ih =>
    unfold setup at result
    split at result
    · exact kevent_updates own result
    · cases first : self.kevent admits [e] with
      | mk ok' after =>
        simp only [first] at result
        refine (kevent_updates (fun e' member => ?_) first).trans
          (ih (fun e member => own e (List.mem_cons_of_mem _ member)) result)
        rw [List.mem_singleton.mp member]
        exact own e List.mem_cons_self

theorem kevent_announced {owns : Addr → Prop} {fd : Nat} {data : Addr} {fs : List KqueueFilter}
    (result : self.kevent admits (fs.map fun f => ⟨fd, f, false, data⟩) = (true, next)) {f : KqueueFilter} (member : f ∈ fs) :
    next.Announced selects owns (fd, f) () := by
  induction fs generalizing self with
  | nil => exact absurd member List.not_mem_nil
  | cons g fs ih =>
    simp only [List.map_cons, kevent] at result
    cases changed : self.change admits ⟨fd, g, false, data⟩ with
    | none =>
      rw [changed] at result
      cases (Prod.mk.inj result).1
    | some after =>
      rw [changed] at result
      rcases List.mem_cons.mp member with rfl | later
      · have added : after = self.watch selects (fd, f) data := by
          unfold change at changed
          split at changed
          · exact (Option.some.inj changed).symm
          · cases changed
        have first : after.Announced selects owns (fd, f) () := added ▸ Notifier.announced_watch
        have own : ∀ e ∈ fs.map fun f => (⟨fd, f, false, data⟩ : Kevent), e.fd = fd := by
          intro e there
          obtain ⟨f', -, rfl⟩ := List.mem_map.mp there
          rfl
        exact first.updates (kevent_updates own result)
      · exact ih result later

theorem setup_announced {owns : Addr → Prop} {c : FdCall}
    (result : self.setup admits false (c.gen Kqueue.setupEventFdGen) = (true, next)) {f : KqueueFilter}
    (selected : c.selects f = true) : next.Announced selects owns (c.fd, f) () := by
  -- Behind the deletions stand the additions, and these all succeed.
  have adds (fs : List KqueueFilter) (fd : Nat) (task : Addr) (before : KqueueQueue) (res : Bool) (member : f ∈ fs)
      (result : before.setup admits res (fs.map fun f => ⟨fd, f, false, task⟩) = (true, next)) :
      next.Announced selects owns (fd, f) () := by
    cases fs with
    | nil => exact absurd member List.not_mem_nil
    | cons g fs =>
      have whole : before.kevent admits ((g :: fs).map fun f => ⟨fd, f, false, task⟩) = (true, next) := by
        simpa [setup] using result
      exact kevent_announced whole member
  have wanted (events : PollEvents) (selected : events.selects f = true) : f ∈ Kqueue.filters.filter events.selects :=
    List.mem_filter.mpr ⟨Kqueue.mem_filters f, selected⟩
  cases c with
  | add task fd events => exact adds _ fd task self false (wanted events selected) result
  | mod task fd events =>
    have skip (ds : List KqueueFilter) (before : KqueueQueue) (res : Bool) (rest : List Kevent) :
        ∃ mid res', before.setup admits res ((ds.map fun f => ⟨fd, f, true, task⟩) ++ rest) =
          setup mid admits res' rest := by
      induction ds generalizing before res with
      | nil => exact ⟨before, res, rfl⟩
      | cons d ds ih => exact ih (before.kevent admits [⟨fd, d, true, task⟩]).2 _
    obtain ⟨mid, res', rest⟩ := skip (Kqueue.filters.filter fun f => !events.selects f) self false
      ((Kqueue.filters.filter events.selects).map fun f => ⟨fd, f, false, task⟩)
    exact adds _ fd task mid res' (wanted events selected) (rest.symm.trans result)
  | del fd => cases selected

end KqueueQueue

def kqueueEdge : EdgeReactor where
  State := KqueueQueue
  init s := (∀ i, s.records i = none) ∧ ∀ i, s.queued i = false
  level s fd k := s.level (fd, k) ()
  wakes s fd k task := s.records (fd, k) = some task
  queued s fd k := s.queued (fd, k) = true
  drift := Notifier.Drift KqueueQueue.selects
  call s c ok next := ∃ admits, s.setup admits false (c.gen Kqueue.setupEventFdGen) = (ok, next)
  deliver s task next := ∃ i, s.records i = some task ∧ s.queued i = true ∧ next = s.deliver i

section Kqueue

variable {s next : KqueueQueue} {fd : Nat} {k : KqueueFilter} {task : Addr} {c : FdCall} {ok : Bool}

theorem kqueueEdge_safe : kqueueEdge.Safe s fd k task ↔ s.Announced KqueueQueue.selects (· = task) (fd, k) () := by
  constructor
  · rintro safe record found rfl _ high
    exact safe found high
  · intro announced found high
    exact announced task found rfl rfl high

theorem FdCall.gen_fd (c : FdCall) : ∀ e ∈ c.gen Kqueue.setupEventFdGen, e.fd = c.fd := by
  intro e member
  cases c with
  | add _ _ _ | del _ =>
    obtain ⟨f, -, rfl⟩ := List.mem_map.mp member
    rfl
  | mod task fd events =>
    rcases List.mem_append.mp member with member | member
    · obtain ⟨f, -, rfl⟩ := List.mem_map.mp member
      rfl
    · obtain ⟨f, -, rfl⟩ := List.mem_map.mp member
      rfl

theorem kqueueEdge_updates (called : kqueueEdge.call s c ok next) :
    ReflTransGen (Notifier.Update KqueueQueue.selects (fun i => i.1 = c.fd)) s next := by
  obtain ⟨admits, result⟩ := called
  exact KqueueQueue.setup_updates c.gen_fd result

theorem kqueueEdge_watched (called : kqueueEdge.call s c true next) (owner : c.owner = some task)
    (selected : c.selects k = true) : kqueueEdge.wakes next c.fd k task ∧ kqueueEdge.Safe next c.fd k task := by
  obtain ⟨admits, result⟩ := called
  refine ⟨?_, kqueueEdge_safe.mpr (KqueueQueue.setup_announced result selected)⟩
  have same := KqueueQueue.setup_kqueue s admits false (c.gen Kqueue.setupEventFdGen)
  rw [result] at same
  have knote := kqueue_call ⟨admits, same.symm⟩ c.fd k
  rw [if_pos rfl] at knote
  refine knote.trans ?_
  cases c with
  | add task' fd events | mod task' fd events => exact (if_pos selected).trans owner
  | del fd => cases owner

theorem kqueueEdge_lawful : kqueueEdge.Lawful where
  drift drift safe := kqueueEdge_safe.mpr ((kqueueEdge_safe.mp safe).drift drift)
  drift_wakes drift := by
    simp only [kqueueEdge, Notifier.Drift.records drift]
  call called safe := kqueueEdge_safe.mpr ((kqueueEdge_safe.mp safe).updates (kqueueEdge_updates called))
  call_wakes {s c ok next fd k task} called other := by
    have same : next.records (fd, k) = s.records (fd, k) :=
      Notifier.records_of_updates (kqueueEdge_updates called) other
    simp only [kqueueEdge, same]
  watched := kqueueEdge_watched
  deliver {s other next fd k task} delivered different safe := by
    obtain ⟨i, found, -, rfl⟩ := delivered
    refine kqueueEdge_safe.mpr ((kqueueEdge_safe.mp safe).deliver fun record found' owner' => ?_)
    exact different ((Option.some.inj (found.symm.trans found')).trans owner')
  delivers {s fd k task} wakes queued := ⟨_, (fd, k), wakes, queued, rfl⟩

end Kqueue

inductive EdgeBuild where
  | epoll
  | kqueue
  deriving DecidableEq

def EdgeBuild.reactor : EdgeBuild → EdgeReactor
  | .epoll => epollEdge
  | .kqueue => kqueueEdge

theorem EdgeBuild.lawful (build : EdgeBuild) : build.reactor.Lawful := by
  cases build with
  | epoll => exact epollEdge_lawful
  | kqueue => exact kqueueEdge_lawful

end HevTaskSystem
