import HevTaskSystem.Reactor.Backends

/-! Which task a descriptor wakes, on each reactor.

The last call for a descriptor names the task that it should wake. An epoll record and a
kqueue knote carry that task. The node of a completion port keeps the data of the call
that added it, because the function that modifies a registration sets only its events.
-/

set_option autoImplicit false

namespace HevTaskSystem

open Foundation

def ownerOf (last : Nat → Option FdCall) (fd : Nat) : Option Addr := (last fd).bind FdCall.owner

theorem ownerOf_update (last : Nat → Option FdCall) (c : FdCall) (fd : Nat) :
    ownerOf (Function.update last c.fd (some c)) fd = if fd = c.fd then c.owner else ownerOf last fd := by
  unfold ownerOf
  by_cases here : fd = c.fd
  · simp [here]
  · simp [here]

/-! ## epoll -/

section Epoll

variable {s next : Epoll} {c : FdCall}

theorem Epoll.ctl_spec {admits : Bool} {e : EpollSetup} (result : s.ctl admits e = (true, next)) :
    next.records = Function.update s.records e.fd (if e.op = .del then none else some e.event) ∧
      (e.op = .add → s.records e.fd = none) := by
  unfold ctl at result
  split at result
  · rename_i op there
    split at result
    · cases result
      exact ⟨by simp [op], fun _ => there⟩
    · exact nomatch result
  · rename_i op there
    split at result
    · cases result
      exact ⟨by simp [op], fun add => nomatch op.symm.trans add⟩
    · exact nomatch result
  · rename_i op there
    cases result
    exact ⟨by simp [op], fun add => nomatch op.symm.trans add⟩
  · exact nomatch result

theorem epoll_call (called : epoll.call s c next) :
    (∀ fd, (next.records fd).map EpollEvent.data = if fd = c.fd then c.owner else (s.records fd).map EpollEvent.data) ∧
      ∀ task fd events, c = .add task fd events → s.records fd = none := by
  obtain ⟨admits, result⟩ := called
  have single (e : EpollSetup) (result : s.setup admits true [e] = (true, next)) : s.ctl admits e = (true, next) := by
    simpa [Epoll.setup, Prod.ext_iff] using result
  cases c with
  | add task fd events =>
    obtain ⟨records, absent⟩ := Epoll.ctl_spec (single _ result)
    refine ⟨fun other => ?_, ?_⟩
    · by_cases here : other = fd <;> simp [records, FdCall.fd, FdCall.owner, here]
    · rintro _ _ _ ⟨⟩
      exact absent rfl
  | mod task fd events | del fd =>
    obtain ⟨records, -⟩ := Epoll.ctl_spec (single _ result)
    refine ⟨fun other => ?_, nofun⟩
    by_cases here : other = fd <;> simp [records, FdCall.fd, FdCall.owner, here]

end Epoll

/-! ## kqueue -/

section Kqueue

variable {s next : Kqueue} {c : FdCall} {admits : KqueueFilter → Bool} {res : Bool}
  {fd : Nat} {data : Addr}

theorem Kqueue.kevent_adds (fs : List KqueueFilter)
    (result : s.kevent admits (fs.map fun f => ⟨fd, f, false, data⟩) = (true, next)) (other : Nat) (f : KqueueFilter) :
    next.knotes other f = if other = fd ∧ f ∈ fs then some data else s.knotes other f := by
  induction fs generalizing s with
  | nil =>
    cases result
    simp
  | cons g fs ih =>
    cases admitted : admits g with
    | false => simp [kevent, change, admitted] at result
    | true =>
      simp only [List.map_cons, kevent, change, admitted, if_true, Bool.false_eq_true, if_false] at result
      rw [ih result]
      by_cases here : other = fd
      · subst here
        by_cases same : f = g
        · simp [same]
        · simp [same]
      · simp [here]

theorem Kqueue.setup_deletes (s : Kqueue) (admits : KqueueFilter → Bool) (fd : Nat) (data : Addr)
    (fs : List KqueueFilter) (res : Bool) (rest : List Kevent) :
    ∃ (mid : Kqueue) (res' : Bool),
      s.setup admits res ((fs.map fun f => ⟨fd, f, true, data⟩) ++ rest) = mid.setup admits res' rest ∧
      ∀ other f, mid.knotes other f = if other = fd ∧ f ∈ fs then none else s.knotes other f := by
  induction fs generalizing s res with
  | nil => exact ⟨s, res, rfl, fun other f => by simp⟩
  | cons g fs ih =>
    -- the deletion of this filter succeeds or finds no knote
    have deleted : ∃ (ok : Bool) (mid : Kqueue), s.kevent admits [⟨fd, g, true, data⟩] = (ok, mid) ∧
        ∀ other f, mid.knotes other f = if other = fd ∧ f = g then none else s.knotes other f := by
      cases there : s.knotes fd g with
      | none =>
        refine ⟨false, s, by simp [kevent, change, there], fun other f => ?_⟩
        split
        · rename_i here
          rw [here.1, here.2, there]
        · rfl
      | some data =>
        refine ⟨true, ⟨Function.update s.knotes fd (Function.update (s.knotes fd) g none)⟩,
          by simp [kevent, change, there], fun other f => ?_⟩
        by_cases here : other = fd
        · subst here
          by_cases same : f = g <;> simp [same]
        · simp [here]
    obtain ⟨ok, first, step, knotes⟩ := deleted
    obtain ⟨mid, res', rest, final⟩ := ih first (res || ok)
    refine ⟨mid, res', ?_, fun other f => ?_⟩
    · rw [← rest]
      simp [setup, step]
    · rw [final, knotes]
      by_cases here : other = fd
      · by_cases same : f = g <;> simp [here, same]
      · simp [here]

theorem Kqueue.setup_adds (fs : List KqueueFilter)
    (result : s.setup admits res (fs.map fun f => ⟨fd, f, false, data⟩) = (true, next)) (other : Nat) (f : KqueueFilter) :
    next.knotes other f = if other = fd ∧ f ∈ fs then some data else s.knotes other f := by
  cases fs with
  | nil =>
    cases result
    simp
  | cons g fs => exact kevent_adds (g :: fs) (by simpa [setup] using result) other f

theorem Kqueue.mem_filters (f : KqueueFilter) : f ∈ filters := by
  cases f <;> decide

/-- What a call does to a knote of its descriptor: it carries the task or is removed; an
addition keeps the knotes that it does not name. -/
def FdCall.knote (c : FdCall) (f : KqueueFilter) (before : Option Addr) : Option Addr :=
  match c with
  | .add task _ events => if events.selects f then some task else before
  | .mod task _ events => if events.selects f then some task else none
  | .del _ => none

theorem kqueue_call (called : kqueue.call s c next) (other : Nat) (f : KqueueFilter) :
    next.knotes other f = if other = c.fd then c.knote f (s.knotes other f) else s.knotes other f := by
  obtain ⟨admits, result⟩ := called
  cases c with
  | add task fd events =>
    rw [Kqueue.setup_adds _ result other f]
    by_cases here : other = fd <;> simp [FdCall.fd, FdCall.knote, here, Kqueue.mem_filters]
  | mod task fd events =>
    obtain ⟨mid, res, rest, deleted⟩ := Kqueue.setup_deletes s admits fd task
      (Kqueue.filters.filter fun f => !events.selects f) false
      ((Kqueue.filters.filter events.selects).map fun f => ⟨fd, f, false, task⟩)
    rw [Kqueue.setup_adds _ (rest.symm.trans result) other f, deleted]
    by_cases here : other = fd
    · cases wanted : events.selects f <;> simp [FdCall.fd, FdCall.knote, here, Kqueue.mem_filters, wanted]
    · simp [FdCall.fd, here]
  | del fd =>
    obtain ⟨mid, res, rest, deleted⟩ := Kqueue.setup_deletes s admits fd 0
      (Kqueue.filters.filter fun f => !(⟨false, false, false⟩ : PollEvents).selects f) false []
    rw [List.append_nil] at rest
    have same : mid = next := (Prod.mk.inj (rest.symm.trans result)).2
    have unwanted : (⟨false, false, false⟩ : PollEvents).selects f = false := by cases f <;> rfl
    rw [← same, deleted]
    by_cases here : other = fd <;> simp [FdCall.fd, FdCall.knote, here, Kqueue.mem_filters, unwanted]

end Kqueue

/-! ## The completion port -/

section Iocp

open IocpReactor

variable {token : Nat → Nat} {s next : IocpReactor} {last : Nat → Option FdCall} {c : FdCall}

/-- The node of a descriptor carries the task that the descriptor should wake. -/
structure IocpOwned (token : Nat → Nat) (s : IocpReactor) (last : Nat → Option FdCall) : Prop where
  inv : ∃ order, s.Inv order
  data : ∀ n node fd, s.nodes n = some node → node.handle = token fd → ownerOf last fd = some node.data

/-- A descriptor is modified only by the task whose data its node carries. -/
def Own (token : Nat → Nat) (s : IocpReactor) : FdCall → Prop
  | .mod task fd _ => ∀ n node, s.nodes n = some node → node.handle = token fd → node.data = task
  | _ => True

theorem IocpOwned.other (owned : IocpOwned token s last) {n : Addr} {node : IocpNode} {fd : Nat}
    (there : s.nodes n = some node) (handle : node.handle = token fd) (apart : fd ≠ c.fd) :
    ownerOf (Function.update last c.fd (some c)) fd = some node.data := by
  rw [ownerOf_update, if_neg apart]
  exact owned.data n node fd there handle

theorem IocpOwned.blank (initial : (iocp token).init s) : IocpOwned token s last := by
  obtain ⟨root, nodes, pending, queue⟩ := initial
  exact ⟨⟨[], .blank root nodes pending queue⟩, fun n node fd there => nomatch (nodes n).symm.trans there⟩

theorem IocpOwned.call (injective : Function.Injective token) (owned : IocpOwned token s last) (own : Own token s c)
    (called : (iocp token).call s c next) : IocpOwned token next (Function.update last c.fd (some c)) := by
  obtain ⟨order, inv⟩ := owned.inv
  obtain ⟨answers, ready, fuel, result⟩ := called
  obtain ⟨after, effect⟩ := inv.effect ready result
  refine ⟨after, ?_⟩
  have same (fd : Nat) (here : fd = c.fd) : ownerOf (Function.update last c.fd (some c)) fd = c.owner := by
    rw [ownerOf_update, if_pos here]
  cases c with
  | add task fd events =>
    cases effect with
    | add adds =>
      cases adds with
      | @again n node _ there handle kind waitable nodes =>
        intro m other fd' stored named
        rw [nodes, Function.update_apply] at stored
        split at stored
        · cases stored
          exact same fd' (injective (named.symm.trans handle))
        · rename_i apart
          refine owned.other stored named fun here => apart (inv.unique stored there ?_)
          rw [handle, named, here]
          rfl
      | new free absent own nodes =>
        intro m other fd' stored named
        rw [nodes, Function.update_apply] at stored
        split at stored
        · cases stored
          exact same fd' (injective named.symm)
        · refine owned.other stored named fun here => absent m other stored ?_
          rw [named, here]
          rfl
  | mod task fd events =>
    cases effect with
    | mod unchanged =>
      intro m other fd' stored named
      rw [unchanged] at stored
      by_cases here : fd' = fd
      · subst here
        rw [same fd' rfl, own m other stored named]
        rfl
      · exact owned.other stored named here
  | del fd =>
    cases effect with
    | del deletes =>
      cases deletes with
      | @deleted n node there handle nodes =>
        intro m other fd' stored named
        rw [nodes, Function.update_apply] at stored
        split at stored
        · exact nomatch stored
        · rename_i apart
          refine owned.other stored named fun here => apart (inv.unique stored there ?_)
          rw [handle, named, here]
          rfl

theorem IocpOwned.armed (owned : IocpOwned token s last) {m : Addr} {old : IocpNode} {armed : Bool}
    (stored : s.nodes m = some old)
    (nodes : next.nodes = Function.update s.nodes m (some { old with armed := armed })) :
    ∀ n node fd, next.nodes n = some node → node.handle = token fd → ownerOf last fd = some node.data := by
  intro n node fd there named
  rw [nodes, Function.update_apply] at there
  split at there
  · cases there
    exact owned.data m old fd stored named
  · exact owned.data n node fd there named

theorem IocpOwned.turn (owned : IocpOwned token s last) (turn : (iocp token).turn s next) : IocpOwned token next last := by
  obtain ⟨order, inv⟩ := owned.inv
  rcases turn with ⟨answers, result, waited⟩ | ⟨c, pending, rfl⟩
  · obtain ⟨expected, reply, returns, kept, waits⟩ := inv.wait_spec answers
    cases waited.symm.trans returns
    refine ⟨⟨order, kept⟩, ?_⟩
    cases waits with
    | timeout _ nodes => exact fun n node fd there => owned.data n node fd (nodes ▸ there)
    | handle _ stored _ nodes | socket _ stored _ nodes _ => exact owned.armed stored nodes
  · exact ⟨⟨order, inv.signal_spec pending⟩, owned.data⟩

theorem IocpOwned.delivers (owned : IocpOwned token s last) {fd : Nat} {data : Addr}
    (delivered : (iocp token).delivers s fd data) : ownerOf last fd = some data := by
  obtain ⟨order, inv⟩ := owned.inv
  obtain ⟨answers, next, n, events, node, waited, there, handle⟩ := delivered
  obtain ⟨expected, reply, returns, -, waits⟩ := inv.wait_spec answers
  cases waited.symm.trans returns
  have carried : node.data = data := by
    cases waits with
    | handle _ stored =>
      cases stored.symm.trans there
      rfl
    | socket _ stored _ _ reply =>
      obtain ⟨events, same⟩ := reply.resolve_left nofun
      cases same
      cases stored.symm.trans there
      rfl
  exact carried ▸ owned.data n node fd there handle

end Iocp

/-! ## All of them -/

/-- The records of epoll carry the owners, and there is one exactly when there is an owner. -/
def EpollOwned (s : Epoll) (last : Nat → Option FdCall) : Prop :=
  ∀ fd, (s.records fd).map EpollEvent.data = ownerOf last fd

theorem EpollOwned.call {s next : Epoll} {last : Nat → Option FdCall} {c : FdCall} (owned : EpollOwned s last)
    (called : epoll.call s c next) : EpollOwned next (Function.update last c.fd (some c)) := by
  intro fd
  rw [ownerOf_update, (epoll_call called).1, owned fd]

def KqueueOwned (s : Kqueue) (last : Nat → Option FdCall) : Prop :=
  ∀ fd f data, s.knotes fd f = some data → ownerOf last fd = some data

theorem KqueueOwned.call {s next : Kqueue} {last : Nat → Option FdCall} {c : FdCall} (owned : KqueueOwned s last)
    (fresh : ∀ task fd events, c = .add task fd events → ownerOf last fd = none) (called : kqueue.call s c next) :
    KqueueOwned next (Function.update last c.fd (some c)) := by
  intro fd f data there
  rw [kqueue_call called] at there
  rw [ownerOf_update]
  split at there
  · rename_i here
    rw [if_pos here]
    cases c with
    | add task fd' events =>
      simp only [FdCall.knote] at there
      split at there
      · exact there
      · have none := fresh task fd' events rfl
        rw [← show fd = fd' from here, owned fd f data there] at none
        exact nomatch none
    | mod task fd' events =>
      simp only [FdCall.knote] at there
      split at there
      · exact there
      · exact nomatch there
    | del fd' => exact nomatch there
  · rename_i apart
    rw [if_neg apart]
    exact owned fd f data there

/-- The knotes of a descriptor that was modified carry the task that modified it. -/
def KqueueRetargeted (s : Kqueue) (last : Nat → Option FdCall) : Prop :=
  ∀ fd task events, last fd = some (.mod task fd events) → ∀ f data, s.knotes fd f = some data → data = task

theorem KqueueRetargeted.call {s next : Kqueue} {last : Nat → Option FdCall} {c : FdCall}
    (retargeted : KqueueRetargeted s last) (called : kqueue.call s c next) :
    KqueueRetargeted next (Function.update last c.fd (some c)) := by
  intro fd task events modified f data there
  rw [kqueue_call called] at there
  by_cases here : fd = c.fd
  · rw [here, Function.update_self, Option.some.injEq] at modified
    rw [if_pos here, modified, FdCall.knote] at there
    split at there
    · exact (Option.some.inj there).symm
    · exact nomatch there
  · rw [Function.update_of_ne here] at modified
    rw [if_neg here] at there
    exact retargeted fd task events modified f data there

/-- What holds without calls, and is kept by the allowed calls and by the turns, holds in every
state of a run. -/
theorem Reactor.invariant {r : Reactor} {allowed : Watched r → Option FdCall → Prop}
    {labels : List (Option FdCall)} {s : Watched r} (inv : r.State → (Nat → Option FdCall) → Prop)
    (start : ∀ state last, r.init state → (∀ fd, last fd = none) → inv state last)
    (call : ∀ state last c next, inv state last → allowed ⟨state, last⟩ (some c) → r.call state c next →
      inv next (Function.update last c.fd (some c)))
    (turn : ∀ state last next, inv state last → r.turn state next → inv next last)
    (run : (r.system.restrict allowed).Run labels s) : inv s.state s.last := by
  refine run.invariant (fun s => inv s.state s.last) ?_ ?_
  · exact fun s initial => start s.state s.last initial.1 initial.2
  · rintro s (_ | c) next owned ⟨permitted, step, last⟩
    · rw [last]
      exact turn s.state s.last next.state owned step
    · rw [last]
      exact call s.state s.last c next.state owned permitted step

theorem Foundation.System.Run.call {r : Reactor} {allowed : Watched r → Option FdCall → Prop}
    {labels : List (Option FdCall)} {s : Watched r} {c : FdCall} {next : r.State}
    (run : (r.system.restrict allowed).Run labels s) (permitted : allowed s (some c)) (called : r.call s.state c next) :
    (r.system.restrict allowed).Run (labels ++ [some c]) ⟨next, Function.update s.last c.fd (some c)⟩ :=
  run.step ⟨permitted, called, rfl⟩

theorem ownerOf_none {last : Nat → Option FdCall} (none : ∀ fd, last fd = none) (fd : Nat) :
    ownerOf last fd = Option.none := by
  simp [ownerOf, none fd]

theorem ownerOf_mod {last : Nat → Option FdCall} {fd : Nat} {task data : Addr} {events : PollEvents}
    (modified : last fd = some (.mod task fd events)) (owner : ownerOf last fd = some data) : data = task := by
  simp only [ownerOf, modified, Option.bind_some, FdCall.owner, Option.some.injEq] at owner
  exact owner.symm

structure AllOwned (token : Nat → Nat) (s : Epoll × Kqueue × IocpReactor) (last : Nat → Option FdCall) : Prop where
  epoll : EpollOwned s.1 last
  kqueue : KqueueOwned s.2.1 last
  iocp : IocpOwned token s.2.2 last

theorem AllOwned.call {token : Nat → Nat} (injective : Function.Injective token)
    {s next : Epoll × Kqueue × IocpReactor} {last : Nat → Option FdCall} {c : FdCall} (owned : AllOwned token s last)
    (own : Own token s.2.2 c) (called : (HevTaskSystem.epoll.both (HevTaskSystem.kqueue.both
      (HevTaskSystem.iocp token))).call s c next) : AllOwned token next (Function.update last c.fd (some c)) := by
  obtain ⟨first, second, third⟩ := called
  refine ⟨owned.epoll.call first, owned.kqueue.call (fun task fd events added => ?_) second,
    owned.iocp.call injective own third⟩
  -- epoll refuses to add a descriptor twice, so the knotes of an earlier owner are gone
  rw [← owned.epoll fd, (epoll_call first).2 task fd events added]
  rfl

theorem AllOwned.turn {token : Nat → Nat} {s next : Epoll × Kqueue × IocpReactor} {last : Nat → Option FdCall}
    (owned : AllOwned token s last) (turn : (HevTaskSystem.epoll.both (HevTaskSystem.kqueue.both
      (HevTaskSystem.iocp token))).turn s next) : AllOwned token next last := by
  obtain ⟨records, knotes, port⟩ := next
  rcases turn with ⟨none, -⟩ | ⟨rfl, ⟨none, -⟩ | ⟨rfl, turn⟩⟩
  · exact none.elim
  · exact none.elim
  · exact ⟨owned.epoll, owned.kqueue, owned.iocp.turn turn⟩

theorem AllOwned.delivers {token : Nat → Nat} {s : Epoll × Kqueue × IocpReactor} {last : Nat → Option FdCall}
    (owned : AllOwned token s last) {fd : Nat} {data : Addr} (delivered : (HevTaskSystem.epoll.both
      (HevTaskSystem.kqueue.both (HevTaskSystem.iocp token))).delivers s fd data) : ownerOf last fd = some data := by
  rcases delivered with ⟨record, there, rfl⟩ | ⟨f, there⟩ | delivered
  · rw [← owned.epoll fd, there]
    rfl
  · exact owned.kqueue fd f data there
  · exact owned.iocp.delivers delivered

/-- Task 100 adds the descriptor 1, whose event is already signaled; then any task may
modify it, and the event still carries task 100. -/
theorem iocp_added : ∃ s, (iocp id).call ⟨RBTree.blank, fun _ => none, [], []⟩ (.add 100 1 ⟨true, false, false⟩) s ∧
    (∀ task, (iocp id).call s (.mod task 1 ⟨true, false, false⟩) s) ∧ Own id s (.mod 100 1 ⟨true, false, false⟩) ∧
    (iocp id).delivers s 1 100 := by
  have fresh : (IocpOp.add ⟨1, 9, 100⟩ ⟨4, true, 7, true, 9, .signaled⟩).Ready ⟨RBTree.blank, fun _ => none, [], []⟩ :=
    ⟨fun _ => ⟨by decide, rfl⟩, nofun⟩
  refine ⟨_, ⟨⟨4, true, 7, true, 9, .signaled⟩, fresh, 2, rfl⟩, fun task => ?_, fun n node there _ => ?_, ?_⟩
  · exact ⟨⟨4, true, 7, true, 9, .signaled⟩, trivial, 2, rfl⟩
  · by_cases here : n = 4
    · subst here
      cases there
      rfl
    · simp [here, IocpReactor.setNode] at there
  · exact ⟨⟨true, some 1, .waiting⟩, _, 4, 1, ⟨1, 100, 7, 9, true⟩, rfl, rfl, rfl⟩

/-- After a descriptor was modified, epoll and kqueue deliver its events to the task that
modified it. So does the completion port if that task also added the descriptor, and then
the three agree on the task that each descriptor wakes. -/
theorem mod_fd_retargets (token : Nat → Nat) (injective : Function.Injective token) :
    (∀ labels s, epoll.system.Run labels s → epoll.Retargets s) ∧
    (∀ labels s, kqueue.system.Run labels s → kqueue.Retargets s) ∧
    (∀ labels s, ((iocp token).system.restrict fun s label => ∀ c, label = some c → Own token s.state c).Run labels s →
      (iocp token).Retargets s) ∧
    (∀ labels s, ((epoll.both (kqueue.both (iocp token))).system.restrict fun s label =>
        ∀ c, label = some c → Own token s.state.2.2 c).Run labels s →
      ∀ fd data, (epoll.both (kqueue.both (iocp token))).delivers s.state fd data → ownerOf s.last fd = some data) := by
  refine ⟨fun labels s run => ?_, fun labels s run => ?_, fun labels s run => ?_, fun labels s run => ?_⟩
  · have owned : EpollOwned s.state s.last := by
      refine Reactor.invariant EpollOwned ?_ ?_ nofun run.restrict_true
      · intro state last empty none fd
        rw [empty fd, ownerOf_none none]
        rfl
      · exact fun _ _ _ _ owned _ called => owned.call called
    rintro fd task events modified _ ⟨record, there, rfl⟩
    refine ownerOf_mod modified ?_
    rw [← owned fd, there]
    rfl
  · have owned : KqueueRetargeted s.state s.last := by
      refine Reactor.invariant KqueueRetargeted ?_ ?_ nofun run.restrict_true
      · exact fun state last _ none fd task events modified => nomatch (none fd).symm.trans modified
      · exact fun _ _ _ _ owned _ called => owned.call called
    exact fun fd task events modified data ⟨f, there⟩ => owned fd task events modified f data there
  · have owned : IocpOwned token s.state s.last := by
      refine Reactor.invariant (IocpOwned token) ?_ ?_ ?_ run
      · exact fun state last initial _ => .blank initial
      · exact fun _ _ _ _ owned own called => owned.call injective (own _ rfl) called
      · exact fun _ _ _ owned turn => owned.turn turn
    exact fun fd task events modified data delivered => ownerOf_mod modified (owned.delivers delivered)
  · have owned : AllOwned token s.state s.last := by
      refine Reactor.invariant (AllOwned token) ?_ ?_ ?_ run
      · rintro state last ⟨records, knotes, initial⟩ none
        refine ⟨fun fd => ?_, fun fd f data there => ?_, .blank initial⟩
        · rw [records fd, ownerOf_none none]
          rfl
        · exact nomatch (knotes fd f).symm.trans there
      · exact fun _ _ _ _ owned own called => owned.call injective (own _ rfl) called
      · exact fun _ _ _ owned turn => owned.turn turn
    exact fun fd data delivered => owned.delivers delivered

/-- A descriptor that task 100 added and modifies itself. -/
theorem mod_fd_retargets_own :
    ∃ labels s, ((iocp id).system.restrict fun s label => ∀ c, label = some c → Own id s.state c).Run labels s ∧
      (iocp id).Retargets s ∧ s.last 1 = some (.mod 100 1 ⟨true, false, false⟩) ∧ (iocp id).delivers s.state 1 100 := by
  obtain ⟨s, added, modified, own, delivered⟩ := iocp_added
  have start : ((iocp id).system.restrict fun s label => ∀ c, label = some c → Own id s.state c).Run []
      ⟨⟨RBTree.blank, fun _ => none, [], []⟩, fun _ => none⟩ := .init ⟨⟨rfl, fun _ => rfl, rfl, rfl⟩, fun _ => rfl⟩
  have first := start.call (by rintro _ ⟨⟩; exact trivial) added
  have second := first.call (by rintro _ ⟨⟩; exact own) (modified 100)
  exact ⟨_, _, second, (mod_fd_retargets id Function.injective_id).2.2.1 _ _ second, rfl, delivered⟩

/-- Task 100 adds the descriptor 1 and task 200 modifies it; the completion port still
delivers its event to task 100. -/
theorem iocp_mod_keeps_data :
    ∃ labels s, (iocp id).system.Run labels s ∧ s.last 1 = some (.mod 200 1 ⟨true, false, false⟩) ∧
      (iocp id).delivers s.state 1 100 := by
  obtain ⟨s, added, modified, -, delivered⟩ := iocp_added
  have start : (iocp id).system.Run [] ⟨⟨RBTree.blank, fun _ => none, [], []⟩, fun _ => none⟩ :=
    .init ⟨⟨rfl, fun _ => rfl, rfl, rfl⟩, fun _ => rfl⟩
  have first := start.restrict_true.call trivial added
  have second := first.call trivial (modified 200)
  exact ⟨_, _, second.of_restrict, rfl, delivered⟩

end HevTaskSystem
