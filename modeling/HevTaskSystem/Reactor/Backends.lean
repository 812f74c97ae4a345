import HevTaskSystem.Reactor.IocpSystem

/-! The epoll, kqueue and completion port reactors under one interface.

A task adds, modifies and deletes a descriptor; each reactor turns the call into the
requests of its own system facility. The facilities behave as documented: a descriptor
has one epoll record, a knote per kqueue filter, and a node with a wait completion packet
at a completion port. Only successful calls are steps here.
-/

set_option autoImplicit false

namespace HevTaskSystem

open Foundation

structure PollEvents where
  pollin : Bool
  pollout : Bool
  pollerr : Bool
  deriving DecidableEq

inductive FdCall where
  | add (task : Addr) (fd : Nat) (events : PollEvents)
  | mod (task : Addr) (fd : Nat) (events : PollEvents)
  | del (fd : Nat)
  deriving DecidableEq

inductive ReactorOp where
  | add
  | mod
  | del
  deriving DecidableEq

namespace FdCall

def fd : FdCall → Nat
  | .add _ fd _ => fd
  | .mod _ fd _ => fd
  | .del fd => fd

def owner : FdCall → Option Addr
  | .add task _ _ => some task
  | .mod task _ _ => some task
  | .del _ => none

/-- The functions `hev_task_add_fd`, `hev_task_mod_fd` and `hev_task_del_fd`, up to the
requests that they hand to the reactor. -/
def gen {α : Type} (setupEventFdGen : Nat → ReactorOp → PollEvents → Addr → α) : FdCall → α
  | .add task fd events => setupEventFdGen fd .add events task
  | .mod task fd events => setupEventFdGen fd .mod events task
  | .del fd => setupEventFdGen fd .del ⟨false, false, false⟩ 0

end FdCall

/-- A reactor: its successful calls, its other steps, and the data of the events that it can
deliver for a descriptor. -/
structure Reactor where
  State : Type
  init : State → Prop
  call : State → FdCall → State → Prop
  turn : State → State → Prop
  delivers : State → Nat → Addr → Prop

structure Watched (r : Reactor) where
  state : r.State
  last : Nat → Option FdCall

namespace Reactor

def system (r : Reactor) : System (Watched r) (Option FdCall) where
  init s := r.init s.state ∧ ∀ fd, s.last fd = none
  step s label next :=
    match label with
    | some c => r.call s.state c next.state ∧ next.last = Function.update s.last c.fd (some c)
    | none => r.turn s.state next.state ∧ next.last = s.last

/-- After a descriptor was modified, its events carry the task that modified it. -/
def Retargets (r : Reactor) (s : Watched r) : Prop :=
  ∀ fd task events, s.last fd = some (.mod task fd events) → ∀ data, r.delivers s.state fd data → data = task

def both (first second : Reactor) : Reactor where
  State := first.State × second.State
  init s := first.init s.1 ∧ second.init s.2
  call s c next := first.call s.1 c next.1 ∧ second.call s.2 c next.2
  turn s next := first.turn s.1 next.1 ∧ next.2 = s.2 ∨ next.1 = s.1 ∧ second.turn s.2 next.2
  delivers s fd data := first.delivers s.1 fd data ∨ second.delivers s.2 fd data

end Reactor

/-! ## epoll -/

structure EpollEvent where
  events : PollEvents
  data : Addr
  deriving DecidableEq

structure EpollSetup where
  op : ReactorOp
  fd : Nat
  event : EpollEvent
  deriving DecidableEq

/-- The record of each descriptor. Every record is edge-triggered. -/
structure Epoll where
  records : Nat → Option EpollEvent

namespace Epoll

def setupEventFdGen (fd : Nat) (op : ReactorOp) (events : PollEvents) (data : Addr) : List EpollSetup :=
  [⟨op, fd, ⟨events, data⟩⟩]

/-- `epoll_ctl`: whether it succeeds, with `admits` for errors other than a record that is
there or not. -/
def ctl (self : Epoll) (admits : Bool) (e : EpollSetup) : Bool × Epoll :=
  match e.op, self.records e.fd with
  | .add, none => if admits then (true, ⟨Function.update self.records e.fd (some e.event)⟩) else (false, self)
  | .mod, some _ => if admits then (true, ⟨Function.update self.records e.fd (some e.event)⟩) else (false, self)
  | .del, some _ => (true, ⟨Function.update self.records e.fd none⟩)
  | _, _ => (false, self)

/-- `hev_task_io_reactor_setup` over epoll; `res |= …` fails when one request fails. -/
def setup (self : Epoll) (admits : Bool) (res : Bool) : List EpollSetup → Bool × Epoll
  | [] => (res, self)
  | e :: rest =>
    let (ok, self) := self.ctl admits e
    self.setup admits (res && ok) rest

end Epoll

def epoll : Reactor where
  State := Epoll
  init s := ∀ fd, s.records fd = none
  call s c next := ∃ admits, s.setup admits true (c.gen Epoll.setupEventFdGen) = (true, next)
  turn _ _ := False
  delivers s fd data := ∃ record, s.records fd = some record ∧ record.data = data

/-! ## kqueue -/

inductive KqueueFilter where
  | read
  | write
  | except
  deriving DecidableEq

structure Kevent where
  fd : Nat
  filter : KqueueFilter
  delete : Bool
  udata : Addr
  deriving DecidableEq

/-- The user data of the knote of each descriptor and filter. -/
structure Kqueue where
  knotes : Nat → KqueueFilter → Option Addr

def PollEvents.selects (events : PollEvents) : KqueueFilter → Bool
  | .read => events.pollin
  | .write => events.pollout
  | .except => events.pollerr

namespace Kqueue

def filters : List KqueueFilter := [.read, .write, .except]

/-- `hev_task_io_reactor_setup_event_fd_gen` over kqueue: other than for an addition the
filters that are not wanted are deleted first. -/
def setupEventFdGen (fd : Nat) (op : ReactorOp) (events : PollEvents) (data : Addr) : List Kevent :=
  let deletes := (filters.filter fun f => !events.selects f).map fun f => ⟨fd, f, true, data⟩
  let adds := (filters.filter events.selects).map fun f => ⟨fd, f, false, data⟩
  match op with
  | .add => adds
  | .mod => deletes ++ adds
  | .del => deletes

/-- One change: a deletion needs the knote, and `EV_ADD` makes it or replaces its data,
unless the system refuses the filter. -/
def change (self : Kqueue) (admits : KqueueFilter → Bool) (e : Kevent) : Option Kqueue :=
  if e.delete then
    if (self.knotes e.fd e.filter).isSome then
      some ⟨Function.update self.knotes e.fd (Function.update (self.knotes e.fd) e.filter none)⟩
    else none
  else if admits e.filter then
    some ⟨Function.update self.knotes e.fd (Function.update (self.knotes e.fd) e.filter (some e.udata))⟩
  else none

/-- `kevent` with changes only: it stops at the first error. -/
def kevent (self : Kqueue) (admits : KqueueFilter → Bool) : List Kevent → Bool × Kqueue
  | [] => (true, self)
  | e :: rest =>
    match self.change admits e with
    | some self => self.kevent admits rest
    | none => (false, self)

/-- `hev_task_io_reactor_setup` over kqueue; `res &= …` fails when all deletions fail. -/
def setup (self : Kqueue) (admits : KqueueFilter → Bool) (res : Bool) : List Kevent → Bool × Kqueue
  | [] => (res, self)
  | e :: rest =>
    if ¬ e.delete then self.kevent admits (e :: rest)
    else
      let (ok, self) := self.kevent admits [e]
      self.setup admits (res || ok) rest

end Kqueue

def kqueue : Reactor where
  State := Kqueue
  init s := ∀ fd f, s.knotes fd f = none
  call s c next := ∃ admits, s.setup admits false (c.gen Kqueue.setupEventFdGen) = (true, next)
  turn _ _ := False
  delivers s fd data := ∃ f, s.knotes fd f = some data

/-! ## The completion port -/

/-- `FD_READ | FD_ACCEPT`, `FD_WRITE | FD_CONNECT` and `FD_CLOSE`. -/
def PollEvents.network (events : PollEvents) : Nat :=
  (if events.pollin then 1 ||| 8 else 0) ||| (if events.pollout then 2 ||| 16 else 0) |||
    (if events.pollerr then 32 else 0)

/-- `hev_task_io_reactor_setup_event_fd_gen` over a completion port, with the operation that
`hev_task_io_reactor_setup` chooses. -/
def IocpOp.setupEventFdGen (token : Nat → Nat) (answers : AddAnswers) (fd : Nat) (op : ReactorOp) (events : PollEvents)
    (data : Addr) : IocpOp :=
  match op with
  | .add => .add ⟨token fd, events.network, data⟩ answers
  | .mod => .mod ⟨token fd, events.network, data⟩ answers.socket answers.select
  | .del => .del ⟨token fd, events.network, data⟩

/-- The completion port, where `token` is the handle of each descriptor. Between calls it is
signaled and waits. -/
def iocp (token : Nat → Nat) : Reactor where
  State := IocpReactor
  init s := s.tree.root = 0 ∧ (∀ n, s.nodes n = none) ∧ s.pending = [] ∧ s.queue = []
  call s c next := ∃ answers, (c.gen (IocpOp.setupEventFdGen token answers)).Ready s ∧
    ∃ fuel, (c.gen (IocpOp.setupEventFdGen token answers)).apply fuel s = some (next, .code 0)
  turn s next := (∃ answers result, s.wait answers = some (next, result)) ∨ ∃ c ∈ s.pending, next = s.signal c
  delivers s fd data := ∃ answers next n events node, s.wait answers = some (next, .event n data events) ∧
    s.nodes n = some node ∧ node.handle = token fd

end HevTaskSystem
