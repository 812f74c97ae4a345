import HevTaskSystem.Io.Machine
import HevTaskSystem.Io.Mmsg
import HevTaskSystem.Io.Splice

/-! The I/O functions, from one action to the next.

Most of them repeat one system call while it fails with `EAGAIN`, and yield in between. The
loops are those of the modules for each function; here their passes are cut at the yield,
where the task sleeps. `hev_task_io_splice` makes up to four system calls in a pass, and
`hev_task_io_poll` registers its descriptors and yields before it looks at them.
-/

set_option autoImplicit false

namespace HevTaskSystem

open Foundation Relay

/-! ## Functions that repeat one system call -/

/-- Answers of a system call: whether the call is to be repeated, and the answer with what the
yielder returns. -/
class Repeats (α : Type) where
  again : α → Bool
  aborted : α → Bool → α

instance : Repeats IoAnswer where
  again
    | .again _ => true
    | _ => false
  aborted
    | .again _, abort => .again abort
    | answer, _ => answer

instance : Repeats RecvmsgAnswer where
  again answer := Repeats.again answer.io
  aborted answer abort := { answer with io := Repeats.aborted answer.io abort }

instance : Repeats MmsgAnswer where
  again
    | .again _ => true
    | _ => false
  aborted
    | .again _, abort => .again abort
    | answer, _ => answer

inductive RetryPc (σ α : Type) where
  | calling (s : σ)
  | yielding (s : σ) (answer : α)

section Retry

variable {σ α ρ : Type} [Repeats α]

/-- After a system call. If the loop `waits`, it yields when the call failed with `EAGAIN`. -/
def RetryPc.called (waits : Bool) (pass : σ → α → Flow σ ρ) (s : σ) (a : α) : Flow (RetryPc σ α) ρ :=
  if waits && Repeats.again a then .next (.yielding s a) else (pass s a).map .calling id

def RetryPc.resumed (pass : σ → α → Flow σ ρ) (s : σ) (a : α) (abort : Bool) : Flow (RetryPc σ α) ρ :=
  (pass s (Repeats.aborted a abort)).map .calling id

/-- A failure with `EAGAIN` tells that the descriptor is not ready. -/
def Repeats.denies (fd : Nat) (k : KqueueFilter) (a : α) : List Interest :=
  if Repeats.again a then [(fd, k)] else []

def IoMachine.retry (fd : Nat) (k : KqueueFilter) (waits : Bool) (start : σ) (pass : σ → α → Flow σ ρ) : IoMachine where
  State := RetryPc σ α
  Result := ρ
  start s := s = .calling start
  act
    | .calling s => .call α (fun _ => True) (Repeats.denies fd k) (RetryPc.called waits pass s)
    | .yielding s a => .yield .waitio Bool (RetryPc.resumed pass s a)

end Retry

/-- The loop of `hev_task_io_read` and its like: `-2` if the yielder aborts. -/
def Io.retry (yielder : Bool) (_ : Unit) : IoAnswer → Foundation.Flow Unit Int
  | .again abort => if yielder ∧ abort then .done (-2) else .next ()
  | answer => .done answer.result

/-- What `connect` returns: `EINPROGRESS` and `EALREADY` are one answer. -/
inductive ConnectAnswer where
  | connected
  | progress (abort : Bool)
  | isconn
  | error
  deriving DecidableEq

instance : Repeats ConnectAnswer where
  again
    | .progress _ => true
    | _ => false
  aborted
    | .progress _, abort => .progress abort
    | answer, _ => answer

def Io.connect (yielder : Bool) (_ : Unit) : ConnectAnswer → Foundation.Flow Unit Int
  | .connected => .done 0
  | .progress abort => if yielder ∧ abort then .done (-2) else .next ()
  | .isconn => .done 0
  | .error => .done (-1)

/-! ## hev_task_io_poll -/

structure PollFd where
  fd : Nat
  events : PollEvents

def PollFd.interests (e : PollFd) : List Interest := (Kqueue.filters.filter e.events.selects).map fun k => (e.fd, k)

/-- Where `hev_task_io_poll` is, with the entries that it has registered. The timeout is the
time left, or none if there is no limit. -/
inductive PollPc where
  | once
  | modify (entry : PollFd) (rest : List PollFd) (registered : List PollFd)
  | insert (entry : PollFd) (rest : List PollFd) (registered : List PollFd)
  | sleep (timeout : Option Nat) (registered : List PollFd) (asked : Bool)
  | ask (timeout : Option Nat)

namespace PollPc

def limit (timeout : Int) : Option Nat := if timeout > 0 then some timeout.toNat else none

def register (timeout : Int) (registered : List PollFd) : List PollFd → PollPc
  | [] => .sleep (limit timeout) registered false
  | entry :: rest => .modify entry rest registered

def modified (timeout : Int) (entry : PollFd) (rest registered : List PollFd) (ok : Bool) : PollPc :=
  if ok then register timeout (entry :: registered) rest else .insert entry rest registered

def inserted (timeout : Int) (entry : PollFd) (rest registered : List PollFd) (ok : Bool) : PollPc :=
  register timeout (if ok then entry :: registered else registered) rest

/-- After `hev_task_sleep` or the yield; without a limit there is no time left to look at. -/
def slept (timeout : Option Nat) (left : Nat) : PollPc := .ask (timeout.map fun _ => left)

def asked (timeout : Option Nat) (res : Int) : Flow PollPc Int :=
  if res = 0 ∧ timeout ≠ some 0 then .next (.sleep timeout [] true) else .done res

/-- `poll` returns 0 only if no entry is ready. -/
def denies (fds : List PollFd) (res : Int) : List Interest := if res = 0 then fds.flatMap PollFd.interests else []

end PollPc

def IoMachine.poll (fds : List PollFd) (timeout : Int) : IoMachine where
  State := PollPc
  Result := Int
  start s := s = if timeout = 0 then .once else .register timeout [] fds
  act
    | .once => .call Int (fun _ => True) (PollPc.denies fds) .done
    | .modify entry rest registered => .setup ⟨true, entry.fd, entry.events⟩ fun ok =>
      .next (.modified timeout entry rest registered ok)
    | .insert entry rest registered => .setup ⟨false, entry.fd, entry.events⟩ fun ok =>
      .next (.inserted timeout entry rest registered ok)
    | .sleep timeout _ _ => .yield .waitio Nat fun left => .next (.slept timeout left)
    | .ask timeout => .call Int (fun _ => True) (PollPc.denies fds) (PollPc.asked timeout)

/-! ## hev_task_io_splice -/

structure SpliceFds where
  aIn : Nat
  aOut : Nat
  bIn : Nat
  bOut : Nat

/-- The build of `HevTaskIOSplicer`, with or without `ENABLE_IO_SPLICE_SYSCALL`. -/
inductive SpliceBuild where
  | circular
  | pipe

def SpliceBuild.splicer : SpliceBuild → Splicer
  | .circular => .circular
  | .pipe => .pipe

def SpliceBuild.held : (build : SpliceBuild) → build.splicer.State → List UInt8
  | .circular => BufferUser.unread
  | .pipe => PipeUser.fifo

def SpliceBuild.sound : (build : SpliceBuild) → build.splicer.State → Prop
  | .circular => BufferUser.Inv
  | .pipe => fun s => s.wlen = s.fifo.length

theorem SpliceBuild.lawful (build : SpliceBuild) : build.splicer.Lawful build.held build.sound := by
  cases build with
  | circular => exact circular_lawful
  | pipe => exact pipe_lawful

/-- Where `hev_task_io_splice` is: before one of the halves of `task_io_splice` for one of the
directions, or at the yield. -/
inductive SplicePc (b : Splicer) where
  | readF (pair : SplicePair b)
  | writeF (pair : SplicePair b) (splicer : b.State) (calls : List (Relay.Call UInt8)) (res : Int32)
  | readB (pair : SplicePair b)
  | writeB (pair : SplicePair b) (splicer : b.State) (calls : List (Relay.Call UInt8)) (res : Int32)
  | yielding (pair : SplicePair b) (type : YieldType)

namespace SplicePair

variable {b : Splicer}

def settle (self : SplicePair b) : Flow (SplicePc b) (SplicePair b) :=
  if self.forward.res > 0 ∨ self.backward.res > 0 then .next (.yielding self .yield)
  else if self.forward.res &&& self.backward.res = 0 then .next (.yielding self .waitio)
  else .done self

def enterBackward (self : SplicePair b) : Flow (SplicePc b) (SplicePair b) :=
  if 0 ≤ self.backward.res then .next (.readB self) else self.settle

def enterForward (self : SplicePair b) : Flow (SplicePc b) (SplicePair b) :=
  let self := { self with type := none }
  if 0 ≤ self.forward.res then .next (.readF self) else self.enterBackward

end SplicePair

def Direction.finish {b : Splicer} (self : Direction b) (splicer : b.State) (calls : List (Relay.Call UInt8)) (res : Int32)
    (sink : Sink) : Direction b :=
  let (splicer, calls', res) := b.write splicer res sink
  ⟨splicer, res, self.rounds ++ [⟨calls ++ calls', res⟩]⟩

def Splicer.deniesRead (held : List UInt8) (fd : Nat) (source : Source UInt8) : List Interest :=
  if source = .again ∧ held = [] then [(fd, .read)] else []

def Splicer.deniesWrite (held : List UInt8) (fd : Nat) (sink : Sink) : List Interest :=
  if sink = .again ∧ held ≠ [] then [(fd, .write)] else []

namespace SplicePc

variable {b : Splicer}

def didReadF (pair : SplicePair b) (source : Source UInt8) : Flow (SplicePc b) (SplicePair b) :=
  let (splicer, calls, res) := b.read pair.forward.splicer source
  .next (.writeF pair splicer calls res)

def didWriteF (pair : SplicePair b) (splicer : b.State) (calls : List (Relay.Call UInt8)) (res : Int32) (sink : Sink) :
    Flow (SplicePc b) (SplicePair b) :=
  { pair with forward := pair.forward.finish splicer calls res sink }.enterBackward

def didReadB (pair : SplicePair b) (source : Source UInt8) : Flow (SplicePc b) (SplicePair b) :=
  let (splicer, calls, res) := b.read pair.backward.splicer source
  .next (.writeB pair splicer calls res)

def didWriteB (pair : SplicePair b) (splicer : b.State) (calls : List (Relay.Call UInt8)) (res : Int32) (sink : Sink) :
    Flow (SplicePc b) (SplicePair b) :=
  { pair with backward := pair.backward.finish splicer calls res sink }.settle

def yielded (yielder : Bool) (pair : SplicePair b) (type : YieldType) (abort : Bool) : Flow (SplicePc b) (SplicePair b) :=
  if yielder ∧ abort then .done { pair with type := some type } else { pair with type := some type }.enterForward

end SplicePc

/-- The function `hev_task_io_splice`, after its splicers were made. -/
def IoMachine.splice (build : SpliceBuild) (fds : SpliceFds) (yielder : Bool) : IoMachine where
  State := SplicePc build.splicer
  Result := SplicePair build.splicer
  start s := ∃ pair : SplicePair build.splicer, pair.Init ∧ pair.type = none ∧ s = .readF pair
  act
    | .readF pair => .call (Source UInt8) (build.splicer.offersRead pair.forward.splicer)
      (Splicer.deniesRead (build.held pair.forward.splicer) fds.aIn) (SplicePc.didReadF pair)
    | .writeF pair splicer calls res => .call Sink (build.splicer.offersWrite splicer)
      (Splicer.deniesWrite (build.held splicer) fds.bOut) (SplicePc.didWriteF pair splicer calls res)
    | .readB pair => .call (Source UInt8) (build.splicer.offersRead pair.backward.splicer)
      (Splicer.deniesRead (build.held pair.backward.splicer) fds.bIn) (SplicePc.didReadB pair)
    | .writeB pair splicer calls res => .call Sink (build.splicer.offersWrite splicer)
      (Splicer.deniesWrite (build.held splicer) fds.aOut) (SplicePc.didWriteB pair splicer calls res)
    | .yielding pair type => .yield type Bool (SplicePc.yielded yielder pair type)

/-! ## All functions -/

inductive IoFunction where
  | read (fd : Nat) (yielder : Bool)
  | readv (fd : Nat) (yielder : Bool)
  | write (fd : Nat) (yielder : Bool)
  | writev (fd : Nat) (yielder : Bool)
  | accept (fd : Nat) (yielder : Bool)
  | connect (fd : Nat) (yielder : Bool)
  | recv (fd buf len : Nat) (flags : MsgFlags) (yielder : Bool)
  | send (fd buf len : Nat) (flags : MsgFlags) (yielder : Bool)
  | recvfrom (fd buf len : Nat) (flags : MsgFlags) (yielder : Bool)
  | sendto (fd buf len : Nat) (flags : MsgFlags) (yielder : Bool)
  | recvmsg (fd : Nat) (iovs : Nat → IoVec) (msg : MsgHdr) (iov : Nat) (flags : MsgFlags) (yielder : Bool)
  | sendmsg (fd : Nat) (iovs : Nat → IoVec) (msg : MsgHdr) (iov : Nat) (flags : MsgFlags) (yielder : Bool)
  | recvmmsg (fd : Nat) (len : Nat → Nat) (n : Nat) (flags : MsgFlags) (yielder : Bool)
  | sendmmsg (fd : Nat) (len : Nat → Nat) (n : Nat) (flags : MsgFlags) (yielder : Bool)
  | poll (fds : List PollFd) (timeout : Int)
  | splice (build : SpliceBuild) (fds : SpliceFds) (yielder : Bool)

def IoFunction.machine : IoFunction → IoMachine
  | .read fd yielder => .retry fd .read true () (Io.retry yielder)
  | .readv fd yielder => .retry fd .read true () (Io.retry yielder)
  | .write fd yielder => .retry fd .write true () (Io.retry yielder)
  | .writev fd yielder => .retry fd .write true () (Io.retry yielder)
  | .accept fd yielder => .retry fd .read true () (Io.retry yielder)
  | .connect fd yielder => .retry fd .write true () (Io.connect yielder)
  | .recv fd buf len flags yielder => .retry fd .read (!flags.dontwait) (.start buf len) (FlatIo.pass flags yielder)
  | .send fd buf len flags yielder => .retry fd .write (!flags.dontwait) (.start buf len) (FlatIo.pass flags yielder)
  | .recvfrom fd buf len flags yielder => .retry fd .read (!flags.dontwait) (.start buf len) (FlatIo.pass flags yielder)
  | .sendto fd buf len flags yielder => .retry fd .write (!flags.dontwait) (.start buf len) (FlatIo.pass flags yielder)
  | .recvmsg fd iovs msg iov flags yielder =>
    .retry fd .read (!flags.dontwait) (.start iovs msg iov) (MsgIo.recvmsgPass flags yielder)
  | .sendmsg fd iovs msg iov flags yielder =>
    .retry fd .write (!flags.dontwait) (.start iovs msg iov) (MsgIo.pass id flags yielder)
  | .recvmmsg fd len n flags yielder => .retry fd .read (!flags.dontwait) (.start len) (Mmsg.pass n flags yielder)
  | .sendmmsg fd len n flags yielder => .retry fd .write (!flags.dontwait) (.start len) (Mmsg.pass n flags yielder)
  | .poll fds timeout => .poll fds timeout
  | .splice build fds yielder => .splice build fds yielder

/-! ## What the functions wait for -/

section Retry

variable {σ α ρ : Type}

def RetryPc.needs (fd : Nat) (k : KqueueFilter) : RetryPc σ α → List Interest
  | .calling _ => []
  | .yielding _ _ => [(fd, k)]

theorem RetryPc.needs_calling {fd : Nat} {k : KqueueFilter} {flow : Flow σ ρ} {after : RetryPc σ α}
    (goes : flow.map .calling id = (.next after : Flow (RetryPc σ α) ρ)) : after.needs fd k = [] := by
  cases flow with
  | next s =>
    cases goes
    rfl
  | done result => cases goes

variable [Repeats α]

theorem RetryPc.needs_called {fd : Nat} {k : KqueueFilter} {waits : Bool} {pass : σ → α → Flow σ ρ} {s : σ} {a : α}
    {after : RetryPc σ α} (goes : called waits pass s a = .next after) :
    ∀ p ∈ after.needs fd k, p ∈ Repeats.denies fd k a := by
  intro p member
  unfold called at goes
  split at goes
  · rename_i sleeps
    cases goes
    rw [Bool.and_eq_true] at sleeps
    rw [Repeats.denies, if_pos sleeps.2]
    exact member
  · rw [needs_calling goes] at member
    exact absurd member List.not_mem_nil

def IoAccount.retry {fd : Nat} {k : KqueueFilter} {waits : Bool} {start : σ} {pass : σ → α → Flow σ ρ} :
    IoAccount (IoMachine.retry fd k waits start pass) where
  needs := RetryPc.needs fd k
  ok s blocked _ := ∀ p ∈ RetryPc.needs fd k s, p ∈ blocked
  start := by
    rintro s rfl p member
    exact absurd member List.not_mem_nil
  keep {s} _ _ ok := by
    cases s with
    | calling s => exact fun a _ _ goes p member => List.mem_append_right _ (RetryPc.needs_called goes p member)
    | yielding s a =>
      refine ⟨fun _ _ goes p member => ?_, fun _ => ok⟩
      rw [RetryPc.needs_calling goes] at member
      exact absurd member List.not_mem_nil

end Retry

section Poll

variable {fds : List PollFd} {timeout : Int}

theorem FdRequest.interests_ofTask (modify : Bool) (e : PollFd) (t : Addr) :
    (FdRequest.ofTask ⟨modify, e.fd, e.events⟩ t).fd = e.fd ∧
      (FdRequest.ofTask ⟨modify, e.fd, e.events⟩ t).interests = e.interests := by
  cases modify with
  | true | false => exact ⟨rfl, rfl⟩

theorem PollFd.fd_of_mem {e : PollFd} {p : Interest} (member : p ∈ e.interests) : p.1 = e.fd := by
  obtain ⟨k, -, rfl⟩ := List.mem_map.mp member
  rfl

def PollPc.needs (fds : List PollFd) : PollPc → List Interest
  | .sleep _ registered asked => (if asked then fds else registered).flatMap PollFd.interests
  | _ => []

/-- The entries registered so far are among those that the loop has passed. What it has
registered is announced, and stays registered if every descriptor stands in one entry. -/
structure PollPc.Registered (fds : List PollFd) (rest registered : List PollFd) (blocked watched : List Interest) :
    Prop where
  passed : ∃ done, fds = done ++ rest ∧ ∀ e ∈ registered, e ∈ done
  announced : ∀ e ∈ registered, ∀ p ∈ e.interests, p ∈ blocked
  watched : (fds.map PollFd.fd).Nodup → ∀ e ∈ registered, ∀ p ∈ e.interests, p ∈ watched

def PollPc.ok (fds : List PollFd) (blocked watched : List Interest) : PollPc → Prop
  | .once => True
  | .modify entry rest registered => Registered fds (entry :: rest) registered blocked watched
  | .insert entry rest registered => Registered fds (entry :: rest) registered blocked watched
  | .sleep _ registered false => Registered fds [] registered blocked watched
  | .sleep _ _ true => ∀ e ∈ fds, ∀ p ∈ e.interests, p ∈ blocked
  | .ask _ => True

theorem PollPc.Registered.setup {e : PollFd} {rest registered : List PollFd} {blocked watched : List Interest}
    (state : Registered fds (e :: rest) registered blocked watched) (modify result : Bool) (t : Addr) :
    Registered fds (e :: rest) registered
        (blocked ++ if result then (FdRequest.ofTask ⟨modify, e.fd, e.events⟩ t).interests else [])
        ((FdRequest.ofTask ⟨modify, e.fd, e.events⟩ t).watching result watched) ∧
      (result = true → Registered fds rest (e :: registered)
        (blocked ++ if result then (FdRequest.ofTask ⟨modify, e.fd, e.events⟩ t).interests else [])
        ((FdRequest.ofTask ⟨modify, e.fd, e.events⟩ t).watching result watched)) := by
  obtain ⟨fd, interests⟩ := FdRequest.interests_ofTask modify e t
  simp only [FdCall.watching, fd, interests]
  obtain ⟨⟨done, split, inside⟩, announced, watches⟩ := state
  -- Another entry has another descriptor, so the call does not touch it.
  have before (distinct : (fds.map PollFd.fd).Nodup) (other : PollFd) (member : other ∈ registered) (p : Interest)
      (there : p ∈ other.interests) : p ∈ watched.filter (fun p => p.1 ≠ e.fd) := by
    refine List.mem_filter.mpr ⟨watches distinct other member p there, ?_⟩
    rw [PollFd.fd_of_mem there]
    rw [split, List.map_append, List.map_cons] at distinct
    have apart := List.disjoint_of_nodup_append distinct (List.mem_map_of_mem (inside other member))
    simp only [ne_eq, decide_not, Bool.not_eq_true', decide_eq_false_iff_not]
    intro same
    exact apart (same ▸ List.mem_cons_self)
  constructor
  · refine ⟨⟨done, split, inside⟩, fun other member p there => ?_, fun distinct other member p there => ?_⟩
    · exact List.mem_append_left _ (announced other member p there)
    · exact List.mem_append_left _ (before distinct other member p there)
  · rintro rfl
    refine ⟨⟨done ++ [e], by simp [split], fun other member => ?_⟩, fun other member p there => ?_,
      fun distinct other member p there => ?_⟩
    · rcases List.mem_cons.mp member with rfl | old
      · exact List.mem_append_right _ (List.mem_singleton_self _)
      · exact List.mem_append_left _ (inside other old)
    · rcases List.mem_cons.mp member with rfl | old
      · exact List.mem_append_right _ there
      · exact List.mem_append_left _ (announced other old p there)
    · rcases List.mem_cons.mp member with rfl | old
      · exact List.mem_append_right _ there
      · exact List.mem_append_left _ (before distinct other old p there)

theorem PollPc.Registered.skip {e : PollFd} {rest registered : List PollFd} {blocked watched : List Interest}
    (state : Registered fds (e :: rest) registered blocked watched) : Registered fds rest registered blocked watched := by
  obtain ⟨⟨done, split, inside⟩, announced, watches⟩ := state
  exact ⟨⟨done ++ [e], by simp [split], fun other member => List.mem_append_left _ (inside other member)⟩, announced,
    watches⟩

theorem PollPc.Registered.register {rest registered : List PollFd} {blocked watched : List Interest}
    (state : Registered fds rest registered blocked watched) : (register timeout registered rest).ok fds blocked watched := by
  cases rest with
  | nil => exact state
  | cons e rest => exact state

theorem PollPc.ok_asked {left : Option Nat} {res : Int} {after : PollPc} (goes : asked left res = .next after)
    (blocked watched : List Interest) : after.ok fds (blocked ++ denies fds res) watched := by
  unfold asked at goes
  split at goes
  · rename_i none
    cases goes
    intro e member p there
    rw [denies, if_pos none.1]
    exact List.mem_append_right _ (List.mem_flatMap.mpr ⟨e, member, there⟩)
  · cases goes

def IoAccount.poll {fds : List PollFd} {timeout : Int} : IoAccount (IoMachine.poll fds timeout) where
  needs := PollPc.needs fds
  ok s blocked watched := PollPc.ok fds blocked watched s
  start := by
    rintro s rfl
    split
    · trivial
    · refine PollPc.Registered.register ⟨⟨[], rfl, ?_⟩, ?_, ?_⟩
      · exact fun e member => absurd member List.not_mem_nil
      · exact fun e member => absurd member List.not_mem_nil
      · exact fun _ e member => absurd member List.not_mem_nil
  keep {s} _ _ ok := by
    cases s with
    | once => exact fun _ _ _ goes => by cases goes
    | modify entry rest registered =>
      rintro t result _ ⟨⟩
      cases result with
      | true => exact ((PollPc.Registered.setup ok true true t).2 rfl).register
      | false => exact (PollPc.Registered.setup ok true false t).1
    | insert entry rest registered =>
      rintro t result _ ⟨⟩
      cases result with
      | true => exact ((PollPc.Registered.setup ok false true t).2 rfl).register
      | false => exact (PollPc.Registered.setup ok false false t).1.skip.register
    | sleep left registered asked =>
      refine ⟨?_, fun _ p member => ?_⟩
      · rintro _ _ ⟨⟩
        trivial
      · obtain ⟨e, there, inside⟩ := List.mem_flatMap.mp member
        cases asked with
        | true => exact ok e there p inside
        | false => exact ok.announced e there p inside
    | ask left => exact fun _ _ _ goes => PollPc.ok_asked goes _ _

end Poll

/-! ## What a splice waits for -/

section Splice

variable {build : SpliceBuild}

def Direction.need (self : Direction build.splicer) (fdIn fdOut : Nat) : Interest :=
  if build.held self.splicer = [] then (fdIn, .read) else (fdOut, .write)

def Direction.needs (self : Direction build.splicer) (fdIn fdOut : Nat) : List Interest :=
  if 0 ≤ self.res then [self.need fdIn fdOut] else []

structure Direction.Sound (d : Direction build.splicer) : Prop where
  ok : build.sound d.splicer
  range : d.res = -1 ∨ d.res = 0 ∨ d.res = 1

/-- Between the halves of a round, with the result of the first one. -/
structure SpliceBuild.Half (build : SpliceBuild) (fdIn : Nat) (blocked : List Interest) (splicer : build.splicer.State)
    (res : Int32) : Prop where
  ok : build.sound splicer
  range : res = -1 ∨ res = 0 ∨ res = 1
  told : res = 0 → build.held splicer = [] → (fdIn, .read) ∈ blocked

/-- After a round: a direction that has to wait was told so. -/
structure Direction.Settled (fdIn fdOut : Nat) (blocked : List Interest) (d : Direction build.splicer) : Prop where
  sound : d.Sound
  told : d.res = 0 → d.need fdIn fdOut ∈ blocked

theorem BufferUser.records_again {s next : BufferUser} :
    (∀ {source res}, s.spliceRead source = (next, [.read .again], res) → source = .again) ∧
      ∀ {sink res res'}, s.spliceWrite res sink = (next, [.write [] .again], res') → sink = .again := by
  constructor
  · intro source res result
    cases source with
    | again => rfl
    | error | items bytes =>
      simp only [spliceRead] at result
      split_ifs at result <;> simp at result
  · intro sink res res' result
    cases sink with
    | again => rfl
    | error | count n =>
      simp only [spliceWrite] at result
      split_ifs at result <;> simp at result

theorem PipeUser.records_again {s next : PipeUser} :
    (∀ {source res}, s.spliceRead source = (next, [.read .again], res) → source = .again) ∧
      ∀ {sink res res'}, s.spliceWrite res sink = (next, [.write [] .again], res') → sink = .again := by
  constructor
  · intro source res result
    cases source with
    | again => rfl
    | error => simp [spliceRead] at result
    | items bytes =>
      simp only [spliceRead] at result
      split_ifs at result <;> simp at result
  · intro sink res res' result
    cases sink with
    | again => rfl
    | error | count n =>
      simp only [spliceWrite] at result
      split_ifs at result <;> simp at result

theorem SpliceBuild.records_again (build : SpliceBuild) {s next : build.splicer.State} :
    (∀ {source res}, build.splicer.read s source = (next, [.read .again], res) → source = .again) ∧
      ∀ {sink res res'}, build.splicer.write s res sink = (next, [.write [] .again], res') → sink = .again := by
  cases build with
  | circular => exact BufferUser.records_again
  | pipe => exact PipeUser.records_again

theorem Direction.Sound.read {d : Direction build.splicer} (sound : d.Sound) {source : Source UInt8}
    (offers : build.splicer.offersRead d.splicer source) {splicer : build.splicer.State} {calls : List (Relay.Call UInt8)}
    {res : Int32} (result : build.splicer.read d.splicer source = (splicer, calls, res)) (fdIn : Nat)
    (blocked : List Interest) :
    build.Half fdIn (blocked ++ Splicer.deniesRead (build.held d.splicer) fdIn source) splicer res := by
  obtain ⟨ok, reads⟩ := build.lawful.read sound.ok offers result
  obtain ⟨range, wait⟩ := reads.range
  refine ⟨ok, range, fun zero empty => ?_⟩
  obtain ⟨rfl, kept⟩ := wait zero
  rw [Splicer.deniesRead, if_pos ⟨build.records_again.1 result, kept ▸ empty⟩]
  exact List.mem_append_right _ (List.mem_singleton_self _)

theorem SpliceBuild.Half.write {d : Direction build.splicer} {splicer : build.splicer.State} {res : Int32}
    {fdIn : Nat} {blocked : List Interest} (half : build.Half fdIn blocked splicer res) {sink : Sink}
    (offers : build.splicer.offersWrite splicer sink) (calls : List (Relay.Call UInt8)) (fdOut : Nat) :
    (d.finish splicer calls res sink).Settled fdIn fdOut
      (blocked ++ Splicer.deniesWrite (build.held splicer) fdOut sink) := by
  cases result : build.splicer.write splicer res sink with
  | mk after rest =>
    obtain ⟨calls', res'⟩ := rest
    obtain ⟨ok, writes⟩ := build.lawful.write half.ok offers result
    obtain ⟨range, wait⟩ := writes.range half.range
    have finished : d.finish splicer calls res sink = ⟨after, res', d.rounds ++ [⟨calls ++ calls', res'⟩]⟩ := by
      simp only [Direction.finish, result]
    rw [finished]
    refine ⟨⟨ok, range⟩, fun zero => ?_⟩
    rcases wait zero with ⟨rfl, some, before⟩ | ⟨empty, before, zero'⟩
    · rw [Direction.need, if_neg some, Splicer.deniesWrite, if_pos ⟨build.records_again.2 result, before⟩]
      exact List.mem_append_right _ (List.mem_singleton_self _)
    · rw [Direction.need, if_pos empty]
      exact List.mem_append_left _ (half.told zero' before)

theorem Direction.Settled.append {d : Direction build.splicer} {fdIn fdOut : Nat} {blocked : List Interest}
    (settled : d.Settled fdIn fdOut blocked) (more : List Interest) : d.Settled fdIn fdOut (blocked ++ more) :=
  ⟨settled.sound, fun zero => List.mem_append_left _ (settled.told zero)⟩

theorem Direction.Sound.settled {d : Direction build.splicer} (sound : d.Sound) (ended : ¬ 0 ≤ d.res)
    (fdIn fdOut : Nat) (blocked : List Interest) : d.Settled fdIn fdOut blocked := by
  refine ⟨sound, fun zero => absurd ?_ ended⟩
  rw [zero]
  decide

theorem Direction.Settled.needs {d : Direction build.splicer} {fdIn fdOut : Nat} {blocked : List Interest}
    (settled : d.Settled fdIn fdOut blocked) (waits : ¬ d.res > 0) : ∀ p ∈ d.needs fdIn fdOut, p ∈ blocked := by
  intro p member
  unfold Direction.needs at member
  split at member
  · rename_i running
    rw [List.mem_singleton.mp member]
    refine settled.told ?_
    rcases settled.sound.range with res | res | res
    · rw [res] at running
      exact absurd running (by decide)
    · exact res
    · rw [res] at waits
      exact absurd (by decide) waits
  · exact absurd member List.not_mem_nil

def SplicePc.needs (fds : SpliceFds) : SplicePc build.splicer → List Interest
  | .yielding pair _ => pair.forward.needs fds.aIn fds.bOut ++ pair.backward.needs fds.bIn fds.aOut
  | _ => []

def SplicePc.ok (fds : SpliceFds) (blocked : List Interest) : SplicePc build.splicer → Prop
  | .readF pair => pair.forward.Sound ∧ pair.backward.Sound
  | .writeF pair splicer _ res => build.Half fds.aIn blocked splicer res ∧ pair.backward.Sound
  | .readB pair => pair.forward.Settled fds.aIn fds.bOut blocked ∧ pair.backward.Sound
  | .writeB pair splicer _ res =>
    pair.forward.Settled fds.aIn fds.bOut blocked ∧ build.Half fds.bIn blocked splicer res
  | .yielding pair type =>
    pair.forward.Settled fds.aIn fds.bOut blocked ∧ pair.backward.Settled fds.bIn fds.aOut blocked ∧
      (type = .waitio → ¬ pair.forward.res > 0 ∧ ¬ pair.backward.res > 0)

variable {fds : SpliceFds} {blocked : List Interest} {pair : SplicePair build.splicer} {after : SplicePc build.splicer}

theorem SplicePair.ok_settle (goes : pair.settle = .next after)
    (first : pair.forward.Settled fds.aIn fds.bOut blocked) (second : pair.backward.Settled fds.bIn fds.aOut blocked) :
    after.ok fds blocked := by
  unfold SplicePair.settle at goes
  split at goes
  · cases goes
    exact ⟨first, second, fun waits => by cases waits⟩
  · rename_i still
    split at goes
    · cases goes
      exact ⟨first, second, fun _ => not_or.mp still⟩
    · cases goes

theorem SplicePair.ok_enterBackward (goes : pair.enterBackward = .next after)
    (first : pair.forward.Settled fds.aIn fds.bOut blocked) (second : pair.backward.Sound) : after.ok fds blocked := by
  unfold SplicePair.enterBackward at goes
  split at goes
  · cases goes
    exact ⟨first, second⟩
  · rename_i ended
    exact SplicePair.ok_settle goes first (second.settled ended ..)

theorem SplicePair.ok_enterForward (goes : pair.enterForward = .next after) (first : pair.forward.Sound)
    (second : pair.backward.Sound) : after.ok fds blocked := by
  simp only [SplicePair.enterForward] at goes
  split at goes
  · cases goes
    exact ⟨first, second⟩
  · rename_i ended
    exact SplicePair.ok_enterBackward goes (first.settled ended ..) second

def IoAccount.splice {build : SpliceBuild} {fds : SpliceFds} {yielder : Bool} :
    IoAccount (IoMachine.splice build fds yielder) where
  needs := SplicePc.needs fds
  ok s blocked _ := SplicePc.ok fds blocked s
  start := by
    rintro s ⟨pair, ⟨⟨first, res, -⟩, second, res', -⟩, -, rfl⟩
    exact ⟨⟨(build.lawful.init first).1, .inr (.inr res)⟩, ⟨(build.lawful.init second).1, .inr (.inr res')⟩⟩
  keep {s} _ _ ok := by
    cases s with
    | readF pair =>
      rintro source _ allowed ⟨⟩
      exact ⟨ok.1.read allowed rfl fds.aIn _, ok.2⟩
    | writeF pair splicer calls res =>
      exact fun _ _ allowed goes => SplicePair.ok_enterBackward goes (ok.1.write allowed calls fds.bOut) ok.2
    | readB pair =>
      rintro source _ allowed ⟨⟩
      exact ⟨ok.1.append _, ok.2.read allowed rfl fds.bIn _⟩
    | writeB pair splicer calls res =>
      exact fun _ _ allowed goes => SplicePair.ok_settle goes (ok.1.append _) (ok.2.write allowed calls fds.aOut)
    | yielding pair type =>
      obtain ⟨first, second, waits⟩ := ok
      refine ⟨fun abort after goes => ?_, fun waiting p member => ?_⟩
      · simp only [SplicePc.yielded] at goes
        split at goes
        · cases goes
        · exact SplicePair.ok_enterForward goes first.sound second.sound
      · rcases List.mem_append.mp member with forward | backward
        · exact first.needs (waits waiting).1 p forward
        · exact second.needs (waits waiting).2 p backward

end Splice

/-! ## The passes -/

section Passes

variable {b : Splicer}

theorem Direction.finish_read (d : Direction b) (running : 0 ≤ d.res) (source : Source UInt8) (sink : Sink) :
    d.finish (b.read d.splicer source).1 (b.read d.splicer source).2.1 (b.read d.splicer source).2.2 sink =
      d.run source sink := by
  rw [Direction.run, if_pos running]
  rfl

def SplicePc.answered (answers : SpliceAnswers) : SplicePc b → Flow (SplicePc b) (SplicePair b)
  | .readF pair => didReadF pair answers.sourceF
  | .writeF pair splicer calls res => didWriteF pair splicer calls res answers.sinkF
  | .readB pair => didReadB pair answers.sourceB
  | .writeB pair splicer calls res => didWriteB pair splicer calls res answers.sinkB
  | .yielding pair type => .next (.yielding pair type)

def SplicePc.follow (answers : SpliceAnswers) : Nat → Flow (SplicePc b) (SplicePair b) → Flow (SplicePc b) (SplicePair b)
  | 0, flow => flow
  | n + 1, .next pc => follow answers n (pc.answered answers)
  | _ + 1, .done pair => .done pair

theorem SplicePc.follow_settle (answers : SpliceAnswers) (n : Nat) (pair : SplicePair b) :
    follow answers n pair.settle = pair.settle := by
  induction n with
  | zero => rfl
  | succ n ih =>
    unfold SplicePair.settle at ih ⊢
    split
    · rename_i more
      rw [if_pos more] at ih
      exact ih
    · rename_i none
      rw [if_neg none] at ih
      split
      · rename_i waits
        rw [if_pos waits] at ih
        exact ih
      · rfl

theorem SplicePc.follow_enterBackward (answers : SpliceAnswers) (n : Nat) (pair : SplicePair b) :
    follow answers (n + 2) pair.enterBackward =
      { pair with backward := pair.backward.run answers.sourceB answers.sinkB }.settle := by
  unfold SplicePair.enterBackward
  by_cases running : 0 ≤ pair.backward.res
  · rw [if_pos running, ← pair.backward.finish_read running]
    exact follow_settle answers n _
  · rw [if_neg running, follow_settle, Direction.run, if_neg running]

theorem SplicePc.follow_enterForward (answers : SpliceAnswers) (pair : SplicePair b) :
    follow answers 4 pair.enterForward = (pair.turn answers).settle := by
  simp only [SplicePair.enterForward, SplicePair.turn]
  by_cases running : 0 ≤ pair.forward.res
  · rw [if_pos running, ← pair.forward.finish_read running]
    exact follow_enterBackward answers 0 _
  · rw [if_neg running, follow_enterBackward]
    simp only [Direction.run, if_neg running]

theorem SplicePair.pass_settle (yielder : Bool) (answers : SpliceAnswers) (pair : SplicePair b) :
    (∃ type, (pair.turn answers).settle = .next (.yielding (pair.turn answers) type) ∧
        pair.pass yielder answers = (pair.turn answers).yield yielder answers type) ∨
      (pair.turn answers).settle = .done (pair.turn answers) ∧ pair.pass yielder answers = .done (pair.turn answers) := by
  simp only [SplicePair.settle, SplicePair.pass]
  split
  · exact .inl ⟨_, rfl, rfl⟩
  · split
    · exact .inl ⟨_, rfl, rfl⟩
    · exact .inr ⟨rfl, rfl⟩

end Passes

end HevTaskSystem
