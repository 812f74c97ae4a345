import HevTaskSystem.Sync.Run
import HevTaskSystem.Foundation.Echo

/-! The proxy through which tasks have names resolved, `lib/dns/hev-task-dns-proxy.c`, and the
thread of the aide that serves it, `kern/aide/hev-task-aide.c`.

The two ends of the socket pair are queues of bytes. Tasks, the drain and the aide thread
are advanced from one access to shared data to the next, in any order; a read or a write
may fail with EINTR or EAGAIN at any time. The record of a call lives on the stack of its
task until the function returns, and an access to a record that is no longer there is a
fault. The reactor of the aide thread returns the work of a proxy that is readable; that of
Windows also returns a `FD_READ` that was recorded for bytes which have been read since.
-/

set_option autoImplicit false

namespace HevTaskSystem

open Foundation SyncSystem

inductive DnsSync where
  | s
  | d
  deriving DecidableEq, Repr

/-- The type of a call with the arguments that its record holds. -/
inductive DnsQuery where
  | getaddrinfo (node service hints res : Addr)
  | getnameinfo (addr : Addr) (addrlen : Nat) (node : Addr) (nodelen : Nat) (service : Addr) (servicelen : Nat)
      (flags : Int)
  deriving DecidableEq, Repr

/-- What a function of libc returns, and `errno` after it. -/
structure DnsResult where
  ret : Int
  err : Int
  deriving DecidableEq, Repr

structure Resolver where
  getaddrinfo : Addr → Addr → Addr → Addr → DnsResult
  getnameinfo : Addr → Nat → Addr → Nat → Addr → Nat → Int → DnsResult

/-- `HevTaskDNSCallGetAddrInfo` and `HevTaskDNSCallGetNameInfo`. `err` has no value before the
call is executed. -/
structure DnsCall where
  query : DnsQuery
  ret : Int
  err : Option Int
  deriving DecidableEq, Repr

/-- `hev_task_dns_server_getaddrinfo` or `hev_task_dns_server_getnameinfo`, by the type of the call. -/
def DnsQuery.resolve (libc : Resolver) : DnsQuery → DnsResult
  | .getaddrinfo node service hints res => libc.getaddrinfo node service hints res
  | .getnameinfo addr addrlen node nodelen service servicelen flags =>
    libc.getnameinfo addr addrlen node nodelen service servicelen flags

/-- Where a task is in `hev_task_dns_proxy_call`, or before the return of its caller. -/
inductive DnsPhase where
  | lock
  | setCall
  | write
  | read
  | unlock
  | finish
  deriving DecidableEq, Repr

/-- A task in `hev_task_dns_proxy_getaddrinfo` or `hev_task_dns_proxy_getnameinfo`. -/
structure DnsUse where
  record : Addr
  query : DnsQuery
  phase : DnsPhase
  deriving DecidableEq, Repr

/-- Where the aide thread is: not at this proxy, with an event of its work that has not been
handled, or in `hev_task_dns_server_handler`. -/
inductive HandlerPhase where
  | idle
  | fetched
  | read
  | check (sync : DnsSync)
  | exec (sync : DnsSync)
  | resolve (sync : DnsSync) (call : Addr)
  | write (sync : DnsSync)
  deriving DecidableEq, Repr

inductive DrainPhase where
  | idle
  | write
  | read
  | done
  deriving DecidableEq, Repr

inductive DnsIo where
  | done
  | eintr
  | eagain
  deriving DecidableEq, Repr

/-- The proxy with its users. The task of `sched_task` is NULL for the dummy task. `recorded` is
the network event of the aide's socket that its reactor has not returned yet, and `executed`
has the executions of the record at an address, with what libc then was, since a call set it
up. -/
structure DnsSystem where
  sync : SyncSystem
  call : Addr
  schedTask : Addr
  requests : List DnsSync
  responses : List DnsSync
  recorded : Bool
  records : Addr → Option DnsCall
  uses : Addr → Option DnsUse
  handler : HandlerPhase
  drain : DrainPhase
  executed : Addr → List (DnsQuery × Resolver)

namespace DnsSystem

def setPhase (self : DnsSystem) (t : Addr) (use : DnsUse) (phase : DnsPhase) : DnsSystem :=
  { self with uses := Function.update self.uses t (some { use with phase := phase }) }

def locked (self : DnsSystem) (t : Addr) (use : DnsUse) (reply : TaskReply) : DnsSystem :=
  self.setPhase t use (if reply = .blocked then .lock else .setCall)

/-- `hev_task_dns_proxy_getaddrinfo` or `hev_task_dns_proxy_getnameinfo`, up to the mutex with
the address `m`. -/
def start (self : DnsSystem) (m t record : Addr) (query : DnsQuery) : Option DnsSystem := do
  let (sync, reply) ← self.sync.lock t m .user
  let self := { self with
    sync := sync
    records := Function.update self.records record (some ⟨query, -1, none⟩)
    executed := Function.update self.executed record [] }
  return self.locked t ⟨record, query, .lock⟩ reply

/-- The task goes on in `hev_task_dns_proxy_call`, or returns from its caller. -/
def advance (self : DnsSystem) (m t : Addr) (use : DnsUse) (io : DnsIo) : Option (DnsSystem × Option DnsResult) := do
  match use.phase with
  | .lock =>
    let (sync, reply) ← self.sync.resume t 0
    return (locked { self with sync := sync } t use reply, none)
  | .setCall => return (setPhase { self with call := use.record, schedTask := t } t use .write, none)
  | .write =>
    match io with
    | .done => return (setPhase { self with requests := self.requests ++ [.s], recorded := true } t use .read, none)
    | .eintr => return (self, none)
    | .eagain => return ({ self with sync := self.sync.sleep t }, none)
  | .read =>
    match io, self.responses with
    | .done, _ :: responses => return (setPhase { self with responses := responses } t use .unlock, none)
    | .done, [] => failure
    | .eintr, _ => return (self, none)
    | .eagain, _ => return ({ self with sync := self.sync.sleep t }, none)
  | .unlock =>
    let sync ← self.sync.mutexUnlock t m
    return (setPhase { self with sync := sync, schedTask := 0 } t use .finish, none)
  | .finish =>
    let call ← self.records use.record
    let err ← call.err
    return ({ self with
      records := Function.update self.records use.record none
      uses := Function.update self.uses t none }, some ⟨call.ret, err⟩)

/-- An event of `fd` in the reactor of the tasks. -/
def event (self : DnsSystem) : Option DnsSystem := do
  let pool ← self.sync.pool.wakeupField self.schedTask
  return { self with sync := { self.sync with pool := pool } }

def serve (self : DnsSystem) (io : DnsIo) (libc : Resolver) : Option DnsSystem := do
  match self.handler with
  | .idle => failure
  | .fetched => return { self with handler := .read }
  | .read =>
    match io, self.requests with
    | .done, sync :: requests => return { self with
        requests := requests
        recorded := self.recorded || !requests.isEmpty
        handler := .check sync }
    | .done, [] => failure
    | .eintr, _ => return self
    | .eagain, _ => return { self with handler := .idle }
  | .check sync => return { self with handler := if self.call ≠ 0 then .exec sync else .write sync }
  | .exec sync =>
    let _ ← self.records self.call
    return { self with handler := .resolve sync self.call }
  | .resolve sync a =>
    let call ← self.records a
    let result := call.query.resolve libc
    return { self with
      records := Function.update self.records a (some { call with ret := result.ret, err := some result.err })
      executed := Function.update self.executed a (self.executed a ++ [(call.query, libc)])
      handler := .write sync }
  | .write sync =>
    match io with
    | .done => return { self with
        responses := self.responses ++ [sync]
        handler := if sync = .d then .idle else .read }
    | .eintr | .eagain => return self

def drainNext (self : DnsSystem) (io : DnsIo) : Option DnsSystem := do
  match self.drain with
  | .idle => return { self with call := 0, drain := .write }
  | .write =>
    match io with
    | .done => return { self with requests := self.requests ++ [.d], recorded := true, drain := .read }
    | .eintr | .eagain => return self
  | .read =>
    match io, self.responses with
    | .done, sync :: responses =>
      return { self with responses := responses, drain := if sync = .d then .done else .read }
    | .done, [] => failure
    | .eintr, _ | .eagain, _ => return self
  | .done => failure

end DnsSystem

inductive DnsOp where
  /-- A task starts, ends, waits for something else or is woken. -/
  | task (op : SyncOp)
  | start (t record : Addr) (query : DnsQuery)
  | advance (t : Addr) (io : DnsIo)
  | event
  /-- `hev_task_io_reactor_wait` of the aide thread returns the work of the proxy. -/
  | fetch
  | serve (io : DnsIo) (libc : Resolver)
  | drain (io : DnsIo)

namespace DnsOp

def Outside (s : DnsSystem) : SyncOp → Prop
  | .start _ | .wake _ => True
  | .exit t | .wait t => s.uses t = none
  | _ => False

/-- What the callers and the system guarantee. The reactor reports a descriptor that is
readable or was recorded to be, only the task system of the tasks drains, while none of them is in a call, and a
proxy is not used after it was drained. -/
def Ready (s : DnsSystem) : DnsOp → Prop
  | .task op => Outside s op ∧ op.Ready s.sync
  | .start t record _ => SyncOp.Calls s.sync t ∧ s.uses t = none ∧ s.drain = .idle ∧ record ≠ 0 ∧
      s.records record = none
  | .advance t io => s.sync.pool t = some .running ∧
      ∃ use, s.uses t = some use ∧ (use.phase = .read → io = .done → s.responses ≠ [])
  | .event => True
  | .fetch => s.handler = .idle ∧ (s.requests ≠ [] ∨ s.recorded = true)
  | .serve io _ => s.handler ≠ .idle ∧ (s.handler = .read → io = .done → s.requests ≠ [])
  | .drain io => (s.drain = .idle → ∀ t, s.uses t = none) ∧ s.drain ≠ .done ∧
      (s.drain = .read → io = .done → s.responses ≠ [])

def apply (m : Addr) (s : DnsSystem) : DnsOp → Option (DnsSystem × Option DnsResult)
  | .task op => do
    let (sync, _) ← op.apply 0 s.sync
    return ({ s with sync := sync }, none)
  | .start t record query => do return (← s.start m t record query, none)
  | .advance t io => do
    let use ← s.uses t
    s.advance m t use io
  | .event => do return (← s.event, none)
  | .fetch => some ({ s with recorded := false, handler := .fetched }, none)
  | .serve io libc => do return (← s.serve io libc, none)
  | .drain io => do return (← s.drainNext io, none)

end DnsOp

/-- A new proxy, whose mutex has the address `m`. -/
def dnsSystem (m : Addr) : System DnsSystem DnsOp where
  init s := syncSystem.init s.sync ∧ s.call = 0 ∧ s.schedTask = 0 ∧ s.requests = [] ∧ s.responses = [] ∧
    s.recorded = false ∧ (∀ a, s.records a = none) ∧ (∀ t, s.uses t = none) ∧ s.handler = .idle ∧ s.drain = .idle
  step s op next := op.Ready s ∧ ∃ reply, op.apply m s = some (next, reply)

/-- The descriptor that the reactor of the aide returns is readable. -/
def DnsOp.Readable (s : DnsSystem) : DnsOp → Prop
  | .fetch => s.requests ≠ []
  | .task _ | .start .. | .advance .. | .event | .serve .. | .drain _ => True

/-- A proxy with a reactor that checks the descriptors which it returns, as epoll and kqueue do. -/
def readableSystem (m : Addr) : System DnsSystem DnsOp := (dnsSystem m).restrict DnsOp.Readable

end HevTaskSystem
