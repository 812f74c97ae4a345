import HevTaskSystem.Foundation.Footprint
import HevTaskSystem.RBTree.Memory

/-! What the task system of a thread acquires from the process: blocks of the default
allocator, stacks, descriptors and a reference to the aide.

Each request may fail, and the functions that make several of them give back what they have.
The answers of the system are inputs; an address or descriptor it answers with is not in use.
-/

set_option autoImplicit false

namespace HevTaskSystem

open Foundation

/-- Things that have to be given back. A `block` is one of `hev_malloc`, a `raw` one of `malloc`,
and an `aide` is a reference of the holder. -/
inductive Resource where
  | winsock
  | allocator (a : Addr)
  | block (a : Addr)
  | raw (a : Addr)
  | map (a : Addr)
  | fd (n : Nat)
  | aide (holder : Addr)
  deriving DecidableEq

/-- What is at large, the field `tls_default_allocator` and the allocator that issued each
block. The faults count the releases of what is not at large, and the blocks that are freed
by another allocator than the one that issued them. -/
structure Process where
  ledger : Ledger Resource
  allocator : Addr
  issuer : Addr → Addr
  faults : Nat

/-- The answers to `hev_malloc`: the address for the default allocator if there is none,
and the block, zero for a failure. -/
structure MallocAnswer where
  simple : Addr
  block : Addr

namespace Process

def start : Process := ⟨.empty, 0, fun _ => 0, 0⟩

def acquire (p : Process) (r : Resource) : Option Process :=
  if (p.ledger.number r).isSome then none else some { p with ledger := p.ledger.give r }

def release (p : Process) (r : Resource) : Process :=
  match p.ledger.take r with
  | some ledger => { p with ledger }
  | none => { p with faults := p.faults + 1 }

/-- The function `hev_memory_allocator_default`. Without an allocator the callers fault, so
the memory for a new one is taken to be there. -/
def allocatorDefault (p : Process) (simple : Addr) : Option Process :=
  if p.allocator ≠ 0 then some p
  else if simple = 0 then none
  else do
    let p ← p.acquire (.allocator simple)
    return { p with allocator := simple }

def malloc (p : Process) (answer : MallocAnswer) : Option (Process × Addr) := do
  let p ← p.allocatorDefault answer.simple
  if answer.block = 0 then return (p, 0)
  else
    let p ← p.acquire (.block answer.block)
    return ({ p with issuer := Function.update p.issuer answer.block p.allocator }, answer.block)

def free (p : Process) (a : Addr) : Process :=
  if p.allocator ≠ 0 ∧ p.issuer a = p.allocator then p.release (.block a) else { p with faults := p.faults + 1 }

/-- The function `hev_memory_allocator_unref` for an allocator that has one reference. -/
def allocatorUnref (p : Process) (a : Addr) : Process := p.release (.allocator a)

def allocatorReplace (p : Process) (a : Addr) : Process :=
  let old := p.allocator
  let p := { p with allocator := a }
  if old ≠ 0 then p.allocatorUnref old else p

end Process

/-- `CONFIG_STACK_BACKEND`, for `STACK_MMAP` with or without `ENABLE_STACK_OVERFLOW_DETECTION`. -/
inductive StackBackend where
  | heap
  | mmap (detection : Bool)
  deriving DecidableEq

structure TaskStack where
  block : Addr
  map : Option Addr
  deriving DecidableEq

structure StackAnswer where
  malloc : MallocAnswer
  map : Option Addr
  protect : Bool

/-- The answers to `hev_task_io_reactor_new` of epoll and kqueue: the descriptor, and whether both
calls of `fcntl` succeed. -/
structure ReactorAnswer where
  malloc : MallocAnswer
  fd : Option Nat
  flags : Bool

structure TaskReactor where
  block : Addr
  fd : Nat
  deriving DecidableEq

/-- The answers to `hev_task_stack_detector_new`: the block of `malloc`, and whether the signal
handlers could be set. -/
structure DetectorAnswer where
  raw : Option Addr
  signals : Bool

structure ProxyAnswer where
  malloc : MallocAnswer
  aide : Bool
  fds : Option (Nat × Nat)
  cloexec : Bool
  setup : Bool
  add : Bool

structure DnsProxyBlock where
  block : Addr
  fd : Nat
  workFd : Nat
  deriving DecidableEq

namespace Process

def stackNew (p : Process) (answer : StackAnswer) : StackBackend → Option (Process × Option TaskStack)
  | .heap => do
    let (p, self) ← p.malloc answer.malloc
    if self = 0 then return (p, none) else return (p, some ⟨self, none⟩)
  | .mmap detection => do
    let (p, self) ← p.malloc answer.malloc
    if self = 0 then return (p, none)
    else
      match answer.map with
      | none => return (p.free self, none)
      | some map =>
        let p ← p.acquire (.map map)
        if detection ∧ ¬ answer.protect then return ((p.release (.map map)).free self, none)
        else return (p, some ⟨self, some map⟩)

def stackDestroy (p : Process) (stack : TaskStack) : Process :=
  match stack.map with
  | none => p.free stack.block
  | some map => (p.release (.map map)).free stack.block

def reactorNew (p : Process) (answer : ReactorAnswer) : Option (Process × Option TaskReactor) := do
  let (p, self) ← p.malloc answer.malloc
  if self = 0 then return (p, none)
  else
    match answer.fd with
    | none => return (p.free self, none)
    | some fd =>
      let p ← p.acquire (.fd fd)
      if ¬ answer.flags then return ((p.release (.fd fd)).free self, none) else return (p, some ⟨self, fd⟩)

def reactorDestroy (p : Process) (reactor : TaskReactor) : Process := (p.release (.fd reactor.fd)).free reactor.block

def detectorNew (p : Process) (answer : DetectorAnswer) : Option (Process × Option Addr) :=
  match answer.raw with
  | none => some (p, none)
  | some self => do
    let p ← p.acquire (.raw self)
    if ¬ answer.signals then return (p.release (.raw self), none) else return (p, some self)

def proxyNew (p : Process) (answer : ProxyAnswer) : Option (Process × Option DnsProxyBlock) := do
  let (p, self) ← p.malloc answer.malloc
  if self = 0 then return (p, none)
  else if ¬ answer.aide then return (p.free self, none)
  else
    let p ← p.acquire (.aide self)
    match answer.fds with
    | none => return ((p.release (.aide self)).free self, none)
    | some (fd0, fd1) =>
      let p ← p.acquire (.fd fd0)
      let p ← p.acquire (.fd fd1)
      if ¬ answer.cloexec ∨ ¬ answer.setup ∨ ¬ answer.add then
        return ((((p.release (.fd fd0)).release (.fd fd1)).release (.aide self)).free self, none)
      else return (p, some ⟨self, fd0, fd1⟩)

/-- The function `hev_task_dns_proxy_destroy`, without the exchange with the aide. -/
def proxyDestroy (p : Process) (proxy : DnsProxyBlock) : Process :=
  (((p.release (.aide proxy.block)).release (.fd proxy.workFd)).release (.fd proxy.fd)).free proxy.block

def defaults (p : Process) : Multiset Resource := if p.allocator = 0 then 0 else {.allocator p.allocator}

/-- Besides the default allocator, the resources at large are those of the footprint, and its
blocks are from that allocator. -/
structure Holds (p : Process) (m : Multiset Resource) : Prop where
  ledger : p.ledger.Holds (p.defaults + m)
  issued : ∀ a, .block a ∈ m → p.allocator ≠ 0 ∧ p.issuer a = p.allocator
  faults : p.faults = 0

variable {p next : Process} {m : Multiset Resource} {r : Resource} {a : Addr}

theorem start_holds : start.Holds 0 := ⟨.empty, fun _ member => absurd member (Multiset.notMem_zero _), rfl⟩

theorem Holds.acquire (holds : p.Holds m) (run : p.acquire r = some next) (other : ∀ a, r ≠ .block a) :
    next.Holds (r ::ₘ m) := by
  unfold Process.acquire at run
  split_ifs at run with used
  cases run
  refine ⟨?_, fun a member => holds.issued a ?_, holds.faults⟩
  · have given := holds.ledger.give (Option.not_isSome_iff_eq_none.mp used)
    rwa [← Multiset.add_cons] at given
  · exact (Multiset.mem_cons.mp member).resolve_left (other a).symm

theorem Holds.release_ledger (ledger : p.ledger.Holds (r ::ₘ m)) :
    ∃ ledger, p.release r = { p with ledger } ∧ ledger.Holds m := by
  obtain ⟨rest, taken, holds⟩ := ledger.take
  exact ⟨rest, by simp [Process.release, taken], holds⟩

theorem Holds.release (holds : p.Holds (r ::ₘ m)) : (p.release r).Holds m := by
  have ledger := holds.ledger
  rw [Multiset.add_cons] at ledger
  obtain ⟨rest, released, rest_holds⟩ := release_ledger ledger
  rw [released]
  exact ⟨rest_holds, fun a member => holds.issued a (Multiset.mem_cons_of_mem member), holds.faults⟩

theorem Holds.free (holds : p.Holds (.block a ::ₘ m)) : (p.free a).Holds m := by
  unfold Process.free
  rw [if_pos (holds.issued a (Multiset.mem_cons_self _ m))]
  exact holds.release

theorem Holds.allocatorDefault {simple : Addr} (holds : p.Holds m) (run : p.allocatorDefault simple = some next) :
    next.Holds m ∧ next.allocator ≠ 0 := by
  unfold Process.allocatorDefault at run
  split_ifs at run with present missing
  · cases run
    exact ⟨holds, present⟩
  · -- Nothing was issued before there was an allocator.
    obtain ⟨given, acquired, last⟩ := Option.bind_eq_some_iff.mp run
    cases last
    have after := holds.acquire acquired fun a => by simp
    have none : p.allocator = 0 := not_not.mp present
    unfold Process.acquire at acquired
    split_ifs at acquired
    cases acquired
    refine ⟨⟨?_, fun a member => absurd none (holds.issued a member).1, holds.faults⟩, missing⟩
    have ledger := after.ledger
    simp only [defaults, none, if_true, Multiset.zero_add] at ledger
    simpa [defaults, missing] using ledger

theorem Holds.malloc {answer : MallocAnswer} (holds : p.Holds m) (run : p.malloc answer = some (next, a)) :
    (a = 0 ∧ next.Holds m) ∨ (a ≠ 0 ∧ next.Holds (.block a ::ₘ m)) := by
  obtain ⟨mid, ready, rest⟩ := Option.bind_eq_some_iff.mp run
  obtain ⟨holds, present⟩ := holds.allocatorDefault ready
  split_ifs at rest with failed
  · cases rest
    exact .inl ⟨rfl, holds⟩
  · obtain ⟨given, acquired, last⟩ := Option.bind_eq_some_iff.mp rest
    cases last
    unfold Process.acquire at acquired
    split_ifs at acquired with used
    cases acquired
    have given := holds.ledger.give (Option.not_isSome_iff_eq_none.mp used)
    rw [← Multiset.add_cons] at given
    refine .inr ⟨failed, given, fun b member => ?_, holds.faults⟩
    by_cases same : b = answer.block
    · subst same
      exact ⟨present, Function.update_self ..⟩
    · have old := (Multiset.mem_cons.mp member).resolve_left fun equal => same (Resource.block.inj equal)
      obtain ⟨_, issued⟩ := holds.issued b old
      exact ⟨present, (Function.update_of_ne same ..).trans issued⟩

theorem Holds.allocatorReplace (holds : p.Holds ((if a = 0 then 0 else {.allocator a}) + m)) (blocks : ∀ b, .block b ∉ m) :
    (p.allocatorReplace a).Holds m := by
  have ledger := holds.ledger
  unfold Process.allocatorReplace
  dsimp only
  split_ifs with present
  · rw [defaults, if_neg present, Multiset.singleton_add] at ledger
    obtain ⟨rest, released, rest_holds⟩ := release_ledger (show ({ p with allocator := a } : Process).ledger.Holds _ from ledger)
    rw [allocatorUnref, released]
    exact ⟨rest_holds, fun b member => absurd member (blocks b), holds.faults⟩
  · rw [defaults, if_pos (not_not.mp present), Multiset.zero_add] at ledger
    exact ⟨ledger, fun b member => absurd member (blocks b), holds.faults⟩

end Process

def TaskStack.resources (stack : TaskStack) : Multiset Resource :=
  .block stack.block ::ₘ stack.map.elim 0 fun map => {.map map}

def TaskReactor.resources (reactor : TaskReactor) : Multiset Resource := {.fd reactor.fd, .block reactor.block}

def DnsProxyBlock.resources (proxy : DnsProxyBlock) : Multiset Resource :=
  {.aide proxy.block, .fd proxy.workFd, .fd proxy.fd, .block proxy.block}

namespace Process

variable {p next : Process} {m : Multiset Resource}

theorem Holds.stackNew {answer : StackAnswer} {backend : StackBackend} {stack : Option TaskStack} (holds : p.Holds m)
    (run : p.stackNew answer backend = some (next, stack)) : next.Holds (stack.elim 0 TaskStack.resources + m) := by
  cases backend with
  | heap =>
    obtain ⟨⟨mid, self⟩, first, rest⟩ := Option.bind_eq_some_iff.mp run
    rcases holds.malloc first with ⟨rfl, holds⟩ | ⟨nonnull, holds⟩
    · cases rest
      simpa using holds
    · dsimp only at rest
      rw [if_neg nonnull] at rest
      cases rest
      simpa [TaskStack.resources] using holds
  | mmap detection =>
    obtain ⟨⟨mid, self⟩, first, rest⟩ := Option.bind_eq_some_iff.mp run
    rcases holds.malloc first with ⟨rfl, holds⟩ | ⟨nonnull, holds⟩
    · cases rest
      simpa using holds
    · dsimp only at rest
      rw [if_neg nonnull] at rest
      cases map : answer.map with
      | none =>
        rw [map] at rest
        cases rest
        simpa using holds.free
      | some map' =>
        rw [map] at rest
        obtain ⟨mapped, second, rest⟩ := Option.bind_eq_some_iff.mp rest
        have holds := holds.acquire second fun a => by simp
        split_ifs at rest
        · cases rest
          simpa using holds.release.free
        · cases rest
          simpa [TaskStack.resources, Multiset.cons_swap] using holds

theorem Holds.stackDestroy {stack : TaskStack} (holds : p.Holds (stack.resources + m)) :
    (p.stackDestroy stack).Holds m := by
  obtain ⟨block, map⟩ := stack
  cases map with
  | none => exact Holds.free (by simpa [TaskStack.resources] using holds)
  | some map =>
    refine Holds.free (Holds.release ?_)
    simpa [TaskStack.resources, Multiset.cons_swap] using holds

theorem Holds.reactorNew {answer : ReactorAnswer} {reactor : Option TaskReactor} (holds : p.Holds m)
    (run : p.reactorNew answer = some (next, reactor)) : next.Holds (reactor.elim 0 TaskReactor.resources + m) := by
  obtain ⟨⟨mid, self⟩, first, rest⟩ := Option.bind_eq_some_iff.mp run
  rcases holds.malloc first with ⟨rfl, holds⟩ | ⟨nonnull, holds⟩
  · cases rest
    simpa using holds
  · dsimp only at rest
    rw [if_neg nonnull] at rest
    cases fd : answer.fd with
    | none =>
      rw [fd] at rest
      cases rest
      simpa using holds.free
    | some fd' =>
      rw [fd] at rest
      obtain ⟨created, second, rest⟩ := Option.bind_eq_some_iff.mp rest
      have holds := holds.acquire second fun a => by simp
      split_ifs at rest
      · cases rest
        simpa [TaskReactor.resources] using holds
      · cases rest
        simpa using holds.release.free

theorem Holds.reactorDestroy {reactor : TaskReactor} (holds : p.Holds (reactor.resources + m)) :
    (p.reactorDestroy reactor).Holds m := by
  refine Holds.free (Holds.release ?_)
  simpa [TaskReactor.resources] using holds

theorem Holds.detectorNew {answer : DetectorAnswer} {detector : Option Addr} (holds : p.Holds m)
    (run : p.detectorNew answer = some (next, detector)) :
    next.Holds (detector.elim 0 (fun a => {.raw a}) + m) := by
  unfold Process.detectorNew at run
  cases raw : answer.raw with
  | none =>
    rw [raw] at run
    cases run
    simpa using holds
  | some self =>
    rw [raw] at run
    obtain ⟨mid, first, rest⟩ := Option.bind_eq_some_iff.mp run
    have holds := holds.acquire first fun a => by simp
    split_ifs at rest
    · cases rest
      simpa using holds
    · cases rest
      simpa using holds.release

theorem Holds.proxyNew {answer : ProxyAnswer} {proxy : Option DnsProxyBlock} (holds : p.Holds m)
    (run : p.proxyNew answer = some (next, proxy)) : next.Holds (proxy.elim 0 DnsProxyBlock.resources + m) := by
  obtain ⟨⟨mid, self⟩, first, rest⟩ := Option.bind_eq_some_iff.mp run
  rcases holds.malloc first with ⟨rfl, holds⟩ | ⟨nonnull, holds⟩
  · cases rest
    simpa using holds
  · dsimp only at rest
    rw [if_neg nonnull] at rest
    by_cases aide : answer.aide = true
    · rw [if_neg (not_not.mpr aide)] at rest
      obtain ⟨got, second, rest⟩ := Option.bind_eq_some_iff.mp rest
      have holds := holds.acquire second fun a => by simp
      cases fds : answer.fds with
      | none =>
        rw [fds] at rest
        cases rest
        simpa using holds.release.free
      | some pair =>
        rw [fds] at rest
        obtain ⟨fd0, fd1⟩ := pair
        obtain ⟨first, third, rest⟩ := Option.bind_eq_some_iff.mp rest
        obtain ⟨both, fourth, rest⟩ := Option.bind_eq_some_iff.mp rest
        have holds := (holds.acquire third fun a => by simp).acquire fourth fun a => by simp
        split_ifs at rest
        · cases rest
          rw [Multiset.cons_swap] at holds
          simpa using holds.release.release.release.free
        · cases rest
          have order : (.fd fd1 ::ₘ .fd fd0 ::ₘ .aide self ::ₘ .block self ::ₘ m : Multiset Resource) =
              (.aide self ::ₘ .fd fd1 ::ₘ .fd fd0 ::ₘ .block self ::ₘ m) := by
            rw [Multiset.cons_swap (Resource.fd fd0) (Resource.aide self), Multiset.cons_swap (Resource.fd fd1)]
          rw [order] at holds
          simpa [DnsProxyBlock.resources] using holds
    · rw [if_pos aide] at rest
      cases rest
      simpa using holds.free

theorem Holds.proxyDestroy {proxy : DnsProxyBlock} (holds : p.Holds (proxy.resources + m)) :
    (p.proxyDestroy proxy).Holds m := by
  refine Holds.free (Holds.release (Holds.release (Holds.release ?_)))
  simpa [DnsProxyBlock.resources] using holds

end Process

end HevTaskSystem
