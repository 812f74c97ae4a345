import HevTaskSystem.Channel.Channel
import HevTaskSystem.Foundation.Transition

/-! Tasks that use channels and selectors, as a transition system.

Any running task may be the next one to go on, and any waiting task may be woken for
another reason than a channel.
-/

set_option autoImplicit false

namespace HevTaskSystem

open Foundation ChannelSystem

def Call.self : Call → Addr
  | .read self _ | .writeFull self _ _ | .writeSync self _ _ _ _ => self
  | .idle | .select .. => 0

def Call.peer : Call → Addr
  | .writeFull _ peer _ | .writeSync _ peer _ _ _ => peer
  | .idle | .read .. | .select .. => 0

def Call.Proper : Call → Prop
  | .read self _ | .select self _ _ _ => self ≠ 0
  | .writeFull self peer _ | .writeSync self peer _ _ _ => self ≠ 0 ∧ peer ≠ 0
  | .idle => True

def Call.selector : Call → Addr
  | .select self _ _ _ => self
  | _ => 0

/-- The first five are of the tasks: started, ended, waiting for something else, woken
by something else, and resumed. -/
inductive ChannelOp where
  | start (t : Addr)
  | exit (t : Addr)
  | wait (t : Addr)
  | wake (t : Addr)
  | resume (t : Addr) (left : Nat)
  | new (c1 c2 : Addr) (size buffers : Nat)
  | destroy (self : Addr)
  | read (t self : Addr) (count : Nat)
  | write (t self : Addr) (buffer : List UInt8)
  | selectNew (self : Addr)
  | selectDestroy (self : Addr)
  | selectAdd (t self chan : Addr)
  | selectDel (t self chan : Addr)
  | select (t self : Addr) (list : Readiness) (timeout : Int)
  deriving DecidableEq, Repr

namespace ChannelOp

def apply (s : ChannelSystem) : ChannelOp → Option (ChannelSystem × Reply)
  | .start t => some ({ s with pool := Function.update s.pool t (some .running) }, .void)
  | .exit t => some ({ s with pool := Function.update s.pool t (some .stopped) }, .void)
  | .wait t => some ({ s with pool := s.pool.wait t }, .blocked)
  | .wake t => do
    let pool ← s.pool.wakeup t
    return ({ s with pool }, .void)
  | .resume t left => s.resume t left
  | .new c1 c2 size buffers => some (s.newWithBuffers c1 c2 size buffers)
  | .destroy self => s.channelDestroy self
  | .read t self count => s.channelRead t self count
  | .write t self buffer => s.channelWrite t self buffer
  | .selectNew self => some (s.selectNew self)
  | .selectDestroy self => s.selectDestroy self
  | .selectAdd t self chan => s.selectAdd t self chan
  | .selectDel _ self chan => s.selectDel self chan
  | .select t self list timeout => s.channelSelect t self list timeout

def Calls (s : ChannelSystem) (t : Addr) : Prop := s.pool t = some .running ∧ s.calls t = .idle

/-- What the scheduler, the allocator and the callers guarantee. A channel is destroyed
once, with no task inside an operation of it, and is no member of a selector then; it is
a member of at most one selector; a selector is destroyed when it has no members. -/
def Ready (s : ChannelSystem) : ChannelOp → Prop
  | .start t => t ≠ 0 ∧ (s.pool t = none ∨ s.pool t = some .stopped)
  | .exit t => Calls s t ∧ ∀ c, s.select c ≠ 0 → s.task c ≠ t
  | .wait t => Calls s t
  | .wake t => s.pool t = some .waiting
  | .resume t _ => s.pool t = some .running ∧ s.calls t ≠ .idle
  | .new c1 c2 size buffers => s.allocated c1 = false ∧ s.allocated c2 = false ∧ (c1 ≠ 0 → c1 ≠ c2) ∧
      16 * (buffers + 1) < 2 ^ 32 ∧ size * (buffers + 1) < 2 ^ 32
  | .destroy self => s.alive self = true ∧ s.select self = 0 ∧ ∀ t, (s.calls t).self ≠ self
  | .read t self _ | .write t self _ => Calls s t ∧ s.alive self = true
  | .selectNew self => s.selectors self = false
  | .selectDestroy self => self ≠ 0 ∧ s.selectors self = true ∧ (∀ c, s.select c ≠ self) ∧
      ∀ t, (s.calls t).selector ≠ self
  | .selectAdd t self chan => Calls s t ∧ self ≠ 0 ∧ s.selectors self = true ∧ s.alive chan = true ∧
      s.select chan = 0
  | .selectDel t self chan => Calls s t ∧ self ≠ 0 ∧ s.select chan = self
  | .select t self _ _ => Calls s t ∧ self ≠ 0 ∧ s.selectors self = true

end ChannelOp

def channelSystem : System ChannelSystem ChannelOp where
  init s := (∀ t, s.pool t = none) ∧ (∀ t, s.calls t = .idle) ∧ (∀ c, s.allocated c = false) ∧
    (∀ c, s.alive c = false) ∧ (∀ c, s.select c = 0) ∧ (∀ self, s.selectors self = false) ∧
    (∀ c, s.readLists.used c = false ∧ s.writeLists.used c = false) ∧
    ∀ self, s.chanLists.list self = ⟨0, 0⟩ ∧ s.readLists.family.list self = ⟨0, 0⟩ ∧
      s.writeLists.family.list self = ⟨0, 0⟩
  step s op next := op.Ready s ∧ ∃ reply, op.apply s = some (next, reply)

namespace ChannelSystem

def empty : ChannelSystem where
  pool _ := none
  calls _ := .idle
  allocated _ := false
  peer _ := 0
  task _ := 0
  select _ := 0
  refCount _ := 0
  ring _ := .new 0 0
  selectors _ := false
  chanLists := ⟨⟨fun _ => 0, fun _ => 0⟩, fun _ => ⟨0, 0⟩⟩
  readLists := ⟨⟨⟨fun _ => 0, fun _ => 0⟩, fun _ => ⟨0, 0⟩⟩, fun _ => false⟩
  writeLists := ⟨⟨⟨fun _ => 0, fun _ => 0⟩, fun _ => ⟨0, 0⟩⟩, fun _ => false⟩
  alive _ := false
  clock := 0
  since _ := 0

theorem empty_init : channelSystem.init empty := by simp [channelSystem, empty]

/-! ## The invariant -/

def Active (s : ChannelSystem) (t : Addr) : Prop := s.pool t = some .running ∨ s.pool t = some .waiting

/-- An operation of the endpoint `c` may write to the ring of `p`. -/
structure Target (s : ChannelSystem) (c p : Addr) : Prop where
  user : s.alive c = true
  allocated : s.allocated p = true
  other : c ≠ p
  linked : s.peer c = p ∨ (s.peer c = 0 ∧ s.alive p = false)
  maxSize : (s.ring c).maxSize = (s.ring p).maxSize

/-- Endpoints in use are allocated and point at each other. -/
structure Topology (s : ChannelSystem) : Prop where
  null : s.allocated 0 = false
  allocated : ∀ c, s.alive c = true → s.allocated c = true
  peers : ∀ c, s.alive c = true → s.peer c ≠ 0 → s.alive (s.peer c) = true ∧ s.peer (s.peer c) = c ∧
    s.peer c ≠ c ∧ (s.ring c).maxSize = (s.ring (s.peer c)).maxSize
  proper : ∀ t, (s.calls t).Proper
  users : ∀ t, (s.calls t).self ≠ 0 → s.alive (s.calls t).self = true
  targets : ∀ t, (s.calls t).peer ≠ 0 → s.Target (s.calls t).self (s.calls t).peer

/-- An endpoint has one reference of its user and one of each task that writes to it. -/
def Refs (s : ChannelSystem) : Prop :=
  ∀ c, s.allocated c = true → ∃ holders : Finset Addr, (∀ t, t ∈ holders ↔ (s.calls t).peer = c) ∧
    s.refCount c = holders.card + if s.alive c then 1 else 0

/-- Tasks inside an operation, and tasks in a `task` field, can be woken. -/
structure Tasks (s : ChannelSystem) : Prop where
  null : s.pool 0 = none
  active : ∀ t, s.calls t ≠ .idle → s.Active t
  task : ∀ c, s.allocated c = true → s.task c ≠ 0 →
    s.Active (s.task c) ∧ ((s.calls (s.task c)).self = c ∨ s.select c ≠ 0)
  selector : ∀ t, (s.calls t).selector ≠ 0 → s.selectors (s.calls t).selector = true

/-- The task has stored the message in the ring of `c` and waits for it to be taken. -/
def Writer (s : ChannelSystem) (c t : Addr) (message : List UInt8) : Prop :=
  ∃ self size index, s.calls t = .writeSync self c message size index

structure Rings (s : ChannelSystem) : Prop where
  ok : ∀ c, s.allocated c = true → (s.ring c).Ok
  holds : ∀ c, s.alive c = true → (s.ring c).Holds (s.Writer c)

/-- The lists hold the members in these orders. A member is in the list of its own
selector if its flag is set. -/
structure Listed (family : ListFamily) (select : Addr → Addr) (used : Addr → Bool)
    (order : Addr → List Addr) : Prop where
  holds : family.Holds order
  mem : ∀ self c, c ∈ order self ↔ self ≠ 0 ∧ select c = self ∧ used c = true

structure Lists (s : ChannelSystem) (chanOrder readOrder writeOrder : Addr → List Addr) : Prop where
  registered : ∀ c, s.select c ≠ 0 → s.alive c = true ∧ s.selectors (s.select c) = true
  chan : Listed s.chanLists s.select (fun _ => true) chanOrder
  read : Listed s.readLists.family s.select s.readLists.used readOrder
  write : Listed s.writeLists.family s.select s.writeLists.used writeOrder
  readable : ∀ c, s.readLists.used c = true ↔ s.select c ≠ 0 ∧ s.isReadable c
  writable : ∀ c, s.writeLists.used c = true → s.select c ≠ 0
  since : ∀ self, (readOrder self).Pairwise fun a b => s.since a < s.since b
  clock : ∀ self, ∀ c ∈ readOrder self, s.since c < s.clock

def Registry (s : ChannelSystem) : Prop :=
  ∃ chanOrder readOrder writeOrder, s.Lists chanOrder readOrder writeOrder

structure Inv (s : ChannelSystem) : Prop where
  topology : s.Topology
  refs : s.Refs
  tasks : s.Tasks
  rings : s.Rings
  lists : s.Registry

end ChannelSystem

end HevTaskSystem
