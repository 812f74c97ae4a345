import HevTaskSystem.Channel.Ring
import HevTaskSystem.List.HevList
import HevTaskSystem.Scheduler.Pool

/-! Channels and channel selectors, `kern/itc`.

The tasks are scheduled cooperatively, so the code between two yields is one step. An
operation that waits leaves its place and its local variables in the call of its task
and goes on from there when the task is resumed. Addresses are followed only while the
structure is allocated; following another one is a fault.
-/

set_option autoImplicit false

namespace HevTaskSystem

inductive Readiness where
  | read
  | write
  deriving DecidableEq, Repr

/-- Where a task is: in none of the operations, or behind one of their yields. The last
variable of `writeSync` is no variable of the source: the number of messages stored
before the one that the task has stored. -/
inductive Call where
  | idle
  | read (self : Addr) (count : Nat)
  | writeFull (self peer : Addr) (buffer : List UInt8)
  | writeSync (self peer : Addr) (buffer : List UInt8) (size : Nat) (index : Nat)
  | select (self : Addr) (list : Readiness) (timeout : Int) (milliseconds : Nat)
  deriving DecidableEq, Repr

/-- What an operation has come to when its task yields or returns. -/
inductive Reply where
  | blocked
  | void
  | returns (value : Int)
  | data (bytes : List UInt8)
  | chan (c : Addr)
  deriving DecidableEq, Repr

/-- One kind of nodes of the channels, with the used flags, and the lists of the selectors. -/
structure ReadyLists where
  family : ListFamily
  used : Addr → Bool

namespace ReadyLists

def add (lists : ReadyLists) (self chan : Addr) : ReadyLists :=
  if lists.used chan then lists
  else ⟨lists.family.addTail self chan, Function.update lists.used chan true⟩

def del (lists : ReadyLists) (self chan : Addr) : ReadyLists :=
  if ¬ lists.used chan then lists
  else ⟨lists.family.del self chan, Function.update lists.used chan false⟩

end ReadyLists

/-- The fields of all `HevTaskChannel` and `HevTaskChannelSelect`, by address, with the
tasks that use them. The last three are no fields of the source, and no operation reads
them: the endpoints that were not destroyed, the number of times that a channel became
readable or was registered readable, and the number of the last such time for each channel. -/
structure ChannelSystem where
  pool : TaskPool
  calls : Addr → Call
  allocated : Addr → Bool
  peer : Addr → Addr
  task : Addr → Addr
  select : Addr → Addr
  refCount : Addr → Nat
  ring : Addr → ChannelRing
  selectors : Addr → Bool
  chanLists : ListFamily
  readLists : ReadyLists
  writeLists : ReadyLists
  alive : Addr → Bool
  clock : Nat
  since : Addr → Nat

namespace ChannelSystem

def deref (s : ChannelSystem) (c : Addr) : Option Unit :=
  if c ≠ 0 ∧ s.allocated c then some () else none

def derefSelect (s : ChannelSystem) (self : Addr) : Option Unit :=
  if self ≠ 0 ∧ s.selectors self then some () else none

def setRing (s : ChannelSystem) (c : Addr) (ring : ChannelRing) : ChannelSystem :=
  { s with ring := Function.update s.ring c ring }

def enter (s : ChannelSystem) (t : Addr) (call : Call) : ChannelSystem :=
  { s with calls := Function.update s.calls t call }

def leave (s : ChannelSystem) (t : Addr) : ChannelSystem := s.enter t .idle

/-- `self->task = hev_task_self (); hev_task_yield (HEV_TASK_WAITIO)` -/
def yieldOn (s : ChannelSystem) (t self : Addr) : ChannelSystem :=
  { s with task := Function.update s.task self t, pool := s.pool.wait t }

/-- `self->task = NULL`, after the yield. -/
def clearTask (s : ChannelSystem) (self : Addr) : Option ChannelSystem := do
  s.deref self
  return { s with task := Function.update s.task self 0 }

/-- `if (c->task) hev_task_wakeup (c->task)` -/
def wakeTask (s : ChannelSystem) (c : Addr) : Option ChannelSystem := do
  let pool ← s.pool.wakeupField (s.task c)
  return { s with pool }

def stamp (s : ChannelSystem) (c : Addr) : ChannelSystem :=
  { s with since := Function.update s.since c s.clock, clock := s.clock + 1 }

/-- The buffer of a task that is inside `hev_task_channel_write`. -/
def buffer (s : ChannelSystem) (t : Addr) : Option (List UInt8) :=
  match s.calls t with
  | .writeFull _ _ buffer | .writeSync _ _ buffer _ _ => some buffer
  | _ => none

/-! ## Predicates of `hev-task-channel-private.h` -/

abbrev isActive (s : ChannelSystem) (self : Addr) : Prop := s.peer self ≠ 0

abbrev isReadable (s : ChannelSystem) (self : Addr) : Prop := (s.ring self).useCount ≠ 0

abbrev isWritable (s : ChannelSystem) (peer : Addr) : Prop := (s.ring peer).useCount < (s.ring peer).maxCount

abbrev isSelectWritable (s : ChannelSystem) (peer : Addr) : Prop :=
  (s.ring peer).useCount < (s.ring peer).maxCount - 1

/-! ## Lists of a selector -/

def selectAddRead (s : ChannelSystem) (self chan : Addr) : Option ChannelSystem := do
  s.derefSelect self
  return { s with readLists := s.readLists.add self chan }

def selectDelRead (s : ChannelSystem) (self chan : Addr) : Option ChannelSystem := do
  s.derefSelect self
  return { s with readLists := s.readLists.del self chan }

def selectAddWrite (s : ChannelSystem) (self chan : Addr) : Option ChannelSystem := do
  s.derefSelect self
  return { s with writeLists := s.writeLists.add self chan }

def selectDelWrite (s : ChannelSystem) (self chan : Addr) : Option ChannelSystem := do
  s.derefSelect self
  return { s with writeLists := s.writeLists.del self chan }

/-! ## Channels -/

def channelRef (s : ChannelSystem) (self : Addr) : ChannelSystem :=
  { s with refCount := Function.update s.refCount self (s.refCount self + 1) }

def channelUnref (s : ChannelSystem) (self : Addr) : ChannelSystem :=
  let refCount := s.refCount self - 1
  { s with
    refCount := Function.update s.refCount self refCount
    allocated := if refCount ≠ 0 then s.allocated else Function.update s.allocated self false }

def initChannel (s : ChannelSystem) (self peer : Addr) (ring : ChannelRing) : ChannelSystem :=
  { s with
    allocated := Function.update s.allocated self true
    peer := Function.update s.peer self peer
    task := Function.update s.task self 0
    select := Function.update s.select self 0
    refCount := Function.update s.refCount self 1
    ring := Function.update s.ring self ring
    readLists := { s.readLists with used := Function.update s.readLists.used self false }
    writeLists := { s.writeLists with used := Function.update s.writeLists.used self false }
    alive := Function.update s.alive self true }

/-- `hev_task_channel_new_with_buffers` with the results of the two allocations. -/
def newWithBuffers (s : ChannelSystem) (c1 c2 : Addr) (size buffers : Nat) : ChannelSystem × Reply :=
  if c1 = 0 then (s, .returns (-1))
  else if c2 = 0 then (s, .returns (-1))
  else
    let ring := ChannelRing.new size buffers
    ((s.initChannel c1 c2 ring).initChannel c2 c1 ring, .returns 0)

def channelDestroy (s : ChannelSystem) (self : Addr) : Option (ChannelSystem × Reply) := do
  s.deref self
  let peer := s.peer self
  let s ←
    if peer ≠ 0 then do
      s.deref peer
      wakeTask { s with peer := Function.update s.peer peer 0 } peer
    else
      some s
  let s ← s.wakeTask self
  let s := s.channelUnref self
  return ({ s with alive := Function.update s.alive self false }, .void)

/-- `hev_task_channel_read`, what a full ring makes it do. -/
def tellWriter (s : ChannelSystem) (self : Addr) : Option ChannelSystem :=
  if (s.ring self).useCount = (s.ring self).maxCount then
    let peer := s.peer self
    if peer ≠ 0 then do
      s.deref peer
      let s ← if s.select peer ≠ 0 then s.selectAddWrite (s.select peer) peer else some s
      s.wakeTask peer
    else
      some s
  else
    some s

/-- `hev_task_channel_write`, what an empty ring makes it do. -/
def tellReader (s : ChannelSystem) (peer : Addr) : Option ChannelSystem :=
  if (s.ring peer).useCount = 0 then do
    let s := s.stamp peer
    let s ← if s.select peer ≠ 0 then s.selectAddRead (s.select peer) peer else some s
    s.wakeTask peer
  else
    some s

def dropMessage (s : ChannelSystem) (self : Addr) : Option ChannelSystem :=
  let s := s.setRing self ((s.ring self).withCount ((s.ring self).useCount - 1))
  if s.select self ≠ 0 ∧ ¬ s.isReadable self then s.selectDelRead (s.select self) self else some s

/-- `hev_task_channel_write`, the end of a write up to the second wait loop. -/
def addMessage (s : ChannelSystem) (self peer : Addr) : Option ChannelSystem :=
  let s := s.setRing peer ((s.ring peer).withCount ((s.ring peer).useCount + 1))
  if s.select self ≠ 0 ∧ ¬ s.isSelectWritable peer then s.selectDelWrite (s.select self) self else some s

/-- `hev_task_channel_read` from the test of the wait loop on. -/
def readWait (s : ChannelSystem) (t self : Addr) (count : Nat) : Option (ChannelSystem × Reply) := do
  s.deref self
  if ¬ s.isReadable self then
    if ¬ s.isActive self then
      return (s.leave t, .returns (-1))
    else
      return (s.yieldOn t self, .blocked)
  else
    let (ring, bytes) ← (s.ring self).take s.buffer count
    let s ← (s.setRing self ring).tellWriter self
    let s ← s.dropMessage self
    return (s.leave t, .data bytes)

def channelRead (s : ChannelSystem) (t self : Addr) (count : Nat) : Option (ChannelSystem × Reply) :=
  (s.enter t (.read self count)).readWait t self count

/-- `hev_task_channel_write` from the test of the second wait loop on. -/
def writeSync (s : ChannelSystem) (t self peer : Addr) (size : Nat) : Option (ChannelSystem × Reply) := do
  s.deref peer
  if ¬ s.isWritable peer then
    s.deref self
    if ¬ s.isActive self then
      return ((s.channelUnref peer).leave t, .returns (-1))
    else
      return (s.yieldOn t self, .blocked)
  else
    return ((s.channelUnref peer).leave t, .returns size)

/-- `hev_task_channel_write` from the test of the first wait loop on. -/
def writeFull (s : ChannelSystem) (t self peer : Addr) (buffer : List UInt8) :
    Option (ChannelSystem × Reply) := do
  s.deref peer
  if ¬ s.isWritable peer then
    s.deref self
    if ¬ s.isActive self then
      return ((s.channelUnref peer).leave t, .returns (-1))
    else
      return (s.yieldOn t self, .blocked)
  else
    s.deref self
    let index := (s.ring peer).writes.length
    let (ring, size) ← (s.ring peer).store t (s.ring self).maxSize buffer
    let s ← (s.setRing peer ring).tellReader peer
    let s ← s.addMessage self peer
    (s.enter t (.writeSync self peer buffer size index)).writeSync t self peer size

def channelWrite (s : ChannelSystem) (t self : Addr) (buffer : List UInt8) :
    Option (ChannelSystem × Reply) := do
  s.deref self
  let peer := s.peer self
  if peer = 0 then
    return (s.leave t, .returns (-1))
  else
    s.deref peer
    ((s.channelRef peer).enter t (.writeFull self peer buffer)).writeFull t self peer buffer

/-! ## Selectors -/

def selectNew (s : ChannelSystem) (self : Addr) : ChannelSystem × Reply :=
  if self = 0 then (s, .chan 0)
  else
    let empty (family : ListFamily) : ListFamily :=
      { family with list := Function.update family.list self ⟨0, 0⟩ }
    ({ s with
      selectors := Function.update s.selectors self true
      chanLists := empty s.chanLists
      readLists := { s.readLists with family := empty s.readLists.family }
      writeLists := { s.writeLists with family := empty s.writeLists.family } }, .chan self)

def selectDestroy (s : ChannelSystem) (self : Addr) : Option (ChannelSystem × Reply) := do
  s.derefSelect self
  return ({ s with selectors := Function.update s.selectors self false }, .void)

def selectAdd (s : ChannelSystem) (t self chan : Addr) : Option (ChannelSystem × Reply) := do
  s.derefSelect self
  s.deref chan
  let s := { s with
    select := Function.update s.select chan self
    task := Function.update s.task chan t
    chanLists := s.chanLists.addTail self chan }
  let s ← if s.isReadable chan then (s.stamp chan).selectAddRead self chan else some s
  let peer := s.peer chan
  let s ←
    if peer ≠ 0 then do
      s.deref peer
      if s.isSelectWritable peer then s.selectAddWrite self chan else some s
    else
      some s
  return (s, .void)

def selectDel (s : ChannelSystem) (self chan : Addr) : Option (ChannelSystem × Reply) := do
  s.deref chan
  let s ← s.selectDelRead self chan
  let s ← s.selectDelWrite self chan
  return ({ s with
    chanLists := s.chanLists.del self chan
    task := Function.update s.task chan 0
    select := Function.update s.select chan 0 }, .void)

/-- `hev_list_first` of the list that is waited for. -/
def selectFirst (s : ChannelSystem) (self : Addr) : Readiness → Addr
  | .read => (s.readLists.family.list self).head
  | .write => (s.writeLists.family.list self).head

/-- `hev_task_channel_select` from the test of the wait loop on. -/
def selectWait (s : ChannelSystem) (t self : Addr) (list : Readiness) (timeout : Int) (milliseconds : Nat) :
    Option (ChannelSystem × Reply) := do
  s.derefSelect self
  let node := s.selectFirst self list
  if node = 0 ∧ milliseconds ≠ 0 then
    let s := s.enter t (.select self list timeout milliseconds)
    return ({ s with pool := s.pool.wait t }, .blocked)
  else
    return (s.leave t, .chan node)

def channelSelect (s : ChannelSystem) (t self : Addr) (list : Readiness) (timeout : Int) :
    Option (ChannelSystem × Reply) := do
  s.derefSelect self
  if (s.chanLists.list self).head = 0 then
    return (s.leave t, .chan 0)
  else
    s.selectWait t self list timeout (timeout % 2 ^ 32).toNat

def resume (s : ChannelSystem) (t : Addr) (left : Nat) : Option (ChannelSystem × Reply) :=
  match s.calls t with
  | .idle => none
  | .read self count => do
    let s ← s.clearTask self
    s.readWait t self count
  | .writeFull self peer buffer => do
    let s ← s.clearTask self
    s.writeFull t self peer buffer
  | .writeSync self peer _ size _ => do
    let s ← s.clearTask self
    s.writeSync t self peer size
  | .select self list timeout milliseconds =>
    s.selectWait t self list timeout (if timeout < 0 then milliseconds else left)

end ChannelSystem

end HevTaskSystem
