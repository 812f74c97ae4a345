import HevTaskSystem.Channel.System

/-! What the operations on channels do.

While the invariant holds no pointer dangles and every task that is woken can be
woken, so each operation up to its next yield is a change of some fields.
-/

set_option autoImplicit false

namespace HevTaskSystem.ChannelSystem

open Foundation

variable {s : ChannelSystem} {t self peer c : Addr}

theorem Topology.ne_zero (topology : s.Topology) (allocated : s.allocated c = true) : c ≠ 0 := by
  rintro rfl
  rw [topology.null] at allocated
  cases allocated

theorem Topology.deref (topology : s.Topology) (allocated : s.allocated c = true) :
    s.deref c = some () := by
  rw [ChannelSystem.deref, if_pos ⟨topology.ne_zero allocated, allocated⟩]

def woken (s : ChannelSystem) (c : Addr) : TaskPool :=
  if s.task c = 0 then s.pool else Function.update s.pool (s.task c) (some .running)

theorem Tasks.wake (tasks : s.Tasks) (allocated : s.allocated c = true) :
    s.pool.wakeupField (s.task c) = some (s.woken c) := by
  unfold TaskPool.wakeupField woken
  by_cases none : s.task c = 0
  · simp [none]
  · have active := (tasks.task c allocated none).1
    simp [none, TaskPool.wakeup_eq active]

theorem Inv.selector (inv : s.Inv) (member : s.select c ≠ 0) : s.selectors (s.select c) = true := by
  obtain ⟨_, _, _, lists⟩ := inv.lists
  exact (lists.registered c member).2

/-! ## Reading -/

/-- `tellWriter`: the peer of a full ring that has room now. -/
def toldWriter (s : ChannelSystem) (self : Addr) : ChannelSystem :=
  let peer := s.peer self
  let full := (s.ring self).useCount = (s.ring self).maxCount ∧ peer ≠ 0
  { s with
    pool := if full then s.woken peer else s.pool
    writeLists :=
      if full ∧ s.select peer ≠ 0 then s.writeLists.add (s.select peer) peer else s.writeLists }

/-- `dropMessage`: one message less, and not readable after the last. -/
def dropped (s : ChannelSystem) (self : Addr) : ChannelSystem :=
  let ring := s.ring self
  { s with
    ring := Function.update s.ring self (ring.withCount (ring.useCount - 1))
    readLists :=
      if s.select self ≠ 0 ∧ ring.useCount - 1 = 0 then s.readLists.del (s.select self) self
      else s.readLists }

theorem buffer_of_writer {message : List UInt8} (writer : s.Writer c t message) :
    s.buffer t = some message := by
  obtain ⟨_, _, _, call⟩ := writer
  simp [buffer, call]

/-- A message is taken from the ring of `self`. -/
def taken (s : ChannelSystem) (self : Addr) (count : Nat) (message : List UInt8) : ChannelSystem :=
  ((s.setRing self ((s.ring self).taken count message)).toldWriter self).dropped self

theorem taken_eq {count : Nat} {message : List UInt8} : s.taken self count message =
    { s with
      ring := Function.update s.ring self
        (((s.ring self).taken count message).withCount ((s.ring self).useCount - 1))
      pool := if (s.ring self).useCount = (s.ring self).maxCount ∧ s.peer self ≠ 0 then
        s.woken (s.peer self) else s.pool
      writeLists := if ((s.ring self).useCount = (s.ring self).maxCount ∧ s.peer self ≠ 0) ∧
          s.select (s.peer self) ≠ 0 then
        s.writeLists.add (s.select (s.peer self)) (s.peer self) else s.writeLists
      readLists := if s.select self ≠ 0 ∧ (s.ring self).useCount - 1 = 0 then
        s.readLists.del (s.select self) self else s.readLists } := by
  have pool : ∀ ring, (s.setRing self ring).woken = s.woken := fun _ => rfl
  simp only [taken, dropped, toldWriter, pool]
  simp [setRing]

theorem taken_ring {count : Nat} {message : List UInt8} : (s.taken self count message).ring =
    Function.update s.ring self
      (((s.ring self).taken count message).withCount ((s.ring self).useCount - 1)) := by
  rw [taken_eq]

variable {ring : ChannelRing}

theorem Inv.tellWriter (inv : s.Inv) (alive : s.alive self = true) :
    (s.setRing self ring).tellWriter self = some ((s.setRing self ring).toldWriter self) := by
  unfold ChannelSystem.tellWriter toldWriter
  simp only [setRing, Function.update_self]
  by_cases full : ring.useCount = ring.maxCount
  · by_cases closed : s.peer self = 0
    · simp [full, closed]
    · have allocated := inv.topology.allocated _ (inv.topology.peers self alive closed).1
      have wake := inv.tasks.wake allocated
      by_cases outside : s.select (s.peer self) = 0
      · simp [full, closed, outside, deref, allocated, wakeTask, wake, woken]
      · have member := inv.selector outside
        simp [full, closed, outside, deref, allocated, selectAddWrite, derefSelect, member, wakeTask, wake,
          woken]
  · simp [full]

theorem dropMessage_eq (member : s.select self ≠ 0 → s.selectors (s.select self) = true) :
    s.dropMessage self = some (s.dropped self) := by
  unfold dropMessage dropped
  simp only [setRing, isReadable, Function.update_self, not_not, ChannelRing.withCount_useCount]
  split
  · rename_i last
    simp [selectDelRead, derefSelect, last.1, member last.1]
  · rfl

theorem Inv.readWait_taken (inv : s.Inv) (alive : s.alive self = true) (readable : s.isReadable self)
    (t : Addr) (count : Nat) :
    ∃ message, (s.ring self).writes[(s.ring self).reads.length]? = some message ∧
      s.readWait t self count = some ((s.taken self count message).leave t, .data (message.take count)) := by
  have allocated := inv.topology.allocated self alive
  obtain ⟨message, found, take⟩ := ChannelRing.take_eq (inv.rings.ok self allocated)
    (inv.rings.holds self alive) (fun t message => buffer_of_writer) readable count
  refine ⟨message, found, ?_⟩
  have tell := @Inv.tellWriter s self ((s.ring self).taken count message) inv alive
  have drop := @dropMessage_eq ((s.setRing self ((s.ring self).taken count message)).toldWriter self) self
    inv.selector
  unfold readWait
  rw [inv.topology.deref allocated]
  show (if ¬ s.isReadable self then _ else _) = _
  rw [if_neg (not_not.mpr readable), take]
  show ((s.setRing self _).tellWriter self >>= fun s => _) = _
  rw [tell]
  show (dropMessage _ self >>= fun s => _) = _
  rw [drop]
  rfl

theorem Inv.readWait_empty (inv : s.Inv) (alive : s.alive self = true) (empty : ¬ s.isReadable self)
    (t : Addr) (count : Nat) :
    s.readWait t self count =
      if s.peer self = 0 then some (s.leave t, .returns (-1)) else some (s.yieldOn t self, .blocked) := by
  have deref := inv.topology.deref (inv.topology.allocated self alive)
  have zero : (s.ring self).useCount = 0 := not_not.mp empty
  by_cases closed : s.peer self = 0
  · simp [readWait, deref, zero, closed]
  · simp [readWait, deref, zero, closed]

/-- What a read comes to, from the test of its wait loop on. -/
inductive ReadEnds (s : ChannelSystem) (t self : Addr) (count : Nat) : ChannelSystem → Reply → Prop where
  | data {message : List UInt8} : s.isReadable self →
      (s.ring self).writes[(s.ring self).reads.length]? = some message →
      ReadEnds s t self count ((s.taken self count message).leave t) (.data (message.take count))
  | closed : ¬ s.isReadable self → s.peer self = 0 → ReadEnds s t self count (s.leave t) (.returns (-1))
  | blocked : ¬ s.isReadable self → s.peer self ≠ 0 → ReadEnds s t self count (s.yieldOn t self) .blocked

theorem Inv.readWait_ends (inv : s.Inv) (alive : s.alive self = true) (t : Addr) (count : Nat) :
    ∃ next reply, s.readWait t self count = some (next, reply) ∧ s.ReadEnds t self count next reply := by
  by_cases readable : s.isReadable self
  · obtain ⟨message, found, run⟩ := inv.readWait_taken alive readable t count
    exact ⟨_, _, run, .data readable found⟩
  · have run := inv.readWait_empty alive readable t count
    by_cases closed : s.peer self = 0
    · rw [if_pos closed] at run
      exact ⟨_, _, run, .closed readable closed⟩
    · rw [if_neg closed] at run
      exact ⟨_, _, run, .blocked readable closed⟩

/-! ## Writing -/

/-- `tellReader`: the reader of an empty ring that gets a message. -/
def toldReader (s : ChannelSystem) (peer : Addr) : ChannelSystem :=
  let empty := (s.ring peer).useCount = 0
  { s with
    since := if empty then Function.update s.since peer s.clock else s.since
    clock := if empty then s.clock + 1 else s.clock
    pool := if empty then s.woken peer else s.pool
    readLists :=
      if empty ∧ s.select peer ≠ 0 then s.readLists.add (s.select peer) peer else s.readLists }

/-- `addMessage`: one message more, and not writable for a selector before the last. -/
def added (s : ChannelSystem) (self peer : Addr) : ChannelSystem :=
  let ring := s.ring peer
  { s with
    ring := Function.update s.ring peer (ring.withCount (ring.useCount + 1))
    writeLists :=
      if s.select self ≠ 0 ∧ ¬ ring.useCount + 1 < ring.maxCount - 1 then
        s.writeLists.del (s.select self) self
      else s.writeLists }

/-- The task `t` stores a message in the ring of `peer`. -/
def stored (s : ChannelSystem) (t self peer : Addr) (buffer : List UInt8) : ChannelSystem :=
  ((s.setRing peer ((s.ring peer).stored t buffer)).toldReader peer).added self peer

theorem stored_eq {buffer : List UInt8} : s.stored t self peer buffer =
    { s with
      ring := Function.update s.ring peer
        (((s.ring peer).stored t buffer).withCount ((s.ring peer).useCount + 1))
      since := if (s.ring peer).useCount = 0 then Function.update s.since peer s.clock else s.since
      clock := if (s.ring peer).useCount = 0 then s.clock + 1 else s.clock
      pool := if (s.ring peer).useCount = 0 then s.woken peer else s.pool
      readLists := if (s.ring peer).useCount = 0 ∧ s.select peer ≠ 0 then
        s.readLists.add (s.select peer) peer else s.readLists
      writeLists := if s.select self ≠ 0 ∧ ¬ (s.ring peer).useCount + 1 < (s.ring peer).maxCount - 1 then
        s.writeLists.del (s.select self) self else s.writeLists } := by
  have pool : ∀ ring, (s.setRing peer ring).woken = s.woken := fun _ => rfl
  simp only [stored, added, toldReader, pool]
  simp [setRing]

theorem stored_ring {buffer : List UInt8} : (s.stored t self peer buffer).ring =
    Function.update s.ring peer
      (((s.ring peer).stored t buffer).withCount ((s.ring peer).useCount + 1)) := by
  rw [stored_eq]

theorem Inv.tellReader (inv : s.Inv) (allocated : s.allocated peer = true) :
    (s.setRing peer ring).tellReader peer = some ((s.setRing peer ring).toldReader peer) := by
  have wake := inv.tasks.wake allocated
  unfold ChannelSystem.tellReader toldReader
  simp only [setRing, Function.update_self]
  by_cases empty : ring.useCount = 0
  · by_cases outside : s.select peer = 0
    · simp [empty, outside, stamp, wakeTask, wake, woken]
    · have member := inv.selector outside
      simp [empty, outside, stamp, selectAddRead, derefSelect, member, wakeTask, wake, woken]
  · simp [empty]

theorem addMessage_eq (member : s.select self ≠ 0 → s.selectors (s.select self) = true) :
    s.addMessage self peer = some (s.added self peer) := by
  unfold addMessage added
  simp only [setRing, isSelectWritable, Function.update_self, ChannelRing.withCount_useCount,
    ChannelRing.withCount_maxCount]
  split
  · rename_i last
    simp [selectDelWrite, derefSelect, last.1, member last.1]
  · rfl

def syncCall (s : ChannelSystem) (self peer : Addr) (buffer : List UInt8) : Call :=
  .writeSync self peer buffer ((s.ring peer).messageOf buffer).length (s.ring peer).writes.length

theorem Inv.writeFull_stored (inv : s.Inv) (target : s.Target self peer) (writable : s.isWritable peer)
    (t : Addr) (buffer : List UInt8) :
    s.writeFull t self peer buffer =
      ((s.stored t self peer buffer).enter t (s.syncCall self peer buffer)).writeSync t self peer
        ((s.ring peer).messageOf buffer).length := by
  have store := ChannelRing.store_eq (inv.rings.ok peer target.allocated) t buffer
  have tell := @Inv.tellReader s peer ((s.ring peer).stored t buffer) inv target.allocated
  have add := @addMessage_eq ((s.setRing peer ((s.ring peer).stored t buffer)).toldReader peer) self peer
    inv.selector
  unfold writeFull
  rw [inv.topology.deref target.allocated]
  show (if ¬ s.isWritable peer then _ else _) = _
  rw [if_neg (not_not.mpr writable), inv.topology.deref (inv.topology.allocated self target.user),
    target.maxSize]
  show ((s.ring peer).store t (s.ring peer).maxSize buffer >>= fun stored => _) = _
  rw [store]
  show ((s.setRing peer _).tellReader peer >>= fun s => _) = _
  rw [tell]
  show (addMessage _ self peer >>= fun s => _) = _
  rw [add]
  rfl

theorem Inv.writeFull_full (inv : s.Inv) (target : s.Target self peer) (full : ¬ s.isWritable peer)
    (t : Addr) (buffer : List UInt8) :
    s.writeFull t self peer buffer =
      if s.peer self = 0 then some ((s.channelUnref peer).leave t, .returns (-1))
      else some (s.yieldOn t self, .blocked) := by
  have deref := inv.topology.deref target.allocated
  have deref' := inv.topology.deref (inv.topology.allocated self target.user)
  by_cases closed : s.peer self = 0
  · simp [writeFull, deref, deref', Nat.le_of_not_lt full, closed]
  · simp [writeFull, deref, deref', Nat.le_of_not_lt full, closed]

theorem Topology.writeSync (topology : s.Topology) (target : s.Target self peer) (t : Addr) (size : Nat) :
    s.writeSync t self peer size =
      if s.isWritable peer then some ((s.channelUnref peer).leave t, .returns size)
      else if s.peer self = 0 then some ((s.channelUnref peer).leave t, .returns (-1))
      else some (s.yieldOn t self, .blocked) := by
  have deref := topology.deref target.allocated
  have deref' := topology.deref (topology.allocated self target.user)
  unfold ChannelSystem.writeSync
  by_cases writable : s.isWritable peer
  · simp [deref, writable]
  · by_cases closed : s.peer self = 0
    · simp [deref, deref', Nat.le_of_not_lt writable, closed]
    · simp [deref, deref', Nat.le_of_not_lt writable, closed]

/-- What a write comes to, from the test of its second wait loop on. -/
inductive SyncEnds (s : ChannelSystem) (t self peer : Addr) (size : Nat) : ChannelSystem → Reply → Prop where
  | done : s.isWritable peer → SyncEnds s t self peer size ((s.channelUnref peer).leave t) (.returns size)
  | closed : ¬ s.isWritable peer → s.peer self = 0 →
      SyncEnds s t self peer size ((s.channelUnref peer).leave t) (.returns (-1))
  | blocked : ¬ s.isWritable peer → s.peer self ≠ 0 →
      SyncEnds s t self peer size (s.yieldOn t self) .blocked

theorem Topology.writeSync_ends (topology : s.Topology) (target : s.Target self peer) (t : Addr) (size : Nat) :
    ∃ next reply, s.writeSync t self peer size = some (next, reply) ∧
      s.SyncEnds t self peer size next reply := by
  rw [topology.writeSync target]
  by_cases writable : s.isWritable peer
  · rw [if_pos writable]
    exact ⟨_, _, rfl, .done writable⟩
  · rw [if_neg writable]
    by_cases closed : s.peer self = 0
    · rw [if_pos closed]
      exact ⟨_, _, rfl, .closed writable closed⟩
    · rw [if_neg closed]
      exact ⟨_, _, rfl, .blocked writable closed⟩

/-- What a write comes to, from the test of its first wait loop on. -/
inductive WriteEnds (s : ChannelSystem) (t self peer : Addr) (buffer : List UInt8) :
    ChannelSystem → Reply → Prop where
  | stored {next : ChannelSystem} {reply : Reply} : s.isWritable peer →
      SyncEnds ((s.stored t self peer buffer).enter t (s.syncCall self peer buffer)) t self peer
        ((s.ring peer).messageOf buffer).length next reply →
      WriteEnds s t self peer buffer next reply
  | closed : ¬ s.isWritable peer → s.peer self = 0 →
      WriteEnds s t self peer buffer ((s.channelUnref peer).leave t) (.returns (-1))
  | blocked : ¬ s.isWritable peer → s.peer self ≠ 0 →
      WriteEnds s t self peer buffer (s.yieldOn t self) .blocked

/-! ## Making and destroying -/

def paired (s : ChannelSystem) (c1 c2 : Addr) (size buffers : Nat) : ChannelSystem :=
  (s.initChannel c1 c2 (.new size buffers)).initChannel c2 c1 (.new size buffers)

def unlinked (s : ChannelSystem) (self : Addr) : ChannelSystem :=
  let peer := s.peer self
  { s with
    peer := if peer = 0 then s.peer else Function.update s.peer peer 0
    pool := if peer = 0 then s.pool else s.woken peer }

def destroyed (s : ChannelSystem) (self : Addr) : ChannelSystem :=
  { (s.unlinked self).channelUnref self with alive := Function.update s.alive self false }

theorem Inv.channelDestroy (inv : s.Inv) (alive : s.alive self = true) (unused : s.task self = 0) :
    s.channelDestroy self = some (s.destroyed self, .void) := by
  have allocated := inv.topology.allocated self alive
  have nonnull := inv.topology.ne_zero allocated
  unfold ChannelSystem.channelDestroy destroyed unlinked
  by_cases closed : s.peer self = 0
  · simp [deref, nonnull, allocated, closed, wakeTask, unused, TaskPool.wakeupField, channelUnref]
  · have allocated' := inv.topology.allocated _ (inv.topology.peers self alive closed).1
    have wake := inv.tasks.wake allocated'
    simp [deref, nonnull, allocated, closed, allocated', wakeTask, wake, channelUnref]
    simp [unused, TaskPool.wakeupField]

/-! ## Selectors -/

def made (s : ChannelSystem) (self : Addr) : ChannelSystem :=
  { s with
    selectors := Function.update s.selectors self true
    chanLists := { s.chanLists with list := Function.update s.chanLists.list self ⟨0, 0⟩ }
    readLists := { s.readLists with
      family := { s.readLists.family with list := Function.update s.readLists.family.list self ⟨0, 0⟩ } }
    writeLists := { s.writeLists with
      family := { s.writeLists.family with list := Function.update s.writeLists.family.list self ⟨0, 0⟩ } } }

theorem selectNew_eq (nonnull : self ≠ 0) : s.selectNew self = (s.made self, .chan self) := by
  simp [selectNew, nonnull, made]

def registered (s : ChannelSystem) (t self chan : Addr) : ChannelSystem :=
  let readable := s.isReadable chan
  let peer := s.peer chan
  { s with
    select := Function.update s.select chan self
    task := Function.update s.task chan t
    chanLists := s.chanLists.addTail self chan
    since := if readable then Function.update s.since chan s.clock else s.since
    clock := if readable then s.clock + 1 else s.clock
    readLists := if readable then s.readLists.add self chan else s.readLists
    writeLists :=
      if peer ≠ 0 ∧ s.isSelectWritable peer then s.writeLists.add self chan else s.writeLists }

def unregistered (s : ChannelSystem) (self chan : Addr) : ChannelSystem :=
  { s with
    readLists := s.readLists.del self chan
    writeLists := s.writeLists.del self chan
    chanLists := s.chanLists.del self chan
    task := Function.update s.task chan 0
    select := Function.update s.select chan 0 }

theorem Inv.selectAdd (inv : s.Inv) (nonnull : self ≠ 0) (exists' : s.selectors self = true)
    (alive : s.alive c = true) (t : Addr) :
    s.selectAdd t self c = some (s.registered t self c, .void) := by
  have allocated := inv.topology.allocated c alive
  have nonnull' := inv.topology.ne_zero allocated
  unfold ChannelSystem.selectAdd registered
  by_cases closed : s.peer c = 0
  · by_cases empty : (s.ring c).useCount = 0
    · simp [derefSelect, nonnull, exists', deref, nonnull', allocated, closed, empty]
    · simp [derefSelect, nonnull, exists', deref, nonnull', allocated, closed, empty, stamp, selectAddRead]
  · have allocated' := inv.topology.allocated _ (inv.topology.peers c alive closed).1
    by_cases empty : (s.ring c).useCount = 0
    · simp [derefSelect, nonnull, exists', deref, nonnull', allocated, closed, allocated', empty,
        selectAddWrite]
      split <;> simp_all
    · simp [derefSelect, nonnull, exists', deref, nonnull', allocated, closed, allocated', empty, stamp,
        selectAddRead, selectAddWrite]
      split <;> simp_all

theorem selectDel_eq (topology : s.Topology) (nonnull : self ≠ 0) (exists' : s.selectors self = true)
    (allocated : s.allocated c = true) : s.selectDel self c = some (s.unregistered self c, .void) := by
  simp [selectDel, topology.deref allocated, selectDelRead, selectDelWrite, derefSelect, nonnull, exists',
    unregistered]

/-- What a wait for a selector comes to, from the test of its wait loop on. -/
inductive SelectEnds (s : ChannelSystem) (t self : Addr) (list : Readiness) (timeout : Int) (milliseconds : Nat) :
    ChannelSystem → Reply → Prop where
  | done : ¬ (s.selectFirst self list = 0 ∧ milliseconds ≠ 0) →
      SelectEnds s t self list timeout milliseconds (s.leave t) (.chan (s.selectFirst self list))
  | blocked : s.selectFirst self list = 0 → milliseconds ≠ 0 →
      SelectEnds s t self list timeout milliseconds
        { s.enter t (.select self list timeout milliseconds) with pool := s.pool.wait t } .blocked

theorem selectWait_ends (nonnull : self ≠ 0) (exists' : s.selectors self = true) (t : Addr) (list : Readiness)
    (timeout : Int) (milliseconds : Nat) :
    ∃ next reply, s.selectWait t self list timeout milliseconds = some (next, reply) ∧
      s.SelectEnds t self list timeout milliseconds next reply := by
  unfold selectWait
  rw [derefSelect, if_pos ⟨nonnull, exists'⟩]
  show ∃ next reply, (if s.selectFirst self list = 0 ∧ milliseconds ≠ 0 then _ else _) = some (next, reply) ∧ _
  by_cases waits : s.selectFirst self list = 0 ∧ milliseconds ≠ 0
  · rw [if_pos waits]
    exact ⟨_, _, rfl, .blocked waits.1 waits.2⟩
  · rw [if_neg waits]
    exact ⟨_, _, rfl, .done waits⟩

end HevTaskSystem.ChannelSystem
