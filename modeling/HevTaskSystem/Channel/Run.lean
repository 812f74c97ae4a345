import HevTaskSystem.Channel.Invariant
import HevTaskSystem.Channel.Lists

/-! Every operation returns and keeps the invariant, so runs of the system never fault. -/

set_option autoImplicit false

namespace HevTaskSystem.ChannelSystem

open Foundation

variable {s : ChannelSystem} {t self peer c : Addr} {call : Call} {count : Nat} {buffer : List UInt8}

/-! ## Effects -/

theorem Inv.yieldOn (inv : s.Inv) (active : s.Active t) (inside : (s.calls t).self = self) :
    (s.yieldOn t self).Inv where
  topology := inv.topology.congr rfl rfl rfl rfl fun _ => rfl
  refs := inv.refs.congr rfl rfl rfl fun _ => rfl
  tasks := inv.tasks.yieldOn active inside
  rings := inv.rings.congr (fun _ => id) (fun _ => id) rfl rfl
  lists := inv.lists.frame _ _ _ _ _ _

theorem Inv.cleared (inv : s.Inv) : Inv { s with task := Function.update s.task self 0 } where
  topology := inv.topology.congr rfl rfl rfl rfl fun _ => rfl
  refs := inv.refs.congr rfl rfl rfl fun _ => rfl
  tasks := inv.tasks.cleared
  rings := inv.rings.congr (fun _ => id) (fun _ => id) rfl rfl
  lists := inv.lists.frame _ _ _ _ _ _

theorem Inv.repool (inv : s.Inv) {pool : TaskPool} (null : pool 0 = none)
    (active : ∀ t, s.Active t → pool t = some .running ∨ pool t = some .waiting) :
    Inv { s with pool } where
  topology := inv.topology.congr rfl rfl rfl rfl fun _ => rfl
  refs := inv.refs.congr rfl rfl rfl fun _ => rfl
  tasks := inv.tasks.congr null active rfl (fun _ => id) rfl (fun _ => id) fun _ _ => id
  rings := inv.rings.congr (fun _ => id) (fun _ => id) rfl rfl
  lists := inv.lists.frame _ _ _ _ _ _

theorem Inv.enter (inv : s.Inv) (before : (s.calls t).peer = 0) (after : call.peer = 0) (proper : call.Proper)
    (user : call.self ≠ 0 → s.alive call.self = true)
    (active : call ≠ .idle → s.Active t) (unbound : s.Unbound t)
    (selector : call.selector ≠ 0 → s.selectors call.selector = true) : (s.enter t call).Inv where
  topology := inv.topology.enter proper user fun nonnull => absurd after nonnull
  refs := inv.refs.enter (after.trans before.symm)
  tasks := inv.tasks.enter active unbound selector
  rings := inv.rings.enter inv.topology fun c self buffer size index waits alive _ => by
    have zero : c = 0 := by
      rw [waits] at before
      exact before
    exact absurd zero (inv.topology.ne_zero (inv.topology.allocated c alive))
  lists := inv.lists.frame _ _ _ _ _ _

theorem Inv.leave (inv : s.Inv) (before : (s.calls t).peer = 0) (unbound : s.Unbound t) : (s.leave t).Inv :=
  inv.enter before rfl trivial (fun h => absurd rfl h) (fun h => absurd rfl h) unbound fun h => absurd rfl h

/-- A task that holds a reference returns, unless its message lies in its buffer. -/
theorem Inv.unref (inv : s.Inv) (inside : (s.calls t).peer ≠ 0) (unbound : s.Unbound t)
    (done : ∀ c self buffer size index, s.calls t = .writeSync self c buffer size index → s.alive c = true →
      (s.ring c).maxCount = 1 → (s.ring c).useCount = 0) :
    ((s.channelUnref (s.calls t).peer).leave t).Inv where
  topology := inv.topology.unref inv.refs inside
  refs := inv.refs.unref inv.topology inside
  tasks := by
    have less : (s.leave t).Tasks :=
      inv.tasks.enter (fun h => absurd rfl h) unbound fun h => absurd rfl h
    exact less.congr less.null (fun _ => id) rfl (fun c => channelUnref_allocated) rfl (fun _ => id)
      fun _ _ => id
  rings := by
    have left : (s.leave t).Rings := inv.rings.enter inv.topology done
    exact left.congr (fun c => channelUnref_allocated) (fun _ => id) rfl rfl
  lists := inv.lists.frame _ _ _ _ _ _

theorem Inv.taken (inv : s.Inv) (alive : s.alive self = true) (readable : s.isReadable self)
    {message : List UInt8} (found : (s.ring self).writes[(s.ring self).reads.length]? = some message) :
    (s.taken self count message).Inv where
  topology := inv.topology.congr rfl rfl rfl rfl fun c => by
    rw [taken_ring]
    by_cases here : c = self
    · simp [here]
    · rw [Function.update_of_ne here]
  refs := inv.refs.congr rfl rfl rfl fun _ => rfl
  tasks := by
    rw [taken_eq]
    refine inv.tasks.congr ?_ (fun t active => ?_) rfl (fun _ => id) rfl (fun _ => id) fun _ _ => id
    · split
      · exact inv.tasks.woken_null
      · exact inv.tasks.null
    · unfold Active
      split
      · exact woken_active active
      · exact active
  rings := inv.rings.taken inv.topology alive readable found
  lists := inv.lists.taken readable

theorem Target.stored (target : s.Target self peer) :
    (s.stored t self peer buffer).Target self peer where
  user := target.user
  allocated := target.allocated
  other := target.other
  linked := target.linked
  maxSize := by
    rw [stored_ring, Function.update_self, Function.update_of_ne target.other]
    exact target.maxSize

theorem Inv.stored (inv : s.Inv) (target : s.Target self peer) (writable : s.isWritable peer)
    (inside : s.calls t = .writeFull self peer buffer) (unbound : s.Unbound t) :
    ((s.stored t self peer buffer).enter t (s.syncCall self peer buffer)).Inv where
  topology := by
    have same : (s.stored t self peer buffer).Topology := inv.topology.congr rfl rfl rfl rfl fun c => by
      rw [stored_ring]
      by_cases here : c = peer
      · simp [here]
      · rw [Function.update_of_ne here]
    have proper := inv.topology.proper t
    rw [inside] at proper
    exact same.enter proper (fun _ => target.user) fun _ => target.stored
  refs := by
    have same : (s.stored t self peer buffer).Refs := inv.refs.congr rfl rfl rfl fun _ => rfl
    refine same.enter ?_
    show peer = (s.calls t).peer
    rw [inside]
    rfl
  tasks := by
    have same : (s.stored t self peer buffer).Tasks := by
      rw [stored_eq]
      refine inv.tasks.congr ?_ (fun u active => ?_) rfl (fun _ => id) rfl (fun _ => id) fun _ _ => id
      · split
        · exact inv.tasks.woken_null
        · exact inv.tasks.null
      · unfold Active
        split
        · exact woken_active active
        · exact active
    refine same.enter (fun _ => ?_) unbound fun h => absurd rfl h
    exact same.active t (by rw [show (s.stored t self peer buffer).calls t = _ from inside]; simp)
  rings := inv.rings.stored inv.topology target writable inside
  lists := by
    have nonnull : peer ≠ 0 := inv.topology.ne_zero target.allocated
    exact (inv.lists.stored nonnull).frame _ _ _ _ _ _

/-! ## Operations up to the next yield -/

variable {next : ChannelSystem} {reply : Reply}

theorem Inv.active (inv : s.Inv) (busy : s.calls t ≠ .idle) : s.Active t := inv.tasks.active t busy

theorem Topology.writes (topology : s.Topology) (inside : (s.calls t).self = self) (here : (s.calls t).peer = peer)
    (nonnull : peer ≠ 0) : s.Target self peer := by
  have target := topology.targets t
  rw [inside, here] at target
  exact target nonnull

theorem Inv.readEnds (inv : s.Inv) (inside : s.calls t = .read self count) (unbound : s.Unbound t)
    (ends : s.ReadEnds t self count next reply) : next.Inv := by
  have user := inv.topology.users t
  have nonnull := inv.topology.proper t
  rw [inside] at user nonnull
  have alive : s.alive self = true := user nonnull
  have outside : (s.calls t).peer = 0 := by
    rw [inside]
    rfl
  cases ends with
  | data readable found => exact (inv.taken alive readable found).leave outside unbound
  | closed _ _ => exact inv.leave outside unbound
  | blocked _ _ => exact inv.yieldOn (inv.active (by simp [inside])) (by rw [inside]; rfl)

theorem Inv.syncEnds (inv : s.Inv) {size index : Nat}
    (inside : s.calls t = .writeSync self peer buffer size index) (unbound : s.Unbound t)
    (ends : s.SyncEnds t self peer size next reply) : next.Inv := by
  have proper := inv.topology.proper t
  rw [inside] at proper
  have here : (s.calls t).peer = peer := by
    rw [inside]
    rfl
  have target : s.Target self peer := inv.topology.writes (by rw [inside]; rfl) here proper.2
  have unref := inv.unref (here ▸ proper.2) unbound
  rw [here] at unref
  cases ends with
  | done writable =>
    -- The reference may go: nothing of the task lies in the ring any more.
    refine unref fun c self' buffer' size' index' waits alive one => ?_
    rw [inside] at waits
    cases waits
    have : (s.ring peer).useCount < (s.ring peer).maxCount := writable
    omega
  | closed _ closed =>
    refine unref fun c self' buffer' size' index' waits alive one => ?_
    rw [inside] at waits
    cases waits
    -- The reader has closed its end, so no read will follow the pointer to the message.
    have dead := (target.linked.resolve_left fun toward => proper.2 (toward.symm.trans closed)).2
    rw [alive] at dead
    cases dead
  | blocked _ _ => exact inv.yieldOn (inv.active (by simp [inside])) (by rw [inside]; rfl)

theorem Inv.writeEnds (inv : s.Inv) (inside : s.calls t = .writeFull self peer buffer) (unbound : s.Unbound t)
    (ends : s.WriteEnds t self peer buffer next reply) : next.Inv := by
  have proper := inv.topology.proper t
  rw [inside] at proper
  have here : (s.calls t).peer = peer := by
    rw [inside]
    rfl
  have target : s.Target self peer := inv.topology.writes (by rw [inside]; rfl) here proper.2
  cases ends with
  | stored writable ends => exact (inv.stored target writable inside unbound).syncEnds enter_calls_self unbound ends
  | closed _ _ =>
    have unref := inv.unref (here ▸ proper.2) unbound
    rw [here] at unref
    refine unref fun c self' buffer' size' index' waits => ?_
    rw [inside] at waits
    cases waits
  | blocked _ _ => exact inv.yieldOn (inv.active (by simp [inside])) (by rw [inside]; rfl)

theorem Inv.writeFull_ends (inv : s.Inv) (inside : s.calls t = .writeFull self peer buffer)
    (unbound : s.Unbound t) : ∃ next reply, s.writeFull t self peer buffer = some (next, reply) ∧
      s.WriteEnds t self peer buffer next reply := by
  have proper := inv.topology.proper t
  rw [inside] at proper
  have target : s.Target self peer := inv.topology.writes (by rw [inside]; rfl) (by rw [inside]; rfl) proper.2
  by_cases writable : s.isWritable peer
  · have after := (inv.stored target writable inside unbound).topology
    obtain ⟨next, reply, run, ends⟩ := after.writeSync_ends
      (after.writes (t := t) (congrArg Call.self enter_calls_self) (congrArg Call.peer enter_calls_self)
        proper.2) t _
    exact ⟨next, reply, (inv.writeFull_stored target writable t buffer).trans run, .stored writable ends⟩
  · rw [inv.writeFull_full target writable]
    by_cases closed : s.peer self = 0
    · rw [if_pos closed]
      exact ⟨_, _, rfl, .closed writable closed⟩
    · rw [if_neg closed]
      exact ⟨_, _, rfl, .blocked writable closed⟩

theorem Inv.selectEnds (inv : s.Inv) (owner : self ≠ 0) (there : s.selectors self = true)
    (before : (s.calls t).peer = 0) (unbound : s.Unbound t) (active : s.Active t) {list : Readiness}
    {timeout : Int} {milliseconds : Nat} (ends : s.SelectEnds t self list timeout milliseconds next reply) :
    next.Inv := by
  cases ends with
  | done _ => exact inv.leave before unbound
  | blocked _ _ =>
    have entered : (s.enter t (.select self list timeout milliseconds)).Inv :=
      inv.enter before rfl owner (fun h => absurd rfl h) (fun _ => active) unbound fun _ => there
    exact entered.repool (entered.tasks.wait active).null fun u => wait_active

/-! ## Up to the wait loops -/

theorem Inv.unbound (inv : s.Inv) (outside : (s.calls t).self = 0) (active : s.Active t) : s.Unbound t := by
  intro c there here
  have used : s.task c ≠ 0 := here ▸ inv.tasks.ne_zero active
  rcases (inv.tasks.task c there used).2 with inside | member
  · rw [here, outside] at inside
    exact absurd inside.symm (inv.topology.ne_zero there)
  · exact member

theorem Inv.unbound_cleared (inv : s.Inv) (inside : (s.calls t).self = self) (active : s.Active t) :
    Unbound { s with task := Function.update s.task self 0 } t := by
  have nonnull := inv.tasks.ne_zero active
  intro c there here
  by_cases same : c = self
  · subst same
    exact absurd ((Function.update_self ..).symm.trans here) nonnull.symm
  · have here : s.task c = t := (Function.update_of_ne same ..).symm.trans here
    have used : s.task c ≠ 0 := here ▸ nonnull
    rcases (inv.tasks.task c there used).2 with other | member
    · rw [here, inside] at other
      exact absurd other.symm same
    · exact member

/-- A task that starts an operation on a channel, or is resumed in it, comes to the wait
loop of the operation in this state. -/
inductive Arrives (s : ChannelSystem) : ChannelOp → Addr → Call → ChannelSystem → Prop where
  | read {t self : Addr} {count : Nat} :
      Arrives s (.read t self count) t (.read self count) (s.enter t (.read self count))
  | write {t self : Addr} {buffer : List UInt8} : s.peer self ≠ 0 →
      Arrives s (.write t self buffer) t (.writeFull self (s.peer self) buffer)
        ((s.channelRef (s.peer self)).enter t (.writeFull self (s.peer self) buffer))
  | resume {t : Addr} {left : Nat} : (s.calls t).self ≠ 0 →
      Arrives s (.resume t left) t (s.calls t) { s with task := Function.update s.task (s.calls t).self 0 }

variable {op : ChannelOp} {mid : ChannelSystem}

theorem Arrives.same (arrives : s.Arrives op t call mid) :
    mid = { s with calls := Function.update s.calls t call, task := mid.task, refCount := mid.refCount } := by
  cases arrives with
  | read => rfl
  | write _ => rfl
  | resume _ => rw [Function.update_eq_self]

theorem Arrives.inside (arrives : s.Arrives op t call mid) : mid.calls t = call := by
  rw [arrives.same]
  exact Function.update_self ..

theorem Arrives.task (arrives : s.Arrives op t call mid) (other : c ≠ call.self) : mid.task c = s.task c := by
  cases arrives with
  | read => rfl
  | write _ => rfl
  | resume _ => exact Function.update_of_ne other ..

theorem Arrives.inv (arrives : s.Arrives op t call mid) (inv : s.Inv) (ready : op.Ready s) :
    mid.Inv ∧ mid.Unbound t := by
  cases arrives with
  | @read _ self count =>
    obtain ⟨calls, alive⟩ := ready
    have outside : (s.calls t).peer = 0 := by rw [calls.2]; rfl
    have unbound := inv.unbound (by rw [calls.2]; rfl) (.inl calls.1)
    have nonnull := inv.topology.ne_zero (inv.topology.allocated self alive)
    exact ⟨inv.enter outside rfl nonnull (fun _ => alive) (fun _ => .inl calls.1) unbound fun h => absurd rfl h,
      unbound⟩
  | @write _ self buffer active =>
    obtain ⟨calls, alive⟩ := ready
    have outside : (s.calls t).peer = 0 := by rw [calls.2]; rfl
    have unbound := inv.unbound (by rw [calls.2]; rfl) (.inl calls.1)
    have nonnull := inv.topology.ne_zero (inv.topology.allocated self alive)
    have target := inv.topology.target alive active
    -- The reference of the peer and the call of the task are set together, which keeps the count.
    refine ⟨?_, unbound⟩
    constructor
    · have same : (s.channelRef (s.peer self)).Topology := inv.topology.congr rfl rfl rfl rfl fun _ => rfl
      refine same.enter ⟨nonnull, active⟩ (fun _ => alive) fun _ => ?_
      exact ⟨target.user, target.allocated, target.other, target.linked, target.maxSize⟩
    · exact @Refs.ref s t (.writeFull self (s.peer self) buffer) inv.refs inv.topology outside
    · have same : (s.channelRef (s.peer self)).Tasks :=
        inv.tasks.congr inv.tasks.null (fun _ => id) rfl (fun _ => id) rfl (fun _ => id) fun _ _ => id
      exact same.enter (fun _ => .inl calls.1) unbound fun h => absurd rfl h
    · have same : (s.channelRef (s.peer self)).Rings := inv.rings.congr (fun _ => id) (fun _ => id) rfl rfl
      have same' : (s.channelRef (s.peer self)).Topology := inv.topology.congr rfl rfl rfl rfl fun _ => rfl
      refine same.enter same' fun c self' buffer' size index waits => ?_
      rw [show (s.channelRef (s.peer self)).calls t = .idle from calls.2] at waits
      cases waits
    · exact inv.lists.frame _ _ _ _ _ _
  | resume _ => exact ⟨inv.cleared, inv.unbound_cleared rfl (inv.active ready.2)⟩

theorem Inv.clearTask (inv : s.Inv) (alive : s.alive self = true) :
    s.clearTask self = some { s with task := Function.update s.task self 0 } := by
  simp [ChannelSystem.clearTask, inv.topology.deref (inv.topology.allocated self alive)]

/-! ## Steps -/

inductive Effect (s : ChannelSystem) : ChannelOp → ChannelSystem → Reply → Prop where
  | start {t : Addr} : Effect s (.start t) { s with pool := Function.update s.pool t (some .running) } .void
  | exit {t : Addr} : Effect s (.exit t) { s with pool := Function.update s.pool t (some .stopped) } .void
  | wait {t : Addr} : Effect s (.wait t) { s with pool := s.pool.wait t } .blocked
  | wake {t : Addr} : Effect s (.wake t) { s with pool := Function.update s.pool t (some .running) } .void
  | newFailed {c1 c2 : Addr} {size buffers : Nat} : c1 = 0 ∨ c2 = 0 →
      Effect s (.new c1 c2 size buffers) s (.returns (-1))
  | new {c1 c2 : Addr} {size buffers : Nat} : c1 ≠ 0 → c2 ≠ 0 →
      Effect s (.new c1 c2 size buffers) (s.paired c1 c2 size buffers) (.returns 0)
  | destroy {self : Addr} : Effect s (.destroy self) (s.destroyed self) .void
  | read {op : ChannelOp} {t self : Addr} {count : Nat} {mid next : ChannelSystem} {reply : Reply} :
      s.Arrives op t (.read self count) mid → mid.ReadEnds t self count next reply → Effect s op next reply
  | write {op : ChannelOp} {t self peer : Addr} {buffer : List UInt8} {mid next : ChannelSystem} {reply : Reply} :
      s.Arrives op t (.writeFull self peer buffer) mid → mid.WriteEnds t self peer buffer next reply →
      Effect s op next reply
  | sync {op : ChannelOp} {t self peer : Addr} {buffer : List UInt8} {size index : Nat}
      {mid next : ChannelSystem} {reply : Reply} :
      s.Arrives op t (.writeSync self peer buffer size index) mid → mid.SyncEnds t self peer size next reply →
      Effect s op next reply
  | writeClosed {t self : Addr} {buffer : List UInt8} : s.peer self = 0 →
      Effect s (.write t self buffer) (s.leave t) (.returns (-1))
  | selectNewFailed : Effect s (.selectNew 0) s (.chan 0)
  | selectNew {self : Addr} : self ≠ 0 → Effect s (.selectNew self) (s.made self) (.chan self)
  | selectDestroy {self : Addr} :
      Effect s (.selectDestroy self) { s with selectors := Function.update s.selectors self false } .void
  | selectAdd {t self chan : Addr} : Effect s (.selectAdd t self chan) (s.registered t self chan) .void
  | selectDel {t self chan : Addr} : Effect s (.selectDel t self chan) (s.unregistered self chan) .void
  | selectNone {t self : Addr} {list : Readiness} {timeout : Int} : (s.chanLists.list self).head = 0 →
      Effect s (.select t self list timeout) (s.leave t) (.chan 0)
  | select {t self : Addr} {list : Readiness} {timeout : Int} {next : ChannelSystem} {reply : Reply} :
      (s.chanLists.list self).head ≠ 0 →
      s.SelectEnds t self list timeout (timeout % 2 ^ 32).toNat next reply →
      Effect s (.select t self list timeout) next reply
  | selectResume {t self : Addr} {list : Readiness} {timeout : Int} {milliseconds left : Nat}
      {next : ChannelSystem} {reply : Reply} : s.calls t = .select self list timeout milliseconds →
      s.SelectEnds t self list timeout (if timeout < 0 then milliseconds else left) next reply →
      Effect s (.resume t left) next reply

theorem Inv.effect_resume (inv : s.Inv) {left : Nat} (ready : (ChannelOp.resume t left).Ready s) :
    ∃ next reply, s.resume t left = some (next, reply) ∧ s.Effect (.resume t left) next reply := by
  have proper := inv.topology.proper t
  have user := inv.topology.users t
  have selector := inv.tasks.selector t
  -- For the operations on channels: the field is cleared, then the wait loop is tested again.
  have arrives := fun nonnull => @Arrives.resume s t left nonnull
  have arrived := fun nonnull => (arrives nonnull).inv inv ready
  unfold ChannelSystem.resume
  cases call : s.calls t with
  | idle => exact absurd call ready.2
  | read self count =>
    rw [call] at proper user arrives arrived
    have alive : s.alive self = true := user proper
    obtain ⟨mid, _⟩ := arrived proper
    obtain ⟨next, reply, run, ends⟩ := mid.readWait_ends alive t count
    refine ⟨next, reply, ?_, .read (arrives proper) ends⟩
    simp only [inv.clearTask alive, Option.bind_eq_bind, Option.bind_some]
    exact run
  | writeFull self peer buffer =>
    rw [call] at proper user arrives arrived
    have alive : s.alive self = true := user proper.1
    obtain ⟨mid, unbound⟩ := arrived proper.1
    obtain ⟨next, reply, run, ends⟩ := mid.writeFull_ends call unbound
    refine ⟨next, reply, ?_, .write (arrives proper.1) ends⟩
    simp only [inv.clearTask alive, Option.bind_eq_bind, Option.bind_some]
    exact run
  | writeSync self peer buffer size index =>
    rw [call] at proper user arrives arrived
    have alive : s.alive self = true := user proper.1
    obtain ⟨mid, _⟩ := arrived proper.1
    obtain ⟨next, reply, run, ends⟩ := mid.topology.writeSync_ends
      (mid.topology.writes (t := t) (congrArg Call.self call) (congrArg Call.peer call) proper.2) t size
    refine ⟨next, reply, ?_, .sync (arrives proper.1) ends⟩
    simp only [inv.clearTask alive, Option.bind_eq_bind, Option.bind_some]
    exact run
  | select self list timeout milliseconds =>
    rw [call] at proper selector
    obtain ⟨next, reply, run, ends⟩ := selectWait_ends proper (selector proper) t list timeout
      (if timeout < 0 then milliseconds else left)
    exact ⟨next, reply, run, .selectResume call ends⟩

theorem Inv.effect_write (inv : s.Inv) (ready : (ChannelOp.write t self buffer).Ready s) :
    ∃ next reply, s.channelWrite t self buffer = some (next, reply) ∧
      s.Effect (.write t self buffer) next reply := by
  unfold ChannelSystem.channelWrite
  rw [inv.topology.deref (inv.topology.allocated self ready.2)]
  show ∃ next reply, (if s.peer self = 0 then _ else _) = some (next, reply) ∧ _
  by_cases closed : s.peer self = 0
  · rw [if_pos closed]
    exact ⟨_, _, rfl, .writeClosed closed⟩
  · rw [if_neg closed, inv.topology.deref (inv.topology.target ready.2 closed).allocated]
    have arrives := @Arrives.write s t self buffer closed
    obtain ⟨mid, unbound⟩ := arrives.inv inv ready
    obtain ⟨next, reply, run, ends⟩ := mid.writeFull_ends arrives.inside unbound
    exact ⟨next, reply, run, .write arrives ends⟩

theorem effect_select {list : Readiness} {timeout : Int}
    (ready : (ChannelOp.select t self list timeout).Ready s) :
    ∃ next reply, s.channelSelect t self list timeout = some (next, reply) ∧
      s.Effect (.select t self list timeout) next reply := by
  obtain ⟨_, owner, there⟩ := ready
  unfold ChannelSystem.channelSelect
  rw [derefSelect, if_pos ⟨owner, there⟩]
  show ∃ next reply, (if (s.chanLists.list self).head = 0 then _ else _) = some (next, reply) ∧ _
  by_cases none : (s.chanLists.list self).head = 0
  · rw [if_pos none]
    exact ⟨_, _, rfl, .selectNone none⟩
  · rw [if_neg none]
    obtain ⟨next, reply, run, ends⟩ := selectWait_ends owner there t list timeout (timeout % 2 ^ 32).toNat
    exact ⟨next, reply, run, .select none ends⟩

theorem Inv.unused (inv : s.Inv) (ready : (ChannelOp.destroy self).Ready s) : s.task self = 0 := by
  by_contra used
  rcases (inv.tasks.task self (inv.topology.allocated self ready.1) used).2 with inside | member
  · exact ready.2.2 _ inside
  · exact member ready.2.1

theorem Inv.member (inv : s.Inv) (owner : self ≠ 0) (member : s.select c = self) :
    s.alive c = true ∧ s.selectors self = true := by
  obtain ⟨_, _, _, lists⟩ := inv.lists
  have nonnull : s.select c ≠ 0 := member ▸ owner
  have registered := lists.registered c nonnull
  rwa [member] at registered

theorem Inv.effect (inv : s.Inv) (ready : op.Ready s) :
    ∃ next reply, op.apply s = some (next, reply) ∧ s.Effect op next reply := by
  cases op with
  | start t => exact ⟨_, _, rfl, .start⟩
  | exit t => exact ⟨_, _, rfl, .exit⟩
  | wait t => exact ⟨_, _, rfl, .wait⟩
  | wake t =>
    refine ⟨_, _, ?_, .wake⟩
    simp [ChannelOp.apply, TaskPool.wakeup_eq (.inr ready)]
  | resume t left => exact inv.effect_resume ready
  | new c1 c2 size buffers =>
    by_cases nonnull1 : c1 = 0
    · exact ⟨_, _, by rw [ChannelOp.apply, newWithBuffers, if_pos nonnull1], .newFailed (.inl nonnull1)⟩
    · by_cases nonnull2 : c2 = 0
      · exact ⟨_, _, by rw [ChannelOp.apply, newWithBuffers, if_neg nonnull1, if_pos nonnull2],
          .newFailed (.inr nonnull2)⟩
      · refine ⟨_, _, ?_, .new nonnull1 nonnull2⟩
        rw [ChannelOp.apply, newWithBuffers, if_neg nonnull1, if_neg nonnull2]
        rfl
  | destroy self => exact ⟨_, _, inv.channelDestroy ready.1 (inv.unused ready), .destroy⟩
  | read t self count =>
    have arrives := @Arrives.read s t self count
    obtain ⟨next, reply, run, ends⟩ := (arrives.inv inv ready).1.readWait_ends ready.2 t count
    exact ⟨next, reply, run, .read arrives ends⟩
  | write t self buffer => exact inv.effect_write ready
  | selectNew self =>
    by_cases nonnull : self = 0
    · subst nonnull
      exact ⟨_, _, rfl, .selectNewFailed⟩
    · exact ⟨_, _, by rw [ChannelOp.apply, selectNew_eq nonnull], .selectNew nonnull⟩
  | selectDestroy self =>
    refine ⟨_, _, ?_, .selectDestroy⟩
    simp [ChannelOp.apply, ChannelSystem.selectDestroy, derefSelect, ready.1, ready.2.1]
  | selectAdd t self chan =>
    obtain ⟨_, owner, there, alive, _⟩ := ready
    exact ⟨_, _, inv.selectAdd owner there alive t, .selectAdd⟩
  | selectDel t self chan =>
    obtain ⟨alive, there⟩ := inv.member ready.2.1 ready.2.2
    exact ⟨_, _, selectDel_eq inv.topology ready.2.1 there (inv.topology.allocated chan alive), .selectDel⟩
  | select t self list timeout => exact effect_select ready

/-! ## Whole runs -/

theorem Inv.paired (inv : s.Inv) {c1 c2 size buffers : Nat} (ready : (ChannelOp.new c1 c2 size buffers).Ready s)
    (nonnull1 : c1 ≠ 0) (nonnull2 : c2 ≠ 0) : (s.paired c1 c2 size buffers).Inv := by
  obtain ⟨free1, free2, other, few, small⟩ := ready
  have ok : (ChannelRing.new size buffers).Ok := ChannelRing.new_ok (by omega) small
  constructor
  · exact inv.topology.initPair free1 free2 nonnull1 nonnull2 (other nonnull1)
  · exact inv.refs.initPair inv.topology free1 free2 nonnull1 nonnull2 (other nonnull1)
  · exact inv.tasks.initPair
  · exact inv.rings.initPair ok fun _ => ChannelRing.new_holds
  · have dead1 : s.alive c1 = false := inv.topology.dead free1
    have dead2 : (s.initChannel c1 c2 (.new size buffers)).alive c2 = false :=
      (Function.update_of_ne (other nonnull1).symm ..).trans (inv.topology.dead free2)
    exact (inv.lists.initChannel dead1 _).initChannel dead2 _

theorem Inv.destroy (inv : s.Inv) (ready : (ChannelOp.destroy self).Ready s) : (s.destroyed self).Inv := by
  obtain ⟨alive, outside, unused⟩ := ready
  exact ⟨inv.topology.destroyed inv.refs alive unused, inv.refs.destroyed alive, inv.tasks.destroyed,
    inv.rings.destroyed, inv.lists.destroyed outside⟩

theorem Inv.register (inv : s.Inv) (ready : (ChannelOp.selectAdd t self c).Ready s) :
    (s.registered t self c).Inv := by
  obtain ⟨calls, owner, there, alive, outside⟩ := ready
  have nonnull := inv.topology.ne_zero (inv.topology.allocated c alive)
  refine ⟨inv.topology.congr rfl rfl rfl rfl fun _ => rfl, inv.refs.congr rfl rfl rfl fun _ => rfl, ?_,
    inv.rings.congr (fun _ => id) (fun _ => id) rfl rfl,
    inv.lists.registered nonnull owner there alive outside⟩
  have selected : Tasks { s with select := Function.update s.select c self } := by
    refine inv.tasks.congr inv.tasks.null (fun _ => id) rfl (fun _ => id) rfl (fun b member => ?_) fun _ _ => id
    have other : b ≠ c := by
      rintro rfl
      exact member outside
    exact (Function.update_of_ne other ..).trans_ne member
  refine (selected.setTask (c := c) (t := t) fun _ => ⟨.inl calls.1, .inr ?_⟩).congr inv.tasks.null
    (fun _ => id) rfl (fun _ => id) rfl (fun _ => id) fun _ _ => id
  exact (Function.update_self ..).trans_ne owner

theorem Inv.unregister (inv : s.Inv) (owner : self ≠ 0) (member : s.select c = self) :
    (s.unregistered self c).Inv := by
  refine ⟨inv.topology.congr rfl rfl rfl rfl fun _ => rfl, inv.refs.congr rfl rfl rfl fun _ => rfl, ?_,
    inv.rings.congr (fun _ => id) (fun _ => id) rfl rfl, inv.lists.unregistered owner member⟩
  refine ⟨inv.tasks.null, inv.tasks.active, fun b there used => ?_, inv.tasks.selector⟩
  by_cases here : b = c
  · simp [ChannelSystem.unregistered, here] at used
  · simp only [ChannelSystem.unregistered, Function.update_of_ne here] at used ⊢
    exact inv.tasks.task b there used

theorem Inv.started (inv : s.Inv) (nonnull : t ≠ 0) :
    Inv { s with pool := Function.update s.pool t (some .running) } := by
  refine inv.repool ?_ fun u active => ?_
  · rw [Function.update_of_ne nonnull.symm]
    exact inv.tasks.null
  · by_cases here : u = t
    · exact .inl (here ▸ Function.update_self ..)
    · rwa [Function.update_of_ne here]

theorem Inv.exit (inv : s.Inv) (ready : (ChannelOp.exit t).Ready s) :
    Inv { s with pool := Function.update s.pool t (some .stopped) } := by
  obtain ⟨calls, unused⟩ := ready
  have nonnull : t ≠ 0 := inv.tasks.ne_zero (.inl calls.1)
  have active : ∀ u, u ≠ t → s.Active u → Active { s with pool := Function.update s.pool t (some .stopped) } u :=
    fun u other => by
      simp only [Active, Function.update_of_ne other, imp_self]
  refine ⟨inv.topology.congr rfl rfl rfl rfl fun _ => rfl, inv.refs.congr rfl rfl rfl fun _ => rfl, ?_,
    inv.rings.congr (fun _ => id) (fun _ => id) rfl rfl, inv.lists.frame _ _ _ _ _ _⟩
  refine ⟨(Function.update_of_ne nonnull.symm ..).trans inv.tasks.null, fun u busy => ?_, fun b there used => ?_,
    inv.tasks.selector⟩
  · refine active u ?_ (inv.tasks.active u busy)
    rintro rfl
    exact busy calls.2
  · obtain ⟨awake, reason⟩ := inv.tasks.task b there used
    refine ⟨active _ (fun here => ?_) awake, reason⟩
    rcases reason with inside | member
    · rw [here, calls.2] at inside
      exact inv.topology.ne_zero there inside.symm
    · exact unused b member here

theorem Inv.made (inv : s.Inv) (nonnull : self ≠ 0) (fresh : s.selectors self = false) : (s.made self).Inv := by
  refine ⟨inv.topology.congr rfl rfl rfl rfl fun _ => rfl, inv.refs.congr rfl rfl rfl fun _ => rfl, ?_,
    inv.rings.congr (fun _ => id) (fun _ => id) rfl rfl, inv.lists.made nonnull fresh⟩
  refine inv.tasks.congr inv.tasks.null (fun _ => id) rfl (fun _ => id) rfl (fun _ => id) fun u _ there => ?_
  by_cases here : (s.calls u).selector = self
  · exact here ▸ Function.update_self ..
  · exact (Function.update_of_ne here ..).trans there

theorem Inv.selectDestroy (inv : s.Inv) (ready : (ChannelOp.selectDestroy self).Ready s) :
    Inv { s with selectors := Function.update s.selectors self false } := by
  obtain ⟨_, _, free, unused⟩ := ready
  refine ⟨inv.topology.congr rfl rfl rfl rfl fun _ => rfl, inv.refs.congr rfl rfl rfl fun _ => rfl,
    ?_, inv.rings.congr (fun _ => id) (fun _ => id) rfl rfl, inv.lists.selectDestroy free⟩
  refine inv.tasks.congr inv.tasks.null (fun _ => id) rfl (fun _ => id) rfl (fun _ => id) fun u _ there => ?_
  exact (Function.update_of_ne (unused u) ..).trans there

theorem Inv.returns (inv : s.Inv) (calls : ChannelOp.Calls s t) : (s.leave t).Inv :=
  inv.leave (by rw [calls.2]; rfl) (inv.unbound (by rw [calls.2]; rfl) (.inl calls.1))

theorem Inv.step (inv : s.Inv) (ready : op.Ready s) (effect : s.Effect op next reply) : next.Inv := by
  cases effect with
  | start => exact inv.started ready.1
  | exit => exact inv.exit ready
  | wait => exact inv.repool (inv.tasks.wait (.inl ready.1)).null fun u => wait_active
  | wake => exact inv.started (inv.tasks.ne_zero (.inr ready))
  | newFailed _ => exact inv
  | new nonnull1 nonnull2 => exact inv.paired ready nonnull1 nonnull2
  | destroy => exact inv.destroy ready
  | read arrives ends =>
    obtain ⟨mid, unbound⟩ := arrives.inv inv ready
    exact mid.readEnds arrives.inside unbound ends
  | write arrives ends =>
    obtain ⟨mid, unbound⟩ := arrives.inv inv ready
    exact mid.writeEnds arrives.inside unbound ends
  | sync arrives ends =>
    obtain ⟨mid, unbound⟩ := arrives.inv inv ready
    exact mid.syncEnds arrives.inside unbound ends
  | writeClosed _ => exact inv.returns ready.1
  | selectNewFailed => exact inv
  | selectNew nonnull => exact inv.made nonnull ready
  | selectDestroy => exact inv.selectDestroy ready
  | selectAdd => exact inv.register ready
  | selectDel => exact inv.unregister ready.2.1 ready.2.2
  | selectNone _ => exact inv.returns ready.1
  | select _ ends =>
    obtain ⟨calls, owner, there⟩ := ready
    exact inv.selectEnds owner there (by rw [calls.2]; rfl)
      (inv.unbound (by rw [calls.2]; rfl) (.inl calls.1)) (.inl calls.1) ends
  | @selectResume t self _ _ _ _ _ _ call ends =>
    have active : s.Active t := inv.active (by simp [call])
    have owner := inv.topology.proper t
    have there := inv.tasks.selector t
    rw [call] at owner there
    exact inv.selectEnds owner (there owner) (by rw [call]; rfl) (inv.unbound (by rw [call]; rfl) active) active ends

theorem init_inv (init : channelSystem.init s) : s.Inv := by
  obtain ⟨pool, calls, allocated, alive, select, selectors, used, lists⟩ := init
  have empty : ∀ (family : ListFamily) (flag : Addr → Bool), (∀ self, family.list self = ⟨0, 0⟩) →
      Listed family s.select flag fun _ => [] := by
    intro family flag null
    refine ⟨⟨fun self => null self ▸ HevList.Holds.empty _, by simp⟩, fun self c => ?_⟩
    simp only [List.not_mem_nil, select, false_iff, not_and]
    exact fun nonnull zero => absurd zero.symm nonnull
  constructor
  · constructor <;> simp [allocated, alive, calls, Call.Proper, Call.self, Call.peer]
  · simp [Refs, allocated]
  · constructor <;> simp [pool, calls, allocated, Call.selector]
  · constructor <;> simp [allocated, alive]
  · refine ⟨fun _ => [], fun _ => [], fun _ => [], ?_⟩
    constructor
    case chan => exact empty _ _ fun self => (lists self).1
    case read => exact empty _ _ fun self => (lists self).2.1
    case write => exact empty _ _ fun self => (lists self).2.2
    all_goals simp [select, used]

theorem channelSystem_inv {trace : List ChannelOp} (run : channelSystem.Run trace s) : s.Inv :=
  run.invariant Inv (fun _ => init_inv) fun _ _ _ inv ⟨ready, _, result⟩ => by
    obtain ⟨_, _, result', effect⟩ := inv.effect ready
    cases result.symm.trans result'
    exact inv.step ready effect

theorem run_step {allowed : ChannelSystem → ChannelOp → Prop} {trace : List ChannelOp}
    (run : (channelSystem.restrict allowed).Run trace s) (op : ChannelOp) (permitted : allowed s op)
    (ready : op.Ready s) (result : op.apply s = some (next, reply)) :
    (channelSystem.restrict allowed).Run (trace ++ [op]) next :=
  run.step ⟨permitted, ready, reply, result⟩

end HevTaskSystem.ChannelSystem
