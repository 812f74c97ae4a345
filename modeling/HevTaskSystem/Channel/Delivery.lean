import HevTaskSystem.Channel.Synchronous

/-! Channels deliver their messages.

The messages taken from a ring are the first ones stored in it, in order. A write to a
synchronous channel tells whether its message was taken, as long as one task at a time
writes through the endpoint.
-/

set_option autoImplicit false

namespace HevTaskSystem

open Foundation ChannelSystem

/-- The counters of the ring agree, and what was read are the first messages stored, each
cut to the count that was asked for. -/
structure ChannelRing.Delivers (ring : ChannelRing) : Prop where
  room : ring.useCount ≤ ring.maxCount
  wrIdx : ring.wrIdx = (ring.rdIdx + ring.useCount) % ring.maxCount
  balance : ring.writes.length = ring.reads.length + ring.useCount
  reads : ∀ (i count : Nat) (bytes : List UInt8), ring.reads[i]? = some (count, bytes) →
    ∃ message, ring.writes[i]? = some message ∧ bytes = message.take count

structure Delivery (s : ChannelSystem) (op : ChannelOp) (next : ChannelSystem) (reply : Reply) : Prop where
  new : ∀ c1 c2 size buffers, op = .new c1 c2 size buffers → c1 ≠ 0 → c2 ≠ 0 →
    next.peer c1 = c2 ∧ next.peer c2 = c1 ∧ ∀ c, c = c1 ∨ c = c2 → (next.ring c).maxSize = size ∧
      (next.ring c).maxCount = buffers + 1 ∧ (next.ring c).writes = [] ∧ (next.ring c).reads = []
  sizes : ∀ c, s.allocated c = true →
    (next.ring c).maxSize = (s.ring c).maxSize ∧ (next.ring c).maxCount = (s.ring c).maxCount
  writes : ∀ c, s.allocated c = true → (next.ring c).writes = (s.ring c).writes ∨
    ∃ t self buffer, op.Runs s t (.writeFull self c buffer) ∧
      (next.ring c).writes = (s.ring c).writes ++ [(s.ring c).messageOf buffer]
  reads : ∀ c, s.allocated c = true → (next.ring c).reads = (s.ring c).reads ∨
    ∃ t count bytes, op.Runs s t (.read c count) ∧ reply = .data bytes ∧
      (next.ring c).reads = (s.ring c).reads ++ [(count, bytes)]
  stored : ∀ t self c buffer, op.Runs s t (.writeFull self c buffer) → c ≠ 0 → s.isWritable c →
    (next.ring c).writes = (s.ring c).writes ++ [(s.ring c).messageOf buffer]
  taken : ∀ t c count, op.Runs s t (.read c count) → s.isReadable c →
    ∃ message, (s.ring c).writes[(s.ring c).reads.length]? = some message ∧
      reply = .data (message.take count) ∧
      (next.ring c).reads = (s.ring c).reads ++ [(count, message.take count)]
  empty : ∀ t c count, op.Runs s t (.read c count) → ¬ s.isReadable c →
    reply = if s.peer c = 0 then .returns (-1) else .blocked
  reader : ∀ t c count, op.Runs s t (.read c count) → s.alive c = true
  closed : ∀ c, s.alive c = true → next.peer c = s.peer c ∨ op = .destroy (s.peer c) ∧ next.peer c = 0

/-- What a step does to the writes through `c` while they come one at a time and the
channel is synchronous. A write to an open channel stores its message at once and waits;
it returns the size if and only if the message was taken, and else no endpoint is left
to take it. -/
structure SyncDelivery (c : Addr) (s : ChannelSystem) (op : ChannelOp) (next : ChannelSystem) (reply : Reply) :
    Prop where
  closed : ∀ t buffer, op.Runs s t (.writeFull c 0 buffer) → reply = .returns (-1)
  start : ∀ t p buffer, op.Runs s t (.writeFull c p buffer) → p ≠ 0 → (s.ring p).maxCount = 1 →
    reply = .blocked ∧ (next.ring p).writes = (s.ring p).writes ++ [buffer] ∧
      next.calls t = .writeSync c p buffer buffer.length (s.ring p).writes.length
  finish : ∀ t p buffer size index, op.Runs s t (.writeSync c p buffer size index) →
    (s.ring p).maxCount = 1 → (s.ring p).writes[index]? = some buffer ∧
      ∀ value, reply = .returns value → (0 ≤ value ↔ index < (s.ring p).reads.length) ∧
        (0 ≤ value → value = buffer.length) ∧ (¬ 0 ≤ value → s.alive p = false)

namespace ChannelSystem

variable {s next mid : ChannelSystem} {op : ChannelOp} {reply : Reply} {t c p : Addr}
  {count : Nat} {buffer : List UInt8}

/-! ## Steps -/

theorem Inv.delivers (inv : s.Inv) (there : s.allocated c = true) : (s.ring c).Delivers := by
  have ok := inv.rings.ok c there
  refine ⟨ok.room, ok.wrIdx, ok.balance, fun i count bytes read => ?_⟩
  have balance := ok.balance
  have inside : i < (s.ring c).writes.length := by
    have := (List.getElem?_eq_some_iff.mp read).1
    omega
  have found := List.getElem?_eq_getElem inside
  exact ⟨_, found, ok.delivered i _ count bytes found read⟩

theorem Inv.delivery (inv : s.Inv) (ready : op.Ready s) (effect : s.Effect op next reply) :
    Delivery s op next reply where
  new c1 c2 size buffers here nonnull1 nonnull2 := by
    subst here
    cases effect with
    | newFailed failed => exact absurd failed (not_or.mpr ⟨nonnull1, nonnull2⟩)
    | new _ _ =>
      obtain ⟨peer1, peer2, ring⟩ := paired_fields ready nonnull1
      have count : (ChannelRing.new size buffers).maxCount = buffers + 1 :=
        Nat.mod_eq_of_lt (by have := ready.2.2.2.1; omega)
      refine ⟨peer1, peer2, fun c mine => ?_⟩
      rw [ring c mine, count]
      exact ⟨rfl, rfl, rfl, rfl⟩
    | read arrives _ => cases arrives
    | write arrives _ => cases arrives
    | sync arrives _ => cases arrives
  -- Only a read or a write touches a ring, and it keeps the sizes.
  sizes c there := by
    cases effect.ringChange ready with
    | same ring => exact ⟨by rw [ring], by rw [ring]⟩
    | new ring => exact ⟨by rw [ring c there], by rw [ring c there]⟩
    | @taken _ _ self _ _ _ _ _ ring =>
      rw [ring, taken_ring]
      by_cases here : c = self
      · simp [here]
      · simp [here]
    | @stored _ _ _ peer _ _ _ _ _ ring =>
      rw [ring, stored_ring]
      by_cases here : c = peer
      · simp [here]
      · simp [here]
  writes c there := by
    cases effect.ringChange ready with
    | same ring => exact .inl (by rw [ring])
    | new ring => exact .inl (by rw [ring c there])
    | @taken _ _ self _ _ _ _ _ ring =>
      rw [ring, taken_ring]
      by_cases here : c = self
      · simp [here]
      · simp [here]
    | @stored _ t self peer buffer _ _ runs _ ring =>
      rw [ring]
      by_cases here : c = peer
      · subst here
        exact .inr ⟨t, self, buffer, runs, by rw [stored_ring_self]; rfl⟩
      · exact .inl (by rw [stored_ring, Function.update_of_ne here])
  reads c there := by
    cases effect.ringChange ready with
    | same ring => exact .inl (by rw [ring])
    | new ring => exact .inl (by rw [ring c there])
    | @taken _ t self count message _ runs _ ring =>
      rw [ring]
      by_cases here : c = self
      · subst here
        exact .inr ⟨t, count, message.take count, runs, rfl, by rw [taken_ring_self]; rfl⟩
      · exact .inl (by rw [taken_ring, Function.update_of_ne here])
    | @stored _ _ _ peer _ _ _ _ _ ring =>
      rw [ring, stored_ring]
      by_cases here : c = peer
      · simp [here]
      · simp [here]
  stored t self c buffer runs nonnull writable := by
    obtain ⟨mid, arrives, ends⟩ := effect.of_write runs nonnull
    have ring := arrives.ring_eq
    cases ends with
    | stored _ ends =>
      rw [ends.ring_eq]
      show ((mid.stored t self c buffer).ring c).writes = _
      rw [stored_ring_self, ring]
      rfl
    | closed full _ | blocked full _ => exact absurd (arrives.isWritable.mpr writable) full
  taken t c count runs readable := by
    obtain ⟨mid, arrives, ends⟩ := effect.of_read runs
    have ring := arrives.ring_eq
    cases ends with
    | @data message _ found =>
      refine ⟨message, ring ▸ found, rfl, ?_⟩
      show ((mid.taken c count message).ring c).reads = _
      rw [taken_ring_self, ring]
      rfl
    | closed empty _ | blocked empty _ => exact absurd (arrives.isReadable.mpr readable) empty
  empty t c count runs empty := by
    obtain ⟨mid, arrives, ends⟩ := effect.of_read runs
    rw [← arrives.peer_eq]
    cases ends with
    | data readable _ => exact absurd (arrives.isReadable.mp readable) empty
    | closed _ closed => rw [if_pos closed]
    | blocked _ active => rw [if_neg active]
  reader t c count runs := by
    obtain ⟨mid, arrives, _⟩ := effect.of_read runs
    exact inv.reader ready arrives
  closed c alive := effect.peer_eq ready inv alive

theorem Exclusive.start (exclusive : Exclusive c s) (allowed : OneWriter c s op) (ready : op.Ready s)
    (arrives : s.Arrives op t (.writeFull c p buffer) mid) (ends : mid.WriteEnds t c p buffer next reply)
    (nonnull : p ≠ 0) (one : (s.ring p).maxCount = 1) :
    reply = .blocked ∧ (next.ring p).writes = (s.ring p).writes ++ [buffer] ∧
      next.calls t = .writeSync c p buffer buffer.length (s.ring p).writes.length := by
  obtain ⟨writable, toward⟩ := exclusive.room allowed ready arrives one
  have ring := arrives.ring_eq
  have message : (s.ring p).messageOf buffer = buffer := if_pos one
  cases ends with
  | stored _ ends =>
    have after : ((mid.stored t c p buffer).enter t (mid.syncCall c p buffer)).ring p =
        ((s.ring p).stored t buffer).withCount ((s.ring p).useCount + 1) := by
      rw [← ring]
      exact @stored_ring_self mid t c p buffer
    cases ends with
    -- The buffer that was just stored fills the only slot, so the write cannot return yet.
    | done room =>
      rw [ChannelSystem.isWritable, after] at room
      have room : (s.ring p).useCount + 1 < (s.ring p).maxCount := room
      omega
    | closed _ closed =>
      have closed : mid.peer c = 0 := closed
      rw [arrives.peer_eq, toward] at closed
      exact absurd closed nonnull
    | blocked _ _ =>
      refine ⟨rfl, ?_, ?_⟩
      · rw [show ∀ state : ChannelSystem, (state.yieldOn t c).ring = state.ring from fun _ => rfl, after]
        exact congrArg (fun message => (s.ring p).writes ++ [message]) message
      · show ((mid.stored t c p buffer).enter t (mid.syncCall c p buffer)).calls t = _
        rw [enter_calls_self, syncCall, ring, message]
  -- The other endings need a full ring, but nobody else writes to it.
  | closed full _ | blocked full _ => exact absurd (arrives.isWritable.mpr writable) full

theorem Exclusive.finish {size index : Nat} (exclusive : Exclusive c s) (inv : s.Inv)
    (arrives : s.Arrives op t (.writeSync c p buffer size index) mid) (ends : mid.SyncEnds t c p size next reply)
    (one : (s.ring p).maxCount = 1) : (s.ring p).writes[index]? = some buffer ∧
      ∀ value, reply = .returns value → (0 ≤ value ↔ index < (s.ring p).reads.length) ∧
        (0 ≤ value → value = buffer.length) ∧ (¬ 0 ≤ value → s.alive p = false) := by
  have inside := arrives.sync_inside
  have proper := inv.topology.proper t
  rw [inside] at proper
  have target : s.Target c p :=
    inv.topology.writes (congrArg Call.self inside) (congrArg Call.peer inside) proper.2
  have ok := inv.rings.ok p target.allocated
  obtain ⟨rfl, found, last⟩ := exclusive.sync t p buffer size index inside one
  have balance := ok.balance
  have room := ok.room
  refine ⟨found, fun value result => ?_⟩
  cases ends with
  -- There is room again: the only buffer was read.
  | done writable =>
    cases result
    have writable : (s.ring p).useCount < (s.ring p).maxCount := arrives.isWritable.mp writable
    refine ⟨⟨fun _ => by omega, fun _ => Int.natCast_nonneg _⟩, fun _ => rfl, fun negative => ?_⟩
    exact absurd (Int.natCast_nonneg _) negative
  -- The peer was closed before it read the buffer.
  | closed full closed =>
    cases result
    have full : ¬ (s.ring p).useCount < (s.ring p).maxCount := fun room => full (arrives.isWritable.mpr room)
    rw [arrives.peer_eq] at closed
    refine ⟨⟨fun h => absurd h (by decide), fun _ => by omega⟩, fun h => absurd h (by decide), fun _ => ?_⟩
    exact (target.linked.resolve_left fun toward => proper.2 (toward.symm.trans closed)).2
  | blocked _ _ => cases result

theorem Exclusive.delivery (exclusive : Exclusive c s) (inv : s.Inv) (allowed : OneWriter c s op)
    (ready : op.Ready s) (effect : s.Effect op next reply) : SyncDelivery c s op next reply where
  closed t buffer runs := by
    cases effect with
    | writeClosed _ => rfl
    | write arrives _ =>
      obtain ⟨rfl, same⟩ := arrives.runs_eq runs
      cases same
      have proper := (arrives.inv inv ready).1.topology.proper t
      rw [arrives.inside] at proper
      exact absurd rfl proper.2
    | read arrives _ | sync arrives _ => cases (arrives.runs_eq runs).2
    | selectResume inside _ =>
      obtain ⟨rfl, same⟩ := runs
      rw [inside] at same
      cases same
    | _ => exact False.elim runs
  start t p buffer runs nonnull one := by
    obtain ⟨mid, arrives, ends⟩ := effect.of_write runs nonnull
    exact exclusive.start allowed ready arrives ends nonnull one
  finish t p buffer size index runs one := by
    obtain ⟨mid, arrives, ends⟩ := effect.of_sync runs
    exact exclusive.finish inv arrives ends one

end ChannelSystem

/-- In every run each ring delivers a sequence of messages, and no step faults. In every
run in which the writes through an endpoint come one at a time, they tell for a
synchronous channel whether their message was taken. -/
theorem channel_delivery :
    (∀ trace s, channelSystem.Run trace s →
      (∀ c, s.allocated c = true → (s.ring c).Delivers) ∧
        ∀ op : ChannelOp, op.Ready s → ∃ next reply, op.apply s = some (next, reply) ∧ Delivery s op next reply) ∧
    ∀ c trace s, (channelSystem.restrict (OneWriter c)).Run trace s →
      ∀ (op : ChannelOp) next reply, op.Ready s → OneWriter c s op → op.apply s = some (next, reply) →
        SyncDelivery c s op next reply := by
  refine ⟨fun trace s run => ?_, fun c trace s run op next reply ready allowed result => ?_⟩
  · have inv := channelSystem_inv run
    refine ⟨fun c there => inv.delivers there, fun op ready => ?_⟩
    obtain ⟨next, reply, result, effect⟩ := inv.effect ready
    exact ⟨next, reply, result, inv.delivery ready effect⟩
  · obtain ⟨inv, _, exclusive⟩ := channelSystem_exclusive run
    obtain ⟨_, _, result', effect⟩ := inv.effect ready
    cases result.symm.trans result'
    exact exclusive.delivery inv allowed ready effect

theorem channel_delivery_sync : ∃ s next, (∀ c, s.allocated c = true → (s.ring c).Delivers) ∧
    (ChannelOp.resume 1 0).apply s = some (next, .returns 2) ∧ SyncDelivery 8 s (.resume 1 0) next (.returns 2) := by
  have run : (channelSystem.restrict (OneWriter 8)).Run [] .empty := .init empty_init
  have run := run_step run (.start 1) trivial ⟨by decide, .inl rfl⟩ rfl
  have run := run_step run (.start 2) trivial ⟨by decide, .inl rfl⟩ rfl
  have run := run_step run (.new 8 16 4 0) trivial ⟨rfl, rfl, by decide, by decide, by decide⟩ rfl
  have run := run_step run (.write 1 8 [7, 9]) (fun _ u via => via.2 rfl) ⟨⟨rfl, rfl⟩, rfl⟩ rfl
  have run := run_step run (.read 2 16 1) trivial ⟨⟨rfl, rfl⟩, rfl⟩ rfl
  have sync := channel_delivery.2 8 _ _ run (.resume 1 0) _ (.returns 2) ⟨rfl, by decide⟩ trivial rfl
  exact ⟨_, _, (channel_delivery.1 _ _ run.of_restrict).1, rfl, sync⟩

end HevTaskSystem
