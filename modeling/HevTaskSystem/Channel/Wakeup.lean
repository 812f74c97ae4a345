import HevTaskSystem.Channel.Step

/-! No wakeup of a task that waits in a read or a write is lost.

A task in a wait loop is in the `task` field of its endpoint, as long as no other task
uses the endpoint. Each operation of the other endpoint that ends the wait looks there.
-/

set_option autoImplicit false

namespace HevTaskSystem

open Foundation ChannelSystem

/-- No task uses the endpoint `c` while another one is inside an operation of it. -/
def SoleUser (c : Addr) (s : ChannelSystem) (op : ChannelOp) : Prop :=
  op.uses = c → ∀ u, u ≠ op.task → (s.calls u).self ≠ c

namespace ChannelSystem

variable {s next mid : ChannelSystem} {op : ChannelOp} {reply : Reply} {t u self peer c p : Addr} {call : Call}
  {count : Nat} {buffer : List UInt8}

def Blocked (s : ChannelSystem) : Call → Prop
  | .read c _ => (s.ring c).useCount = 0 ∧ s.peer c ≠ 0
  | .writeFull c p _ | .writeSync c p _ _ _ =>
    (s.ring p).useCount = (s.ring p).maxCount ∧ s.peer c = p ∧ p ≠ 0
  | .idle | .select .. => True

/-! ## Waiting -/

theorem SyncEnds.waits {size : Nat} (ends : s.SyncEnds t self peer size next .blocked) :
    next.calls t = s.calls t := by
  cases ends
  rfl

theorem SyncEnds.yields {size index : Nat} (inv : s.Inv)
    (inside : s.calls t = .writeSync self peer buffer size index)
    (ends : s.SyncEnds t self peer size next .blocked) :
    next.task self = t ∧ next.Blocked (next.calls t) := by
  have proper := inv.topology.proper t
  rw [inside] at proper
  have target : s.Target self peer :=
    inv.topology.writes (congrArg Call.self inside) (congrArg Call.peer inside) proper.2
  cases ends with
  | blocked full active =>
    refine ⟨Function.update_self .., ?_⟩
    show Blocked _ (s.calls t)
    rw [inside]
    refine ⟨?_, target.linked.resolve_right fun closed => active closed.1, proper.2⟩
    exact Nat.le_antisymm (inv.rings.ok peer target.allocated).room (Nat.le_of_not_lt full)

theorem Effect.yields (effect : s.Effect op next .blocked) (inv : s.Inv) (ready : op.Ready s)
    (nonnull : c ≠ 0) (inside : (next.calls op.task).self = c) :
    next.task c = op.task ∧ next.Blocked (next.calls op.task) := by
  cases effect with
  | @wait t =>
    have idle : s.calls t = .idle := ready.2
    have inside : (s.calls t).self = c := inside
    rw [idle] at inside
    exact absurd inside.symm nonnull
  | @read _ t self count mid _ _ arrives ends =>
    obtain rfl := arrives.task_eq
    cases ends with
    | blocked empty active =>
      have waits : (mid.yieldOn op.task self).calls op.task = .read self count := arrives.inside
      rw [waits] at inside ⊢
      obtain rfl : self = c := inside
      exact ⟨Function.update_self .., not_not.mp empty, active⟩
  | @write _ t self peer buffer mid _ _ arrives ends =>
    obtain rfl := arrives.task_eq
    obtain ⟨arrived, unbound⟩ := arrives.inv inv ready
    obtain ⟨nonnull', target⟩ := arrives.target inv ready
    cases ends with
    | stored writable ends =>
      have stored := arrived.stored target writable arrives.inside unbound
      have here : (next.calls op.task).self = self := by
        rw [ends.waits]
        exact congrArg Call.self enter_calls_self
      obtain rfl : self = c := here.symm.trans inside
      exact ends.yields stored enter_calls_self
    | blocked full active =>
      have waits : (mid.yieldOn op.task self).calls op.task = .writeFull self peer buffer := arrives.inside
      rw [waits] at inside ⊢
      obtain rfl : self = c := inside
      refine ⟨Function.update_self .., ?_, target.linked.resolve_right fun closed => active closed.1, nonnull'⟩
      -- No ring holds more than it has room for, so one without room is exactly full.
      exact Nat.le_antisymm (arrived.rings.ok peer target.allocated).room (Nat.le_of_not_lt full)
  | @sync _ t self peer buffer size index mid _ _ arrives ends =>
    obtain rfl := arrives.task_eq
    have here : (next.calls op.task).self = self := by
      rw [ends.waits]
      exact congrArg Call.self arrives.inside
    obtain rfl : self = c := here.symm.trans inside
    exact ends.yields (arrives.inv inv ready).1 arrives.inside
  | select _ ends | selectResume _ ends => exact absurd (ends.calls.1.symm.trans inside).symm nonnull

/-! ## Waking -/

theorem woken_self (used : s.task c ≠ 0) : s.woken c (s.task c) = some .running := by
  rw [woken, if_neg used, Function.update_self]

theorem Effect.wakes_writer (effect : s.Effect op next reply) (inv : s.Inv) (ready : op.Ready s)
    (runs : op.Runs s t (.read self count)) (readable : s.isReadable self)
    (full : (s.ring self).useCount = (s.ring self).maxCount) (active : s.peer self ≠ 0)
    (used : s.task (s.peer self) ≠ 0) : next.pool (s.task (s.peer self)) = some .running := by
  obtain ⟨mid, arrives, ends⟩ := effect.of_read runs
  have alive := inv.reader ready arrives
  have same := arrives.task (c := s.peer self) (inv.topology.peers self alive active).2.2.1
  cases ends with
  | @data message _ _ =>
    show (mid.taken self count message).pool _ = _
    have full' : (mid.ring self).useCount = (mid.ring self).maxCount ∧ mid.peer self ≠ 0 := by
      rw [arrives.ring_eq, arrives.peer_eq]
      exact ⟨full, active⟩
    rw [taken_eq]
    simp only [if_pos full']
    rw [arrives.peer_eq, ← same]
    exact woken_self (same ▸ used)
  | closed empty _ | blocked empty _ => exact absurd (arrives.isReadable.mpr readable) empty

theorem Effect.wakes_reader (effect : s.Effect op next reply) (inv : s.Inv) (ready : op.Ready s)
    (runs : op.Runs s t (.writeFull self peer buffer)) (nonnull : peer ≠ 0) (writable : s.isWritable peer)
    (empty : (s.ring peer).useCount = 0) (used : s.task peer ≠ 0) (other : s.task peer ≠ t) :
    next.pool (s.task peer) = some .running := by
  obtain ⟨mid, arrives, ends⟩ := effect.of_write runs nonnull
  have target := (arrives.target inv ready).2
  have same := arrives.task (c := peer) target.other.symm
  cases ends with
  | stored _ ends =>
    have pool : next.pool (s.task peer) = (mid.stored t self peer buffer).pool (s.task peer) := by
      cases ends with
      | done _ => rfl
      | closed _ _ => rfl
      | blocked _ _ => exact Function.update_of_ne other ..
    rw [pool, stored_eq]
    simp only [arrives.ring_eq, if_pos empty]
    rw [← same]
    exact woken_self (same ▸ used)
  | closed full _ | blocked full _ => exact absurd (arrives.isWritable.mpr writable) full

theorem destroyed_wakes (active : s.peer self ≠ 0) (used : s.task (s.peer self) ≠ 0) :
    (s.destroyed self).pool (s.task (s.peer self)) = some .running := by
  show (if s.peer self = 0 then s.pool else s.woken (s.peer self)) _ = _
  rw [if_neg active]
  exact woken_self used

/-! ## Whole runs -/

/-- At most one task is inside an operation of `c`. While it waits it has a reason, and
it is in the `task` field. -/
structure Attended (c : Addr) (s : ChannelSystem) : Prop where
  one : ∀ t u, (s.calls t).self = c → (s.calls u).self = c → t = u
  waiting : ∀ t, s.pool t = some .waiting → (s.calls t).self = c → s.task c = t ∧ s.Blocked (s.calls t)

theorem Blocked.keep (effect : s.Effect op next reply) (inv : s.Inv) (ready : op.Ready s)
    (before : s.pool u = some .waiting) (after : next.pool u = some .waiting)
    (inside : (s.calls u).self = c) (found : s.task c = u) (nonnull : c ≠ 0) (blocked : s.Blocked (s.calls u)) :
    next.Blocked (s.calls u) := by
  have alive : s.alive c = true := inside ▸ inv.topology.users u (inside ▸ nonnull)
  have other := effect.ne_of_waiting inv ready before after
  have used : s.task c ≠ 0 := by
    rw [found]
    rintro rfl
    rw [inv.tasks.null] at before
    cases before
  have asleep : next.pool (s.task c) ≠ some .running := by simp [found, after]
  -- The endpoint stays open: the task would have been woken.
  have peer : s.peer c ≠ 0 → next.peer c = s.peer c := by
    intro active
    rcases effect.peer_eq ready inv alive with same | ⟨rfl, _⟩
    · exact same
    · obtain ⟨_, back, _⟩ := inv.topology.peers c alive active
      cases effect with
      | destroy =>
        have woken := @destroyed_wakes s (s.peer c) (by rwa [back]) (by rwa [back])
        rw [back] at woken
        exact absurd woken asleep
      | read arrives _ => cases arrives
      | write arrives _ => cases arrives
      | sync arrives _ => cases arrives
  -- A full ring of the peer stays full.
  have full : ∀ p, (s.ring p).useCount = (s.ring p).maxCount → s.peer c = p → p ≠ 0 →
      (next.ring p).useCount = (next.ring p).maxCount := by
    rintro p full rfl active
    obtain ⟨alive', back, _⟩ := inv.topology.peers c alive active
    have there := inv.topology.allocated _ alive'
    cases effect.ringChange ready with
    | same ring => rw [ring, full]
    | new ring => rw [ring _ there, full]
    | @taken _ t self count message _ runs readable ring =>
      by_cases here : s.peer c = self
      · subst here
        have woken := effect.wakes_writer inv ready runs readable full (by rwa [back]) (by rwa [back])
        rw [back] at woken
        exact absurd woken asleep
      · rw [ring, taken_ring, Function.update_of_ne here, full]
    | @stored _ t self peer buffer _ _ runs writable ring =>
      have here : s.peer c ≠ peer := by
        rintro rfl
        exact absurd writable (Nat.not_lt.mpr full.ge)
      rw [ring, stored_ring, Function.update_of_ne here, full]
  cases call : s.calls u with
  | idle => trivial
  | select _ _ _ _ => trivial
  | read c' count =>
    rw [call] at inside blocked
    obtain rfl : c' = c := inside
    obtain ⟨empty, active⟩ := blocked
    refine ⟨?_, (peer active).trans_ne active⟩
    have there := inv.topology.allocated _ alive
    cases effect.ringChange ready with
    | same ring => rw [ring, empty]
    | new ring => rw [ring _ there, empty]
    | @taken _ t self count message _ runs readable ring =>
      have here : c' ≠ self := by
        rintro rfl
        exact readable empty
      rw [ring, taken_ring, Function.update_of_ne here, empty]
    | @stored _ t self peer buffer _ _ runs writable ring =>
      by_cases here : c' = peer
      · subst here
        have apart : s.task c' ≠ t := by
          rw [found, ← runs.task_eq]
          exact other
        exact absurd (effect.wakes_reader inv ready runs nonnull writable empty used apart) asleep
      · rw [ring, stored_ring, Function.update_of_ne here, empty]
  | writeFull c' p buffer | writeSync c' p buffer size index =>
    rw [call] at inside blocked
    obtain rfl : c' = c := inside
    obtain ⟨filled, toward, active⟩ := blocked
    exact ⟨full p filled toward active, (peer (toward ▸ active)).trans toward, active⟩

theorem Attended.step (attended : Attended c s) (inv : s.Inv) (allowed : SoleUser c s op) (ready : op.Ready s)
    (effect : s.Effect op next reply) (nonnull : c ≠ 0) : Attended c next := by
  constructor
  · intro t u insideT insideU
    have starts : ∀ v w, v = op.task → op.uses = c → (next.calls w).self = c → v = w := by
      rintro v w rfl uses inside
      by_contra other
      have apart : w ≠ op.task := fun same => other same.symm
      exact allowed uses w apart (effect.calls_of_ne apart ▸ inside)
    rcases effect.self_of ready nonnull insideT with beforeT | ⟨hereT, uses⟩
    · rcases effect.self_of ready nonnull insideU with beforeU | ⟨hereU, uses⟩
      · exact attended.one t u beforeT beforeU
      · exact (starts u t hereU uses insideT).symm
    · exact starts t u hereT uses insideU
  · intro u after inside
    rcases effect.waiting after with before | ⟨rfl, rfl⟩
    -- It waited before: only an operation on the same endpoint could take its field, and there is none.
    · have other := effect.ne_of_waiting inv ready before after
      have same := effect.calls_of_ne other
      rw [same] at inside ⊢
      obtain ⟨found, blocked⟩ := attended.waiting u before inside
      have alive : s.alive c = true := inside ▸ inv.topology.users u (inside ▸ nonnull)
      refine ⟨?_, blocked.keep effect inv ready before after inside found nonnull⟩
      rcases effect.task_eq ready inv alive with same | uses | here
      · rw [same, found]
      · exact absurd inside (allowed uses u other)
      · exact absurd (attended.one u op.task inside here) other
    · exact effect.yields inv ready nonnull inside

theorem channelSystem_attended {trace : List ChannelOp} (nonnull : c ≠ 0)
    (run : (channelSystem.restrict (SoleUser c)).Run trace s) : s.Inv ∧ Attended c s := by
  refine run.invariant (fun s => s.Inv ∧ Attended c s) ?_ ?_
  · intro s init
    have idle : ∀ t, (s.calls t).self ≠ c := fun t inside => by
      rw [init.2.1 t] at inside
      exact nonnull inside.symm
    exact ⟨init_inv init, fun t _ inside => absurd inside (idle t), fun t _ inside => absurd inside (idle t)⟩
  · rintro s op next ⟨inv, attended⟩ ⟨allowed, ready, reply, result⟩
    obtain ⟨_, _, result', effect⟩ := inv.effect ready
    cases result.symm.trans result'
    exact ⟨inv.step ready effect, attended.step inv allowed ready effect nonnull⟩

end ChannelSystem

/-- In every run in which no two tasks are inside operations of the endpoint `c`: a task
that waits in a read has an empty ring and an open channel, a task that waits in a write
has a full ring of the peer and an open channel. -/
theorem channel_wakeup (c : Addr) {trace : List ChannelOp} {s : ChannelSystem}
    (run : (channelSystem.restrict (SoleUser c)).Run trace s) (t : Addr)
    (waiting : s.pool t = some .waiting) :
    (∀ count, s.calls t = .read c count → (s.ring c).useCount = 0 ∧ s.peer c ≠ 0) ∧
    (∀ p buffer, s.calls t = .writeFull c p buffer →
      (s.ring p).useCount = (s.ring p).maxCount ∧ s.peer c = p ∧ p ≠ 0) ∧
    ∀ p buffer size index, s.calls t = .writeSync c p buffer size index →
      (s.ring p).useCount = (s.ring p).maxCount ∧ s.peer c = p ∧ p ≠ 0 := by
  have proper := (channelSystem_inv run.of_restrict).topology.proper t
  refine ⟨fun count inside => ?_, fun p buffer inside => ?_, fun p buffer size index inside => ?_⟩
  · rw [inside] at proper
    have := ((channelSystem_attended proper run).2.waiting t waiting (congrArg Call.self inside)).2
    rwa [inside] at this
  · rw [inside] at proper
    have := ((channelSystem_attended proper.1 run).2.waiting t waiting (congrArg Call.self inside)).2
    rwa [inside] at this
  · rw [inside] at proper
    have := ((channelSystem_attended proper.1 run).2.waiting t waiting (congrArg Call.self inside)).2
    rwa [inside] at this

theorem channel_wakeup_reader : ∃ s : ChannelSystem, s.pool 1 = some .waiting ∧ s.calls 1 = .read 8 3 ∧
    (s.ring 8).useCount = 0 ∧ s.peer 8 ≠ 0 := by
  have run : (channelSystem.restrict (SoleUser 8)).Run [] .empty := .init empty_init
  have run := run_step run (.start 1) (fun h => absurd h (by decide)) ⟨by decide, .inl rfl⟩ rfl
  have run := run_step run (.new 8 16 4 0) (fun h => absurd h (by decide))
    ⟨rfl, rfl, by decide, by decide, by decide⟩ rfl
  have run := run_step run (.read 1 8 3) (fun _ _ _ => show 0 ≠ 8 by decide) ⟨⟨rfl, rfl⟩, rfl⟩ rfl
  exact ⟨_, rfl, rfl, (channel_wakeup 8 run 1 rfl).1 3 rfl⟩

end HevTaskSystem
