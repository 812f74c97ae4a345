import HevTaskSystem.Channel.Step

/-! Writes through an endpoint of a synchronous channel, one at a time.

While no two tasks write through the endpoint at once, the task inside a write is the
one whose message was stored last, and a message that lies in the ring is the message of
a task that still waits.
-/

set_option autoImplicit false

namespace HevTaskSystem

open Foundation ChannelSystem

/-- The task is inside a write through `c`. -/
def Call.WritesVia (call : Call) (c : Addr) : Prop := call.self = c ∧ call.peer ≠ 0

/-- A write through `c` starts only while no task is inside a write through `c`. -/
def OneWriter (c : Addr) (s : ChannelSystem) : ChannelOp → Prop
  | .write _ self _ => self = c → ∀ u, ¬ (s.calls u).WritesVia c
  | _ => True

namespace ChannelSystem

variable {s next mid : ChannelSystem} {op : ChannelOp} {reply : Reply} {t u self peer c p : Addr} {call : Call}
  {buffer : List UInt8}

/-! ## The endpoint that a ring is written through -/

def Sources (s : ChannelSystem) : Prop :=
  ∀ t u, (s.calls t).peer ≠ 0 → (s.calls u).peer = (s.calls t).peer → (s.calls u).self = (s.calls t).self

theorem Topology.source (topology : s.Topology) (alive : s.alive c = true) (active : s.peer c ≠ 0)
    (target : s.Target self (s.peer c)) : self = c := by
  obtain ⟨alive', back, _⟩ := topology.peers c alive active
  rcases target.linked with linked | ⟨_, dead⟩
  · have back' := (topology.peers self target.user (linked ▸ active)).2.1
    rw [linked, back] at back'
    exact back'.symm
  · rw [alive'] at dead
    cases dead

theorem Effect.target (effect : s.Effect op next reply) (ready : op.Ready s) (inside : (next.calls u).peer ≠ 0) :
    ((next.calls u).self = (s.calls u).self ∧ (next.calls u).peer = (s.calls u).peer) ∨
      (s.alive (next.calls u).self = true ∧ (next.calls u).peer = s.peer (next.calls u).self) := by
  by_cases here : u = op.task
  · subst here
    rcases effect.calls_task ready with same | ⟨_, ⟨_, zero⟩ | ⟨call, runs, self, peer⟩⟩
    · exact .inl ⟨by rw [same], by rw [same]⟩
    · exact absurd zero inside
    · rw [self, peer]
      rw [peer] at inside
      cases op with
      | read _ _ _ =>
        obtain ⟨_, rfl⟩ := runs
        exact absurd rfl inside
      | write _ _ _ =>
        obtain ⟨_, rfl⟩ := runs
        exact .inr ⟨ready.2, rfl⟩
      | resume _ _ =>
        obtain ⟨_, rfl⟩ := runs
        exact .inl ⟨rfl, rfl⟩
      | _ => exact False.elim runs
  · rw [effect.calls_of_ne here]
    exact .inl ⟨rfl, rfl⟩

theorem Sources.step (sources : s.Sources) (inv : s.Inv) (effect : s.Effect op next reply) (ready : op.Ready s) :
    next.Sources := by
  intro t u inside same
  have inside' : (next.calls u).peer ≠ 0 := same ▸ inside
  -- A write that starts goes to the peer of an open channel, which has no other source.
  have fresh : ∀ v w, (next.calls v).peer ≠ 0 → (next.calls w).peer = (next.calls v).peer →
      s.alive (next.calls v).self = true → (next.calls v).peer = s.peer (next.calls v).self →
      (next.calls w).self = (next.calls v).self := by
    intro v w nonnull same alive toward
    have active : s.peer (next.calls v).self ≠ 0 := toward ▸ nonnull
    have target : s.Target (next.calls w).self (next.calls w).peer := by
      rcases effect.target ready (u := w) (same ▸ nonnull) with ⟨self, peer⟩ | ⟨alive', toward'⟩
      · have := inv.topology.targets w
        rw [← self, ← peer] at this
        exact this (same ▸ nonnull)
      · rw [toward']
        exact inv.topology.target alive' (toward' ▸ same ▸ nonnull)
    rw [same, toward] at target
    exact inv.topology.source alive active target
  rcases effect.target ready inside with ⟨selfT, peerT⟩ | ⟨alive, toward⟩
  · rcases effect.target ready inside' with ⟨selfU, peerU⟩ | ⟨alive, toward⟩
    · rw [selfT, selfU]
      exact sources t u (peerT ▸ inside) (peerU ▸ peerT ▸ same)
    · exact (fresh u t inside' same.symm alive toward).symm
  · exact fresh t u inside same alive toward

/-! ## One writer at a time -/

structure Exclusive (c : Addr) (s : ChannelSystem) : Prop where
  one : ∀ t u, (s.calls t).WritesVia c → (s.calls u).WritesVia c → t = u
  full : ∀ t p buffer, s.calls t = .writeFull c p buffer → (s.ring p).maxCount ≠ 1
  sync : ∀ t p buffer size index, s.calls t = .writeSync c p buffer size index → (s.ring p).maxCount = 1 →
    size = buffer.length ∧ (s.ring p).writes[index]? = some buffer ∧ index + 1 = (s.ring p).writes.length
  pending : s.alive c = true → s.peer c ≠ 0 → (s.ring (s.peer c)).maxCount = 1 → s.isReadable (s.peer c) →
    ∃ t, (s.calls t).WritesVia c

theorem Exclusive.congr (exclusive : Exclusive c s)
    (calls : ∀ u, (s.calls u).WritesVia c ∨ (next.calls u).WritesVia c → next.calls u = s.calls u)
    (rings : ∀ u, (s.calls u).WritesVia c →
      (next.ring (s.calls u).peer).maxCount = (s.ring (s.calls u).peer).maxCount ∧
        (next.ring (s.calls u).peer).writes = (s.ring (s.calls u).peer).writes)
    (pending : next.alive c = true → next.peer c ≠ 0 → (next.ring (next.peer c)).maxCount = 1 →
      next.isReadable (next.peer c) → ∃ t, (s.calls t).WritesVia c)
    (proper : ∀ u, (next.calls u).Proper) : Exclusive c next := by
  have before : ∀ u, (next.calls u).WritesVia c → (s.calls u).WritesVia c := fun u via =>
    calls u (.inr via) ▸ via
  constructor
  · intro t u viaT viaU
    exact exclusive.one t u (before t viaT) (before u viaU)
  · intro t p buffer inside
    have nonnull := proper t
    rw [inside] at nonnull
    have via : (next.calls t).WritesVia c := by
      rw [inside]
      exact ⟨rfl, nonnull.2⟩
    have inside' := (calls t (.inr via)).symm.trans inside
    have same := rings t (before t via)
    rw [inside'] at same
    exact same.1 ▸ exclusive.full t p buffer inside'
  · intro t p buffer size index inside one
    have nonnull := proper t
    rw [inside] at nonnull
    have via : (next.calls t).WritesVia c := by
      rw [inside]
      exact ⟨rfl, nonnull.2⟩
    have inside' := (calls t (.inr via)).symm.trans inside
    obtain ⟨maxCount, writes⟩ := rings t (before t via)
    rw [inside'] at maxCount writes
    simp only [Call.peer] at maxCount writes
    rw [writes]
    exact exclusive.sync t p buffer size index inside' (maxCount ▸ one)
  · intro alive active one readable
    obtain ⟨t, via⟩ := pending alive active one readable
    exact ⟨t, (calls t (.inl via)).symm ▸ via⟩

theorem Inv.target_of_runs (inv : s.Inv) (ready : op.Ready s) (runs : op.Runs s t (.writeFull self p buffer))
    (nonnull : p ≠ 0) : s.Target self p := by
  cases op with
  | write _ _ _ =>
    obtain ⟨_, same⟩ := runs
    cases same
    exact inv.topology.target ready.2 nonnull
  | resume v _ =>
    obtain ⟨rfl, same⟩ := runs
    have target := inv.topology.targets v
    rw [← same] at target
    exact target nonnull
  | read _ _ _ => cases runs.2
  | _ => exact False.elim runs

theorem Sources.of_runs (sources : s.Sources) (inv : s.Inv) (ready : op.Ready s)
    (runs : op.Runs s t (.writeFull self p buffer)) (same : (s.calls u).peer = p) (nonnull : p ≠ 0) :
    self = (s.calls u).self := by
  cases op with
  | write _ _ _ =>
    obtain ⟨_, call⟩ := runs
    cases call
    have target := inv.topology.targets u
    rw [same] at target
    exact (inv.topology.source ready.2 nonnull (target nonnull)).symm
  | resume v _ =>
    obtain ⟨rfl, call⟩ := runs
    have := sources u v (same.trans_ne nonnull)
    rw [← call] at this
    exact this same.symm
  | read _ _ _ => cases runs.2
  | _ => exact False.elim runs

/-! ## Steps that are no part of a write through the endpoint -/

theorem Effect.calls_other (effect : s.Effect op next reply) (ready : op.Ready s)
    (outside : ∀ t call, op.Runs s t call → ¬ call.WritesVia c)
    (via : (s.calls u).WritesVia c ∨ (next.calls u).WritesVia c) : next.calls u = s.calls u := by
  by_cases here : u = op.task
  · subst here
    rcases effect.calls_task ready with same | ⟨busy, after⟩
    · exact same
    -- The task of the step has a new call, and neither that one nor the old one is via `c`.
    · exfalso
      rcases via with via | via
      · rcases busy with idle | runs
        · rw [idle] at via
          exact via.2 rfl
        · exact outside _ _ runs via
      · rcases after with ⟨_, zero⟩ | ⟨call, runs, self, peer⟩
        · exact via.2 zero
        · exact outside _ _ runs ⟨self ▸ via.1, peer ▸ via.2⟩
  · exact effect.calls_of_ne here

theorem Effect.writes_other (effect : s.Effect op next reply) (inv : s.Inv) (sources : s.Sources)
    (ready : op.Ready s) (outside : ∀ t call, op.Runs s t call → ¬ call.WritesVia c)
    (via : (s.calls u).WritesVia c) :
    (next.ring (s.calls u).peer).maxCount = (s.ring (s.calls u).peer).maxCount ∧
      (next.ring (s.calls u).peer).writes = (s.ring (s.calls u).peer).writes := by
  have there := (inv.topology.targets u via.2).allocated
  cases effect.ringChange ready with
  | same ring => exact ⟨by rw [ring], by rw [ring]⟩
  | new ring => exact ⟨by rw [ring _ there], by rw [ring _ there]⟩
  | @taken _ _ self _ _ _ _ _ ring =>
    rw [ring, taken_ring]
    by_cases here : (s.calls u).peer = self
    · simp [here]
    · simp [here]
  | @stored _ t self p buffer _ _ runs _ ring =>
    -- All writes to the ring go through `c`, so this one is to another ring.
    have other : (s.calls u).peer ≠ p := by
      rintro rfl
      exact outside _ _ runs ⟨(sources.of_runs inv ready runs rfl via.2).trans via.1, via.2⟩
    rw [ring, stored_ring, Function.update_of_ne other]
    exact ⟨rfl, rfl⟩

theorem Effect.readable_other (effect : s.Effect op next reply) (inv : s.Inv) (ready : op.Ready s)
    (outside : ∀ t call, op.Runs s t call → ¬ call.WritesVia c) (alive : s.alive c = true)
    (active : s.peer c ≠ 0) (one : (next.ring (s.peer c)).maxCount = 1) (readable : next.isReadable (s.peer c)) :
    (s.ring (s.peer c)).maxCount = 1 ∧ s.isReadable (s.peer c) := by
  have there := inv.topology.allocated _ (inv.topology.peers c alive active).1
  cases effect.ringChange ready with
  | same ring =>
    rw [isReadable, ring] at readable
    exact ⟨ring ▸ one, readable⟩
  | new ring =>
    rw [isReadable, ring _ there] at readable
    exact ⟨ring _ there ▸ one, readable⟩
  | @taken _ _ self _ _ _ _ _ ring =>
    rw [ring, taken_ring] at one
    rw [isReadable, ring, taken_ring] at readable
    by_cases here : s.peer c = self
    · subst here
      simp only [Function.update_self, ChannelRing.withCount_maxCount, ChannelRing.taken_maxCount,
        ChannelRing.withCount_useCount] at one readable
      exact ⟨one, by rw [isReadable]; omega⟩
    · rw [Function.update_of_ne here] at one readable
      exact ⟨one, readable⟩
  | @stored _ t self p buffer _ _ runs _ ring =>
    have other : s.peer c ≠ p := by
      rintro rfl
      have target := inv.target_of_runs ready runs active
      exact outside _ _ runs ⟨inv.topology.source alive active target, active⟩
    rw [ring, stored_ring, Function.update_of_ne other] at one
    rw [isReadable, ring, stored_ring, Function.update_of_ne other] at readable
    exact ⟨one, readable⟩

theorem Effect.new_empty {c1 c2 size buffers : Nat} (effect : s.Effect (.new c1 c2 size buffers) next reply)
    (ready : (ChannelOp.new c1 c2 size buffers).Ready s) (nonnull1 : c1 ≠ 0) (nonnull2 : c2 ≠ 0)
    (mine : c = c1 ∨ c = c2) : ¬ next.isReadable (next.peer c) := by
  cases effect with
  | newFailed failed => exact absurd failed (not_or.mpr ⟨nonnull1, nonnull2⟩)
  | new _ _ =>
    obtain ⟨peer1, peer2, ring⟩ := paired_fields ready nonnull1
    rcases mine with rfl | rfl
    · rw [isReadable, peer1, ring _ (.inr rfl)]
      exact fun readable => readable rfl
    · rw [isReadable, peer2, ring _ (.inl rfl)]
      exact fun readable => readable rfl
  | read arrives _ => cases arrives
  | write arrives _ => cases arrives
  | sync arrives _ => cases arrives

theorem Exclusive.step_other (exclusive : Exclusive c s) (inv : s.Inv) (sources : s.Sources)
    (effect : s.Effect op next reply) (ready : op.Ready s)
    (outside : ∀ t call, op.Runs s t call → ¬ call.WritesVia c) : Exclusive c next := by
  refine exclusive.congr (fun u => effect.calls_other ready outside)
    (fun u => effect.writes_other inv sources ready outside) (fun alive active one readable => ?_)
    (inv.step ready effect).topology.proper
  rcases effect.alive_of alive with alive | ⟨c1, c2, size, buffers, rfl, nonnull1, nonnull2, mine⟩
  · rcases effect.peer_eq ready inv alive with same | ⟨_, closed⟩
    · rw [same] at active one readable
      obtain ⟨one, readable⟩ := effect.readable_other inv ready outside alive active one readable
      exact exclusive.pending alive active one readable
    · exact absurd closed active
  · exact absurd readable (effect.new_empty ready nonnull1 nonnull2 mine)

/-! ## Steps of a write through the endpoint -/

theorem Exclusive.alone (exclusive : Exclusive c s) (allowed : OneWriter c s op)
    (arrives : s.Arrives op t call mid) (via : call.WritesVia c) :
    ∀ u, u ≠ t → ¬ (s.calls u).WritesVia c := by
  intro u other via'
  cases arrives with
  | read => exact via.2 rfl
  | write _ => exact allowed via.1 u via'
  | resume _ => exact other (exclusive.one u t via' via)

theorem Exclusive.of_alone (alone : ∀ u, u ≠ t → ¬ (next.calls u).WritesVia c) (topology : next.Topology)
    (full : ∀ p buffer, next.calls t = .writeFull c p buffer → (next.ring p).maxCount ≠ 1)
    (sync : ∀ p buffer size index, next.calls t = .writeSync c p buffer size index →
      (next.ring p).maxCount = 1 → size = buffer.length ∧ (next.ring p).writes[index]? = some buffer ∧
        index + 1 = (next.ring p).writes.length)
    (pending : next.peer c ≠ 0 → (next.ring (next.peer c)).maxCount = 1 → next.isReadable (next.peer c) →
      (next.calls t).WritesVia c) : Exclusive c next := by
  have mine : ∀ u, (next.calls u).WritesVia c → u = t := fun u via => by_contra fun other => alone u other via
  constructor
  · intro u v viaU viaV
    rw [mine u viaU, mine v viaV]
  · intro u p buffer inside
    have nonnull := topology.proper u
    rw [inside] at nonnull
    obtain rfl := mine u (by rw [inside]; exact ⟨rfl, nonnull.2⟩)
    exact full p buffer inside
  · intro u p buffer size index inside
    have nonnull := topology.proper u
    rw [inside] at nonnull
    obtain rfl := mine u (by rw [inside]; exact ⟨rfl, nonnull.2⟩)
    exact sync p buffer size index inside
  · intro _ active one readable
    exact ⟨t, pending active one readable⟩

theorem Exclusive.sync_ends {size index : Nat} (inv : s.Inv)
    (inside : s.calls t = .writeSync c p buffer size index)
    (alone : ∀ u, u ≠ t → ¬ (s.calls u).WritesVia c)
    (sync : (s.ring p).maxCount = 1 → size = buffer.length ∧ (s.ring p).writes[index]? = some buffer ∧
      index + 1 = (s.ring p).writes.length)
    (ends : s.SyncEnds t c p size next reply) (topology : next.Topology) : Exclusive c next := by
  have nonnull := inv.topology.proper t
  rw [inside] at nonnull
  have target := inv.topology.writes (congrArg Call.self inside) (congrArg Call.peer inside) nonnull.2
  have alone' : ∀ u, u ≠ t → ¬ (next.calls u).WritesVia c := fun u other =>
    (ends.calls_of_ne other).symm ▸ alone u other
  refine .of_alone alone' topology (fun p' buffer' inside' => ?_) (fun p' buffer' size' index' inside' one => ?_)
    fun active one readable => ?_
  · exfalso
    rcases ends.calls with idle | same
    · rw [idle] at inside'
      cases inside'
    · rw [same, inside] at inside'
      cases inside'
  · rcases ends.calls with idle | same
    · rw [idle] at inside'
      cases inside'
    · rw [same, inside] at inside'
      cases inside'
      rw [ends.ring_eq] at one ⊢
      exact sync one
  · rw [ends.peer_eq] at active one readable
    have toward : s.peer c = p := target.linked.resolve_right fun closed => active closed.1
    cases ends with
    | done writable =>
      -- A ring for one message with room is empty.
      exfalso
      rw [toward] at one readable
      have writable : (s.ring p).useCount < (s.ring p).maxCount := writable
      have one : (s.ring p).maxCount = 1 := one
      have readable : (s.ring p).useCount ≠ 0 := readable
      omega
    | closed _ closed => exact absurd closed active
    | blocked _ _ =>
      show (s.calls t).WritesVia c
      rw [inside]
      exact ⟨rfl, nonnull.2⟩

theorem Exclusive.room (exclusive : Exclusive c s) (allowed : OneWriter c s op) (ready : op.Ready s)
    (arrives : s.Arrives op t (.writeFull c p buffer) mid) (one : (s.ring p).maxCount = 1) :
    s.isWritable p ∧ s.peer c = p := by
  generalize inside : Call.writeFull c p buffer = call at arrives
  cases arrives with
  | read => cases inside
  | write active =>
    cases inside
    refine ⟨?_, rfl⟩
    by_contra full
    have readable : s.isReadable (s.peer c) := by
      have : (s.ring (s.peer c)).maxCount ≤ (s.ring (s.peer c)).useCount := Nat.le_of_not_lt full
      rw [isReadable]
      omega
    obtain ⟨u, via⟩ := exclusive.pending ready.2 active one readable
    exact allowed rfl u via
  | resume _ => exact absurd one (exclusive.full t p buffer inside.symm)

theorem Exclusive.write_ends (exclusive : Exclusive c s) (inv : s.Inv) (allowed : OneWriter c s op)
    (ready : op.Ready s) (arrives : s.Arrives op t (.writeFull c p buffer) mid)
    (ends : mid.WriteEnds t c p buffer next reply) : Exclusive c next := by
  obtain ⟨arrived, unbound⟩ := arrives.inv inv ready
  have topology := (arrived.writeEnds arrives.inside unbound ends).topology
  obtain ⟨nonnull, target⟩ := arrives.target inv ready
  have via : (Call.writeFull c p buffer).WritesVia c := ⟨rfl, nonnull⟩
  have alone : ∀ u, u ≠ t → ¬ (mid.calls u).WritesVia c := fun u other =>
    (arrives.calls_of_ne other).symm ▸ exclusive.alone allowed arrives via u other
  cases ends with
  | stored writable ends =>
    refine .sync_ends (arrived.stored target writable arrives.inside unbound) enter_calls_self
      (fun u other => enter_calls_of_ne (s := mid.stored t c p buffer) other ▸ alone u other) (fun one => ?_)
      ends topology
    have ring := @stored_ring_self mid t c p buffer
    have one : (mid.ring p).maxCount = 1 := (congrArg ChannelRing.maxCount ring).symm.trans one
    have message : (mid.ring p).messageOf buffer = buffer := if_pos one
    show _ ∧ ((mid.stored t c p buffer).ring p).writes[_]? = _ ∧ _ = ((mid.stored t c p buffer).ring p).writes.length
    simp [ring, message]
  | closed _ closed =>
    have idle : ((mid.channelUnref p).leave t).calls t = .idle := enter_calls_self
    refine .of_alone (t := t) (fun u other => ?_) topology (fun _ _ inside => ?_) (fun _ _ _ _ inside => ?_)
      fun active => absurd closed active
    · have same : ((mid.channelUnref p).leave t).calls u = mid.calls u := enter_calls_of_ne other
      rw [same]
      exact alone u other
    · rw [idle] at inside
      cases inside
    · rw [idle] at inside
      cases inside
  | blocked full _ =>
    have waits : (mid.yieldOn t c).calls t = .writeFull c p buffer := arrives.inside
    refine .of_alone alone topology (fun p' buffer' inside one => ?_) (fun _ _ _ _ inside => ?_)
      fun _ _ _ => by rw [waits]; exact via
    · rw [waits] at inside
      cases inside
      have one : (s.ring p).maxCount = 1 := arrives.ring_eq ▸ one
      exact full (arrives.isWritable.mpr (exclusive.room allowed ready arrives one).1)
    · rw [waits] at inside
      cases inside

theorem Exclusive.step (exclusive : Exclusive c s) (inv : s.Inv) (sources : s.Sources)
    (allowed : OneWriter c s op) (ready : op.Ready s) (effect : s.Effect op next reply) :
    Exclusive c next := by
  by_cases via : ∃ t call, op.Runs s t call ∧ call.WritesVia c
  · obtain ⟨t, call, runs, self, nonnull⟩ := via
    cases call with
    | writeFull c' p buffer =>
      cases self
      obtain ⟨mid, arrives, ends⟩ := effect.of_write runs nonnull
      exact exclusive.write_ends inv allowed ready arrives ends
    | writeSync c' p buffer size index =>
      cases self
      obtain ⟨mid, arrives, ends⟩ := effect.of_sync runs
      obtain ⟨arrived, unbound⟩ := arrives.inv inv ready
      have alone := exclusive.alone allowed arrives ⟨rfl, nonnull⟩
      refine .sync_ends arrived arrives.inside (fun u other => arrives.calls_of_ne other ▸ alone u other)
        (fun one => ?_) ends (arrived.syncEnds arrives.inside unbound ends).topology
      rw [arrives.ring_eq] at one ⊢
      exact exclusive.sync t p buffer size index arrives.sync_inside one
    | idle | read _ _ | select _ _ _ _ => exact absurd rfl nonnull
  · exact exclusive.step_other inv sources effect ready fun t call runs via' => via ⟨t, call, runs, via'⟩

/-! ## Whole runs -/

theorem init_sources (init : channelSystem.init s) : s.Sources := by
  intro t u inside
  rw [init.2.1 t] at inside
  exact absurd rfl inside

theorem init_exclusive (init : channelSystem.init s) : Exclusive c s := by
  obtain ⟨_, calls, _, alive, _⟩ := init
  constructor
  · intro t u via
    rw [calls t] at via
    exact absurd rfl via.2
  · intro t p buffer inside
    rw [calls t] at inside
    cases inside
  · intro t p buffer size index inside
    rw [calls t] at inside
    cases inside
  · intro alive'
    rw [alive c] at alive'
    cases alive'

theorem channelSystem_exclusive {trace : List ChannelOp}
    (run : (channelSystem.restrict (OneWriter c)).Run trace s) : s.Inv ∧ s.Sources ∧ Exclusive c s := by
  refine run.invariant (fun s => s.Inv ∧ s.Sources ∧ Exclusive c s) ?_ ?_
  · intro s init
    exact ⟨init_inv init, init_sources init, init_exclusive init⟩
  · rintro s op next ⟨inv, sources, exclusive⟩ ⟨allowed, ready, reply, result⟩
    obtain ⟨_, _, result', effect⟩ := inv.effect ready
    cases result.symm.trans result'
    exact ⟨inv.step ready effect, sources.step inv effect ready,
      exclusive.step inv sources allowed ready effect⟩

end ChannelSystem

end HevTaskSystem
