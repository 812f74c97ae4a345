import HevTaskSystem.Channel.Synchronous

/-! What the lists of a selector say about its members.

The list for reading is exact. The list for writing is not: a write takes its endpoint
out when one place is left, a read of the other endpoint puts it back when no place was
left.
-/

set_option autoImplicit false

namespace HevTaskSystem

open Foundation ChannelSystem

/-- A read of the other endpoint of a buffered member leaves it select-writable, as it
was before. -/
def KeepsWritable (s : ChannelSystem) (op : ChannelOp) : Prop :=
  ∀ t p count, op.Runs s t (.read p count) → s.peer p ≠ 0 → s.select (s.peer p) ≠ 0 →
    2 ≤ (s.ring p).maxCount → s.isSelectWritable p

/-- The lists for reading hold the readable members, in the order in which they became
readable. -/
structure ReadExact (s : ChannelSystem) (order : Addr → List Addr) : Prop where
  list : ∀ self, (s.readLists.family.list self).Holds s.readLists.family.nodes (order self)
  members : ∀ self c, c ∈ order self ↔ self ≠ 0 ∧ s.select c = self ∧ s.isReadable c
  since : ∀ self, (order self).Pairwise fun a b => s.since a < s.since b

/-- The channel becomes readable in the step, or is registered readable. -/
def ChannelOp.Marks (op : ChannelOp) (s next : ChannelSystem) (c : Addr) : Prop :=
  (¬ s.isReadable c ∧ next.isReadable c) ∨ ∃ t self, op = .selectAdd t self c ∧ s.isReadable c

/-- The clock counts the times that a channel was marked, and each channel keeps the
number of the last such time. -/
structure ChannelOp.Stamps (op : ChannelOp) (s next : ChannelSystem) : Prop where
  clock : s.clock ≤ next.clock
  marked : ∀ c, s.alive c = true → op.Marks s next c → next.since c = s.clock ∧ s.clock < next.clock
  unmarked : ∀ c, s.alive c = true → ¬ op.Marks s next c → next.since c = s.since c

/-- The step is part of `hev_task_channel_select_read` on the selector. -/
def ChannelOp.SelectsRead (op : ChannelOp) (s : ChannelSystem) (self : Addr) : Prop :=
  match op with
  | .select _ owner list _ => owner = self ∧ list = .read
  | .resume t _ => ∃ timeout milliseconds, s.calls t = .select self .read timeout milliseconds
  | _ => False

/-- What a step does to the readiness of channels, and what a selection of a channel to
read comes to. -/
structure Selection (s : ChannelSystem) (op : ChannelOp) (next : ChannelSystem) (reply : Reply) : Prop where
  stamps : op.Stamps s next
  stays : ∀ c, s.alive c = true → s.isReadable c → (∀ t count, ¬ op.Runs s t (.read c count)) → next.isReadable c
  reads : ∀ t c count, op.Runs s t (.read c count) → s.isReadable c → ∃ bytes, reply = .data bytes
  found : ∀ self c, op.SelectsRead s self → reply = .chan c → c ≠ 0 → s.select c = self ∧ next.isReadable c
  none : ∀ t self timeout, op = .select t self .read timeout → reply = .chan 0 →
    -2 ^ 31 ≤ timeout → timeout < 2 ^ 31 → (∀ c, s.select c ≠ self) ∨ timeout = 0
  timeout : ∀ t left self timeout milliseconds, op = .resume t left →
    s.calls t = .select self .read timeout milliseconds → reply = .chan 0 → 0 ≤ timeout ∧ left = 0

namespace ChannelSystem

variable {s next mid : ChannelSystem} {op : ChannelOp} {reply : Reply} {t u self peer c p : Addr} {call : Call}
  {count : Nat} {buffer : List UInt8}

/-! ## The lists for writing -/

/-- A member with an open buffered channel is in the list for writing if it is
select-writable. -/
def WriteExact (s : ChannelSystem) : Prop :=
  ∀ c, s.select c ≠ 0 → s.peer c ≠ 0 → 2 ≤ (s.ring (s.peer c)).maxCount →
    (s.writeLists.used c = true ↔ s.isSelectWritable (s.peer c))

theorem WriteExact.congr (exact' : s.WriteExact) (select : next.select = s.select)
    (peer : ∀ c, s.select c ≠ 0 → next.peer c ≠ 0 → next.peer c = s.peer c)
    (used : ∀ c, s.select c ≠ 0 → next.writeLists.used c = s.writeLists.used c)
    (ring : ∀ c, s.select c ≠ 0 → next.peer c ≠ 0 → next.ring (next.peer c) = s.ring (next.peer c)) :
    next.WriteExact := by
  intro c member active
  rw [select] at member
  rw [used c member, isSelectWritable, ring c member active, peer c member active]
  exact exact' c member (peer c member active ▸ active)

theorem taken_used_of_ne {message : List UInt8} (other : c ≠ s.peer self) :
    (s.taken self count message).writeLists.used c = s.writeLists.used c := by
  rw [taken_eq]
  simp only
  split
  · rw [used_add, Function.update_of_ne other]
  · rfl

theorem taken_writeLists {message : List UInt8} (room : (s.ring self).useCount ≠ (s.ring self).maxCount) :
    (s.taken self count message).writeLists = s.writeLists := by
  rw [taken_eq]
  exact if_neg fun full => room full.1.1

theorem WriteExact.taken (exact' : s.WriteExact) (inv : s.Inv) (alive : s.alive self = true)
    (keeps : s.peer self ≠ 0 → s.select (s.peer self) ≠ 0 → 2 ≤ (s.ring self).maxCount → s.isSelectWritable self)
    {message : List UInt8} : (s.taken self count message).WriteExact := by
  intro c (member : s.select c ≠ 0) (active : s.peer c ≠ 0) many
  obtain ⟨alive', _⟩ := inv.member member rfl
  obtain ⟨_, back, _⟩ := inv.topology.peers c alive' active
  show _ ↔ ChannelSystem.isSelectWritable _ (s.peer c)
  by_cases here : s.peer c = self
  · -- The channel was select-writable and is so all the more.
    subst here
    have ring := @taken_ring_self s (s.peer c) count message
    have many : 2 ≤ (s.ring (s.peer c)).maxCount := (congrArg ChannelRing.maxCount ring) ▸ many
    have nonnull := inv.topology.ne_zero (inv.topology.allocated c alive')
    have writable : (s.ring (s.peer c)).useCount < (s.ring (s.peer c)).maxCount - 1 :=
      keeps (by rwa [back]) (by rwa [back]) many
    rw [taken_writeLists (by omega), isSelectWritable, ring, exact' c member active many]
    simp only [ChannelRing.withCount_useCount, ChannelRing.withCount_maxCount, ChannelRing.taken_maxCount]
    exact ⟨fun _ => by omega, fun _ => writable⟩
  · have other : c ≠ s.peer self := by
      rintro rfl
      exact here (inv.topology.peers self alive (inv.topology.ne_zero (inv.topology.allocated _ alive'))).2.1
    have ring : (s.taken self count message).ring (s.peer c) = s.ring (s.peer c) := by
      rw [taken_ring, Function.update_of_ne here]
    rw [taken_used_of_ne other, isSelectWritable, ring]
    exact exact' c member active (ring ▸ many)

theorem stored_used_of_ne (other : c ≠ self) :
    (s.stored t self peer buffer).writeLists.used c = s.writeLists.used c := by
  rw [stored_eq]
  simp only
  split
  · rw [used_del, Function.update_of_ne other]
  · rfl

theorem stored_used_self (member : s.select self ≠ 0) : (s.stored t self peer buffer).writeLists.used self =
    if (s.ring peer).useCount + 1 < (s.ring peer).maxCount - 1 then s.writeLists.used self else false := by
  rw [stored_eq]
  by_cases room : (s.ring peer).useCount + 1 < (s.ring peer).maxCount - 1
  · simp [room]
  · simp [room, member, used_del]

theorem WriteExact.stored (exact' : s.WriteExact) (inv : s.Inv) (target : s.Target self peer) :
    (s.stored t self peer buffer).WriteExact := by
  intro c (member : s.select c ≠ 0) (active : s.peer c ≠ 0) many
  obtain ⟨alive', _⟩ := inv.member member rfl
  show _ ↔ ChannelSystem.isSelectWritable _ (s.peer c)
  by_cases here : s.peer c = peer
  · obtain rfl := here
    obtain rfl := inv.topology.source alive' active target
    have ring := @stored_ring_self s t self (s.peer self) buffer
    have many : 2 ≤ (s.ring (s.peer self)).maxCount := (congrArg ChannelRing.maxCount ring) ▸ many
    rw [stored_used_self member, isSelectWritable, ring]
    simp only [ChannelRing.withCount_useCount, ChannelRing.withCount_maxCount, ChannelRing.stored_maxCount]
    have before := exact' self member active many
    by_cases room : (s.ring (s.peer self)).useCount + 1 < (s.ring (s.peer self)).maxCount - 1
    · rw [if_pos room, before]
      exact ⟨fun _ => room, fun _ => Nat.lt_of_succ_lt room⟩
    · rw [if_neg room]
      exact ⟨fun h => absurd h (by decide), fun h => absurd h room⟩
  · have other : c ≠ self := by
      rintro rfl
      exact here (target.linked.resolve_right fun closed => active closed.1)
    have ring : (s.stored t self peer buffer).ring (s.peer c) = s.ring (s.peer c) := by
      rw [stored_ring, Function.update_of_ne here]
    rw [stored_used_of_ne other, isSelectWritable, ring]
    exact exact' c member active (ring ▸ many)

theorem WriteExact.registered (exact' : s.WriteExact) (inv : s.Inv) (outside : s.select c = 0) :
    (s.registered t self c).WriteExact := by
  intro b member (active : s.peer b ≠ 0) many
  obtain ⟨_, _, _, lists⟩ := inv.lists
  have unused := (lists.unused outside).2
  have used : (s.registered t self c).writeLists.used =
      if s.peer c ≠ 0 ∧ s.isSelectWritable (s.peer c) then Function.update s.writeLists.used c true
      else s.writeLists.used := by
    unfold ChannelSystem.registered
    simp only
    split
    · rw [used_add]
    · rfl
  show _ ↔ s.isSelectWritable (s.peer b)
  rw [used]
  by_cases here : b = c
  · subst here
    by_cases writable : s.isSelectWritable (s.peer b)
    · rw [if_pos ⟨active, writable⟩, Function.update_self]
      exact ⟨fun _ => writable, fun _ => rfl⟩
    · rw [if_neg fun both => writable both.2, unused]
      exact ⟨fun h => absurd h (by decide), fun h => absurd h writable⟩
  · have member : s.select b ≠ 0 := (Function.update_of_ne here ..).symm.trans_ne member
    have same : (if s.peer c ≠ 0 ∧ s.isSelectWritable (s.peer c) then Function.update s.writeLists.used c true
        else s.writeLists.used) b = s.writeLists.used b := by
      split
      · rw [Function.update_of_ne here]
      · rfl
    rw [same]
    exact exact' b member active many

theorem WriteExact.unregistered (exact' : s.WriteExact) : (s.unregistered self c).WriteExact := by
  intro b member active many
  have here : b ≠ c := by
    rintro rfl
    exact member (Function.update_self ..)
  have member : s.select b ≠ 0 := (Function.update_of_ne here ..).symm.trans_ne member
  have used : (s.unregistered self c).writeLists.used b = s.writeLists.used b := by
    show (s.writeLists.del self c).used b = _
    rw [used_del, Function.update_of_ne here]
  rw [used]
  exact exact' b member active many

theorem SyncEnds.writeExact {size : Nat} (ends : s.SyncEnds t self peer size next reply)
    (exact' : s.WriteExact) : next.WriteExact := by
  cases ends with
  | done _ => exact exact'
  | closed _ _ => exact exact'
  | blocked _ _ => exact exact'

theorem WriteExact.arrives (exact' : s.WriteExact) (arrives : s.Arrives op t call mid) : mid.WriteExact := by
  rw [arrives.same]
  exact exact'

theorem WriteExact.step (exact' : s.WriteExact) (inv : s.Inv) (keeps : KeepsWritable s op) (ready : op.Ready s)
    (effect : s.Effect op next reply) : next.WriteExact := by
  cases effect with
  | @new c1 c2 size buffers _ _ =>
    have outside : ∀ b, s.allocated b = false → s.select b = 0 := fun b free => by
      by_contra member
      exact ne_of_allocated free (inv.topology.allocated b (inv.member member rfl).1) rfl
    have member : ∀ b, s.select b ≠ 0 → b ≠ c1 ∧ b ≠ c2 := fun b member =>
      new_apart ready (inv.topology.allocated b (inv.member member rfl).1)
    refine exact'.congr ?_ (fun b mine _ => ?_) (fun b mine => ?_) fun b mine active => ?_
    · show Function.update (Function.update s.select c1 0) c2 0 = s.select
      have clear : ∀ b, s.allocated b = false → Function.update s.select b 0 = s.select := fun b free => by
        rw [← outside b free, Function.update_eq_self]
      rw [clear c1 ready.1, clear c2 ready.2.1]
    · simp [paired, initChannel, member b mine]
    · simp [paired, initChannel, member b mine]
    · have same : (s.paired c1 c2 size buffers).peer b = s.peer b := by simp [paired, initChannel, member b mine]
      rw [same] at active ⊢
      obtain ⟨alive, _⟩ := inv.member mine rfl
      have there := inv.topology.allocated _ (inv.topology.peers b alive active).1
      simp [paired, initChannel, new_apart ready there]
  | @destroy self =>
    refine exact'.congr rfl (fun b mine active => ?_) (fun _ _ => rfl) fun _ _ _ => rfl
    rcases Effect.destroy.peer_eq ready inv (inv.member mine rfl).1 with same | ⟨_, closed⟩
    · exact same
    · exact absurd closed active
  -- A read makes room in its own ring; the condition says that the writer side is told.
  | read arrives ends =>
    have mid := exact'.arrives arrives
    cases ends with
    | data _ _ =>
      refine WriteExact.taken mid (arrives.inv inv ready).1 ?_ fun active member many => ?_
      · rw [arrives.alive_eq]
        exact inv.reader ready arrives
      · rw [arrives.peer_eq, arrives.select_eq] at *
        rw [arrives.ring_eq] at many
        rw [isSelectWritable, arrives.ring_eq]
        exact keeps _ _ _ arrives.runs active member many
    | closed _ _ => exact mid
    | blocked _ _ => exact mid
  | @write _ t self peer buffer _ _ _ arrives ends =>
    have mid := exact'.arrives arrives
    cases ends with
    | stored _ ends =>
      have stored := @WriteExact.stored _ t self peer buffer mid (arrives.inv inv ready).1
        (arrives.target inv ready).2
      exact ends.writeExact stored
    | closed _ _ => exact mid
    | blocked _ _ => exact mid
  | sync arrives ends => exact ends.writeExact (exact'.arrives arrives)
  | selectAdd => exact exact'.registered inv ready.2.2.2.2
  | selectDel => exact exact'.unregistered
  | select _ ends | selectResume _ ends => cases ends <;> exact exact'
  | _ => exact exact'

theorem channelSystem_writeExact {trace : List ChannelOp}
    (run : (channelSystem.restrict KeepsWritable).Run trace s) : s.Inv ∧ s.WriteExact := by
  refine run.invariant (fun s => s.Inv ∧ s.WriteExact) ?_ ?_
  · intro s init
    refine ⟨init_inv init, fun c member => ?_⟩
    exact absurd (init.2.2.2.2.1 c) member
  · rintro s op next ⟨inv, exact'⟩ ⟨keeps, ready, reply, result⟩
    obtain ⟨_, _, result', effect⟩ := inv.effect ready
    cases result.symm.trans result'
    exact ⟨inv.step ready effect, exact'.step inv keeps ready effect⟩

/-! ## The lists for reading -/

theorem Inv.readExact (inv : s.Inv) : ∃ order, ReadExact s order := by
  obtain ⟨_, order, _, lists⟩ := inv.lists
  refine ⟨order, lists.read.holds.each, fun self c => ?_, lists.since⟩
  rw [lists.read.mem]
  constructor
  · rintro ⟨owner, member, flag⟩
    exact ⟨owner, member, ((lists.readable c).mp flag).2⟩
  · rintro ⟨owner, member, readable⟩
    exact ⟨owner, member, (lists.readable c).mpr ⟨member.trans_ne owner, readable⟩⟩

theorem stamps_of_quiet (since : next.since = s.since) (clock : next.clock = s.clock)
    (readable : ∀ c, s.alive c = true → next.isReadable c → s.isReadable c)
    (other : ∀ t self chan, op ≠ .selectAdd t self chan) : op.Stamps s next := by
  refine ⟨clock.ge, fun c alive marks => ?_, fun c _ _ => congrFun since c⟩
  rcases marks with ⟨before, after⟩ | ⟨t, self, here, _⟩
  · exact absurd (readable c alive after) before
  · exact absurd here (other t self c)

theorem stamps_of_stored (since : next.since = (s.stored t self peer buffer).since)
    (clock : next.clock = (s.stored t self peer buffer).clock)
    (ring : next.ring = (s.stored t self peer buffer).ring)
    (other : ∀ t self chan, op ≠ .selectAdd t self chan) : op.Stamps s next := by
  rw [stored_eq] at since clock
  simp only at since clock
  have readable : ∀ c, next.isReadable c ↔ s.isReadable c ∨ c = peer := by
    intro c
    rw [isReadable, ring, stored_ring]
    by_cases here : c = peer
    · simp [here]
    · simp [here]
  have marks : ∀ c, op.Marks s next c ↔ ¬ s.isReadable c ∧ c = peer := by
    intro c
    constructor
    · rintro (⟨before, after⟩ | ⟨t, self, here, _⟩)
      · exact ⟨before, ((readable c).mp after).resolve_left before⟩
      · exact absurd here (other t self c)
    · rintro ⟨before, here⟩
      exact .inl ⟨before, (readable c).mpr (.inr here)⟩
  -- Only the first message of an empty ring is a new time.
  by_cases empty : (s.ring peer).useCount = 0
  · rw [if_pos empty] at since clock
    refine ⟨clock ▸ Nat.le_succ _, fun c _ mark => ?_, fun c _ unmarked => ?_⟩
    · obtain ⟨_, rfl⟩ := (marks c).mp mark
      rw [since, clock]
      exact ⟨Function.update_self .., Nat.lt_succ_self _⟩
    · rw [since]
      refine Function.update_of_ne (fun here => unmarked ((marks c).mpr ?_)) ..
      subst here
      exact ⟨not_not.mpr empty, rfl⟩
  · rw [if_neg empty] at since clock
    refine ⟨clock.ge, fun c _ mark => ?_, fun c _ _ => congrFun since c⟩
    obtain ⟨before, rfl⟩ := (marks c).mp mark
    exact absurd empty before

theorem stamps_of_registered {chan : Addr} :
    (ChannelOp.selectAdd t self chan).Stamps s (s.registered t self chan) := by
  have marks : ∀ c, (ChannelOp.selectAdd t self chan).Marks s (s.registered t self chan) c ↔
      s.isReadable chan ∧ c = chan := by
    intro c
    constructor
    · rintro (⟨before, after⟩ | ⟨_, _, here, readable⟩)
      · exact absurd after before
      · cases here
        exact ⟨readable, rfl⟩
    · rintro ⟨readable, rfl⟩
      exact .inr ⟨t, self, rfl, readable⟩
  by_cases readable : s.isReadable chan
  · have since : (s.registered t self chan).since = Function.update s.since chan s.clock := if_pos readable
    have clock : (s.registered t self chan).clock = s.clock + 1 := if_pos readable
    refine ⟨clock ▸ Nat.le_succ _, fun c _ mark => ?_, fun c _ unmarked => ?_⟩
    · obtain ⟨_, rfl⟩ := (marks c).mp mark
      rw [since, clock]
      exact ⟨Function.update_self .., Nat.lt_succ_self _⟩
    · rw [since]
      exact Function.update_of_ne (fun here => unmarked ((marks c).mpr ⟨readable, here⟩)) ..
  · have since : (s.registered t self chan).since = s.since := if_neg readable
    have clock : (s.registered t self chan).clock = s.clock := if_neg readable
    exact ⟨clock.ge, fun c _ mark => absurd ((marks c).mp mark).1 readable, fun c _ _ => congrFun since c⟩

theorem Arrives.ne_selectAdd (arrives : s.Arrives op t call mid) (u self chan : Addr) :
    op ≠ .selectAdd u self chan := by
  cases arrives <;> simp

theorem Arrives.stamps (arrives : s.Arrives op t call mid) (since : next.since = mid.since)
    (clock : next.clock = mid.clock) (readable : ∀ c, next.isReadable c → mid.isReadable c) : op.Stamps s next :=
  stamps_of_quiet (since.trans (by rw [arrives.same])) (clock.trans (by rw [arrives.same]))
    (fun c _ after => arrives.isReadable.mp (readable c after)) arrives.ne_selectAdd

theorem Effect.stamps (effect : s.Effect op next reply) (inv : s.Inv) (ready : op.Ready s) :
    op.Stamps s next := by
  cases effect with
  | new _ _ =>
    refine stamps_of_quiet rfl rfl (fun c alive readable => ?_) (by simp)
    have other := new_apart ready (inv.topology.allocated c alive)
    simpa [paired, initChannel, other] using readable
  | @read _ t self count mid _ _ arrives ends =>
    cases ends with
    | @data message readable _ =>
      refine arrives.stamps rfl rfl fun c after => ?_
      by_cases here : c = self
      · exact here ▸ readable
      · have after : (mid.taken self count message).isReadable c := after
        rwa [ChannelSystem.isReadable, taken_ring, Function.update_of_ne here] at after
    | closed _ _ | blocked _ _ => exact arrives.stamps rfl rfl fun _ => id
  | @write _ t self peer buffer mid _ _ arrives ends =>
    cases ends with
    | stored _ ends =>
      have since : mid.since = s.since := by rw [arrives.same]
      have clock : mid.clock = s.clock := by rw [arrives.same]
      have same : next.since = (mid.stored t self peer buffer).since ∧
          next.clock = (mid.stored t self peer buffer).clock := by
        cases ends <;> exact ⟨rfl, rfl⟩
      refine @stamps_of_stored s next op t self peer buffer (same.1.trans ?_) (same.2.trans ?_)
        (ends.ring_eq.trans ?_) arrives.ne_selectAdd
      · rw [stored_eq, stored_eq, arrives.ring_eq, since, clock]
      · rw [stored_eq, stored_eq, arrives.ring_eq, clock]
      · show (mid.stored t self peer buffer).ring = _
        rw [stored_ring, stored_ring, arrives.ring_eq]
    | closed _ _ | blocked _ _ => exact arrives.stamps rfl rfl fun _ => id
  | sync arrives ends => cases ends <;> exact arrives.stamps rfl rfl fun _ => id
  | selectAdd => exact stamps_of_registered
  | select _ ends | selectResume _ ends => cases ends <;> exact stamps_of_quiet rfl rfl (fun _ _ => id) (by simp)
  | _ => exact stamps_of_quiet rfl rfl (fun _ _ => id) (by simp)

/-! ## Selections -/

def Sleeps (s : ChannelSystem) : Prop :=
  ∀ t self list timeout milliseconds, s.calls t = .select self list timeout milliseconds → milliseconds ≠ 0

theorem SelectEnds.sleeps {list : Readiness} {timeout : Int} {milliseconds : Nat}
    (ends : s.SelectEnds t self list timeout milliseconds next reply) {owner : Addr} {list' : Readiness}
    {timeout' : Int} {milliseconds' : Nat} (inside : next.calls t = .select owner list' timeout' milliseconds') :
    milliseconds' ≠ 0 := by
  cases ends with
  | done _ =>
    have idle : (s.leave t).calls t = .idle := enter_calls_self
    rw [idle] at inside
    cases inside
  | blocked _ more =>
    have entered : (s.enter t (.select self list timeout milliseconds)).calls t =
      .select self list timeout milliseconds := enter_calls_self
    cases entered.symm.trans inside
    exact more

theorem Sleeps.step (sleeps : s.Sleeps) (effect : s.Effect op next reply) : next.Sleeps := by
  intro t self list timeout milliseconds inside
  have left : ∀ state : ChannelSystem, (state.leave t).calls t ≠ .select self list timeout milliseconds := by
    intro state
    rw [show (state.leave t).calls t = .idle from enter_calls_self]
    exact Call.noConfusion
  -- Only the task that runs changes its own call.
  by_cases here : t = op.task
  · cases effect with
    | read arrives ends =>
      rw [arrives.task_eq] at here
      subst here
      cases ends with
      | data _ _ | closed _ _ => exact absurd inside (left _)
      | blocked _ _ => cases arrives.inside.symm.trans inside
    | write arrives ends =>
      rw [arrives.task_eq] at here
      subst here
      cases ends with
      | stored _ ends =>
        rcases ends.calls with idle | same
        · cases idle.symm.trans inside
        · cases (same.trans enter_calls_self).symm.trans inside
      | closed _ _ => exact absurd inside (left _)
      | blocked _ _ => cases arrives.inside.symm.trans inside
    | sync arrives ends =>
      rw [arrives.task_eq] at here
      subst here
      rcases ends.calls with idle | same
      · cases idle.symm.trans inside
      · cases (same.trans arrives.inside).symm.trans inside
    | writeClosed _ | selectNone _ =>
      subst here
      exact absurd inside (left _)
    | select _ ends | selectResume _ ends =>
      subst here
      exact ends.sleeps inside
    | _ => exact sleeps t self list timeout milliseconds inside
  · rw [effect.calls_of_ne here] at inside
    exact sleeps t self list timeout milliseconds inside

theorem channelSystem_sleeps {trace : List ChannelOp} (run : channelSystem.Run trace s) : s.Inv ∧ s.Sleeps := by
  refine run.invariant (fun s => s.Inv ∧ s.Sleeps) ?_ ?_
  · intro s init
    refine ⟨init_inv init, fun t self list timeout milliseconds inside => ?_⟩
    rw [init.2.1 t] at inside
    cases inside
  · rintro s op next ⟨inv, sleeps⟩ ⟨ready, reply, result⟩
    obtain ⟨_, _, result', effect⟩ := inv.effect ready
    cases result.symm.trans result'
    exact ⟨inv.step ready effect, sleeps.step effect⟩

theorem Inv.first_readable (inv : s.Inv) (nonnull : s.selectFirst self .read ≠ 0) :
    s.select (s.selectFirst self .read) = self ∧ s.isReadable (s.selectFirst self .read) := by
  obtain ⟨order, exact'⟩ := inv.readExact
  exact ((exact'.members self _).mp ((exact'.list self).head_mem nonnull)).2

theorem Inv.no_members (inv : s.Inv) (owner : self ≠ 0) (empty : (s.chanLists.list self).head = 0) (c : Addr) :
    s.select c ≠ self := by
  obtain ⟨order, _, _, lists⟩ := inv.lists
  intro member
  have none := ((lists.chan.holds.each self).head_eq_zero).mp empty
  have mem := (lists.chan.mem self c).mpr ⟨owner, member, rfl⟩
  rw [none] at mem
  exact List.not_mem_nil mem

theorem SelectEnds.chan {list : Readiness} {timeout : Int} {milliseconds : Nat}
    (ends : s.SelectEnds t self list timeout milliseconds next (.chan c)) :
    c = s.selectFirst self list ∧ next.ring = s.ring ∧ (c = 0 → milliseconds = 0) := by
  cases ends with
  | done stops => exact ⟨rfl, rfl, fun none => by_contra fun more => stops ⟨none, more⟩⟩

theorem Effect.selected (effect : s.Effect op next (.chan c)) (inv : s.Inv) (selects : op.SelectsRead s self)
    (nonnull : c ≠ 0) : s.select c = self ∧ next.isReadable c := by
  have found : ∀ {owner : Addr} {list : Readiness} {timeout : Int} {milliseconds : Nat},
      owner = self → list = .read → s.SelectEnds op.task owner list timeout milliseconds next (.chan c) →
      s.select c = self ∧ next.isReadable c := by
    rintro owner list timeout milliseconds rfl rfl ends
    obtain ⟨rfl, ring, _⟩ := ends.chan
    rw [ChannelSystem.isReadable, ring]
    exact inv.first_readable nonnull
  cases effect with
  | read arrives ends => cases ends
  | write arrives ends =>
    cases ends with
    | stored _ ends => cases ends
  | sync arrives ends => cases ends
  | selectNone _ => exact absurd rfl nonnull
  | select _ ends => exact found selects.1 selects.2 ends
  | selectResume call ends =>
    obtain ⟨timeout, milliseconds, inside⟩ := selects
    cases call.symm.trans inside
    exact found rfl rfl ends
  | _ => exact False.elim selects

theorem Inv.selection (inv : s.Inv) (sleeps : s.Sleeps) (ready : op.Ready s) (effect : s.Effect op next reply) :
    Selection s op next reply where
  stamps := effect.stamps inv ready
  stays c alive readable quiet := by
    have there := inv.topology.allocated c alive
    cases effect.ringChange ready with
    | same ring => rwa [isReadable, ring]
    | new ring => rwa [isReadable, ring c there]
    | @taken _ t self count message _ runs _ ring =>
      have other : c ≠ self := by
        rintro rfl
        exact quiet t count runs
      rwa [isReadable, ring, taken_ring, Function.update_of_ne other]
    | @stored _ t self peer buffer _ _ _ _ ring =>
      rw [isReadable, ring, stored_ring]
      by_cases here : c = peer
      · simp [here]
      · rwa [Function.update_of_ne here]
  reads t c count runs readable := by
    obtain ⟨mid, arrives, ends⟩ := effect.of_read runs
    cases ends with
    | data _ _ => exact ⟨_, rfl⟩
    | closed empty _ | blocked empty _ => exact absurd (arrives.isReadable.mpr readable) empty
  found self c selects result nonnull := by
    subst result
    exact effect.selected inv selects nonnull
  none t self timeout here result lower upper := by
    subst here result
    cases effect with
    | selectNone none => exact .inl (inv.no_members ready.2.1 none)
    | select _ ends =>
      have zero := ends.chan.2.2 rfl
      refine .inr ?_
      omega
    | read arrives _ => cases arrives
    | write arrives _ => cases arrives
    | sync arrives _ => cases arrives
  timeout t left self timeout milliseconds here inside result := by
    subst here result
    cases effect with
    | selectResume call ends =>
      cases call.symm.trans inside
      have zero := ends.chan.2.2 rfl
      -- A selection that sleeps has time left, so one that returns nothing has a time limit.
      have more := sleeps t self .read timeout milliseconds inside
      split at zero
      · exact absurd zero more
      · rename_i positive
        exact ⟨not_lt.mp positive, zero⟩
    | read arrives ends => cases ends
    | write arrives ends =>
      cases ends with
      | stored _ ends => cases ends
    | sync arrives ends => cases ends

end ChannelSystem

/-- In every run in which no read takes one of the last two messages that fit from the
other endpoint of a buffered member: the lists for writing are well formed, and a member
with an open buffered channel is in the list of its selector, once, if and only if it is
select-writable. -/
theorem select_write_exact {trace : List ChannelOp} {s : ChannelSystem}
    (run : (channelSystem.restrict KeepsWritable).Run trace s) :
    ∃ order : Addr → List Addr,
      (∀ self, (s.writeLists.family.list self).Holds s.writeLists.family.nodes (order self)) ∧
      ∀ self c, self ≠ 0 → s.select c = self → s.peer c ≠ 0 → 2 ≤ (s.ring (s.peer c)).maxCount →
        (c ∈ order self ↔ s.isSelectWritable (s.peer c)) := by
  obtain ⟨inv, exact'⟩ := channelSystem_writeExact run
  obtain ⟨_, _, order, lists⟩ := inv.lists
  refine ⟨order, lists.write.holds.each, fun self c owner member active many => ?_⟩
  rw [lists.write.mem, ← exact' c (member.trans_ne owner) active many]
  exact ⟨fun h => h.2.2, fun flag => ⟨owner, member, flag⟩⟩

theorem select_write_exact_pair : ∃ s : ChannelSystem, s.select 8 = 32 ∧ s.peer 8 = 16 ∧
    ∃ order : Addr → List Addr, (s.writeLists.family.list 32).Holds s.writeLists.family.nodes (order 32) ∧
      (8 ∈ order 32 ↔ s.isSelectWritable 16) := by
  have run : (channelSystem.restrict KeepsWritable).Run [] .empty := .init empty_init
  have run := run_step run (.start 1) (fun _ _ _ runs => runs.elim) ⟨by decide, .inl rfl⟩ rfl
  have run := run_step run (.new 8 16 4 2) (fun _ _ _ runs => runs.elim)
    ⟨rfl, rfl, by decide, by decide, by decide⟩ rfl
  have run := run_step run (.selectNew 32) (fun _ _ _ runs => runs.elim) rfl rfl
  have run := run_step run (.selectAdd 1 32 8) (fun _ _ _ runs => runs.elim)
    ⟨⟨rfl, rfl⟩, by decide, rfl, rfl, rfl⟩ rfl
  have run := run_step run (.write 1 8 [7]) (fun _ _ _ runs => nomatch runs.2) ⟨⟨rfl, rfl⟩, rfl⟩ rfl
  obtain ⟨order, holds, mem⟩ := select_write_exact run
  exact ⟨_, rfl, rfl, order, holds 32, mem 32 8 (by decide) rfl (by decide) (by decide)⟩

/-- With one buffer a write takes the member out of the list, and a read of its message
does not put it back: the ring is empty again, the member is select-writable, but the
list for writing is empty. -/
theorem select_write_list_misses_writable : ∃ trace s, channelSystem.Run trace s ∧ s.select 8 = 32 ∧
    s.peer 8 = 16 ∧ s.alive 16 = true ∧ (s.ring 16).maxCount = 2 ∧ s.isSelectWritable 16 ∧
      s.writeLists.family.list 32 = ⟨0, 0⟩ ∧ s.writeLists.used 8 = false := by
  have run : (channelSystem.restrict fun _ _ => True).Run [] .empty := .init empty_init
  have run := run_step run (.start 1) trivial ⟨by decide, .inl rfl⟩ rfl
  have run := run_step run (.new 8 16 4 1) trivial ⟨rfl, rfl, by decide, by decide, by decide⟩ rfl
  have run := run_step run (.selectNew 32) trivial rfl rfl
  have run := run_step run (.selectAdd 1 32 8) trivial ⟨⟨rfl, rfl⟩, by decide, rfl, rfl, rfl⟩ rfl
  have run := run_step run (.write 1 8 [7]) trivial ⟨⟨rfl, rfl⟩, rfl⟩ rfl
  have run := run_step run (.start 2) trivial ⟨by decide, .inl rfl⟩ rfl
  have run := run_step run (.read 2 16 4) trivial ⟨⟨rfl, rfl⟩, rfl⟩ rfl
  exact ⟨_, _, run.of_restrict, rfl, rfl, rfl, rfl, by decide, rfl, rfl⟩

/-- In every run the lists for reading are well formed and hold exactly the readable
members, in the order in which they became readable; and a selection of a channel to
read returns NULL only on a timeout or without members, else a channel that the next
read of does not wait for. -/
theorem select_read_exact {trace : List ChannelOp} {s : ChannelSystem} (run : channelSystem.Run trace s) :
    (∃ order, ReadExact s order) ∧ ∀ op : ChannelOp, op.Ready s →
      ∃ next reply, op.apply s = some (next, reply) ∧ Selection s op next reply := by
  obtain ⟨inv, sleeps⟩ := channelSystem_sleeps run
  refine ⟨inv.readExact, fun op ready => ?_⟩
  obtain ⟨next, reply, result, effect⟩ := inv.effect ready
  exact ⟨next, reply, result, inv.selection sleeps ready effect⟩

theorem select_read_exact_one : ∃ s next, (∃ order, ReadExact s order) ∧
    (ChannelOp.select 1 32 .read (-1)).apply s = some (next, .chan 8) ∧
      Selection s (.select 1 32 .read (-1)) next (.chan 8) := by
  have run : (channelSystem.restrict fun _ _ => True).Run [] .empty := .init empty_init
  have run := run_step run (.start 1) trivial ⟨by decide, .inl rfl⟩ rfl
  have run := run_step run (.start 2) trivial ⟨by decide, .inl rfl⟩ rfl
  have run := run_step run (.new 8 16 4 1) trivial ⟨rfl, rfl, by decide, by decide, by decide⟩ rfl
  have run := run_step run (.selectNew 32) trivial rfl rfl
  have run := run_step run (.selectAdd 1 32 8) trivial ⟨⟨rfl, rfl⟩, by decide, rfl, rfl, rfl⟩ rfl
  have run := run_step run (.write 2 16 [5]) trivial ⟨⟨rfl, rfl⟩, rfl⟩ rfl
  obtain ⟨exact', selections⟩ := select_read_exact run.of_restrict
  obtain ⟨next, reply, result, selection⟩ := selections (.select 1 32 .read (-1)) ⟨⟨rfl, rfl⟩, by decide, rfl⟩
  cases result
  exact ⟨_, _, exact', rfl, selection⟩

end HevTaskSystem
