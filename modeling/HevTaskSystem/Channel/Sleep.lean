import HevTaskSystem.Channel.Readiness
import HevTaskSystem.Channel.Wakeup

/-! Whether a task sleeps in a selection while a member of its selector can be read.

The wakeup goes through the `task` field of the member. Registering sets the field, and a
read or a write of the member that waits clears it. So a task that waits in a read of a
member once can sleep through all later messages; as long as no such operation waits the
field is kept and no message is slept through.
-/

set_option autoImplicit false

namespace HevTaskSystem

open Foundation ChannelSystem

/-- The owner registers channels that no task uses, and no other task reads or writes the
members of its selector. -/
def Owned (owner sel : Addr) (s : ChannelSystem) : ChannelOp → Prop
  | .selectAdd t self chan => self = sel → t = owner ∧ ∀ u, (s.calls u).self ≠ chan
  | .read t self _ | .write t self _ => s.select self = sel → t = owner
  | _ => True

/-- A read of a member finds a message or a closed channel; a write of a member finds a
closed channel or room for two messages. -/
def NeverWaits (sel : Addr) (s : ChannelSystem) : ChannelOp → Prop
  | .read _ self _ => s.select self = sel → s.isReadable self ∨ s.peer self = 0
  | .write _ self _ => s.select self = sel → s.peer self ≠ 0 →
      (s.ring (s.peer self)).useCount + 1 < (s.ring (s.peer self)).maxCount
  | _ => True

namespace ChannelSystem

variable {s next : ChannelSystem} {op : ChannelOp} {reply : Reply} {t self c owner sel : Addr} {count : Nat}
  {buffer : List UInt8}

theorem Effect.returns_read (effect : s.Effect (.read t self count) next reply)
    (finds : s.isReadable self ∨ s.peer self = 0) : next.calls t = .idle ∧ next.task = s.task := by
  cases effect with
  | read arrives ends =>
    cases arrives
    cases ends with
    | data _ _ | closed _ _ => exact ⟨enter_calls_self, rfl⟩
    | blocked empty active => exact (finds.elim empty active).elim
  | write arrives _ => cases arrives
  | sync arrives _ => cases arrives

theorem Effect.returns_write (effect : s.Effect (.write t self buffer) next reply)
    (finds : s.peer self ≠ 0 → (s.ring (s.peer self)).useCount + 1 < (s.ring (s.peer self)).maxCount) :
    next.calls t = .idle ∧ next.task = s.task := by
  cases effect with
  | writeClosed _ => exact ⟨enter_calls_self, rfl⟩
  | @write _ t' self' peer buffer' mid _ _ arrives ends =>
    obtain ⟨rfl, rfl, room, task⟩ : t = t' ∧ self = self' ∧
        (mid.ring peer).useCount + 1 < (mid.ring peer).maxCount ∧ mid.task = s.task := by
      cases arrives with
      | write active => exact ⟨rfl, rfl, finds active, rfl⟩
    cases ends with
    | stored _ ends =>
      have after := @stored_ring_self mid t self peer buffer'
      -- Room for two: the second wait of the write finds room as well.
      have writable : ChannelSystem.isWritable ((mid.stored t self peer buffer').enter t
          (mid.syncCall self peer buffer')) peer := by
        show ((mid.stored t self peer buffer').ring peer).useCount <
          ((mid.stored t self peer buffer').ring peer).maxCount
        rw [after]
        exact room
      cases ends with
      | done _ => exact ⟨enter_calls_self, task⟩
      | closed full _ | blocked full _ => exact absurd writable full
    | closed full _ | blocked full _ => exact absurd (Nat.lt_of_succ_lt room) full
  | read arrives _ => cases arrives
  | sync arrives _ => cases arrives

/-! ## The fields of the members -/

/-- The owner can be found through every member, no task is inside an operation of one,
and while the owner waits in a selection to read no member is readable. -/
structure Listens (owner sel : Addr) (s : ChannelSystem) : Prop where
  field : ∀ c, s.select c = sel → s.task c = owner
  free : ∀ t c, s.select c = sel → (s.calls t).self ≠ c
  empty : ∀ timeout milliseconds, s.pool owner = some .waiting →
    s.calls owner = .select sel .read timeout milliseconds → ∀ c, s.select c = sel → ¬ s.isReadable c

theorem Effect.select_of (effect : s.Effect op next reply) (nonnull : sel ≠ 0) (member : next.select c = sel) :
    s.select c = sel ∨ ∃ t, op = .selectAdd t sel c := by
  cases effect with
  | @new c1 c2 size buffers _ _ =>
    by_cases mine : c = c1 ∨ c = c2
    · exfalso
      refine nonnull (member.symm.trans ?_)
      rcases mine with rfl | rfl <;> simp [paired, initChannel, Function.update_apply]
    · simp only [not_or] at mine
      exact .inl (by simpa [paired, initChannel, mine.1, mine.2] using member)
  | read arrives ends =>
    rw [← arrives.select_eq]
    cases ends <;> exact .inl member
  | write arrives ends =>
    rw [← arrives.select_eq]
    cases ends with
    | stored _ ends => cases ends <;> exact .inl member
    | closed _ _ | blocked _ _ => exact .inl member
  | sync arrives ends =>
    rw [← arrives.select_eq]
    cases ends <;> exact .inl member
  | @selectAdd t self chan =>
    by_cases here : c = chan
    · subst here
      obtain rfl : self = sel := (Function.update_self ..).symm.trans member
      exact .inr ⟨t, rfl⟩
    · exact .inl ((Function.update_of_ne here ..).symm.trans member)
  | @selectDel t self chan =>
    by_cases here : c = chan
    · subst here
      exact absurd ((Function.update_self ..).symm.trans member).symm nonnull
    · exact .inl ((Function.update_of_ne here ..).symm.trans member)
  | select _ ends | selectResume _ ends => cases ends <;> exact .inl member
  | _ => exact .inl member

theorem Effect.member_kept (effect : s.Effect op next reply) (ready : op.Ready s) (waits : NeverWaits sel s op)
    (nonnull : sel ≠ 0) (used : c ≠ 0) (before : s.select c = sel) (after : next.select c = sel)
    (uses : op.uses = c) : next.calls op.task = .idle ∧ next.task = s.task := by
  subst uses
  cases op with
  | read t self count => exact effect.returns_read (waits before)
  | write t self buffer => exact effect.returns_write (waits before)
  | selectAdd t self chan => exact absurd (before.symm.trans ready.2.2.2.2) nonnull
  | selectDel t self chan =>
    cases effect with
    | selectDel => exact absurd ((Function.update_self ..).symm.trans after).symm nonnull
    | read arrives _ => cases arrives
    | write arrives _ => cases arrives
    | sync arrives _ => cases arrives
  | _ => exact absurd rfl used

theorem Effect.sleeps_empty (effect : s.Effect op next .blocked) (inv : s.Inv) (ready : op.Ready s)
    {timeout : Int} {milliseconds : Nat} (inside : next.calls op.task = .select sel .read timeout milliseconds)
    (nonnull : sel ≠ 0) (member : next.select c = sel) : ¬ next.isReadable c := by
  -- Both a new and a resumed selection go to sleep only if the list is empty.
  have ends : ∀ {self : Addr} {list : Readiness} {timeout' : Int} {milliseconds' : Nat},
      s.SelectEnds op.task self list timeout' milliseconds' next .blocked → ¬ next.isReadable c := by
    intro self list timeout' milliseconds' ends
    cases ends with
    | blocked none _ =>
      have entered : (s.enter op.task (.select self list timeout' milliseconds')).calls op.task =
        .select self list timeout' milliseconds' := enter_calls_self
      cases entered.symm.trans inside
      obtain ⟨order, exact'⟩ := inv.readExact
      have empty := ((exact'.list sel).head_eq_zero).mp none
      intro readable
      have mem := (exact'.members sel c).mpr ⟨nonnull, member, readable⟩
      rw [empty] at mem
      exact List.not_mem_nil mem
  cases effect with
  | wait => cases (ready.2 : s.calls _ = .idle).symm.trans inside
  | read arrives end' =>
    obtain rfl := arrives.task_eq
    cases end' with
    | blocked _ _ => cases arrives.inside.symm.trans inside
  | write arrives end' =>
    obtain rfl := arrives.task_eq
    cases end' with
    | stored _ end' => cases (end'.waits.trans enter_calls_self).symm.trans inside
    | blocked _ _ => cases arrives.inside.symm.trans inside
  | sync arrives end' =>
    obtain rfl := arrives.task_eq
    cases (end'.waits.trans arrives.inside).symm.trans inside
  | select _ end' | selectResume _ end' => exact ends end'

theorem Listens.stays_empty (listens : Listens owner sel s) (effect : s.Effect op next reply) (inv : s.Inv)
    (ready : op.Ready s) (before : s.pool owner = some .waiting) (after : next.pool owner = some .waiting)
    (member : s.select c = sel) (nonnull : sel ≠ 0) (empty : ¬ s.isReadable c) : ¬ next.isReadable c := by
  have other := effect.ne_of_waiting inv ready before after
  have alive := (inv.member nonnull member).1
  have there := inv.topology.allocated c alive
  intro readable
  cases effect.ringChange ready with
  | same ring =>
    rw [isReadable, ring] at readable
    exact empty readable
  | new ring =>
    rw [isReadable, ring c there] at readable
    exact empty readable
  | @taken _ _ self _ _ _ _ taken ring =>
    have apart : c ≠ self := by
      rintro rfl
      exact empty taken
    rw [isReadable, ring, taken_ring, Function.update_of_ne apart] at readable
    exact empty readable
  | @stored _ t self peer buffer _ _ runs writable ring =>
    by_cases here : c = peer
    · subst here
      have found := listens.field c member
      have used : s.task c ≠ 0 := by
        rw [found]
        rintro rfl
        rw [inv.tasks.null] at before
        cases before
      have apart : s.task c ≠ t := by
        rw [found, ← runs.task_eq]
        exact other
      -- The message is the first one in the ring, so the task field of the channel is woken.
      have woken := effect.wakes_reader inv ready runs (inv.topology.ne_zero there) writable (not_not.mp empty)
        used apart
      rw [found, after] at woken
      cases woken
    · rw [isReadable, ring, stored_ring, Function.update_of_ne here] at readable
      exact empty readable

theorem Listens.step (listens : Listens owner sel s) (inv : s.Inv) (nonnull : sel ≠ 0)
    (owned : Owned owner sel s op) (waits : NeverWaits sel s op) (ready : op.Ready s)
    (effect : s.Effect op next reply) : Listens owner sel next := by
  -- A new member is registered by the owner while no task is inside an operation of it.
  have fresh : ∀ {t c}, op = .selectAdd t sel c → owner = op.task ∧ next.task c = owner ∧ next.calls = s.calls ∧
      ∀ u, (s.calls u).self ≠ c := by
    rintro t c rfl
    obtain ⟨rfl, free⟩ := owned rfl
    cases effect with
    | selectAdd => exact ⟨rfl, Function.update_self .., rfl, free⟩
    | read arrives _ => cases arrives
    | write arrives _ => cases arrives
    | sync arrives _ => cases arrives
  constructor
  · intro c member
    rcases effect.select_of nonnull member with before | ⟨t, here⟩
    · have alive := (inv.member nonnull before).1
      have used := inv.topology.ne_zero (inv.topology.allocated c alive)
      rw [← listens.field c before]
      rcases effect.task_eq ready inv alive with same | uses | inside
      · exact same
      · rw [(effect.member_kept ready waits nonnull used before member uses).2]
      · exact absurd inside (listens.free op.task c before)
    · exact (fresh here).2.1
  · intro u c member inside
    rcases effect.select_of nonnull member with before | ⟨t, here⟩
    · have alive := (inv.member nonnull before).1
      have used := inv.topology.ne_zero (inv.topology.allocated c alive)
      rcases effect.self_of ready used inside with old | ⟨rfl, uses⟩
      · exact listens.free u c before old
      · rw [(effect.member_kept ready waits nonnull used before member uses).1] at inside
        exact used inside.symm
    · obtain ⟨_, _, calls, free⟩ := fresh here
      rw [calls] at inside
      exact free u inside
  · intro timeout milliseconds after inside c member
    rcases effect.waiting after with before | ⟨rfl, rfl⟩
    · have other := effect.ne_of_waiting inv ready before after
      rw [effect.calls_of_ne other] at inside
      rcases effect.select_of nonnull member with mine | ⟨t, here⟩
      · exact listens.stays_empty effect inv ready before after mine nonnull
          (listens.empty timeout milliseconds before inside c mine)
      · exact absurd (fresh here).1 other
    · exact effect.sleeps_empty inv ready inside nonnull member

theorem channelSystem_listens {trace : List ChannelOp} (nonnull : sel ≠ 0)
    (run : (channelSystem.restrict fun s op => Owned owner sel s op ∧ NeverWaits sel s op).Run trace s) :
    s.Inv ∧ Listens owner sel s := by
  refine run.invariant (fun s => s.Inv ∧ Listens owner sel s) ?_ ?_
  · intro s init
    have outside : ∀ c, s.select c ≠ sel := fun c member =>
      nonnull (member.symm.trans (init.2.2.2.2.1 c))
    exact ⟨init_inv init, fun c member => absurd member (outside c), fun _ c member => absurd member (outside c),
      fun _ _ _ _ c member => absurd member (outside c)⟩
  · rintro s op next ⟨inv, listens⟩ ⟨⟨owned, waits⟩, ready, reply, result⟩
    obtain ⟨_, _, result', effect⟩ := inv.effect ready
    cases result.symm.trans result'
    exact ⟨inv.step ready effect, listens.step inv nonnull owned waits ready effect⟩

end ChannelSystem

/-- In every run in which the owner alone uses the members of its selector and none of
its reads and writes of members waits: while the owner waits in a selection to read, of
whatever timeout, the list for reading is empty. -/
theorem select_never_oversleeps (owner sel : Addr) {trace : List ChannelOp} {s : ChannelSystem}
    (run : (channelSystem.restrict fun s op => Owned owner sel s op ∧ NeverWaits sel s op).Run trace s)
    (waiting : s.pool owner = some .waiting) (timeout : Int) (milliseconds : Nat)
    (inside : s.calls owner = .select sel .read timeout milliseconds) :
    s.readLists.family.list sel = ⟨0, 0⟩ := by
  have proper := (channelSystem_inv run.of_restrict).topology.proper owner
  rw [inside] at proper
  obtain ⟨inv, listens⟩ := channelSystem_listens proper run
  obtain ⟨order, exact'⟩ := inv.readExact
  have none : order sel = [] := by
    rw [List.eq_nil_iff_forall_not_mem]
    intro c mem
    obtain ⟨_, member, readable⟩ := (exact'.members sel c).mp mem
    exact listens.empty timeout milliseconds waiting inside c member readable
  have holds := exact'.list sel
  rw [none] at holds
  exact holds.eq_nil

theorem select_never_oversleeps_one : ∃ s : ChannelSystem, s.pool 1 = some .waiting ∧ s.select 8 = 32 ∧
    (∃ milliseconds, s.calls 1 = .select 32 .read (-1) milliseconds) ∧ s.readLists.family.list 32 = ⟨0, 0⟩ := by
  have run : (channelSystem.restrict fun s op => Owned 1 32 s op ∧ NeverWaits 32 s op).Run [] .empty :=
    .init empty_init
  have run := run_step run (.start 1) ⟨trivial, trivial⟩ ⟨by decide, .inl rfl⟩ rfl
  have run := run_step run (.new 8 16 4 1) ⟨trivial, trivial⟩ ⟨rfl, rfl, by decide, by decide, by decide⟩ rfl
  have run := run_step run (.selectNew 32) ⟨trivial, trivial⟩ rfl rfl
  have run := run_step run (.selectAdd 1 32 8) ⟨fun _ => ⟨rfl, fun _ => show 0 ≠ 8 by decide⟩, trivial⟩
    ⟨⟨rfl, rfl⟩, by decide, rfl, rfl, rfl⟩ rfl
  have run := run_step run (.select 1 32 .read (-1)) ⟨trivial, trivial⟩ ⟨⟨rfl, rfl⟩, by decide, rfl⟩ rfl
  exact ⟨_, rfl, rfl, ⟨_, rfl⟩, select_never_oversleeps 1 32 run rfl (-1) _ rfl⟩

/-- A read of the member that waits clears its `task` field. The owner then waits in a
selection to read without a timeout, and the next message, in the list for reading, does
not wake it. -/
theorem select_sleeps_after_waiting_read : ∃ trace s, (channelSystem.restrict (Owned 1 32)).Run trace s ∧
    s.pool 1 = some .waiting ∧ (∃ milliseconds, s.calls 1 = .select 32 .read (-1) milliseconds) ∧
      (s.readLists.family.list 32).head = 8 ∧ s.task 8 = 0 := by
  have run : (channelSystem.restrict (Owned 1 32)).Run [] .empty := .init empty_init
  have run := run_step run (.start 1) trivial ⟨by decide, .inl rfl⟩ rfl
  have run := run_step run (.start 2) trivial ⟨by decide, .inl rfl⟩ rfl
  have run := run_step run (.new 8 16 4 1) trivial ⟨rfl, rfl, by decide, by decide, by decide⟩ rfl
  have run := run_step run (.selectNew 32) trivial rfl rfl
  have run := run_step run (.selectAdd 1 32 8) (fun _ => ⟨rfl, fun _ => show 0 ≠ 8 by decide⟩)
    ⟨⟨rfl, rfl⟩, by decide, rfl, rfl, rfl⟩ rfl
  have run := run_step run (.read 1 8 4) (fun _ => rfl) ⟨⟨rfl, rfl⟩, rfl⟩ rfl
  have run := run_step run (.write 2 16 [5]) (fun member => absurd member (show 0 ≠ 32 by decide))
    ⟨⟨rfl, rfl⟩, rfl⟩ rfl
  have run := run_step run (.resume 1 0) trivial ⟨rfl, by decide⟩ rfl
  have run := run_step run (.select 1 32 .read (-1)) trivial ⟨⟨rfl, rfl⟩, by decide, rfl⟩ rfl
  have run := run_step run (.write 2 16 [6]) (fun member => absurd member (show 0 ≠ 32 by decide))
    ⟨⟨rfl, rfl⟩, rfl⟩ rfl
  exact ⟨_, _, run, rfl, ⟨_, rfl⟩, rfl, rfl⟩

end HevTaskSystem
