import HevTaskSystem.Channel.Run

/-! What a step leaves alone, and what the task that runs in it does. -/

set_option autoImplicit false

namespace HevTaskSystem

open Foundation ChannelSystem

/-- The task goes on with the call: it starts the operation or is resumed inside it. -/
def ChannelOp.Runs (op : ChannelOp) (s : ChannelSystem) (t : Addr) (call : Call) : Prop :=
  match op with
  | .read u self count => u = t ∧ call = .read self count
  | .write u self buffer => u = t ∧ call = .writeFull self (s.peer self) buffer
  | .resume u _ => u = t ∧ call = s.calls t
  | _ => False

def ChannelOp.uses : ChannelOp → Addr
  | .read _ self _ | .write _ self _ => self
  | .selectAdd _ _ chan | .selectDel _ _ chan => chan
  | _ => 0

def ChannelOp.task : ChannelOp → Addr
  | .start t | .exit t | .wait t | .wake t | .resume t _ | .read t _ _ | .write t _ _ => t
  | .selectAdd t _ _ | .selectDel t _ _ | .select t _ _ _ => t
  | .new .. | .destroy _ | .selectNew _ | .selectDestroy _ => 0

theorem ChannelOp.Runs.task_eq {op : ChannelOp} {s : ChannelSystem} {t : Addr} {call : Call}
    (runs : op.Runs s t call) : op.task = t := by
  cases op with
  | read _ _ _ => exact runs.1
  | write _ _ _ => exact runs.1
  | resume _ _ => exact runs.1
  | _ => exact False.elim runs

namespace ChannelSystem

variable {s next mid : ChannelSystem} {op : ChannelOp} {reply : Reply} {t u self peer c : Addr} {call call' : Call}
  {count : Nat} {buffer : List UInt8}

/-! ## The step that a call runs in -/

theorem Arrives.runs (arrives : s.Arrives op t call mid) : op.Runs s t call := by
  cases arrives with
  | read | write _ | resume _ => exact ⟨rfl, rfl⟩

theorem Arrives.runs_eq (arrives : s.Arrives op t call mid) (runs : op.Runs s u call') :
    u = t ∧ call' = call := by
  cases arrives with
  | read | write _ => exact ⟨runs.1.symm, runs.2⟩
  | resume _ =>
    obtain ⟨rfl, same⟩ := runs
    exact ⟨rfl, same⟩

theorem Effect.of_read (effect : s.Effect op next reply) (runs : op.Runs s t (.read self count)) :
    ∃ mid, s.Arrives op t (.read self count) mid ∧ mid.ReadEnds t self count next reply := by
  cases effect with
  | read arrives ends =>
    obtain ⟨rfl, same⟩ := arrives.runs_eq runs
    cases same
    exact ⟨_, arrives, ends⟩
  | write arrives _ | sync arrives _ => cases (arrives.runs_eq runs).2
  | writeClosed _ => cases runs.2
  | selectResume inside _ =>
    obtain ⟨rfl, same⟩ := runs
    rw [inside] at same
    cases same
  | _ => exact False.elim runs

theorem Effect.of_write (effect : s.Effect op next reply) (runs : op.Runs s t (.writeFull self peer buffer))
    (nonnull : peer ≠ 0) :
    ∃ mid, s.Arrives op t (.writeFull self peer buffer) mid ∧ mid.WriteEnds t self peer buffer next reply := by
  cases effect with
  | write arrives ends =>
    obtain ⟨rfl, same⟩ := arrives.runs_eq runs
    cases same
    exact ⟨_, arrives, ends⟩
  | read arrives _ | sync arrives _ => cases (arrives.runs_eq runs).2
  | writeClosed closed =>
    cases runs.2
    exact absurd closed nonnull
  | selectResume inside _ =>
    obtain ⟨rfl, same⟩ := runs
    rw [inside] at same
    cases same
  | _ => exact False.elim runs

theorem Effect.of_sync (effect : s.Effect op next reply) {size index : Nat}
    (runs : op.Runs s t (.writeSync self peer buffer size index)) :
    ∃ mid, s.Arrives op t (.writeSync self peer buffer size index) mid ∧
      mid.SyncEnds t self peer size next reply := by
  cases effect with
  | sync arrives ends =>
    obtain ⟨rfl, same⟩ := arrives.runs_eq runs
    cases same
    exact ⟨_, arrives, ends⟩
  | read arrives _ | write arrives _ => cases (arrives.runs_eq runs).2
  | writeClosed _ => cases runs.2
  | selectResume inside _ =>
    obtain ⟨rfl, same⟩ := runs
    rw [inside] at same
    cases same
  | _ => exact False.elim runs

theorem Arrives.ring_eq (arrives : s.Arrives op t call mid) : mid.ring = s.ring := by rw [arrives.same]

theorem Arrives.peer_eq (arrives : s.Arrives op t call mid) : mid.peer = s.peer := by rw [arrives.same]

theorem Arrives.alive_eq (arrives : s.Arrives op t call mid) : mid.alive = s.alive := by rw [arrives.same]

theorem Arrives.select_eq (arrives : s.Arrives op t call mid) : mid.select = s.select := by rw [arrives.same]

theorem Arrives.isReadable (arrives : s.Arrives op t call mid) : mid.isReadable c ↔ s.isReadable c := by
  rw [ChannelSystem.isReadable, arrives.ring_eq]

theorem Arrives.isWritable (arrives : s.Arrives op t call mid) : mid.isWritable c ↔ s.isWritable c := by
  rw [ChannelSystem.isWritable, arrives.ring_eq]

theorem Inv.reader (inv : s.Inv) (ready : op.Ready s) (arrives : s.Arrives op t (.read c count) mid) :
    s.alive c = true := by
  have mid' := (arrives.inv inv ready).1.topology
  have user := mid'.users t
  have proper := mid'.proper t
  rw [arrives.inside] at user proper
  rw [← arrives.alive_eq]
  exact user proper

theorem Arrives.target (arrives : s.Arrives op t (.writeFull self peer buffer) mid) (inv : s.Inv)
    (ready : op.Ready s) : peer ≠ 0 ∧ mid.Target self peer := by
  have topology := (arrives.inv inv ready).1.topology
  have proper := topology.proper t
  rw [arrives.inside] at proper
  exact ⟨proper.2, topology.writes (congrArg Call.self arrives.inside) (congrArg Call.peer arrives.inside) proper.2⟩

/-! ## Changes of the rings -/

theorem SyncEnds.ring_eq {size : Nat} (ends : s.SyncEnds t self peer size next reply) : next.ring = s.ring := by
  cases ends <;> rfl

theorem SyncEnds.peer_eq {size : Nat} (ends : s.SyncEnds t self peer size next reply) : next.peer = s.peer := by
  cases ends <;> rfl

/-- The messages change by a read, by a write or with a new pair of endpoints. -/
inductive RingChange (s : ChannelSystem) : ChannelOp → ChannelSystem → Reply → Prop where
  | same {op : ChannelOp} {next : ChannelSystem} {reply : Reply} : next.ring = s.ring → RingChange s op next reply
  | new {c1 c2 : Addr} {size buffers : Nat} {next : ChannelSystem} {reply : Reply} :
      (∀ c, s.allocated c = true → next.ring c = s.ring c) → RingChange s (.new c1 c2 size buffers) next reply
  | taken {op : ChannelOp} {t self : Addr} {count : Nat} {message : List UInt8} {next : ChannelSystem} :
      op.Runs s t (.read self count) → s.isReadable self → next.ring = (s.taken self count message).ring →
      RingChange s op next (.data (message.take count))
  | stored {op : ChannelOp} {t self peer : Addr} {buffer : List UInt8} {next : ChannelSystem} {reply : Reply} :
      op.Runs s t (.writeFull self peer buffer) → s.isWritable peer →
      next.ring = (s.stored t self peer buffer).ring →
      RingChange s op next reply

theorem new_apart {c1 c2 size buffers : Nat} (ready : (ChannelOp.new c1 c2 size buffers).Ready s)
    (there : s.allocated c = true) : c ≠ c1 ∧ c ≠ c2 :=
  ⟨ne_of_allocated ready.1 there, ne_of_allocated ready.2.1 there⟩

theorem Effect.ringChange (effect : s.Effect op next reply) (ready : op.Ready s) :
    s.RingChange op next reply := by
  cases effect with
  | new _ _ =>
    refine .new fun c there => ?_
    simp [paired, initChannel, new_apart ready there]
  | read arrives ends =>
    cases ends with
    | data readable _ =>
      refine .taken arrives.runs (arrives.isReadable.mp readable) ?_
      rw [taken_ring, ← arrives.ring_eq, ← taken_ring]
      rfl
    | closed _ _ | blocked _ _ => exact .same arrives.ring_eq
  | @write _ t self peer buffer mid _ _ arrives ends =>
    cases ends with
    | stored writable ends =>
      refine .stored arrives.runs (arrives.isWritable.mp writable) (ends.ring_eq.trans ?_)
      show (mid.stored t self peer buffer).ring = _
      rw [stored_ring, stored_ring, arrives.ring_eq]
    | closed _ _ | blocked _ _ => exact .same arrives.ring_eq
  | sync arrives ends => exact .same (ends.ring_eq.trans arrives.ring_eq)
  | select _ ends | selectResume _ ends => cases ends <;> exact .same rfl
  | _ => exact .same rfl

theorem taken_ring_self {message : List UInt8} : (s.taken self count message).ring self =
    ((s.ring self).taken count message).withCount ((s.ring self).useCount - 1) := by
  rw [taken_ring, Function.update_self]

theorem stored_ring_self : (s.stored t self peer buffer).ring peer =
    ((s.ring peer).stored t buffer).withCount ((s.ring peer).useCount + 1) := by
  rw [stored_ring, Function.update_self]

/-! ## Changes of the calls -/

theorem Arrives.before (arrives : s.Arrives op t call mid) (ready : op.Ready s) :
    s.calls t = .idle ∨ s.calls t = call := by
  cases arrives with
  | read | write _ => exact .inl ready.1.2
  | resume _ => exact .inr rfl

theorem Arrives.sync_inside {size index : Nat}
    (arrives : s.Arrives op t (.writeSync self peer buffer size index) mid) :
    s.calls t = .writeSync self peer buffer size index := by
  generalize place : Call.writeSync self peer buffer size index = call at arrives
  cases arrives with
  | read => cases place
  | write _ => cases place
  | resume _ => rfl

theorem Arrives.task_eq (arrives : s.Arrives op t call mid) : op.task = t := by
  cases arrives with
  | read => rfl
  | write _ => rfl
  | resume _ => rfl

theorem Arrives.calls_of_ne (arrives : s.Arrives op t call mid) (other : u ≠ t) : mid.calls u = s.calls u := by
  rw [arrives.same]
  exact Function.update_of_ne other ..

theorem ReadEnds.calls_of_ne (ends : s.ReadEnds t self count next reply) (other : u ≠ t) :
    next.calls u = s.calls u := by
  cases ends with
  | data _ _ | closed _ _ => exact Function.update_of_ne other ..
  | blocked _ _ => rfl

theorem SyncEnds.calls_of_ne {size : Nat} (ends : s.SyncEnds t self peer size next reply) (other : u ≠ t) :
    next.calls u = s.calls u := by
  cases ends with
  | done _ | closed _ _ => exact Function.update_of_ne other ..
  | blocked _ _ => rfl

theorem WriteEnds.calls_of_ne (ends : s.WriteEnds t self peer buffer next reply) (other : u ≠ t) :
    next.calls u = s.calls u := by
  cases ends with
  | stored _ ends => exact (ends.calls_of_ne other).trans (Function.update_of_ne other ..)
  | closed _ _ => exact Function.update_of_ne other ..
  | blocked _ _ => rfl

theorem SelectEnds.calls_of_ne {list : Readiness} {timeout : Int} {milliseconds : Nat}
    (ends : s.SelectEnds t self list timeout milliseconds next reply) (other : u ≠ t) :
    next.calls u = s.calls u := by
  cases ends with
  | done _ | blocked _ _ => exact Function.update_of_ne other ..

theorem Effect.calls_of_ne (effect : s.Effect op next reply) (other : u ≠ op.task) :
    next.calls u = s.calls u := by
  cases effect with
  | read arrives ends | write arrives ends | sync arrives ends =>
    rw [arrives.task_eq] at other
    exact (ends.calls_of_ne other).trans (arrives.calls_of_ne other)
  | writeClosed _ | selectNone _ => exact Function.update_of_ne other ..
  | select _ ends | selectResume _ ends => exact ends.calls_of_ne other
  | _ => rfl

theorem Arrives.busy (arrives : s.Arrives op t call mid) (ready : op.Ready s) :
    s.calls t = .idle ∨ op.Runs s t (s.calls t) := by
  rcases arrives.before ready with idle | inside
  · exact .inl idle
  · exact .inr (inside ▸ arrives.runs)

theorem SyncEnds.calls {size : Nat} (ends : s.SyncEnds t self peer size next reply) :
    next.calls t = .idle ∨ next.calls t = s.calls t := by
  cases ends with
  | done _ | closed _ _ => exact .inl (Function.update_self ..)
  | blocked _ _ => exact .inr rfl

theorem SelectEnds.calls {list : Readiness} {timeout : Int} {milliseconds : Nat}
    (ends : s.SelectEnds t self list timeout milliseconds next reply) :
    (next.calls t).self = 0 ∧ (next.calls t).peer = 0 := by
  cases ends with
  | done _ =>
    have idle : (s.leave t).calls t = .idle := enter_calls_self
    rw [idle]
    exact ⟨rfl, rfl⟩
  | blocked _ _ =>
    have entered : (s.enter t (.select self list timeout milliseconds)).calls t =
      .select self list timeout milliseconds := enter_calls_self
    exact ⟨congrArg Call.self entered, congrArg Call.peer entered⟩

theorem Effect.calls_task (effect : s.Effect op next reply) (ready : op.Ready s) :
    next.calls op.task = s.calls op.task ∨
      (s.calls op.task = .idle ∨ op.Runs s op.task (s.calls op.task)) ∧
        ((next.calls op.task).self = 0 ∧ (next.calls op.task).peer = 0 ∨
          ∃ call, op.Runs s op.task call ∧ (next.calls op.task).self = call.self ∧
            (next.calls op.task).peer = call.peer) := by
  have left : ∀ {state : ChannelSystem} {t}, (state.leave t).calls t = .idle := Function.update_self ..
  cases effect with
  | read arrives ends =>
    obtain rfl := arrives.task_eq
    refine .inr ⟨arrives.busy ready, ?_⟩
    cases ends with
    | data _ _ | closed _ _ => exact .inl (left ▸ ⟨rfl, rfl⟩)
    | blocked _ _ => exact .inr ⟨_, arrives.runs, congrArg Call.self arrives.inside, congrArg Call.peer arrives.inside⟩
  | write arrives ends =>
    obtain rfl := arrives.task_eq
    refine .inr ⟨arrives.busy ready, ?_⟩
    cases ends with
    | stored _ ends =>
      rcases ends.calls with idle | same
      · exact .inl (idle ▸ ⟨rfl, rfl⟩)
      · have same := same.trans enter_calls_self
        exact .inr ⟨_, arrives.runs, (congrArg Call.self same).trans rfl, (congrArg Call.peer same).trans rfl⟩
    | closed _ _ => exact .inl (left ▸ ⟨rfl, rfl⟩)
    | blocked _ _ => exact .inr ⟨_, arrives.runs, congrArg Call.self arrives.inside, congrArg Call.peer arrives.inside⟩
  | sync arrives ends =>
    obtain rfl := arrives.task_eq
    refine .inr ⟨arrives.busy ready, ?_⟩
    rcases ends.calls with idle | same
    · exact .inl (idle ▸ ⟨rfl, rfl⟩)
    · have same := same.trans arrives.inside
      exact .inr ⟨_, arrives.runs, congrArg Call.self same, congrArg Call.peer same⟩
  | writeClosed _ | selectNone _ => exact .inr ⟨.inl ready.1.2, .inl (left ▸ ⟨rfl, rfl⟩)⟩
  | select _ ends => exact .inr ⟨.inl ready.1.2, .inl ends.calls⟩
  | selectResume _ ends => exact .inr ⟨.inr ⟨rfl, rfl⟩, .inl ends.calls⟩
  | _ => exact .inl rfl

theorem Effect.self_of (effect : s.Effect op next reply) (ready : op.Ready s) (nonnull : c ≠ 0)
    (inside : (next.calls u).self = c) : (s.calls u).self = c ∨ u = op.task ∧ op.uses = c := by
  by_cases here : u = op.task
  · subst here
    rcases effect.calls_task ready with same | ⟨_, ⟨zero, _⟩ | ⟨call, runs, self, _⟩⟩
    · exact .inl (same ▸ inside)
    · exact absurd (zero.symm.trans inside).symm nonnull
    · rw [self] at inside
      cases op with
      | read _ _ _ | write _ _ _ =>
        obtain ⟨_, rfl⟩ := runs
        exact .inr ⟨rfl, inside⟩
      | resume _ _ =>
        obtain ⟨_, rfl⟩ := runs
        exact .inl inside
      | _ => exact False.elim runs
  · exact .inl (effect.calls_of_ne here ▸ inside)

/-! ## Changes of the endpoints -/

theorem paired_fields {c1 c2 size buffers : Nat} (ready : (ChannelOp.new c1 c2 size buffers).Ready s)
    (nonnull1 : c1 ≠ 0) :
    (s.paired c1 c2 size buffers).peer c1 = c2 ∧ (s.paired c1 c2 size buffers).peer c2 = c1 ∧
      ∀ c, c = c1 ∨ c = c2 → (s.paired c1 c2 size buffers).ring c = .new size buffers := by
  obtain ⟨_, _, other, _⟩ := ready
  have other := other nonnull1
  refine ⟨by simp [paired, initChannel, other], by simp [paired, initChannel], fun c mine => ?_⟩
  rcases mine with rfl | rfl
  · simp [paired, initChannel, other]
  · simp [paired, initChannel]

theorem Effect.peer_eq (effect : s.Effect op next reply) (ready : op.Ready s) (inv : s.Inv)
    (alive : s.alive c = true) : next.peer c = s.peer c ∨ op = .destroy (s.peer c) ∧ next.peer c = 0 := by
  cases effect with
  | new _ _ =>
    have other := new_apart ready (inv.topology.allocated c alive)
    exact .inl (by simp [paired, initChannel, other])
  | @destroy self =>
    by_cases here : s.peer self = 0
    · refine .inl ?_
      show (if s.peer self = 0 then s.peer else _) c = _
      rw [if_pos here]
    -- The endpoints of a pair name each other.
    · by_cases mine : c = s.peer self
      · obtain ⟨_, back, _⟩ := inv.topology.peers self ready.1 here
        refine .inr ⟨by rw [mine, back], ?_⟩
        show (if s.peer self = 0 then s.peer else Function.update s.peer (s.peer self) 0) c = _
        rw [if_neg here, mine, Function.update_self]
      · refine .inl ?_
        show (if s.peer self = 0 then s.peer else Function.update s.peer (s.peer self) 0) c = _
        rw [if_neg here, Function.update_of_ne mine]
  | read arrives ends => cases ends <;> exact .inl (congrFun arrives.peer_eq c)
  | write arrives ends =>
    cases ends with
    | stored _ ends => exact .inl ((congrFun ends.peer_eq c).trans (congrFun arrives.peer_eq c))
    | closed _ _ | blocked _ _ => exact .inl (congrFun arrives.peer_eq c)
  | sync arrives ends => exact .inl ((congrFun ends.peer_eq c).trans (congrFun arrives.peer_eq c))
  | select _ ends | selectResume _ ends => cases ends <;> exact .inl rfl
  | _ => exact .inl rfl

theorem Effect.alive_of (effect : s.Effect op next reply) (alive : next.alive c = true) :
    s.alive c = true ∨ ∃ c1 c2 size buffers, op = .new c1 c2 size buffers ∧ c1 ≠ 0 ∧ c2 ≠ 0 ∧ (c = c1 ∨ c = c2) := by
  cases effect with
  | @new c1 c2 size buffers nonnull1 nonnull2 =>
    by_cases mine : c = c1 ∨ c = c2
    · exact .inr ⟨c1, c2, size, buffers, rfl, nonnull1, nonnull2, mine⟩
    · simp only [not_or] at mine
      exact .inl (by simpa [paired, initChannel, mine.1, mine.2] using alive)
  | @destroy self =>
    by_cases here : c = self
    · subst here
      have dead : (s.destroyed c).alive c = false := Function.update_self ..
      rw [dead] at alive
      cases alive
    · exact .inl ((Function.update_of_ne here ..).symm.trans alive)
  | read arrives ends =>
    rw [← arrives.alive_eq]
    cases ends <;> exact .inl alive
  | write arrives ends =>
    rw [← arrives.alive_eq]
    cases ends with
    | stored _ ends => cases ends <;> exact .inl alive
    | closed _ _ | blocked _ _ => exact .inl alive
  | sync arrives ends =>
    rw [← arrives.alive_eq]
    cases ends <;> exact .inl alive
  | select _ ends | selectResume _ ends => cases ends <;> exact .inl alive
  | _ => exact .inl alive

/-! ## Changes of the tasks -/

theorem woken_waiting (waiting : s.woken c u = some .waiting) : s.pool u = some .waiting := by
  unfold woken at waiting
  split at waiting
  · exact waiting
  · by_cases here : u = s.task c
    · rw [here, Function.update_self] at waiting
      cases waiting
    · rwa [Function.update_of_ne here] at waiting

theorem taken_waiting {message : List UInt8} (waiting : (s.taken self count message).pool u = some .waiting) :
    s.pool u = some .waiting := by
  rw [taken_eq] at waiting
  split at waiting
  · exact woken_waiting waiting
  · exact waiting

theorem stored_waiting (waiting : (s.stored t self peer buffer).pool u = some .waiting) :
    s.pool u = some .waiting := by
  rw [stored_eq] at waiting
  split at waiting
  · exact woken_waiting waiting
  · exact waiting

theorem Arrives.pool_eq (arrives : s.Arrives op t call mid) : mid.pool = s.pool := by rw [arrives.same]

theorem SyncEnds.waiting {size : Nat} (ends : s.SyncEnds t self peer size next reply)
    (waiting : next.pool u = some .waiting) : s.pool u = some .waiting ∨ u = t ∧ reply = .blocked := by
  cases ends with
  | done _ | closed _ _ => exact .inl waiting
  | blocked _ _ =>
    by_cases here : u = t
    · exact .inr ⟨here, rfl⟩
    · exact .inl ((Function.update_of_ne here ..).symm.trans waiting)

theorem Effect.waiting (effect : s.Effect op next reply) (waiting : next.pool u = some .waiting) :
    s.pool u = some .waiting ∨ u = op.task ∧ reply = .blocked := by
  have yields : ∀ {pool : TaskPool} {t}, pool.wait t u = some .waiting → pool u = some .waiting ∨ u = t := by
    intro pool t waiting
    by_cases here : u = t
    · exact .inr here
    · exact .inl ((Function.update_of_ne here ..).symm.trans waiting)
  have changes : ∀ {state : TaskState} {t}, state ≠ .waiting →
      Function.update s.pool t (some state) u = some .waiting → s.pool u = some .waiting := by
    intro state t different waiting
    by_cases here : u = t
    · rw [here, Function.update_self] at waiting
      exact absurd (Option.some.inj waiting) different
    · rwa [Function.update_of_ne here] at waiting
  cases effect with
  | start | exit => exact .inl (changes (by decide) waiting)
  | wait => exact (yields waiting).imp_right fun here => ⟨here, rfl⟩
  | wake => exact .inl (changes (by decide) waiting)
  | @destroy self =>
    have waiting : (if s.peer self = 0 then s.pool else s.woken (s.peer self)) u = some .waiting := waiting
    split at waiting
    · exact .inl waiting
    · exact .inl (woken_waiting waiting)
  | read arrives ends =>
    rw [arrives.task_eq, ← arrives.pool_eq]
    cases ends with
    | data _ _ => exact .inl (taken_waiting waiting)
    | closed _ _ => exact .inl waiting
    | blocked _ _ => exact (yields waiting).imp_right fun here => ⟨here, rfl⟩
  | @write _ t self peer buffer mid _ _ arrives ends =>
    rw [arrives.task_eq, ← arrives.pool_eq]
    cases ends with
    | stored _ ends =>
      rcases ends.waiting waiting with waiting | yielded
      · exact .inl (@stored_waiting mid t u self peer buffer waiting)
      · exact .inr yielded
    | closed _ _ => exact .inl waiting
    | blocked _ _ => exact (yields waiting).imp_right fun here => ⟨here, rfl⟩
  | sync arrives ends =>
    rw [arrives.task_eq, ← arrives.pool_eq]
    exact ends.waiting waiting
  | select _ ends | selectResume _ ends =>
    cases ends with
    | done _ => exact .inl waiting
    | blocked _ _ => exact (yields waiting).imp_right fun here => ⟨here, rfl⟩
  | _ => exact .inl waiting

theorem Effect.ne_of_waiting (effect : s.Effect op next reply) (inv : s.Inv) (ready : op.Ready s)
    (before : s.pool u = some .waiting) (after : next.pool u = some .waiting) : u ≠ op.task := by
  rintro rfl
  have running : s.pool op.task ≠ some .running := by simp [before]
  have null : op.task ≠ 0 := by
    intro zero
    rw [zero, inv.tasks.null] at before
    cases before
  -- Who makes a step is running, except in a start, a wake and the calls from outside.
  cases op with
  | start t =>
    rcases ready.2 with none | stopped
    · exact absurd (none.symm.trans before) (by simp)
    · exact absurd (stopped.symm.trans before) (by simp)
  | wake t =>
    cases effect with
    | wake => exact absurd ((Function.update_self ..).symm.trans after) (by simp)
    | read arrives _ => cases arrives
    | write arrives _ => cases arrives
    | sync arrives _ => cases arrives
  | exit t => exact running ready.1.1
  | wait t | resume t _ => exact running ready.1
  | read t _ _ | write t _ _ | selectAdd t _ _ | selectDel t _ _ | select t _ _ _ => exact running ready.1.1
  | new _ _ _ _ => exact null rfl
  | destroy _ => exact null rfl
  | selectNew _ => exact null rfl
  | selectDestroy _ => exact null rfl

/-! ## Changes of the task fields -/

theorem Arrives.user (arrives : s.Arrives op t call mid) :
    op.uses = call.self ∨ (s.calls op.task).self = call.self := by
  cases arrives with
  | read => exact .inl rfl
  | write _ => exact .inl rfl
  | resume _ => exact .inr rfl

theorem SyncEnds.task_of_ne {size : Nat} (ends : s.SyncEnds t self peer size next reply) (other : c ≠ self) :
    next.task c = s.task c := by
  cases ends with
  | done _ => rfl
  | closed _ _ => rfl
  | blocked _ _ => exact Function.update_of_ne other ..

theorem Effect.task_eq (effect : s.Effect op next reply) (ready : op.Ready s) (inv : s.Inv)
    (alive : s.alive c = true) :
    next.task c = s.task c ∨ op.uses = c ∨ (s.calls op.task).self = c := by
  cases effect with
  | new _ _ =>
    have other := new_apart ready (inv.topology.allocated c alive)
    exact .inl (by simp [paired, initChannel, other])
  | @read _ _ self _ _ _ _ arrives ends =>
    by_cases here : c = self
    · exact .inr (here ▸ arrives.user)
    · have same := arrives.task here
      cases ends with
      | data _ _ | closed _ _ => exact .inl same
      | blocked _ _ => exact .inl ((Function.update_of_ne here ..).trans same)
  | @write _ _ self _ _ _ _ _ arrives ends =>
    by_cases here : c = self
    · exact .inr (here ▸ arrives.user)
    · have same := arrives.task here
      cases ends with
      | stored _ ends => exact .inl ((ends.task_of_ne here).trans same)
      | closed _ _ => exact .inl same
      | blocked _ _ => exact .inl ((Function.update_of_ne here ..).trans same)
  | @sync _ _ self _ _ _ _ _ _ _ arrives ends =>
    by_cases here : c = self
    · exact .inr (here ▸ arrives.user)
    · exact .inl ((ends.task_of_ne here).trans (arrives.task here))
  | @selectAdd t self chan =>
    by_cases here : c = chan
    · exact .inr (.inl here.symm)
    · exact .inl (Function.update_of_ne here ..)
  | @selectDel t self chan =>
    by_cases here : c = chan
    · exact .inr (.inl here.symm)
    · exact .inl (Function.update_of_ne here ..)
  | select _ ends | selectResume _ ends => cases ends <;> exact .inl rfl
  | _ => exact .inl rfl

end ChannelSystem

end HevTaskSystem
