import HevTaskSystem.Channel.Step

/-! How long an endpoint of a channel stays in memory.

An endpoint may be destroyed while tasks are blocked in operations of it. A task that
writes holds a reference to the other endpoint, but nobody holds one to their own, so a
task that is woken by the destruction of its own endpoint goes on in freed memory.
-/

set_option autoImplicit false

namespace HevTaskSystem

open Foundation ChannelSystem

/-- What the callers guarantee, except that other tasks may be inside operations of an
endpoint that is destroyed. -/
def ChannelOp.Shared (s : ChannelSystem) : ChannelOp → Prop
  | .destroy self => s.alive self = true ∧ s.select self = 0
  | op => op.Ready s

def sharedSystem : System ChannelSystem ChannelOp where
  init := channelSystem.init
  step s op next := op.Shared s ∧ ∃ reply, op.apply s = some (next, reply)

/-- An endpoint that is destroyed has no task inside an operation of it. -/
def Unused (s : ChannelSystem) : ChannelOp → Prop
  | .destroy self => ∀ t, (s.calls t).self ≠ self
  | _ => True

def ChannelOp.makes (c : Addr) : ChannelOp → Bool
  | .new c1 c2 _ _ => c1 ≠ 0 ∧ c2 ≠ 0 ∧ (c = c1 ∨ c = c2)
  | _ => false

def Frees (c : Addr) (s : ChannelSystem) (_ : ChannelOp) (next : ChannelSystem) : Prop :=
  s.refCount c ≠ 0 ∧ next.refCount c = 0

theorem ChannelOp.Shared.ready {s : ChannelSystem} {op : ChannelOp} (shared : op.Shared s)
    (unused : Unused s op) : op.Ready s := by
  cases op with
  | destroy self => exact ⟨shared.1, shared.2, unused⟩
  | _ => exact shared

namespace ChannelSystem

variable {s mid next : ChannelSystem} {op : ChannelOp} {reply : Reply} {t self peer c : Addr} {call : Call}

def Counted (s : ChannelSystem) : Prop := ∀ c, s.allocated c = true → s.refCount c ≠ 0

/-- What a step does to the memory of one endpoint: nothing, unless it makes the endpoint
or takes its last reference. -/
inductive Lifetime (s next : ChannelSystem) (c : Addr) : Bool → Prop where
  | kept : next.allocated c = s.allocated c → (s.refCount c ≠ 0 → next.refCount c ≠ 0) → Lifetime s next c false
  | made : s.allocated c = false → next.allocated c = true → next.refCount c ≠ 0 → Lifetime s next c true
  | freed : s.allocated c = true → s.refCount c ≠ 0 → next.allocated c = false → next.refCount c = 0 →
      Lifetime s next c false

theorem Lifetime.same (allocated : next.allocated = s.allocated) (refCount : next.refCount = s.refCount) :
    Lifetime s next c false :=
  .kept (congrFun allocated c) fun positive => congrFun refCount c ▸ positive

theorem Lifetime.after (allocated : mid.allocated = s.allocated) (more : s.refCount c ≤ mid.refCount c)
    (counted : s.Counted) (rest : Lifetime mid next c false) : Lifetime s next c false := by
  have allocated := congrFun allocated c
  cases rest with
  | kept same positive => exact .kept (same.trans allocated) fun nonzero => positive (by omega)
  | freed there _ gone zero =>
    rw [allocated] at there
    exact .freed there (counted c there) gone zero

theorem Lifetime.unref (counted : s.Counted) (there : s.allocated peer = true)
    (allocated : next.allocated = (s.channelUnref peer).allocated)
    (refCount : next.refCount = (s.channelUnref peer).refCount) : Lifetime s next c false := by
  have positive := counted peer there
  by_cases here : c = peer
  · subst here
    by_cases last : s.refCount c - 1 = 0
    · refine .freed there positive ?_ ?_
      · simp [allocated, channelUnref, last]
      · simp [refCount, channelUnref, last]
    · refine .kept ?_ fun _ => ?_
      · simp [allocated, channelUnref, last]
      · simpa [refCount, channelUnref] using last
  · refine .kept ?_ fun kept => ?_
    · simp only [allocated, channelUnref]
      split
      · rfl
      · exact Function.update_of_ne here ..
    · rw [refCount]
      exact (Function.update_of_ne here ..).trans_ne kept

theorem Lifetime.counted (each : ∀ c, ∃ made, Lifetime s next c made) (counted : s.Counted) : next.Counted := by
  intro c there
  obtain ⟨made, life⟩ := each c
  cases life with
  | kept allocated refCount => exact refCount (counted c (allocated ▸ there))
  | made _ _ positive => exact positive
  | freed _ _ gone _ =>
    rw [gone] at there
    cases there

/-! ## Steps -/

theorem Arrives.allocated_eq (arrives : s.Arrives op t call mid) : mid.allocated = s.allocated := by
  rw [arrives.same]

theorem Arrives.makes (arrives : s.Arrives op t call mid) (c : Addr) : op.makes c = false := by
  cases arrives <;> rfl

theorem Arrives.refCount (arrives : s.Arrives op t call mid) (c : Addr) : s.refCount c ≤ mid.refCount c := by
  cases arrives with
  | read => exact le_rfl
  | @write _ self _ _ =>
    show s.refCount c ≤ Function.update s.refCount (s.peer self) (s.refCount (s.peer self) + 1) c
    by_cases here : c = s.peer self
    · subst here
      simp
    · simp [here]
  | resume _ => exact le_rfl

theorem Arrives.counted (arrives : s.Arrives op t call mid) (counted : s.Counted) : mid.Counted := by
  intro c there
  rw [arrives.allocated_eq] at there
  exact (Nat.lt_of_lt_of_le (Nat.pos_of_ne_zero (counted c there)) (arrives.refCount c)).ne'

theorem Arrives.lifetime (arrives : s.Arrives op t call mid) (counted : s.Counted)
    (rest : Lifetime mid next c false) : Lifetime s next c (op.makes c) := by
  rw [arrives.makes c]
  exact rest.after arrives.allocated_eq (arrives.refCount c) counted

theorem ReadEnds.lifetime {count : Nat} (ends : s.ReadEnds t self count next reply) :
    Lifetime s next c false := by
  cases ends with
  | data _ _ =>
    rw [taken_eq]
    exact .same rfl rfl
  | closed _ _ | blocked _ _ => exact .same rfl rfl

theorem SyncEnds.lifetime {size : Nat} (ends : s.SyncEnds t self peer size next reply) (counted : s.Counted)
    (there : s.allocated peer = true) : Lifetime s next c false := by
  cases ends with
  | done _ | closed _ _ => exact .unref counted there rfl rfl
  | blocked _ _ => exact .same rfl rfl

theorem WriteEnds.lifetime {buffer : List UInt8} (ends : s.WriteEnds t self peer buffer next reply)
    (counted : s.Counted) (there : s.allocated peer = true) : Lifetime s next c false := by
  cases ends with
  | stored _ ends =>
    -- Storing the message changes neither of the two fields.
    generalize after : (s.stored t self peer buffer).enter t (s.syncCall self peer buffer) = mid at ends
    have allocated : mid.allocated = s.allocated := by
      rw [← after, stored_eq]
      rfl
    have refCount : mid.refCount = s.refCount := by
      rw [← after, stored_eq]
      rfl
    have counted' : mid.Counted := by
      intro c
      rw [allocated, refCount]
      exact counted c
    exact (ends.lifetime counted' ((congrFun allocated peer).trans there)).after allocated
      (congrFun refCount c).ge counted
  | closed _ _ => exact .unref counted there rfl rfl
  | blocked _ _ => exact .same rfl rfl

theorem SelectEnds.lifetime {list : Readiness} {timeout : Int} {milliseconds : Nat}
    (ends : s.SelectEnds t self list timeout milliseconds next reply) : Lifetime s next c false := by
  cases ends <;> exact .same rfl rfl

theorem Lifetime.paired {c1 c2 size buffers : Nat} (ready : (ChannelOp.new c1 c2 size buffers).Ready s)
    (nonnull1 : c1 ≠ 0) (nonnull2 : c2 ≠ 0) :
    Lifetime s (s.paired c1 c2 size buffers) c ((ChannelOp.new c1 c2 size buffers).makes c) := by
  by_cases mine : c = c1 ∨ c = c2
  · have free : s.allocated c = false := by
      rcases mine with rfl | rfl
      · exact ready.1
      · exact ready.2.1
    have makes : (ChannelOp.new c1 c2 size buffers).makes c = true := by
      simp [ChannelOp.makes, nonnull1, nonnull2, mine]
    rw [makes]
    refine .made free ?_ ?_
    · rcases mine with rfl | rfl <;> simp [ChannelSystem.paired, initChannel, Function.update_apply]
    · rcases mine with rfl | rfl <;> simp [ChannelSystem.paired, initChannel, Function.update_apply]
  · have makes : (ChannelOp.new c1 c2 size buffers).makes c = false := by simp [ChannelOp.makes, mine]
    rw [not_or] at mine
    rw [makes]
    refine .kept ?_ fun kept => ?_
    · simp [ChannelSystem.paired, initChannel, mine]
    · simpa [ChannelSystem.paired, initChannel, mine] using kept

theorem Effect.lifetime (effect : s.Effect op next reply) (inv : s.Inv) (counted : s.Counted)
    (ready : op.Ready s) (c : Addr) : Lifetime s next c (op.makes c) := by
  cases effect with
  | newFailed null =>
    have makes : ∀ {c1 c2 size buffers : Nat}, c1 = 0 ∨ c2 = 0 →
        (ChannelOp.new c1 c2 size buffers).makes c = false := by
      intro c1 c2 size buffers null
      rcases null with null | null <;> simp [ChannelOp.makes, null]
    rw [makes null]
    exact .same rfl rfl
  | new nonnull1 nonnull2 => exact .paired ready nonnull1 nonnull2
  | @destroy self => exact .unref counted (inv.topology.allocated self ready.1) rfl rfl
  | read arrives ends => exact arrives.lifetime counted ends.lifetime
  | write arrives ends =>
    exact arrives.lifetime counted (ends.lifetime (arrives.counted counted) (arrives.target inv ready).2.allocated)
  | @sync _ t self peer _ _ _ mid _ _ arrives ends =>
    have topology := (arrives.inv inv ready).1.topology
    have proper := topology.proper t
    have targets := topology.targets t
    rw [arrives.inside] at proper targets
    exact arrives.lifetime counted (ends.lifetime (arrives.counted counted) (targets proper.2).allocated)
  | select _ ends | selectResume _ ends => exact ends.lifetime
  | _ => exact .same rfl rfl

/-! ## Runs -/

theorem unused_run {trace : List ChannelOp} (run : (sharedSystem.restrict Unused).Run trace s) :
    channelSystem.Run trace s := by
  refine run.mono ?_ ?_
  · exact fun _ initial => initial
  · rintro s op next ⟨unused, shared, result⟩
    exact ⟨shared.ready unused, result⟩

theorem channelSystem_counted {trace : List ChannelOp} (run : channelSystem.Run trace s) : s.Counted := by
  induction run with
  | init initial =>
    obtain ⟨_, _, allocated, _⟩ := initial
    intro c there
    rw [allocated c] at there
    cases there
  | step run step counted =>
    obtain ⟨ready, reply, result⟩ := step
    have inv := channelSystem_inv run
    obtain ⟨_, _, result', effect⟩ := inv.effect ready
    cases result.symm.trans result'
    exact Lifetime.counted (fun c => ⟨_, effect.lifetime inv counted ready c⟩) counted

theorem step_lifetime {trace : List ChannelOp} (run : (sharedSystem.restrict Unused).Run trace s)
    (step : (sharedSystem.restrict Unused).step s op next) (c : Addr) : Lifetime s next c (op.makes c) := by
  obtain ⟨unused, shared, reply, result⟩ := step
  have ready := shared.ready unused
  have inv := channelSystem_inv (unused_run run)
  obtain ⟨_, _, result', effect⟩ := inv.effect ready
  cases result.symm.trans result'
  exact effect.lifetime inv (channelSystem_counted (unused_run run)) ready c

theorem shared_step {allowed : ChannelSystem → ChannelOp → Prop} {trace : List ChannelOp}
    (run : (sharedSystem.restrict allowed).Run trace s) (op : ChannelOp) (permitted : allowed s op)
    (shared : op.Shared s) (result : op.apply s = some (next, reply)) :
    (sharedSystem.restrict allowed).Run (trace ++ [op]) next :=
  run.step ⟨permitted, shared, reply, result⟩

theorem frees_add_allocated {trace : List ChannelOp} {frees : Nat}
    (counts : (sharedSystem.restrict Unused).Counts (Frees c) trace s frees) :
    (frees + if s.allocated c then 1 else 0) = trace.countP (ChannelOp.makes c) := by
  induction counts with
  | init initial =>
    obtain ⟨_, _, allocated, _⟩ := initial
    simp [allocated]
  | @event trace s next op frees counts step ends ih =>
    have life := step_lifetime counts.run step c
    rw [List.countP_append, List.countP_singleton, ← ih]
    generalize op.makes c = made at life ⊢
    cases life with
    | kept _ positive => exact absurd ends.2 (positive ends.1)
    | made _ _ positive => exact absurd ends.2 positive
    | freed there _ gone _ => simp [there, gone]
  | @other trace s next op frees counts step none ih =>
    have life := step_lifetime counts.run step c
    rw [List.countP_append, List.countP_singleton, ← ih]
    generalize op.makes c = made at life ⊢
    cases life with
    | kept allocated _ => simp [allocated]
    | made free there _ => simp [free, there]
    | freed _ positive _ zero => exact absurd ⟨positive, zero⟩ none

theorem Inv.allocated_iff (inv : s.Inv) (counted : s.Counted) (c : Addr) :
    s.allocated c = true ↔ s.alive c = true ∨ c ≠ 0 ∧ ∃ t, (s.calls t).peer = c := by
  constructor
  · intro there
    by_cases alive : s.alive c = true
    · exact .inl alive
    · obtain ⟨holders, mem, count⟩ := inv.refs c there
      have positive := counted c there
      rw [count, if_neg alive, Nat.add_zero, Finset.card_ne_zero] at positive
      obtain ⟨t, holds⟩ := positive
      exact .inr ⟨inv.topology.ne_zero there, t, (mem t).mp holds⟩
  · rintro (alive | ⟨nonnull, t, rfl⟩)
    · exact inv.topology.allocated c alive
    · exact (inv.topology.targets t nonnull).allocated

end ChannelSystem

/-- In every run that destroys endpoints only while no task is inside an operation of
them: no step accesses freed memory; an endpoint is in memory exactly while it is not
destroyed or a task writes to it; and each endpoint made that is not in memory was freed
exactly once. -/
theorem channel_lifetime {trace : List ChannelOp} {s : ChannelSystem}
    (run : (sharedSystem.restrict Unused).Run trace s) :
    (∀ op : ChannelOp, op.Shared s → Unused s op → ∃ next reply, op.apply s = some (next, reply)) ∧
    (∀ c, s.allocated c = true ↔ s.alive c = true ∨ c ≠ 0 ∧ ∃ t, (s.calls t).peer = c) ∧
    ∀ c, ∃ frees, (sharedSystem.restrict Unused).Counts (Frees c) trace s frees ∧
      (frees + if s.allocated c then 1 else 0) = trace.countP (ChannelOp.makes c) := by
  have inv := channelSystem_inv (unused_run run)
  refine ⟨fun op shared unused => ?_, inv.allocated_iff (channelSystem_counted (unused_run run)), fun c => ?_⟩
  · obtain ⟨next, reply, result, _⟩ := inv.effect (shared.ready unused)
    exact ⟨next, reply, result⟩
  · obtain ⟨frees, counts⟩ := run.exists_counts (Frees c)
    exact ⟨frees, counts, frees_add_allocated counts⟩

/-- A writer is blocked while the endpoint that it writes to is destroyed. It holds the
last reference, returns and frees the endpoint. -/
theorem channel_lifetime_writer : ∃ s : ChannelSystem, s.alive 16 = false ∧ s.allocated 16 = false ∧
    (sharedSystem.restrict Unused).Counts (Frees 16)
      [.start 1, .new 8 16 4 0, .write 1 8 [7], .destroy 16, .resume 1 0] s 1 := by
  have run : (sharedSystem.restrict Unused).Run [] .empty := .init empty_init
  have run := shared_step run (.start 1) trivial ⟨by decide, .inl rfl⟩ rfl
  have run := shared_step run (.new 8 16 4 0) trivial ⟨rfl, rfl, by decide, by decide, by decide⟩ rfl
  have run := shared_step run (.write 1 8 [7]) trivial ⟨⟨rfl, rfl⟩, rfl⟩ rfl
  have run := shared_step run (.destroy 16) (by
    intro t
    by_cases here : t = 1
    · subst here
      decide
    · have idle : ∀ entered waits, Function.update (Function.update (fun _ => Call.idle) 1 entered) 1 waits t =
          Call.idle := fun _ _ => (Function.update_of_ne here ..).trans (Function.update_of_ne here ..)
      exact (congrArg Call.self (idle _ _)).trans_ne (by decide)) ⟨rfl, rfl⟩ rfl
  have run := shared_step run (.resume 1 0) trivial ⟨rfl, by decide⟩ rfl
  obtain ⟨frees, counts, total⟩ := (channel_lifetime run).2.2 16
  cases (show frees = 1 from total)
  exact ⟨_, rfl, rfl, counts⟩

/-- A reader waits for its own endpoint while that is destroyed. The reader is woken, and
its next step accesses the freed endpoint. -/
theorem channel_reader_after_free : ∃ s : ChannelSystem,
    sharedSystem.Run [.start 1, .new 8 16 4 0, .read 1 8 4, .destroy 8] s ∧
      s.calls 1 = .read 8 4 ∧ s.refCount 8 = 0 ∧ s.allocated 8 = false ∧
      (ChannelOp.resume 1 0).Shared s ∧ (ChannelOp.resume 1 0).apply s = none := by
  have run : (sharedSystem.restrict fun _ _ => True).Run [] .empty := .init empty_init
  have run := shared_step run (.start 1) trivial ⟨by decide, .inl rfl⟩ rfl
  have run := shared_step run (.new 8 16 4 0) trivial ⟨rfl, rfl, by decide, by decide, by decide⟩ rfl
  have run := shared_step run (.read 1 8 4) trivial ⟨⟨rfl, rfl⟩, rfl⟩ rfl
  have run := shared_step run (.destroy 8) trivial ⟨rfl, rfl⟩ rfl
  exact ⟨_, run.of_restrict, rfl, rfl, rfl, ⟨rfl, by decide⟩, rfl⟩

end HevTaskSystem
