import HevTaskSystem.Channel.Effect

/-! The operations on channels keep the invariant.

Each part of the invariant speaks of a few fields only, so an operation has to be
looked at in those parts whose fields it changes.
-/

set_option autoImplicit false

namespace HevTaskSystem.ChannelSystem

open Foundation

variable {s next : ChannelSystem} {t self peer c : Addr} {call : Call}

theorem enter_calls_self : (s.enter t call).calls t = call := Function.update_self ..

theorem enter_calls_of_ne {u : Addr} (other : u ≠ t) : (s.enter t call).calls u = s.calls u :=
  Function.update_of_ne other ..

/-! ## Endpoints -/

theorem Topology.congr (topology : s.Topology) (allocated : next.allocated = s.allocated)
    (alive : next.alive = s.alive) (peer : next.peer = s.peer) (calls : next.calls = s.calls)
    (maxSize : ∀ c, (next.ring c).maxSize = (s.ring c).maxSize) : next.Topology := by
  constructor
  · rw [allocated]
    exact topology.null
  · rw [allocated, alive]
    exact topology.allocated
  · intro c
    rw [alive, peer, maxSize, maxSize]
    exact topology.peers c
  · rw [calls]
    exact topology.proper
  · rw [alive, calls]
    exact topology.users
  · intro t
    rw [calls]
    intro nonnull
    obtain ⟨user, allocated', other, linked, size⟩ := topology.targets t nonnull
    refine ⟨?_, ?_, other, ?_, ?_⟩
    · rwa [alive]
    · rwa [allocated]
    · rwa [peer, alive]
    · rwa [maxSize, maxSize]

theorem Topology.enter (topology : s.Topology) (proper : call.Proper)
    (user : call.self ≠ 0 → s.alive call.self = true)
    (target : call.peer ≠ 0 → s.Target call.self call.peer) : (s.enter t call).Topology := by
  refine ⟨topology.null, topology.allocated, topology.peers, fun u => ?_, fun u => ?_, fun u => ?_⟩
  · simp only [ChannelSystem.enter, Function.update_apply]
    split
    · exact proper
    · exact topology.proper u
  · simp only [ChannelSystem.enter, Function.update_apply]
    split
    · exact user
    · exact topology.users u
  · simp only [ChannelSystem.enter, Function.update_apply]
    split
    · intro nonnull
      obtain ⟨h1, h2, h3, h4, h5⟩ := target nonnull
      exact ⟨h1, h2, h3, h4, h5⟩
    · intro nonnull
      obtain ⟨h1, h2, h3, h4, h5⟩ := topology.targets u nonnull
      exact ⟨h1, h2, h3, h4, h5⟩

theorem Topology.target (topology : s.Topology) (alive : s.alive c = true) (open' : s.peer c ≠ 0) :
    s.Target c (s.peer c) := by
  obtain ⟨alive', _, other, size⟩ := topology.peers c alive open'
  exact ⟨alive, topology.allocated _ alive', other.symm, .inl rfl, size⟩

theorem Topology.free (topology : s.Topology) (dead : s.alive c = false) (unused : ∀ t, (s.calls t).peer ≠ c) :
    Topology { s with allocated := Function.update s.allocated c false } := by
  have kept : ∀ b, b ≠ c → Function.update s.allocated c false b = s.allocated b := fun b other =>
    Function.update_of_ne other ..
  refine ⟨?_, fun b alive => ?_, topology.peers, topology.proper, topology.users, fun t nonnull => ?_⟩
  · show Function.update s.allocated c false 0 = false
    by_cases zero : 0 = c
    · rw [← zero, Function.update_self]
    · rw [kept 0 zero]
      exact topology.null
  · have other : b ≠ c := by
      rintro rfl
      rw [show s.alive b = true from alive] at dead
      cases dead
    show Function.update s.allocated c false b = true
    rw [kept b other]
    exact topology.allocated b alive
  · obtain ⟨h1, h2, h3, h4, h5⟩ := topology.targets t nonnull
    exact ⟨h1, (kept _ (unused t)).trans h2, h3, h4, h5⟩

/-! ## References -/

theorem Refs.congr (refs : s.Refs) (allocated : next.allocated = s.allocated) (alive : next.alive = s.alive)
    (refCount : next.refCount = s.refCount) (calls : ∀ t, (next.calls t).peer = (s.calls t).peer) :
    next.Refs := by
  intro c there
  rw [allocated] at there
  obtain ⟨holders, mem, count⟩ := refs c there
  refine ⟨holders, fun t => ?_, ?_⟩
  · rw [calls, mem]
  · rw [refCount, alive, count]

theorem Refs.enter (refs : s.Refs) (same : call.peer = (s.calls t).peer) : (s.enter t call).Refs := by
  refine refs.congr rfl rfl rfl fun u => ?_
  simp only [ChannelSystem.enter, Function.update_apply]
  split
  · rename_i here
    rw [same, here]
  · rfl

theorem Refs.ref (refs : s.Refs) (topology : s.Topology) (outside : (s.calls t).peer = 0) :
    ((s.channelRef call.peer).enter t call).Refs := by
  intro c there
  obtain ⟨holders, mem, count⟩ := refs c there
  have c0 : c ≠ 0 := topology.ne_zero there
  -- The task held no reference before, so it counts once.
  have fresh : t ∉ holders := by
    rw [mem, outside]
    exact c0.symm
  by_cases here : c = call.peer
  · refine ⟨insert t holders, fun u => ?_, ?_⟩
    · simp only [ChannelSystem.enter, channelRef, Function.update_apply, Finset.mem_insert, mem]
      by_cases same : u = t
      · simp [same, here]
      · simp [same]
    · rw [Finset.card_insert_of_notMem fresh]
      simp only [ChannelSystem.enter, channelRef, here, Function.update_self]
      rw [← here, count]
      omega
  · refine ⟨holders, fun u => ?_, ?_⟩
    · simp only [ChannelSystem.enter, channelRef, Function.update_apply]
      by_cases same : u = t
      · subst same
        simp [fresh, Ne.symm here]
      · simp [same, mem]
    · simp only [ChannelSystem.enter, channelRef, Function.update_of_ne here]
      exact count

theorem channelUnref_allocated (there : (s.channelUnref peer).allocated c = true) : s.allocated c = true := by
  simp only [channelUnref] at there
  split at there
  · exact there
  · by_cases here : c = peer
    · rw [here, Function.update_self] at there
      cases there
    · rwa [Function.update_of_ne here] at there

theorem Refs.unref (refs : s.Refs) (topology : s.Topology) (inside : (s.calls t).peer ≠ 0) :
    ((s.channelUnref (s.calls t).peer).leave t).Refs := by
  intro c there
  have there' := channelUnref_allocated (s := s) there
  obtain ⟨holders, mem, count⟩ := refs c there'
  have c0 : c ≠ 0 := topology.ne_zero there'
  have after : ∀ u, (((s.channelUnref (s.calls t).peer).leave t).calls u).peer = c ↔
      u ≠ t ∧ (s.calls u).peer = c := by
    intro u
    simp only [leave, ChannelSystem.enter, channelUnref, Function.update_apply]
    by_cases same : u = t
    · simp [same, Call.peer, c0.symm]
    · simp [same]
  -- The count of the peer goes down by one, and the task is no longer among its writers.
  by_cases here : c = (s.calls t).peer
  · have member : t ∈ holders := (mem t).mpr here.symm
    refine ⟨holders.erase t, fun u => ?_, ?_⟩
    · rw [after, Finset.mem_erase, mem]
    · have positive := Finset.card_pos.mpr ⟨t, member⟩
      rw [Finset.card_erase_of_mem member]
      simp only [leave, ChannelSystem.enter, channelUnref, ← here, Function.update_self]
      rw [count]
      omega
  · refine ⟨holders, fun u => ?_, ?_⟩
    · rw [after, mem]
      refine ⟨fun writes => ⟨?_, writes⟩, fun both => both.2⟩
      rintro rfl
      exact here writes.symm
    · simp only [leave, ChannelSystem.enter, channelUnref, Function.update_of_ne here]
      exact count

theorem Topology.unref (topology : s.Topology) (refs : s.Refs) (inside : (s.calls t).peer ≠ 0) :
    ((s.channelUnref (s.calls t).peer).leave t).Topology := by
  have left : (s.leave t).Topology := topology.enter trivial (fun h => absurd rfl h) fun h => absurd rfl h
  by_cases last : s.refCount (s.calls t).peer - 1 ≠ 0
  · refine left.congr ?_ rfl rfl rfl fun _ => rfl
    simp [leave, ChannelSystem.enter, channelUnref, last]
  · have target := topology.targets t inside
    obtain ⟨holders, mem, count⟩ := refs _ target.allocated
    have member : t ∈ holders := (mem t).mpr rfl
    have positive := Finset.card_pos.mpr ⟨t, member⟩
    have dead : s.alive (s.calls t).peer = false := by
      by_contra alive
      rw [Bool.not_eq_false] at alive
      rw [alive, if_pos rfl] at count
      omega
    have alone : holders.card ≤ 1 := by omega
    refine (left.free dead fun u => ?_).congr ?_ rfl rfl rfl fun _ => rfl
    · simp only [leave, ChannelSystem.enter, Function.update_apply]
      by_cases same : u = t
      · rw [if_pos same]
        exact inside.symm
      · rw [if_neg same]
        intro writes
        exact same (Finset.card_le_one.mp alone u ((mem u).mpr writes) t member)
    · simp [leave, ChannelSystem.enter, channelUnref, last]

/-! ## Tasks -/

theorem Tasks.congr (tasks : s.Tasks) (null : next.pool 0 = none) (active : ∀ t, s.Active t → next.Active t)
    (calls : next.calls = s.calls) (allocated : ∀ c, next.allocated c = true → s.allocated c = true)
    (task : next.task = s.task) (select : ∀ c, s.select c ≠ 0 → next.select c ≠ 0)
    (selectors : ∀ t, (s.calls t).selector ≠ 0 → s.selectors (s.calls t).selector = true →
      next.selectors (s.calls t).selector = true) : next.Tasks := by
  refine ⟨null, fun t busy => ?_, fun c there used => ?_, fun t waits => ?_⟩
  · rw [calls] at busy
    exact active t (tasks.active t busy)
  · rw [task] at used ⊢
    obtain ⟨awake, why⟩ := tasks.task c (allocated c there) used
    rw [calls]
    exact ⟨active _ awake, why.imp_right (select c)⟩
  · rw [calls] at waits ⊢
    exact selectors t waits (tasks.selector t waits)

/-- The task is in the `task` field of channels it has registered, at most. -/
def Unbound (s : ChannelSystem) (t : Addr) : Prop :=
  ∀ c, s.allocated c = true → s.task c = t → s.select c ≠ 0

theorem Tasks.enter (tasks : s.Tasks) (active : call ≠ .idle → s.Active t) (unbound : s.Unbound t)
    (selector : call.selector ≠ 0 → s.selectors call.selector = true) : (s.enter t call).Tasks := by
  refine ⟨tasks.null, fun u busy => ?_, fun c there used => ?_, fun u waits => ?_⟩
  · by_cases same : u = t
    · subst same
      rw [enter_calls_self] at busy
      exact active busy
    · rw [enter_calls_of_ne same] at busy
      exact tasks.active u busy
  · obtain ⟨awake, why⟩ := tasks.task c there used
    refine ⟨awake, ?_⟩
    by_cases same : s.task c = t
    · exact .inr (unbound c there same)
    · rw [show (s.enter t call).task c = s.task c from rfl, enter_calls_of_ne same]
      exact why
  · by_cases same : u = t
    · subst same
      rw [enter_calls_self] at waits ⊢
      exact selector waits
    · rw [enter_calls_of_ne same] at waits ⊢
      exact tasks.selector u waits

theorem Tasks.ne_zero (tasks : s.Tasks) (active : s.Active t) : t ≠ 0 := by
  rintro rfl
  rcases active with running | waiting
  · rw [tasks.null] at running
    cases running
  · rw [tasks.null] at waiting
    cases waiting

theorem Tasks.woken_null (tasks : s.Tasks) : s.woken c 0 = none := by
  unfold woken
  split
  · exact tasks.null
  · rename_i used
    rw [Function.update_of_ne (Ne.symm used)]
    exact tasks.null

theorem woken_active (active : s.Active t) : s.woken c t = some .running ∨ s.woken c t = some .waiting := by
  unfold woken
  split
  · exact active
  · by_cases same : t = s.task c
    · exact .inl (by rw [same, Function.update_self])
    · rw [Function.update_of_ne same]
      exact active

theorem wait_active {u : Addr} (active : s.Active u) :
    s.pool.wait t u = some .running ∨ s.pool.wait t u = some .waiting := by
  by_cases same : u = t
  · exact .inr (by rw [TaskPool.wait, same, Function.update_self])
  · rw [TaskPool.wait, Function.update_of_ne same]
    exact active

theorem Tasks.wait (tasks : s.Tasks) (active : s.Active t) : Tasks { s with pool := s.pool.wait t } := by
  refine tasks.congr ?_ (fun u => wait_active) rfl (fun _ => id) rfl (fun _ => id) fun _ _ => id
  show s.pool.wait t 0 = none
  rw [TaskPool.wait, Function.update_of_ne (tasks.ne_zero active).symm]
  exact tasks.null

theorem Tasks.setTask (tasks : s.Tasks) (bound : t ≠ 0 → s.Active t ∧ ((s.calls t).self = c ∨ s.select c ≠ 0)) :
    Tasks { s with task := Function.update s.task c t } := by
  refine ⟨tasks.null, tasks.active, fun b there used => ?_, tasks.selector⟩
  by_cases here : b = c
  · subst here
    simp only [Function.update_self] at used ⊢
    exact bound used
  · simp only [Function.update_of_ne here] at used ⊢
    exact tasks.task b there used

theorem Tasks.yieldOn (tasks : s.Tasks) (active : s.Active t) (inside : (s.calls t).self = self) :
    (s.yieldOn t self).Tasks :=
  (tasks.setTask fun _ => ⟨active, .inl inside⟩).wait active

theorem Tasks.cleared (tasks : s.Tasks) : Tasks { s with task := Function.update s.task self 0 } :=
  tasks.setTask fun nonnull => absurd rfl nonnull

/-! ## Rings -/

theorem Rings.congr (rings : s.Rings) (allocated : ∀ c, next.allocated c = true → s.allocated c = true)
    (alive : ∀ c, next.alive c = true → s.alive c = true) (ring : next.ring = s.ring)
    (calls : next.calls = s.calls) : next.Rings := by
  constructor
  · intro c there
    rw [ring]
    exact rings.ok c (allocated c there)
  · intro c used
    have same : next.Writer c = s.Writer c := by
      unfold Writer
      rw [calls]
    rw [ring, same]
    exact rings.holds c (alive c used)

/-- A task may leave its place unless its message lies there. -/
theorem Rings.enter (rings : s.Rings) (topology : s.Topology)
    (done : ∀ c self buffer size index, s.calls t = .writeSync self c buffer size index → s.alive c = true →
      (s.ring c).maxCount = 1 → (s.ring c).useCount = 0) : (s.enter t call).Rings := by
  refine ⟨rings.ok, fun c alive => ?_⟩
  refine (rings.holds c alive).change (rings.ok c (topology.allocated c alive)) fun one readable u message => ?_
  rintro ⟨self, size, index, waits⟩
  have other : u ≠ t := by
    rintro rfl
    exact readable (done c self message size index waits alive one)
  exact ⟨self, size, index, (enter_calls_of_ne other).trans waits⟩

theorem Rings.taken (rings : s.Rings) (topology : s.Topology) (alive : s.alive self = true)
    (readable : s.isReadable self) {count : Nat} {message : List UInt8}
    (found : (s.ring self).writes[(s.ring self).reads.length]? = some message) :
    (s.taken self count message).Rings := by
  have ok := rings.ok self (topology.allocated self alive)
  constructor
  · intro c there
    rw [taken_ring]
    by_cases here : c = self
    · subst here
      rw [Function.update_self]
      exact ok.taken readable found
    · rw [Function.update_of_ne here]
      exact rings.ok c there
  · intro c used
    rw [taken_ring]
    by_cases here : c = self
    · subst here
      rw [Function.update_self]
      exact (rings.holds c alive).taken ok readable
    · rw [Function.update_of_ne here]
      exact rings.holds c used

theorem Rings.stored (rings : s.Rings) (topology : s.Topology) (target : s.Target self peer)
    (writable : s.isWritable peer) {buffer : List UInt8} (inside : s.calls t = .writeFull self peer buffer) :
    ((s.stored t self peer buffer).enter t (s.syncCall self peer buffer)).Rings := by
  have ok := rings.ok peer target.allocated
  constructor
  · intro c there
    show ((s.stored t self peer buffer).ring c).Ok
    rw [stored_ring]
    by_cases here : c = peer
    · subst here
      rw [Function.update_self]
      exact ok.stored writable t buffer
    · rw [Function.update_of_ne here]
      exact rings.ok c there
  · intro c used
    show ((s.stored t self peer buffer).ring c).Holds _
    rw [stored_ring]
    by_cases here : c = peer
    · subst here
      rw [Function.update_self]
      exact (rings.holds c used).stored ok writable fun _ => ⟨self, _, _, enter_calls_self⟩
    · rw [Function.update_of_ne here]
      -- Another ring: a task that waits for its buffer there is not the one that stores here.
      refine (rings.holds c used).change (rings.ok c (topology.allocated c used)) fun _ _ u message => ?_
      rintro ⟨self', size, index, waits⟩
      have other : u ≠ t := by
        rintro rfl
        rw [inside] at waits
        cases waits
      exact ⟨self', size, index, (enter_calls_of_ne other).trans waits⟩

/-! ## A new pair -/

section

variable {c1 c2 : Addr} {ring : ChannelRing}

theorem Topology.dead (topology : s.Topology) (free : s.allocated c = false) : s.alive c = false := by
  rw [← Bool.not_eq_true]
  intro alive
  rw [topology.allocated c alive] at free
  cases free

theorem ne_of_alive (dead : s.alive c = false) {b : Addr} (alive : s.alive b = true) : b ≠ c := by
  rintro rfl
  rw [alive] at dead
  cases dead

theorem ne_of_allocated (free : s.allocated c = false) {b : Addr} (there : s.allocated b = true) : b ≠ c := by
  rintro rfl
  rw [there] at free
  cases free

theorem Topology.initPair (topology : s.Topology) (free1 : s.allocated c1 = false)
    (free2 : s.allocated c2 = false) (nonnull1 : c1 ≠ 0) (nonnull2 : c2 ≠ 0) (other : c1 ≠ c2) :
    ((s.initChannel c1 c2 ring).initChannel c2 c1 ring).Topology := by
  have dead1 := topology.dead free1
  have dead2 := topology.dead free2
  have old : ∀ b, s.alive b = true → b ≠ c1 ∧ b ≠ c2 := fun b alive =>
    ⟨ne_of_alive dead1 alive, ne_of_alive dead2 alive⟩
  constructor
  · simp [initChannel, nonnull1.symm, nonnull2.symm, topology.null]
  · intro b
    by_cases h1 : b = c1
    · simp [initChannel, h1, Function.update_of_ne other]
    · by_cases h2 : b = c2
      · simp [initChannel, h2]
      · simpa [initChannel, h1, h2] using topology.allocated b
  · intro b alive open'
    by_cases h1 : b = c1
    · subst h1
      simp [initChannel, other, other.symm]
    · by_cases h2 : b = c2
      · subst h2
        simp [initChannel, other]
      -- An old endpoint has an old peer.
      · simp only [initChannel, Function.update_of_ne h1, Function.update_of_ne h2] at alive open' ⊢
        obtain ⟨alive', back, self', size⟩ := topology.peers b alive open'
        obtain ⟨h3, h4⟩ := old _ alive'
        simp only [Function.update_of_ne h3, Function.update_of_ne h4]
        exact ⟨alive', back, self', size⟩
  · exact topology.proper
  · intro t inside
    have alive := topology.users t inside
    obtain ⟨h1, h2⟩ := old _ alive
    simpa [initChannel, h1, h2] using alive
  · intro t inside
    obtain ⟨user, there, apart, linked, size⟩ := topology.targets t inside
    obtain ⟨h1, h2⟩ := old _ user
    have h3 := ne_of_allocated free1 there
    have h4 := ne_of_allocated free2 there
    refine ⟨?_, ?_, apart, ?_, ?_⟩
    · simpa [initChannel, h1, h2] using user
    · simpa [initChannel, h3, h4] using there
    · simpa [initChannel, h1, h2, h3, h4] using linked
    · simpa [initChannel, h1, h2, h3, h4] using size

theorem Refs.initPair (refs : s.Refs) (topology : s.Topology) (free1 : s.allocated c1 = false)
    (free2 : s.allocated c2 = false) (nonnull1 : c1 ≠ 0) (nonnull2 : c2 ≠ 0) (other : c1 ≠ c2) :
    ((s.initChannel c1 c2 ring).initChannel c2 c1 ring).Refs := by
  have unused : ∀ c, c ≠ 0 → s.allocated c = false → ∀ t, (s.calls t).peer ≠ c := by
    rintro c nonnull free t rfl
    rw [(topology.targets t nonnull).allocated] at free
    cases free
  intro b there
  by_cases h1 : b = c1
  · subst h1
    refine ⟨∅, fun t => ?_, by simp [initChannel, other]⟩
    show t ∈ ∅ ↔ (s.calls t).peer = b
    simpa using unused b nonnull1 free1 t
  · by_cases h2 : b = c2
    · subst h2
      refine ⟨∅, fun t => ?_, by simp [initChannel]⟩
      show t ∈ ∅ ↔ (s.calls t).peer = b
      simpa using unused b nonnull2 free2 t
    · simp only [initChannel, Function.update_of_ne h1, Function.update_of_ne h2] at there ⊢
      exact refs b there

theorem Tasks.initPair (tasks : s.Tasks) : ((s.initChannel c1 c2 ring).initChannel c2 c1 ring).Tasks := by
  refine ⟨tasks.null, tasks.active, fun b there used => ?_, tasks.selector⟩
  by_cases h2 : b = c2
  · simp [initChannel, h2] at used
  · by_cases h1 : b = c1
    · subst h1
      simp [initChannel, h2] at used
    · simp only [initChannel, Function.update_of_ne h1, Function.update_of_ne h2] at there used ⊢
      exact tasks.task b there used

theorem Rings.initPair (rings : s.Rings) (ok : ring.Ok) (holds : ∀ writer, ring.Holds writer) :
    ((s.initChannel c1 c2 ring).initChannel c2 c1 ring).Rings := by
  have at1 : ∀ b, b ≠ c1 → b ≠ c2 →
      ((s.initChannel c1 c2 ring).initChannel c2 c1 ring).ring b = s.ring b := fun b h1 h2 => by
    simp [initChannel, h1, h2]
  have at2 : ∀ b, b = c1 ∨ b = c2 → ((s.initChannel c1 c2 ring).initChannel c2 c1 ring).ring b = ring := by
    rintro b (rfl | rfl)
    · by_cases same : b = c2
      · simp [initChannel, same]
      · simp [initChannel, same]
    · simp [initChannel]
  constructor
  · intro b there
    by_cases new : b = c1 ∨ b = c2
    · rw [at2 b new]
      exact ok
    · rw [not_or] at new
      rw [at1 b new.1 new.2]
      simp only [initChannel, Function.update_of_ne new.1, Function.update_of_ne new.2] at there
      exact rings.ok b there
  · intro b alive
    by_cases new : b = c1 ∨ b = c2
    · rw [at2 b new]
      exact holds _
    · rw [not_or] at new
      rw [at1 b new.1 new.2]
      simp only [initChannel, Function.update_of_ne new.1, Function.update_of_ne new.2] at alive
      exact rings.holds b alive

end

/-! ## An endpoint that is destroyed -/

theorem Topology.close (topology : s.Topology) (alive : s.alive self = true)
    (unused : ∀ t, (s.calls t).self ≠ self) :
    Topology { s.unlinked self with alive := Function.update s.alive self false } := by
  have self0 : self ≠ 0 := topology.ne_zero (topology.allocated self alive)
  have kept : ∀ b, b ≠ self → Function.update s.alive self false b = s.alive b := fun b other =>
    Function.update_of_ne other ..
  have back : ∀ b, s.alive b = true → s.peer b = self → s.peer self = b := by
    intro b alive' toward
    have peers := topology.peers b alive' (toward ▸ self0)
    rw [toward] at peers
    exact peers.2.1
  -- Only the peer of the endpoint loses its own peer.
  have peer' : ∀ b, b ≠ 0 → (s.unlinked self).peer b = if b = s.peer self then 0 else s.peer b := by
    intro b nonnull
    simp only [unlinked]
    by_cases closed : s.peer self = 0
    · simp [closed, nonnull]
    · simp [closed, Function.update_apply]
  constructor
  · exact topology.null
  · intro b alive'
    have other : b ≠ self := by
      rintro rfl
      simp at alive'
    exact topology.allocated b ((kept b other).symm.trans alive')
  · intro b alive' open'
    have other : b ≠ self := by
      rintro rfl
      simp at alive'
    have alive'' : s.alive b = true := (kept b other).symm.trans alive'
    have b0 : b ≠ 0 := topology.ne_zero (topology.allocated b alive'')
    simp only [peer' b b0] at open' ⊢
    by_cases mine : b = s.peer self
    · rw [if_pos mine] at open'
      exact absurd rfl open'
    · rw [if_neg mine] at open' ⊢
      obtain ⟨palive, pback, pother, size⟩ := topology.peers b alive'' open'
      -- Another pair: neither end of it is the closed one or its peer.
      have away : s.peer b ≠ self := fun toward => mine (back b alive'' toward).symm
      have away' : s.peer b ≠ s.peer self := by
        intro same
        rw [same] at pback open'
        have := (topology.peers self alive open').2.1
        exact other (pback.symm.trans this)
      rw [peer' _ open', if_neg away']
      exact ⟨(kept _ away).trans palive, pback, pother, size⟩
  · exact topology.proper
  · intro t inside
    exact (kept _ (unused t)).trans (topology.users t inside)
  · intro t inside
    obtain ⟨user, there, apart, linked, size⟩ := topology.targets t inside
    refine ⟨(kept _ (unused t)).trans user, there, apart, ?_, size⟩
    have c0 : (s.calls t).self ≠ 0 := topology.ne_zero (topology.allocated _ user)
    show (s.unlinked self).peer (s.calls t).self = (s.calls t).peer ∨
      ((s.unlinked self).peer (s.calls t).self = 0 ∧
        Function.update s.alive self false (s.calls t).peer = false)
    rw [peer' _ c0]
    -- A task inside of a write either sees its peer closed now, or keeps what it had.
    rcases linked with toward | ⟨closed, dead⟩
    · by_cases here : (s.calls t).peer = self
      · right
        rw [here] at toward
        rw [if_pos (back _ user toward).symm, here]
        exact ⟨rfl, Function.update_self ..⟩
      · left
        rw [if_neg]
        · exact toward
        · intro mine
          have open' : s.peer self ≠ 0 := mine ▸ c0
          have := (topology.peers self alive open').2.1
          rw [← mine, toward] at this
          exact here this
    · right
      have other : (s.calls t).peer ≠ self := by
        intro here
        rw [here, alive] at dead
        cases dead
      rw [closed, ite_self]
      exact ⟨rfl, (kept _ other).trans dead⟩

theorem Topology.destroyed (topology : s.Topology) (refs : s.Refs) (alive : s.alive self = true)
    (unused : ∀ t, (s.calls t).self ≠ self) : (s.destroyed self).Topology := by
  have closed := topology.close alive unused
  by_cases last : s.refCount self - 1 ≠ 0
  · refine closed.congr ?_ rfl rfl rfl fun _ => rfl
    simp [ChannelSystem.destroyed, channelUnref, unlinked, last]
  · obtain ⟨holders, mem, count⟩ := refs self (topology.allocated self alive)
    rw [alive, if_pos rfl] at count
    have none : holders = ∅ := by
      rw [← Finset.card_eq_zero]
      omega
    refine (closed.free (Function.update_self ..) fun t writes => ?_).congr ?_ rfl rfl rfl fun _ => rfl
    · have member : t ∈ holders := (mem t).mpr writes
      rw [none] at member
      exact absurd member (Finset.notMem_empty t)
    · simp [ChannelSystem.destroyed, channelUnref, unlinked, last]

theorem Refs.destroyed (refs : s.Refs) (alive : s.alive self = true) : (s.destroyed self).Refs := by
  intro b there
  obtain ⟨holders, mem, count⟩ := refs b (channelUnref_allocated (s := s.unlinked self) there)
  refine ⟨holders, mem, ?_⟩
  by_cases here : b = self
  · subst here
    rw [alive, if_pos rfl] at count
    simp [ChannelSystem.destroyed, channelUnref, unlinked, count]
  · simpa [ChannelSystem.destroyed, channelUnref, unlinked, here] using count

theorem Tasks.destroyed (tasks : s.Tasks) : (s.destroyed self).Tasks := by
  refine tasks.congr ?_ (fun t active => ?_) rfl (fun c there => ?_) rfl (fun _ => id) fun _ _ => id
  · show (if s.peer self = 0 then s.pool else s.woken (s.peer self)) 0 = none
    split
    · exact tasks.null
    · exact tasks.woken_null
  · show (if s.peer self = 0 then s.pool else s.woken (s.peer self)) t = some .running ∨
      (if s.peer self = 0 then s.pool else s.woken (s.peer self)) t = some .waiting
    split
    · exact active
    · exact woken_active active
  · exact channelUnref_allocated (s := s.unlinked self) there

theorem Rings.destroyed (rings : s.Rings) : (s.destroyed self).Rings := by
  refine rings.congr (fun c there => channelUnref_allocated (s := s.unlinked self) there) (fun c alive => ?_)
    rfl rfl
  by_cases here : c = self
  · simp [ChannelSystem.destroyed, here] at alive
  · simpa [ChannelSystem.destroyed, here] using alive

end HevTaskSystem.ChannelSystem
