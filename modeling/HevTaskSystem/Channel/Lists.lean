import HevTaskSystem.Channel.Effect

/-! The lists of the selectors.

A channel is in the list of its own selector if its flag is set, and nowhere else. The
flag for reading follows the number of messages; the order of the list is that in
which the channels became readable.
-/

set_option autoImplicit false

namespace HevTaskSystem.ChannelSystem

open Foundation

variable {s next : ChannelSystem} {t self peer c : Addr}

/-! ## One kind of list -/

variable {family : ListFamily} {select : Addr → Addr} {used : Addr → Bool} {order : Addr → List Addr}

theorem Listed.add (listed : Listed family select used order) (nonnull : c ≠ 0) (owner : self ≠ 0)
    (fresh : used c = false ∨ select c = 0) :
    Listed (family.addTail self c) (Function.update select c self) (Function.update used c true)
      (Function.update order self (order self ++ [c])) := by
  have outside : ∀ owner, c ∉ order owner := by
    intro owner member
    obtain ⟨owner0, here, flag⟩ := (listed.mem owner c).mp member
    rcases fresh with unused | free
    · rw [unused] at flag
      cases flag
    · exact owner0 (here.symm.trans free)
  refine ⟨ListFamily.addTail_holds listed.holds nonnull outside, fun owner' b => ?_⟩
  by_cases new : b = c
  · subst new
    rw [Function.update_self, Function.update_self]
    by_cases here : owner' = self
    · subst here
      simp [owner]
    · rw [Function.update_of_ne here]
      simp [outside, Ne.symm here]
  · rw [Function.update_of_ne new, Function.update_of_ne new, ← listed.mem]
    by_cases here : owner' = self
    · subst here
      simp [new]
    · rw [Function.update_of_ne here]

theorem Listed.del (listed : Listed family select used order) (owner : self ≠ 0) (here : select c = self)
    (flag : used c = true) :
    Listed (family.del self c) select (Function.update used c false)
      (Function.update order self ((order self).erase c)) := by
  have member : c ∈ order self := (listed.mem self c).mpr ⟨owner, here, flag⟩
  refine ⟨ListFamily.del_holds listed.holds member, fun owner' b => ?_⟩
  have nodup := (listed.holds.each self).nodup
  by_cases old : b = c
  · subst old
    rw [Function.update_self]
    by_cases same : owner' = self
    · subst same
      simp [nodup.not_mem_erase]
    · rw [Function.update_of_ne same, listed.mem]
      simp [here, Ne.symm same]
  · rw [Function.update_of_ne old, ← listed.mem]
    by_cases same : owner' = self
    · subst same
      rw [Function.update_self, List.mem_erase_of_ne old]
    · rw [Function.update_of_ne same]

theorem Listed.reselect (listed : Listed family select used order) (unused : used c = false) (owner : Addr) :
    Listed family (Function.update select c owner) used order := by
  refine ⟨listed.holds, fun owner' b => ?_⟩
  rw [listed.mem]
  by_cases here : b = c
  · simp [here, unused]
  · rw [Function.update_of_ne here]

theorem Listed.reflag (listed : Listed family select used order) (used' : Addr → Bool)
    (same : ∀ c, select c ≠ 0 → used' c = used c) : Listed family select used' order := by
  refine ⟨listed.holds, fun owner b => ?_⟩
  rw [listed.mem]
  constructor
  · rintro ⟨nonnull, here, flag⟩
    exact ⟨nonnull, here, (same b (here ▸ nonnull)).trans flag⟩
  · rintro ⟨nonnull, here, flag⟩
    exact ⟨nonnull, here, (same b (here ▸ nonnull)).symm.trans flag⟩

variable {lists : ReadyLists}

theorem used_add : (lists.add self c).used = Function.update lists.used c true := by
  unfold ReadyLists.add
  split
  · rename_i flag
    rw [← flag, Function.update_eq_self]
  · rfl

theorem used_del : (lists.del self c).used = Function.update lists.used c false := by
  unfold ReadyLists.del
  split
  · rename_i unused
    rw [← eq_false_of_ne_true unused, Function.update_eq_self]
  · rfl

theorem add_listed (listed : Listed lists.family select lists.used order) (nonnull : c ≠ 0)
    (member : select c ≠ 0) :
    Listed (lists.add (select c) c).family select (lists.add (select c) c).used
      (if lists.used c then order else Function.update order (select c) (order (select c) ++ [c])) := by
  unfold ReadyLists.add
  split
  · exact listed
  · rename_i unused
    have added := listed.add nonnull member (.inl (eq_false_of_ne_true unused))
    rwa [Function.update_eq_self] at added

theorem del_listed (listed : Listed lists.family select lists.used order) (member : select c ≠ 0) :
    Listed (lists.del (select c) c).family select (lists.del (select c) c).used
      (if lists.used c then Function.update order (select c) ((order (select c)).erase c) else order) := by
  unfold ReadyLists.del
  by_cases flag : lists.used c = true
  · rw [if_neg (not_not.mpr flag), if_pos flag]
    exact listed.del member rfl flag
  · rw [if_pos flag, if_neg flag]
    exact listed

/-! ## The lists of the system -/

theorem Registry.congr (registry : s.Registry) (select : next.select = s.select)
    (alive : ∀ c, s.select c ≠ 0 → s.alive c = true → next.alive c = true)
    (selectors : ∀ c, s.select c ≠ 0 → s.selectors (s.select c) = true → next.selectors (s.select c) = true)
    (chan : next.chanLists = s.chanLists) (read : next.readLists = s.readLists)
    (write : next.writeLists = s.writeLists) (since : next.since = s.since) (clock : next.clock = s.clock)
    (readable : ∀ c, s.select c ≠ 0 → (next.isReadable c ↔ s.isReadable c)) : next.Registry := by
  obtain ⟨chanOrder, readOrder, writeOrder, lists⟩ := registry
  refine ⟨chanOrder, readOrder, writeOrder, fun c member => ?_, ?_, ?_, ?_, fun c => ?_, ?_, ?_, ?_⟩
  · rw [select] at member ⊢
    obtain ⟨used, there⟩ := lists.registered c member
    exact ⟨alive c member used, selectors c member there⟩
  · rw [chan, select]
    exact lists.chan
  · rw [read, select]
    exact lists.read
  · rw [write, select]
    exact lists.write
  · rw [read, select, lists.readable]
    exact and_congr_right fun member => (readable c member).symm
  · rw [write, select]
    exact lists.writable
  · rw [since]
    exact lists.since
  · rw [since, clock]
    exact lists.clock

theorem Registry.addWrite (registry : s.Registry) (nonnull : c ≠ 0) (member : s.select c ≠ 0) :
    Registry { s with writeLists := s.writeLists.add (s.select c) c } := by
  obtain ⟨chanOrder, readOrder, writeOrder, lists⟩ := registry
  refine ⟨chanOrder, readOrder, _, lists.registered, lists.chan, lists.read,
    add_listed lists.write nonnull member, lists.readable, fun b => ?_, lists.since, lists.clock⟩
  rw [used_add]
  by_cases here : b = c
  · intro _
    rw [here]
    exact member
  · rw [Function.update_of_ne here]
    exact lists.writable b

theorem Registry.delWrite (registry : s.Registry) (member : s.select c ≠ 0) :
    Registry { s with writeLists := s.writeLists.del (s.select c) c } := by
  obtain ⟨chanOrder, readOrder, writeOrder, lists⟩ := registry
  refine ⟨chanOrder, readOrder, _, lists.registered, lists.chan, lists.read,
    del_listed lists.write member, lists.readable, fun b => ?_, lists.since, lists.clock⟩
  rw [used_del]
  by_cases here : b = c
  · simp [here]
  · rw [Function.update_of_ne here]
    exact lists.writable b

theorem update_erase_sublist (order : Addr → List Addr) (owner c self : Addr) :
    (Function.update order owner ((order owner).erase c) self).Sublist (order self) := by
  by_cases here : self = owner
  · rw [here, Function.update_self]
    exact List.erase_sublist
  · rw [Function.update_of_ne here]

theorem Registry.drain (registry : s.Registry) {ring : ChannelRing} (before : (s.ring c).useCount ≠ 0)
    (after : ring.useCount = 0) :
    Registry { s with
      ring := Function.update s.ring c ring
      readLists := if s.select c ≠ 0 then s.readLists.del (s.select c) c else s.readLists } := by
  obtain ⟨chanOrder, readOrder, writeOrder, lists⟩ := registry
  -- A channel that belongs to no selector is in no list, whatever its ring holds.
  by_cases outside : s.select c = 0
  · rw [if_neg (not_not.mpr outside)]
    refine ⟨chanOrder, readOrder, writeOrder, lists.registered, lists.chan, lists.read, lists.write,
      fun b => ?_, lists.writable, lists.since, lists.clock⟩
    show s.readLists.used b = true ↔ s.select b ≠ 0 ∧ (Function.update s.ring c ring b).useCount ≠ 0
    rw [lists.readable]
    refine and_congr_right fun member => ?_
    rw [Function.update_of_ne]
    rintro rfl
    exact member outside
  · rw [if_pos outside]
    have flag : s.readLists.used c = true := (lists.readable c).mpr ⟨outside, before⟩
    have read := del_listed lists.read outside
    rw [if_pos flag] at read
    have less := update_erase_sublist readOrder (s.select c) c
    refine ⟨chanOrder, _, writeOrder, lists.registered, lists.chan, read, lists.write, fun b => ?_,
      lists.writable, fun owner => (lists.since owner).sublist (less owner),
      fun owner b member => lists.clock owner b ((less owner).subset member)⟩
    show (s.readLists.del (s.select c) c).used b = true ↔
      s.select b ≠ 0 ∧ (Function.update s.ring c ring b).useCount ≠ 0
    rw [used_del]
    by_cases here : b = c
    · subst here
      simp [after]
    · rw [Function.update_of_ne here, Function.update_of_ne here]
      exact lists.readable b

theorem Lists.append {chanOrder readOrder writeOrder : Addr → List Addr}
    (lists : s.Lists chanOrder readOrder writeOrder) (unused : s.readLists.used c = false) (owner : Addr) :
    (∀ self, (Function.update readOrder owner (readOrder owner ++ [c]) self).Pairwise fun a b =>
        Function.update s.since c s.clock a < Function.update s.since c s.clock b) ∧
      ∀ self, ∀ b ∈ Function.update readOrder owner (readOrder owner ++ [c]) self,
        Function.update s.since c s.clock b < s.clock + 1 := by
  have outside : ∀ self, ∀ b ∈ readOrder self, b ≠ c := by
    rintro self b member rfl
    have flag := ((lists.read.mem self b).mp member).2.2
    rw [unused] at flag
    cases flag
  have old : ∀ self, (readOrder self).Pairwise fun a b =>
      Function.update s.since c s.clock a < Function.update s.since c s.clock b := by
    intro self
    refine (lists.since self).imp_of_mem fun {a b} ha hb less => ?_
    rwa [Function.update_of_ne (outside self a ha), Function.update_of_ne (outside self b hb)]
  have bound : ∀ self, ∀ b ∈ readOrder self, Function.update s.since c s.clock b < s.clock := by
    intro self b member
    rw [Function.update_of_ne (outside self b member)]
    exact lists.clock self b member
  constructor
  · intro self
    by_cases here : self = owner
    · rw [here, Function.update_self, List.pairwise_append]
      refine ⟨old owner, List.pairwise_singleton .., fun a member b last => ?_⟩
      rw [List.mem_singleton.mp last, Function.update_self]
      exact bound owner a member
    · rw [Function.update_of_ne here]
      exact old self
  · intro self b member
    by_cases last : b = c
    · rw [last, Function.update_self]
      exact Nat.lt_succ_self _
    · refine Nat.lt_succ_of_lt (bound self b ?_)
      by_cases here : self = owner
      · subst here
        simpa [last] using member
      · rwa [Function.update_of_ne here] at member

theorem Lists.restamp {chanOrder readOrder writeOrder : Addr → List Addr}
    (lists : s.Lists chanOrder readOrder writeOrder) (unused : s.readLists.used c = false) :
    (∀ self, (readOrder self).Pairwise fun a b =>
        Function.update s.since c s.clock a < Function.update s.since c s.clock b) ∧
      ∀ self, ∀ b ∈ readOrder self, Function.update s.since c s.clock b < s.clock + 1 := by
  have more := lists.append unused
  constructor
  · intro self
    refine ((more self).1 self).sublist ?_
    rw [Function.update_self]
    exact List.sublist_append_left ..
  · intro self b member
    refine (more self).2 self b ?_
    rw [Function.update_self]
    exact List.mem_append_left _ member

theorem Registry.fill (registry : s.Registry) {ring : ChannelRing} (nonnull : c ≠ 0)
    (before : (s.ring c).useCount = 0) (after : ring.useCount ≠ 0) :
    Registry { s with
      ring := Function.update s.ring c ring
      since := Function.update s.since c s.clock
      clock := s.clock + 1
      readLists := if s.select c ≠ 0 then s.readLists.add (s.select c) c else s.readLists } := by
  obtain ⟨chanOrder, readOrder, writeOrder, lists⟩ := registry
  -- An empty ring is in no list for reading, so the channel goes to the end.
  have unused : s.readLists.used c = false := by
    rw [← Bool.not_eq_true, lists.readable]
    exact fun both => both.2 before
  by_cases outside : s.select c = 0
  · rw [if_neg (not_not.mpr outside)]
    obtain ⟨since, clock⟩ := lists.restamp unused
    refine ⟨chanOrder, readOrder, writeOrder, lists.registered, lists.chan, lists.read, lists.write,
      fun b => ?_, lists.writable, since, clock⟩
    show s.readLists.used b = true ↔ s.select b ≠ 0 ∧ (Function.update s.ring c ring b).useCount ≠ 0
    rw [lists.readable]
    refine and_congr_right fun member => ?_
    rw [Function.update_of_ne]
    rintro rfl
    exact member outside
  · rw [if_pos outside]
    have read := add_listed lists.read nonnull outside
    rw [if_neg (by simp [unused])] at read
    obtain ⟨since, clock⟩ := lists.append unused (s.select c)
    refine ⟨chanOrder, _, writeOrder, lists.registered, lists.chan, read, lists.write, fun b => ?_,
      lists.writable, since, clock⟩
    show (s.readLists.add (s.select c) c).used b = true ↔
      s.select b ≠ 0 ∧ (Function.update s.ring c ring b).useCount ≠ 0
    rw [used_add]
    by_cases here : b = c
    · subst here
      simp [after, outside]
    · rw [Function.update_of_ne here, Function.update_of_ne here]
      exact lists.readable b

/-! ## The operations -/

theorem Registry.setRing (registry : s.Registry) {ring : ChannelRing}
    (same : ring.useCount ≠ 0 ↔ (s.ring c).useCount ≠ 0) : (s.setRing c ring).Registry := by
  refine registry.congr rfl (fun _ _ => id) (fun _ _ => id) rfl rfl rfl rfl rfl fun b _ => ?_
  show (Function.update s.ring c ring b).useCount ≠ 0 ↔ _
  by_cases here : b = c
  · rw [here, Function.update_self]
    exact same
  · rw [Function.update_of_ne here]

theorem Registry.frame (registry : s.Registry) (pool : TaskPool) (calls : Addr → Call) (task : Addr → Addr)
    (peer : Addr → Addr) (refCount : Addr → Nat) (allocated : Addr → Bool) :
    Registry { s with pool, calls, task, peer, refCount, allocated } :=
  registry.congr rfl (fun _ _ => id) (fun _ _ => id) rfl rfl rfl rfl rfl fun _ _ => Iff.rfl

theorem Registry.taken (registry : s.Registry) (readable : s.isReadable self) {count : Nat}
    {message : List UInt8} : (s.taken self count message).Registry := by
  set ring := ((s.ring self).taken count message).withCount ((s.ring self).useCount - 1) with hring
  -- First the message and the list for reading, then the list for writing of the peer.
  have read : Registry { s with
      ring := Function.update s.ring self ring
      readLists := if s.select self ≠ 0 ∧ (s.ring self).useCount - 1 = 0 then
        s.readLists.del (s.select self) self else s.readLists } := by
    by_cases last : (s.ring self).useCount - 1 = 0
    · simpa [last] using @Registry.drain s self registry ring readable last
    · have same : ring.useCount ≠ 0 ↔ (s.ring self).useCount ≠ 0 := by simp [hring, last, readable]
      simpa [last, ChannelSystem.setRing] using @Registry.setRing s self registry ring same
  rw [taken_eq]
  by_cases full : ((s.ring self).useCount = (s.ring self).maxCount ∧ s.peer self ≠ 0) ∧
      s.select (s.peer self) ≠ 0
  · rw [if_pos full]
    exact (read.addWrite full.1.2 full.2).frame _ _ _ _ _ _
  · rw [if_neg full]
    exact read.frame _ _ _ _ _ _

theorem Registry.stored (registry : s.Registry) (nonnull : peer ≠ 0) {buffer : List UInt8} :
    (s.stored t self peer buffer).Registry := by
  set ring := ((s.ring peer).stored t buffer).withCount ((s.ring peer).useCount + 1) with hring
  have more : ring.useCount ≠ 0 := Nat.succ_ne_zero _
  have read : Registry { s with
      ring := Function.update s.ring peer ring
      since := if (s.ring peer).useCount = 0 then Function.update s.since peer s.clock else s.since
      clock := if (s.ring peer).useCount = 0 then s.clock + 1 else s.clock
      readLists := if (s.ring peer).useCount = 0 ∧ s.select peer ≠ 0 then
        s.readLists.add (s.select peer) peer else s.readLists } := by
    by_cases empty : (s.ring peer).useCount = 0
    · simpa [empty] using @Registry.fill s peer registry ring nonnull empty more
    · have same : ring.useCount ≠ 0 ↔ (s.ring peer).useCount ≠ 0 := by simp [more, empty]
      simpa [empty, ChannelSystem.setRing] using @Registry.setRing s peer registry ring same
  rw [stored_eq]
  by_cases full : s.select self ≠ 0 ∧ ¬ (s.ring peer).useCount + 1 < (s.ring peer).maxCount - 1
  · rw [if_pos full]
    exact (read.delWrite full.1).frame _ _ _ _ _ _
  · rw [if_neg full]
    exact read.frame _ _ _ _ _ _

theorem Lists.unused {chanOrder readOrder writeOrder : Addr → List Addr}
    (lists : s.Lists chanOrder readOrder writeOrder) (outside : s.select c = 0) :
    s.readLists.used c = false ∧ s.writeLists.used c = false := by
  constructor
  · rw [← Bool.not_eq_true, lists.readable]
    exact fun both => both.1 outside
  · rw [← Bool.not_eq_true]
    exact fun flag => lists.writable c flag outside

theorem Registry.registered (registry : s.Registry) (nonnull : c ≠ 0) (owner : self ≠ 0)
    (there : s.selectors self = true) (alive : s.alive c = true) (outside : s.select c = 0) :
    (s.registered t self c).Registry := by
  obtain ⟨chanOrder, readOrder, writeOrder, lists⟩ := registry
  obtain ⟨unread, unwrite⟩ := lists.unused outside
  set select := Function.update s.select c self with hselect
  have here : select c = self := Function.update_self ..
  have members : ∀ b, select b ≠ 0 → s.alive b = true ∧ s.selectors (select b) = true := by
    intro b member
    by_cases new : b = c
    · rw [new, here]
      exact ⟨alive, there⟩
    · rw [hselect, Function.update_of_ne new] at member ⊢
      exact lists.registered b member
  have chan := (lists.chan.add nonnull owner (.inr outside)).reflag (fun _ => true) fun b _ => by
    simp [Function.update_apply]
  have read := lists.read.reselect unread self
  have write := lists.write.reselect unwrite self
  have writable : ∀ b, s.writeLists.used b = true → select b ≠ 0 := by
    intro b flag
    have other : b ≠ c := by
      rintro rfl
      rw [unwrite] at flag
      cases flag
    rw [hselect, Function.update_of_ne other]
    exact lists.writable b flag
  -- Without the list for writing, which the channel may join in the end.
  have first : Registry { s with
      select
      task := Function.update s.task c t
      chanLists := s.chanLists.addTail self c
      since := if s.isReadable c then Function.update s.since c s.clock else s.since
      clock := if s.isReadable c then s.clock + 1 else s.clock
      readLists := if s.isReadable c then s.readLists.add self c else s.readLists } := by
    -- The channel joins the list for reading at once if there is something to read.
    by_cases readable : s.isReadable c
    · obtain ⟨since, clock⟩ := lists.append unread self
      have more := add_listed read nonnull (here ▸ owner : select c ≠ 0)
      rw [Function.update_self, if_neg (by simp [unread])] at more
      simp only [if_pos readable]
      refine ⟨_, _, writeOrder, members, chan, more, write, fun b => ?_, writable, since, clock⟩
      show (s.readLists.add self c).used b = true ↔ select b ≠ 0 ∧ (s.ring b).useCount ≠ 0
      rw [used_add]
      by_cases new : b = c
      · subst new
        simpa [here, owner] using readable
      · rw [Function.update_of_ne new, hselect, Function.update_of_ne new]
        exact lists.readable b
    · simp only [if_neg readable]
      refine ⟨_, readOrder, writeOrder, members, chan, read, write, fun b => ?_, writable, lists.since,
        lists.clock⟩
      show s.readLists.used b = true ↔ select b ≠ 0 ∧ (s.ring b).useCount ≠ 0
      by_cases new : b = c
      · subst new
        simpa [unread, here, owner] using readable
      · rw [hselect, Function.update_of_ne new]
        exact lists.readable b
  unfold ChannelSystem.registered
  by_cases writing : s.peer c ≠ 0 ∧ s.isSelectWritable (s.peer c)
  · have second := first.addWrite nonnull (here ▸ owner : select c ≠ 0)
    simp only [here] at second
    simpa only [if_pos writing] using second
  · simpa only [if_neg writing] using first

theorem Registry.unregistered (registry : s.Registry) (owner : self ≠ 0) (member : s.select c = self) :
    (s.unregistered self c).Registry := by
  obtain ⟨chanOrder, readOrder, writeOrder, lists⟩ := registry
  subst member
  have away : ∀ b, b ≠ c → Function.update s.select c 0 b = s.select b := fun b other =>
    Function.update_of_ne other ..
  -- The list of all members is not asked for a flag: registered channels are always in it.
  have chan := ((lists.chan.del owner rfl rfl).reselect (c := c) (by simp) 0).reflag (fun _ => true)
    fun b nonnull => by
      have other : b ≠ c := by
        rintro rfl
        exact nonnull (Function.update_self ..)
      rw [Function.update_of_ne other]
  have read := (del_listed lists.read owner).reselect (c := c) (by rw [used_del, Function.update_self]) 0
  have write := (del_listed lists.write owner).reselect (c := c) (by rw [used_del, Function.update_self]) 0
  have less : ∀ o, (if s.readLists.used c then
      Function.update readOrder (s.select c) ((readOrder (s.select c)).erase c) else readOrder) o |>.Sublist
        (readOrder o) := by
    intro o
    split
    · exact update_erase_sublist readOrder (s.select c) c o
    · exact List.Sublist.refl _
  refine ⟨_, _, _, fun b nonnull => ?_, chan, read, write, fun b => ?_, fun b => ?_,
    fun o => (lists.since o).sublist (less o), fun o b inside => lists.clock o b ((less o).subset inside)⟩
  · have other : b ≠ c := by
      rintro rfl
      exact nonnull (Function.update_self ..)
    simp only [ChannelSystem.unregistered, away b other] at nonnull ⊢
    exact lists.registered b nonnull
  · show (s.readLists.del (s.select c) c).used b = true ↔ Function.update s.select c 0 b ≠ 0 ∧ s.isReadable b
    rw [used_del]
    by_cases here : b = c
    · simp [here]
    · rw [Function.update_of_ne here, away b here]
      exact lists.readable b
  · show (s.writeLists.del (s.select c) c).used b = true → Function.update s.select c 0 b ≠ 0
    rw [used_del]
    by_cases here : b = c
    · simp [here]
    · rw [Function.update_of_ne here, away b here]
      exact lists.writable b

theorem Registry.initChannel (registry : s.Registry) (dead : s.alive c = false) (ring : ChannelRing) :
    (s.initChannel c peer ring).Registry := by
  obtain ⟨chanOrder, readOrder, writeOrder, lists⟩ := registry
  have outside : s.select c = 0 := by
    by_contra member
    rw [(lists.registered c member).1] at dead
    cases dead
  obtain ⟨unread, unwrite⟩ := lists.unused outside
  have other : ∀ b, s.select b ≠ 0 → b ≠ c := by
    rintro b member rfl
    exact member outside
  refine Registry.congr ⟨chanOrder, readOrder, writeOrder, lists⟩ ?_ (fun b member alive => ?_) (fun _ _ => id)
    rfl ?_ ?_ rfl rfl fun b member => ?_
  · simp [ChannelSystem.initChannel, ← outside]
  · simpa [ChannelSystem.initChannel, other b member] using alive
  · simp [ChannelSystem.initChannel, ← unread]
  · simp [ChannelSystem.initChannel, ← unwrite]
  · simp [ChannelSystem.initChannel, other b member]

theorem Registry.destroyed (registry : s.Registry) (outside : s.select c = 0) : (s.destroyed c).Registry := by
  refine registry.congr rfl (fun b member alive => ?_) (fun _ _ => id) rfl rfl rfl rfl rfl fun _ _ => Iff.rfl
  have other : b ≠ c := by
    rintro rfl
    exact member outside
  simpa [ChannelSystem.destroyed, other] using alive

theorem Listed.list_eq (listed : Listed family select used order) (free : ∀ c, select c ≠ self) :
    family.list self = ⟨0, 0⟩ := by
  have empty : order self = [] := by
    rw [List.eq_nil_iff_forall_not_mem]
    intro b member
    exact free b ((listed.mem self b).mp member).2.1
  have holds := listed.holds.each self
  rw [empty] at holds
  exact holds.eq_nil

theorem Registry.made (registry : s.Registry) (nonnull : self ≠ 0) (fresh : s.selectors self = false) :
    (s.made self).Registry := by
  obtain ⟨chanOrder, readOrder, writeOrder, lists⟩ := registry
  have free : ∀ c, s.select c ≠ self := by
    rintro c rfl
    rw [(lists.registered c nonnull).2] at fresh
    cases fresh
  refine Registry.congr ⟨chanOrder, readOrder, writeOrder, lists⟩ rfl (fun _ _ => id)
    (fun b member there => ?_) ?_ ?_ ?_ rfl rfl fun _ _ => Iff.rfl
  · simpa [ChannelSystem.made, free b] using there
  · simp [ChannelSystem.made, ← lists.chan.list_eq free]
  · simp [ChannelSystem.made, ← lists.read.list_eq free]
  · simp [ChannelSystem.made, ← lists.write.list_eq free]

theorem Registry.selectDestroy (registry : s.Registry) (free : ∀ c, s.select c ≠ self) :
    Registry { s with selectors := Function.update s.selectors self false } := by
  refine registry.congr rfl (fun _ _ => id) (fun b _ there => ?_) rfl rfl rfl rfl rfl fun _ _ => Iff.rfl
  simpa [free b] using there

end HevTaskSystem.ChannelSystem
