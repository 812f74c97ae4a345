import HevTaskSystem.Memory.SliceCache

/-! Who owns the blocks of libc: the caller of the slice allocator, or one of its lists.

Every operation moves blocks between libc, the caller and the lists, one at a time. A
`realloc` of libc that frees its block and returns NULL, as it may when it is asked for no
bytes at all, is not such a move: the caller goes on holding a block that is gone.
-/

set_option autoImplicit false

namespace HevTaskSystem

open Foundation

/-! ## Sizes -/

def Slice.Sized (slice : Slice) : Prop :=
  slice.index < Slice.maxIndex ∧ (0 ≤ slice.index → (slice.index.toNat + 1) * Slice.align ≤ slice.capacity)

theorem Slice.uncached_sized (next : Addr) (capacity : Nat) : Slice.Sized ⟨next, -1, capacity⟩ :=
  ⟨show (-1 : Int) < maxIndex by decide, fun above => absurd above (show ¬ (0 : Int) ≤ -1 by decide)⟩

theorem Slice.indexOf_le {size : Nat} (positive : 1 ≤ indexOf size) : (indexOf size).toNat ≤ size / align := by
  unfold indexOf at positive ⊢
  generalize size / align = units at *
  rw [Int.bmod_def] at positive ⊢
  by_cases small : (units : Int) % (2 ^ 32 : Nat) < ((2 ^ 32 : Nat) + 1) / 2
  · rw [if_pos small]
    omega
  · rw [if_neg small] at positive
    omega

theorem Slice.cached_sized {size : Nat} (next : Addr) (cached : Cached (indexOf (alignUp size))) :
    Slice.Sized ⟨next, indexOf (alignUp size) - 1, request (alignUp size) - headerSize⟩ := by
  obtain ⟨positive, above⟩ := cached
  have units := indexOf_le positive
  have bound : alignUp size ≤ 2 ^ 64 - 16 := Nat.and_le_right
  have other : alignUp size ≠ 2 ^ 64 - 16 := by
    intro same
    rw [same] at positive
    exact absurd positive (by decide)
  have room : request (alignUp size) = 16 + alignUp size := Nat.mod_eq_of_lt (by unfold headerSize; omega)
  refine ⟨by dsimp only; omega, fun _ => ?_⟩
  dsimp only
  rw [room]
  unfold align headerSize at *
  omega

/-- The block was in no list when it was passed to `free`. -/
def FreeCall.Clean (call : FreeCall) : Prop :=
  ∀ i nodes, Chain (SliceAllocator.linkOf call.blocks) 0 (call.mslices i) nodes → call.block ∉ nodes

namespace SliceAllocator

variable {maxCount : Nat} {mem next : SliceAllocator} {held : List Addr} {lists : Nat → List Addr} {order : List Addr}
  {a : Addr} {slice : Slice} {i : Nat} {rest : List Addr}

/-! ## Owners -/

/-- Every block that libc has handed out is held by the caller or in a list, and in one
place only. -/
structure Owned (maxCount : Nat) (mem : SliceAllocator) (held : List Addr) (lists : Nat → List Addr)
    (order : List Addr) : Prop where
  caches : mem.Caches maxCount lists order
  nodup : held.Nodup
  live : ∀ a, (∃ slice, mem.blocks a = some slice) ↔ a ∈ held ∨ ∃ i, a ∈ lists i
  apart : ∀ a ∈ held, ∀ i, a ∉ lists i
  sized : ∀ a slice, mem.blocks a = some slice → a ≠ 0 ∧ slice.Sized
  ledger : mem.libc.Sound
  agree : ∀ a, mem.libc.number a = none ↔ mem.blocks a = none

theorem obtain_self {size : Nat} {index : Int} : (mem.obtain a size index).blocks a =
    some ⟨0, index, Slice.request size - Slice.headerSize⟩ := Function.update_self ..

theorem Owned.obtain {size : Nat} {index : Int} (owned : mem.Owned maxCount held lists order) (nonnull : a ≠ 0)
    (fresh : mem.blocks a = none) (sized : Slice.Sized ⟨0, index, Slice.request size - Slice.headerSize⟩) :
    (mem.obtain a size index).Owned maxCount (held ++ [a]) lists order := by
  -- libc hands out a block that nobody has.
  have outside : a ∉ held ∧ ∀ i, a ∉ lists i := by
    have none : ¬ ∃ slice, mem.blocks a = some slice := by simp [fresh]
    rw [owned.live] at none
    exact ⟨fun member => none (.inl member), fun i member => none (.inr ⟨i, member⟩)⟩
  refine ⟨owned.caches.setBlock outside.2 _ _ _, ?_, fun b => ?_, fun b member => ?_, fun b slice found => ?_,
    owned.ledger.give ((owned.agree a).mpr fresh), fun b => ?_⟩
  · exact owned.nodup.append (List.nodup_singleton a) (List.disjoint_singleton.mpr outside.1)
  · by_cases here : b = a
    · subst here
      simp [SliceAllocator.obtain]
    · rw [List.mem_append, List.mem_singleton, or_iff_left here, ← owned.live]
      simp [SliceAllocator.obtain, here]
  · rcases List.mem_append.mp member with member | member
    · exact owned.apart b member
    · exact List.mem_singleton.mp member ▸ outside.2
  · by_cases here : b = a
    · subst here
      obtain rfl := Option.some.inj (obtain_self.symm.trans found)
      exact ⟨nonnull, sized⟩
    · exact owned.sized b slice ((Function.update_of_ne here ..).symm.trans found)
  · by_cases here : b = a
    · subst here
      simp [SliceAllocator.obtain, Ledger.give]
    · simpa [SliceAllocator.obtain, Ledger.give, here] using owned.agree b

theorem Owned.giveBack (owned : mem.Owned maxCount held lists order) (member : a ∈ held) (frees : List FreeCall) :
    ∃ libc, mem.libc.take a = some libc ∧ libc.given = mem.libc.given ∧
      Owned maxCount { mem with blocks := Function.update mem.blocks a none, libc, frees } (held.erase a) lists order := by
  obtain ⟨slice, found⟩ := (owned.live a).mpr (.inl member)
  have numbered : mem.libc.number a ≠ none := by simp [owned.agree, found]
  obtain ⟨n, number⟩ := Option.ne_none_iff_exists'.mp numbered
  have taken := Ledger.take_eq number
  refine ⟨_, taken, rfl, owned.caches.setBlock (owned.apart a member) _ _ _, owned.nodup.erase a, fun b => ?_,
    fun b inside => owned.apart b (List.mem_of_mem_erase inside), fun b slice found => ?_, owned.ledger.take taken,
    fun b => ?_⟩
  · rw [owned.nodup.mem_erase_iff]
    by_cases here : b = a
    · subst here
      simp [owned.apart b member]
    · simpa [here] using owned.live b
  · have here : b ≠ a := by
      rintro rfl
      simp at found
    exact owned.sized b slice ((Function.update_of_ne here ..).symm.trans found)
  · by_cases here : b = a
    · subst here
      simp
    · simpa [here] using owned.agree b

theorem Owned.taken {order' : List Addr} (owned : mem.Owned maxCount held lists order) (split : lists i = a :: rest)
    (blocks : next.blocks = mem.blocks) (libc : next.libc = mem.libc)
    (caches : next.Caches maxCount (Function.update lists i rest) order') :
    next.Owned maxCount (held ++ [a]) (Function.update lists i rest) order' := by
  have first : a ∈ lists i := split ▸ List.mem_cons_self
  have nodup := List.nodup_cons.mp (split ▸ owned.caches.ok.nodup i)
  have old : ∀ b j, b ∈ Function.update lists i rest j ↔ b ≠ a ∧ b ∈ lists j := by
    intro b j
    by_cases here : j = i
    · subst here
      rw [Function.update_self, split, List.mem_cons]
      refine ⟨fun member => ⟨ne_of_mem_of_not_mem member nodup.1, .inr member⟩, ?_⟩
      rintro ⟨other, member⟩
      exact member.resolve_left other
    · rw [Function.update_of_ne here]
      refine (and_iff_right_of_imp fun member => ?_).symm
      rintro rfl
      exact here (owned.caches.ok.apart member first)
  refine ⟨caches, ?_, fun b => ?_, fun b member j inside => ?_, fun b slice found => owned.sized b slice (blocks ▸ found),
    libc ▸ owned.ledger, fun b => by rw [blocks, libc, owned.agree]⟩
  · refine owned.nodup.append (List.nodup_singleton a) (List.disjoint_singleton.mpr fun member => ?_)
    exact owned.apart a member i first
  · simp only [blocks, owned.live, old, List.mem_append, List.mem_singleton]
    by_cases here : b = a
    · subst here
      simp only [or_true, true_or, iff_true]
      exact .inr ⟨i, first⟩
    · simp [here]
  · obtain ⟨other, inside⟩ := (old b j).mp inside
    rcases List.mem_append.mp member with member | member
    · exact owned.apart b member j inside
    · exact other (List.mem_singleton.mp member)

theorem push_fields (mem : SliceAllocator) (a : Addr) (slice : Slice) :
    (mem.push a slice).blocks =
        Function.update mem.blocks a (some { slice with next := mem.cachedMslices slice.index.toNat }) ∧
      (mem.push a slice).libc = mem.libc ∧ (mem.push a slice).frees = mem.frees := by
  unfold SliceAllocator.push
  dsimp only
  split
  · exact ⟨rfl, rfl, rfl⟩
  · exact ⟨rfl, rfl, rfl⟩

theorem Owned.push (owned : mem.Owned maxCount held lists order) (space : mem.cachedCount < maxCount)
    (member : a ∈ held) (found : mem.blocks a = some slice) (cached : 0 ≤ slice.index) :
    ∃ lists' order', (mem.push a slice).Owned maxCount (held.erase a) lists' order' := by
  obtain ⟨nonnull, below, room⟩ := owned.sized a slice found
  obtain ⟨i, index⟩ : ∃ i : Nat, slice.index = i := ⟨slice.index.toNat, by omega⟩
  have number : slice.index.toNat = i := by omega
  obtain ⟨order', caches⟩ := owned.caches.push space nonnull (owned.apart a member) index (by omega)
    (number ▸ room cached)
  have new : ∀ b j, b ∈ Function.update lists i (a :: lists i) j ↔ (b = a ∧ j = i) ∨ b ∈ lists j := by
    intro b j
    by_cases here : j = i
    · subst here
      simp
    · simp [here]
  obtain ⟨blocks, libc, _⟩ := mem.push_fields a slice
  refine ⟨_, order', caches, owned.nodup.erase a, fun b => ?_, fun b inside j listed => ?_, fun b other found' => ?_,
    libc ▸ owned.ledger, fun b => ?_⟩
  · rw [blocks, owned.nodup.mem_erase_iff]
    simp only [new]
    by_cases here : b = a
    · subst here
      simp
    · simpa [here] using owned.live b
  · obtain ⟨other, inside⟩ := owned.nodup.mem_erase_iff.mp inside
    rcases (new b j).mp listed with ⟨here, _⟩ | listed
    · exact other here
    · exact owned.apart b inside j listed
  · rw [blocks] at found'
    by_cases here : b = a
    · subst here
      rw [Function.update_self, Option.some.injEq] at found'
      subst found'
      exact ⟨nonnull, below, room⟩
    · exact owned.sized b other ((Function.update_of_ne here ..).symm.trans found')
  · rw [blocks, libc, owned.agree]
    by_cases here : b = a
    · subst here
      simp [found]
    · rw [Function.update_of_ne here]

/-! ## Operations -/

theorem Owned.libcFree (owned : mem.Owned maxCount held lists order) (member : a ∈ held) :
    ∃ next, mem.libcFree a = some next ∧ next.Owned maxCount (held.erase a) lists order ∧
      next.frees = mem.frees ++ [⟨a, mem.cachedMslices, mem.blocks⟩] ∧
      FreeCall.Clean ⟨a, mem.cachedMslices, mem.blocks⟩ ∧ next.cachedCount = mem.cachedCount ∧
      next.blocks = Function.update mem.blocks a none := by
  obtain ⟨libc, taken, _, owned'⟩ := owned.giveBack member (mem.frees ++ [⟨a, mem.cachedMslices, mem.blocks⟩])
  refine ⟨_, ?_, owned', rfl, fun i nodes chain => ?_, rfl, rfl⟩
  · simp only [SliceAllocator.libcFree, SliceAllocator.giveBack, taken, Option.bind_eq_bind, Option.bind_some]
    rfl
  · rw [chain.unique (owned.caches.ok.chain i)]
    exact owned.apart a member i

theorem Owned.evict (owned : mem.Owned maxCount held lists order) (full : maxCount ≤ mem.cachedCount)
    (positive : 0 < maxCount) :
    ∃ next lists' order' call, mem.evict = some next ∧ next.Owned maxCount held lists' order' ∧
      next.cachedCount < maxCount ∧ next.frees = mem.frees ++ [call] ∧
      call.block = mem.cachedMslices (mem.lru.tail - 1) ∧ call.Clean ∧ call.block ∉ held ∧
      ∀ b ∈ held, next.blocks b = mem.blocks b := by
  obtain ⟨nonnull, some, _⟩ := owned.caches.tail (by omega)
  have head := mt (owned.caches.ok.chain _).nil_iff.mpr some
  obtain ⟨slice, rest, split, found, _, _, last⟩ := owned.caches.ok.first head
  set i := mem.lru.tail - 1 with hi
  set a := mem.cachedMslices i with ha
  have outside : a ∉ held := fun member => owned.apart a member i (split ▸ List.mem_cons_self)
  obtain ⟨order', dropped⟩ := owned.caches.drop split found last
  set mid := if (mem.pop i slice).cachedMslices i = 0 then (mem.pop i slice).removeNode i else mem.pop i slice
    with hmid
  have fields : mid.blocks = mem.blocks ∧ mid.libc = mem.libc ∧ mid.frees = mem.frees ∧
      mid.cachedCount = mem.cachedCount - 1 := by
    rw [hmid]
    split
    · exact ⟨rfl, rfl, rfl, rfl⟩
    · exact ⟨rfl, rfl, rfl, rfl⟩
  obtain ⟨blocks, libc, frees, count⟩ := fields
  -- Between the list and libc the block counts as the caller's.
  have taken := owned.taken split blocks libc dropped
  obtain ⟨next, run, owned', log, clean, count', after⟩ := taken.libcFree (a := a) (by simp)
  have same : (held ++ [a]).erase a = held := by
    rw [List.erase_append_right _ outside, List.erase_cons_head, List.append_nil]
  rw [same] at owned'
  refine ⟨next, _, order', _, ?_, owned', ?_, frees ▸ log, rfl, clean, outside, fun b member => ?_⟩
  · simp only [SliceAllocator.evict, if_neg nonnull, Option.bind_eq_bind]
    rw [← hi, ← ha, found, Option.bind_some]
    exact run
  · have bound := owned.caches.bound
    omega
  · rw [after, blocks]
    exact Function.update_of_ne (ne_of_mem_of_not_mem member outside) ..

/-- The blocks that a `free` passes on to libc. -/
def passedOn (maxCount : Nat) (mem : SliceAllocator) (ptr : Addr) (slice : Slice) : List Addr :=
  if slice.index < 0 then [ptr]
  else if maxCount ≤ mem.cachedCount then [mem.cachedMslices (mem.lru.tail - 1)]
  else []

theorem Owned.free (owned : mem.Owned maxCount held lists order) (positive : 0 < maxCount) (member : a ∈ held)
    (found : mem.blocks a = some slice) :
    ∃ next lists' order' calls, mem.free maxCount a = some next ∧ next.Owned maxCount (held.erase a) lists' order' ∧
      next.frees = mem.frees ++ calls ∧ (∀ call ∈ calls, call.Clean ∧ call.block ∉ held.erase a) ∧
      calls.map FreeCall.block = mem.passedOn maxCount a slice := by
  obtain ⟨nonnull, below, _⟩ := owned.sized a slice found
  have gone : a ∉ held.erase a := fun inside => (owned.nodup.mem_erase_iff.mp inside).1 rfl
  simp only [SliceAllocator.free, passedOn, found, Option.bind_eq_bind, Option.bind_some]
  by_cases uncached : slice.index < 0
  · obtain ⟨next, run, owned', log, clean, _⟩ := owned.libcFree member
    rw [if_pos uncached, if_pos uncached]
    refine ⟨next, lists, order, _, run, owned', log, fun call here => ?_, rfl⟩
    obtain rfl := List.mem_singleton.mp here
    exact ⟨clean, gone⟩
  · rw [if_neg uncached, if_pos below, if_neg uncached]
    by_cases full : maxCount ≤ mem.cachedCount
    -- The eviction makes room for the block itself.
    · obtain ⟨mid, lists', order', call, run, owned', space, log, block, clean, outside, same⟩ :=
        owned.evict full positive
      obtain ⟨lists'', order'', pushed⟩ := owned'.push space member ((same a member).trans found) (by omega)
      refine ⟨mid.push a slice, lists'', order'', [call], ?_, pushed, ?_, fun call' here => ?_, ?_⟩
      · rw [if_pos full, run]
        rfl
      · rw [(mid.push_fields a slice).2.2, log]
      · obtain rfl := List.mem_singleton.mp here
        exact ⟨clean, fun inside => outside (List.mem_of_mem_erase inside)⟩
      · rw [if_pos full, ← block]
        rfl
    · obtain ⟨lists', order', pushed⟩ := owned.push (Nat.lt_of_not_le full) member found (by omega)
      refine ⟨mem.push a slice, lists', order', [], ?_, pushed, ?_, fun call here => absurd here List.not_mem_nil, ?_⟩
      · rw [if_neg full]
        rfl
      · rw [(mem.push_fields a slice).2.2, List.append_nil]
      · rw [if_neg full]
        rfl

theorem Owned.alloc {answer : Option Addr} (owned : mem.Owned maxCount held lists order) (size : Nat)
    (fresh : ∀ a, answer = some a → a ≠ 0 ∧ mem.blocks a = none) :
    ∃ next ptr lists' order', mem.alloc size answer = some (next, ptr) ∧
      next.Owned maxCount (if ptr ≠ 0 then held ++ [ptr] else held) lists' order' ∧ next.frees = mem.frees := by
  -- What comes from libc, with either index.
  have asked : ∀ index, Slice.Sized ⟨0, index, Slice.request (Slice.alignUp size) - Slice.headerSize⟩ →
      ∃ next ptr lists' order', (answer.elim (some (mem, 0)) fun slice =>
          some (mem.obtain slice (Slice.alignUp size) index, slice)) = some (next, ptr) ∧
        next.Owned maxCount (if ptr ≠ 0 then held ++ [ptr] else held) lists' order' ∧ next.frees = mem.frees := by
    intro index sized
    cases answer with
    | none => exact ⟨mem, 0, lists, order, rfl, by simpa using owned, rfl⟩
    | some a =>
      obtain ⟨nonnull, free⟩ := fresh a rfl
      refine ⟨_, a, lists, order, rfl, ?_, rfl⟩
      rw [if_pos nonnull]
      exact owned.obtain nonnull free sized
  unfold SliceAllocator.alloc
  dsimp only
  by_cases zero : Slice.indexOf (Slice.alignUp size) = 0
  · rw [if_pos zero]
    exact ⟨mem, 0, lists, order, rfl, by simpa using owned, rfl⟩
  · rw [if_neg zero]
    by_cases cached : Slice.Cached (Slice.indexOf (Slice.alignUp size))
    · rw [if_pos cached]
      set i := (Slice.indexOf (Slice.alignUp size) - 1).toNat with hi
      by_cases hit : mem.cachedMslices i ≠ 0
      · obtain ⟨slice, rest, split, found, _, _, last⟩ := owned.caches.ok.first hit
        obtain ⟨order', caches⟩ := owned.caches.hit split found last
        rw [if_pos hit]
        simp only [found, Option.bind_eq_bind, Option.bind_some]
        refine ⟨_, mem.cachedMslices i, Function.update lists i rest, order', rfl, ?_, ?_⟩
        · rw [if_pos hit]
          refine owned.taken split ?_ ?_ caches
          · split <;> rfl
          · split <;> rfl
        · split <;> rfl
      · rw [if_neg hit]
        have got := asked _ (Slice.cached_sized 0 cached)
        cases answer <;> exact got
    · rw [if_neg cached]
      have got := asked _ (Slice.uncached_sized 0 _)
      cases answer <;> exact got

theorem Owned.realloc {size : Nat} {answer : Option Addr} {drops : Bool} (owned : mem.Owned maxCount held lists order)
    (positive : 0 < maxCount) (member : a ∈ held)
    (fresh : ∀ b, answer = some b → b ≠ 0 ∧ (b = a ∨ mem.blocks b = none))
    (keeps : ¬ (answer = none ∧ drops ∧ Slice.request (Slice.alignUp size) = 0)) :
    ∃ next result lists' order' calls, mem.realloc maxCount a size answer drops = some (next, result) ∧
      next.Owned maxCount (if result ≠ 0 then held.erase a ++ [result] else if size = 0 then held.erase a else held)
        lists' order' ∧
      next.frees = mem.frees ++ calls ∧ (∀ call ∈ calls, call.Clean ∧ call.block ∉ held.erase a) ∧
      (calls = [] ∨ size = 0 ∧ result = 0) := by
  obtain ⟨slice, found⟩ := (owned.live a).mpr (.inl member)
  unfold SliceAllocator.realloc
  by_cases zero : size = 0
  · obtain ⟨next, lists', order', calls, run, owned', log, clean, _⟩ := owned.free positive member found
    rw [if_pos zero, run]
    refine ⟨next, 0, lists', order', calls, rfl, ?_, log, clean, .inr ⟨zero, rfl⟩⟩
    rw [if_neg (not_not.mpr rfl), if_pos zero]
    exact owned'
  · rw [if_neg zero]
    cases answer with
    | none =>
      have kept : ¬ (drops = true ∧ Slice.request (Slice.alignUp size) = 0) := fun h => keeps ⟨rfl, h⟩
      dsimp only
      rw [if_neg kept]
      refine ⟨mem, 0, lists, order, [], rfl, ?_, (List.append_nil _).symm, fun _ here => absurd here List.not_mem_nil,
        .inl rfl⟩
      rw [if_neg (not_not.mpr rfl), if_neg zero]
      exact owned
    | some b =>
      obtain ⟨nonnull, free⟩ := fresh b rfl
      -- libc has moved the block: it takes the old one back and hands out one that may be the same.
      obtain ⟨libc, taken, _, owned'⟩ := owned.giveBack member mem.frees
      set mid : SliceAllocator := { mem with blocks := Function.update mem.blocks a none, libc } with hmid
      have back : mem.giveBack a = some mid := by
        simp only [SliceAllocator.giveBack, taken, Option.bind_eq_bind, Option.bind_some]
        rfl
      have room : mid.blocks b = none := by
        by_cases same : b = a
        · subst same
          exact Function.update_self ..
        · exact (Function.update_of_ne same ..).trans (free.resolve_left same)
      have sized : Slice.Sized ⟨0, if Slice.Cached (Slice.indexOf (Slice.alignUp size)) then
          Slice.indexOf (Slice.alignUp size) - 1 else -1,
          Slice.request (Slice.alignUp size) - Slice.headerSize⟩ := by
        split
        · exact Slice.cached_sized 0 ‹_›
        · exact Slice.uncached_sized 0 _
      have got := owned'.obtain nonnull room sized
      simp only [back, Option.bind_eq_bind, Option.bind_some]
      refine ⟨_, b, lists, order, [], rfl, ?_, (List.append_nil _).symm, fun _ here => absurd here List.not_mem_nil,
        .inl rfl⟩
      rw [if_pos nonnull]
      exact got

/-! ## The end of the allocator -/

structure Freed (mem next : SliceAllocator) (gone : List Addr) : Prop where
  blocks : ∀ b, next.blocks b = if b ∈ gone then none else mem.blocks b
  number : ∀ b, b ∉ gone → next.libc.number b = mem.libc.number b
  given : next.libc.given = mem.libc.given
  mslices : next.cachedMslices = mem.cachedMslices
  nodes : next.lruNodes = mem.lruNodes
  sound : mem.libc.Sound → next.libc.Sound
  agree : (∀ b, mem.libc.number b = none ↔ mem.blocks b = none) →
    ∀ b, next.libc.number b = none ↔ next.blocks b = none

variable {mid : SliceAllocator} {gone : List Addr}

theorem Freed.refl (mem : SliceAllocator) : Freed mem mem [] :=
  ⟨fun _ => rfl, fun _ _ => rfl, rfl, rfl, rfl, id, id⟩

theorem Freed.trans (first : Freed mem mid gone) (second : Freed mid next rest) : Freed mem next (gone ++ rest) := by
  refine ⟨fun b => ?_, fun b outside => ?_, second.given.trans first.given, second.mslices.trans first.mslices,
    second.nodes.trans first.nodes, fun sound => second.sound (first.sound sound),
    fun agree => second.agree (first.agree agree)⟩
  · rw [second.blocks, first.blocks]
    by_cases late : b ∈ rest
    · simp [late]
    · by_cases early : b ∈ gone
      · simp [early]
      · simp [late, early]
  · rw [List.mem_append, not_or] at outside
    rw [second.number b outside.2, first.number b outside.1]

theorem libcFree_freed (agree : ∀ b, mem.libc.number b = none ↔ mem.blocks b = none)
    (found : mem.blocks a = some slice) : ∃ next, mem.libcFree a = some next ∧ Freed mem next [a] := by
  have numbered : mem.libc.number a ≠ none := by simp [agree, found]
  obtain ⟨n, number⟩ := Option.ne_none_iff_exists'.mp numbered
  have taken := Ledger.take_eq number
  refine ⟨{ mem with
      blocks := Function.update mem.blocks a none
      libc := ⟨mem.libc.given, mem.libc.back ++ [n], Function.update mem.libc.number a none⟩
      frees := mem.frees ++ [⟨a, mem.cachedMslices, mem.blocks⟩] }, ?_, fun b => ?_, fun b outside => ?_, rfl, rfl, rfl,
    fun sound => sound.take taken, fun agree b => ?_⟩
  · simp only [SliceAllocator.libcFree, SliceAllocator.giveBack, taken, Option.bind_eq_bind, Option.bind_some]
    rfl
  · simp only [Function.update_apply, List.mem_singleton]
  · exact Function.update_of_ne (by simpa using outside) ..
  · by_cases here : b = a
    · subst here
      simp
    · simpa [here] using agree b

theorem destroyList_freed {fuel : Nat} {iter : Addr} {nodes : List Addr}
    (agree : ∀ b, mem.libc.number b = none ↔ mem.blocks b = none) (chain : Chain (linkOf mem.blocks) 0 iter nodes)
    (nodup : nodes.Nodup) (live : ∀ a ∈ nodes, ∃ slice, mem.blocks a = some slice) (bound : nodes.length < fuel) :
    ∃ next, mem.destroyList fuel iter = some next ∧ Freed mem next nodes := by
  unfold SliceAllocator.destroyList
  induction nodes generalizing mem iter fuel with
  | nil =>
    obtain ⟨fuel, rfl⟩ : ∃ k, fuel = k + 1 := ⟨fuel - 1, by simp at bound; omega⟩
    have null : iter = 0 := chain
    exact ⟨mem, loop_succ_of_done (by simp [null]), .refl mem⟩
  | cons a rest ih =>
    obtain ⟨fuel, rfl⟩ : ∃ k, fuel = k + 1 := ⟨fuel - 1, by simp at bound; omega⟩
    obtain ⟨rfl, nonnull, tail⟩ := chain
    obtain ⟨slice, found⟩ := live iter List.mem_cons_self
    obtain ⟨fresh, nodup⟩ := List.nodup_cons.mp nodup
    obtain ⟨mid, run, freed⟩ := libcFree_freed agree found
    have others : ∀ b ∈ rest, mid.blocks b = mem.blocks b := fun b member => by
      rw [freed.blocks, if_neg]
      simpa using ne_of_mem_of_not_mem member fresh
    have next : linkOf mem.blocks iter = slice.next := by simp [linkOf, found]
    rw [next] at tail
    -- The link was read before the slice was freed, and the rest of the list is still there.
    have tail' : Chain (linkOf mid.blocks) 0 slice.next rest :=
      tail.congr fun b member => by simp [linkOf, others b member]
    obtain ⟨final, run', freed'⟩ := @ih mid fuel slice.next (freed.agree agree) tail' nodup
      (fun b member => by
        rw [others b member]
        exact live b (List.mem_cons_of_mem _ member)) (by simpa using bound)
    refine ⟨final, (loop_succ_of_next ?_).trans run', freed.trans freed'⟩
    simp [nonnull, found, run]

theorem destroy_freed {inner fuel : Nat} {before : Addr} {nodes : List Addr}
    (agree : ∀ b, mem.libc.number b = none ↔ mem.blocks b = none)
    (linked : Linked mem.lruNodes.next mem.lruNodes.prev before 0 nodes) (nodup : nodes.Nodup) (nonnull : 0 ∉ nodes)
    (chain : ∀ n ∈ nodes, Chain (linkOf mem.blocks) 0 (mem.cachedMslices (n - 1)) (lists (n - 1)))
    (unique : ∀ n ∈ nodes, (lists (n - 1)).Nodup)
    (live : ∀ n ∈ nodes, ∀ a ∈ lists (n - 1), ∃ slice, mem.blocks a = some slice)
    (apart : ∀ m ∈ nodes, ∀ n ∈ nodes, ∀ a, a ∈ lists (m - 1) → a ∈ lists (n - 1) → m = n)
    (enough : ∀ n ∈ nodes, (lists (n - 1)).length < inner) (bound : nodes.length < fuel) :
    ∃ next, loop (fun (s : SliceAllocator × Addr) => do
        if s.2 = 0 then
          return .done s.1
        else
          let self ← s.1.destroyList inner (s.1.cachedMslices (s.2 - 1))
          return .next (self, self.lruNodes.next s.2)) fuel (mem, nodes.headD 0) = some next ∧
      Freed mem next (nodes.flatMap fun n => lists (n - 1)) := by
  induction nodes generalizing mem before fuel with
  | nil =>
    obtain ⟨fuel, rfl⟩ : ∃ k, fuel = k + 1 := ⟨fuel - 1, by simp at bound; omega⟩
    exact ⟨mem, loop_succ_of_done (by simp), .refl mem⟩
  | cons n rest ih =>
    obtain ⟨fuel, rfl⟩ : ∃ k, fuel = k + 1 := ⟨fuel - 1, by simp at bound; omega⟩
    obtain ⟨_, next, linked⟩ := linked
    obtain ⟨fresh, nodup⟩ := List.nodup_cons.mp nodup
    have here : n ∈ n :: rest := List.mem_cons_self
    have later : ∀ m ∈ rest, m ∈ n :: rest := fun m member => List.mem_cons_of_mem n member
    have nonnull' : n ≠ 0 := fun null => nonnull (null ▸ here)
    obtain ⟨mid, run, freed⟩ := destroyList_freed agree (chain n here) (unique n here) (live n here) (enough n here)
    -- The lists of the other classes have not been touched.
    have others : ∀ m ∈ rest, ∀ a ∈ lists (m - 1), mid.blocks a = mem.blocks a := by
      intro m member a listed
      rw [freed.blocks, if_neg]
      intro inside
      exact fresh (apart m (later m member) n here a listed inside ▸ member)
    obtain ⟨final, run', freed'⟩ := @ih mid fuel n (freed.agree agree) (by rw [freed.nodes]; exact linked) nodup
      (fun zero => nonnull (later 0 zero))
      (fun m member => by
        rw [freed.mslices]
        exact (chain m (later m member)).congr fun a listed => by simp [linkOf, others m member a listed])
      (fun m member => unique m (later m member))
      (fun m member a listed => by
        rw [others m member a listed]
        exact live m (later m member) a listed)
      (fun m first m' second => apart m (later m first) m' (later m' second))
      (fun m member => enough m (later m member)) (by simpa using bound)
    refine ⟨final, (loop_succ_of_next ?_).trans run', freed.trans freed'⟩
    simp [nonnull', run, freed.nodes, next]

/-- After the end the caller's blocks are all that is left, and every other one has been
taken back once. -/
theorem Owned.destroy (owned : mem.Owned maxCount held lists order) :
    ∃ bound, ∀ fuel, bound < fuel → ∃ next, mem.destroy fuel = some next ∧
      (∀ a, (∃ slice, next.blocks a = some slice) ↔ a ∈ held) ∧
      ∀ n < mem.libc.given, (∃ a ∈ held, next.libc.number a = some n ∧ next.libc.back.count n = 0) ∨
        ((∀ a ∈ held, next.libc.number a ≠ some n) ∧ next.libc.back.count n = 1) := by
  obtain ⟨ok, recent, count, _⟩ := owned.caches
  refine ⟨order.length + mem.cachedCount, fun fuel bound => ?_⟩
  have listed : ∀ n, n ∈ order ↔ n ≠ 0 ∧ lists (n - 1) ≠ [] := recent.members
  have below : ∀ n ∈ order, (lists (n - 1)).length < fuel := by
    intro n member
    have counts := total_update (ok.lt_maxIndex ((listed n).mp member).2) lists []
    rw [List.length_nil] at counts
    omega
  obtain ⟨next, run, freed⟩ := @destroy_freed mem lists fuel fuel 0 order owned.agree recent.holds.linked
    recent.holds.nodup recent.holds.nonnull (fun n _ => ok.chain (n - 1)) (fun n _ => ok.nodup (n - 1))
    (fun n _ a member => (owned.live a).mpr (.inr ⟨n - 1, member⟩))
    (fun m first n second a inside inside' => Nat.sub_one_cancel (Nat.pos_of_ne_zero ((listed m).mp first).1)
      (Nat.pos_of_ne_zero ((listed n).mp second).1) (ok.apart inside inside')) below (by omega)
  -- The loop visits the listed classes, which are all that have slices.
  have gone : ∀ a, (a ∈ order.flatMap fun n => lists (n - 1)) ↔ ∃ i, a ∈ lists i := by
    intro a
    rw [List.mem_flatMap]
    refine ⟨fun ⟨n, _, member⟩ => ⟨n - 1, member⟩, fun ⟨i, member⟩ => ⟨i + 1, ?_, member⟩⟩
    exact recent.mem_class.mpr (List.ne_nil_of_mem member)
  have left : ∀ a, (∃ slice, next.blocks a = some slice) ↔ a ∈ held := by
    intro a
    rw [freed.blocks]
    by_cases cached : ∃ i, a ∈ lists i
    · rw [if_pos ((gone a).mpr cached)]
      refine iff_of_false (fun ⟨_, absent⟩ => nomatch absent) fun member => ?_
      obtain ⟨i, inside⟩ := cached
      exact owned.apart a member i inside
    · rw [if_neg (mt (gone a).mp cached), owned.live, or_iff_left cached]
  have sound := freed.sound owned.ledger
  refine ⟨next, ?_, left, fun n less => ?_⟩
  · have head : mem.lru.head = order.headD 0 := recent.holds.head
    unfold SliceAllocator.destroy
    rw [head]
    exact run
  · rcases sound.complete n (freed.given ▸ less) with member | ⟨a, number⟩
    · refine .inr ⟨fun a _ number => sound.out a n number member, List.count_eq_one_of_mem sound.nodup member⟩
    · have live : ∃ slice, next.blocks a = some slice := by
        refine Option.ne_none_iff_exists'.mp fun none => ?_
        cases number.symm.trans ((freed.agree owned.agree a).mpr none)
      exact .inl ⟨a, (left a).mp live, number, List.count_eq_zero_of_not_mem (sound.out a n number)⟩

end SliceAllocator

/-! ## Runs -/

namespace SliceOp

open SliceAllocator

variable {maxCount : Nat} {s : SliceUser} {op : SliceOp} {lists : Nat → List Addr} {order : List Addr}

theorem progress (owned : s.self.Owned maxCount s.held lists order) (positive : 0 < maxCount) (ready : op.Ready s)
    (keeps : op.Keeps) :
    ∃ next lists' order' calls, op.apply maxCount s = some next ∧ next.self.Owned maxCount next.held lists' order' ∧
      next.self.frees = s.self.frees ++ calls ∧ ∀ call ∈ calls, call.Clean ∧ call.block ∉ next.held := by
  cases op with
  | malloc size answer =>
    obtain ⟨next, ptr, lists', order', run, owned', log⟩ := owned.alloc size ready
    refine ⟨⟨next, if ptr ≠ 0 then s.held ++ [ptr] else s.held⟩, lists', order', [], ?_, owned', ?_,
      fun _ here => absurd here List.not_mem_nil⟩
    · simp [apply, run]
    · rw [List.append_nil]
      exact log
  | realloc ptr size answer drops =>
    obtain ⟨member, fresh⟩ := ready
    obtain ⟨next, result, lists', order', calls, run, owned', log, clean, silent⟩ :=
      owned.realloc positive member fresh keeps
    refine ⟨⟨next, if result ≠ 0 then s.held.erase ptr ++ [result] else if size = 0 then s.held.erase ptr else s.held⟩,
      lists', order', calls, ?_, owned', log, fun call here => ?_⟩
    · simp only [apply, run, Option.bind_eq_bind, Option.bind_some]
      by_cases failed : result = 0
      · simp [failed]
      · simp [failed]
    -- Only a request for no bytes passes blocks to `free`, and it returns none.
    · rcases silent with rfl | ⟨rfl, rfl⟩
      · cases here
      · exact clean call here
  | free ptr =>
    obtain ⟨slice, found⟩ := (owned.live ptr).mpr (.inl ready)
    obtain ⟨next, lists', order', calls, run, owned', log, clean, _⟩ := owned.free positive ready found
    exact ⟨⟨next, s.held.erase ptr⟩, lists', order', calls, by simp [apply, run], owned', log, clean⟩

end SliceOp

/-- The system in which libc never frees the block of a failed `realloc`. -/
def keepingSystem (maxCount : Nat) : System SliceUser SliceOp := (sliceSystem maxCount).restrict fun _ op => op.Keeps

theorem keepingSystem_owned {maxCount : Nat} {ops : List SliceOp} {s : SliceUser} (positive : 0 < maxCount)
    (run : (keepingSystem maxCount).Run ops s) : ∃ lists order, s.self.Owned maxCount s.held lists order := by
  refine run.invariant (fun s => ∃ lists order, s.self.Owned maxCount s.held lists order) ?_ ?_
  · rintro ⟨self, held⟩ ⟨rfl, lruNodes, rfl⟩
    refine ⟨fun _ => [], [], .new lruNodes, .nil, fun a => ?_, fun _ member => absurd member List.not_mem_nil,
      fun _ _ found => (nomatch found), .empty, fun _ => iff_of_true rfl rfl⟩
    simp [SliceAllocator.new]
  · rintro s op next ⟨lists, order, owned⟩ ⟨keeps, ready, step⟩
    obtain ⟨next', lists', order', _, run, owned', _⟩ := SliceOp.progress owned positive ready keeps
    cases step.symm.trans run
    exact ⟨lists', order', owned'⟩

instance SliceOp.decidableReady (s : SliceUser) (op : SliceOp) : Decidable (op.Ready s) :=
  match op with
  | .malloc _ answer => inferInstanceAs (Decidable (∀ a ∈ answer, a ≠ 0 ∧ s.self.blocks a = none))
  | .realloc ptr _ answer _ =>
    inferInstanceAs (Decidable (ptr ∈ s.held ∧ ∀ a ∈ answer, a ≠ 0 ∧ (a = ptr ∨ s.self.blocks a = none)))
  | .free ptr => inferInstanceAs (Decidable (ptr ∈ s.held))

theorem slice_step {maxCount : Nat} {allowed : SliceUser → SliceOp → Prop} {ops : List SliceOp} {s next : SliceUser}
    (run : ((sliceSystem maxCount).restrict allowed).Run ops s) (op : SliceOp) (permitted : allowed s op)
    (ready : op.Ready s) (applied : op.apply maxCount s = some next) :
    ((sliceSystem maxCount).restrict allowed).Run (ops ++ [op]) next :=
  run.step ⟨permitted, ready, applied⟩

def SliceUser.start : SliceUser := ⟨.new ⟨fun _ => 0, fun _ => 0⟩, []⟩

theorem SliceUser.start_init (maxCount : Nat) : (sliceSystem maxCount).init start := ⟨rfl, _, rfl⟩

/-- A request that wraps to zero bytes loses the block: libc frees it, the caller still holds
it and gets it a second time. -/
theorem slices_aliased : ∃ s, (sliceSystem 1000).Run [.malloc 16 (some 32), .realloc 32 (2 ^ 64 - 16) none true,
    .malloc 16 (some 32)] s ∧ s.held = [32, 32] ∧ ¬ s.held.Nodup := by
  have run : ((sliceSystem 1000).restrict fun _ _ => True).Run [] .start := .init (SliceUser.start_init 1000)
  have run := slice_step run (.malloc 16 (some 32)) trivial (by decide) rfl
  have run := slice_step run (.realloc 32 (2 ^ 64 - 16) none true) trivial (by decide) rfl
  have run := slice_step run (.malloc 16 (some 32)) trivial (by decide) rfl
  exact ⟨_, run.of_restrict, rfl, by decide⟩

/-- As long as a failed `realloc` leaves its block alone, no block has two owners. The blocks
that the caller holds are distinct and in no list; no slice is in two lists or twice in one;
every operation returns, and what it frees is neither held nor in a list then. When the
allocator is destroyed, every block that the caller does not hold has been taken back once. -/
theorem slices_not_aliased {maxCount : Nat} {ops : List SliceOp} {s : SliceUser} (positive : 0 < maxCount)
    (run : (keepingSystem maxCount).Run ops s) :
    ∃ lists : Nat → List Addr,
      (∀ i, Chain (SliceAllocator.linkOf s.self.blocks) 0 (s.self.cachedMslices i) (lists i)) ∧
      s.held.Nodup ∧ (∀ a ∈ s.held, ∀ i, a ∉ lists i) ∧
      (∀ i, (lists i).Nodup) ∧ (∀ i j a, a ∈ lists i → a ∈ lists j → i = j) ∧
      (∀ op : SliceOp, op.Ready s → op.Keeps → ∃ next calls, op.apply maxCount s = some next ∧
        next.self.frees = s.self.frees ++ calls ∧ ∀ call ∈ calls, call.Clean ∧ call.block ∉ next.held) ∧
      ∃ bound, ∀ fuel, bound < fuel → ∃ final, s.self.destroy fuel = some final ∧
        (∀ a, (∃ slice, final.blocks a = some slice) ↔ a ∈ s.held) ∧
        ∀ n < s.self.libc.given, (∃ a ∈ s.held, final.libc.number a = some n ∧ final.libc.back.count n = 0) ∨
          ((∀ a ∈ s.held, final.libc.number a ≠ some n) ∧ final.libc.back.count n = 1) := by
  obtain ⟨lists, order, owned⟩ := keepingSystem_owned positive run
  have ok := owned.caches.ok
  refine ⟨lists, ok.chain, owned.nodup, owned.apart, ok.nodup, fun i j a => ok.apart, fun op ready keeps => ?_,
    owned.destroy⟩
  obtain ⟨next, _, _, calls, step, _, log, clean⟩ := SliceOp.progress owned positive ready keeps
  exact ⟨next, calls, step, log, clean⟩

/-- A block that was freed is handed out again from its list. -/
theorem slices_not_aliased_hit : ∃ s, (keepingSystem 1).Run [.malloc 16 (some 32), .malloc 10 (some 64), .free 32,
      .malloc 1 none] s ∧ s.held = [64, 32] ∧ s.held.Nodup ∧
    ∃ bound, ∀ fuel, bound < fuel → ∃ final, s.self.destroy fuel = some final := by
  have run : (keepingSystem 1).Run [] .start := .init (SliceUser.start_init 1)
  have run := slice_step run (.malloc 16 (some 32)) trivial (by decide) rfl
  have run := slice_step run (.malloc 10 (some 64)) trivial (by decide) rfl
  have run := slice_step run (.free 32) trivial (by decide) rfl
  have run := slice_step run (.malloc 1 none) trivial (by decide) rfl
  obtain ⟨_, _, nodup, _, _, _, _, bound, destroy⟩ := slices_not_aliased (by decide) run
  refine ⟨_, run, rfl, nodup, bound, fun fuel enough => ?_⟩
  obtain ⟨final, result, _⟩ := destroy fuel enough
  exact ⟨final, result⟩

end HevTaskSystem
