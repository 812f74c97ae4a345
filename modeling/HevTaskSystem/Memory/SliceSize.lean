import HevTaskSystem.Memory.SliceRun

/-! How many bytes a caller of the slice allocator gets.

On its way to libc a size is rounded up, divided into units, truncated to an `int` that
selects a list of slices, and added to the size of the header. Each step is exact up to
some size and wraps beyond it. A size that wraps gets too small a block in some state,
unless its index wraps to zero: then there is never a block.
-/

set_option autoImplicit false

namespace HevTaskSystem

open Foundation

/-- `hev_calloc`; the bytes that it clears are not modelled. -/
def SliceAllocator.calloc (self : SliceAllocator) (nmemb size : Nat) (answer : Option Addr) :
    Option (SliceAllocator × Addr) :=
  if nmemb = 0 ∨ size = 0 then some (self, 0) else self.alloc (size * nmemb % 2 ^ 64) answer

def SliceAllocator.Holds (mem : SliceAllocator) (ptr : Addr) (size : Nat) : Prop :=
  ∃ slice, mem.blocks ptr = some slice ∧ size ≤ slice.capacity

/-- The call returns, with NULL or a block that has room for the size. -/
def SliceAllocator.Serves (result : Option (SliceAllocator × Addr)) (size : Nat) : Prop :=
  ∃ next ptr, result = some (next, ptr) ∧ (ptr ≠ 0 → next.Holds ptr size)

namespace Slice

/-- The size in units of `CACHED_SLICE_ALIGN` bytes, rounded up. -/
def units (size : Nat) : Nat := (size + 15) / 16

/-- As a `size_t` the size has the class index zero: nothing at all, or a multiple of 2^32 units. -/
def Refused (size : Nat) : Prop := units (size % 2 ^ 64) % 2 ^ 32 = 0

/-- Neither the request for the size nor the index of its class wraps. -/
structure Exact (size : Nat) : Prop where
  request : size ≤ 2 ^ 64 - 32
  index : units size % 2 ^ 32 ≤ maxIndex → units size ≤ maxIndex

variable {size : Nat}

theorem alignUp_eq (size : Nat) : alignUp size = (size + 15) % 2 ^ 64 / 2 ^ 4 * 2 ^ 4 := by
  have below : (size + 15) % 2 ^ 64 < 2 ^ 64 := Nat.mod_lt _ (by decide)
  have mask : 2 ^ 64 - align = (2 ^ 60 - 1) * 2 ^ 4 := by decide
  unfold alignUp
  rw [mask, show size + align - 1 = size + 15 from rfl]
  generalize (size + 15) % 2 ^ 64 = bytes at *
  apply Nat.eq_of_testBit_eq
  intro i
  rw [Nat.testBit_and, Nat.testBit_mul_two_pow, Nat.testBit_mul_two_pow, Nat.testBit_div_two_pow,
    Nat.testBit_two_pow_sub_one]
  by_cases low : 4 ≤ i
  · by_cases high : i < 64
    · simp [low, show i - 4 < 60 by omega]
    · have zero : bytes.testBit i = false :=
        Nat.testBit_lt_two_pow (below.trans_le (Nat.pow_le_pow_right (by decide) (by omega)))
      simp [low, zero]
  · simp [low]

theorem le_alignUp (room : size ≤ 2 ^ 64 - 32) : size ≤ alignUp size ∧ alignUp size ≤ 2 ^ 64 - 32 := by
  rw [alignUp_eq, Nat.mod_eq_of_lt (by omega)]
  omega

theorem request_alignUp (room : size ≤ 2 ^ 64 - 32) : size ≤ request (alignUp size) - headerSize := by
  have aligned := le_alignUp room
  have whole : request (alignUp size) = headerSize + alignUp size :=
    Nat.mod_eq_of_lt (by unfold headerSize; omega)
  rw [whole, Nat.add_sub_cancel_left]
  exact aligned.1

theorem alignUp_div (size : Nat) : alignUp size / align = (size + 15) % 2 ^ 64 / 16 := by
  rw [alignUp_eq]
  exact Nat.mul_div_cancel _ (by decide)

/-- The index is the number of units, truncated to an `int`. -/
theorem indexOf_alignUp (size : Nat) : indexOf (alignUp size) =
    ((units size % 2 ^ 32 : Nat) : Int) - if units size % 2 ^ 32 < 2 ^ 31 then 0 else 2 ^ 32 := by
  have same : alignUp size / align % 2 ^ 32 = units size % 2 ^ 32 := by
    rw [alignUp_div]
    unfold units
    omega
  unfold indexOf
  rw [← same, Int.bmod_def]
  generalize alignUp size / align = n
  split <;> split <;> omega

theorem indexOf_eq_zero_iff : indexOf (alignUp size) = 0 ↔ units size % 2 ^ 32 = 0 := by
  rw [indexOf_alignUp]
  generalize units size = n
  split <;> omega

theorem cached_iff :
    Cached (indexOf (alignUp size)) ↔ 1 ≤ units size % 2 ^ 32 ∧ units size % 2 ^ 32 ≤ maxIndex := by
  unfold Cached maxIndex align
  rw [indexOf_alignUp]
  generalize units size = n
  split <;> omega

theorem indexOf_of_le (small : units size % 2 ^ 32 ≤ maxIndex) :
    indexOf (alignUp size) = (units size % 2 ^ 32 : Nat) := by
  unfold maxIndex align at small
  rw [indexOf_alignUp, if_pos (by omega), Int.sub_zero]

theorem Exact.of_le (small : size ≤ 2 ^ 36 - 16) : Exact size := by
  refine ⟨by omega, fun cached => ?_⟩
  unfold units at *
  omega

/-- A slice of the class that the index selects has room for the size. -/
theorem Exact.class_size (exact : Exact size) (cached : Cached (indexOf (alignUp size))) :
    size ≤ ((indexOf (alignUp size) - 1).toNat + 1) * align := by
  have room := exact.request
  obtain ⟨positive, small⟩ := cached_iff.mp cached
  have few := exact.index small
  rw [indexOf_of_le small]
  unfold maxIndex align units at *
  omega

end Slice

namespace SliceAllocator

variable {maxCount : Nat} {mem next : SliceAllocator} {held : List Addr} {lists : Nat → List Addr} {order : List Addr}
  {size : Nat} {answer : Option Addr} {ptr : Addr}

theorem alloc_cases (result : mem.alloc size answer = some (next, ptr)) (nonnull : ptr ≠ 0) :
    (Slice.Cached (Slice.indexOf (Slice.alignUp size)) ∧ next.blocks = mem.blocks ∧
      ptr = mem.cachedMslices (Slice.indexOf (Slice.alignUp size) - 1).toNat) ∨
    ∃ index, next = mem.obtain ptr (Slice.alignUp size) index := by
  have asked : ∀ index : Int, (answer.elim (some (mem, 0)) fun slice =>
      some (mem.obtain slice (Slice.alignUp size) index, slice)) = some (next, ptr) →
      ∃ index, next = mem.obtain ptr (Slice.alignUp size) index := by
    intro index got
    cases answer with
    | none =>
      cases got
      exact absurd rfl nonnull
    | some slice =>
      cases got
      exact ⟨index, rfl⟩
  unfold SliceAllocator.alloc at result
  dsimp only at result
  generalize Slice.indexOf (Slice.alignUp size) = index at result ⊢
  by_cases zero : index = 0
  · rw [if_pos zero] at result
    cases result
    exact absurd rfl nonnull
  · rw [if_neg zero] at result
    by_cases cached : Slice.Cached index
    · rw [if_pos cached] at result
      split at result
      · obtain ⟨header, _, result⟩ := Option.bind_eq_some_iff.mp result
        cases result
        refine .inl ⟨cached, ?_, rfl⟩
        split <;> rfl
      · refine .inr (asked (index - 1) ?_)
        cases answer <;> exact result
    · rw [if_neg cached] at result
      refine .inr (asked (-1) ?_)
      cases answer <;> exact result

theorem obtain_holds {index : Int} (room : size ≤ 2 ^ 64 - 32) :
    (mem.obtain ptr (Slice.alignUp size) index).Holds ptr size :=
  ⟨_, obtain_self, Slice.request_alignUp room⟩

theorem alloc_refused (refused : Slice.units size % 2 ^ 32 = 0) :
    mem.alloc size answer = some (mem, 0) := by
  unfold SliceAllocator.alloc
  dsimp only
  rw [if_pos (Slice.indexOf_eq_zero_iff.mpr refused)]
  rfl

theorem Owned.alloc_serves (owned : mem.Owned maxCount held lists order) (exact : Slice.Exact size)
    (fresh : ∀ a, answer = some a → a ≠ 0 ∧ mem.blocks a = none) : Serves (mem.alloc size answer) size := by
  obtain ⟨next, ptr, _, _, result, _⟩ := owned.alloc size fresh
  refine ⟨next, ptr, result, fun nonnull => ?_⟩
  rcases alloc_cases result nonnull with ⟨cached, same, first⟩ | ⟨index, rfl⟩
  · obtain ⟨slice, _, _, found, _, room, _⟩ := owned.caches.ok.first (first ▸ nonnull)
    refine ⟨slice, ?_, (exact.class_size cached).trans room⟩
    rw [same, first]
    exact found
  · exact obtain_holds exact.request

theorem Owned.calloc_serves {nmemb : Nat} (owned : mem.Owned maxCount held lists order)
    (right : Slice.Refused (nmemb * size) ∨ Slice.Exact (nmemb * size))
    (fresh : ∀ a, answer = some a → a ≠ 0 ∧ mem.blocks a = none) :
    Serves (mem.calloc nmemb size answer) (nmemb * size) := by
  unfold SliceAllocator.calloc
  rw [Nat.mul_comm size]
  split
  · exact ⟨mem, 0, rfl, fun nonnull => absurd rfl nonnull⟩
  · rcases right with refused | exact
    · exact ⟨mem, 0, alloc_refused refused, fun nonnull => absurd rfl nonnull⟩
    · have room := exact.request
      rw [Nat.mod_eq_of_lt (by omega)]
      exact owned.alloc_serves exact fresh

theorem Owned.realloc_serves {drops : Bool} {a : Addr} (owned : mem.Owned maxCount held lists order)
    (positive : 0 < maxCount) (member : a ∈ held) (room : size ≤ 2 ^ 64 - 32)
    (fresh : ∀ b, answer = some b → b ≠ 0 ∧ (b = a ∨ mem.blocks b = none)) :
    Serves (mem.realloc maxCount a size answer drops) size := by
  have aligned := Slice.le_alignUp room
  have keeps : ¬ (answer = none ∧ drops ∧ Slice.request (Slice.alignUp size) = 0) := by
    rintro ⟨_, _, zero⟩
    have whole : Slice.request (Slice.alignUp size) = Slice.headerSize + Slice.alignUp size :=
      Nat.mod_eq_of_lt (by unfold Slice.headerSize; omega)
    exact absurd (whole.symm.trans zero) (by unfold Slice.headerSize; omega)
  obtain ⟨next, ptr, _, _, _, result, _⟩ := owned.realloc positive member fresh keeps
  refine ⟨next, ptr, result, fun nonnull => ?_⟩
  unfold SliceAllocator.realloc at result
  split at result
  · obtain ⟨_, _, result⟩ := Option.bind_eq_some_iff.mp result
    cases result
    exact absurd rfl nonnull
  · cases answer with
    | none =>
      dsimp only at result
      rw [if_neg fun h => keeps ⟨rfl, h⟩] at result
      cases result
      exact absurd rfl nonnull
    | some slice =>
      obtain ⟨mid, _, result⟩ := Option.bind_eq_some_iff.mp result
      cases result
      exact obtain_holds room

theorem not_serves (result : mem.alloc size answer = some (next, ptr)) {needed : Nat} (nonnull : ptr ≠ 0)
    {slice : Slice} (found : next.blocks ptr = some slice) (small : slice.capacity < needed) :
    ¬ Serves (mem.alloc size answer) needed := by
  rintro ⟨next', ptr', result', holds⟩
  cases result.symm.trans result'
  obtain ⟨slice', found', room⟩ := holds nonnull
  cases found.symm.trans found'
  exact absurd room (Nat.not_le_of_lt small)

/-! ## States in which a block is too small -/

/-- With no slices every size is asked for at libc. -/
theorem alloc_start (wanted : Slice.units size % 2 ^ 32 ≠ 0) :
    ∃ index, SliceUser.start.self.alloc size (some ptr) =
      some (SliceUser.start.self.obtain ptr (Slice.alignUp size) index, ptr) := by
  have nonzero : Slice.indexOf (Slice.alignUp size) ≠ 0 := mt Slice.indexOf_eq_zero_iff.mp wanted
  unfold SliceAllocator.alloc
  dsimp only
  rw [if_neg nonzero]
  by_cases cached : Slice.Cached (Slice.indexOf (Slice.alignUp size))
  · exact ⟨_, if_pos cached⟩
  · exact ⟨_, if_neg cached⟩

theorem start_not_serves (wanted : ¬ Slice.Refused size)
    (wraps : Slice.request (Slice.alignUp (size % 2 ^ 64)) - Slice.headerSize < size) :
    ¬ Serves (SliceUser.start.self.alloc (size % 2 ^ 64) (some 32)) size := by
  obtain ⟨index, result⟩ := @alloc_start (size % 2 ^ 64) 32 wanted
  exact not_serves result (by decide) obtain_self wraps

theorem alloc_class {n : Nat} (positive : 1 ≤ n) (small : n ≤ Slice.maxIndex) :
    ∃ mem, SliceUser.start.self.alloc (16 * n) (some 32) = some (mem, 32) ∧ mem.cachedCount = 0 ∧
      mem.blocks 32 = some ⟨0, (n : Int) - 1, 16 * n⟩ := by
  have bound : n ≤ 256 := small
  have units : Slice.units (16 * n) = n := by
    unfold Slice.units
    omega
  have index : Slice.indexOf (Slice.alignUp (16 * n)) = n := by
    rw [Slice.indexOf_of_le (by rw [units]; exact (Nat.mod_le ..).trans small), units, Nat.mod_eq_of_lt (by omega)]
  have capacity : Slice.request (Slice.alignUp (16 * n)) - Slice.headerSize = 16 * n := by
    rw [Slice.alignUp_eq, Slice.request, Slice.headerSize]
    omega
  refine ⟨SliceUser.start.self.obtain 32 (Slice.alignUp (16 * n)) ((n : Int) - 1), ?_, rfl, ?_⟩
  · unfold SliceAllocator.alloc
    dsimp only
    rw [index, if_neg (by omega), if_pos ⟨by omega, by exact_mod_cast small⟩]
    rfl
  · rw [obtain_self, capacity]

theorem push_class {n capacity : Nat} (positive : 1 ≤ n) :
    (mem.push ptr ⟨0, (n : Int) - 1, capacity⟩).cachedMslices (n - 1) = ptr := by
  have number : ((n : Int) - 1).toNat = n - 1 := by omega
  unfold SliceAllocator.push
  dsimp only
  rw [number]
  split
  · exact Function.update_self ..
  · exact Function.update_self ..

/-- The size is asked for at libc, and the block goes to the list of its class. -/
theorem cached_run {n : Nat} (room : 0 < maxCount) (positive : 1 ≤ n) (small : n ≤ Slice.maxIndex) :
    ∃ s, (keepingSystem maxCount).Run [.malloc (16 * n) (some 32), .free 32] s ∧
      s.self.cachedMslices (n - 1) = 32 ∧ ∃ slice, s.self.blocks 32 = some slice ∧ slice.capacity = 16 * n := by
  have bound : n ≤ 256 := small
  obtain ⟨mem, asked, empty, header⟩ := alloc_class positive small
  have freed : mem.free maxCount 32 = some (mem.push 32 ⟨0, (n : Int) - 1, 16 * n⟩) := by
    unfold SliceAllocator.free
    rw [header]
    dsimp only [Option.bind_eq_bind, Option.bind_some]
    rw [if_neg (by omega), if_pos (by unfold Slice.maxIndex Slice.align; omega), empty, if_neg (Nat.not_le_of_lt room)]
    rfl
  have run : (keepingSystem maxCount).Run [] .start := .init (SliceUser.start_init maxCount)
  have run : (keepingSystem maxCount).Run [.malloc (16 * n) (some 32)] ⟨mem, [32]⟩ := by
    refine slice_step run (.malloc (16 * n) (some 32)) trivial (fun a same => ?_) ?_
    · cases same
      exact ⟨by decide, rfl⟩
    · simp only [SliceOp.apply, asked]
      rfl
  have applied : SliceOp.apply maxCount ⟨mem, [32]⟩ (.free 32) =
      some ⟨mem.push 32 ⟨0, (n : Int) - 1, 16 * n⟩, []⟩ := by
    simp [SliceOp.apply, freed]
  refine ⟨_, slice_step run (.free 32) trivial (List.mem_singleton_self _) applied, push_class positive,
    { next := mem.cachedMslices ((n : Int) - 1).toNat, index := (n : Int) - 1, capacity := 16 * n }, ?_, rfl⟩
  rw [(push_fields ..).1, Function.update_self]

theorem cached_not_serves {s : SliceUser} (positive : 1 ≤ Slice.units size % 2 ^ 32)
    (small : Slice.units size % 2 ^ 32 ≤ Slice.maxIndex) (many : Slice.maxIndex < Slice.units size)
    (first : s.self.cachedMslices (Slice.units size % 2 ^ 32 - 1) = 32) {slice : Slice}
    (found : s.self.blocks 32 = some slice) (capacity : slice.capacity = 16 * (Slice.units size % 2 ^ 32)) :
    ¬ Serves (s.self.alloc size none) size := by
  have nonzero : Slice.indexOf (Slice.alignUp size) ≠ 0 := mt Slice.indexOf_eq_zero_iff.mp (by omega)
  have cached := Slice.cached_iff.mpr ⟨positive, small⟩
  have list : (Slice.indexOf (Slice.alignUp size) - 1).toNat = Slice.units size % 2 ^ 32 - 1 := by
    rw [Slice.indexOf_of_le small]
    omega
  have less : slice.capacity < size := by
    rw [capacity]
    unfold Slice.maxIndex Slice.align Slice.units at *
    omega
  obtain ⟨next, result, blocks⟩ : ∃ next, s.self.alloc size none = some (next, 32) ∧ next.blocks = s.self.blocks := by
    unfold SliceAllocator.alloc
    dsimp only
    rw [if_neg nonzero, if_pos cached, list, first, if_pos (by decide), found]
    refine ⟨_, rfl, ?_⟩
    split <;> rfl
  exact not_serves result (by decide) (blocks ▸ found) less

/-- The condition is needed: another size is served too small a block in one of two states. -/
theorem right_of_serves (room : 0 < maxCount)
    (serves : ∀ ops s, (keepingSystem maxCount).Run ops s → ∀ answer, (SliceOp.malloc (size % 2 ^ 64) answer).Ready s →
      Serves (s.self.alloc (size % 2 ^ 64) answer) size) : Slice.Refused size ∨ Slice.Exact size := by
  by_cases refused : Slice.Refused size
  · exact .inl refused
  · have start : ¬ Slice.request (Slice.alignUp (size % 2 ^ 64)) - Slice.headerSize < size := by
      intro wraps
      refine start_not_serves refused wraps (serves [] .start (.init (SliceUser.start_init maxCount)) (some 32) ?_)
      rintro _ ⟨⟩
      exact ⟨by decide, rfl⟩
    have request : size ≤ 2 ^ 64 - 32 := by
      rw [Slice.alignUp_eq, Slice.request, Slice.headerSize] at start
      unfold Slice.Refused Slice.units at refused
      omega
    have whole : size % 2 ^ 64 = size := Nat.mod_eq_of_lt (by omega)
    rw [Slice.Refused, whole] at refused
    rw [whole] at serves
    refine .inr ⟨request, fun small => ?_⟩
    by_contra many
    obtain ⟨s, run, first, slice, found, capacity⟩ := cached_run room (Nat.pos_of_ne_zero refused) small
    refine cached_not_serves (Nat.pos_of_ne_zero refused) small (Nat.lt_of_not_le many) first found capacity ?_
    exact serves _ s run none fun a same => absurd same.symm (Option.some_ne_none a)

theorem realloc_not_serves (wraps : 2 ^ 64 - 32 < size) (fits : size < 2 ^ 64) :
    ∃ s, (keepingSystem maxCount).Run [.malloc 16 (some 32)] s ∧
      (SliceOp.realloc 32 size (some 32) false).Ready s ∧
      ¬ Serves (s.self.realloc maxCount 32 size (some 32) false) size := by
  have run : (keepingSystem maxCount).Run [] .start := .init (SliceUser.start_init maxCount)
  have run := slice_step run (.malloc 16 (some 32)) trivial (by decide) rfl
  refine ⟨_, run, ⟨List.mem_singleton_self _, fun a same => ?_⟩, ?_⟩
  · cases same
    exact ⟨by decide, .inl rfl⟩
  rintro ⟨next, ptr, result, holds⟩
  rw [SliceAllocator.realloc, if_neg (by omega)] at result
  cases result
  obtain ⟨slice, found, room⟩ := holds (by decide)
  cases obtain_self.symm.trans found
  -- Rounded up, the size is at most the header short of 2 ^ 64.
  rw [Slice.alignUp_eq, Slice.request, Slice.headerSize] at room
  dsimp only at room
  omega

end SliceAllocator

open SliceAllocator

/-- In the states that are reached while a failed `realloc` leaves its block alone, each call is
served NULL or a block with room for the size (for `hev_calloc` the product) exactly if the
size does not wrap or has no class; without a class there is never a block. -/
theorem slice_sizes {maxCount : Nat} (positive : 0 < maxCount) :
    (∀ size < 2 ^ 64, (∀ ops s, (keepingSystem maxCount).Run ops s → ∀ answer, (SliceOp.malloc size answer).Ready s →
      Serves (s.self.alloc size answer) size) ↔ Slice.Refused size ∨ Slice.Exact size) ∧
    (∀ size < 2 ^ 64, (∀ ops s, (keepingSystem maxCount).Run ops s → ∀ p answer drops,
      (SliceOp.realloc p size answer drops).Ready s → Serves (s.self.realloc maxCount p size answer drops) size) ↔
      size ≤ 2 ^ 64 - 32) ∧
    ∀ nmemb < 2 ^ 64, ∀ size < 2 ^ 64, (∀ ops s, (keepingSystem maxCount).Run ops s → ∀ answer,
      (SliceOp.malloc (size * nmemb % 2 ^ 64) answer).Ready s → Serves (s.self.calloc nmemb size answer) (nmemb * size)) ↔
      Slice.Refused (nmemb * size) ∨ Slice.Exact (nmemb * size) := by
  refine ⟨fun size fits => ⟨fun serves => ?_, fun right ops s run answer ready => ?_⟩,
    fun size fits => ⟨fun serves => ?_, fun room ops s run p answer drops ready => ?_⟩,
    fun nmemb _ size _ => ⟨fun serves => ?_, fun right ops s run answer ready => ?_⟩⟩
  · refine right_of_serves positive ?_
    rwa [Nat.mod_eq_of_lt fits]
  · obtain ⟨lists, order, owned⟩ := keepingSystem_owned positive run
    rcases right with refused | exact
    · rw [Slice.Refused, Nat.mod_eq_of_lt fits] at refused
      exact ⟨_, _, alloc_refused refused, fun nonnull => absurd rfl nonnull⟩
    · exact owned.alloc_serves exact ready
  · by_contra wraps
    obtain ⟨s, run, ready, small⟩ := @realloc_not_serves maxCount size (Nat.lt_of_not_le wraps) fits
    exact small (serves _ s run 32 (some 32) false ready)
  · obtain ⟨lists, order, owned⟩ := keepingSystem_owned positive run
    exact owned.realloc_serves positive ready.1 room ready.2
  · by_cases zero : nmemb = 0 ∨ size = 0
    · left
      have product : nmemb * size = 0 := Nat.mul_eq_zero.mpr zero
      rw [product]
      rfl
    · refine right_of_serves positive fun ops s run answer ready => ?_
      have served := serves ops s run answer (by rwa [Nat.mul_comm size])
      rwa [SliceAllocator.calloc, if_neg zero, Nat.mul_comm size] at served
  · obtain ⟨lists, order, owned⟩ := keepingSystem_owned positive run
    exact owned.calloc_serves right ready

/-- A slice from the list of its class, and the largest product below 64 GiB. -/
theorem slice_sizes_hit : ∃ s, (keepingSystem 1).Run [.malloc 30 (some 32), .free 32] s ∧
    (∃ next, s.self.alloc 17 none = some (next, 32) ∧ next.Holds 32 17) ∧
    ∃ next, s.self.calloc (2 ^ 32 - 1) 16 (some 64) = some (next, 64) ∧ next.Holds 64 ((2 ^ 32 - 1) * 16) := by
  have run : (keepingSystem 1).Run [] .start := .init (SliceUser.start_init 1)
  have run := slice_step run (.malloc 30 (some 32)) trivial (by decide) rfl
  have run := slice_step run (.free 32) trivial (by decide) rfl
  obtain ⟨malloc, _, calloc⟩ := @slice_sizes 1 (by decide)
  obtain ⟨_, _, result, room⟩ := (malloc 17 (by decide)).mpr (.inr (.of_le (by decide))) _ _ run none (by decide)
  obtain ⟨_, _, result', room'⟩ := (calloc (2 ^ 32 - 1) (by decide) 16 (by decide)).mpr (.inr (.of_le (by decide)))
    _ _ run (some 64) (by decide)
  cases result
  cases result'
  exact ⟨_, run, ⟨_, rfl, room (by decide)⟩, _, rfl, room' (by decide)⟩

/-- Four blocks that are too small. The index of 2 ^ 36 + 16 bytes is truncated to that of
16 bytes, for which there is a slice. Rounded up and with the header, the second and the
third size wrap to nothing and to the header. The product wraps to 16 bytes. -/
theorem slice_sizes_wrap : ∃ s, (keepingSystem 1000).Run [.malloc 16 (some 32), .malloc 16 (some 64), .free 32] s ∧
    (∃ next, s.self.alloc (2 ^ 36 + 16) none = some (next, 32) ∧ ¬ next.Holds 32 (2 ^ 36 + 16)) ∧
    (∃ next, s.self.alloc (2 ^ 64 - 16) (some 96) = some (next, 96) ∧ ¬ next.Holds 96 (2 ^ 64 - 16)) ∧
    (∃ next, s.self.realloc 1000 64 (2 ^ 64 - 1) (some 96) false = some (next, 96) ∧ ¬ next.Holds 96 (2 ^ 64 - 1)) ∧
    ∃ next, s.self.calloc (2 ^ 60 + 1) 16 none = some (next, 32) ∧ ¬ next.Holds 32 ((2 ^ 60 + 1) * 16) := by
  have run : (keepingSystem 1000).Run [] .start := .init (SliceUser.start_init 1000)
  have run := slice_step run (.malloc 16 (some 32)) trivial (by decide) rfl
  have run := slice_step run (.malloc 16 (some 64)) trivial (by decide) rfl
  have run := slice_step run (.free 32) trivial (by decide) rfl
  have small : ∀ {mem : SliceAllocator} {ptr : Addr} {slice : Slice} {size : Nat}, mem.blocks ptr = some slice →
      slice.capacity < size → ¬ mem.Holds ptr size := by
    rintro mem ptr slice size found small ⟨_, found', room⟩
    cases found.symm.trans found'
    exact absurd room (Nat.not_le_of_lt small)
  exact ⟨_, run, ⟨_, rfl, small rfl (by decide)⟩, ⟨_, rfl, small rfl (by decide)⟩, ⟨_, rfl, small rfl (by decide)⟩,
    _, rfl, small rfl (by decide)⟩

end HevTaskSystem
