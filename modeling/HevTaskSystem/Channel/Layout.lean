import Mathlib.Data.Set.Lattice
import Mathlib.Order.CompletePartialOrder
import Mathlib.Order.Interval.Set.Basic
import HevTaskSystem.Channel.System

/-! The layout of a channel in its allocation, `hev_task_channel_new_with_buffers`.

An endpoint is one block: the structure, the descriptors of its slots and, in a buffered
channel, the data of the slots. The sizes of the parts and the offsets of the slots are
`unsigned int`, the size of the block is the sum as `size_t`. The parts fit the block
exactly if none of the products reaches 32 bits.
-/

set_option autoImplicit false

namespace HevTaskSystem

namespace ChannelRing

/-- `sizeof (HevTaskChannel)`, with pointers of eight bytes. -/
def sizeofChannel : Nat := 112

/-- `sizeof (HevTaskChannelBuffer)`. -/
def sizeofBuffer : Nat := 16

def buffersSize (buffers : Nat) : Nat :=
  let buffers := unsigned (buffers + 1)
  unsigned (sizeofBuffer * buffers)

def dataSize (size buffers : Nat) : Nat :=
  let buffers := unsigned (buffers + 1)
  if buffers > 1 then unsigned (size * buffers) else 0

/-- What each of the two calls of `hev_malloc` asks for. -/
def allocation (size buffers : Nat) : Nat := sizeofChannel + buffersSize buffers + dataSize size buffers

def block (c : Nat) (size buffers : Nat) : Set Nat := Set.Ico c (c + allocation size buffers)

/-- The descriptors `self->buffers[0 .. max_count)`. -/
def descriptors (ring : ChannelRing) (c : Nat) : Set Nat :=
  Set.Ico (c + sizeofChannel) (c + sizeofChannel + sizeofBuffer * ring.maxCount)

/-- `self->buffers[i].data` of a new channel, if it points behind the descriptors. -/
def slotData (ring : ChannelRing) (c : Nat) (buffers i : Nat) : Option Nat := do
  let cbuf ← ring.buffers[i]?
  match cbuf.data with
  | .own offset => some (c + sizeofChannel + buffersSize buffers + offset)
  | _ => none

def area (data : Nat) (size : Nat) : Set Nat := Set.Ico data (data + size)

/-- The endpoint fits the block that was allocated for it. -/
structure LaidOut (ring : ChannelRing) (c : Nat) (size buffers : Nat) : Prop where
  count : ring.maxCount = buffers + 1
  positive : 1 ≤ ring.maxCount
  array : ring.descriptors c ⊆ block c size buffers
  slot : 1 ≤ buffers → ∀ i < ring.maxCount, ∃ data, ring.slotData c buffers i = some data ∧
    area data size ⊆ block c size buffers ∧ Disjoint (area data size) (ring.descriptors c)
  apart : 1 ≤ buffers → ∀ i < ring.maxCount, ∀ j < ring.maxCount, i ≠ j → ∀ a b,
    ring.slotData c buffers i = some a → ring.slotData c buffers j = some b →
      Disjoint (area a size) (area b size)

structure NoWrap (size buffers : Nat) : Prop where
  array : sizeofBuffer * (buffers + 1) < 2 ^ 32
  data : size * (buffers + 1) < 2 ^ 32

variable {c : Nat} {size buffers : Nat}

theorem unsigned_eq {n : Nat} (small : n < 2 ^ 32) : unsigned n = n := Nat.mod_eq_of_lt small

@[simp] theorem new_maxCount : (new size buffers).maxCount = unsigned (buffers + 1) := rfl

theorem slotData_new {i : Nat} (many : 1 < unsigned (buffers + 1)) (inside : i < unsigned (buffers + 1)) :
    (new size buffers).slotData c buffers i =
      some (c + sizeofChannel + buffersSize buffers + unsigned (size * i)) := by
  have found : (new size buffers).buffers[i]? = some ⟨0, .own (unsigned (size * i))⟩ := by
    simp only [new, if_pos many, List.getElem?_map, List.getElem?_range inside, Option.map_some]
  simp [slotData, found]

theorem dataSize_zero : dataSize 0 buffers = 0 := by
  simp [dataSize, unsigned]

/-! ## Without a wrap the parts follow one another -/

namespace NoWrap

theorem count (fits : NoWrap size buffers) : unsigned (buffers + 1) = buffers + 1 := by
  have array := fits.array
  simp only [sizeofBuffer] at array
  exact unsigned_eq (by omega)

theorem buffersSize_eq (fits : NoWrap size buffers) : buffersSize buffers = sizeofBuffer * (buffers + 1) := by
  rw [buffersSize, fits.count, unsigned_eq fits.array]

theorem dataSize_eq (fits : NoWrap size buffers) (many : 1 ≤ buffers) :
    dataSize size buffers = size * (buffers + 1) := by
  rw [dataSize, fits.count, if_pos (by omega), unsigned_eq fits.data]

theorem slotData_eq (fits : NoWrap size buffers) (many : 1 ≤ buffers) {i : Nat} (inside : i < buffers + 1) :
    (new size buffers).slotData c buffers i =
      some (c + sizeofChannel + sizeofBuffer * (buffers + 1) + size * i) := by
  have small : size * i < 2 ^ 32 := Nat.lt_of_le_of_lt (Nat.mul_le_mul_left size inside.le) fits.data
  rw [slotData_new (by rw [fits.count]; omega) (by rw [fits.count]; exact inside), fits.buffersSize_eq,
    unsigned_eq small]

theorem laidOut (fits : NoWrap size buffers) : (new size buffers).LaidOut c size buffers where
  count := fits.count
  positive := by
    rw [new_maxCount, fits.count]
    omega
  array := by
    apply Set.Ico_subset_Ico (Nat.le_add_right ..)
    rw [allocation, fits.buffersSize_eq, new_maxCount, fits.count]
    omega
  slot many i inside := by
    rw [new_maxCount, fits.count] at inside
    refine ⟨_, fits.slotData_eq many inside, ?_, ?_⟩
    · apply Set.Ico_subset_Ico (by rw [Nat.add_assoc, Nat.add_assoc]; exact Nat.le_add_right ..)
      have room : size * i + size ≤ size * (buffers + 1) := Nat.mul_le_mul_left size inside
      rw [allocation, fits.buffersSize_eq, fits.dataSize_eq many]
      omega
    · apply Set.disjoint_left.mpr
      intro a here there
      have start : c + sizeofChannel + sizeofBuffer * (buffers + 1) + size * i ≤ a := here.1
      have stop : a < c + sizeofChannel + sizeofBuffer * (new size buffers).maxCount := there.2
      rw [new_maxCount, fits.count] at stop
      exact absurd start (Nat.not_le_of_lt (Nat.lt_of_lt_of_le stop (Nat.le_add_right ..)))
  apart many i inside j inside' other data data' found found' := by
    rw [new_maxCount, fits.count] at inside inside'
    rw [fits.slotData_eq many inside] at found
    rw [fits.slotData_eq many inside'] at found'
    cases found
    cases found'
    apply Set.disjoint_left.mpr
    intro a here there
    obtain ⟨start, stop⟩ := here
    obtain ⟨start', stop'⟩ := there
    -- The slot with the smaller index ends where the next one starts, or before.
    rcases Nat.lt_or_gt_of_ne other with before | before
    · have next : size * i + size ≤ size * j := Nat.mul_le_mul_left size before
      omega
    · have next : size * j + size ≤ size * i := Nat.mul_le_mul_left size before
      omega

end NoWrap

/-! ## A wrap leaves something outside -/

theorem le_of_Ico_subset {a b c d : Nat} (inside : Set.Ico a b ⊆ Set.Ico c d) (nonempty : a < b) : b ≤ d := by
  have last : b - 1 < d := (inside (show b - 1 ∈ Set.Ico a b from ⟨by omega, by omega⟩)).2
  omega

namespace LaidOut

theorem few (fits : (new size buffers).LaidOut c size buffers) : buffers + 1 < 2 ^ 32 := by
  have count : (buffers + 1) % 2 ^ 32 = buffers + 1 := fits.count
  rw [← count]
  exact Nat.mod_lt _ (by decide)

/-- A descriptor array that wraps leaves the block, or reaches into the data of the first slot. -/
theorem noWrap_array (fits : (new size buffers).LaidOut c size buffers) :
    sizeofBuffer * (buffers + 1) < 2 ^ 32 := by
  by_contra wraps
  have many : 1 ≤ buffers := by
    simp only [sizeofBuffer] at wraps
    omega
  have less : buffersSize buffers < sizeofBuffer * (buffers + 1) := by
    apply Nat.lt_of_lt_of_le _ (Nat.le_of_not_lt wraps)
    exact Nat.mod_lt _ (by decide)
  have count := unsigned_eq fits.few
  obtain ⟨data, found, _, apart⟩ := fits.slot many 0 fits.positive
  rw [slotData_new (by omega) (by omega), Nat.mul_zero] at found
  cases found
  -- Only an empty slot can lie in the array, and then there is no data behind it.
  by_cases empty : size = 0
  · have array := le_of_Ico_subset fits.array (by rw [fits.count]; simp only [sizeofBuffer]; omega)
    rw [fits.count, allocation, empty, dataSize_zero] at array
    omega
  · have here : c + sizeofChannel + buffersSize buffers ∈ (new size buffers).descriptors c := by
      refine ⟨Nat.le_add_right .., ?_⟩
      rw [fits.count]
      exact Nat.add_lt_add_left less _
    have first : c + sizeofChannel + buffersSize buffers ∈
        area (c + sizeofChannel + buffersSize buffers + unsigned 0) size := by
      simp only [area, unsigned, Nat.zero_mod, Nat.add_zero]
      exact ⟨Nat.le_refl _, by omega⟩
    exact Set.disjoint_left.mp apart first here

/-- If the data wraps, the slot at the end of what is left of it sticks out. -/
theorem noWrap_data (fits : (new size buffers).LaidOut c size buffers) (small : size < 2 ^ 32) :
    size * (buffers + 1) < 2 ^ 32 := by
  by_contra wraps
  have many : 1 ≤ buffers := by
    by_contra one
    obtain rfl : buffers = 0 := by omega
    omega
  have nonempty : 0 < size := by
    by_contra empty
    obtain rfl : size = 0 := by omega
    simp at wraps
  have count := unsigned_eq fits.few
  have total : dataSize size buffers < 2 ^ 32 := by
    rw [dataSize, count, if_pos (by omega)]
    exact Nat.mod_lt _ (by decide)
  set i := dataSize size buffers / size
  have below : size * i ≤ dataSize size buffers := Nat.mul_div_le ..
  have beyond : dataSize size buffers < size * i + size := Nat.lt_mul_div_succ _ nonempty
  have inside : i < buffers + 1 := by
    apply Nat.lt_of_mul_lt_mul_left (a := size)
    omega
  obtain ⟨data, found, within, _⟩ := fits.slot many i (by rw [fits.count]; exact inside)
  rw [slotData_new (by omega) (by omega), unsigned_eq (by omega)] at found
  cases found
  have stop := le_of_Ico_subset within (by omega)
  rw [allocation] at stop
  omega

end LaidOut

/-- The parts of a new endpoint fit its block exactly when no product wraps. -/
theorem laidOut_iff (small : size < 2 ^ 32) :
    (new size buffers).LaidOut c size buffers ↔ NoWrap size buffers :=
  ⟨fun fits => ⟨fits.noWrap_array, fits.noWrap_data small⟩, NoWrap.laidOut⟩

end ChannelRing

namespace ChannelSystem

open ChannelRing

theorem newWithBuffers_ring {s : ChannelSystem} {c1 c2 c : Addr} {size buffers : Nat}
    (returned : (s.newWithBuffers c1 c2 size buffers).2 = .returns 0) (member : c = c1 ∨ c = c2) :
    (s.newWithBuffers c1 c2 size buffers).1.ring c = .new size buffers := by
  unfold newWithBuffers at returned ⊢
  by_cases null1 : c1 = 0
  · simp [null1] at returned
  by_cases null2 : c2 = 0
  · simp [null1, null2] at returned
  simp only [if_neg null1, if_neg null2, initChannel, Function.update_apply]
  rcases member with rfl | rfl
  · rw [if_pos rfl, ite_self]
  · rw [if_pos rfl]

end ChannelSystem

/-- Whenever `hev_task_channel_new_with_buffers` returns 0, both channels fit the blocks that
were allocated for them exactly if no product of the layout reaches 32 bits. -/
theorem channel_layout_fits (s : ChannelSystem) (c1 c2 : Addr) (size buffers : UInt32)
    (returned : (s.newWithBuffers c1 c2 size.toNat buffers.toNat).2 = .returns 0) :
    (∀ c, c = c1 ∨ c = c2 → ((s.newWithBuffers c1 c2 size.toNat buffers.toNat).1.ring c).LaidOut c
      size.toNat buffers.toNat) ↔
      ChannelRing.sizeofBuffer * (buffers.toNat + 1) < 2 ^ 32 ∧ size.toNat * (buffers.toNat + 1) < 2 ^ 32 := by
  constructor
  · intro fits
    have first := fits c1 (.inl rfl)
    rw [ChannelSystem.newWithBuffers_ring returned (.inl rfl)] at first
    obtain ⟨array, data⟩ := (ChannelRing.laidOut_iff size.toNat_lt).mp first
    exact ⟨array, data⟩
  · rintro ⟨array, data⟩ c member
    rw [ChannelSystem.newWithBuffers_ring returned member]
    exact ChannelRing.NoWrap.laidOut ⟨array, data⟩

theorem channel_layout_fits_eight : ∃ s : ChannelSystem,
    (s.newWithBuffers 4096 8192 8 3).2 = .returns 0 ∧
      ((s.newWithBuffers 4096 8192 8 3).1.ring 8192).LaidOut 8192 8 3 :=
  ⟨.empty, rfl, (channel_layout_fits .empty 4096 8192 8 3 rfl).mpr ⟨by decide, by decide⟩ 8192 (.inr rfl)⟩

/-- With 2^32 - 1 buffers the ring has no slot, with 2^28 - 1 the descriptors have no
room, and with slots of 2^31 bytes the third one lies on the first. -/
theorem channel_layout_wraps :
    (ChannelSystem.empty.newWithBuffers 4096 8192 1 (2 ^ 32 - 1)).2 = .returns 0 ∧
    ((ChannelSystem.empty.newWithBuffers 4096 8192 1 (2 ^ 32 - 1)).1.ring 4096).maxCount = 0 ∧
    (ChannelSystem.empty.newWithBuffers 4096 8192 16 (2 ^ 28 - 1)).2 = .returns 0 ∧
    ChannelRing.allocation 16 (2 ^ 28 - 1) = ChannelRing.sizeofChannel ∧
    ¬ ((ChannelSystem.empty.newWithBuffers 4096 8192 16 (2 ^ 28 - 1)).1.ring 4096).descriptors 4096 ⊆
      ChannelRing.block 4096 16 (2 ^ 28 - 1) ∧
    (ChannelSystem.empty.newWithBuffers 4096 8192 (2 ^ 31) 2).2 = .returns 0 ∧
    ((ChannelSystem.empty.newWithBuffers 4096 8192 (2 ^ 31) 2).1.ring 4096).slotData 4096 2 0 =
      ((ChannelSystem.empty.newWithBuffers 4096 8192 (2 ^ 31) 2).1.ring 4096).slotData 4096 2 2 := by
  have returns : ∀ size buffers, (ChannelSystem.empty.newWithBuffers 4096 8192 size buffers).2 = .returns 0 :=
    fun _ _ => rfl
  have ring : ∀ size buffers, (ChannelSystem.empty.newWithBuffers 4096 8192 size buffers).1.ring 4096 =
      .new size buffers := fun size buffers => ChannelSystem.newWithBuffers_ring (returns size buffers) (.inl rfl)
  refine ⟨returns _ _, ?_, returns _ _, by decide, ?_, returns _ _, ?_⟩
  · rw [ring]
    rfl
  · rw [ring]
    intro inside
    have room := ChannelRing.le_of_Ico_subset inside (by decide)
    exact absurd room (by decide)
  · rw [ring, ChannelRing.slotData_new (by decide) (by decide), ChannelRing.slotData_new (by decide) (by decide)]
    rfl

end HevTaskSystem
