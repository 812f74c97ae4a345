import Mathlib.Algebra.BigOperators.Group.Finset.Basic
import HevTaskSystem.Memory.Slice

/-! What the slice allocator keeps: the lists of the classes, their number, and the list of
recently used classes.

Each part is a predicate on the fields it is about, with a lemma for every change of them.
-/

set_option autoImplicit false

namespace HevTaskSystem

open Foundation

/-! ## Recently used classes -/

variable {list : HevList} {nodes : ListNodes} {order front back : List Addr} {a : Addr}

theorem lruInsert_holds (holds : list.Holds nodes order) (nonnull : a ≠ 0) (fresh : a ∉ order) :
    (lruInsert list nodes a).1.Holds (lruInsert list nodes a).2 (a :: order) := by
  have nodup : (a :: order).Nodup := List.nodup_cons.mpr ⟨fresh, holds.nodup⟩
  have zero : 0 ∉ a :: order := by
    simp [holds.nonnull, nonnull.symm]
  have head := holds.head
  have tail := holds.tail
  unfold lruInsert
  cases order with
  | nil =>
    simp only [List.headD_nil, List.getLastD_nil] at head tail
    simp only [head, tail, ne_eq, not_true_eq_false, if_false, if_true]
    exact ⟨rfl, rfl, ⟨Function.update_self .., Function.update_self .., trivial⟩, nodup, zero⟩
  | cons b rest =>
    have other : b ≠ a := fun same => fresh (same ▸ List.mem_cons_self)
    have head : list.head = b := head
    have nonnull' : b ≠ 0 := fun null => holds.nonnull (null ▸ List.mem_cons_self)
    have last : list.tail ≠ 0 := by
      rw [tail]
      intro null
      rw [List.getLastD_eq_getLast?, List.getLast?_eq_some_getLast (List.cons_ne_nil b rest), Option.getD_some] at null
      exact holds.nonnull (null ▸ List.getLast_mem _)
    simp only [head, ne_eq, nonnull', not_false_eq_true, if_true, if_neg last]
    -- The old nodes keep their links, but for the one that was first.
    have kept : Linked (Function.update nodes.next a b) (Function.update nodes.prev a 0) 0 0 (b :: rest) := by
      refine holds.linked.congr fun c member => ?_
      have other := ne_of_mem_of_not_mem member fresh
      exact ⟨Function.update_of_ne other .., Function.update_of_ne other ..⟩
    refine ⟨rfl, ?_, ⟨?_, Function.update_self .., kept.set_prev (List.nodup_cons.mp holds.nodup).1 a⟩, nodup, zero⟩
    · rw [tail, List.getLastD_cons, List.getLastD_cons, List.getLastD_cons]
    · exact (Function.update_of_ne other.symm ..).trans (Function.update_self ..)

theorem HevList.Holds.ends (holds : list.Holds nodes (front ++ a :: back)) :
    (list.head = a ↔ nodes.prev a = 0) ∧ (list.tail = a ↔ nodes.next a = 0) := by
  obtain ⟨_, _, _, first, last⟩ := holds.place
  have apart := holds.nodup
  rw [first, last, holds.head, holds.tail]
  constructor
  · cases front with
    | nil => simp
    | cons b front =>
      have other : b ≠ a := by
        rintro rfl
        simp at apart
      simpa using other
  · rcases List.eq_nil_or_concat back with rfl | ⟨init, b, rfl⟩
    · simp
    · have other : b ≠ a := by
        rintro rfl
        simp [List.nodup_append] at apart
      rw [List.concat_eq_append, ← List.cons_append, ← List.append_assoc, List.getLastD_concat]
      simpa using other

theorem lruRemove_eq (holds : list.Holds nodes (front ++ a :: back)) :
    lruRemove list nodes a = list.del nodes a := by
  have other : nodes.prev a ≠ a := holds.place.2.2.1
  obtain ⟨head, tail⟩ := holds.ends
  unfold lruRemove HevList.del
  by_cases first : nodes.prev a = 0
  · by_cases last : nodes.next a = 0
    · simp [first, last, head.mpr first, tail.mpr last]
    · simp [first, last, head.mpr first, mt tail.mp last]
  · by_cases last : nodes.next a = 0
    · simp [first, last, other.symm, mt head.mp first, tail.mpr last]
    · simp [first, last, other.symm, mt head.mp first, mt tail.mp last]

theorem lruRemove_holds (holds : list.Holds nodes order) (member : a ∈ order) :
    (lruRemove list nodes a).1.Holds (lruRemove list nodes a).2 (order.erase a) := by
  obtain ⟨front, back, _, rfl, erased⟩ := List.exists_erase_eq member
  rw [erased, lruRemove_eq holds]
  exact HevList.del_holds holds

namespace SliceAllocator

/-- The classes with slices are listed, those used last first. -/
structure Recent (list : HevList) (nodes : ListNodes) (clock : Nat) (touched : Nat → Nat) (lists : Nat → List Addr)
    (order : List Addr) : Prop where
  holds : list.Holds nodes order
  members : ∀ n, n ∈ order ↔ n ≠ 0 ∧ lists (n - 1) ≠ []
  sorted : order.Pairwise fun m n => touched (n - 1) < touched (m - 1)
  past : ∀ i, touched i < clock

variable {clock : Nat} {touched : Nat → Nat} {lists : Nat → List Addr} {i : Nat}

theorem Recent.mem_class (recent : Recent list nodes clock touched lists order) :
    i + 1 ∈ order ↔ lists i ≠ [] := by
  rw [recent.members]
  simp

theorem Recent.congr {lists' : Nat → List Addr} (recent : Recent list nodes clock touched lists order)
    (same : ∀ j, lists' j = [] ↔ lists j = []) : Recent list nodes clock touched lists' order := by
  refine ⟨recent.holds, fun n => ?_, recent.sorted, recent.past⟩
  rw [recent.members]
  exact and_congr_right fun _ => (not_congr (same (n - 1))).symm

theorem Recent.remove (recent : Recent list nodes clock touched lists order) (some : lists i ≠ []) :
    Recent (lruRemove list nodes (i + 1)).1 (lruRemove list nodes (i + 1)).2 clock touched
      (Function.update lists i []) (order.erase (i + 1)) := by
  refine ⟨lruRemove_holds recent.holds (recent.mem_class.mpr some), fun n => ?_,
    recent.sorted.sublist List.erase_sublist, recent.past⟩
  rw [recent.holds.nodup.mem_erase_iff, recent.members]
  by_cases here : n - 1 = i
  · subst here
    rw [Function.update_self]
    refine iff_of_false (fun listed => ?_) fun listed => listed.2 rfl
    exact listed.1 (Nat.sub_add_cancel (Nat.one_le_iff_ne_zero.mpr listed.2.1)).symm
  · rw [Function.update_of_ne here]
    refine and_iff_right_of_imp fun listed => ?_
    rintro rfl
    exact here rfl

theorem Recent.insert {l : List Addr} (recent : Recent list nodes clock touched lists order) (empty : lists i = [])
    (some : l ≠ []) : Recent (lruInsert list nodes (i + 1)).1 (lruInsert list nodes (i + 1)).2 (clock + 1)
      (Function.update touched i clock) (Function.update lists i l) ((i + 1) :: order) := by
  have fresh : i + 1 ∉ order := fun member => recent.mem_class.mp member empty
  have elsewhere : ∀ n ∈ order, n - 1 ≠ i := by
    rintro n member rfl
    exact ((recent.members n).mp member).2 empty
  refine ⟨lruInsert_holds recent.holds (Nat.succ_ne_zero i) fresh, fun n => ?_, ?_, fun j => ?_⟩
  · rw [List.mem_cons, recent.members]
    by_cases here : n - 1 = i
    · subst here
      rw [Function.update_self]
      refine ⟨fun listed => ⟨?_, some⟩, fun listed => .inl ?_⟩
      · rcases listed with here | ⟨_, nonempty⟩
        · rw [here]
          exact Nat.succ_ne_zero _
        · exact absurd empty nonempty
      · exact (Nat.sub_add_cancel (Nat.one_le_iff_ne_zero.mpr listed.1)).symm
    · rw [Function.update_of_ne here]
      refine or_iff_right ?_
      rintro rfl
      exact here rfl
  -- The class is used now, after all others.
  · refine List.pairwise_cons.mpr ⟨fun n member => ?_, ?_⟩
    · rw [Function.update_of_ne (elsewhere n member), Nat.add_sub_cancel, Function.update_self]
      exact recent.past _
    · refine recent.sorted.imp_of_mem fun first second less => ?_
      rwa [Function.update_of_ne (elsewhere _ first), Function.update_of_ne (elsewhere _ second)]
  · by_cases here : j = i
    · subst here
      rw [Function.update_self]
      exact Nat.lt_succ_self clock
    · rw [Function.update_of_ne here]
      exact Nat.lt_succ_of_lt (recent.past j)

/-! ## The lists of the classes -/

def linkOf (blocks : Addr → Option Slice) (a : Addr) : Addr := (blocks a).elim 0 Slice.next

variable {mslices : Nat → Addr} {blocks : Addr → Option Slice} {slice : Slice} {rest : List Addr}

theorem linkOf_update (entry : Option Slice) :
    linkOf (Function.update blocks a entry) = Function.update (linkOf blocks) a (entry.elim 0 Slice.next) := by
  funext b
  by_cases here : b = a
  · subst here
    simp [linkOf]
  · simp [linkOf, here]

/-- Every class has its slices, each once, with its index and room for its size. -/
structure Lists (mslices : Nat → Addr) (blocks : Addr → Option Slice) (lists : Nat → List Addr) : Prop where
  chain : ∀ i, Chain (linkOf blocks) 0 (mslices i) (lists i)
  outside : ∀ i, Slice.maxIndex ≤ i → lists i = []
  slices : ∀ i, ∀ a ∈ lists i, ∃ slice, blocks a = some slice ∧ slice.index = i ∧
    (i + 1) * Slice.align ≤ slice.capacity
  nodup : ∀ i, (lists i).Nodup

theorem Lists.apart (ok : Lists mslices blocks lists) {j : Nat} (first : a ∈ lists i) (second : a ∈ lists j) : i = j := by
  obtain ⟨slice, found, index, _⟩ := ok.slices i a first
  obtain ⟨slice', found', index', _⟩ := ok.slices j a second
  cases found.symm.trans found'
  exact Int.ofNat.inj (index.symm.trans index')

theorem Lists.lt_maxIndex (ok : Lists mslices blocks lists) (some : lists i ≠ []) : i < Slice.maxIndex := by
  by_contra above
  exact some (ok.outside i (Nat.le_of_not_lt above))

theorem Lists.first (ok : Lists mslices blocks lists) (some : mslices i ≠ 0) :
    ∃ slice rest, lists i = mslices i :: rest ∧ blocks (mslices i) = .some slice ∧ slice.index = i ∧
      (i + 1) * Slice.align ≤ slice.capacity ∧ (slice.next = 0 ↔ rest = []) := by
  obtain ⟨rest, split, tail⟩ := (ok.chain i).of_ne_null some
  obtain ⟨slice, found, index, room⟩ := ok.slices i (mslices i) (split ▸ List.mem_cons_self)
  have next : linkOf blocks (mslices i) = slice.next := by simp [linkOf, found]
  rw [next] at tail
  exact ⟨slice, rest, split, found, index, room, tail.nil_iff.symm⟩

theorem Lists.setBlock (ok : Lists mslices blocks lists) (outside : ∀ j, a ∉ lists j) (entry : Option Slice) :
    Lists mslices (Function.update blocks a entry) lists := by
  refine ⟨fun j => ?_, ok.outside, fun j b member => ?_, ok.nodup⟩
  · rw [linkOf_update]
    exact (ok.chain j).update (outside j)
  · obtain ⟨slice, found, rest⟩ := ok.slices j b member
    exact ⟨slice, (Function.update_of_ne (ne_of_mem_of_not_mem member (outside j)) ..).trans found, rest⟩

theorem Lists.pop (ok : Lists mslices blocks lists) (split : lists i = a :: rest) (found : blocks a = some slice) :
    Lists (Function.update mslices i slice.next) blocks (Function.update lists i rest) := by
  have less : ∀ j b, b ∈ Function.update lists i rest j → b ∈ lists j := by
    intro j b member
    by_cases here : j = i
    · subst here
      rw [Function.update_self] at member
      exact split ▸ List.mem_cons_of_mem a member
    · rwa [Function.update_of_ne here] at member
  refine ⟨fun j => ?_, fun j above => ?_, fun j b member => ok.slices j b (less j b member), fun j => ?_⟩
  · by_cases here : j = i
    · subst here
      obtain ⟨_, _, tail⟩ := split ▸ ok.chain j
      rw [Function.update_self, Function.update_self]
      simpa [linkOf, found] using tail
    · rw [Function.update_of_ne here, Function.update_of_ne here]
      exact ok.chain j
  · by_cases here : j = i
    · subst here
      cases split.symm.trans (ok.outside j above)
    · rw [Function.update_of_ne here]
      exact ok.outside j above
  · by_cases here : j = i
    · subst here
      rw [Function.update_self]
      exact (List.nodup_cons.mp (split ▸ ok.nodup j)).2
    · rw [Function.update_of_ne here]
      exact ok.nodup j

theorem Lists.push (ok : Lists mslices blocks lists) (nonnull : a ≠ 0) (outside : ∀ j, a ∉ lists j)
    (index : slice.index = i) (below : i < Slice.maxIndex) (room : (i + 1) * Slice.align ≤ slice.capacity) :
    Lists (Function.update mslices i a) (Function.update blocks a (some { slice with next := mslices i }))
      (Function.update lists i (a :: lists i)) := by
  have others := ok.setBlock outside (some { slice with next := mslices i })
  refine ⟨fun j => ?_, fun j above => ?_, fun j b member => ?_, fun j => ?_⟩
  · by_cases here : j = i
    · subst here
      rw [Function.update_self, Function.update_self, linkOf_update]
      exact (ok.chain j).push nonnull (outside j)
    · rw [Function.update_of_ne here, Function.update_of_ne here]
      exact others.chain j
  · rw [Function.update_of_ne (by omega)]
    exact ok.outside j above
  · by_cases here : j = i
    · subst here
      rw [Function.update_self, List.mem_cons] at member
      rcases member with rfl | member
      · exact ⟨_, Function.update_self .., index, room⟩
      · exact others.slices j b member
    · rw [Function.update_of_ne here] at member
      exact others.slices j b member
  · by_cases here : j = i
    · subst here
      rw [Function.update_self]
      exact List.nodup_cons.mpr ⟨outside j, ok.nodup j⟩
    · rw [Function.update_of_ne here]
      exact ok.nodup j

def total (lists : Nat → List Addr) : Nat := ∑ i ∈ Finset.range Slice.maxIndex, (lists i).length

theorem total_update (below : i < Slice.maxIndex) (lists : Nat → List Addr) (l : List Addr) :
    total (Function.update lists i l) + (lists i).length = total lists + l.length := by
  have member := Finset.mem_range.mpr below
  have others : ∑ j ∈ (Finset.range Slice.maxIndex).erase i, (Function.update lists i l j).length =
      ∑ j ∈ (Finset.range Slice.maxIndex).erase i, (lists j).length :=
    Finset.sum_congr rfl fun j member => by rw [Function.update_of_ne (Finset.ne_of_mem_erase member)]
  unfold total
  rw [← Finset.add_sum_erase _ _ member, ← Finset.add_sum_erase _ (fun j => (lists j).length) member, others,
    Function.update_self]
  omega

theorem exists_of_total (some : total lists ≠ 0) : ∃ i, lists i ≠ [] := by
  by_contra none
  refine some (Finset.sum_eq_zero fun i _ => ?_)
  rw [not_not.mp (not_exists.mp none i)]
  rfl

/-! ## The caches of an allocator -/

structure Caches (maxCount : Nat) (mem : SliceAllocator) (lists : Nat → List Addr) (order : List Addr) : Prop where
  ok : Lists mem.cachedMslices mem.blocks lists
  recent : Recent mem.lru mem.lruNodes mem.clock mem.touched lists order
  count : mem.cachedCount = total lists
  bound : mem.cachedCount ≤ maxCount

variable {maxCount : Nat} {mem : SliceAllocator}

theorem Caches.new (lruNodes : ListNodes) : (new lruNodes).Caches maxCount (fun _ => []) [] := by
  refine ⟨⟨fun _ => rfl, fun _ _ => rfl, fun _ _ member => absurd member List.not_mem_nil, fun _ => .nil⟩,
    ⟨.empty lruNodes, fun n => ?_, .nil, fun _ => Nat.one_pos⟩, ?_, Nat.zero_le maxCount⟩
  · simp
  · simp [total, SliceAllocator.new]

theorem Caches.setBlock (caches : mem.Caches maxCount lists order) (outside : ∀ j, a ∉ lists j) (entry : Option Slice)
    (libc : Ledger Addr) (frees : List FreeCall) :
    Caches maxCount { mem with blocks := Function.update mem.blocks a entry, libc, frees } lists order :=
  ⟨caches.ok.setBlock outside entry, caches.recent, caches.count, caches.bound⟩

theorem Caches.count_pop (caches : mem.Caches maxCount lists order) (split : lists i = a :: rest) :
    mem.cachedCount - 1 = total (Function.update lists i rest) ∧ mem.cachedCount - 1 < maxCount := by
  have below := caches.ok.lt_maxIndex (i := i) (by simp [split])
  have counts := total_update below lists rest
  have count := caches.count
  have bound := caches.bound
  rw [split, List.length_cons] at counts
  omega

theorem Caches.hit (caches : mem.Caches maxCount lists order) (split : lists i = a :: rest)
    (found : mem.blocks a = some slice) (last : slice.next = 0 ↔ rest = []) :
    ∃ order', Caches maxCount (if ((mem.pop i slice).removeNode i).cachedMslices i ≠ 0 then
        ((mem.pop i slice).removeNode i).insertNode i else (mem.pop i slice).removeNode i)
      (Function.update lists i rest) order' := by
  have removed := caches.recent.remove (i := i) (by simp [split])
  obtain ⟨count, bound⟩ := caches.count_pop split
  have popped := caches.ok.pop split found
  have test : ((mem.pop i slice).removeNode i).cachedMslices i = slice.next := Function.update_self ..
  by_cases empty : rest = []
  · rw [if_neg (by rw [test, last.mpr empty]; simp)]
    subst empty
    exact ⟨_, popped, removed, count, Nat.le_of_lt bound⟩
  · rw [if_pos (by rw [test]; exact mt last.mp empty)]
    -- Out and in again: the class moves to the front.
    have inserted := removed.insert (i := i) (Function.update_self ..) empty
    rw [Function.update_idem] at inserted
    exact ⟨_, popped, inserted, count, Nat.le_of_lt bound⟩

theorem Caches.tail (caches : mem.Caches maxCount lists order) (full : mem.cachedCount ≠ 0) :
    mem.lru.tail ≠ 0 ∧ lists (mem.lru.tail - 1) ≠ [] ∧ ∀ j, lists j ≠ [] → j ≠ mem.lru.tail - 1 →
      mem.touched (mem.lru.tail - 1) < mem.touched j := by
  obtain ⟨i, some⟩ := exists_of_total (caches.count ▸ full)
  have member := caches.recent.mem_class.mpr some
  have tail := caches.recent.holds.tail
  rcases List.eq_nil_or_concat order with rfl | ⟨init, last, rfl⟩
  · cases member
  · rw [List.concat_eq_append] at *
    rw [List.getLastD_concat] at tail
    rw [tail]
    obtain ⟨nonnull, nonempty⟩ := (caches.recent.members last).mp (by simp)
    refine ⟨nonnull, nonempty, fun j some other => ?_⟩
    have place := caches.recent.mem_class.mpr some
    have sorted := (List.pairwise_append.mp caches.recent.sorted).2.2
    rcases List.mem_append.mp place with before | here
    · simpa using sorted (j + 1) before last (List.mem_singleton_self last)
    · rw [← List.mem_singleton.mp here] at other
      exact absurd (Nat.add_sub_cancel j 1).symm other

theorem Caches.drop (caches : mem.Caches maxCount lists order) (split : lists i = a :: rest)
    (found : mem.blocks a = some slice) (last : slice.next = 0 ↔ rest = []) :
    ∃ order', Caches maxCount (if (mem.pop i slice).cachedMslices i = 0 then (mem.pop i slice).removeNode i
      else mem.pop i slice) (Function.update lists i rest) order' := by
  obtain ⟨count, bound⟩ := caches.count_pop split
  have popped := caches.ok.pop split found
  have test : (mem.pop i slice).cachedMslices i = slice.next := Function.update_self ..
  by_cases empty : rest = []
  · rw [if_pos (by rw [test, last.mpr empty])]
    subst empty
    exact ⟨_, popped, caches.recent.remove (by simp [split]), count, Nat.le_of_lt bound⟩
  · rw [if_neg (by rw [test]; exact mt last.mp empty)]
    refine ⟨order, popped, caches.recent.congr fun j => ?_, count, Nat.le_of_lt bound⟩
    by_cases here : j = i
    · subst here
      simp [empty, split]
    · rw [Function.update_of_ne here]

theorem Caches.push (caches : mem.Caches maxCount lists order) (space : mem.cachedCount < maxCount)
    (nonnull : a ≠ 0) (outside : ∀ j, a ∉ lists j) (index : slice.index = i) (below : i < Slice.maxIndex)
    (room : (i + 1) * Slice.align ≤ slice.capacity) :
    ∃ order', Caches maxCount (mem.push a slice) (Function.update lists i (a :: lists i)) order' := by
  have number : slice.index.toNat = i := by omega
  have pushed := caches.ok.push nonnull outside index below room
  have count : mem.cachedCount + 1 = total (Function.update lists i (a :: lists i)) := by
    have counts := total_update below lists (a :: lists i)
    rw [List.length_cons] at counts
    have count := caches.count
    omega
  unfold SliceAllocator.push
  rw [number]
  have head := (caches.ok.chain i).nil_iff
  by_cases empty : mem.cachedMslices i = 0
  · simp only [empty, if_true]
    rw [empty] at pushed
    exact ⟨_, pushed, caches.recent.insert (head.mpr empty) (List.cons_ne_nil a _), count, space⟩
  · simp only [empty, if_false]
    refine ⟨order, pushed, caches.recent.congr fun j => ?_, count, space⟩
    by_cases here : j = i
    · subst here
      simp [mt head.mp empty]
    · rw [Function.update_of_ne here]

end SliceAllocator

end HevTaskSystem
