import HevTaskSystem.RBTree.Cached

/-! Searching a tree by keys that all differ, and insertion that refuses an equal key.

A search compares at every node: it turns to a side, or it has found the node it looks
for. A guide says for every node where the search turns there; it must agree with the
in-order sequence, so that nothing is on the side the search leaves.
-/

set_option autoImplicit false

namespace HevTaskSystem.RBTree

open Foundation Foundation.RedBlack Foundation.RedBlack.Tree Foundation.RedBlack.Context

/-- `while (node) { … }`, where `toward` reads the key of a node and says the side to turn
to, or that the node is the one sought. -/
def searchPass (self : RBTree) (toward : Addr → Option (Option Side)) (n : Addr) :
    Option (Foundation.Flow Addr Addr) := do
  if n = 0 then
    return .done 0
  else
    match ← toward n with
    | some side => return .next (← self.loadChild side n)
    | none => return .done n

def search (fuel : Nat) (self : RBTree) (toward : Addr → Option (Option Side)) : Option Addr :=
  loop (searchPass self toward) fuel self.root

/-- `while (*new) { … }` with the locals `new` and `parent`; it gives up at an equal key. -/
def placePass (self : RBTree) (toward : Addr → Option (Option Side)) (s : Slot × Addr) :
    Option (Foundation.Flow (Slot × Addr) (Option (Slot × Addr))) := do
  let this ← self.loadSlot s.1
  if this ≠ 0 then
    match ← toward this with
    | some side => return .next (.child side this, this)
    | none => return .done none
  else
    return .done (some s)

/-- The loop, and `hev_rbtree_node_link` with `hev_rbtree_insert_color` unless it gave up. -/
def insertDistinct (fuel : Nat) (self : RBTree) (toward : Addr → Option (Option Side)) (n : Addr) :
    Option (Option RBTree) := do
  match ← loop (placePass self toward) fuel (.root, 0) with
  | some (link, parent) => return some (← self.linkInsert fuel n parent link)
  | none => return none

/-- Left of a node that sends the search to the right it is sent to the right, and right of
a node that sends it to the left it is sent to the left. -/
def Guides (turn : Addr → Option Side) (order : List Addr) : Prop :=
  order.Pairwise fun a b => (turn a = some .left → turn b = some .left) ∧
    (turn b = some .right → turn a = some .right)

/-- The search has left everything outside the hole behind. -/
structure Aside (turn : Addr → Option Side) (k : Context Addr) : Prop where
  before : ∀ a ∈ before k, turn a = some .right
  after : ∀ a ∈ after k, turn a = some .left

variable {mem : RBTree} {toward : Addr → Option (Option Side)} {turn : Addr → Option Side} {order : List Addr}
  {whole : RedBlack.Tree Addr} {k : Context Addr} {fuel : Nat} {n : Addr}

theorem Aside.descend {side : Side} {color : Color} {near far : RedBlack.Tree Addr} {a : Addr} (aside : Aside turn k)
    (guides : Guides turn (fill k (build side color near a far)).toList) (turns : turn a = some side) :
    Aside turn (⟨side, color, a, far⟩ :: k) := by
  rw [Guides, toList_fill] at guides
  have here := (List.pairwise_append.mp (List.pairwise_append.mp guides).1).2.1
  cases side with
  | left =>
    have right := (List.pairwise_cons.mp (List.pairwise_append.mp here).2.1).1
    refine ⟨aside.before, fun b member => ?_⟩
    simp only [Context.after, List.cons_append, List.mem_cons, List.mem_append] at member
    rcases member with rfl | far | outer
    · exact turns
    · exact (right b far).1 turns
    · exact aside.after b outer
  | right =>
    have left := (List.pairwise_append.mp here).2.2
    refine ⟨fun b member => ?_, aside.after⟩
    simp only [Context.before, List.mem_append, List.mem_singleton] at member
    rcases member with outer | far | rfl
    · exact aside.before b outer
    · exact (left b far a List.mem_cons_self).2 turns
    · exact turns

structure Searching (mem : RBTree) (turn : Addr → Option Side) (whole : RedBlack.Tree Addr) (k : Context Addr)
    (t : RedBlack.Tree Addr) : Prop where
  here : mem.At k t
  whole : fill k t = whole
  aside : Aside turn k

theorem Searching.start (represents : mem.Represents whole) : Searching mem turn whole [] whole :=
  ⟨at_iff.mpr represents, rfl, nofun, nofun⟩

theorem Searching.descend {color : Color} {left right : RedBlack.Tree Addr} {a : Addr} {side : Side}
    (searching : Searching mem turn whole k (.node color left a right)) (guides : Guides turn whole.toList)
    (turns : turn a = some side) :
    ∃ near far, Searching mem turn whole (⟨side, color, a, far⟩ :: k) near ∧ mem.child side a = addr near ∧
      near.height < (RedBlack.Tree.node color left a right).height := by
  obtain ⟨here, rfl, aside⟩ := searching
  obtain ⟨-, -, -, leftChild, rightChild, -⟩ := here.rep
  cases side with
  | left =>
    exact ⟨left, right, ⟨at_cons.mpr here, rfl, aside.descend guides turns⟩, leftChild, height_left_lt ..⟩
  | right =>
    exact ⟨right, left, ⟨at_cons.mpr here, rfl, aside.descend guides turns⟩, rightChild, height_right_lt ..⟩

theorem Searching.label_mem {color : Color} {left right : RedBlack.Tree Addr} {a : Addr}
    (searching : Searching mem turn whole k (.node color left a right)) : a ∈ whole.toList := by
  rw [← searching.whole, toList_fill_node]
  simp

theorem Searching.absent (searching : Searching mem turn whole k .leaf) : ∀ a ∈ whole.toList, turn a ≠ none := by
  intro a member
  rw [← searching.whole, toList_fill] at member
  simp only [toList, List.append_nil, List.mem_append] at member
  rcases member with left | right
  · simp [searching.aside.before a left]
  · simp [searching.aside.after a right]

theorem searchPass_spec {t : RedBlack.Tree Addr} (searching : Searching mem turn whole k t)
    (guides : Guides turn whole.toList) (reads : ∀ a ∈ whole.toList, toward a = some (turn a)) :
    ∃ flow, searchPass mem toward (addr t) = some flow ∧
      Pass (fun rank n => ∃ k t, Searching mem turn whole k t ∧ n = addr t ∧ t.height = rank)
        (fun n => n ∈ whole.toList ∧ turn n = none ∨ n = 0 ∧ ∀ a ∈ whole.toList, turn a ≠ none)
        t.height flow := by
  cases t with
  | leaf => exact ⟨.done 0, rfl, .inr ⟨rfl, searching.absent⟩⟩
  | node color left a right =>
    have nonnull : a ≠ 0 := searching.here.rep.1
    have read := reads a searching.label_mem
    cases turns : turn a with
    | none =>
      refine ⟨.done a, ?_, .inl ⟨searching.label_mem, turns⟩⟩
      simp [searchPass, addr, nonnull, read, turns]
    | some side =>
      obtain ⟨near, far, next, child, smaller⟩ := searching.descend guides turns
      refine ⟨.next (addr near), ?_, _, smaller, _, near, next, rfl, rfl⟩
      simp [searchPass, addr, nonnull, read, turns, loadChild_eq, child]

theorem search_spec (holds : mem.Holds order) (guides : Guides turn order)
    (reads : ∀ a ∈ order, toward a = some (turn a)) (bound : maxHeight order.length < fuel) :
    ∃ n, mem.search fuel toward = some n ∧
      (n ∈ order ∧ turn n = none ∨ n = 0 ∧ ∀ a ∈ order, turn a ≠ none) := by
  obtain ⟨t, represents, valid, rfl⟩ := holds
  have pass : ∀ rank n, (∃ k u, Searching mem turn t k u ∧ n = addr u ∧ u.height = rank) → _ :=
    fun _ _ ⟨_, _, searching, same, high⟩ => same ▸ high ▸ searchPass_spec searching guides reads
  exact loop_total pass ⟨[], t, .start represents, represents.root, rfl⟩ (Nat.lt_of_le_of_lt valid.height_le bound)

theorem placePass_spec {s : Slot × Addr} {t : RedBlack.Tree Addr} (searching : Searching mem turn whole k t)
    (place : s = (slot k, above k)) (guides : Guides turn whole.toList)
    (reads : ∀ a ∈ whole.toList, toward a = some (turn a)) :
    ∃ flow, placePass mem toward s = some flow ∧
      Pass (fun rank s => ∃ k t, Searching mem turn whole k t ∧ s = (slot k, above k) ∧ t.height = rank)
        (fun place => (place = none ∧ ∃ a ∈ whole.toList, turn a = none) ∨
          ∃ k, Searching mem turn whole k .leaf ∧ place = some (slot k, above k))
        t.height flow := by
  subst place
  have load := RBTreeCached.loadSlot_slot searching.here
  cases t with
  | leaf =>
    refine ⟨.done (some (slot k, above k)), ?_, .inr ⟨k, searching, rfl⟩⟩
    simp [placePass, load]
  | node color left a right =>
    have nonnull : a ≠ 0 := searching.here.rep.1
    have load : mem.loadSlot (slot k) = some a := load
    have read := reads a searching.label_mem
    cases turns : turn a with
    | none =>
      refine ⟨.done none, ?_, .inl ⟨rfl, a, searching.label_mem, turns⟩⟩
      simp [placePass, load, nonnull, read, turns]
    | some side =>
      obtain ⟨near, far, next, -, smaller⟩ := searching.descend guides turns
      refine ⟨.next (.child side a, a), ?_, _, smaller, _, near, next, rfl, rfl⟩
      simp [placePass, load, nonnull, read, turns]

theorem insertDistinct_spec (holds : mem.Holds order) (guides : Guides turn order)
    (reads : ∀ a ∈ order, toward a = some (turn a)) (absent : ∀ a ∈ order, turn a ≠ none)
    (nonnull : n ≠ 0) (aligned : 4 ∣ n) (fresh : n ∉ order) (bound : maxHeight order.length < fuel) :
    ∃ other front back, mem.insertDistinct fuel toward n = some (some other) ∧ other.Holds (front ++ n :: back) ∧
      front ++ back = order ∧ (∀ a ∈ front, turn a = some .right) ∧ ∀ a ∈ back, turn a = some .left := by
  obtain ⟨t, represents, valid, rfl⟩ := holds
  have pass : ∀ rank s, (∃ k u, Searching mem turn t k u ∧ s = (slot k, above k) ∧ u.height = rank) → _ :=
    fun _ _ ⟨_, _, searching, same, high⟩ => high ▸ placePass_spec searching same guides reads
  obtain ⟨place, run, ⟨-, a, member, found⟩ | ⟨k, searching, rfl⟩⟩ :=
    loop_total pass ⟨[], t, .start represents, rfl, rfl⟩ (Nat.lt_of_le_of_lt valid.height_le bound)
  · exact absurd found (absent a member)
  · obtain ⟨here, rfl, aside⟩ := searching
    have short := length_le_maxHeight valid
    obtain ⟨other, insert, holds⟩ := @linkInsert_spec _ _ _ fuel here valid nonnull aligned
      (fun inside => fresh (mem_fill.mpr (.inl inside))) (by omega)
    refine ⟨other, before k, after k, ?_, holds, by simp [toList_fill], aside.before, aside.after⟩
    have place : loop (placePass mem toward) fuel (.root, 0) = some (some (slot k, above k)) := run
    simp [insertDistinct, place, insert]

theorem search_stable : Stable fun fuel => mem.search fuel toward := .loop

theorem insertDistinct_stable : Stable fun fuel => mem.insertDistinct fuel toward n := by
  refine .bind .loop fun place => ?_
  cases place with
  | none => exact .const _
  | some place => exact .bind (.bind (.const _) fun _ => insertColor_stable) fun _ => .const _

end HevTaskSystem.RBTree
