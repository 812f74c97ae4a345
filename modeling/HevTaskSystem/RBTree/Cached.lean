import HevTaskSystem.RBTree.Navigate
import HevTaskSystem.RBTree.Operations

/-! Trees with a cached leftmost node, and insertion by descent.

The scheduler and the timer look for the slot of a new node themselves. Their
loops differ only in the comparison that sends them to the left; both clear the
`leftmost` flag as soon as they go right. Cached insertion, erasure and
replacement keep the cached pointer at the head of the in-order sequence.
-/

set_option autoImplicit false

namespace HevTaskSystem

open Foundation Foundation.RedBlack Foundation.RedBlack.Tree Foundation.RedBlack.Context

structure RBTreeCached where
  base : RBTree
  leftmost : Addr

namespace RBTreeCached

open HevTaskSystem.RBTree

def cachedFirst (self : RBTreeCached) : Addr := self.leftmost

def cachedInsertColor (fuel : Nat) (self : RBTreeCached) (n : Addr) (leftmost : Bool) :
    Option RBTreeCached := do
  let self := if leftmost then { self with leftmost := n } else self
  return { self with base := ← self.base.insertColor fuel n }

def cachedReplace (self : RBTreeCached) (victim new : Addr) : Option RBTreeCached := do
  let self := { self with base := ← self.base.replace victim new }
  return if self.leftmost = victim then { self with leftmost := new } else self

def cachedErase (fuel : Nat) (self : RBTreeCached) (n : Addr) : Option RBTreeCached := do
  let self ←
    if n = self.leftmost then
      pure { self with leftmost := ← self.base.nodeNext fuel n }
    else
      pure self
  return { self with base := ← self.base.erase fuel n }

/-! ## Insertion by descent -/

/-- The locals `new`, `parent` and `leftmost` of an insertion loop. -/
structure Descent where
  link : Slot
  parent : Addr
  leftmost : Bool

/-- `while (*new) { … }` where `less` compares the inserted node with `*new`. -/
def descentPass (self : RBTree) (less : Addr → Bool) (s : Descent) :
    Option (Foundation.Flow Descent Descent) := do
  let this ← self.loadSlot s.link
  if this ≠ 0 then
    if less this then
      return .next ⟨.child .left this, this, s.leftmost⟩
    else
      return .next ⟨.child .right this, this, false⟩
  else
    return .done s

def insertBy (fuel : Nat) (self : RBTreeCached) (less : Addr → Bool) (n : Addr) :
    Option RBTreeCached := do
  let s ← loop (descentPass self.base less) fuel ⟨.root, 0, true⟩
  let self := { self with base := ← self.base.nodeLink n s.parent s.link }
  self.cachedInsertColor fuel n s.leftmost

section Descent

variable {mem : RBTree} {less : Addr → Bool} {whole : RedBlack.Tree Addr}

/-- The loop has come down to the hole of `k`, turning at every frame as `less` said. -/
structure Descended (mem : RBTree) (less : Addr → Bool) (whole : RedBlack.Tree Addr) (s : Descent)
    (k : Context Addr) (t : RedBlack.Tree Addr) : Prop where
  here : mem.At k t
  whole : fill k t = whole
  link : s.link = slot k
  parent : s.parent = above k
  leftmost : s.leftmost = true ↔ before k = []
  turns : ∀ f ∈ k, f.side = if less f.label then .left else .right

theorem loadSlot_slot {k : Context Addr} {t : RedBlack.Tree Addr} (here : mem.At k t) :
    mem.loadSlot (slot k) = some (addr t) := by
  cases k with
  | nil => exact congrArg some here.context
  | cons f k =>
    obtain ⟨nonnull, _, _, near, _⟩ := here.context
    simp only [slot, loadSlot, loadChild_eq _ _ nonnull, near]

theorem descentPass_spec {s : Descent} {k : Context Addr} {t : RedBlack.Tree Addr}
    (descended : Descended mem less whole s k t) :
    ∃ flow, descentPass mem less s = some flow ∧
      Pass (fun rank s => ∃ k t, Descended mem less whole s k t ∧ t.height = rank)
        (fun s => ∃ k, Descended mem less whole s k .leaf) t.height flow := by
  obtain ⟨here, filled, link, parent, leftmost, turns⟩ := descended
  have load := loadSlot_slot here
  cases t with
  | leaf =>
    refine ⟨.done s, ?_, k, here, filled, link, parent, leftmost, turns⟩
    simp [descentPass, link, load]
  | node color left a right =>
    have nonnull : a ≠ 0 := here.rep.1
    have load' : mem.loadSlot (slot k) = some a := load
    -- One frame deeper; the path stays leftmost only while it turns left.
    by_cases smaller : less a = true
    · refine ⟨.next ⟨.child .left a, a, s.leftmost⟩, ?_, left.height, height_left_lt ..,
        ⟨.left, color, a, right⟩ :: k, left, ⟨at_cons.mpr here, filled, rfl, rfl, leftmost, ?_⟩, rfl⟩
      · simp [descentPass, link, load', nonnull, smaller]
      · intro f member
        rcases List.mem_cons.mp member with rfl | outer
        · simp [smaller]
        · exact turns f outer
    · refine ⟨.next ⟨.child .right a, a, false⟩, ?_, right.height, height_right_lt ..,
        ⟨.right, color, a, left⟩ :: k, right, ⟨at_cons.mpr here, filled, rfl, rfl, ?_, ?_⟩, rfl⟩
      · simp [descentPass, link, load', nonnull, smaller]
      · simp [before]
      · intro f member
        rcases List.mem_cons.mp member with rfl | outer
        · simp [smaller]
        · exact turns f outer

theorem descent_spec {fuel : Nat} (represents : mem.Represents whole) (bound : whole.height < fuel) :
    ∃ s, loop (descentPass mem less) fuel ⟨.root, 0, true⟩ = some s ∧
      ∃ k, Descended mem less whole s k .leaf := by
  have pass : ∀ rank s, (∃ k t, Descended mem less whole s k t ∧ t.height = rank) → _ :=
    fun _ _ ⟨_, _, descended, same⟩ => same ▸ descentPass_spec descended
  have start : Descended mem less whole ⟨.root, 0, true⟩ [] whole :=
    ⟨at_iff.mpr represents, rfl, rfl, rfl, by simp [before], by simp⟩
  exact loop_total pass ⟨[], whole, start, rfl⟩ bound

/-- Along a sequence on which `less` only ever turns true, the hole separates the
labels that are not less from those that are. -/
theorem Descended.separates {s : Descent} {k : Context Addr} (descended : Descended mem less whole s k .leaf)
    (sorted : whole.toList.Pairwise fun a b => less a = true → less b = true) :
    (∀ a ∈ before k, less a = false) ∧ ∀ a ∈ after k, less a = true := by
  have turns := descended.turns
  rw [← descended.whole] at sorted
  -- By induction on the context the subtree in the hole grows, so it may be any tree.
  clear descended
  generalize RedBlack.Tree.leaf = t at sorted
  induction k generalizing t with
  | nil => simp [before, after]
  | cons f k ih =>
    obtain ⟨side, color, label, sibling⟩ := f
    have inner := ih (fun f member => turns f (List.mem_cons_of_mem _ member)) _ sorted
    have turn := turns _ List.mem_cons_self
    rw [fill_cons, toList_fill] at sorted
    have here := (List.pairwise_append.mp (List.pairwise_append.mp sorted).1).2.1
    cases side with
    | left =>
      have less' : less label = true := by
        by_contra other
        simp [other] at turn
      have right := (List.pairwise_cons.mp (List.pairwise_append.mp here).2.1).1
      refine ⟨inner.1, fun a member => ?_⟩
      simp only [after, List.cons_append, List.mem_cons, List.mem_append] at member
      rcases member with rfl | sib | outer
      · exact less'
      · exact right a sib less'
      · exact inner.2 a outer
    | right =>
      have less' : less label = false := by
        by_contra other
        simp [other] at turn
      have left := (List.pairwise_append.mp here).2.2
      refine ⟨fun a member => ?_, inner.2⟩
      simp only [before, List.mem_append, List.mem_singleton] at member
      rcases member with outer | sib | rfl
      · exact inner.1 a outer
      · have step := left a sib label List.mem_cons_self
        by_contra other
        simp [step (by simpa using other)] at less'
      · exact less'

end Descent

/-! ## The cached pointer -/

/-- The tree holds the sequence and the cached pointer is its head, NULL if it is empty. -/
structure Holds (tree : RBTreeCached) (order : List Addr) : Prop where
  base : tree.base.Holds order
  leftmost : tree.leftmost = order.headD 0

variable {tree : RBTreeCached} {order : List Addr} {less : Addr → Bool} {n v : Addr} {fuel : Nat}

/-- The new node splits the sequence; where `less` is monotone along it, it comes
after the nodes that are not less and before those that are. -/
theorem insertBy_spec (holds : tree.Holds order) (nonnull : n ≠ 0) (aligned : 4 ∣ n) (fresh : n ∉ order)
    (bound : maxHeight order.length < fuel) :
    ∃ other front back, tree.insertBy fuel less n = some other ∧ other.Holds (front ++ n :: back) ∧
      front ++ back = order ∧ ((order.Pairwise fun a b => less a = true → less b = true) →
        (∀ a ∈ front, less a = false) ∧ ∀ a ∈ back, less a = true) := by
  obtain ⟨⟨t, represents, valid, rfl⟩, leftmost⟩ := holds
  obtain ⟨s, run, k, descended⟩ := @descent_spec _ less _ _ represents
    (Nat.lt_of_le_of_lt valid.height_le bound)
  have whole := descended.whole
  subst whole
  have position : before k ++ after k = (fill k .leaf).toList := by simp [toList_fill]
  have short := length_le_maxHeight valid
  obtain ⟨base, insert, holds⟩ := @linkInsert_spec _ _ _ fuel descended.here valid nonnull aligned
    (fun inside => fresh (mem_fill.mpr (.inl inside))) (by omega)
  refine ⟨⟨base, if s.leftmost then n else tree.leftmost⟩, before k, after k, ?_, ⟨holds, ?_⟩, position,
    descended.separates⟩
  · rw [linkInsert, Option.bind_eq_bind, Option.bind_eq_some_iff] at insert
    obtain ⟨linked, link, color⟩ := insert
    simp only [insertBy, run, descended.parent, descended.link, link, cachedInsertColor,
      Option.bind_eq_bind, Option.bind_some]
    cases s.leftmost <;> simp [color]
  -- The flag of the descent says whether anything comes before the hole.
  · cases h : before k with
    | nil => simp [descended.leftmost.mpr h]
    | cons a rest =>
      have right : s.leftmost = false := by
        by_contra other
        simp [descended.leftmost.mp (by simpa using other)] at h
      rw [leftmost, ← position, h, right]
      rfl

theorem cachedErase_spec (holds : tree.Holds order) (member : n ∈ order)
    (bound : maxHeight order.length ≤ fuel) :
    ∃ other, tree.cachedErase fuel n = some other ∧ other.Holds (order.erase n) := by
  obtain ⟨base, leftmost⟩ := holds
  obtain ⟨erased, run, after⟩ := erase_spec base member bound
  cases order with
  | nil => exact absurd member List.not_mem_nil
  | cons a rest =>
    have head : tree.leftmost = a := leftmost
    by_cases first : n = a
    · subst first
      have next : tree.base.nodeNext fuel n = some (rest.headD 0) := @nodeNext_spec _ _ _ [] rest base bound
      refine ⟨⟨erased, rest.headD 0⟩, ?_, after, ?_⟩
      · simp [cachedErase, head, next, run]
      · simp
    · refine ⟨⟨erased, tree.leftmost⟩, ?_, after, ?_⟩
      · simp [cachedErase, head, first, run]
      · rw [List.erase_cons_tail (by simpa using Ne.symm first), head]
        rfl

theorem cachedReplace_spec (holds : tree.Holds order) (member : v ∈ order) (nonnull : n ≠ 0)
    (aligned : 4 ∣ n) (fresh : n ∉ order) :
    ∃ other, tree.cachedReplace v n = some other ∧ other.Holds (order.replace v n) := by
  obtain ⟨base, leftmost⟩ := holds
  obtain ⟨replaced, run, after⟩ := replace_spec base member nonnull aligned fresh
  cases order with
  | nil => exact absurd member List.not_mem_nil
  | cons a rest =>
    have head : tree.leftmost = a := leftmost
    by_cases first : a = v
    · subst first
      refine ⟨⟨replaced, n⟩, ?_, after, ?_⟩
      · simp [cachedReplace, run, head]
      · simp [List.replace_cons_self]
    · refine ⟨⟨replaced, tree.leftmost⟩, ?_, after, ?_⟩
      · simp [cachedReplace, run, head, first]
      · have other : (v == a) = false := by simpa using Ne.symm first
        rw [List.replace_cons, other, head]
        rfl

/-! ## Enough fuel -/

theorem insertBy_stable : Stable fun fuel => tree.insertBy fuel less n :=
  .bind .loop fun _ => .bind (.const _) fun _ => .bind insertColor_stable fun _ => .const _

theorem nodeNext_stable {mem : RBTree} : Stable fun fuel => mem.nodeNext fuel n :=
  .bind (.const _) fun _ => .ite (.const _) (.bind (.const _) fun _ => .ite .loop .loop)

theorem cachedErase_stable : Stable fun fuel => tree.cachedErase fuel n :=
  .ite (.bind nodeNext_stable fun _ => .bind (.const _) fun _ => .bind erase_stable fun _ => .const _)
    (.bind (.const _) fun _ => .bind erase_stable fun _ => .const _)

end RBTreeCached

end HevTaskSystem
