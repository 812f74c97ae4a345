import HevTaskSystem.RBTree.Erase

/-! Walking a tree in order.

The two directions of the source differ only by which child is followed, so each
walk is written once for a side. The first node of a tree holds the head of the
in-order sequence, and the next node of a member holds the member after it.
-/

set_option autoImplicit false

namespace HevTaskSystem.RBTree

open Foundation Foundation.RedBlack Foundation.RedBlack.Tree Foundation.RedBlack.Context

/-- `while (n->side) n = n->side;` -/
def descendPass (self : RBTree) (side : Side) (n : Addr) : Option (Foundation.Flow Addr Addr) := do
  let below ← self.loadChild side n
  if below ≠ 0 then
    return .next below
  else
    return .done n

/-- `while ((parent = hev_rbtree_node_parent (node)) && node == parent->side) node = parent;`
leaves `parent`. -/
def ascendPass (self : RBTree) (side : Side) (n : Addr) : Option (Foundation.Flow Addr Addr) := do
  let parent ← self.nodeParent n
  if parent ≠ 0 then
    if n = (← self.loadChild side parent) then
      return .next parent
    else
      return .done parent
  else
    return .done parent

def outermost (fuel : Nat) (self : RBTree) (side : Side) : Option Addr :=
  if self.root = 0 then some 0 else loop (self.descendPass side) fuel self.root

def nodeEmpty (self : RBTree) (n : Addr) : Option Bool := do
  return (← self.loadWord n) == n

def neighbour (fuel : Nat) (self : RBTree) (side : Side) (n : Addr) : Option Addr := do
  if ← self.nodeEmpty n then
    return 0
  let below ← self.loadChild side n
  if below ≠ 0 then
    loop (self.descendPass side.flip) fuel below
  else
    loop (self.ascendPass side) fuel n

def first (fuel : Nat) (self : RBTree) : Option Addr := self.outermost fuel .left

def nodeNext (fuel : Nat) (self : RBTree) (n : Addr) : Option Addr := self.neighbour fuel .right n

variable {mem : RBTree} {k path : Context Addr} {t l r : RedBlack.Tree Addr} {color : Color} {n s parent : Addr}
  {fuel : Nat} {order : List Addr}

theorem descend_spec (rep : mem.Rep (fill path (.node color .leaf s r)) parent)
    (down : ∀ f ∈ path, f.side = .left) (bound : path.length < fuel) :
    loop (mem.descendPass .left) fuel (addr (fill path (.node color .leaf s r))) = some s := by
  induction path using List.reverseRecOn generalizing fuel parent with
  | nil =>
    obtain ⟨fuel, rfl⟩ : ∃ m, fuel = m + 1 := ⟨fuel - 1, by simp at bound; omega⟩
    obtain ⟨nonnull, _, _, left, _⟩ := rep
    apply loop_succ_of_done
    simp [descendPass, addr, loadChild_eq, nonnull, left]
  | append_singleton path f ih =>
    obtain ⟨fuel, rfl⟩ : ∃ m, fuel = m + 1 := ⟨fuel - 1, by simp at bound; omega⟩
    obtain ⟨side, fc, label, sibling⟩ := f
    obtain rfl : side = .left := down ⟨side, fc, label, sibling⟩ (by simp)
    rw [fill_append] at rep ⊢
    obtain ⟨nonnull, _, _, left, _, inner, _⟩ := rep
    have next : mem.descendPass .left label =
        some (.next (addr (fill path (.node color .leaf s r)))) := by
      have nonempty := inner.fill_nonnull
      simp [descendPass, loadChild_eq, nonnull, left, nonempty]
    refine (loop_succ_of_next next).trans ?_
    exact ih inner (fun f member => down f (by simp [member])) (by simp at bound; omega)

theorem descend_head (rep : mem.Rep t parent) (nonempty : addr t ≠ 0) (bound : t.height ≤ fuel) :
    loop (mem.descendPass .left) fuel (addr t) = some (t.toList.headD 0) := by
  cases t with
  | leaf => exact absurd rfl nonempty
  | node color left a right =>
    obtain ⟨path, c, s, rest, same, down⟩ := exists_leftmost color left a right
    rw [same] at rep bound ⊢
    have short := length_add_height_le path (.node c .leaf s rest)
    have deeper := height_left_lt c .leaf s rest
    rw [descend_spec rep down (by omega), toList_fill, before_of_left down]
    rfl

theorem Represents.first_of_height (represents : mem.Represents t) (bound : t.height ≤ fuel) :
    mem.first fuel = some (t.toList.headD 0) := by
  unfold first outermost
  rw [represents.root]
  by_cases empty : addr t = 0
  · rw [if_pos empty, represents.rep.eq_leaf empty]
    rfl
  · rw [if_neg empty]
    exact descend_head represents.rep empty bound

theorem Represents.first_eq (represents : mem.Represents t) (bound : t.toList.length ≤ fuel) :
    mem.first fuel = some (t.toList.headD 0) :=
  represents.first_of_height (Nat.le_trans t.height_le_length bound)

theorem first_spec (holds : mem.Holds order) (bound : maxHeight order.length ≤ fuel) :
    mem.first fuel = some (order.headD 0) := by
  obtain ⟨t, represents, valid, rfl⟩ := holds
  exact represents.first_of_height (Nat.le_trans valid.height_le bound)

theorem ascend_spec (here : mem.At k t) (nonempty : addr t ≠ 0) (bound : k.length < fuel) :
    loop (mem.ascendPass .right) fuel (addr t) = some ((after k).headD 0) := by
  induction k generalizing t fuel with
  | nil =>
    obtain ⟨fuel, rfl⟩ : ∃ m, fuel = m + 1 := ⟨fuel - 1, by simp at bound; omega⟩
    have pc := here.rep.root_word nonempty
    apply loop_succ_of_done
    simp [ascendPass, nodeParent, loadWord_eq, nonempty, pc, wordParent_word, after]
  | cons f k ih =>
    obtain ⟨fuel, rfl⟩ : ∃ m, fuel = m + 1 := ⟨fuel - 1, by simp at bound; omega⟩
    obtain ⟨side, fc, label, sibling⟩ := f
    have pc := here.rep.root_word nonempty
    obtain ⟨nonnull, aligned, _, near, far, _, _⟩ := here.context
    simp only at nonnull aligned near far
    have up : mem.nodeParent (addr t) = some label := by
      simp [nodeParent, loadWord_eq, nonempty, pc, wordParent_word aligned]
    cases side with
    | left =>
      -- A left child is not the right one, so the loop stops at its parent.
      have apart : addr t ≠ addr sibling := by
        intro same
        have outer : addr sibling ∈ labels (⟨.left, fc, label, sibling⟩ :: k) := by
          simp [labels, addr_mem (same ▸ nonempty)]
        exact here.apart outer (same ▸ addr_mem nonempty)
      apply loop_succ_of_done
      simp only [Side.flip] at far
      simp [ascendPass, up, nonnull, loadChild_eq, far, apart, after]
    | right =>
      have next : mem.ascendPass .right (addr t) = some (.next label) := by
        simp [ascendPass, up, nonnull, loadChild_eq, near]
      rw [loop_succ_of_next next]
      have up' := at_cons.mp here
      have result := ih up' (by simpa using nonnull) (by simp at bound; omega)
      rwa [addr_build] at result

theorem nodeEmpty_spec (here : mem.At k (.node color l n r)) : mem.nodeEmpty n = some false := by
  obtain ⟨nonnull, aligned, pc, _⟩ := here.rep
  have outside : above k ≠ n := (here.ne_above (by simp [toList])).symm
  have other := word_ne (aligned_above here.context) color aligned outside
  simp [nodeEmpty, loadWord_eq, nonnull, pc, other]

theorem nodeNext_at (here : mem.At k (.node color l n r)) (bound : r.height ≤ fuel)
    (bound' : k.length < fuel) : mem.nodeNext fuel n = some ((r.toList ++ after k).headD 0) := by
  obtain ⟨nonnull, _, _, _, right, _, rrep⟩ := here.rep
  simp only [nodeNext, neighbour, nodeEmpty_spec here, Option.bind_eq_bind, Option.bind_some,
    loadChild_eq _ _ nonnull, right]
  by_cases empty : addr r = 0
  · have climb : loop (mem.ascendPass .right) fuel n = some ((after k).headD 0) :=
      ascend_spec here nonnull bound'
    obtain rfl := rrep.eq_leaf empty
    simpa using climb
  · have down := descend_head rrep empty bound
    have head : (r.toList ++ after k).headD 0 = r.toList.headD 0 := by
      cases order : r.toList with
      | nil => exact absurd (order ▸ addr_mem empty) List.not_mem_nil
      | cons a rest => rfl
    simp only [Side.flip, down, head, empty, ne_eq, not_false_eq_true, if_true]
    rfl

theorem Represents.nodeNext_of_height {front rest : List Addr} (represents : mem.Represents t)
    (same : t.toList = front ++ n :: rest) (bound : t.height ≤ fuel) :
    mem.nodeNext fuel n = some (rest.headD 0) := by
  have member : n ∈ t.toList := by simp [same]
  obtain ⟨k, color, l, r, rfl⟩ := exists_context member
  have nodup := represents.nodup
  have outside := not_mem_of_nodup_fill nodup
  rw [toList_fill_node] at same
  have split := (List.append_cons_inj_of_notMem outside.1 outside.2).mp same
  have high := length_add_height_le k (.node color l n r)
  have deeper := height_right_lt color l n r
  rw [nodeNext_at (at_iff.mpr represents) (by omega) (by omega), split.2.2]

theorem Represents.nodeNext_eq {front rest : List Addr} (represents : mem.Represents t)
    (same : t.toList = front ++ n :: rest) (bound : t.toList.length ≤ fuel) :
    mem.nodeNext fuel n = some (rest.headD 0) :=
  represents.nodeNext_of_height same (Nat.le_trans t.height_le_length bound)

theorem nodeNext_spec {front rest : List Addr} (holds : mem.Holds (front ++ n :: rest))
    (bound : maxHeight (front ++ n :: rest).length ≤ fuel) : mem.nodeNext fuel n = some (rest.headD 0) := by
  obtain ⟨t, represents, valid, same⟩ := holds
  rw [← same] at bound
  exact represents.nodeNext_of_height same (Nat.le_trans valid.height_le bound)

end HevTaskSystem.RBTree
