import HevTaskSystem.RBTree.Erase

/-! Rebalancing after an erase, seen from the head of its loop.

The source states three invariants there: `node` is NULL or black, it is not the root, and
every path through it has one black node fewer than the paths that avoid it. They hold in
every state that the loop reaches from what unlinking returns. The sibling and the nephews
are dereferenced without a check; in the model an access through NULL is a fault, and no
pass from such a state has one.
-/

set_option autoImplicit false

namespace HevTaskSystem.RBTree

open Foundation Foundation.RedBlack Foundation.RedBlack.Tree Foundation.RedBlack.Context

variable {mem : RBTree} {t x : RedBlack.Tree Addr} {k : Context Addr} {f : Frame Addr} {order : List Addr}
  {n : Addr} {fuel depth height : Nat} {s : EraseState}

/-- The loop invariants of `_hev_rbtree_erase_color`: `x` is the subtree at `node`, and the
context holds the rest of the tree. The paths of the tree are those through `x` and those
beside it. -/
structure LoopInvariant (s : EraseState) (k : Context Addr) (x : RedBlack.Tree Addr) (count : Nat) : Prop where
  tree : s.mem.Represents (fill k x)
  node : s.node = addr x
  parent : s.parent = above k
  black : s.mem.nodeIsBlackIf s.node = some true
  notRoot : s.parent ≠ 0 ∧ s.node ≠ s.mem.root
  paths : (fill k x).blackCounts.Perm (x.blackCounts.map (· + blackNodes k) ++ besideCounts k)
  through : ∀ c ∈ x.blackCounts, c + blackNodes k = count
  beside : besideCounts k ≠ [] ∧ ∀ c ∈ besideCounts k, c = count + 1

/-- The sibling of `node`, the child of `parent` on `side`, is a node, and so is the near
nephew that case 1 dereferences below a red sibling. -/
structure Guarded (s : EraseState) (side : Side) (sibling : Addr) : Prop where
  child : s.mem.child side s.parent = s.node
  other : s.mem.child side.flip s.parent = sibling
  nonnull : sibling ≠ 0
  nephew : s.mem.nodeIsRed sibling = some true → s.mem.child side sibling ≠ 0

/-! ## Accesses through NULL are faults -/

theorem eraseColorRedSibling_null {side : Side} {parent sibling : Addr} (null : mem.child side sibling = 0) :
    mem.eraseColorRedSibling side parent sibling = none := by
  by_cases hs : sibling = 0
  · simp [eraseColorRedSibling, loadChild, hs]
  · by_cases hp : parent = 0
    · simp [eraseColorRedSibling, loadChild_eq, storeChild, hs, hp]
    · simp [eraseColorRedSibling, loadChild_eq, storeChild_eq, hs, hp, null, nodeSetParentColor, storeWord]

theorem eraseColorRotate_null (mem : RBTree) (side : Side) (parent sibling : Addr) :
    mem.eraseColorRotate side parent sibling 0 = none := by
  by_cases hs : sibling = 0
  · simp [eraseColorRotate, loadChild, hs]
  · by_cases hp : parent = 0
    · simp [eraseColorRotate, loadChild_eq, storeChild, hs, hp]
    · simp [eraseColorRotate, loadChild_eq, storeChild_eq, hs, hp, nodeSetParentColor, storeWord]

/-- The loop does not get past a NULL sibling, a NULL near nephew in case 1 or a NULL far
nephew in case 4. -/
structure NullFaults (mem : RBTree) (side : Side) (parent : Addr) : Prop where
  sibling : mem.eraseColorSide side parent 0 = none
  near : ∀ sibling, mem.child side sibling = 0 → mem.eraseColorRedSibling side parent sibling = none
  far : ∀ sibling, mem.eraseColorRotate side parent sibling 0 = none

theorem nullFaults (mem : RBTree) (side : Side) (parent : Addr) : NullFaults mem side parent :=
  ⟨rfl, fun _ => eraseColorRedSibling_null, eraseColorRotate_null mem side parent⟩

/-! ## States at the head of the loop -/

theorem EraseInv.loopInvariant (inv : EraseInv order depth s f k x height) :
    LoopInvariant s (f :: k) x (height + blackNodes (f :: k)) := by
  obtain ⟨here, node, parent, black, balanced, hole, _, _⟩ := inv
  have represents := at_iff.mp here
  obtain ⟨pn, aligned, _, _, _, _, _⟩ := here.context
  refine ⟨represents, node, parent, ?_, ⟨parent ▸ pn, ?_⟩, blackCounts_fill _ x, ?_, ?_, ?_⟩
  · rw [node, here.rep.nodeIsBlackIf aligned, black]
    rfl
  · -- The root is above the hole.
    rw [node, represents.root]
    have member : addr (fill (f :: k) x) ∈ labels (f :: k) := addr_fill_mem f k x
    exact addr_ne (represents.rep.ne_zero (mem_fill.mpr (.inl member))) (here.apart member)
  · intro c path
    rw [(balanced_iff.mp balanced).2 c path]
  · obtain ⟨c, path⟩ := exists_blackCount f.sibling
    exact List.ne_nil_of_mem (List.mem_append_left _ (List.mem_map_of_mem path))
  · intro c path
    have count := hole.besideCounts_eq path
    omega

theorem EraseInv.guarded (inv : EraseInv order depth s f k x height) : Guarded s f.side (addr f.sibling) := by
  obtain ⟨here, node, parent, black, balanced, hole, _, _⟩ := inv
  obtain ⟨_, aligned, _, child, other, sib, _⟩ := here.context
  have nonnull := sib.nonnull_of_balanced hole.sibling
  refine ⟨by rw [parent, child, node], by rw [parent, other], nonnull, fun red => ?_⟩
  -- The children of a red sibling have as many black nodes below them as it has.
  have color : f.sibling.color = .red := by
    rw [sib.nodeIsRed aligned nonnull] at red
    simpa using red
  obtain ⟨label, near, far, same⟩ := exists_build_of_red f.side color
  have short := hole.sibling
  rw [same] at sib short ⊢
  obtain ⟨_, _, _, left, _, nearRep, _⟩ := rep_build.mp sib
  rw [addr_build, left]
  exact nearRep.nonnull_of_balanced (balanced_build_red.mp short).1

theorem Deficient.eraseInv {rebalance : Addr} (deficient : mem.Deficient rebalance order f k) :
    EraseInv order k.length ⟨mem, 0, rebalance⟩ f k .leaf 0 :=
  ⟨deficient.here, rfl, deficient.start, rfl, rfl, deficient.hole, rfl, deficient.same⟩

/-- Unlinking a member of a red-black tree returns. When it returns a parent, every state
that the rebalancing loop reaches from there satisfies the loop invariants, the pass from
it dereferences no NULL, and the loop ends. -/
theorem erase_rebalances (represents : mem.Represents t) (valid : t.Valid) (member : n ∈ t.toList)
    (bound : t.toList.length ≤ fuel) :
    ∃ mid rebalance, mem.eraseUnlink fuel n = some (mid, rebalance) ∧
      (rebalance ≠ 0 →
        (∀ s, Relation.ReflTransGen (Follows eraseColorPass) ⟨mid, 0, rebalance⟩ s →
          (∃ k x count, LoopInvariant s k x count) ∧ (∃ side sibling, Guarded s side sibling) ∧
            ∃ flow, eraseColorPass s = some flow) ∧
        ∃ other, mid.eraseColor fuel rebalance = some other) ∧
      ∀ other side parent, NullFaults other side parent := by
  obtain ⟨mid, rebalance, unlink, outcome⟩ := eraseUnlink_member represents valid member bound
  refine ⟨mid, rebalance, unlink, fun nonnull => ?_, nullFaults⟩
  obtain ⟨f, k, deficient, short⟩ := outcome.resolve_left fun done => nonnull done.1
  have pass : ∀ depth s, EraseLoop (t.toList.erase n) depth s → _ :=
    fun _ _ ⟨_, _, _, _, inv⟩ => eraseColorPass_spec inv
  have start : EraseLoop (t.toList.erase n) k.length ⟨mid, 0, rebalance⟩ := ⟨f, k, .leaf, 0, deficient.eraseInv⟩
  constructor
  · intro s reached
    obtain ⟨_, f, k, x, height, inv⟩ := invariant_of_follows pass start reached
    obtain ⟨flow, returns, _⟩ := eraseColorPass_spec inv
    exact ⟨⟨_, x, _, inv.loopInvariant⟩, ⟨_, _, inv.guarded⟩, flow, returns⟩
  · obtain ⟨other, returns, _⟩ := loop_total pass start short
    exact ⟨other, returns⟩

def blackSeven : RBTree where
  root := 16
  parentColor
    | 16 => word 0 .black
    | 8 | 24 => word 16 .black
    | 4 | 12 => word 8 .black
    | _ => word 24 .black
  child
    | .left, 16 => 8
    | .right, 16 => 24
    | .left, 8 => 4
    | .right, 8 => 12
    | .left, 24 => 20
    | .right, 24 => 28
    | _, _ => 0

/-- Erasing a leaf of a tree of black nodes only: the missing node moves up to the root. -/
theorem erase_rebalances_seven : ∃ mid other, blackSeven.eraseUnlink 7 4 = some (mid, 8) ∧
    mid.eraseColor 7 8 = some other := by
  have leaf : ∀ a, (RedBlack.Tree.node .black .leaf a .leaf : RedBlack.Tree Addr).Balanced 1 :=
    fun a => ⟨0, rfl, rfl, rfl⟩
  have represents : blackSeven.Represents (.node .black
      (.node .black (.node .black .leaf 4 .leaf) 8 (.node .black .leaf 12 .leaf)) 16
      (.node .black (.node .black .leaf 20 .leaf) 24 (.node .black .leaf 28 .leaf))) :=
    ⟨rfl, by simp [Rep, blackSeven, addr], by decide⟩
  obtain ⟨mid, rebalance, unlink, rest, _⟩ := erase_rebalances represents
    (.of_balanced rfl ⟨2, rfl, ⟨1, rfl, leaf 4, leaf 12⟩, ⟨1, rfl, leaf 20, leaf 28⟩⟩)
    (show 4 ∈ [4, 8, 12, 16, 20, 24, 28] by decide) (show 7 ≤ 7 by decide)
  have start : (blackSeven.eraseUnlink 7 4).map Prod.snd = some 8 := rfl
  rw [unlink] at start
  cases start
  obtain ⟨other, returns⟩ := (rest (by decide)).2
  exact ⟨mid, other, unlink, returns⟩

end HevTaskSystem.RBTree
