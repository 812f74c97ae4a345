import HevTaskSystem.Foundation.Loop
import HevTaskSystem.RBTree.Representation

/-! Insertion fix-up. -/

set_option autoImplicit false

namespace HevTaskSystem.RBTree

open Foundation Foundation.RedBlack Foundation.RedBlack.Tree Foundation.RedBlack.Context

/-- Loop state of `hev_rbtree_insert_color`: memory, `node` and `parent`. -/
structure InsertState where
  mem : RBTree
  node : Addr
  parent : Addr

/-- The two branches of the loop below a red parent are mirror images. Here the
parent is the child of `gparent` on `side` and `tmp` is the other child. -/
def insertColorSide (self : RBTree) (side : Side) (node parent gparent tmp : Addr) :
    Option (Foundation.Flow InsertState RBTree) := do
  if ← self.nodeIsRedIf tmp then
    -- Case 1: color flips.
    let self ← self.nodeSetParentColor tmp gparent .black
    let self ← self.nodeSetParentColor parent gparent .black
    let node := gparent
    let parent ← self.nodeParent node
    let self ← self.nodeSetParentColor node parent .red
    return .next ⟨self, node, parent⟩
  else
    let tmp ← self.loadChild side.flip parent
    let (self, parent, tmp) ←
      if node = tmp then do
        -- Case 2: rotate at parent.
        let tmp ← self.loadChild side node
        let self ← self.storeChild side.flip parent tmp
        let self ← self.storeChild side node parent
        let self ← self.nodeSetParentColorIf tmp parent .black
        let self ← self.nodeSetParentColor parent node .red
        let parent := node
        let tmp ← self.loadChild side.flip node
        pure (self, parent, tmp)
      else
        pure (self, parent, tmp)
    -- Case 3: rotate at gparent.
    let self ← self.storeChild side gparent tmp
    let self ← self.storeChild side.flip parent gparent
    let self ← self.nodeSetParentColorIf tmp gparent .black
    let self ← self.rotateSetParents gparent parent .red
    return .done self

def insertColorPass (s : InsertState) : Option (Foundation.Flow InsertState RBTree) := do
  if s.parent = 0 then
    return .done (← s.mem.nodeSetParentColor s.node 0 .black)
  if ← s.mem.nodeIsBlack s.parent then
    return .done s.mem
  let gparent ← s.mem.nodeRedParent s.parent
  let tmp ← s.mem.loadChild .right gparent
  if s.parent ≠ tmp then
    s.mem.insertColorSide .left s.node s.parent gparent tmp
  else
    let tmp ← s.mem.loadChild .left gparent
    s.mem.insertColorSide .right s.node s.parent gparent tmp

def insertColor (fuel : Nat) (self : RBTree) (node : Addr) : Option RBTree := do
  let parent ← self.nodeRedParent node
  loop insertColorPass fuel ⟨self, node, parent⟩

section Cases

variable {mem : RBTree} {side inner : Side} {k : Context Addr} {t near far sibling uncle : RedBlack.Tree Addr}
  {n p g : Addr}

theorem insertColorSide_flip
    (here : mem.At k (build side .black (build inner .red t p sibling) g uncle))
    (red : uncle.color = .red) :
    ∃ other, mem.insertColorSide side n p g (addr uncle) = some (.next ⟨other, g, above k⟩) ∧
      other.At k (build side .red (build inner .black t p sibling) g (uncle.paint .black)) := by
  obtain ⟨gn, ga, gw, gnear, gfar, prep, urep⟩ := rep_build.mp here.rep
  obtain ⟨pn, pa, pw, pnear, pfar, trep, srep⟩ := rep_build.mp prep
  obtain ⟨gout, gunc, pnodup, unodup, apart⟩ := nodup_build.mp here.nodup
  obtain ⟨pout, psib, tnodup, snodup, tsapart⟩ := nodup_build.mp pnodup
  have un : addr uncle ≠ 0 := urep.red_nonnull red
  have ured : mem.nodeIsRedIf (addr uncle) = some true := by rw [urep.nodeIsRedIf ga, red]; rfl
  have gpar : wordParent (word (above k) .black) = above k :=
    wordParent_word (aligned_above here.context) .black
  have umem := addr_mem un
  simp only [mem_build, not_or] at gout
  have gu : g ≠ addr uncle := by grind
  refine ⟨((mem.setWord (addr uncle) (word g .black)).setWord p (word g .black)).setWord g (word (above k) .red), ?_, ?_⟩
  · simp [insertColorSide, ured, nodeSetParentColor, storeWord_eq, un, pn, gn, nodeParent, loadWord_eq, gw, gpar, gout, gu]
  · refine here.update rfl ?_ ?_ ?_ ?_
    · have := here.apart
      grind [List.Disjoint]
    · simp only [rep_build]
      refine ⟨gn, ga, by simp, by simp [gnear], by simp [gfar], ⟨pn, pa, ?_, pnear, pfar, ?_, ?_⟩, ?_⟩
      · grind
      · exact trep.frame (by grind [List.Disjoint])
      · exact srep.frame (by grind [List.Disjoint])
      · exact urep.reparent unodup (by grind [List.Disjoint]) (by grind [List.Disjoint])
    · simp
    · cases side <;> cases inner <;> simp [build, toList]

theorem insertColorSide_outer
    (here : mem.At k (build side .black (build side .red t p far) g uncle))
    (black : uncle.color = .black) (outer : n ≠ addr far) :
    ∃ other, mem.insertColorSide side n p g (addr uncle) = some (.done other) ∧
      other.At k (build side .black t p (build side .red (far.paint .black) g uncle)) := by
  obtain ⟨gn, ga, gw, gnear, gfar, prep, urep⟩ := rep_build.mp here.rep
  obtain ⟨pn, pa, pw, pnear, pfar, trep, frep⟩ := rep_build.mp prep
  obtain ⟨gout, gunc, pnodup, unodup, apart⟩ := nodup_build.mp here.nodup
  obtain ⟨pout, psib, tnodup, fnodup, tfapart⟩ := nodup_build.mp pnodup
  have outside := @here.outside
  have ublack : mem.nodeIsRedIf (addr uncle) = some false := by rw [urep.nodeIsRedIf ga, black]; rfl
  -- The rotation at the grandparent, up to the two words of the rotated nodes.
  set mid := ((mem.setChild side g (addr far)).setChild side.flip p g).setWordIf (addr far) (word g .black)
    with hmid
  have rep : ((mid.setWord p (word (above k) .black)).setWord g (word p .red)).Rep
      (build side .black t p (build side .red (far.paint .black) g uncle)) (above k) := by
    simp only [rep_build]
    refine ⟨pn, pa, ?_, ?_, ?_, trep.frame ?_, gn, ga, ?_, ?_, ?_,
      frep.reparent fnodup ?_ ?_, urep.frame ?_⟩
    all_goals grind [List.Disjoint, Rep.ne_zero, addr_paint, addr_build]
  obtain ⟨other, rotate, done⟩ := here.rotate rep (addr_build ..) (addr_build ..) gn pn
    (by grind) (by simp [mid]) (by grind) (by cases side <;> simp [build, toList])
  refine ⟨other, ?_, done⟩
  simp [insertColorSide, ublack, loadChild_eq, storeChild_eq, pn, gn, pfar, outer,
    nodeSetParentColorIf_eq, ← hmid, rotate]

theorem insertColorSide_inner
    (here : mem.At k (build side .black
      (build side.flip .red (build side .red near n far) p sibling) g uncle))
    (black : uncle.color = .black) :
    ∃ other, mem.insertColorSide side n p g (addr uncle) = some (.done other) ∧
      other.At k (build side .black (build side .red sibling p (near.paint .black)) n
        (build side .red (far.paint .black) g uncle)) := by
  obtain ⟨gn, ga, gw, gnear, gfar, prep, urep⟩ := rep_build.mp here.rep
  obtain ⟨pn, pa, pw, pnear, pfar, nrep, srep⟩ := rep_build.mp prep
  obtain ⟨nn, na, nw, nnear, nfar, nearRep, farRep⟩ := rep_build.mp nrep
  obtain ⟨gout, gunc, pnodup, unodup, apart⟩ := nodup_build.mp here.nodup
  obtain ⟨pout, psib, nnodup, snodup, nsapart⟩ := nodup_build.mp pnodup
  obtain ⟨nnear', nfar', nearNodup, farNodup, nfapart⟩ := nodup_build.mp nnodup
  have outside := @here.outside
  have ublack : mem.nodeIsRedIf (addr uncle) = some false := by rw [urep.nodeIsRedIf ga, black]; rfl
  rw [addr_build] at pnear
  rw [Side.flip_flip] at pfar
  -- First the rotation at the parent, which makes it an outer case.
  set low := (((mem.setChild side.flip p (addr near)).setChild side n p).setWordIf (addr near)
    (word p .black)).setWord p (word n .red) with hlow
  have np : n ≠ p := by grind
  set mid := ((low.setChild side g (addr far)).setChild side.flip n g).setWordIf (addr far) (word g .black)
    with hmid
  have rep : ((mid.setWord n (word (above k) .black)).setWord g (word n .red)).Rep
      (build side .black (build side .red sibling p (near.paint .black)) n
        (build side .red (far.paint .black) g uncle)) (above k) := by
    simp only [rep_build]
    refine ⟨nn, na, ?_, ?_, ?_, ⟨pn, pa, ?_, ?_, ?_, srep.frame ?_, nearRep.reparent nearNodup ?_ ?_⟩,
      gn, ga, ?_, ?_, ?_, farRep.reparent farNodup ?_ ?_, urep.frame ?_⟩
    all_goals simp [mid, low, Agree]
    all_goals grind [List.Disjoint, Rep.ne_zero, addr_paint, addr_build]
  obtain ⟨other, rotate, done⟩ := here.rotate rep (addr_build ..) (addr_build ..) gn nn
    (by grind) (by simp [mid, low]) (by grind) (by cases side <;> simp [build, toList, Side.flip])
  refine ⟨other, ?_, done⟩
  simp [insertColorSide, ublack, loadChild_eq, storeChild_eq, storeWord_eq, pn, gn, nn, pnear, nnear,
    np, nfar, nodeSetParentColorIf_eq, nodeSetParentColor, ← hlow, ← hmid, rotate]

end Cases

/-! ## The loop -/

/-- The tree in memory is red-black except that `node` and its parent may both
be red, or that `node` is a red root. -/
structure InsertInv (order : List Addr) (depth : Nat) (s : InsertState) (k : Context Addr)
    (t : RedBlack.Tree Addr) (height : Nat) : Prop where
  here : s.mem.At k t
  node : s.node = addr t
  parent : s.parent = above k
  red : t.color = .red
  balanced : t.Balanced height
  hole : Hole k height
  depth : k.length = depth
  order : (fill k t).toList = order

def InsertLoop (order : List Addr) (depth : Nat) (s : InsertState) : Prop :=
  ∃ k t height, InsertInv order depth s k t height

section Pass

variable {order : List Addr} {depth height : Nat} {s : InsertState} {k : Context Addr} {t : RedBlack.Tree Addr}

theorem insertColorPass_root (inv : InsertInv order depth s [] t height) :
    ∃ mem, insertColorPass s = some (.done mem) ∧ mem.Holds order := by
  obtain ⟨here, node, parent, red, balanced, hole, _, same⟩ := inv
  have nonnull : addr t ≠ 0 := here.rep.red_nonnull red
  refine ⟨s.mem.setWord (addr t) (word 0 .black), ?_, ?_⟩
  · simp [insertColorPass, parent, node, nodeSetParentColor, storeWord_eq, nonnull]
  · have painted : (s.mem.setWord (addr t) (word 0 .black)).At [] (t.paint .black) := by
      refine here.update rfl (by simp [labels]) ?_ (addr_paint ..) (toList_paint ..)
      exact here.rep.reparent here.nodup (fun _ _ _ => rfl) fun _ _ => rfl
    exact painted.holds (.of_balanced (color_paint_black t) (balanced.paint_red red))
      ((toList_paint ..).trans same)

theorem insertColorPass_blackParent {f : Frame Addr} (inv : InsertInv order depth s (f :: k) t height)
    (black : f.color = .black) : insertColorPass s = some (.done s.mem) ∧ s.mem.Holds order := by
  obtain ⟨here, node, parent, red, balanced, hole, _, same⟩ := inv
  constructor
  · obtain ⟨nonnull, _, pc, _, _, _, outer⟩ := here.context
    simp [insertColorPass, parent, nonnull, nodeIsBlack, loadWord_eq, pc,
      wordIsBlack_word (aligned_above outer), black]
  · refine here.holds (balanced_fill hole balanced (.inr ?_) fun empty => absurd empty (List.cons_ne_nil f k)) same
    simp [headColor, black]

theorem insertColorPass_redParent {f g : Frame Addr}
    (inv : InsertInv order depth s (f :: g :: k) t height) (red : f.color = .red) :
    insertColorPass s = s.mem.insertColorSide g.side (addr t) f.label g.label (addr g.sibling) := by
  obtain ⟨here, node, parent, _, _, _, _, _⟩ := inv
  obtain ⟨pn, pa, pw, _, _, _, gn, ga, gw, gin, gout, usib, outer⟩ := here.context
  have uncle : f.label ≠ addr g.sibling := by
    have distinct := here.labels_nodup
    simp only [labels, List.cons_append, List.nodup_cons, List.mem_append, List.mem_cons, not_or] at distinct
    exact (addr_ne pn distinct.1.2.2.1).symm
  -- The word of a red node is the address of its parent.
  have gparent : word g.label .red = g.label := word_red ga
  rw [red] at pw
  change s.mem.parentColor f.label = word g.label .red at pw
  have notBlack : wordIsBlack (word g.label .red) = false := wordIsBlack_word ga .red
  rw [gparent] at notBlack pw
  cases side : g.side with
  | left =>
    rw [side] at gin gout
    simp [insertColorPass, parent, node, pn, gn, nodeIsBlack, nodeRedParent, loadWord_eq, loadChild_eq, pw,
      notBlack, uncle, show s.mem.child .right g.label = _ from gout]
  | right =>
    rw [side] at gin gout
    simp [insertColorPass, parent, node, pn, gn, nodeIsBlack, nodeRedParent, loadWord_eq, loadChild_eq, pw,
      notBlack, gin, show s.mem.child .left g.label = _ from gout]

theorem insertColorPass_fixup {f g : Frame Addr}
    (inv : InsertInv order depth s (f :: g :: k) t height) (red : f.color = .red) :
    ∃ flow, insertColorPass s = some flow ∧
      Pass (InsertLoop order) (Holds · order) depth flow := by
  have pass := insertColorPass_redParent inv red
  obtain ⟨here, node, parent, tred, balanced, hole, rank, same⟩ := inv
  obtain ⟨inner, _, p, sibling⟩ := f
  obtain ⟨side, top, g, uncle⟩ := g
  cases red
  obtain ⟨sbal, sblack, gblack, hole⟩ := hole
  cases top with
  | red => simp [headColor] at gblack
  | black =>
  obtain ⟨ubal, hole⟩ := hole
  have here : s.mem.At k (build side .black (build inner .red t p sibling) g uncle) :=
    at_cons.mp (at_cons.mp here)
  rw [fill_cons, fill_cons] at same
  -- Case 1 recolours and moves two levels up; the others end the loop with a rotation.
  cases ucolor : uncle.color with
  | red =>
    obtain ⟨other, step, flipped⟩ := @insertColorSide_flip _ _ _ _ _ _ _ (addr t) _ _ here ucolor
    refine ⟨_, pass.trans step, k.length, by simp at rank; omega, k, _, height + 1, flipped,
      (addr_build ..).symm, rfl, color_build .., ?_, hole, rfl, ?_⟩
    · exact balanced_build_red.mpr ⟨balanced_build_black.mpr ⟨height, rfl, balanced, sbal⟩,
        ubal.paint_red ucolor, color_build .., color_paint_black _⟩
    · rw [← same]
      apply toList_fill_congr
      cases side <;> cases inner <;> simp [build, toList]
  | black =>
    -- Case 3, the outer grandchild, and case 2, the inner one.
    rcases Side.eq_or_flip side inner with rfl | rfl
    · have notFar : addr t ≠ addr sibling := by
        obtain ⟨_, _, pnodup, _, _⟩ := nodup_build.mp here.nodup
        obtain ⟨_, _, _, _, apart⟩ := nodup_build.mp pnodup
        have nonnull := (rep_build.mp (rep_build.mp here.rep).2.2.2.2.2.1).2.2.2.2.2.1.red_nonnull tred
        exact (addr_ne nonnull (apart (addr_mem nonnull))).symm
      obtain ⟨other, step, rotated⟩ := insertColorSide_outer here ucolor notFar
      rw [paint_black_of_color sblack] at rotated
      refine ⟨_, pass.trans step, rotated.holds ?_ ?_⟩
      · refine balanced_fill hole (balanced_build_black.mpr ⟨height, rfl, balanced, ?_⟩)
          (.inl (color_build ..)) fun _ => color_build ..
        exact balanced_build_red.mpr ⟨sbal, ubal, sblack, ucolor⟩
      · rw [← same]
        apply toList_fill_congr
        cases inner <;> simp [build, toList]
    · obtain ⟨n, near, far, rfl⟩ := exists_build_of_red side tred
      obtain ⟨nearBal, farBal, nearBlack, farBlack⟩ := balanced_build_red.mp balanced
      obtain ⟨other, step, rotated⟩ := insertColorSide_inner here ucolor
      rw [paint_black_of_color nearBlack, paint_black_of_color farBlack] at rotated
      rw [addr_build] at pass
      refine ⟨_, pass.trans step, rotated.holds ?_ ?_⟩
      · refine balanced_fill hole (balanced_build_black.mpr ⟨height, rfl, ?_, ?_⟩)
          (.inl (color_build ..)) fun _ => color_build ..
        · exact balanced_build_red.mpr ⟨sbal, nearBal, sblack, nearBlack⟩
        · exact balanced_build_red.mpr ⟨farBal, ubal, farBlack, ucolor⟩
      · rw [← same]
        apply toList_fill_congr
        cases side <;> simp [build, toList, Side.flip]

theorem insertColorPass_spec (inv : InsertInv order depth s k t height) :
    ∃ flow, insertColorPass s = some flow ∧
      Pass (InsertLoop order) (Holds · order) depth flow := by
  cases k with
  | nil =>
    obtain ⟨mem, step, holds⟩ := insertColorPass_root inv
    exact ⟨_, step, holds⟩
  | cons f k =>
    cases color : f.color with
    | black =>
      obtain ⟨step, holds⟩ := insertColorPass_blackParent inv color
      exact ⟨_, step, holds⟩
    | red =>
      -- A red parent is not the root, so there is a grandparent.
      cases k with
      | nil =>
        have hole := inv.hole
        obtain ⟨side, _, label, sibling⟩ := f
        cases color
        simp [Hole, headColor] at hole
      | cons g k => exact insertColorPass_fixup inv color

theorem InsertLoop.pass (started : InsertLoop order depth s) :
    ∃ flow, insertColorPass s = some flow ∧
      Pass (InsertLoop order) (Holds · order) depth flow := by
  obtain ⟨k, t, height, inv⟩ := started
  exact insertColorPass_spec inv

end Pass

/-! ## Linking a new node -/

def slot : Context Addr → Slot
  | [] => .root
  | f :: _ => .child f.side f.label

def linkInsert (fuel : Nat) (self : RBTree) (node parent : Addr) (link : Slot) : Option RBTree := do
  let self ← self.nodeLink node parent link
  self.insertColor fuel node

theorem nodeLink_spec {mem : RBTree} {k : Context Addr} {n : Addr} (here : mem.At k .leaf)
    (nonnull : n ≠ 0) (aligned : 4 ∣ n) (fresh : n ∉ labels k) :
    ∃ other, mem.nodeLink n (above k) (slot k) = some other ∧
      other.At k (.node .red .leaf n .leaf) := by
  set cleared := ((mem.setWord n (above k)).setChild .right n 0).setChild .left n 0 with hcleared
  have same : ∀ a ∈ labels k, mem.Agree cleared a := by grind
  have context : cleared.RepContext k 0 := here.context.frame rfl same
  -- A word without the colour bit is red.
  have cell : cleared.parentColor n = word (above k) .red ∧ ∀ side, cleared.child side n = 0 := by
    rw [word_red (aligned_above here.context)]
    refine ⟨by simp [cleared], fun side => ?_⟩
    cases side <;> simp [cleared]
  have exec : mem.nodeLink n (above k) (slot k) = cleared.storeSlot (slot k) n := by
    simp [nodeLink, storeWord_eq, storeChild_eq, nonnull, ← hcleared]
  have whole : ∀ other : RBTree, other.RepContext k n → other.parentColor n = cleared.parentColor n →
      (∀ side, other.child side n = cleared.child side n) → other.At k (.node .red .leaf n .leaf) := by
    intro other context pc children
    refine ⟨context, ⟨nonnull, aligned, pc.trans cell.1, ?_, ?_, trivial, trivial⟩, here.labels_nodup,
      List.nodup_singleton n, List.disjoint_singleton.mpr fresh⟩
    · rw [children, cell.2]; rfl
    · rw [children, cell.2]; rfl
  cases k with
  | nil =>
    refine ⟨{ cleared with root := n }, exec, whole _ rfl rfl fun _ => rfl⟩
  | cons f k =>
    obtain ⟨labelNonnull, labelAligned, pc, here', there, sib, outer⟩ := context
    have distinct := here.labels_nodup
    simp only [labels, List.cons_append, List.nodup_cons, List.mem_append, List.mem_cons, not_or]
      at distinct fresh
    refine ⟨cleared.setChild f.side f.label n, ?_, whole _ ⟨labelNonnull, labelAligned, pc, ?_, ?_,
      sib.frame ?_, outer.frame rfl ?_⟩ rfl ?_⟩
    · exact exec.trans (storeChild_eq _ _ _ labelNonnull)
    all_goals grind

theorem linkInsert_spec {mem : RBTree} {k : Context Addr} {n : Addr} {fuel : Nat} (here : mem.At k .leaf)
    (valid : (fill k .leaf).Valid) (nonnull : n ≠ 0) (aligned : 4 ∣ n) (fresh : n ∉ labels k)
    (bound : k.length < fuel) :
    ∃ other, mem.linkInsert fuel n (above k) (slot k) = some other ∧
      other.Holds (before k ++ n :: after k) := by
  obtain ⟨linked, link, at'⟩ := nodeLink_spec here nonnull aligned fresh
  obtain ⟨height, hole, balanced, _⟩ := split_of_valid valid
  cases balanced
  have start : InsertInv (before k ++ n :: after k) k.length ⟨linked, n, above k⟩ k
      (.node .red .leaf n .leaf) 0 :=
    ⟨at', rfl, rfl, rfl, ⟨rfl, rfl, rfl, rfl⟩, hole, rfl, by simp [toList_fill, toList]⟩
  have parent : linked.nodeRedParent n = some (above k) := by
    obtain ⟨_, _, pc, _⟩ := at'.rep
    simp [nodeRedParent, loadWord_eq, nonnull, pc, word_red (aligned_above at'.context)]
  have started : InsertLoop (before k ++ n :: after k) k.length ⟨linked, n, above k⟩ := ⟨k, _, 0, start⟩
  obtain ⟨other, run, holds⟩ := loop_total (fun _ _ before => InsertLoop.pass before) started bound
  exact ⟨other, by simp [linkInsert, link, insertColor, parent, run], holds⟩

end HevTaskSystem.RBTree
