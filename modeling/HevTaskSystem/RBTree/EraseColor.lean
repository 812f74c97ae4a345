import HevTaskSystem.Foundation.Loop
import HevTaskSystem.RBTree.Representation

/-! Rebalancing after a black node was unlinked.

One subtree has a black node too few on its paths. A pass either repairs this
by rotations and leaves the loop, or moves the missing black node one level up.
The sibling of the short subtree cannot be empty, nor can the nephews that the
rotations dereference.
-/

set_option autoImplicit false

namespace HevTaskSystem.RBTree

open Foundation Foundation.RedBlack Foundation.RedBlack.Tree Foundation.RedBlack.Context

/-- Loop state of `_hev_rbtree_erase_color`: memory, `node` and `parent`. -/
structure EraseState where
  mem : RBTree
  node : Addr
  parent : Addr

def eraseColorRedSibling (self : RBTree) (side : Side) (parent sibling : Addr) :
    Option (RBTree × Addr) := do
  let tmp1 ← self.loadChild side sibling
  let self ← self.storeChild side.flip parent tmp1
  let self ← self.storeChild side sibling parent
  let self ← self.nodeSetParentColor tmp1 parent .black
  let self ← self.rotateSetParents parent sibling .red
  return (self, tmp1)

def eraseColorRotate (self : RBTree) (side : Side) (parent sibling tmp1 : Addr) :
    Option (Foundation.Flow EraseState RBTree) := do
  let tmp2 ← self.loadChild side sibling
  let self ← self.storeChild side.flip parent tmp2
  let self ← self.storeChild side sibling parent
  let self ← self.nodeSetParentColor tmp1 sibling .black
  let self ← self.nodeSetParentIf tmp2 parent
  let self ← self.rotateSetParents parent sibling .black
  return .done self

def eraseColorBlackSibling (self : RBTree) (side : Side) (parent sibling : Addr) :
    Option (Foundation.Flow EraseState RBTree) := do
  let tmp1 ← self.loadChild side.flip sibling
  if ← self.nodeIsBlackIf tmp1 then
    let tmp2 ← self.loadChild side sibling
    if ← self.nodeIsBlackIf tmp2 then
      -- Case 2: sibling color flip.
      let self ← self.nodeSetParentColor sibling parent .red
      if ← self.nodeIsRed parent then
        return .done (← self.nodeSetBlack parent)
      else
        let node := parent
        let parent ← self.nodeParent node
        if parent ≠ 0 then
          return .next ⟨self, node, parent⟩
        else
          return .done self
    else
      -- Case 3: rotate at sibling; the old sibling becomes `tmp1`.
      let tmp1 ← self.loadChild side.flip tmp2
      let self ← self.storeChild side sibling tmp1
      let self ← self.storeChild side.flip tmp2 sibling
      let self ← self.storeChild side.flip parent tmp2
      let self ← self.nodeSetParentColorIf tmp1 sibling .black
      self.eraseColorRotate side parent tmp2 sibling
  else
    self.eraseColorRotate side parent sibling tmp1

/-- The two branches of the loop are mirror images. Here `node` is the child of
`parent` on `side` and `sibling` is the other child. -/
def eraseColorSide (self : RBTree) (side : Side) (parent sibling : Addr) :
    Option (Foundation.Flow EraseState RBTree) := do
  if ← self.nodeIsRed sibling then
    let (self, sibling) ← self.eraseColorRedSibling side parent sibling
    self.eraseColorBlackSibling side parent sibling
  else
    self.eraseColorBlackSibling side parent sibling

def eraseColorPass (s : EraseState) : Option (Foundation.Flow EraseState RBTree) := do
  let sibling ← s.mem.loadChild .right s.parent
  if s.node ≠ sibling then
    s.mem.eraseColorSide .left s.parent sibling
  else
    let sibling ← s.mem.loadChild .left s.parent
    s.mem.eraseColorSide .right s.parent sibling

def eraseColor (fuel : Nat) (self : RBTree) (parent : Addr) : Option RBTree :=
  loop eraseColorPass fuel ⟨self, 0, parent⟩

section Cases

variable {mem : RBTree} {side : Side} {color : Color} {k : Context Addr} {x sl sr sll slr : RedBlack.Tree Addr}
  {p s l : Addr}

theorem eraseColorRedSibling_spec
    (here : mem.At k (build side .black x p (build side .red sl s sr))) (nephew : addr sl ≠ 0) :
    ∃ other, mem.eraseColorRedSibling side p s = some (other, addr sl) ∧
      other.At k (build side .black (build side .red x p (sl.paint .black)) s sr) := by
  obtain ⟨pn, pa, pw, pnear, pfar, xrep, srep⟩ := rep_build.mp here.rep
  obtain ⟨sn, sa, sw, snear, sfar, slrep, srrep⟩ := rep_build.mp srep
  obtain ⟨pout, psout, xnodup, snodup, xsapart⟩ := nodup_build.mp here.nodup
  obtain ⟨sout, sout', slnodup, srnodup, slrapart⟩ := nodup_build.mp snodup
  have outside := @here.outside
  set mid := ((mem.setChild side.flip p (addr sl)).setChild side s p).setWord (addr sl) (word p .black)
    with hmid
  have rep : ((mid.setWord s (word (above k) .black)).setWord p (word s .red)).Rep
      (build side .black (build side .red x p (sl.paint .black)) s sr) (above k) := by
    simp only [rep_build]
    refine ⟨sn, sa, ?_, ?_, ?_, ⟨pn, pa, ?_, ?_, ?_, xrep.frame ?_, slrep.reparent slnodup ?_ ?_⟩,
      srrep.frame ?_⟩
    all_goals simp [mid, Agree]
    all_goals grind [List.Disjoint, Rep.ne_zero, addr_paint, addr_build]
  obtain ⟨other, rotate, done⟩ := here.rotate rep (addr_build ..) (addr_build ..) pn sn
    (by grind) (by simp [mid]) (by grind) (by cases side <;> simp [build, toList])
  refine ⟨other, ?_, done⟩
  simp [eraseColorRedSibling, loadChild_eq, storeChild_eq, storeWord_eq, sn, pn, snear, nephew,
    nodeSetParentColor, ← hmid, rotate]

theorem eraseColorBlackSibling_far
    (here : mem.At k (build side color x p (build side .black sl s sr))) (red : sr.color = .red) :
    ∃ other, mem.eraseColorBlackSibling side p s = some (.done other) ∧
      other.At k (build side color (build side .black x p sl) s (sr.paint .black)) := by
  obtain ⟨pn, pa, pw, pnear, pfar, xrep, srep⟩ := rep_build.mp here.rep
  obtain ⟨sn, sa, sw, snear, sfar, slrep, srrep⟩ := rep_build.mp srep
  obtain ⟨pout, psout, xnodup, snodup, xsapart⟩ := nodup_build.mp here.nodup
  obtain ⟨sout, sout', slnodup, srnodup, slrapart⟩ := nodup_build.mp snodup
  have outside := @here.outside
  have far := srrep.red_nonnull red
  have farRed : mem.nodeIsBlackIf (addr sr) = some false := by rw [srrep.nodeIsBlackIf sa, red]; rfl
  set low := ((mem.setChild side.flip p (addr sl)).setChild side s p).setWord (addr sr) (word s .black)
    with hlow
  -- The near nephew keeps its colour, whatever that is.
  have moved : low.nodeSetParentIf (addr sl) p = some (low.setWordIf (addr sl) (word p sl.color)) := by
    refine nodeSetParentIf_eq _ _ sa fun nonnull => ?_
    have pc := slrep.root_word nonnull
    have apart := slrapart (addr_mem nonnull)
    have far' := addr_mem far
    grind
  set mid := low.setWordIf (addr sl) (word p sl.color) with hmid
  have rep : ((mid.setWord s (word (above k) color)).setWord p (word s .black)).Rep
      (build side color (build side .black x p (sl.paint sl.color)) s (sr.paint .black)) (above k) := by
    simp only [rep_build]
    refine ⟨sn, sa, ?_, ?_, ?_, ⟨pn, pa, ?_, ?_, ?_, xrep.frame ?_, slrep.reparent slnodup ?_ ?_⟩,
      srrep.reparent srnodup ?_ ?_⟩
    all_goals simp [mid, low, Agree]
    all_goals grind [List.Disjoint, Rep.ne_zero, addr_paint, addr_build]
  rw [paint_color] at rep
  obtain ⟨other, rotate, done⟩ := here.rotate rep (addr_build ..) (addr_build ..) pn sn
    (by grind) (by simp [mid, low]) (by grind) (by cases side <;> simp [build, toList])
  refine ⟨other, ?_, done⟩
  simp [eraseColorBlackSibling, eraseColorRotate, loadChild_eq, storeChild_eq, storeWord_eq, sn, pn,
    snear, sfar, far, farRed, nodeSetParentColor, ← hlow, moved, rotate]

theorem eraseColorBlackSibling_near
    (here : mem.At k (build side color x p (build side .black (build side .red sll l slr) s sr)))
    (black : sr.color = .black) :
    ∃ other, mem.eraseColorBlackSibling side p s = some (.done other) ∧
      other.At k (build side color (build side .black x p sll) l
        (build side .black (slr.paint .black) s sr)) := by
  obtain ⟨pn, pa, pw, pnear, pfar, xrep, srep⟩ := rep_build.mp here.rep
  obtain ⟨sn, sa, sw, snear, sfar, slrep, srrep⟩ := rep_build.mp srep
  obtain ⟨ln, la, lw, lnear, lfar, sllrep, slrrep⟩ := rep_build.mp slrep
  obtain ⟨pout, psout, xnodup, snodup, xsapart⟩ := nodup_build.mp here.nodup
  obtain ⟨sout, sout', slnodup, srnodup, slrapart⟩ := nodup_build.mp snodup
  obtain ⟨lout, lout', sllnodup, slrnodup, llrapart⟩ := nodup_build.mp slnodup
  have outside := @here.outside
  have farBlack : mem.nodeIsBlackIf (addr sr) = some true := by rw [srrep.nodeIsBlackIf sa, black]; rfl
  have nearRed := slrep.nodeIsBlackIf sa
  rw [addr_build, color_build] at nearRed
  rw [addr_build] at snear
  -- First the rotation at the sibling, whose red child takes its place.
  set turned := (((mem.setChild side s (addr slr)).setChild side.flip l s).setChild side.flip p l).setWordIf
    (addr slr) (word s .black) with hturned
  have lp : l ≠ p := by grind
  have ls : l ≠ s := by grind
  have turnedNear : turned.child side l = addr sll := by simp [turned, lnear, ls]
  set low := ((turned.setChild side.flip p (addr sll)).setChild side l p).setWord s (word l .black)
    with hlow
  have moved : low.nodeSetParentIf (addr sll) p = some (low.setWordIf (addr sll) (word p sll.color)) := by
    refine nodeSetParentIf_eq _ _ la fun nonnull => ?_
    have pc := sllrep.root_word nonnull
    have inside := addr_mem nonnull
    have apart := llrapart inside
    grind
  set mid := low.setWordIf (addr sll) (word p sll.color) with hmid
  have rep : ((mid.setWord l (word (above k) color)).setWord p (word l .black)).Rep
      (build side color (build side .black x p (sll.paint sll.color)) l
        (build side .black (slr.paint .black) s sr)) (above k) := by
    simp only [rep_build]
    refine ⟨ln, la, ?_, ?_, ?_, ⟨pn, pa, ?_, ?_, ?_, xrep.frame ?_, sllrep.reparent sllnodup ?_ ?_⟩,
      ⟨sn, sa, ?_, ?_, ?_, slrrep.reparent slrnodup ?_ ?_, srrep.frame ?_⟩⟩
    all_goals simp [mid, low, turned, Agree]
    all_goals grind [List.Disjoint, Rep.ne_zero, addr_paint, addr_build]
  rw [paint_color] at rep
  obtain ⟨other, rotate, done⟩ := here.rotate rep (addr_build ..) (addr_build ..) pn ln
    (by simp [mid, low, turned]; grind [Rep.ne_zero]) (by simp [mid, low, turned])
    (by simp [mid, low, turned, Agree]; grind [Rep.ne_zero]) (by cases side <;> simp [build, toList])
  refine ⟨other, ?_, done⟩
  simp [eraseColorBlackSibling, eraseColorRotate, loadChild_eq, storeChild_eq, storeWord_eq, sn, pn, ln,
    snear, sfar, lnear, lfar, farBlack, nearRed, nodeSetParentColorIf_eq, nodeSetParentColor, ← hturned, ls,
    ← hlow, moved, rotate]

theorem eraseColorBlackSibling_flipRed
    (here : mem.At k (build side .red x p (build side .black sl s sr)))
    (nearBlack : sl.color = .black) (farBlack : sr.color = .black) :
    ∃ other, mem.eraseColorBlackSibling side p s = some (.done other) ∧
      other.At k (build side .black x p (build side .red sl s sr)) := by
  obtain ⟨pn, pa, pw, pnear, pfar, xrep, srep⟩ := rep_build.mp here.rep
  obtain ⟨sn, sa, sw, snear, sfar, slrep, srrep⟩ := rep_build.mp srep
  obtain ⟨pout, psout, xnodup, snodup, xsapart⟩ := nodup_build.mp here.nodup
  obtain ⟨sout, sout', slnodup, srnodup, slrapart⟩ := nodup_build.mp snodup
  have outside := @here.outside
  have ps : p ≠ s := by grind
  have near : mem.nodeIsBlackIf (addr sl) = some true := by rw [slrep.nodeIsBlackIf sa, nearBlack]; rfl
  have far : mem.nodeIsBlackIf (addr sr) = some true := by rw [srrep.nodeIsBlackIf sa, farBlack]; rfl
  have aligned := aligned_above here.context
  have isRed : wordIsBlack (word (above k) .red) = false := wordIsBlack_word aligned .red
  refine ⟨(mem.setWord s (word p .red)).setWord p (word (above k) .black), ?_, ?_⟩
  · simp [eraseColorBlackSibling, loadChild_eq, storeWord_eq, loadWord_eq, sn, pn, snear, sfar, near, far,
      nodeSetParentColor, nodeIsRed, nodeSetBlack, ps, pw, isRed, word_or_black]
  · refine here.update rfl (by grind) ?_ (by simp) (by cases side <;> simp [build, toList])
    simp only [rep_build]
    refine ⟨pn, pa, ?_, ?_, ?_, xrep.frame ?_, sn, sa, ?_, ?_, ?_, slrep.frame ?_, srrep.frame ?_⟩
    all_goals grind [List.Disjoint, addr_build]

theorem eraseColorBlackSibling_flipBlack
    (here : mem.At k (build side .black x p (build side .black sl s sr)))
    (nearBlack : sl.color = .black) (farBlack : sr.color = .black) :
    ∃ other, mem.eraseColorBlackSibling side p s =
        some (if above k ≠ 0 then .next ⟨other, p, above k⟩ else .done other) ∧
      other.At k (build side .black x p (build side .red sl s sr)) := by
  obtain ⟨pn, pa, pw, pnear, pfar, xrep, srep⟩ := rep_build.mp here.rep
  obtain ⟨sn, sa, sw, snear, sfar, slrep, srrep⟩ := rep_build.mp srep
  obtain ⟨pout, psout, xnodup, snodup, xsapart⟩ := nodup_build.mp here.nodup
  obtain ⟨sout, sout', slnodup, srnodup, slrapart⟩ := nodup_build.mp snodup
  have outside := @here.outside
  have ps : p ≠ s := by grind
  have near : mem.nodeIsBlackIf (addr sl) = some true := by rw [slrep.nodeIsBlackIf sa, nearBlack]; rfl
  have far : mem.nodeIsBlackIf (addr sr) = some true := by rw [srrep.nodeIsBlackIf sa, farBlack]; rfl
  have aligned := aligned_above here.context
  have isBlack : wordIsBlack (word (above k) .black) = true := wordIsBlack_word aligned .black
  refine ⟨mem.setWord s (word p .red), ?_, ?_⟩
  · simp [eraseColorBlackSibling, loadChild_eq, storeWord_eq, loadWord_eq, sn, pn, snear, sfar, near, far,
      nodeSetParentColor, nodeIsRed, nodeParent, ps, pw, isBlack, wordParent_word aligned]
    split <;> rfl
  · refine here.update rfl (by grind) ?_ (by simp) (by cases side <;> simp [build, toList])
    simp only [rep_build]
    refine ⟨pn, pa, ?_, ?_, ?_, xrep.frame ?_, sn, sa, ?_, ?_, ?_, slrep.frame ?_, srrep.frame ?_⟩
    all_goals grind [List.Disjoint, addr_build]

end Cases

/-! ## The loop -/

/-- The tree in memory is red-black except that every path through `node` has a
black node too few; `node` is empty or black and is not the root. -/
structure EraseInv (order : List Addr) (depth : Nat) (s : EraseState) (f : Frame Addr)
    (k : Context Addr) (x : RedBlack.Tree Addr) (height : Nat) : Prop where
  here : s.mem.At (f :: k) x
  node : s.node = addr x
  parent : s.parent = f.label
  black : x.color = .black
  balanced : x.Balanced height
  hole : Hole (f :: k) (height + 1)
  depth : k.length = depth
  order : (fill (f :: k) x).toList = order

def EraseLoop (order : List Addr) (depth : Nat) (s : EraseState) : Prop :=
  ∃ f k x height, EraseInv order depth s f k x height

section Pass

variable {order : List Addr} {depth height : Nat} {s : EraseState} {f : Frame Addr}
  {k : Context Addr} {x : RedBlack.Tree Addr}

theorem eraseColorPass_eq (inv : EraseInv order depth s f k x height) :
    eraseColorPass s = s.mem.eraseColorSide f.side f.label (addr f.sibling) := by
  obtain ⟨here, node, parent, black, balanced, hole, rank, same⟩ := inv
  obtain ⟨pn, pa, pw, pin, pout, sib, outer⟩ := here.context
  have distinct : addr x ≠ addr f.sibling := by
    have nonnull : addr f.sibling ≠ 0 := sib.nonnull_of_balanced hole.sibling
    refine addr_ne nonnull (here.apart ?_)
    simp [labels, addr_mem nonnull]
  cases side : f.side with
  | left =>
    rw [side] at pin pout
    simp [eraseColorPass, parent, node, pn, loadChild_eq, distinct, show s.mem.child .right f.label = _ from pout]
  | right =>
    rw [side] at pin pout
    simp [eraseColorPass, parent, node, pn, loadChild_eq, pin, show s.mem.child .left f.label = _ from pout]

theorem eraseColorBlackSibling_spec {mem : RBTree} (here : mem.At (f :: k) x)
    (balanced : x.Balanced height) (hole : Hole (f :: k) (height + 1))
    (sblack : f.sibling.color = .black) (same : (fill (f :: k) x).toList = order) :
    ∃ flow, mem.eraseColorBlackSibling f.side f.label (addr f.sibling) = some flow ∧
      Pass (EraseLoop order) (Holds · order) k.length flow ∧
      (f.color = .red → ∃ other, flow = .done other) := by
  obtain ⟨side, color, p, sibling⟩ := f
  obtain ⟨c, sl, s, sr, rfl⟩ := hole.sibling.exists_node side
  cases (color_build ..).symm.trans sblack
  obtain ⟨_, eq, slBal, srBal⟩ := balanced_build_black.mp hole.sibling
  cases eq
  have within : mem.At k (build side color x p (build side .black sl s sr)) := at_cons.mp here
  rw [fill_cons] at same
  rw [addr_build]
  have near : (build side .black x p sl).Balanced (height + 1) :=
    balanced_build_black.mpr ⟨height, rfl, balanced, slBal⟩
  -- Case 4 of the source first: with a red far nephew one rotation is enough.
  cases farColor : sr.color with
  | red =>
    obtain ⟨other, step, done⟩ := eraseColorBlackSibling_far within farColor
    refine ⟨_, step, done.holds ?_ ?_, fun _ => ⟨_, rfl⟩⟩
    · exact valid_fill_node hole side s near (srBal.paint_red farColor) (color_build ..)
        (color_paint_black _)
    · rw [← same]
      apply toList_fill_congr
      cases side <;> simp [build, toList]
  | black =>
    cases nearColor : sl.color with
    | red =>
      -- Case 3 rotates the near nephew up and goes on as case 4.
      obtain ⟨l, sll, slr, rfl⟩ := exists_build_of_red side nearColor
      obtain ⟨sllBal, slrBal, sllBlack, slrBlack⟩ := balanced_build_red.mp slBal
      obtain ⟨other, step, done⟩ := eraseColorBlackSibling_near within farColor
      rw [paint_black_of_color slrBlack] at done
      refine ⟨_, step, done.holds ?_ ?_, fun _ => ⟨_, rfl⟩⟩
      · exact valid_fill_node hole side l (balanced_build_black.mpr ⟨height, rfl, balanced, sllBal⟩)
          (balanced_build_black.mpr ⟨height, rfl, slrBal, srBal⟩) (color_build ..) (color_build ..)
      · rw [← same]
        apply toList_fill_congr
        cases side <;> simp [build, toList]
    | black =>
      -- Case 2 recolours; only below a black parent is the subtree still too short.
      have flipped : (build side .red sl s sr).Balanced height :=
        balanced_build_red.mpr ⟨slBal, srBal, nearColor, farColor⟩
      have short : (build side .black x p (build side .red sl s sr)).Balanced (height + 1) :=
        balanced_build_black.mpr ⟨height, rfl, balanced, flipped⟩
      have order' : (fill k (build side .black x p (build side .red sl s sr))).toList = order := by
        rw [← same]
        apply toList_fill_congr
        cases side <;> simp [build, toList]
      cases color with
      | red =>
        obtain ⟨other, step, done⟩ := eraseColorBlackSibling_flipRed within nearColor farColor
        refine ⟨_, step, done.holds ?_ order', fun _ => ⟨_, rfl⟩⟩
        exact balanced_fill hole.2.2.2 short (.inl (color_build ..)) fun _ => color_build ..
      | black =>
        obtain ⟨other, step, up⟩ := eraseColorBlackSibling_flipBlack within nearColor farColor
        refine ⟨_, step, ?_, fun red => Color.noConfusion red⟩
        cases k with
        | nil => exact up.holds (.of_balanced (color_build ..) short) order'
        | cons g k =>
          rw [above_cons, if_pos up.context.1]
          exact ⟨k.length, by simp, g, k, _, height + 1, up, (addr_build ..).symm, rfl, color_build ..,
            short, hole.2, rfl, order'⟩

theorem eraseColorSide_redSibling {mem : RBTree} (here : mem.At (f :: k) x)
    (balanced : x.Balanced height) (hole : Hole (f :: k) (height + 1))
    (sred : f.sibling.color = .red) (same : (fill (f :: k) x).toList = order) :
    ∃ other, mem.eraseColorSide f.side f.label (addr f.sibling) = some (.done other) ∧
      other.Holds order := by
  obtain ⟨side, color, p, sibling⟩ := f
  obtain ⟨c, sl, s, sr, rfl⟩ := hole.sibling.exists_node side
  cases (color_build ..).symm.trans sred
  cases color with
  -- A red parent has no red child.
  | red => simp [Hole] at hole
  | black =>
    obtain ⟨sibBal, hole⟩ := hole
    obtain ⟨slBal, srBal, slBlack, srBlack⟩ := balanced_build_red.mp sibBal
    have within : mem.At k (build side .black x p (build side .red sl s sr)) := at_cons.mp here
    obtain ⟨_, pa, _, _, _, _, srep⟩ := rep_build.mp within.rep
    obtain ⟨_, _, _, _, _, slrep, _⟩ := rep_build.mp srep
    have isRed : mem.nodeIsRed s = some true := by
      have read := srep.nodeIsRed pa (srep.nonnull_of_balanced sibBal)
      rwa [addr_build, color_build] at read
    have nephew : addr sl ≠ 0 := slrep.nonnull_of_balanced slBal
    obtain ⟨mid, step, turned⟩ := eraseColorRedSibling_spec within nephew
    rw [paint_black_of_color slBlack] at turned
    have below : mid.At (⟨side, .red, p, sl⟩ :: ⟨side, .black, s, sr⟩ :: k) x :=
      at_cons.mpr (at_cons.mpr turned)
    have order' : (fill (⟨side, .red, p, sl⟩ :: ⟨side, .black, s, sr⟩ :: k) x).toList = order := by
      rw [← same, fill_cons, fill_cons, fill_cons]
      apply toList_fill_congr
      cases side <;> simp [build, toList]
    obtain ⟨flow, run, after, done⟩ := eraseColorBlackSibling_spec below balanced
      ⟨slBal, slBlack, rfl, srBal, hole⟩ slBlack order'
    obtain ⟨other, rfl⟩ := done rfl
    exact ⟨other, by simpa [eraseColorSide, isRed, step] using run, after⟩

theorem eraseColorPass_spec (inv : EraseInv order depth s f k x height) :
    ∃ flow, eraseColorPass s = some flow ∧ Pass (EraseLoop order) (Holds · order) depth flow := by
  rw [eraseColorPass_eq inv]
  obtain ⟨here, node, parent, _, balanced, hole, rank, same⟩ := inv
  cases color : f.sibling.color with
  | red =>
    obtain ⟨other, step, holds⟩ := eraseColorSide_redSibling here balanced hole color same
    exact ⟨_, step, holds⟩
  | black =>
    obtain ⟨flow, step, after, _⟩ := eraseColorBlackSibling_spec here balanced hole color same
    obtain ⟨_, aligned, _, _, _, sib, _⟩ := here.context
    have isBlack := sib.nodeIsRed aligned (sib.nonnull_of_balanced hole.sibling)
    rw [color] at isBlack
    exact ⟨flow, by simpa [eraseColorSide, isBlack] using step, rank ▸ after⟩

end Pass

theorem eraseColor_spec {mem : RBTree} {order : List Addr} {f : Frame Addr} {k : Context Addr}
    {fuel : Nat} (here : mem.At (f :: k) .leaf) (hole : Hole (f :: k) 1)
    (same : (fill (f :: k) .leaf).toList = order) (bound : k.length < fuel) :
    ∃ other, mem.eraseColor fuel f.label = some other ∧ other.Holds order := by
  have pass : ∀ depth s, EraseLoop order depth s → _ :=
    fun _ _ ⟨_, _, _, _, inv⟩ => eraseColorPass_spec inv
  exact loop_total pass ⟨f, k, .leaf, 0, here, rfl, rfl, rfl, rfl, hole, rfl, same⟩ bound

end HevTaskSystem.RBTree
