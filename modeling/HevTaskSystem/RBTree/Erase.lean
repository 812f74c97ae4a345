import Mathlib.Data.List.Induction
import HevTaskSystem.Foundation.Height
import HevTaskSystem.RBTree.EraseColor

/-! Unlinking a node.

A node with at most one child is replaced by that child. Otherwise its in-order
successor, the leftmost node of the right subtree, is taken out of its place and
put in the place of the erased node. The parent from which to rebalance is
returned when a black node was taken out without a red child to replace it.
-/

set_option autoImplicit false

namespace HevTaskSystem.RBTree

open Foundation Foundation.RedBlack Foundation.RedBlack.Tree Foundation.RedBlack.Context

/-- The descent `do { parent = successor; successor = tmp; tmp = tmp->left; } while (tmp)`
on the pair of `successor` and `tmp`; it leaves `parent` and `successor`. -/
def successorPass (self : RBTree) (s : Addr × Addr) : Option (Foundation.Flow (Addr × Addr) (Addr × Addr)) := do
  let tmp ← self.loadChild .left s.2
  if tmp ≠ 0 then
    return .next (s.2, tmp)
  else
    return .done s

/-- Cases 2 and 3 of `_hev_rbtree_erase`: take the successor of a node with two
children out of its place. Returns `successor`, its old `parent` and `child2`. -/
def eraseSuccessor (fuel : Nat) (self : RBTree) (child : Addr) :
    Option (RBTree × Addr × Addr × Addr) := do
  let tmp ← self.loadChild .left child
  if tmp = 0 then
    -- Case 2: the successor is the right child.
    let child2 ← self.loadChild .right child
    return (self, child, child, child2)
  else
    -- Case 3: the successor is leftmost under the right child.
    let (parent, successor) ← loop self.successorPass fuel (child, tmp)
    let child2 ← self.loadChild .right successor
    let self ← self.storeChild .left parent child2
    let self ← self.storeChild .right successor child
    let self ← self.nodeSetParent child successor
    return (self, successor, parent, child2)

/-- Cases 2 and 3 of `_hev_rbtree_erase`, common end: the successor takes the place of
the node. -/
def eraseSubstitute (self : RBTree) (node successor parent child2 : Addr) :
    Option (RBTree × Addr) := do
  let tmp ← self.loadChild .left node
  let self ← self.storeChild .left successor tmp
  let self ← self.nodeSetParent tmp successor
  let pc ← self.loadWord node
  let tmp := wordParent pc
  let self ← self.changeChild node successor tmp
  if child2 ≠ 0 then
    let self ← self.nodeSetParentColor child2 parent .black
    let self ← self.storeWord successor pc
    return (self, 0)
  else
    let rebalance := if ← self.nodeIsBlack successor then parent else 0
    let self ← self.storeWord successor pc
    return (self, rebalance)

/-- `_hev_rbtree_erase`: the node is unlinked and `rebalance` is returned. -/
def eraseUnlink (fuel : Nat) (self : RBTree) (node : Addr) : Option (RBTree × Addr) := do
  let child ← self.loadChild .right node
  let tmp ← self.loadChild .left node
  if tmp = 0 then
    -- Case 1: no more than one child.
    let pc ← self.loadWord node
    let parent := wordParent pc
    let self ← self.changeChild node child parent
    if child ≠ 0 then
      let self ← self.storeWord child pc
      return (self, 0)
    else
      return (self, if wordIsBlack pc then parent else 0)
  else if child = 0 then
    -- Still case 1, but this time the child is on the left.
    let pc ← self.loadWord node
    let self ← self.storeWord tmp pc
    let parent := wordParent pc
    let self ← self.changeChild node tmp parent
    return (self, 0)
  else
    let (self, successor, parent, child2) ← self.eraseSuccessor fuel child
    self.eraseSubstitute node successor parent child2

def erase (fuel : Nat) (self : RBTree) (node : Addr) : Option RBTree := do
  let (self, rebalance) ← self.eraseUnlink fuel node
  if rebalance ≠ 0 then
    self.eraseColor fuel rebalance
  else
    return self

variable {mem mid other : RBTree} {k path : Context Addr} {l r t t' c2 : RedBlack.Tree Addr} {color sc : Color}
  {n s parent q : Addr}

/-! ## A node with at most one child -/

section OneChild

variable {fuel : Nat}

theorem eraseUnlink_leaf (here : mem.At k (.node color .leaf n .leaf)) :
    ∃ other, mem.eraseUnlink fuel n = some (other, if color = .black then above k else 0) ∧
      other.At k .leaf := by
  obtain ⟨nonnull, _, pc, left, right, _, _⟩ := here.rep
  have aligned := aligned_above here.context
  obtain ⟨other, change, after⟩ := @At.changeChild _ _ _ mem .leaf here nonnull rfl
    (fun a _ => ⟨rfl, fun _ => rfl⟩) trivial List.nodup_nil (by simp)
  refine ⟨other, ?_, after⟩
  have change' : mem.changeChild n 0 (above k) = some other := change
  simp [eraseUnlink, loadChild_eq, loadWord_eq, nonnull, left, right, pc, wordParent_word aligned,
    wordIsBlack_word aligned, change']

theorem eraseUnlink_left (here : mem.At k (.node color l n .leaf)) (nonempty : addr l ≠ 0) :
    ∃ other, mem.eraseUnlink fuel n = some (other, 0) ∧ other.At k (l.paint color) := by
  obtain ⟨nonnull, _, pc, left, right, rep, _⟩ := here.rep
  obtain ⟨outside, _, nodup, _, _⟩ := (@nodup_build _ .left _ _ _ _).mp here.nodup
  have aligned := aligned_above here.context
  have within : ∀ a ∈ l.toList, a ∈ (RedBlack.Tree.node color l n .leaf).toList := by
    intro a inside
    simp [toList, inside]
  have frame : ∀ a ∈ labels k, mem.Agree (mem.setWord (addr l) (word (above k) color)) a := by
    intro a member
    have apart := here.outside member
    have := within (addr l) (addr_mem nonempty)
    grind
  have moved : (mem.setWord (addr l) (word (above k) color)).Rep (l.paint color) (above k) :=
    rep.reparent nodup (fun _ _ _ => rfl) fun _ _ => rfl
  obtain ⟨other, change, after⟩ := here.changeChild nonnull (setWord_root ..) frame moved
    (by simpa using nodup) (by simpa using within)
  refine ⟨other, ?_, after⟩
  rw [addr_paint] at change
  have change' : (mem.setWord (addr l) (word (above k) color)).changeChild n (addr l) (above k) =
      some other := change
  simp [eraseUnlink, loadChild_eq, loadWord_eq, storeWord_eq, nonnull, nonempty, left, right, pc,
    wordParent_word aligned, change']

theorem eraseUnlink_right (here : mem.At k (.node color .leaf n r)) (nonempty : addr r ≠ 0) :
    ∃ other, mem.eraseUnlink fuel n = some (other, 0) ∧ other.At k (r.paint color) := by
  obtain ⟨nonnull, _, pc, left, right, _, rep⟩ := here.rep
  obtain ⟨_, outside, _, nodup, _⟩ := (@nodup_build _ .left _ _ _ _).mp here.nodup
  have aligned := aligned_above here.context
  have within : ∀ a ∈ r.toList, a ∈ (RedBlack.Tree.node color .leaf n r).toList := by
    intro a inside
    simp [toList, inside]
  obtain ⟨mid, change, context, words, children⟩ := @changeChild_spec _ _ _ (addr r) here.context
    nonnull here.labels_nodup fun outside => here.apart outside (addr_mem nonnull)
  have change' : mem.changeChild n (addr r) (above k) = some mid := change
  refine ⟨mid.setWord (addr r) (word (above k) color), ?_, here.replace ?_ (rep.reparent nodup ?_ ?_)
    (by simpa using nodup) (by simpa using within)⟩
  · simp [eraseUnlink, loadChild_eq, loadWord_eq, storeWord_eq, nonnull, nonempty, left, right, pc,
      wordParent_word aligned, change']
  · rw [addr_paint]
    refine context.frame rfl fun a member => ?_
    have apart := here.outside member
    have := within (addr r) (addr_mem nonempty)
    grind
  · intro a inside side
    rw [setWord_child, children a (here.ne_above (within a inside))]
  · intro a _
    rw [setWord_parentColor, words]

end OneChild

/-! ## A node with two children -/

/-- Address above the hole of a subtree whose root is below `parent`. -/
def aboveIn : Context Addr → Addr → Addr
  | [], parent => parent
  | f :: _, _ => f.label

theorem Rep.of_fill (rep : mem.Rep (fill k t) parent) : mem.Rep t (aboveIn k parent) := by
  induction k generalizing t with
  | nil => exact rep
  | cons f k ih => exact (rep_build.mp (ih rep)).2.2.2.2.2.1

theorem addr_fill_mem (f : Frame Addr) (k : Context Addr) (t : RedBlack.Tree Addr) :
    addr (fill (f :: k) t) ∈ labels (f :: k) := by
  induction k generalizing f t with
  | nil => simp [labels]
  | cons g k ih => exact List.mem_append_right _ (ih g _)

theorem addr_fill_cons (f : Frame Addr) (k : Context Addr) (t t' : RedBlack.Tree Addr) :
    addr (fill (f :: k) t) = addr (fill (f :: k) t') := by
  induction k generalizing f t t' with
  | nil => simp
  | cons g k ih => exact ih g _ _

theorem color_fill_cons (f : Frame Addr) (k : Context Addr) (t t' : RedBlack.Tree Addr) :
    (fill (f :: k) t).color = (fill (f :: k) t').color := by
  induction k generalizing f t t' with
  | nil => simp
  | cons g k ih => exact ih g _ _

theorem Rep.fill_nonnull (rep : mem.Rep (fill k (.node color l n r)) parent) :
    addr (fill k (.node color l n r)) ≠ 0 := by
  cases k with
  | nil => exact rep.1
  | cons f k => exact rep.ne_zero (mem_fill.mpr (.inl (addr_fill_mem f k _)))

theorem Rep.refill {f : Frame Addr} {above : Addr} {top : Color}
    (rep : mem.Rep (fill (f :: k) t) parent) (nodup : (fill (f :: k) t).toList.Nodup)
    (here : other.child f.side f.label = addr t')
    (there : other.child f.side.flip f.label = mem.child f.side.flip f.label)
    (children : ∀ a, a ∈ f.sibling.toList ∨ a ∈ labels k →
      ∀ side, other.child side a = mem.child side a)
    (words : ∀ a ∈ labels (f :: k), other.parentColor a =
      if a = addr (fill (f :: k) t) then word above top else mem.parentColor a)
    (sub : other.Rep t' f.label) : other.Rep ((fill (f :: k) t').paint top) above := by
  obtain ⟨nonnull, aligned, pc, near, far, _, sib⟩ := rep_build.mp (@Rep.of_fill _ k _ _ rep)
  induction k generalizing f t t' with
  | nil =>
    obtain ⟨_, outside, _⟩ := nodup_build.mp nodup
    have top := words f.label (by simp [labels])
    simp only [fill_cons, fill_nil, addr_build, if_true] at top words
    rw [fill_cons, fill_nil, paint_build, rep_build]
    refine ⟨nonnull, aligned, top, here, there.trans far, sub, sib.frame fun a inside => ⟨?_, ?_⟩⟩
    · rw [words a (by simp [labels, inside]), if_neg]
      rintro rfl
      exact outside inside
    · exact children a (.inl inside)
  | cons g k ih =>
    obtain ⟨gn, ga, gpc, gnear, gfar, _, gsib⟩ := rep_build.mp (@Rep.of_fill _ k _ _ rep)
    -- The root is above the frame `f`, so the words of `f` and its sibling stay.
    have below : ∀ a, a = f.label ∨ a ∈ f.sibling.toList → other.parentColor a = mem.parentColor a := by
      intro a inside
      have apart := (nodup_fill.mp (show (fill (g :: k) _).toList.Nodup from nodup)).2.2
        (addr_fill_mem g k (build f.side f.color t f.label f.sibling))
      rw [words a (by simp only [labels]; grind), if_neg]
      rintro rfl
      exact apart (mem_build.mpr (inside.imp_right .inr))
    refine ih rep nodup ?_ ?_ ?_ ?_ ?_ gn ga gpc gnear gfar ‹_› gsib
    · rw [children _ (.inr (by simp [labels])), gnear, addr_build, addr_build]
    · exact children _ (.inr (by simp [labels])) _
    · intro a inside
      exact children a (.inr (by simp only [labels]; grind))
    · intro a inside
      exact words a (by simp only [labels] at inside ⊢; grind)
    · refine rep_build.mpr ⟨nonnull, aligned, (below _ (.inl rfl)).trans pc, here, there.trans far, sub,
        sib.frame fun a inside => ⟨below a (.inr inside), children a (.inl inside)⟩⟩

theorem successorPass_spec {fuel : Nat} (rep : mem.Rep (fill path (.node sc .leaf s c2)) parent)
    (down : ∀ f ∈ path, f.side = .left) (bound : path.length < fuel) (above : Addr) :
    loop mem.successorPass fuel (above, addr (fill path (.node sc .leaf s c2))) =
      some (aboveIn path above, s) := by
  induction path using List.reverseRecOn generalizing fuel above parent with
  | nil =>
    obtain ⟨fuel, rfl⟩ : ∃ m, fuel = m + 1 := ⟨fuel - 1, by simp at bound; omega⟩
    obtain ⟨nonnull, _, _, left, _⟩ := rep
    refine loop_succ_of_done ?_
    simp [successorPass, addr, loadChild_eq, nonnull, left, aboveIn]
  | append_singleton path f ih =>
    obtain ⟨fuel, rfl⟩ : ∃ m, fuel = m + 1 := ⟨fuel - 1, by simp at bound; omega⟩
    obtain ⟨side, fc, label, sibling⟩ := f
    obtain rfl : side = .left := down ⟨side, fc, label, sibling⟩ (by simp)
    rw [fill_append] at rep ⊢
    obtain ⟨nonnull, _, _, left, _, inner, _⟩ := rep
    have next : mem.successorPass (above, label) =
        some (.next (label, addr (fill path (.node sc .leaf s c2)))) := by
      have nonempty := inner.fill_nonnull
      simp [successorPass, loadChild_eq, nonnull, left, nonempty]
    refine (loop_succ_of_next next).trans ?_
    rw [ih inner (fun f member => down f (by simp [member])) (by simp at bound; omega)]
    cases path <;> rfl

/-- The rest of the right subtree, `t`, is already in place below the successor
but for the word of `c2`. -/
theorem eraseSubstitute_spec (here : mem.At k (.node color l n r)) (nonempty : addr l ≠ 0)
    (root : mid.root = mem.root) (same : ∀ a, a = n ∨ a ∈ l.toList ∨ a ∈ labels k → mem.Agree mid a)
    (pc : mid.parentColor s = word q sc) (qaligned : 4 ∣ q) (aligned : 4 ∣ s)
    (right : mid.child .right s = addr t) (order : r.toList = s :: t.toList)
    (sub : (mid.setWordIf (addr c2) (word parent .black)).Rep t s)
    (inside : addr c2 ≠ 0 → addr c2 ∈ t.toList) :
    ∃ other, mid.eraseSubstitute n s parent (addr c2) =
      some (other, if addr c2 = 0 ∧ sc = .black then parent else 0) ∧
        other.At k (.node color l s t) := by
  obtain ⟨nnonnull, naligned, npc, nleft, _, lrep, rrep⟩ := here.rep
  obtain ⟨nl, nr, lnodup, rnodup, apart⟩ := (@nodup_build _ .left _ _ _ _).mp here.nodup
  have snonnull : s ≠ 0 := rrep.ne_zero (by simp [order])
  simp only [order, List.nodup_cons, List.mem_cons, not_or, List.disjoint_cons_right] at nr rnodup apart
  have within : ∀ a, a = s ∨ a ∈ l.toList ∨ a ∈ t.toList → a ∈ (RedBlack.Tree.node color l n r).toList := by
    intro a h
    simp only [toList, order, List.mem_append, List.mem_cons]
    tauto
  have lmem := addr_mem nonempty
  have lword := lrep.root_word nonempty
  have kaligned := aligned_above here.context
  -- The left subtree moves below the successor before the link above `n` changes.
  set placed := (mid.setChild .left s (addr l)).setWord (addr l) (word s l.color) with hplaced
  have context : placed.RepContext k n := by
    refine here.context.frame root fun a outer => ?_
    have := same a (.inr (.inr outer))
    have := here.apart outer
    grind
  obtain ⟨other, change, context, words, children⟩ := @changeChild_spec _ _ _ s context
    nnonnull here.labels_nodup fun outside => here.apart outside (addr_mem nnonnull)
  have words := congrFun words
  have step : ∀ a, a = s ∨ a ∈ l.toList ∨ a ∈ t.toList → ∀ side,
      other.child side a = placed.child side a := fun a h => children a (here.ne_above (within a h))
  refine ⟨(other.setWordIf (addr c2) (word parent .black)).setWord s (word (above k) color), ?_,
    here.replace ?_ ⟨snonnull, aligned, ?_, ?_, ?_, ?_, ?_⟩ ?_ ?_⟩
  · have nsame := same n (.inl rfl)
    have lsame := same (addr l) (.inr (.inl lmem))
    have notN : n ≠ addr l := fun h => nl (h ▸ lmem)
    have notS : s ≠ addr l := fun h => apart.1 (h ▸ lmem)
    have lwordMid : mid.parentColor (addr l) = word n l.color := lsame.1.trans lword
    have nword : placed.parentColor n = word (above k) color := by simp [placed, notN, nsame.1, npc]
    have sword : other.parentColor s = word q sc := by simp [words, placed, notS, pc]
    have bit := @word_and_one_or n l.color s naligned
    simp only [eraseSubstitute, loadChild_eq _ _ nnonnull, storeChild_eq _ _ _ snonnull, nodeSetParent,
      loadWord_eq _ nonempty, storeWord_eq _ _ nonempty, loadWord_eq _ nnonnull, nsame.2, nleft,
      Option.bind_eq_bind, Option.bind_some, setChild_parentColor, lwordMid, bit, ← hplaced, nword,
      wordParent_word kaligned, change]
    -- The two endings of the source: the hole needs rebalancing only if nothing red fills it.
    by_cases null : addr c2 = 0
    · simp [null, nodeIsBlack, loadWord_eq, storeWord_eq, snonnull, sword, wordIsBlack_word qaligned,
        setWordIf]
    · simp [null, nodeSetParentColor, storeWord_eq, snonnull, setWordIf]
  · refine context.frame (by simp) fun a outer => ?_
    have := here.outside outer
    grind
  · simp
  · rw [setWord_child, setWordIf_child, step s (.inl rfl)]
    simp [placed]
  · rw [setWord_child, setWordIf_child, step s (.inl rfl)]
    simp [placed, right]
  · refine lrep.move lnodup ?_ ?_
    · intro a member side
      have := same a (.inr (.inl member))
      grind
    · intro a member
      have := same a (.inr (.inl member))
      have notS : a ≠ s := fun h => apart.1 (h ▸ member)
      have notC2 : ¬(a = addr c2 ∧ addr c2 ≠ 0) := fun h => apart.2 member (h.1 ▸ inside h.2)
      simp only [setWord_parentColor, setWordIf_parentColor, if_neg notS, if_neg notC2, words, placed,
        setChild_parentColor, this.1]
  · refine sub.frame fun a member => ?_
    have notS : a ≠ s := fun h => rnodup.1 (h ▸ member)
    have notL : a ≠ addr l := fun h => apart.2 lmem (h ▸ member)
    refine ⟨?_, fun side => ?_⟩
    · simp only [setWord_parentColor, setWordIf_parentColor, if_neg notS, if_neg notL, words, placed,
        setChild_parentColor]
    · rw [setWord_child, setWordIf_child, step a (.inr (.inr member))]
      simp [placed, notS]
  · simp only [toList, List.nodup_append', List.nodup_cons, List.disjoint_cons_right]
    exact ⟨lnodup, rnodup, apart⟩
  · intro a member
    simp only [toList, List.mem_append, List.mem_cons] at member
    exact within a (by tauto)

theorem eraseSuccessor_nil {fuel : Nat} (rep : mem.Rep (.node sc .leaf s c2) parent) :
    mem.eraseSuccessor fuel s = some (mem, s, s, addr c2) := by
  obtain ⟨nonnull, _, _, left, right, _⟩ := rep
  simp [eraseSuccessor, loadChild_eq, nonnull, left, right]

theorem eraseSuccessor_cons {fuel : Nat} {f : Frame Addr} {child : Addr} {top : Color}
    (rep : mem.Rep (fill (f :: path) (.node sc .leaf s c2)) parent) (aligned : 4 ∣ parent)
    (down : ∀ g ∈ f :: path, g.side = .left) (bound : path.length < fuel)
    (hchild : addr (fill (f :: path) (.node sc .leaf s c2)) = child)
    (htop : (fill (f :: path) (.node sc .leaf s c2)).color = top) :
    mem.eraseSuccessor fuel child =
      some (((mem.setChild .left f.label (addr c2)).setChild .right s child).setWord child (word s top),
        s, f.label, addr c2) := by
  obtain ⟨snonnull, _, _, _, right, _⟩ := @Rep.of_fill _ (f :: path) _ _ rep
  have fnonnull := rep.ne_zero (mem_fill.mpr (.inl (show f.label ∈ labels (f :: path) by simp [labels])))
  have nonnull : child ≠ 0 := hchild ▸ rep.fill_nonnull
  have pc : mem.parentColor child = word parent top := by
    rw [← hchild, ← htop]
    exact rep.root_word rep.fill_nonnull
  have bit := @word_and_one_or parent top s aligned
  -- The descent starts below the outermost frame `g` of the path.
  have descent : ∃ tmp, mem.child .left child = tmp ∧ tmp ≠ 0 ∧
      loop mem.successorPass fuel (child, tmp) = some (f.label, s) := by
    obtain ⟨inner, g, same⟩ : ∃ inner g, f :: path = inner ++ [g] :=
      (List.eq_nil_or_concat' (f :: path)).resolve_left (by simp)
    rw [same] at rep down hchild
    rw [fill_append] at rep hchild
    have side := down g (by simp)
    obtain ⟨gside, gcolor, label, sibling⟩ := g
    cases side
    obtain ⟨_, _, _, left, _, below, _⟩ := rep
    cases hchild
    have length : path.length = inner.length := by simpa using congrArg List.length same
    have result := successorPass_spec below (fun g member => down g (by simp [member]))
      (length ▸ bound) label
    have head : aboveIn inner label = f.label := by
      cases inner with
      | nil =>
        simp only [List.nil_append, List.cons.injEq] at same
        simp [aboveIn, same.1]
      | cons h inner =>
        simp only [List.cons_append, List.cons.injEq] at same
        simp [aboveIn, same.1]
    exact ⟨_, left, below.fill_nonnull, head ▸ result⟩
  obtain ⟨tmp, left, tmpNonnull, run⟩ := descent
  simp only [eraseSuccessor, loadChild_eq _ _ nonnull, left, Option.bind_eq_bind, Option.bind_some,
    if_neg tmpNonnull, run, loadChild_eq _ _ snonnull, right, storeChild_eq _ _ _ fnonnull,
    storeChild_eq _ _ _ snonnull, nodeSetParent, loadWord_eq _ nonnull, storeWord_eq _ _ nonnull,
    setChild_parentColor, pc, bit]
  rfl

theorem Rep.without_leftmost {f : Frame Addr} {child : Addr} {top : Color}
    (rep : mem.Rep (fill (f :: path) (.node sc .leaf s c2)) parent)
    (nodup : (fill (f :: path) (.node sc .leaf s c2)).toList.Nodup) (left : f.side = .left)
    (hchild : addr (fill (f :: path) (.node sc .leaf s c2)) = child)
    (htop : (fill (f :: path) (.node sc .leaf s c2)).color = top) :
    ((((mem.setChild .left f.label (addr c2)).setChild .right s child).setWord child
      (word s top)).setWordIf (addr c2) (word f.label .black)).Rep
        (fill (f :: path) (c2.paint .black)) s := by
  obtain ⟨_, _, _, _, _, _, rep2⟩ := @Rep.of_fill _ (f :: path) _ _ rep
  obtain ⟨outer, inner, apart⟩ := nodup_fill.mp nodup
  have within := addr_fill_mem f path (.node sc .leaf s c2)
  rw [hchild] at within
  obtain ⟨_, sout, _, nodup2, _⟩ := (@nodup_build _ .left _ _ _ _).mp inner
  simp only [labels, List.cons_append, List.nodup_cons, List.mem_append, not_or] at outer
  have apartS : ∀ a ∈ labels (f :: path), a ≠ s ∧ a ∉ c2.toList := by
    intro a member
    have outside : a ∉ s :: c2.toList := apart member
    rwa [List.mem_cons, not_or] at outside
  have fmem : f.label ∈ labels (f :: path) := by simp [labels]
  have flip : f.side.flip = .right := by rw [left]; rfl
  have painted : (fill (f :: path) (c2.paint .black)).paint top = fill (f :: path) (c2.paint .black) := by
    rw [← htop, color_fill_cons f path _ (c2.paint .black), paint_color]
  rw [← painted]
  refine rep.refill nodup ?_ ?_ ?_ ?_ ?_
  · simp [left]
  · simp [flip, (apartS _ fmem).1]
  · intro a member side
    have member' : a ∈ labels (f :: path) := List.mem_cons_of_mem _ (List.mem_append.mpr member)
    have notF : a ≠ f.label := by rintro rfl; tauto
    simp [notF, (apartS a member').1]
  · intro a member
    have notC2 : ¬(a = addr c2 ∧ addr c2 ≠ 0) := fun h => (apartS a member).2 (h.1 ▸ addr_mem h.2)
    rw [setWordIf_parentColor, if_neg notC2, hchild]
    simp
  · refine rep2.reparent nodup2 ?_ ?_
    · intro a member side
      have notF : a ≠ f.label := fun h => (apartS _ fmem).2 (h ▸ member)
      have notS : a ≠ s := fun h => sout (h ▸ member)
      simp [notF, notS]
    · intro a member
      have notChild : a ≠ child := fun h => (apartS _ within).2 (h ▸ member)
      have nonnull := rep2.ne_zero member
      grind

/-- A node with two children: the leftmost node of its right subtree takes its
place, and the subtree below that node is painted black. -/
theorem eraseUnlink_both {fuel : Nat}
    (here : mem.At k (.node color l n (fill path (.node sc .leaf s c2))))
    (down : ∀ f ∈ path, f.side = .left) (nonempty : addr l ≠ 0) (bound : path.length < fuel) :
    ∃ other, mem.eraseUnlink fuel n =
      some (other, if addr c2 = 0 ∧ sc = .black then aboveIn path s else 0) ∧
        other.At k (.node color l s (fill path (c2.paint .black))) := by
  obtain ⟨nonnull, aligned, _, left, right, lrep, rrep⟩ := here.rep
  obtain ⟨nl, nr, _, rnodup, apart⟩ := (@nodup_build _ .left _ _ _ _).mp here.nodup
  have order : (fill path (.node sc .leaf s c2)).toList =
      s :: (fill path (c2.paint .black)).toList := by
    simp [toList_fill, before_of_left down, toList]
  have enter : mem.eraseUnlink fuel n = (do
      let (self, successor, parent, child2) ←
        mem.eraseSuccessor fuel (addr (fill path (.node sc .leaf s c2)))
      self.eraseSubstitute n successor parent child2) := by
    simp [eraseUnlink, loadChild_eq, nonnull, left, right, nonempty, rrep.fill_nonnull]
  have subtree := @Rep.of_fill _ path _ _ rrep
  obtain ⟨_, saligned, spc, _, sright, _, rep2⟩ := subtree
  have inside : addr c2 ≠ 0 → addr c2 ∈ (fill path (c2.paint .black)).toList := fun nonnull =>
    mem_fill.mpr (.inr (by simpa using addr_mem nonnull))
  -- The successor is the right child itself, or lies further down to the left.
  cases path with
  | nil =>
    rw [enter, fill_nil, addr, eraseSuccessor_nil rrep]
    refine eraseSubstitute_spec here nonempty rfl (fun a _ => ⟨rfl, fun _ => rfl⟩) spc aligned saligned
      (by simpa using sright) order (rep2.reparent ?_ ?_ ?_) inside
    · exact ((@nodup_build _ .left _ _ _ _).mp rnodup).2.2.2.1
    · intro a _ side
      simp
    · intro a member
      have nonnull := rep2.ne_zero member
      grind
  | cons f path =>
    have below := rep_build.mp (@Rep.of_fill _ path _ _ rrep)
    have member : ∀ a ∈ labels (f :: path), a ∈ (fill (f :: path) (.node sc .leaf s c2)).toList :=
      fun a h => mem_fill.mpr (.inl h)
    have fmem := member f.label (by simp [labels])
    have childMem := member _ (addr_fill_mem f path (.node sc .leaf s c2))
    have smem : s ∈ (fill (f :: path) (.node sc .leaf s c2)).toList := by
      rw [order]
      exact List.mem_cons_self
    rw [enter, eraseSuccessor_cons rrep aligned down (Nat.lt_of_succ_lt bound) rfl rfl]
    refine eraseSubstitute_spec here nonempty rfl ?_ ?_ below.2.1 saligned ?_ order
      (rrep.without_leftmost rnodup (down f (by simp)) rfl rfl) inside
    · intro a outside
      have away : a ∉ (fill (f :: path) (.node sc .leaf s c2)).toList := by
        rcases outside with rfl | inside | outer
        · exact nr
        · exact fun h => apart inside h
        · exact fun h => here.apart outer (List.mem_append_right _ (List.mem_cons_of_mem _ h))
      grind
    · have notChild : s ≠ addr (fill (f :: path) (.node sc .leaf s c2)) := by
        intro same
        have outer := addr_fill_mem f path (.node sc .leaf s c2)
        rw [← same] at outer
        exact (nodup_fill.mp rnodup).2.2 outer (by simp [toList])
      rw [setWord_parentColor, if_neg notChild]
      exact spc
    · rw [setWord_child, setChild_child, if_pos ⟨rfl, rfl⟩]
      exact addr_fill_cons f path _ _

/-! ## Erasing -/

/-- After unlinking: the child `t` of the removed node stands at the hole of `k`, and
the rebalancing starts above the hole if no red node could make up for a black one. -/
structure Unlinked (mem : RBTree) (rebalance : Addr) (order : List Addr) (k : Context Addr)
    (color : Color) (t : RedBlack.Tree Addr) : Prop where
  here : mem.At k (t.paint .black)
  same : (fill k t).toList = order
  start : rebalance = if addr t = 0 ∧ color = .black then above k else 0
  shape : (t = .leaf ∧ color = .black ∧ Hole k 1) ∨
    ((t = .leaf ↔ color = .red) ∧ (fill k (t.paint .black)).Valid)

theorem Unlinked.of_child {side : Side} (valid : (fill k (build side color .leaf n t)).Valid)
    (nonempty : addr t ≠ 0) (here : mem.At k (t.paint color)) :
    Unlinked mem 0 (fill k t).toList k color t := by
  have shape := valid_remove valid
  have notLeaf : t ≠ .leaf := fun h => nonempty (h ▸ rfl)
  have black : color = .black := by
    cases color with
    | red => exact absurd (shape.resolve_left (by simp [notLeaf])).1 (by simp [notLeaf])
    | black => rfl
  exact ⟨black ▸ here, rfl, by simp [nonempty], shape⟩

theorem eraseUnlink_spec {fuel : Nat} (here : mem.At k (.node color l n r))
    (valid : (fill k (.node color l n r)).Valid) (bound : r.height ≤ fuel) :
    ∃ other rebalance k' color' t, mem.eraseUnlink fuel n = some (other, rebalance) ∧
      other.Unlinked rebalance (before k ++ (l.toList ++ r.toList) ++ after k) k' color' t := by
  -- The branches of the source: no child, one child, two children.
  by_cases left : addr l = 0
  · obtain rfl := here.rep.2.2.2.2.2.1.eq_leaf left
    by_cases right : addr r = 0
    · obtain rfl := here.rep.2.2.2.2.2.2.eq_leaf right
      obtain ⟨other, step, after⟩ := @eraseUnlink_leaf _ _ _ _ fuel here
      have shape := @valid_remove _ _ .left _ _ _ valid
      exact ⟨other, _, k, color, .leaf, step, after, by simp [toList_fill], by simp, shape⟩
    · obtain ⟨other, step, after⟩ := @eraseUnlink_right _ _ _ _ _ fuel here right
      have unlinked := @Unlinked.of_child _ _ _ _ _ .left valid right after
      rw [toList_fill] at unlinked
      exact ⟨other, _, k, color, r, step, by simpa using unlinked⟩
  · by_cases right : addr r = 0
    · obtain rfl := here.rep.2.2.2.2.2.2.eq_leaf right
      obtain ⟨other, step, after⟩ := @eraseUnlink_left _ _ _ _ _ fuel here left
      have unlinked := @Unlinked.of_child _ _ _ _ _ .right valid left after
      rw [toList_fill] at unlinked
      exact ⟨other, _, k, color, l, step, by simpa using unlinked⟩
    · cases r with
      | leaf => exact absurd rfl right
      | node rc rl y rr =>
        obtain ⟨path, sc, s, c2, same, down⟩ := exists_leftmost rc rl y rr
        rw [same] at here valid bound ⊢
        have short := length_add_height_le path (.node sc .leaf s c2)
        have deeper := height_left_lt sc .leaf s c2
        obtain ⟨other, step, after⟩ := @eraseUnlink_both _ _ _ _ _ _ _ _ _ fuel here down left (by omega)
        have valid' := valid_relabel s valid
        -- With two children the hole is where the successor was.
        have joined : ∀ t, fill k (.node color l s (fill path t)) =
            fill (path ++ ⟨.right, color, s, l⟩ :: k) t := by
          intro t
          rw [fill_append]
          rfl
        rw [joined] at valid'
        refine ⟨other, _, path ++ ⟨.right, color, s, l⟩ :: k, sc, c2, step, ?_, ?_, ?_,
          @valid_remove _ _ .left _ _ _ valid'⟩
        · rw [at_iff, ← joined]
          exact at_iff.mp after
        · rw [← joined, toList_fill]
          simp [toList, toList_fill, before_of_left down]
        · cases path <;> rfl

/-- What is left to rebalance: the child of `rebalance` that the frame leaves out is
empty where a black node is missing. -/
structure Deficient (mem : RBTree) (rebalance : Addr) (order : List Addr) (f : Frame Addr)
    (k : Context Addr) : Prop where
  here : mem.At (f :: k) .leaf
  start : rebalance = f.label
  hole : Hole (f :: k) 1
  same : (fill (f :: k) .leaf).toList = order

theorem Unlinked.outcome {order : List Addr} {rebalance : Addr}
    (unlinked : mem.Unlinked rebalance order k color t) :
    (rebalance = 0 ∧ mem.Holds order) ∨ ∃ f k', k = f :: k' ∧ mem.Deficient rebalance order f k' := by
  rcases unlinked.shape with ⟨rfl, rfl, hole⟩ | ⟨shape, valid⟩
  · cases k with
    | nil =>
      exact .inl ⟨by simp [unlinked.start], unlinked.here.holds (.of_balanced rfl rfl) unlinked.same⟩
    | cons f k =>
      exact .inr ⟨f, k, rfl, unlinked.here, by simp [unlinked.start], hole, unlinked.same⟩
  · refine .inl ⟨?_, unlinked.here.holds valid ?_⟩
    · rw [unlinked.start, if_neg]
      rintro ⟨null, rfl⟩
      have painted := unlinked.here.rep.eq_leaf (by simpa using null)
      have leaf : t = .leaf := by
        cases t with
        | leaf => rfl
        | node c l a r => cases painted
      exact absurd (shape.mp leaf) (by simp)
    · rw [toList_fill_congr k (toList_paint ..)]
      exact unlinked.same

theorem Deficient.length_lt {order : List Addr} {rebalance : Addr} {f : Frame Addr}
    (deficient : mem.Deficient rebalance order f k) : k.length < maxHeight (order.length + 1) := by
  have deep := deficient.hole.length_lt_maxHeight
  rw [deficient.same, List.length_cons] at deep
  omega

/-- Unlinking a member makes no more passes than the tree is high, and the rest of the
sequence is in memory. -/
theorem eraseUnlink_of_height {fuel : Nat} (represents : mem.Represents t) (valid : t.Valid) (member : n ∈ t.toList)
    (bound : t.height ≤ fuel) :
    ∃ other rebalance, mem.eraseUnlink fuel n = some (other, rebalance) ∧
      ((rebalance = 0 ∧ other.Holds (t.toList.erase n)) ∨
        ∃ f k, other.Deficient rebalance (t.toList.erase n) f k) := by
  obtain ⟨k, color, l, r, rfl⟩ := exists_context member
  have here := at_iff.mpr represents
  have high := length_add_height_le k (.node color l n r)
  have deeper := height_right_lt color l n r
  obtain ⟨other, rebalance, k', color', t, unlink, unlinked⟩ :=
    @eraseUnlink_spec _ _ _ _ _ _ fuel here valid (by omega)
  have erased : (fill k (.node color l n r)).toList.erase n =
      before k ++ (l.toList ++ r.toList) ++ after k := by
    rw [toList_fill_node, List.erase_append_right _ (not_mem_of_nodup_fill represents.nodup).1]
    simp
  rw [erased]
  refine ⟨other, rebalance, unlink, unlinked.outcome.imp_right ?_⟩
  rintro ⟨f, k', rfl, deficient⟩
  exact ⟨f, k', deficient⟩

theorem eraseUnlink_member {fuel : Nat} (represents : mem.Represents t) (valid : t.Valid) (member : n ∈ t.toList)
    (bound : t.toList.length ≤ fuel) :
    ∃ other rebalance, mem.eraseUnlink fuel n = some (other, rebalance) ∧
      ((rebalance = 0 ∧ other.Holds (t.toList.erase n)) ∨
        ∃ f k, other.Deficient rebalance (t.toList.erase n) f k ∧ k.length < fuel) := by
  obtain ⟨other, rebalance, unlink, outcome⟩ :=
    eraseUnlink_of_height represents valid member (Nat.le_trans t.height_le_length bound)
  refine ⟨other, rebalance, unlink, outcome.imp_right ?_⟩
  rintro ⟨f, k, deficient⟩
  have short := deficient.length_lt
  rw [List.length_erase_add_one member] at short
  exact ⟨f, k, deficient, Nat.lt_of_lt_of_le short (maxHeight_le bound)⟩

theorem erase_spec {fuel : Nat} {order : List Addr} (holds : mem.Holds order) (member : n ∈ order)
    (bound : maxHeight order.length ≤ fuel) :
    ∃ other, mem.erase fuel n = some other ∧ other.Holds (order.erase n) := by
  obtain ⟨t, represents, valid, rfl⟩ := holds
  obtain ⟨mid, rebalance, unlink, outcome⟩ :=
    eraseUnlink_of_height represents valid member (Nat.le_trans valid.height_le bound)
  simp only [erase, unlink, Option.bind_eq_bind, Option.bind_some]
  rcases outcome with ⟨rfl, holds⟩ | ⟨f, k, deficient⟩
  · exact ⟨mid, by simp, holds⟩
  · have short := deficient.length_lt
    rw [List.length_erase_add_one member] at short
    obtain ⟨here, rfl, hole, same⟩ := deficient
    have nonnull : f.label ≠ 0 := here.context.1
    rw [if_pos nonnull]
    exact eraseColor_spec here hole same (Nat.lt_of_lt_of_le short bound)

end HevTaskSystem.RBTree
