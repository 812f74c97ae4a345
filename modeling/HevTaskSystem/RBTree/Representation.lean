import HevTaskSystem.RBTree.Memory

/-! What it means for the node fields to hold a given tree.

`Rep` follows the tree from its root: every node has the address, the packed
parent word and the child pointers of its label. `RepContext` says the same of
the nodes around a hole. A field update outside a subtree leaves its
representation alone; an update of the packed word at its root moves the subtree
below another parent.
-/

set_option autoImplicit false

namespace HevTaskSystem.RBTree

open Foundation Foundation.RedBlack Foundation.RedBlack.Tree Foundation.RedBlack.Context

/-! ## Reading updated fields -/

section Fields

variable (self : RBTree) (side other : Side) (node a : Addr) (pc : Nat) (target : Addr)

@[simp, grind =] theorem setWord_parentColor :
    (self.setWord node pc).parentColor a = if a = node then pc else self.parentColor a := rfl

@[simp, grind =] theorem setWord_child : (self.setWord node pc).child other a = self.child other a := rfl

@[simp, grind =] theorem setWord_root : (self.setWord node pc).root = self.root := rfl

@[simp, grind =] theorem setChild_parentColor :
    (self.setChild side node target).parentColor a = self.parentColor a := rfl

@[simp, grind =] theorem setChild_child :
    (self.setChild side node target).child other a =
      if other = side ∧ a = node then target else self.child other a := rfl

@[simp, grind =] theorem setChild_root : (self.setChild side node target).root = self.root := rfl

variable {node}

theorem loadWord_eq (nonnull : node ≠ 0) : self.loadWord node = some (self.parentColor node) :=
  if_neg nonnull

theorem storeWord_eq (nonnull : node ≠ 0) : self.storeWord node pc = some (self.setWord node pc) :=
  if_neg nonnull

theorem loadChild_eq (nonnull : node ≠ 0) : self.loadChild side node = some (self.child side node) :=
  if_neg nonnull

theorem storeChild_eq (nonnull : node ≠ 0) :
    self.storeChild side node target = some (self.setChild side node target) :=
  if_neg nonnull

end Fields

def setWordIf (self : RBTree) (node : Addr) (pc : Nat) : RBTree :=
  if node = 0 then self else self.setWord node pc

section FieldsIf

variable (self : RBTree) (side : Side) (node a : Addr) (pc : Nat)

@[simp, grind =] theorem setWordIf_child :
    (self.setWordIf node pc).child side a = self.child side a := by
  unfold setWordIf
  split <;> rfl

@[simp, grind =] theorem setWordIf_root : (self.setWordIf node pc).root = self.root := by
  unfold setWordIf
  split <;> rfl

@[simp, grind =] theorem setWordIf_parentColor :
    (self.setWordIf node pc).parentColor a =
      if a = node ∧ node ≠ 0 then pc else self.parentColor a := by
  unfold setWordIf
  by_cases null : node = 0
  · simp [null]
  · simp [null]

theorem nodeSetParentColorIf_eq (parent : Addr) (color : Color) :
    self.nodeSetParentColorIf node parent color = some (self.setWordIf node (word parent color)) := by
  unfold nodeSetParentColorIf setWordIf nodeSetParentColor storeWord
  split <;> rfl

theorem nodeSetParentIf_eq {parent old : Addr} {color : Color} (aligned : 4 ∣ old)
    (pc : node ≠ 0 → self.parentColor node = word old color) :
    self.nodeSetParentIf node parent = some (self.setWordIf node (word parent color)) := by
  unfold nodeSetParentIf setWordIf
  by_cases null : node = 0
  · simp [null]
  · simp only [if_neg null, nodeSetParent, loadWord_eq _ null, storeWord_eq _ _ null, pc null,
      Option.bind_eq_bind, Option.bind_some, word_and_one_or color aligned]

end FieldsIf

/-! ## Trees and contexts in memory -/

def addr : RedBlack.Tree Addr → Addr
  | .leaf => 0
  | .node _ _ label _ => label

def above : Context Addr → Addr
  | [] => 0
  | f :: _ => f.label

def Rep (self : RBTree) : RedBlack.Tree Addr → Addr → Prop
  | .leaf, _ => True
  | .node color left a right, parent =>
    a ≠ 0 ∧ 4 ∣ a ∧ self.parentColor a = word parent color ∧
      self.child .left a = addr left ∧ self.child .right a = addr right ∧
      self.Rep left a ∧ self.Rep right a

/-- The fields hold the context, whose hole is occupied by the address `hole`. -/
def RepContext (self : RBTree) : Context Addr → Addr → Prop
  | [], hole => self.root = hole
  | f :: k, hole =>
    f.label ≠ 0 ∧ 4 ∣ f.label ∧ self.parentColor f.label = word (above k) f.color ∧
      self.child f.side f.label = hole ∧ self.child f.side.flip f.label = addr f.sibling ∧
      self.Rep f.sibling f.label ∧ self.RepContext k f.label

/-- The tree head and the node fields hold exactly this tree: each child's
parent word is its parent, the root has none, and no node occurs twice. -/
structure Represents (mem : RBTree) (t : RedBlack.Tree Addr) : Prop where
  root : mem.root = addr t
  rep : mem.Rep t 0
  nodup : t.toList.Nodup

structure At (mem : RBTree) (k : Context Addr) (t : RedBlack.Tree Addr) : Prop where
  context : mem.RepContext k (addr t)
  rep : mem.Rep t (above k)
  labels_nodup : (labels k).Nodup
  nodup : t.toList.Nodup
  apart : (labels k).Disjoint t.toList

@[simp] theorem addr_leaf : addr .leaf = 0 := rfl

@[simp] theorem above_nil : above [] = 0 := rfl

@[simp] theorem above_cons (f : Frame Addr) (k : Context Addr) : above (f :: k) = f.label := rfl

@[simp] theorem addr_build (side : Side) (color : Color) (near far : RedBlack.Tree Addr) (label : Addr) :
    addr (build side color near label far) = label := by
  cases side <;> rfl

@[simp] theorem addr_paint (color : Color) (t : RedBlack.Tree Addr) : addr (t.paint color) = addr t := by
  cases t <;> rfl

variable {mem self other : RBTree} {t : RedBlack.Tree Addr} {k : Context Addr} {parent hole a : Addr}

theorem rep_build {side : Side} {color : Color} {near far : RedBlack.Tree Addr} {label : Addr} :
    self.Rep (build side color near label far) parent ↔
      label ≠ 0 ∧ 4 ∣ label ∧ self.parentColor label = word parent color ∧
        self.child side label = addr near ∧ self.child side.flip label = addr far ∧
        self.Rep near label ∧ self.Rep far label := by
  cases side with
  | left => rfl
  | right => simp only [build, Rep, Side.flip]; tauto

theorem at_iff : self.At k t ↔ self.Represents (fill k t) := by
  induction k generalizing t with
  | nil =>
    constructor
    · intro h; exact ⟨h.context, h.rep, h.nodup⟩
    · intro h; exact ⟨h.root, h.rep, List.nodup_nil, h.nodup, List.disjoint_nil_left _⟩
  | cons f k ih =>
    rw [fill_cons, ← ih]
    constructor
    · rintro ⟨⟨nonnull, aligned, pc, here, there, sib, outer⟩, rep, ln, tn, apart⟩
      have nodup := nodup_fill.mpr ⟨ln, tn, apart⟩
      rw [fill_cons, nodup_fill] at nodup
      refine ⟨?_, rep_build.mpr ⟨nonnull, aligned, pc, here, there, rep, sib⟩, nodup.1, nodup.2.1,
        nodup.2.2⟩
      rw [addr_build]
      exact outer
    · rintro ⟨outer, rep, ln, tn, apart⟩
      obtain ⟨nonnull, aligned, pc, here, there, rep, sib⟩ := rep_build.mp rep
      have nodup : (fill (f :: k) t).toList.Nodup := by
        rw [fill_cons]
        exact nodup_fill.mpr ⟨ln, tn, apart⟩
      rw [nodup_fill] at nodup
      rw [addr_build] at outer
      exact ⟨⟨nonnull, aligned, pc, here, there, sib, outer⟩, rep, nodup.1, nodup.2.1, nodup.2.2⟩

theorem at_cons {f : Frame Addr} :
    mem.At (f :: k) t ↔ mem.At k (build f.side f.color t f.label f.sibling) := by
  rw [at_iff, at_iff, fill_cons]

theorem Rep.ne_zero (rep : self.Rep t parent) (member : a ∈ t.toList) : a ≠ 0 := by
  induction t generalizing parent with
  | leaf => simp at member
  | node color left label right ihl ihr =>
    obtain ⟨nonnull, _, _, _, _, hl, hr⟩ := rep
    simp only [toList, List.mem_append, List.mem_cons] at member
    rcases member with inside | rfl | inside
    · exact ihl hl inside
    · exact nonnull
    · exact ihr hr inside

@[grind .] theorem addr_mem (nonempty : addr t ≠ 0) : addr t ∈ t.toList := by
  cases t with
  | leaf => exact absurd rfl nonempty
  | node color left label right => simp [addr, toList]

theorem addr_ne (nonnull : a ≠ 0) (outside : a ∉ t.toList) : addr t ≠ a := by
  rintro rfl
  exact outside (addr_mem nonnull)

theorem Rep.red_nonnull (rep : mem.Rep t parent) (red : t.color = .red) : addr t ≠ 0 := by
  cases t with
  | leaf => cases red
  | node color left label right => exact rep.1

theorem Rep.root_word (rep : mem.Rep t parent) (nonnull : addr t ≠ 0) :
    mem.parentColor (addr t) = word parent t.color := by
  cases t with
  | leaf => exact absurd rfl nonnull
  | node color left label right => exact rep.2.2.1

theorem Rep.nonnull_of_balanced {n : Nat} (rep : mem.Rep t parent) (balanced : t.Balanced (n + 1)) :
    addr t ≠ 0 := by
  cases t with
  | leaf => cases balanced
  | node color left label right => exact rep.1

theorem Rep.eq_leaf (rep : mem.Rep t parent) (null : addr t = 0) : t = .leaf := by
  cases t with
  | leaf => rfl
  | node color left label right => exact absurd null rep.1

/-- The fields below one address determine the in-order sequence. -/
theorem Rep.toList_eq {t' : RedBlack.Tree Addr} {parent' : Addr} (rep : mem.Rep t parent) (rep' : mem.Rep t' parent')
    (same : addr t = addr t') : t.toList = t'.toList := by
  induction t generalizing t' parent parent' with
  | leaf => rw [rep'.eq_leaf same.symm]
  | node color left label right ihl ihr =>
    cases t' with
    | leaf => exact absurd same rep.1
    | node color' left' label' right' =>
      obtain rfl : label = label' := same
      obtain ⟨_, _, _, hl, hr, repl, repr⟩ := rep
      obtain ⟨_, _, _, hl', hr', repl', repr'⟩ := rep'
      rw [toList, toList, ihl repl repl' (hl.symm.trans hl'), ihr repr repr' (hr.symm.trans hr')]

theorem RepContext.ne_zero (context : mem.RepContext k hole) (member : a ∈ labels k) : a ≠ 0 := by
  induction k generalizing hole with
  | nil => simp [labels] at member
  | cons f k ih =>
    obtain ⟨nonnull, _, _, _, _, sib, outer⟩ := context
    simp only [labels, List.cons_append, List.mem_cons, List.mem_append] at member
    rcases member with rfl | inside | inside
    · exact nonnull
    · exact sib.ne_zero inside
    · exact ih outer inside

theorem At.outside (here : mem.At k t) (member : a ∈ labels k) : a ≠ 0 ∧ a ∉ t.toList :=
  ⟨here.context.ne_zero member, here.apart member⟩

theorem At.ne_above (here : mem.At k t) (inside : a ∈ t.toList) : a ≠ above k := by
  rintro rfl
  cases k with
  | nil => exact here.rep.ne_zero inside rfl
  | cons f k => exact here.apart (by simp [labels]) inside

theorem aligned_above (context : self.RepContext k hole) : 4 ∣ above k := by
  cases k with
  | nil => exact ⟨0, rfl⟩
  | cons f k => exact context.2.1

theorem Rep.nodeIsRedIf (rep : mem.Rep t parent) (aligned : 4 ∣ parent) :
    mem.nodeIsRedIf (addr t) = some (decide (t.color = .red)) := by
  cases t with
  | leaf => rfl
  | node color left label right =>
    obtain ⟨nonnull, _, pc, _⟩ := rep
    simp [RBTree.nodeIsRedIf, nodeIsRed, addr, nonnull, loadWord_eq, pc, wordIsBlack_word aligned,
      RedBlack.Tree.color]
    cases color <;> rfl

theorem Rep.nodeIsBlackIf (rep : mem.Rep t parent) (aligned : 4 ∣ parent) :
    mem.nodeIsBlackIf (addr t) = some (decide (t.color = .black)) := by
  cases t with
  | leaf => rfl
  | node color left label right =>
    obtain ⟨nonnull, _, pc, _⟩ := rep
    simp [RBTree.nodeIsBlackIf, nodeIsBlack, addr, nonnull, loadWord_eq, pc, wordIsBlack_word aligned,
      RedBlack.Tree.color]
    cases color <;> rfl

theorem Rep.nodeIsRed (rep : mem.Rep t parent) (aligned : 4 ∣ parent) (nonnull : addr t ≠ 0) :
    mem.nodeIsRed (addr t) = some (decide (t.color = .red)) := by
  rw [← rep.nodeIsRedIf aligned, RBTree.nodeIsRedIf, if_neg nonnull]

/-! ## Framing -/

@[grind =] def Agree (self other : RBTree) (a : Addr) : Prop :=
  other.parentColor a = self.parentColor a ∧ ∀ side, other.child side a = self.child side a

theorem Rep.frame (rep : self.Rep t parent) (same : ∀ a ∈ t.toList, self.Agree other a) :
    other.Rep t parent := by
  induction t generalizing parent with
  | leaf => trivial
  | node color left label right ihl ihr =>
    obtain ⟨nonnull, aligned, pc, hl, hr, left', right'⟩ := rep
    simp only [toList, List.mem_append, List.mem_cons] at same
    obtain ⟨samePc, sameChild⟩ := same label (.inr (.inl rfl))
    exact ⟨nonnull, aligned, samePc.trans pc, (sameChild .left).trans hl,
      (sameChild .right).trans hr, ihl left' fun a h => same a (.inl h),
      ihr right' fun a h => same a (.inr (.inr h))⟩

theorem Rep.reparent (rep : self.Rep t parent) (nodup : t.toList.Nodup) {above : Addr}
    {color : Color} (children : ∀ a ∈ t.toList, ∀ side, other.child side a = self.child side a)
    (words : ∀ a ∈ t.toList,
      other.parentColor a = if a = addr t then word above color else self.parentColor a) :
    other.Rep (t.paint color) above := by
  cases t with
  | leaf => trivial
  | node old left label right =>
    obtain ⟨nonnull, aligned, _, hl, hr, left', right'⟩ := rep
    have here : label ∈ (node old left label right).toList := by simp [toList]
    have distinct := (@nodup_build _ .left _ _ _ _).mp nodup
    refine ⟨nonnull, aligned, ?_, (children label here .left).trans hl,
      (children label here .right).trans hr, left'.frame ?_, right'.frame ?_⟩
    · rw [words label here]
      exact if_pos rfl
    · intro a inside
      have member : a ∈ (node old left label right).toList := by simp [toList, inside]
      refine ⟨?_, children a member⟩
      rw [words a member, if_neg]
      rintro rfl
      exact distinct.1 inside
    · intro a inside
      have member : a ∈ (node old left label right).toList := by simp [toList, inside]
      refine ⟨?_, children a member⟩
      rw [words a member, if_neg]
      rintro rfl
      exact distinct.2.1 inside

theorem Rep.move (rep : self.Rep t parent) (nodup : t.toList.Nodup) {above : Addr}
    (children : ∀ a ∈ t.toList, ∀ side, other.child side a = self.child side a)
    (words : ∀ a ∈ t.toList,
      other.parentColor a = if a = addr t then word above t.color else self.parentColor a) :
    other.Rep t above := by
  have moved := rep.reparent nodup children words
  rwa [paint_color] at moved

theorem RepContext.frame (context : self.RepContext k hole) (root : other.root = self.root)
    (same : ∀ a ∈ labels k, self.Agree other a) : other.RepContext k hole := by
  induction k generalizing hole with
  | nil => exact root.trans context
  | cons f k ih =>
    obtain ⟨nonnull, aligned, pc, here, there, sib, outer⟩ := context
    simp only [labels, List.cons_append, List.mem_cons, List.mem_append] at same
    obtain ⟨samePc, sameChild⟩ := same f.label (.inl rfl)
    exact ⟨nonnull, aligned, samePc.trans pc, (sameChild f.side).trans here,
      (sameChild f.side.flip).trans there, sib.frame fun a h => same a (.inr (.inl h)),
      ih outer fun a h => same a (.inr (.inr h))⟩

/-- `hev_rbtree_change_child` puts another address into the hole and touches
nothing but the slot above it. -/
theorem changeChild_spec {old new : Addr} (context : self.RepContext k old) (nonnull : old ≠ 0)
    (distinct : (labels k).Nodup) (outside : old ∉ labels k) :
    ∃ other, self.changeChild old new (above k) = some other ∧ other.RepContext k new ∧
      other.parentColor = self.parentColor ∧
      ∀ a, a ≠ above k → ∀ side, other.child side a = self.child side a := by
  cases k with
  | nil => exact ⟨{ self with root := new }, by simp [changeChild, above], rfl, rfl, fun _ _ _ => rfl⟩
  | cons f k =>
    obtain ⟨labelNonnull, aligned, pc, here, there, sib, outer⟩ := context
    simp only [labels, List.cons_append, List.nodup_cons, List.nodup_append', List.mem_append,
      not_or] at distinct
    simp only [labels, List.cons_append, List.mem_cons, List.mem_append, not_or] at outside
    have chosen : self.changeChild old new f.label = some (self.setChild f.side f.label new) := by
      unfold changeChild
      rw [if_pos labelNonnull, loadChild_eq _ _ labelNonnull]
      cases side : f.side with
      | left => simp [← side, here, storeChild_eq _ _ _ labelNonnull]
      | right =>
        rw [side, Side.flip] at there
        -- The source tests the left slot first: below a right slot the left one holds another node.
        have notOld : addr f.sibling ≠ old := addr_ne nonnull outside.2.1
        simp [there, notOld, storeChild_eq _ _ _ labelNonnull]
    have frame : ∀ a, a ≠ f.label → self.Agree (self.setChild f.side f.label new) a := by
      intro a apart
      exact ⟨rfl, fun side => by simp [apart]⟩
    refine ⟨_, chosen, ⟨labelNonnull, aligned, pc, by simp, by simpa using there, sib.frame ?_,
      outer.frame rfl ?_⟩, rfl, fun a apart => (frame a apart).2⟩
    · intro a inside
      exact frame a fun same => distinct.1.1 (same ▸ inside)
    · intro a inside
      exact frame a fun same => distinct.1.2 (same ▸ inside)

theorem rotateSetParents_eq {old new : Addr} {color top : Color} (oldNonnull : old ≠ 0)
    (newNonnull : new ≠ 0) (pc : mem.parentColor old = word parent top) (aligned : 4 ∣ parent) :
    mem.rotateSetParents old new color =
      ((mem.setWord new (word parent top)).setWord old (word new color)).changeChild old new parent := by
  simp [rotateSetParents, nodeParent, nodeSetParentColor, loadWord_eq, storeWord_eq, oldNonnull,
    newNonnull, pc, wordParent_word aligned]

/-! ## Replacing a subtree -/

theorem At.replace {t' : RedBlack.Tree Addr} (here : mem.At k t) (context : other.RepContext k (addr t'))
    (rep : other.Rep t' (above k)) (nodup : t'.toList.Nodup)
    (within : ∀ a ∈ t'.toList, a ∈ t.toList) : other.At k t' :=
  ⟨context, rep, here.labels_nodup, nodup, fun _ outside inside => here.apart outside (within _ inside)⟩

theorem At.update {t' : RedBlack.Tree Addr} (here : mem.At k t) (root : other.root = mem.root)
    (same : ∀ a ∈ labels k, mem.Agree other a) (rep : other.Rep t' (above k))
    (top : addr t' = addr t) (order : t'.toList = t.toList) : other.At k t' :=
  here.replace (top ▸ here.context.frame root same) rep (order ▸ here.nodup) fun _ h => order ▸ h

theorem At.changeChild {mid : RBTree} {t' : RedBlack.Tree Addr} (here : mem.At k t) (nonempty : addr t ≠ 0)
    (root : mid.root = mem.root) (same : ∀ a ∈ labels k, mem.Agree mid a)
    (rep : mid.Rep t' (above k)) (nodup : t'.toList.Nodup)
    (within : ∀ a ∈ t'.toList, a ∈ t.toList) :
    ∃ other, mid.changeChild (addr t) (addr t') (above k) = some other ∧ other.At k t' := by
  obtain ⟨other, step, context, words, children⟩ :=
    @changeChild_spec _ _ _ (addr t') (here.context.frame root same) nonempty here.labels_nodup
      fun outside => here.apart outside (addr_mem nonempty)
  refine ⟨other, step, here.replace context (rep.frame ?_) nodup within⟩
  intro a inside
  exact ⟨congrFun words a, children a (here.ne_above (within a inside))⟩

/-- Updates below the hole followed by `hev_rbtree_rotate_set_parents`, which
puts `new` in the place of the old root. -/
theorem At.rotate {mid : RBTree} {t' : RedBlack.Tree Addr} {color top : Color} {old new : Addr}
    (here : mem.At k t)
    (rep : ((mid.setWord new (word (above k) top)).setWord old (word new color)).Rep t' (above k))
    (oldTop : addr t = old) (newTop : addr t' = new) (oldNonnull : old ≠ 0) (newNonnull : new ≠ 0)
    (pc : mid.parentColor old = word (above k) top) (root : mid.root = mem.root)
    (same : ∀ a ∈ labels k, mem.Agree mid a) (order : t'.toList = t.toList) :
    ∃ other, mid.rotateSetParents old new color = some other ∧ other.At k t' := by
  subst oldTop newTop
  rw [rotateSetParents_eq oldNonnull newNonnull pc (aligned_above here.context)]
  have old := addr_mem oldNonnull
  have new := order ▸ addr_mem newNonnull
  refine here.changeChild oldNonnull root ?_ rep (order ▸ here.nodup) fun _ h => order ▸ h
  intro a member
  have apart := here.apart member
  have := same a member
  grind

/-! ## Red-black trees in memory -/

/-- The tree in memory is a red-black tree with this in-order sequence. -/
def Holds (mem : RBTree) (order : List Addr) : Prop :=
  ∃ t, mem.Represents t ∧ t.Valid ∧ t.toList = order

theorem Holds.nodup {order : List Addr} (holds : mem.Holds order) : order.Nodup := by
  obtain ⟨t, represents, _, rfl⟩ := holds
  exact represents.nodup

theorem Holds.unique {order order' : List Addr} (holds : mem.Holds order) (holds' : mem.Holds order') :
    order = order' := by
  obtain ⟨t, represents, _, rfl⟩ := holds
  obtain ⟨t', represents', _, rfl⟩ := holds'
  exact represents.rep.toList_eq represents'.rep (represents.root.symm.trans represents'.root)

theorem Holds.ne_zero {order : List Addr} {a : Addr} (holds : mem.Holds order) (member : a ∈ order) : a ≠ 0 := by
  obtain ⟨t, represents, _, rfl⟩ := holds
  exact represents.rep.ne_zero member

theorem Holds.root {order : List Addr} (holds : mem.Holds order) : mem.root = 0 ∧ order = [] ∨ mem.root ∈ order := by
  obtain ⟨t, represents, _, rfl⟩ := holds
  by_cases null : addr t = 0
  · refine .inl ⟨represents.root.trans null, ?_⟩
    rw [represents.rep.eq_leaf null]
    rfl
  · exact .inr (represents.root ▸ addr_mem null)

theorem At.holds {order : List Addr} (here : mem.At k t) (valid : (fill k t).Valid)
    (same : (fill k t).toList = order) : mem.Holds order :=
  ⟨fill k t, at_iff.mp here, valid, same⟩

end HevTaskSystem.RBTree
