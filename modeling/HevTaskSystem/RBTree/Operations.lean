import HevTaskSystem.Foundation.Transition
import HevTaskSystem.RBTree.Insert
import HevTaskSystem.RBTree.Erase

/-! The operations of `HevRBTree` from the outside.

A caller links a fresh node at an empty slot, erases a node of the tree or
replaces one. Each operation is described by what it does to the in-order
sequence. Every run of such operations from an empty tree leaves a red-black
tree in memory that holds the described sequence, and the next operation always
returns.
-/

set_option autoImplicit false

namespace HevTaskSystem.RBTree

open Foundation Foundation.RedBlack Foundation.RedBlack.Tree Foundation.RedBlack.Context

/-! ## Replacing a node -/

/-- `hev_rbtree_replace`; `*new = *victim` copies the three fields. -/
def replace (self : RBTree) (victim new : Addr) : Option RBTree := do
  let parent ← self.nodeParent victim
  let self ← self.storeWord new (← self.loadWord victim)
  let self ← self.storeChild .right new (← self.loadChild .right victim)
  let self ← self.storeChild .left new (← self.loadChild .left victim)
  let self ← self.nodeSetParentIf (← self.loadChild .left victim) new
  let self ← self.nodeSetParentIf (← self.loadChild .right victim) new
  self.changeChild victim new parent

section Replace

variable {mem : RBTree} {k : Context Addr} {l r : RedBlack.Tree Addr} {color : Color} {v n : Addr}

def replaced (mem : RBTree) (k : Context Addr) (color : Color) (l r : RedBlack.Tree Addr) (n : Addr) : RBTree :=
  ((((mem.setWord n (word (above k) color)).setChild .right n (addr r)).setChild .left n
    (addr l)).setWordIf (addr l) (word n l.color)).setWordIf (addr r) (word n r.color)

theorem replaced_rep (here : mem.At k (.node color l v r)) (nonnull : n ≠ 0) (aligned : 4 ∣ n)
    (fresh : n ∉ (RedBlack.Tree.node color l v r).toList) :
    (mem.replaced k color l r n).Rep (.node color l n r) (above k) := by
  obtain ⟨_, _, _, _, _, lrep, rrep⟩ := here.rep
  obtain ⟨_, _, lnodup, rnodup, apart⟩ := (@nodup_build _ .left _ _ _ _).mp here.nodup
  simp only [toList, List.mem_append, List.mem_cons, not_or] at fresh
  have notL := addr_ne nonnull fresh.1
  have notR := addr_ne nonnull fresh.2.2
  refine ⟨nonnull, aligned, ?_, ?_, ?_, ?_, ?_⟩
  · simp [replaced, notL.symm, notR.symm]
  · simp [replaced]
  · simp [replaced]
  · refine lrep.move lnodup ?_ ?_
    · intro a member side
      have notN : a ≠ n := fun h => fresh.1 (h ▸ member)
      simp [replaced, notN]
    · intro a member
      have notN : a ≠ n := fun h => fresh.1 (h ▸ member)
      -- The two subtrees are apart: the parent update of one does not reach the other.
      have outside : ¬(a = addr r ∧ addr r ≠ 0) := fun h => apart member (h.1 ▸ addr_mem h.2)
      have positive := lrep.ne_zero member
      simp only [replaced, setWordIf_parentColor, if_neg outside]
      grind
  · refine rrep.move rnodup ?_ ?_
    · intro a member side
      have notN : a ≠ n := fun h => fresh.2.2 (h ▸ member)
      simp [replaced, notN]
    · intro a member
      have notN : a ≠ n := fun h => fresh.2.2 (h ▸ member)
      have outside : ¬(a = addr l ∧ addr l ≠ 0) := fun h => apart (h.1 ▸ addr_mem h.2) member
      have positive := rrep.ne_zero member
      simp only [replaced, setWordIf_parentColor, if_neg outside]
      grind

theorem replace_eq (here : mem.At k (.node color l v r)) (nonnull : n ≠ 0)
    (fresh : n ∉ (RedBlack.Tree.node color l v r).toList) :
    mem.replace v n = (mem.replaced k color l r n).changeChild v n (above k) := by
  obtain ⟨vnonnull, valigned, pc, left, right, lrep, rrep⟩ := here.rep
  obtain ⟨_, _, _, _, apart⟩ := (@nodup_build _ .left _ _ _ _).mp here.nodup
  simp only [toList, List.mem_append, List.mem_cons, not_or] at fresh
  have notN : v ≠ n := fun h => fresh.2.1 h.symm
  have notL := addr_ne nonnull fresh.1
  have notR := addr_ne nonnull fresh.2.2
  have lword := lrep.root_word
  have rword := rrep.root_word
  have lifted := @nodeSetParentIf_eq (((mem.setWord n (word (above k) color)).setChild .right n
    (addr r)).setChild .left n (addr l)) (addr l) n v l.color valigned fun h => by simp [notL, lword h]
  have lifted' := @nodeSetParentIf_eq ((((mem.setWord n (word (above k) color)).setChild .right n
      (addr r)).setChild .left n (addr l)).setWordIf (addr l) (word n l.color)) (addr r) n v r.color
    valigned fun h => by
      have outside : addr r ≠ addr l := fun same => apart (addr_mem (same ▸ h)) (same ▸ addr_mem h)
      simp [notR, outside, rword h]
  simp [replace, nodeParent, loadWord_eq, storeWord_eq, loadChild_eq, storeChild_eq, vnonnull, nonnull,
    pc, wordParent_word (aligned_above here.context), left, right, notN, lifted, lifted', replaced]

theorem replace_at (here : mem.At k (.node color l v r)) (nonnull : n ≠ 0) (aligned : 4 ∣ n)
    (fresh : n ∉ (fill k (.node color l v r)).toList) :
    ∃ other, mem.replace v n = some other ∧ other.At k (.node color l n r) := by
  rw [mem_fill, not_or] at fresh
  have rep := replaced_rep here nonnull aligned fresh.2
  obtain ⟨vnonnull, _, _, _, _, lrep, rrep⟩ := here.rep
  -- The copy is outside of the tree, so the context is as before until its slot is changed.
  have context : (mem.replaced k color l r n).RepContext k v := by
    refine here.context.frame (by simp [replaced]) fun a outer => ?_
    have notN : a ≠ n := fun h => fresh.1 (h ▸ outer)
    have outside := here.apart outer
    simp only [toList, List.mem_append, List.mem_cons] at outside
    simp only [replaced, Agree]
    grind
  obtain ⟨other, change, context, words, children⟩ := @changeChild_spec _ _ _ n context vnonnull
    here.labels_nodup fun outside => here.apart outside (addr_mem vnonnull)
  rw [replace_eq here nonnull fresh.2]
  have nodup : (RedBlack.Tree.node color l n r).toList.Nodup := by
    have whole := (@nodup_build _ .left _ _ _ _).mp here.nodup
    have fresh := fresh.2
    simp only [toList, List.mem_append, List.mem_cons, not_or] at fresh
    exact (@nodup_build _ .left _ _ _ _).mpr ⟨fresh.1, fresh.2.2, whole.2.2⟩
  have split : ∀ a ∈ (RedBlack.Tree.node color l n r).toList, a = n ∨ a ∈ (RedBlack.Tree.node color l v r).toList := by
    intro a member
    simp only [toList, List.mem_append, List.mem_cons] at member ⊢
    tauto
  refine ⟨other, change, context, rep.frame fun a member => ⟨congrFun words a, children a ?_⟩,
    here.labels_nodup, nodup, fun a outer inside => ?_⟩
  · rcases split a member with rfl | inside
    · rintro rfl
      cases k with
      | nil => exact nonnull rfl
      | cons f k => exact fresh.1 (by simp [labels])
    · exact here.ne_above inside
  · rcases split a inside with rfl | inside
    · exact fresh.1 outer
    · exact here.apart outer inside

theorem replace_spec {order : List Addr} (holds : mem.Holds order) (member : v ∈ order)
    (nonnull : n ≠ 0) (aligned : 4 ∣ n) (fresh : n ∉ order) :
    ∃ other, mem.replace v n = some other ∧ other.Holds (order.replace v n) := by
  obtain ⟨t, represents, valid, rfl⟩ := holds
  obtain ⟨k, color, l, r, rfl⟩ := exists_context member
  obtain ⟨other, step, after⟩ := replace_at (at_iff.mpr represents) nonnull aligned fresh
  refine ⟨other, step, after.holds (valid_relabel n valid) ?_⟩
  rw [toList_fill_node, toList_fill_node,
    List.replace_append_right (not_mem_of_nodup_fill represents.nodup).1, List.replace_cons_self]

end Replace

/-! ## Linking at a slot -/

def Slot.parent : Slot → Addr
  | .root => 0
  | .child _ parent => parent

/-- The sequence with a node at the linked position: below a left slot it comes
right before the parent, below a right slot right after it. -/
def Slot.insert (link : Slot) (node : Addr) (order : List Addr) : List Addr :=
  match link with
  | .root => [node]
  | .child .left parent => order.flatMap fun a => if a = parent then [node, parent] else [a]
  | .child .right parent => order.flatMap fun a => if a = parent then [parent, node] else [a]

def Slot.Empty (mem : RBTree) (order : List Addr) : Slot → Prop
  | .root => mem.root = 0
  | .child side parent => parent ∈ order ∧ mem.child side parent = 0

theorem flatMap_at {before after new : List Addr} {p : Addr} (left : p ∉ before) (right : p ∉ after) :
    ((before ++ p :: after).flatMap fun a => if a = p then new else [a]) = before ++ new ++ after := by
  have keep : ∀ l : List Addr, p ∉ l → (l.flatMap fun a => if a = p then new else [a]) = l := by
    intro l outside
    induction l with
    | nil => rfl
    | cons a l ih =>
      rw [List.mem_cons, not_or] at outside
      rw [List.flatMap_cons, ih outside.2, if_neg (Ne.symm outside.1)]
      rfl
  rw [List.flatMap_append, List.flatMap_cons, keep before left, keep after right]
  simp

theorem Slot.Empty.exists_context {mem : RBTree} {order : List Addr} {link : Slot} {n : Addr}
    (empty : link.Empty mem order) (holds : mem.Holds order) :
    ∃ k, mem.At k .leaf ∧ (fill k .leaf).Valid ∧ (fill k .leaf).toList = order ∧ link = slot k ∧
      link.parent = above k ∧ link.insert n order = before k ++ n :: after k := by
  obtain ⟨t, represents, valid, rfl⟩ := holds
  cases link with
  | root =>
    have leaf : t = .leaf := represents.rep.eq_leaf (represents.root.symm.trans empty)
    subst leaf
    exact ⟨[], at_iff.mpr represents, valid, rfl, rfl, rfl, rfl⟩
  | child side p =>
    obtain ⟨member, null⟩ := empty
    obtain ⟨k, color, l, r, rfl⟩ := Context.exists_context member
    have here := at_iff.mpr represents
    obtain ⟨_, _, _, left, right, lrep, rrep⟩ := here.rep
    obtain ⟨outside, outside'⟩ := not_mem_of_nodup_fill represents.nodup
    cases side with
    | left =>
      obtain rfl : l = .leaf := lrep.eq_leaf (left.symm.trans null)
      refine ⟨⟨.left, color, p, r⟩ :: k, at_cons.mpr here, valid, rfl, rfl, rfl, ?_⟩
      rw [Slot.insert, toList_fill_node, flatMap_at outside outside']
      simp [before, after]
    | right =>
      obtain rfl : r = .leaf := rrep.eq_leaf (right.symm.trans null)
      refine ⟨⟨.right, color, p, l⟩ :: k, at_cons.mpr here, valid, rfl, rfl, rfl, ?_⟩
      rw [Slot.insert, toList_fill_node, flatMap_at outside outside']
      simp [before, after]

theorem link_spec {mem : RBTree} {order : List Addr} {link : Slot} {n : Addr} {fuel : Nat}
    (holds : mem.Holds order) (empty : link.Empty mem order) (nonnull : n ≠ 0) (aligned : 4 ∣ n)
    (fresh : n ∉ order) (bound : maxHeight order.length < fuel) :
    ∃ other, mem.linkInsert fuel n link.parent link = some other ∧ other.Holds (link.insert n order) := by
  obtain ⟨k, here, valid, rfl, same, parent, position⟩ := @Slot.Empty.exists_context _ _ _ n empty holds
  have short := length_le_maxHeight valid
  rw [position, parent, same]
  refine linkInsert_spec here valid nonnull aligned ?_ (by omega)
  exact fun inside => fresh (mem_fill.mpr (.inl inside))

/-! ## Runs -/

inductive Op where
  | insert (n : Addr) (link : Slot)
  | erase (n : Addr)
  | replace (victim new : Addr)
  deriving DecidableEq, Repr

namespace Op

def apply (fuel : Nat) (self : RBTree) : Op → Option RBTree
  | .insert n link => self.linkInsert fuel n link.parent link
  | .erase n => self.erase fuel n
  | .replace victim new => self.replace victim new

def order : Op → List Addr → List Addr
  | .insert n link, order => link.insert n order
  | .erase n, order => order.erase n
  | .replace victim new, order => order.replace victim new

def Fresh (n : Addr) (order : List Addr) : Prop := n ≠ 0 ∧ 4 ∣ n ∧ n ∉ order

def Ready (mem : RBTree) (order : List Addr) : Op → Prop
  | .insert n link => Fresh n order ∧ link.Empty mem order
  | .erase n => n ∈ order
  | .replace victim new => victim ∈ order ∧ Fresh new order

end Op

/-- The tree in memory next to the sequence described by the operations so far. -/
structure Traced where
  mem : RBTree
  order : List Addr

/-- Operations on an initially empty tree, whatever the fields of the nodes outside
hold. An operation has returned with whatever fuel it needed. -/
def treeSystem : System Traced Op where
  init state := state.mem.root = 0 ∧ state.order = []
  step state op next := op.Ready state.mem state.order ∧
    (∃ fuel, op.apply fuel state.mem = some next.mem) ∧ next.order = op.order state.order

theorem eraseSuccessor_stable {mem : RBTree} {child : Addr} :
    Stable fun fuel => mem.eraseSuccessor fuel child :=
  .bind (.const _) fun _ => .ite (.const _) (.bind .loop fun _ => .const _)

theorem eraseUnlink_stable {mem : RBTree} {n : Addr} : Stable fun fuel => mem.eraseUnlink fuel n :=
  .bind (.const _) fun _ => .bind (.const _) fun _ =>
    .ite (.const _) (.ite (.const _) (.bind eraseSuccessor_stable fun _ => .const _))

theorem erase_stable {mem : RBTree} {n : Addr} : Stable fun fuel => mem.erase fuel n :=
  .bind eraseUnlink_stable fun _ => .ite .loop (.const _)

theorem insertColor_stable {mem : RBTree} {n : Addr} : Stable fun fuel => mem.insertColor fuel n :=
  .bind (.const _) fun _ => .loop

theorem Op.apply_stable {op : Op} {mem : RBTree} : Stable fun fuel => op.apply fuel mem := by
  cases op with
  | insert n link => exact .bind (.const _) fun _ => insertColor_stable
  | erase n => exact erase_stable
  | replace victim new => exact .const _

theorem Op.apply_of_height {op : Op} {mem : RBTree} {order : List Addr} {fuel : Nat} (holds : mem.Holds order)
    (ready : op.Ready mem order) (bound : maxHeight order.length < fuel) :
    ∃ other, op.apply fuel mem = some other ∧ other.Holds (op.order order) := by
  cases op with
  | insert n link =>
    obtain ⟨⟨nonnull, aligned, fresh⟩, empty⟩ := ready
    exact link_spec holds empty nonnull aligned fresh bound
  | erase n => exact erase_spec holds ready (Nat.le_of_lt bound)
  | replace victim new =>
    obtain ⟨member, nonnull, aligned, fresh⟩ := ready
    exact replace_spec holds member nonnull aligned fresh

theorem Op.apply_spec {op : Op} {mem : RBTree} {order : List Addr} {fuel : Nat} (holds : mem.Holds order)
    (ready : op.Ready mem order) (bound : order.length < fuel) :
    ∃ other, op.apply fuel mem = some other ∧ other.Holds (op.order order) :=
  apply_of_height holds ready (maxHeight_lt bound)

theorem treeSystem_keep {state next : Traced} {op : Op} (holds : state.mem.Holds state.order)
    (step : treeSystem.step state op next) : next.mem.Holds next.order := by
  obtain ⟨ready, ⟨fuel, result⟩, order⟩ := step
  obtain ⟨expected, returns, after⟩ := Op.apply_spec holds ready
    (Nat.lt_of_lt_of_le (Nat.lt_succ_self _) (Nat.le_max_right fuel _))
  have same := (Op.apply_stable (Nat.le_max_left fuel _) result).symm.trans returns
  rw [order, Option.some.inj same]
  exact after

theorem treeSystem_holds {ops : List Op} {state : Traced} (run : treeSystem.Run ops state) :
    state.mem.Holds state.order := by
  refine run.invariant (fun state => state.mem.Holds state.order) ?_ fun _ _ _ => treeSystem_keep
  rintro ⟨mem, order⟩ ⟨root, rfl⟩
  exact ⟨.leaf, ⟨root, trivial, List.nodup_nil⟩, .of_balanced rfl rfl, rfl⟩

/-- After every run the memory holds a red-black tree with the described in-order
sequence, and every operation a caller may perform next returns. -/
theorem tree_correct {ops : List Op} {state : Traced} (run : treeSystem.Run ops state) :
    (∃ t : RedBlack.Tree Addr, state.mem.Represents t ∧ t.Valid ∧ t.toList = state.order) ∧
      ∀ op : Op, op.Ready state.mem state.order → ∀ fuel, state.order.length < fuel →
        ∃ other, op.apply fuel state.mem = some other ∧
          treeSystem.Run (ops ++ [op]) ⟨other, op.order state.order⟩ := by
  refine ⟨treeSystem_holds run, fun op ready fuel bound => ?_⟩
  obtain ⟨other, returns, _⟩ := Op.apply_spec (treeSystem_holds run) ready bound
  exact ⟨other, returns, run.step ⟨ready, ⟨fuel, returns⟩, rfl⟩⟩

def blank : RBTree := ⟨0, fun _ => 0, fun _ _ => 0⟩

/-- Linking three nodes in a row rotates the tree; then the root is erased and the
other end replaced. -/
theorem tree_correct_five : ∃ state, treeSystem.Run [.insert 4 .root, .insert 8 (.child .right 4),
    .insert 12 (.child .right 8), .erase 8, .replace 4 16] state ∧ state.order = [16, 12] ∧
      ∃ t : RedBlack.Tree Addr, state.mem.Represents t ∧ t.Valid ∧ t.toList = state.order := by
  have start : treeSystem.Run [] ⟨blank, []⟩ := .init ⟨rfl, rfl⟩
  have first : treeSystem.Run [.insert 4 .root] ⟨_, [4]⟩ :=
    start.step ⟨⟨⟨by decide, by decide, by decide⟩, rfl⟩, ⟨2, rfl⟩, rfl⟩
  have second : treeSystem.Run [_, .insert 8 (.child .right 4)] ⟨_, [4, 8]⟩ :=
    first.step ⟨⟨⟨by decide, by decide, by decide⟩, by decide, rfl⟩, ⟨3, rfl⟩, rfl⟩
  have third : treeSystem.Run [_, _, .insert 12 (.child .right 8)] ⟨_, [4, 8, 12]⟩ :=
    second.step ⟨⟨⟨by decide, by decide, by decide⟩, by decide, rfl⟩, ⟨4, rfl⟩, rfl⟩
  have fourth : treeSystem.Run [_, _, _, .erase 8] ⟨_, [4, 12]⟩ :=
    third.step ⟨show 8 ∈ [4, 8, 12] by decide, ⟨5, rfl⟩, rfl⟩
  have fifth : treeSystem.Run [_, _, _, _, .replace 4 16] ⟨_, [16, 12]⟩ :=
    fourth.step ⟨⟨show 4 ∈ [4, 12] by decide, by decide, by decide, by decide⟩, ⟨5, rfl⟩, rfl⟩
  exact ⟨_, fifth, rfl, (tree_correct fifth).1⟩

end HevTaskSystem.RBTree
