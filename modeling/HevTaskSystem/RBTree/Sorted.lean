import Mathlib.Data.List.Perm.Basic
import Mathlib.Data.List.Infix
import HevTaskSystem.RBTree.Cached
import HevTaskSystem.Time.Timespec

/-! The cached tree as its users run it: nodes with keys.

The scheduler compares `sched_key`, the timer expiry and address. A user inserts
by its own comparison, erases any node and may replace one. The cached node is
always the first node of the tree. It is a least node, and the earliest of the
least ones, as long as every replacement takes the place of its victim also
under the comparison.
-/

set_option autoImplicit false

namespace HevTaskSystem

open Foundation Foundation.RedBlack HevTaskSystem.RBTree

/-! ## Keyed trees -/

/-- A cached tree, the key field of every node, and the nodes inserted and not yet
erased, earliest first. -/
structure Keyed (κ : Type) where
  tree : RBTreeCached
  field : Addr → κ
  nodes : List Addr

inductive KeyedOp (κ : Type) where
  | insert (n : Addr) (key : κ)
  | erase (n : Addr)
  | replace (victim new : Addr) (key : κ)

variable {κ K : Type}

namespace KeyedOp

/-- `less n key this other` is the comparison that sends the insertion of `n` to the
left of `this`. -/
def apply (less : Addr → κ → Addr → κ → Bool) (fuel : Nat) (s : Keyed κ) :
    KeyedOp κ → Option (Keyed κ)
  | .insert n key => do
    let tree ← s.tree.insertBy fuel (fun this => less n key this (s.field this)) n
    return ⟨tree, Function.update s.field n key, s.nodes ++ [n]⟩
  | .erase n => do
    let tree ← s.tree.cachedErase fuel n
    return ⟨tree, s.field, s.nodes.erase n⟩
  | .replace victim new key => do
    let tree ← s.tree.cachedReplace victim new
    return ⟨tree, Function.update s.field new key, s.nodes.replace victim new⟩

def Ready (s : Keyed κ) : KeyedOp κ → Prop
  | .insert n _ => Op.Fresh n s.nodes
  | .erase n => n ∈ s.nodes
  | .replace victim new _ => victim ∈ s.nodes ∧ Op.Fresh new s.nodes

/-- A replacement compares with every other node as its victim does. -/
def KeepsPlace (less : Addr → κ → Addr → κ → Bool) (s : Keyed κ) : KeyedOp κ → Prop
  | .replace victim new key => ∀ a ∈ s.nodes, a ≠ victim →
      less new key a (s.field a) = less victim (s.field victim) a (s.field a) ∧
        less a (s.field a) new key = less a (s.field a) victim (s.field victim)
  | _ => True

end KeyedOp

def keyedSystem (less : Addr → κ → Addr → κ → Bool) : System (Keyed κ) (KeyedOp κ) where
  init s := s.tree.base.root = 0 ∧ s.tree.leftmost = 0 ∧ s.nodes = []
  step s op next := op.Ready s ∧ ∃ fuel, op.apply less fuel s = some next

/-! ## Agreement of the cached node -/

def Keyed.Sound (s : Keyed κ) : Prop := ∃ order, s.tree.Holds order ∧ order.Perm s.nodes

theorem replace_eq_map {order : List Addr} {v n : Addr} (nodup : order.Nodup) :
    order.replace v n = order.map fun a => if a = v then n else a := by
  induction order with
  | nil => rfl
  | cons a rest ih =>
    rw [List.nodup_cons] at nodup
    by_cases same : v = a
    · subst same
      rw [List.replace_cons_self, List.map_cons, if_pos rfl, List.map_congr_left, List.map_id]
      intro b member
      have other : b ≠ v := fun h => nodup.1 (h ▸ member)
      simp [other]
    · have test : (v == a) = false := by simpa using same
      rw [List.replace_cons, test, List.map_cons, if_neg (Ne.symm same), ih nodup.2]

variable {less : Addr → κ → Addr → κ → Bool} {s next : Keyed κ} {op : KeyedOp κ} {fuel : Nat}

theorem KeyedOp.apply_stable : Stable fun fuel => op.apply less fuel s := by
  cases op with
  | insert n key => exact .bind RBTreeCached.insertBy_stable fun _ => .const _
  | erase n => exact .bind RBTreeCached.cachedErase_stable fun _ => .const _
  | replace victim new key => exact .const _

theorem KeyedOp.insert_fields {n : Addr} {key : κ} (run : (KeyedOp.insert n key).apply less fuel s = some next) :
    next.field = Function.update s.field n key ∧ next.nodes = s.nodes ++ [n] := by
  simp only [apply, Option.bind_eq_bind, Option.bind_eq_some_iff, Option.pure_def, Option.some.injEq] at run
  obtain ⟨tree, _, rfl⟩ := run
  exact ⟨rfl, rfl⟩

theorem KeyedOp.erase_fields {n : Addr} (run : (KeyedOp.erase n).apply less fuel s = some next) :
    next.field = s.field ∧ next.nodes = s.nodes.erase n := by
  simp only [apply, Option.bind_eq_bind, Option.bind_eq_some_iff, Option.pure_def, Option.some.injEq] at run
  obtain ⟨tree, _, rfl⟩ := run
  exact ⟨rfl, rfl⟩

def KeyedOp.Reorders (less : Addr → κ → Addr → κ → Bool) (s : Keyed κ) (order after : List Addr) :
    KeyedOp κ → Prop
  | .insert n key => ∃ front back, front ++ back = order ∧ after = front ++ n :: back ∧
      ((order.Pairwise fun a b => less n key a (s.field a) = true → less n key b (s.field b) = true) →
        (∀ a ∈ front, less n key a (s.field a) = false) ∧ ∀ a ∈ back, less n key a (s.field a) = true)
  | .erase n => after = order.erase n
  | .replace victim new _ => after = order.replace victim new

theorem KeyedOp.apply_of_height {order : List Addr} (holds : s.tree.Holds order) (perm : order.Perm s.nodes)
    (ready : op.Ready s) (bound : RedBlack.Tree.maxHeight s.nodes.length < fuel) :
    ∃ next after, op.apply less fuel s = some next ∧ next.tree.Holds after ∧ after.Perm next.nodes ∧
      op.Reorders less s order after := by
  rw [← perm.length_eq] at bound
  cases op with
  | insert n key =>
    obtain ⟨nonnull, aligned, fresh⟩ := ready
    rw [← perm.mem_iff] at fresh
    obtain ⟨tree, front, back, run, after, split, sorted⟩ := RBTreeCached.insertBy_spec holds nonnull aligned
      fresh bound
    refine ⟨⟨tree, Function.update s.field n key, s.nodes ++ [n]⟩, front ++ n :: back, ?_, after, ?_,
      front, back, split, rfl, sorted⟩
    · simp only [apply, Option.bind_eq_bind, run, Option.bind_some]
      rfl
    · have front : (front ++ n :: back).Perm (n :: order) := split ▸ List.perm_middle
      exact front.trans ((perm.cons n).trans (List.perm_append_singleton n s.nodes).symm)
  | erase n =>
    obtain ⟨tree, run, after⟩ := RBTreeCached.cachedErase_spec holds (perm.mem_iff.mpr ready)
      (Nat.le_of_lt bound)
    refine ⟨⟨tree, s.field, s.nodes.erase n⟩, order.erase n, ?_, after, perm.erase n, rfl⟩
    simp [apply, run]
  | replace victim new key =>
    obtain ⟨member, nonnull, aligned, fresh⟩ := ready
    rw [← perm.mem_iff] at member fresh
    obtain ⟨tree, run, after⟩ := RBTreeCached.cachedReplace_spec holds member nonnull aligned fresh
    refine ⟨⟨tree, Function.update s.field new key, s.nodes.replace victim new⟩, order.replace victim new,
      ?_, after, ?_, rfl⟩
    · simp [apply, run]
    · have nodup := holds.base.nodup
      rw [replace_eq_map nodup, replace_eq_map (perm.nodup_iff.mp nodup)]
      exact perm.map _

theorem KeyedOp.apply_spec {order : List Addr} (holds : s.tree.Holds order) (perm : order.Perm s.nodes)
    (ready : op.Ready s) (bound : s.nodes.length < fuel) :
    ∃ next after, op.apply less fuel s = some next ∧ next.tree.Holds after ∧ after.Perm next.nodes ∧
      op.Reorders less s order after :=
  apply_of_height holds perm ready (RedBlack.Tree.maxHeight_lt bound)

theorem keyedSystem_step {order : List Addr} (holds : s.tree.Holds order) (perm : order.Perm s.nodes)
    (step : (keyedSystem less).step s op next) :
    ∃ after, next.tree.Holds after ∧ after.Perm next.nodes ∧ op.Reorders less s order after := by
  obtain ⟨ready, fuel, result⟩ := step
  obtain ⟨expected, after, returns, holds, perm, reorders⟩ := @KeyedOp.apply_spec _ less _ _ _ _ holds perm ready
    (Nat.lt_of_lt_of_le (Nat.lt_succ_self _) (Nat.le_max_right fuel _))
  have same := (KeyedOp.apply_stable (Nat.le_max_left fuel _) result).symm.trans returns
  rw [Option.some.inj same]
  exact ⟨after, holds, perm, reorders⟩

theorem keyedSystem_empty (initial : (keyedSystem less).init s) : s.tree.Holds [] ∧ s.nodes = [] := by
  obtain ⟨root, leftmost, nodes⟩ := initial
  exact ⟨⟨⟨.leaf, ⟨root, trivial, List.nodup_nil⟩, .of_balanced rfl rfl, rfl⟩, leftmost⟩, nodes⟩

theorem keyedSystem_sound {ops : List (KeyedOp κ)} (run : (keyedSystem less).Run ops s) : s.Sound := by
  refine run.invariant Keyed.Sound ?_ ?_
  · intro s initial
    obtain ⟨holds, nodes⟩ := keyedSystem_empty initial
    exact ⟨[], holds, by rw [nodes]⟩
  · rintro s op next ⟨order, holds, perm⟩ step
    obtain ⟨after, holds, perm, _⟩ := keyedSystem_step holds perm step
    exact ⟨after, holds, perm⟩

/-- The cached node is the first node of the tree, NULL exactly for an empty tree. -/
structure Keyed.FirstAgrees (s : Keyed κ) : Prop where
  contents : ∃ t, s.tree.base.Represents t ∧ t.Valid ∧ t.toList.Perm s.nodes
  first : ∀ fuel, s.nodes.length ≤ fuel → s.tree.base.first fuel = some s.tree.cachedFirst
  null : s.tree.cachedFirst = 0 ↔ s.nodes = []

theorem Keyed.Sound.firstAgrees (sound : s.Sound) : s.FirstAgrees := by
  obtain ⟨order, holds, perm⟩ := sound
  refine ⟨?_, ?_, ?_⟩
  · obtain ⟨t, represents, valid, rfl⟩ := holds.base
    exact ⟨t, represents, valid, perm⟩
  · intro fuel bound
    rw [← perm.length_eq] at bound
    rw [first_spec holds.base (RedBlack.Tree.maxHeight_le bound), RBTreeCached.cachedFirst, holds.leftmost]
  · rw [RBTreeCached.cachedFirst, holds.leftmost]
    cases order with
    | nil => simpa using perm.symm.eq_nil
    | cons a rest =>
      have nonnull : a ≠ 0 := holds.base.ne_zero List.mem_cons_self
      have nonempty : s.nodes ≠ [] := fun empty => by simp [empty] at perm
      simp [nonnull, nonempty]

/-! ## Order -/

section Order

variable [LinearOrder K] {rank : Addr → κ → K}

/-- `a` comes before `b`: its key is smaller, or equal and `a` was inserted first. -/
def Keyed.Precedes (rank : Addr → κ → K) (s : Keyed κ) (a b : Addr) : Prop :=
  rank a (s.field a) < rank b (s.field b) ∨
    (rank a (s.field a) = rank b (s.field b) ∧ [a, b].Sublist s.nodes)

theorem Keyed.Precedes.asymm {a b : Addr} (nodup : s.nodes.Nodup) (precedes : s.Precedes rank a b) :
    ¬ s.Precedes rank b a := by
  rintro (less | ⟨equal, second⟩)
  · rcases precedes with less' | ⟨equal', _⟩
    · exact lt_asymm less less'
    · exact less.ne' equal'
  · rcases precedes with less' | ⟨_, first⟩
    · exact less'.ne' equal
    · -- No list without duplicates has two elements in both orders.
      generalize s.nodes = nodes at nodup first second
      induction nodes with
      | nil => cases first
      | cons x nodes ih =>
        obtain ⟨outside, unique⟩ := List.nodup_cons.mp nodup
        rcases List.cons_sublist_cons'.mp first with before | ⟨rfl, before⟩ <;>
          rcases List.cons_sublist_cons'.mp second with after | ⟨rfl, after⟩
        · exact ih unique before after
        · exact outside (before.subset (List.mem_cons_of_mem _ List.mem_cons_self))
        · exact outside (after.subset (List.mem_cons_of_mem _ List.mem_cons_self))
        · exact outside (before.subset List.mem_cons_self)

/-- The in-order sequence is sorted by key, equal keys by insertion. -/
def Keyed.Sorted (rank : Addr → κ → K) (s : Keyed κ) : Prop :=
  ∃ order, s.tree.Holds order ∧ order.Perm s.nodes ∧ order.Pairwise (s.Precedes rank)

def Keyed.FirstLeast (rank : Addr → κ → K) (s : Keyed κ) : Prop :=
  s.nodes ≠ [] → s.tree.cachedFirst ∈ s.nodes ∧
    ∀ a ∈ s.nodes, a ≠ s.tree.cachedFirst → s.Precedes rank s.tree.cachedFirst a

theorem Keyed.Sorted.firstLeast (sorted : s.Sorted rank) : s.FirstLeast rank := by
  obtain ⟨order, holds, perm, pairwise⟩ := sorted
  intro nonempty
  cases order with
  | nil => exact absurd perm.symm.eq_nil nonempty
  | cons a rest =>
    have first : s.tree.cachedFirst = a := holds.leftmost
    rw [first]
    refine ⟨perm.mem_iff.mp List.mem_cons_self, fun b member other => ?_⟩
    have inside := (List.mem_cons.mp (perm.mem_iff.mpr member)).resolve_left other
    exact (List.pairwise_cons.mp pairwise).1 b inside

variable {tree : RBTreeCached} {order : List Addr} {n v : Addr} {key : κ}

theorem Keyed.Sorted.congr {field : Addr → κ} (sorted : s.Sorted rank)
    (same : ∀ a ∈ s.nodes, field a = s.field a) : Keyed.Sorted rank ⟨s.tree, field, s.nodes⟩ := by
  obtain ⟨order, holds, perm, pairwise⟩ := sorted
  refine ⟨order, holds, perm, pairwise.imp_of_mem fun {a b} ha hb precedes => ?_⟩
  simp only [Precedes, same a (perm.mem_iff.mp ha), same b (perm.mem_iff.mp hb)] at precedes ⊢
  exact precedes

theorem Keyed.Sorted.nodup (sorted : s.Sorted rank) : s.nodes.Nodup := by
  obtain ⟨order, holds, perm, _⟩ := sorted
  exact perm.nodup_iff.mp holds.base.nodup

theorem Keyed.precedes_insert {front back : List Addr} (sorted : (front ++ back).Pairwise (s.Precedes rank))
    (perm : (front ++ back).Perm s.nodes) (fresh : n ∉ s.nodes)
    (before : ∀ a ∈ front, rank a (s.field a) ≤ rank n key)
    (behind : ∀ a ∈ back, rank n key < rank a (s.field a)) :
    (front ++ n :: back).Pairwise
      (Keyed.Precedes rank ⟨tree, Function.update s.field n key, s.nodes ++ [n]⟩) := by
  have same : ∀ a ∈ front ++ back, Function.update s.field n key a = s.field a := by
    intro a member
    have other : a ≠ n := fun h => fresh (h ▸ perm.mem_iff.mp member)
    exact Function.update_of_ne other key s.field
  have grow : ∀ a ∈ front ++ back, ∀ b ∈ front ++ back, s.Precedes rank a b →
      Keyed.Precedes rank ⟨tree, Function.update s.field n key, s.nodes ++ [n]⟩ a b := by
    intro a ha b hb precedes
    simp only [Precedes, same a ha, same b hb] at precedes ⊢
    exact precedes.imp_right fun h => ⟨h.1, h.2.trans (List.sublist_append_left _ _)⟩
  obtain ⟨left, right, across⟩ := List.pairwise_append.mp sorted
  have inLeft : ∀ a ∈ front, a ∈ front ++ back := fun a h => List.mem_append_left _ h
  have inRight : ∀ a ∈ back, a ∈ front ++ back := fun a h => List.mem_append_right _ h
  refine List.pairwise_append.mpr ⟨?_, List.pairwise_cons.mpr ⟨?_, ?_⟩, ?_⟩
  · exact left.imp_of_mem fun ha hb => grow _ (inLeft _ ha) _ (inLeft _ hb)
  · intro b hb
    refine .inl ?_
    simp only [Function.update_self, same b (inRight b hb)]
    exact behind b hb
  · exact right.imp_of_mem fun ha hb => grow _ (inRight _ ha) _ (inRight _ hb)
  · intro a ha b hb
    rcases List.mem_cons.mp hb with rfl | hb
    · unfold Precedes
      simp only [Function.update_self, same a (inLeft a ha)]
      -- A node with an equal key was inserted before, as the new one is the last.
      refine (lt_or_eq_of_le (before a ha)).imp_right fun equal => ⟨equal, ?_⟩
      have member : a ∈ s.nodes := perm.mem_iff.mp (inLeft a ha)
      exact (List.singleton_sublist.mpr member).append (List.Sublist.refl [b])
    · exact grow a (inLeft a ha) b (inRight b hb) (across a ha b hb)

theorem Keyed.precedes_erase (sorted : order.Pairwise (s.Precedes rank)) (nodup : order.Nodup)
    (perm : order.Perm s.nodes) :
    (order.erase n).Pairwise (Keyed.Precedes rank ⟨tree, s.field, s.nodes.erase n⟩) := by
  have nodup' := perm.nodup_iff.mp nodup
  rw [nodup'.erase_eq_filter, nodup.erase_eq_filter]
  refine (sorted.sublist List.filter_sublist).imp_of_mem ?_
  intro a b ha hb precedes
  refine precedes.imp_right fun h => ⟨h.1, ?_⟩
  have kept := h.2.filter fun x => x != n
  simpa only [List.filter_cons, (List.mem_filter.mp ha).2, (List.mem_filter.mp hb).2, if_true,
    List.filter_nil] using kept

theorem Keyed.precedes_replace (sorted : order.Pairwise (s.Precedes rank)) (nodup : order.Nodup)
    (perm : order.Perm s.nodes) (fresh : n ∉ s.nodes)
    (above : ∀ a ∈ s.nodes, a ≠ v →
      (rank n key < rank a (s.field a) ↔ rank v (s.field v) < rank a (s.field a)))
    (below : ∀ a ∈ s.nodes, a ≠ v →
      (rank a (s.field a) < rank n key ↔ rank a (s.field a) < rank v (s.field v))) :
    (order.replace v n).Pairwise
      (Keyed.Precedes rank ⟨tree, Function.update s.field n key, s.nodes.replace v n⟩) := by
  have nodup' := perm.nodup_iff.mp nodup
  -- The new key compares with all others as that of the victim does.
  have equal : ∀ a ∈ s.nodes, a ≠ v →
      (rank n key = rank a (s.field a) ↔ rank v (s.field v) = rank a (s.field a)) := by
    intro a member other
    have := above a member other
    have := below a member other
    constructor <;> intro same <;> apply le_antisymm <;> simp_all [← not_lt]
  rw [replace_eq_map nodup, replace_eq_map nodup', List.pairwise_map]
  refine (sorted.and nodup).imp_of_mem ?_
  rintro a b ha hb ⟨precedes, distinct⟩
  have ha' := perm.mem_iff.mp ha
  have hb' := perm.mem_iff.mp hb
  have notA : a ≠ n := fun h => fresh (h ▸ ha')
  have notB : b ≠ n := fun h => fresh (h ▸ hb')
  have moved : [a, b].Sublist s.nodes → _ := fun h => h.map fun a => if a = v then n else a
  unfold Precedes at precedes ⊢
  by_cases first : a = v
  · subst first
    have second : b ≠ a := Ne.symm distinct
    simp only [if_true, if_neg second, Function.update_self, Function.update_of_ne notB, above b hb' second,
      equal b hb' second]
    refine precedes.imp_right fun h => ⟨h.1, ?_⟩
    simpa [second] using moved h.2
  · by_cases second : b = v
    · subst second
      have level : rank a (s.field a) = rank n key ↔ rank a (s.field a) = rank b (s.field b) := by
        rw [eq_comm, equal a ha' first, eq_comm]
      simp only [if_true, if_neg first, Function.update_self, Function.update_of_ne notA, below a ha' first,
        level]
      refine precedes.imp_right fun h => ⟨h.1, ?_⟩
      simpa [first] using moved h.2
    · simp only [if_neg first, if_neg second, Function.update_of_ne notA, Function.update_of_ne notB]
      refine precedes.imp_right fun h => ⟨h.1, ?_⟩
      simpa [first, second] using moved h.2

variable (faithful : ∀ a x b y, less a x b y = true ↔ rank a x < rank b y)
include faithful

theorem Keyed.Sorted.keep (sorted : s.Sorted rank) (kept : op.KeepsPlace less s)
    (step : (keyedSystem less).step s op next) : next.Sorted rank := by
  obtain ⟨order, holds, perm, pairwise⟩ := sorted
  obtain ⟨after, holds', perm', reorders⟩ := keyedSystem_step holds perm step
  refine ⟨after, holds', perm', ?_⟩
  have notLess : ∀ {a x b y}, less a x b y = false ↔ rank b y ≤ rank a x := by
    intro a x b y
    rw [← not_lt, ← faithful, Bool.not_eq_true]
  obtain ⟨ready, fuel, result⟩ := step
  cases op with
  | insert n key =>
    simp only [KeyedOp.apply, Option.bind_eq_bind, Option.bind_eq_some_iff, Option.pure_def,
      Option.some.injEq] at result
    obtain ⟨tree, _, rfl⟩ := result
    obtain ⟨front, back, rfl, rfl, position⟩ := reorders
    -- Along a sorted sequence the comparison turns true once and stays so.
    obtain ⟨before, behind⟩ := position (pairwise.imp fun precedes => by
      rw [faithful, faithful]
      rcases precedes with smaller | ⟨equal, _⟩
      · exact fun h => h.trans smaller
      · exact fun h => equal ▸ h)
    exact precedes_insert pairwise perm ready.2.2 (fun a h => notLess.mp (before a h))
      fun a h => (faithful _ _ _ _).mp (behind a h)
  | erase n =>
    simp only [KeyedOp.apply, Option.bind_eq_bind, Option.bind_eq_some_iff, Option.pure_def,
      Option.some.injEq] at result
    obtain ⟨tree, _, rfl⟩ := result
    obtain rfl := reorders
    exact precedes_erase pairwise holds.base.nodup perm
  | replace victim new key =>
    simp only [KeyedOp.apply, Option.bind_eq_bind, Option.bind_eq_some_iff, Option.pure_def,
      Option.some.injEq] at result
    obtain ⟨tree, _, rfl⟩ := result
    obtain rfl := reorders
    refine precedes_replace pairwise holds.base.nodup perm ready.2.2.2 ?_ ?_
    · intro a member other
      rw [← faithful, ← faithful, (kept a member other).1]
    · intro a member other
      rw [← faithful, ← faithful, (kept a member other).2]

theorem keyedSystem_sorted {ops : List (KeyedOp κ)}
    (run : ((keyedSystem less).restrict fun s op => op.KeepsPlace less s).Run ops s) : s.Sorted rank := by
  refine run.invariant (Keyed.Sorted rank) ?_ ?_
  · intro s initial
    obtain ⟨holds, nodes⟩ := @keyedSystem_empty _ less _ initial
    exact ⟨[], holds, by rw [nodes], .nil⟩
  · intro s op next sorted step
    exact sorted.keep faithful step.1 step.2

end Order

/-! ## The scheduler's and the timer's tree -/

/-- `task->sched_key < this->sched_key` in `_hev_task_system_insert_task`. -/
def schedLess (_ : Addr) (key : Nat) (_ : Addr) (other : Nat) : Bool := key < other

/-- `hev_task_timer_node_cmp (node, this) < 0` in `hev_task_timer_wait`. -/
def timerLess (n : Addr) (expire : Timespec) (this : Addr) (other : Timespec) : Bool :=
  timerNodeCmp n expire this other < 0

/-- In every run the cached node is the first node and every operation returns; in
every run whose replacements keep their place it is the earliest least node. -/
def LeftmostCorrect [LinearOrder K] (less : Addr → κ → Addr → κ → Bool) (rank : Addr → κ → K) : Prop :=
  (∀ ops s, (keyedSystem less).Run ops s → s.FirstAgrees ∧ ∀ op : KeyedOp κ, op.Ready s →
      ∀ fuel, s.nodes.length < fuel → ∃ next, op.apply less fuel s = some next) ∧
    ∀ ops s, ((keyedSystem less).restrict fun s op => op.KeepsPlace less s).Run ops s → s.FirstLeast rank

theorem leftmostCorrect_of_faithful [LinearOrder K] {rank : Addr → κ → K}
    (faithful : ∀ a x b y, less a x b y = true ↔ rank a x < rank b y) : LeftmostCorrect less rank := by
  refine ⟨fun ops s run => ⟨(keyedSystem_sound run).firstAgrees, ?_⟩, ?_⟩
  · intro op ready fuel bound
    obtain ⟨order, holds, perm⟩ := keyedSystem_sound run
    obtain ⟨next, _, returns, _⟩ := KeyedOp.apply_spec holds perm ready bound
    exact ⟨next, returns⟩
  · intro ops s run
    exact (keyedSystem_sorted faithful run).firstLeast

theorem cached_first_correct :
    LeftmostCorrect schedLess (fun _ key => key) ∧ LeftmostCorrect timerLess timerKey := by
  refine ⟨leftmostCorrect_of_faithful ?_, leftmostCorrect_of_faithful ?_⟩
  · intro a x b y
    simp [schedLess]
  · intro a x b y
    rw [timerLess, decide_eq_true_iff, timerNodeCmp_neg]

instance KeyedOp.decidableReady (s : Keyed κ) (op : KeyedOp κ) : Decidable (op.Ready s) :=
  match op with
  | .insert n _ => inferInstanceAs (Decidable (n ≠ 0 ∧ 4 ∣ n ∧ n ∉ s.nodes))
  | .erase n => inferInstanceAs (Decidable (n ∈ s.nodes))
  | .replace victim new _ => inferInstanceAs
      (Decidable (victim ∈ s.nodes ∧ new ≠ 0 ∧ 4 ∣ new ∧ new ∉ s.nodes))

def KeyedOp.perform (less : Addr → κ → Addr → κ → Bool) (fuel : Nat) (s : Keyed κ) (op : KeyedOp κ) :
    Option (Keyed κ) :=
  if op.Ready s then op.apply less fuel s else none

theorem KeyedOp.perform_sound (result : op.perform less fuel s = some next) :
    (keyedSystem less).step s op next := by
  unfold perform at result
  split at result
  · exact ⟨‹_›, fuel, result⟩
  · cases result

theorem exists_not_least [LinearOrder K] {rank : Addr → κ → K} {start : Keyed κ} (ops : List (KeyedOp κ)) (a : Addr)
    (initial : (keyedSystem less).init start)
    (result : (ops.foldlM (KeyedOp.perform less 8) start).any (fun s => a ∈ s.nodes ∧
      rank a (s.field a) < rank s.tree.cachedFirst (s.field s.tree.cachedFirst)) = true) :
    ∃ ops s, (keyedSystem less).Run ops s ∧ ¬ s.FirstLeast rank := by
  obtain ⟨s, run, found⟩ := System.Run.exists_exec _ _ (fun _ _ _ => KeyedOp.perform_sound) (.init initial) ops result
  obtain ⟨member, smaller⟩ := of_decide_eq_true found
  refine ⟨_, s, run, fun least => ?_⟩
  have other : a ≠ s.tree.cachedFirst := by
    intro same
    rw [← same] at smaller
    exact lt_irrefl _ smaller
  rcases (least (List.ne_nil_of_mem member)).2 a member other with greater | ⟨equal, _⟩
  · exact lt_asymm greater smaller
  · exact absurd equal smaller.ne'

/-- A replacement with another key moves no node: the scheduler's cached node then has
key 5 next to a node with key 2. The timer's key contains the address, so there even a
replacement with the same expiry can be greater than another node. -/
theorem cached_first_not_least_after_replace :
    (∃ ops s, (keyedSystem schedLess).Run ops s ∧ ¬ s.FirstLeast fun _ key => key) ∧
      ∃ ops s, (keyedSystem timerLess).Run ops s ∧ ¬ s.FirstLeast timerKey := by
  constructor
  · exact exists_not_least [.insert 4 1, .insert 8 2, .replace 4 12 5] 8
      (show (keyedSystem schedLess).init ⟨⟨blank, 0⟩, fun _ => 0, []⟩ from ⟨rfl, rfl, rfl⟩) (by decide)
  · exact exists_not_least [.insert 4 ⟨0, 0⟩, .insert 8 ⟨0, 0⟩, .replace 4 12 ⟨0, 0⟩] 8
      (show (keyedSystem timerLess).init ⟨⟨blank, 0⟩, fun _ => ⟨0, 0⟩, []⟩ from ⟨rfl, rfl, rfl⟩) (by decide)

end HevTaskSystem
