import HevTaskSystem.RBTree.Iterate
import HevTaskSystem.RBTree.Search
import HevTaskSystem.RBTree.Sorted

/-! How many passes the loops of the tree make.

The fuel of a loop bounds its passes, and what a loop computes does not depend on it. In a
tree that was built by the operations no loop makes more passes than twice the logarithm of
the number of nodes, and one more: neither the descent to the place of a new node and the
recolouring above it, nor the way to the successor of an erased node and the rebalancing, nor
the walks to a neighbour or to an end.
-/

set_option autoImplicit false

namespace HevTaskSystem

open Foundation Foundation.RedBlack HevTaskSystem.RBTree

variable {κ : Type} {less : Addr → κ → Addr → κ → Bool} {ops : List (KeyedOp κ)} {s : Keyed κ} {fuel : Nat}

/-- The walks over a tree and the searches in it return within the fuel. -/
structure RBTree.Walks (mem : RBTree) (order : List Addr) (fuel : Nat) : Prop where
  first : mem.first fuel = some (order.headD 0)
  last : mem.last fuel = some (order.getLastD 0)
  neighbours : ∀ front n rest, order = front ++ n :: rest →
    mem.nodeNext fuel n = some (rest.headD 0) ∧ mem.nodePrev fuel n = some (front.getLastD 0)
  search : ∀ turn toward, Guides turn order → (∀ a ∈ order, toward a = some (turn a)) →
    ∃ n, mem.search fuel toward = some n ∧ (n ∈ order ∧ turn n = none ∨ n = 0 ∧ ∀ a ∈ order, turn a ≠ none)

theorem RBTree.Holds.walks {mem : RBTree} {order : List Addr} (holds : mem.Holds order)
    (bound : Tree.maxHeight order.length < fuel) : mem.Walks order fuel where
  first := first_spec holds (Nat.le_of_lt bound)
  last := last_spec holds (Nat.le_of_lt bound)
  neighbours := by
    rintro front n rest rfl
    exact ⟨nodeNext_spec holds (Nat.le_of_lt bound), nodePrev_spec holds (Nat.le_of_lt bound)⟩
  search _ _ guides reads := search_spec holds guides reads bound

/-- In every run of the scheduler's or the timer's operations, with `n` nodes in the tree,
every operation and every walk returns when each of its loops may make
`2 * Nat.log2 (n + 1) + 1` passes. -/
theorem tree_loops_logarithmic (run : (keyedSystem less).Run ops s)
    (bound : 2 * Nat.log2 (s.nodes.length + 1) < fuel) :
    (∀ op : KeyedOp κ, op.Ready s →
      ∃ next, op.apply less fuel s = some next ∧ (keyedSystem less).Run (ops ++ [op]) next) ∧
      ∃ order, order.Perm s.nodes ∧ s.tree.base.Walks order fuel := by
  obtain ⟨order, holds, perm⟩ := keyedSystem_sound run
  have enough : Tree.maxHeight s.nodes.length < fuel := Nat.lt_of_le_of_lt (Tree.maxHeight_le_log _) bound
  constructor
  · intro op ready
    obtain ⟨next, _, returns, _⟩ := KeyedOp.apply_of_height holds perm ready enough
    exact ⟨next, returns, run.step ⟨ready, fuel, returns⟩⟩
  · rw [← perm.length_eq] at enough
    exact ⟨order, perm, holds.base.walks enough⟩

/-- Seven keys in ascending order; seven passes are enough for all that follows. -/
theorem tree_loops_logarithmic_seven : ∃ s, (keyedSystem schedLess).Run
    [.insert 4 1, .insert 8 2, .insert 12 3, .insert 16 4, .insert 20 5, .insert 24 6, .insert 28 7] s ∧
      s.nodes.length = 7 ∧ (∃ next, (KeyedOp.erase 16).apply schedLess 7 s = some next) ∧
      ∃ order, order.Perm s.nodes ∧ s.tree.base.Walks order 7 := by
  have start : (keyedSystem schedLess).Run [] ⟨⟨blank, 0⟩, fun _ => 0, []⟩ := .init ⟨rfl, rfl, rfl⟩
  refine start.exists_reached (KeyedOp.perform schedLess 8) (fun s => s.nodes.length = 7 ∧ 16 ∈ s.nodes)
    (fun _ _ _ => KeyedOp.perform_sound) (by decide +kernel) fun s run final => ?_
  obtain ⟨seven, member⟩ := of_decide_eq_true final
  have bound : 2 * Nat.log2 (s.nodes.length + 1) < 7 := by
    rw [seven]
    decide
  obtain ⟨next, returns, _⟩ := (tree_loops_logarithmic run bound).1 (.erase 16) member
  exact ⟨seven, ⟨next, returns⟩, (tree_loops_logarithmic run bound).2⟩

end HevTaskSystem
