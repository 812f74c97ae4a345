import HevTaskSystem.RBTree.Navigate

/-! Walking a whole tree in either direction.

What holds of the next node and of the first one holds of the previous node and of the last
one in the mirrored memory, where every node has its children exchanged. Going from node to
node the walk takes the nodes of the in-order sequence one by one. The colours play no part.
-/

set_option autoImplicit false

namespace HevTaskSystem.RBTree

open Foundation Foundation.RedBlack Foundation.RedBlack.Tree

def last (fuel : Nat) (self : RBTree) : Option Addr := self.outermost fuel .right

def nodePrev (fuel : Nat) (self : RBTree) (n : Addr) : Option Addr := self.neighbour fuel .left n

/-- One pass of `for (node = start; node; node = step (node))`, with the nodes visited so far. -/
def iteratePass (step : Addr → Option Addr) (s : Addr × List Addr) :
    Option (Foundation.Flow (Addr × List Addr) (List Addr)) :=
  if s.1 = 0 then some (.done s.2)
  else do return .next (← step s.1, s.2 ++ [s.1])

def iterate (fuel : Nat) (start : Option Addr) (step : Addr → Option Addr) : Option (List Addr) := do
  loop (iteratePass step) fuel (← start, [])

/-! ## The mirrored memory -/

def mirror (self : RBTree) : RBTree := { self with child := fun side => self.child side.flip }

variable {mem : RBTree} {t : RedBlack.Tree Addr} {fuel : Nat} {n m parent : Addr} {front rest : List Addr}

theorem mirror_first (mem : RBTree) (fuel : Nat) : mem.mirror.first fuel = mem.last fuel := rfl

theorem mirror_nodeNext (mem : RBTree) (fuel : Nat) (n : Addr) : mem.mirror.nodeNext fuel n = mem.nodePrev fuel n :=
  rfl

@[simp] theorem addr_mirror (t : RedBlack.Tree Addr) : addr t.mirror = addr t := by
  cases t <;> rfl

theorem Rep.mirror (rep : mem.Rep t parent) : mem.mirror.Rep t.mirror parent := by
  induction t generalizing parent with
  | leaf => trivial
  | node color left a right ihl ihr =>
    obtain ⟨nonnull, aligned, pc, onLeft, onRight, hl, hr⟩ := rep
    refine ⟨nonnull, aligned, pc, ?_, ?_, ihr hr, ihl hl⟩
    · rw [addr_mirror]
      exact onRight
    · rw [addr_mirror]
      exact onLeft

theorem Represents.mirror (represents : mem.Represents t) : mem.mirror.Represents t.mirror where
  root := by
    rw [addr_mirror]
    exact represents.root
  rep := represents.rep.mirror
  nodup := by
    rw [toList_mirror, List.nodup_reverse]
    exact represents.nodup

/-! ## Neighbours -/

theorem Represents.last_of_height (represents : mem.Represents t) (bound : t.height ≤ fuel) :
    mem.last fuel = some (t.toList.getLastD 0) := by
  have first := represents.mirror.first_of_height (show t.mirror.height ≤ fuel by simpa using bound)
  rw [mirror_first, toList_mirror] at first
  rw [first]
  simp [List.headD_eq_head?_getD, List.getLastD_eq_getLast?]

theorem last_spec {order : List Addr} (holds : mem.Holds order) (bound : maxHeight order.length ≤ fuel) :
    mem.last fuel = some (order.getLastD 0) := by
  obtain ⟨t, represents, valid, rfl⟩ := holds
  exact represents.last_of_height (Nat.le_trans valid.height_le bound)

theorem Represents.nodePrev_of_height (represents : mem.Represents t) (same : t.toList = front ++ n :: rest)
    (bound : t.height ≤ fuel) : mem.nodePrev fuel n = some (front.getLastD 0) := by
  have split : t.mirror.toList = rest.reverse ++ n :: front.reverse := by simp [same]
  have next := represents.mirror.nodeNext_of_height split (by simpa using bound)
  rw [mirror_nodeNext] at next
  rw [next]
  simp [List.headD_eq_head?_getD, List.getLastD_eq_getLast?]

theorem Represents.nodePrev_eq (represents : mem.Represents t) (same : t.toList = front ++ n :: rest)
    (bound : t.toList.length ≤ fuel) : mem.nodePrev fuel n = some (front.getLastD 0) :=
  represents.nodePrev_of_height same (Nat.le_trans t.height_le_length bound)

theorem nodePrev_spec (holds : mem.Holds (front ++ n :: rest))
    (bound : maxHeight (front ++ n :: rest).length ≤ fuel) : mem.nodePrev fuel n = some (front.getLastD 0) := by
  obtain ⟨t, represents, valid, same⟩ := holds
  rw [← same] at bound
  exact represents.nodePrev_of_height same (Nat.le_trans valid.height_le bound)

theorem Represents.nodeNext_null (represents : mem.Represents t) (same : t.toList = front ++ n :: rest)
    (bound : t.toList.length ≤ fuel) : mem.nodeNext fuel n = some 0 ↔ rest = [] := by
  rw [represents.nodeNext_eq same bound]
  cases rest with
  | nil => simp
  | cons a rest =>
    have nonnull : a ≠ 0 := represents.rep.ne_zero (by simp [same])
    simpa using nonnull

theorem Represents.nodePrev_null (represents : mem.Represents t) (same : t.toList = front ++ n :: rest)
    (bound : t.toList.length ≤ fuel) : mem.nodePrev fuel n = some 0 ↔ front = [] := by
  have split : t.mirror.toList = rest.reverse ++ n :: front.reverse := by simp [same]
  have null := represents.mirror.nodeNext_null split (by simpa using bound)
  rwa [mirror_nodeNext, List.reverse_eq_nil_iff] at null

theorem Represents.nodeNext_iff (represents : mem.Represents t) (bound : t.toList.length ≤ fuel)
    (hn : n ∈ t.toList) (hm : m ∈ t.toList) :
    mem.nodeNext fuel n = some m ↔ ∃ front rest, t.toList = front ++ n :: m :: rest := by
  constructor
  · intro next
    obtain ⟨front, rest, same⟩ := List.append_of_mem hn
    rw [represents.nodeNext_eq same bound] at next
    cases rest with
    | nil => exact absurd (Option.some.inj next).symm (represents.rep.ne_zero hm)
    | cons a rest =>
      cases next
      exact ⟨front, rest, same⟩
  · rintro ⟨front, rest, same⟩
    exact represents.nodeNext_eq same bound

theorem Represents.nodePrev_iff (represents : mem.Represents t) (bound : t.toList.length ≤ fuel)
    (hn : n ∈ t.toList) (hm : m ∈ t.toList) :
    mem.nodePrev fuel m = some n ↔ ∃ front rest, t.toList = front ++ n :: m :: rest := by
  have behind := represents.mirror.nodeNext_iff (n := m) (m := n) (by simpa using bound) (by simpa using hm)
    (by simpa using hn)
  rw [mirror_nodeNext, toList_mirror] at behind
  rw [behind]
  constructor
  · rintro ⟨front, rest, same⟩
    exact ⟨rest.reverse, front.reverse, by simpa using congrArg List.reverse same⟩
  · rintro ⟨front, rest, same⟩
    exact ⟨rest.reverse, front.reverse, by simp [same]⟩

/-! ## Whole walks -/

theorem Represents.iterate_rest (represents : mem.Represents t) (bound : t.toList.length ≤ fuel)
    (same : t.toList = front ++ rest) {passes : Nat} (enough : rest.length < passes) :
    loop (iteratePass (mem.nodeNext fuel)) passes (rest.headD 0, front) = some t.toList := by
  induction rest generalizing front passes with
  | nil =>
    obtain ⟨passes, rfl⟩ : ∃ k, passes = k + 1 := ⟨passes - 1, by omega⟩
    apply loop_succ_of_done
    simp [iteratePass, same]
  | cons n rest ih =>
    obtain ⟨passes, rfl⟩ : ∃ k, passes = k + 1 := ⟨passes - 1, by omega⟩
    have nonnull : n ≠ 0 := represents.rep.ne_zero (by simp [same])
    have next : iteratePass (mem.nodeNext fuel) (n, front) = some (.next (rest.headD 0, front ++ [n])) := by
      simp [iteratePass, nonnull, represents.nodeNext_eq same bound]
    refine (loop_succ_of_next next).trans (ih ?_ ?_)
    · rw [same, List.append_cons]
    · simpa using enough

theorem Represents.iterate_next (represents : mem.Represents t) (bound : t.toList.length < fuel) :
    iterate fuel (mem.first fuel) (mem.nodeNext fuel) = some t.toList := by
  rw [represents.first_eq (Nat.le_of_lt bound)]
  exact represents.iterate_rest (Nat.le_of_lt bound) (List.nil_append _).symm bound

theorem Represents.iterate_prev (represents : mem.Represents t) (bound : t.toList.length < fuel) :
    iterate fuel (mem.last fuel) (mem.nodePrev fuel) = some t.toList.reverse := by
  rw [← toList_mirror]
  exact represents.mirror.iterate_next (by simpa using bound)

/-- In every tree in memory, whatever its colours, the next and the previous node are the
neighbours in the in-order sequence, each undoes the other, and the walk from either end
visits every node once and returns. -/
theorem in_order_navigation (represents : mem.Represents t) (bound : t.toList.length < fuel) :
    (∀ front n rest, t.toList = front ++ n :: rest →
      mem.nodeNext fuel n = some (rest.headD 0) ∧ mem.nodePrev fuel n = some (front.getLastD 0) ∧
        (mem.nodeNext fuel n = some 0 ↔ rest = []) ∧ (mem.nodePrev fuel n = some 0 ↔ front = [])) ∧
      (∀ n ∈ t.toList, ∀ m ∈ t.toList, mem.nodeNext fuel n = some m ↔ mem.nodePrev fuel m = some n) ∧
      t.toList.Nodup ∧
      iterate fuel (mem.first fuel) (mem.nodeNext fuel) = some t.toList ∧
      iterate fuel (mem.last fuel) (mem.nodePrev fuel) = some t.toList.reverse := by
  have enough := Nat.le_of_lt bound
  refine ⟨fun front n rest same => ?_, fun n hn m hm => ?_, represents.nodup,
    represents.iterate_next bound, represents.iterate_prev bound⟩
  · exact ⟨represents.nodeNext_eq same enough, represents.nodePrev_eq same enough,
      represents.nodeNext_null same enough, represents.nodePrev_null same enough⟩
  · rw [represents.nodeNext_iff enough hn hm, represents.nodePrev_iff enough hn hm]

def three : RBTree where
  root := 8
  parentColor a := if a = 8 then word 0 .black else word 8 .red
  child side a := if a = 8 then (match side with | .left => 4 | .right => 12) else 0

theorem in_order_navigation_three :
    iterate 4 (three.first 4) (three.nodeNext 4) = some [4, 8, 12] ∧
      iterate 4 (three.last 4) (three.nodePrev 4) = some [12, 8, 4] := by
  have represents : three.Represents (.node .black (.node .red .leaf 4 .leaf) 8 (.node .red .leaf 12 .leaf)) :=
    ⟨rfl, by simp [Rep, three, addr], by decide⟩
  exact (in_order_navigation represents (show 3 < 4 by decide)).2.2.2

end HevTaskSystem.RBTree
