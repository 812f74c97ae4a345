import HevTaskSystem.Foundation.Linked
import HevTaskSystem.RBTree.Memory

/-! The doubly linked list, `lib/list/hev-list.c`.

Nodes are embedded in other structures; the two link fields are maps from the address
of the structure. Lists of one kind share these maps, so a change of one list has to
leave the nodes of the others alone.
-/

set_option autoImplicit false

namespace HevTaskSystem

open Foundation

structure ListNodes where
  next : Addr → Addr
  prev : Addr → Addr

structure HevList where
  head : Addr
  tail : Addr
  deriving DecidableEq, Repr

namespace HevList

def addTail (list : HevList) (nodes : ListNodes) (new : Addr) : HevList × ListNodes :=
  let nodes : ListNodes :=
    ⟨Function.update nodes.next new 0, Function.update nodes.prev new list.tail⟩
  if list.tail ≠ 0 then
    (⟨list.head, new⟩, { nodes with next := Function.update nodes.next list.tail new })
  else
    (⟨new, new⟩, nodes)

def del (list : HevList) (nodes : ListNodes) (node : Addr) : HevList × ListNodes :=
  let (list, nodes) : HevList × ListNodes :=
    if nodes.prev node ≠ 0 then
      (list, { nodes with next := Function.update nodes.next (nodes.prev node) (nodes.next node) })
    else
      ({ list with head := nodes.next node }, nodes)
  if nodes.next node ≠ 0 then
    (list, { nodes with prev := Function.update nodes.prev (nodes.next node) (nodes.prev node) })
  else
    ({ list with tail := nodes.prev node }, nodes)

structure Holds (list : HevList) (nodes : ListNodes) (order : List Addr) : Prop where
  head : list.head = order.headD 0
  tail : list.tail = order.getLastD 0
  linked : Linked nodes.next nodes.prev 0 0 order
  nodup : order.Nodup
  nonnull : 0 ∉ order

variable {list : HevList} {nodes nodes' : ListNodes} {order front back : List Addr} {a : Addr}

theorem Holds.empty (nodes : ListNodes) : Holds ⟨0, 0⟩ nodes [] :=
  ⟨rfl, rfl, trivial, List.nodup_nil, List.not_mem_nil⟩

theorem Holds.congr (holds : list.Holds nodes order)
    (same : ∀ b ∈ order, nodes'.next b = nodes.next b ∧ nodes'.prev b = nodes.prev b) :
    list.Holds nodes' order :=
  ⟨holds.head, holds.tail, holds.linked.congr same, holds.nodup, holds.nonnull⟩

theorem Holds.head_eq_zero (holds : list.Holds nodes order) : list.head = 0 ↔ order = [] := by
  rw [holds.head]
  cases order with
  | nil => simp
  | cons b rest =>
    have nonnull : b ≠ 0 := fun null => holds.nonnull (null ▸ List.mem_cons_self)
    simp [nonnull]

theorem Holds.eq_nil (holds : list.Holds nodes []) : list = ⟨0, 0⟩ := by
  obtain ⟨head, tail, _⟩ := holds
  cases list
  exact congrArg₂ HevList.mk head tail

theorem Holds.head_mem (holds : list.Holds nodes order) (nonempty : list.head ≠ 0) : list.head ∈ order := by
  rw [holds.head] at nonempty ⊢
  cases order with
  | nil => exact absurd rfl nonempty
  | cons b rest => exact List.mem_cons_self

theorem addTail_frame (holds : list.Holds nodes order) {b : Addr} (other : b ≠ a) (outside : b ∉ order) :
    (list.addTail nodes a).2.next b = nodes.next b ∧ (list.addTail nodes a).2.prev b = nodes.prev b := by
  unfold addTail
  split
  · rename_i nonempty
    have last : b ≠ list.tail := by
      rintro rfl
      rw [holds.tail] at outside nonempty
      rcases List.eq_nil_or_concat order with rfl | ⟨init, last, rfl⟩
      · exact nonempty rfl
      · simp at outside
    simp [other, last]
  · simp [other]

theorem addTail_holds (holds : list.Holds nodes order) (nonnull : a ≠ 0) (fresh : a ∉ order) :
    (list.addTail nodes a).1.Holds (list.addTail nodes a).2 (order ++ [a]) := by
  have kept : Linked (Function.update nodes.next a 0) (Function.update nodes.prev a list.tail) 0 0 order := by
    refine holds.linked.congr fun b member => ?_
    have other := ne_of_mem_of_not_mem member fresh
    exact ⟨Function.update_of_ne other .., Function.update_of_ne other ..⟩
  have nodup : (order ++ [a]).Nodup :=
    holds.nodup.append (List.nodup_singleton a) (List.disjoint_singleton.mpr fresh)
  have zero : 0 ∉ order ++ [a] := by
    simp [holds.nonnull, nonnull.symm]
  unfold addTail
  rcases List.eq_nil_or_concat order with rfl | ⟨init, last, rfl⟩
  · rw [if_neg (by simp [holds.tail])]
    refine ⟨rfl, rfl, ⟨?_, ?_, trivial⟩, nodup, zero⟩
    · simp [holds.tail]
    · simp
  · rw [List.concat_eq_append] at *
    have tail : list.tail = last := by
      rw [holds.tail, List.getLastD_concat]
    have other : last ≠ a := by
      rintro rfl
      exact fresh (by simp)
    have lastNonnull : last ≠ 0 := by
      rintro rfl
      exact holds.nonnull (by simp)
    have outside : last ∉ init := by
      intro member
      exact (List.nodup_append.mp holds.nodup).2.2 last member last (List.mem_singleton_self last) rfl
    rw [if_pos (by rwa [tail])]
    refine ⟨?_, by simp, ?_, nodup, zero⟩
    · rw [holds.head]
      cases init <;> rfl
    · rw [Linked.append_iff, List.getLastD_concat]
      refine ⟨?_, ?_, ?_, trivial⟩
      · rw [tail] at kept ⊢
        exact kept.set_next outside a
      · simp [tail]
      · simp [tail, other.symm]

theorem Holds.place (holds : list.Holds nodes (front ++ a :: back)) :
    nodes.prev a = front.getLastD 0 ∧ nodes.next a = back.headD 0 ∧ nodes.prev a ≠ a ∧
      (nodes.prev a = 0 ↔ front = []) ∧ (nodes.next a = 0 ↔ back = []) := by
  obtain ⟨_, hprev, hnext, _⟩ := Linked.append_iff.mp holds.linked
  have apart := (List.nodup_append.mp holds.nodup).2.2
  have zero := holds.nonnull
  simp only [List.mem_append, List.mem_cons, not_or] at zero
  refine ⟨hprev, hnext, ?_, ?_, ?_⟩
  · rw [hprev]
    rcases List.eq_nil_or_concat front with rfl | ⟨init, last, rfl⟩
    · exact zero.2.1
    · simpa using apart last (by simp) a List.mem_cons_self
  · rw [hprev]
    rcases List.eq_nil_or_concat front with rfl | ⟨init, last, rfl⟩
    · simp
    · have nonnull : last ≠ 0 := by
        rintro rfl
        simp at zero
      simpa using nonnull
  · rw [hnext]
    cases back with
    | nil => simp
    | cons b back =>
      have nonnull : b ≠ 0 := by
        rintro rfl
        simp at zero
      simpa using nonnull

theorem del_eq (holds : list.Holds nodes (front ++ a :: back)) :
    list.del nodes a = (⟨(front ++ back).headD 0, (front ++ back).getLastD 0⟩,
      ⟨if front = [] then nodes.next else Function.update nodes.next (front.getLastD 0) (back.headD 0),
        if back = [] then nodes.prev else Function.update nodes.prev (back.headD 0) (front.getLastD 0)⟩) := by
  obtain ⟨hprev, hnext, other, first, last⟩ := holds.place
  obtain ⟨head, tail⟩ := list
  obtain rfl : head = _ := holds.head
  obtain rfl : tail = _ := holds.tail
  unfold del
  simp only [hprev, hnext] at other first last ⊢
  -- The branches of the source: first and only, first, last, and in between.
  rcases List.eq_nil_or_concat front with rfl | ⟨init, b, rfl⟩
  · cases back with
    | nil => simp [hnext, hprev]
    | cons c back =>
      have nonnull : c ≠ 0 := by simpa using last
      simp [hnext, hprev, nonnull, List.getLastD_eq_getLast?, List.getLast?_cons]
  · rw [List.concat_eq_append] at *
    have nonnull : b ≠ 0 := by simpa using first
    rw [List.getLastD_concat] at other hprev
    cases back with
    | nil => simp [hnext, hprev, nonnull, other.symm]
    | cons c back =>
      have nonnull' : c ≠ 0 := by simpa using last
      simp [hnext, hprev, nonnull, nonnull', other.symm, List.getLastD_eq_getLast?, List.getLast?_cons]

theorem del_frame (holds : list.Holds nodes (front ++ a :: back)) {b : Addr} (outside : b ∉ front ++ a :: back) :
    (list.del nodes a).2.next b = nodes.next b ∧ (list.del nodes a).2.prev b = nodes.prev b := by
  rw [del_eq holds]
  exact Linked.remove_frame outside

theorem del_holds (holds : list.Holds nodes (front ++ a :: back)) :
    (list.del nodes a).1.Holds (list.del nodes a).2 (front ++ back) := by
  have sub : (front ++ back).Sublist (front ++ a :: back) :=
    List.Sublist.append_left (List.sublist_cons_self a back) front
  rw [del_eq holds]
  exact ⟨rfl, rfl, holds.linked.remove holds.nodup, holds.nodup.sublist sub,
    fun member => holds.nonnull (sub.subset member)⟩

end HevList

/-- Lists of one kind: one for each owner, with nodes in the members. -/
structure ListFamily where
  nodes : ListNodes
  list : Addr → HevList

namespace ListFamily

def addTail (family : ListFamily) (owner a : Addr) : ListFamily :=
  let (list, nodes) := (family.list owner).addTail family.nodes a
  ⟨nodes, Function.update family.list owner list⟩

def del (family : ListFamily) (owner a : Addr) : ListFamily :=
  let (list, nodes) := (family.list owner).del family.nodes a
  ⟨nodes, Function.update family.list owner list⟩

/-- Every list holds its order, and no node is in two lists. -/
structure Holds (family : ListFamily) (order : Addr → List Addr) : Prop where
  each : ∀ owner, (family.list owner).Holds family.nodes (order owner)
  apart : ∀ owner owner' a, a ∈ order owner → a ∈ order owner' → owner = owner'

variable {family : ListFamily} {order : Addr → List Addr} {owner a : Addr}

theorem addTail_holds (holds : family.Holds order) (nonnull : a ≠ 0) (fresh : ∀ owner, a ∉ order owner) :
    (family.addTail owner a).Holds (Function.update order owner (order owner ++ [a])) := by
  constructor
  · intro other
    by_cases same : other = owner
    · subst same
      simpa [addTail] using HevList.addTail_holds (holds.each other) nonnull (fresh other)
    · simp only [addTail, Function.update_of_ne same]
      -- The new links are in the node and in the last one of its list, so in no other list.
      refine (holds.each other).congr fun b member => ?_
      refine HevList.addTail_frame (holds.each owner) (ne_of_mem_of_not_mem member (fresh other)) fun inside => ?_
      exact same (holds.apart other owner b member inside)
  · intro first second b hfirst hsecond
    by_cases here : b = a
    · subst here
      have only : ∀ other, b ∈ Function.update order owner (order owner ++ [b]) other → other = owner := by
        intro other member
        by_contra different
        rw [Function.update_of_ne different] at member
        exact fresh other member
      rw [only first hfirst, only second hsecond]
    · have old : ∀ other, b ∈ Function.update order owner (order owner ++ [a]) other → b ∈ order other := by
        intro other member
        by_cases same : other = owner
        · subst same
          simpa [here] using member
        · rwa [Function.update_of_ne same] at member
      exact holds.apart first second b (old first hfirst) (old second hsecond)

theorem del_holds (holds : family.Holds order) (member : a ∈ order owner) :
    (family.del owner a).Holds (Function.update order owner ((order owner).erase a)) := by
  obtain ⟨front, back, _, split, erased⟩ := List.exists_erase_eq member
  rw [erased]
  have here := holds.each owner
  rw [split] at here
  have less : ∀ other b, b ∈ Function.update order owner (front ++ back) other → b ∈ order other := by
    intro other b inside
    by_cases same : other = owner
    · subst same
      rw [Function.update_self, ← erased] at inside
      exact List.mem_of_mem_erase inside
    · rwa [Function.update_of_ne same] at inside
  constructor
  · intro other
    by_cases same : other = owner
    · subst same
      simpa [del] using HevList.del_holds here
    · simp only [del, Function.update_of_ne same]
      refine (holds.each other).congr fun b inside => HevList.del_frame here fun inside' => ?_
      exact same (holds.apart other owner b inside (split ▸ inside'))
  · intro first second b hfirst hsecond
    exact holds.apart first second b (less first b hfirst) (less second b hsecond)

end ListFamily

end HevTaskSystem
