import HevTaskSystem.Reactor.Iocp

/-! What the functions of the completion port reactor keep.

The tree holds exactly the nodes in memory, by decreasing handle. The completions at the
port and the armed nodes are one to one: a completion belongs to the node that was armed
for it, and no other node has its packet.
-/

set_option autoImplicit false

namespace HevTaskSystem.IocpReactor

open Foundation Foundation.RedBlack

def completions (self : IocpReactor) : List Completion := self.pending ++ self.queue

def handleAt (self : IocpReactor) (n : Addr) : Nat := (self.nodes n).elim 0 (·.handle)

/-- The tree holds nodes in memory by decreasing handle. -/
structure Sorted (s : IocpReactor) (order : List Addr) : Prop where
  holds : s.tree.Holds order
  sorted : order.Pairwise fun a b => s.handleAt b < s.handleAt a
  stored : ∀ a ∈ order, (s.nodes a).isSome

structure Armed (s : IocpReactor) : Prop where
  live : ∀ c ∈ s.completions, ∃ node, s.nodes c.node = some node ∧ node.packet = c.packet ∧ node.armed = true
  once : (s.completions.map Completion.node).Nodup
  present : ∀ n node, s.nodes n = some node → node.armed = true → ∃ c ∈ s.completions, c.node = n
  apart : ∀ m n first second, s.nodes m = some first → s.nodes n = some second → first.packet = second.packet → m = n

structure Inv (s : IocpReactor) (order : List Addr) : Prop where
  sorted : s.Sorted order
  reached : ∀ a, (s.nodes a).isSome → a ∈ order
  armed : s.Armed

variable {s next : IocpReactor} {order : List Addr} {n : Addr} {node : IocpNode} {fuel : Nat} {handle : Nat}

theorem handleAt_eq (there : s.nodes n = some node) : s.handleAt n = node.handle := by
  rw [handleAt, there]
  rfl

/-! ## The descents -/

def turn (self : IocpReactor) (handle : Nat) (n : Addr) : Option Side :=
  if self.handleAt n < handle then some .left else if self.handleAt n > handle then some .right else none

theorem turn_none : s.turn handle n = none ↔ s.handleAt n = handle := by
  unfold turn
  split_ifs <;> simp <;> omega

theorem turn_left : s.turn handle n = some .left ↔ s.handleAt n < handle := by
  unfold turn
  split_ifs <;> simp <;> omega

theorem turn_right : s.turn handle n = some .right ↔ handle < s.handleAt n := by
  unfold turn
  split_ifs <;> simp <;> omega

theorem Sorted.reads (sorted : s.Sorted order) (handle : Nat) : ∀ a ∈ order, s.toward handle a = some (s.turn handle a) := by
  intro a member
  obtain ⟨node, there⟩ := Option.isSome_iff_exists.mp (sorted.stored a member)
  simp only [toward, turn, handleAt_eq there, there, Option.bind_eq_bind, Option.bind_some]
  split_ifs <;> rfl

theorem Sorted.guides (sorted : s.Sorted order) (handle : Nat) : RBTree.Guides (s.turn handle) order := by
  refine sorted.sorted.imp fun {a b} less => ?_
  rw [turn_left, turn_left, turn_right, turn_right]
  exact ⟨fun left => Nat.lt_trans less left, fun right => Nat.lt_trans right less⟩

theorem Sorted.lookup_spec (sorted : s.Sorted order) (handle : Nat) (bound : order.length < fuel) :
    ∃ n, s.lookup fuel handle = some n ∧
      (n ≠ 0 ∧ n ∈ order ∧ (∃ node, s.nodes n = some node ∧ node.handle = handle) ∨
        n = 0 ∧ ∀ a ∈ order, s.handleAt a ≠ handle) := by
  obtain ⟨n, run, ⟨member, found⟩ | ⟨null, absent⟩⟩ :=
    RBTree.search_spec sorted.holds (sorted.guides handle) (sorted.reads handle)
      (Foundation.RedBlack.Tree.maxHeight_lt bound)
  · obtain ⟨node, there⟩ := Option.isSome_iff_exists.mp (sorted.stored n member)
    refine ⟨n, run, .inl ⟨sorted.holds.ne_zero member, member, node, there, ?_⟩⟩
    rw [← handleAt_eq there, turn_none.mp found]
  · exact ⟨n, run, .inr ⟨null, fun a member same => absent a member (turn_none.mpr same)⟩⟩

theorem Sorted.insert_spec (sorted : s.Sorted order) (there : s.nodes n = some node)
    (absent : ∀ a ∈ order, s.handleAt a ≠ node.handle) (nonnull : n ≠ 0) (aligned : 4 ∣ n) (fresh : n ∉ order)
    (bound : order.length < fuel) :
    ∃ tree after, s.insert fuel n = some ({ s with tree := tree }, 0) ∧
      ({ s with tree := tree } : IocpReactor).Sorted after ∧ ∀ a, a ∈ after ↔ a = n ∨ a ∈ order := by
  obtain ⟨tree, front, back, run, holds, split, left, right⟩ := RBTree.insertDistinct_spec sorted.holds
    (sorted.guides node.handle) (sorted.reads node.handle)
    (fun a member found => absent a member (turn_none.mp found)) nonnull aligned fresh
    (Foundation.RedBlack.Tree.maxHeight_lt bound)
  have here := handleAt_eq there
  subst split
  have members : ∀ a, a ∈ front ++ n :: back ↔ a = n ∨ a ∈ front ++ back := by
    intro a
    simp only [List.mem_append, List.mem_cons]
    tauto
  refine ⟨tree, front ++ n :: back, ?_, ⟨holds, ?_, fun a member => ?_⟩, members⟩
  · simp [insert, there, run]
  · obtain ⟨fronts, backs, across⟩ := List.pairwise_append.mp sorted.sorted
    refine List.pairwise_append.mpr ⟨fronts, List.pairwise_cons.mpr ⟨fun b member => ?_, backs⟩, fun a member b other => ?_⟩
    · exact here ▸ turn_left.mp (right b member)
    · rcases List.mem_cons.mp other with rfl | behind
      · exact here ▸ turn_right.mp (left a member)
      · exact across a member b behind
  · rcases (members a).mp member with rfl | old
    · simp [there]
    · exact sorted.stored a old

theorem Sorted.congr (sorted : s.Sorted order) (tree : next.tree = s.tree)
    (same : ∀ a ∈ order, next.handleAt a = s.handleAt a ∧ (next.nodes a).isSome) : next.Sorted order where
  holds := tree ▸ sorted.holds
  sorted := sorted.sorted.imp_of_mem fun {a b} left right less => by
    rwa [(same a left).1, (same b right).1]
  stored a member := (same a member).2

/-! ## Completions -/

theorem Armed.change (armed : s.Armed) {new : Option IocpNode} (nodes : next.nodes = Function.update s.nodes n new)
    (others : ∀ c : Completion, c.node ≠ n → (c ∈ next.completions ↔ c ∈ s.completions))
    (live : ∀ c ∈ next.completions, c.node = n → ∃ node, new = some node ∧ node.packet = c.packet ∧ node.armed = true)
    (present : ∀ node, new = some node → node.armed = true → ∃ c ∈ next.completions, c.node = n)
    (once : (next.completions.map Completion.node).Nodup)
    (apart : ∀ node m other, new = some node → m ≠ n → s.nodes m = some other → other.packet ≠ node.packet) :
    next.Armed where
  live c member := by
    by_cases here : c.node = n
    · simpa [nodes, here] using live c member here
    · simpa [nodes, here] using armed.live c ((others c here).mp member)
  once := once
  present m node there set := by
    by_cases here : m = n
    · subst here
      exact present node (by simpa [nodes] using there) set
    · obtain ⟨c, member, rfl⟩ := armed.present m node (by simpa [nodes, here] using there) set
      exact ⟨c, (others c here).mpr member, rfl⟩
  apart l m first second left right same := by
    by_cases here : l = n <;> by_cases there : m = n
    · exact here.trans there.symm
    · simp only [nodes, here, Function.update_self, Function.update_of_ne there] at left right
      exact absurd same.symm (apart first m second left there right)
    · simp only [nodes, there, Function.update_self, Function.update_of_ne here] at left right
      exact absurd same (apart second l first right here left)
    · simp only [nodes, Function.update_of_ne here, Function.update_of_ne there] at left right
      exact armed.apart l m first second left right same

theorem Armed.other_packet (armed : s.Armed) (there : s.nodes n = some node) {m : Addr} {other : IocpNode}
    (apart : m ≠ n) (stored : s.nodes m = some other) : other.packet ≠ node.packet :=
  fun same => apart (armed.apart m n other node stored there same)

theorem Armed.idle_absent (armed : s.Armed) (there : s.nodes n = some node) (idle : node.armed = false)
    {c : Completion} (member : c ∈ s.completions) : c.node ≠ n := by
  rintro rfl
  obtain ⟨other, stored, -, set⟩ := armed.live c member
  rw [there, Option.some.injEq] at stored
  subst stored
  exact absurd (idle.symm.trans set) (by decide)

theorem Armed.retarget (armed : s.Armed) (there : s.nodes n = some node) (data : Addr) :
    (s.setNode n { node with data := data }).Armed := by
  refine armed.change rfl (fun c _ => Iff.rfl) (fun c member here => ?_) ?_ armed.once ?_
  · obtain ⟨other, stored, packet, set⟩ := armed.live c member
    rw [here, there, Option.some.injEq] at stored
    subst stored
    exact ⟨_, rfl, packet, set⟩
  · rintro _ ⟨⟩ set
    exact armed.present n node there set
  · rintro _ m other ⟨⟩ apart stored
    exact armed.other_packet there apart stored

theorem Armed.new (armed : s.Armed) (free : s.nodes n = none) (idle : node.armed = false)
    (fresh : ∀ m other, s.nodes m = some other → other.packet ≠ node.packet) : (s.setNode n node).Armed := by
  refine armed.change rfl (fun c _ => Iff.rfl) (fun c member here => ?_) ?_ armed.once ?_
  · obtain ⟨other, stored, -⟩ := armed.live c member
    rw [here, free] at stored
    exact nomatch stored
  · rintro _ ⟨⟩ set
    exact absurd (idle.symm.trans set) (by decide)
  · rintro _ m other ⟨⟩ - stored
    exact fresh m other stored

theorem Armed.arm (armed : s.Armed) (there : s.nodes n = some node) (idle : node.armed = false)
    (nodes : next.nodes = Function.update s.nodes n (some { node with armed := true }))
    (perm : next.completions.Perm (⟨node.packet, n⟩ :: s.completions)) : next.Armed := by
  refine armed.change nodes (fun c other => ?_) (fun c member here => ⟨_, rfl, ?_, rfl⟩) ?_ ?_ ?_
  · rw [perm.mem_iff, List.mem_cons, or_iff_right]
    rintro rfl
    exact other rfl
  · rcases List.mem_cons.mp (perm.mem_iff.mp member) with rfl | old
    · rfl
    · exact absurd here (armed.idle_absent there idle old)
  · exact fun _ _ _ => ⟨_, perm.mem_iff.mpr List.mem_cons_self, rfl⟩
  · refine (perm.map _).nodup_iff.mpr (List.nodup_cons.mpr ⟨fun member => ?_, armed.once⟩)
    obtain ⟨c, old, same⟩ := List.mem_map.mp member
    exact armed.idle_absent there idle old same
  · rintro _ m other ⟨⟩ apart stored
    exact armed.other_packet there apart stored

theorem Armed.receive (armed : s.Armed) {c : Completion} (there : s.nodes c.node = some node)
    (nodes : next.nodes = Function.update s.nodes c.node (some { node with armed := false }))
    (perm : s.completions.Perm (c :: next.completions)) : next.Armed := by
  have once := (perm.map Completion.node).nodup_iff.mp armed.once
  obtain ⟨apart, rest⟩ := List.nodup_cons.mp once
  refine armed.change nodes (fun d other => ?_) (fun d member here => ?_) ?_ rest ?_
  · rw [perm.mem_iff, List.mem_cons, or_iff_right]
    rintro rfl
    exact other rfl
  · exact absurd (List.mem_map.mpr ⟨d, member, here⟩) apart
  · rintro _ ⟨⟩ set
    exact Bool.noConfusion set
  · rintro _ m other ⟨⟩ apart stored
    exact armed.other_packet there apart stored

theorem Armed.cancel_completions (armed : s.Armed) (there : s.nodes n = some node) :
    (s.cancel node.packet).completions = s.completions.filter fun c => c.node ≠ n := by
  rw [completions, cancel, ← List.filter_append]
  refine List.filter_congr fun c member => ?_
  obtain ⟨other, stored, packet, -⟩ := armed.live c member
  have same : c.packet = node.packet ↔ c.node = n := by
    refine ⟨fun same => armed.apart c.node n other node stored there (packet.trans same), ?_⟩
    rintro rfl
    rw [there, Option.some.injEq] at stored
    exact stored ▸ packet.symm
  simp [same]

theorem Armed.remove (armed : s.Armed) (nodes : next.nodes = Function.update s.nodes n none)
    (rest : next.completions = s.completions.filter fun c => c.node ≠ n) : next.Armed := by
  refine armed.change nodes (fun c other => ?_) (fun c member here => ?_) nofun ?_ nofun
  · simp [rest, other]
  · rw [rest, List.mem_filter] at member
    simp [here] at member
  · rw [rest]
    exact armed.once.sublist (List.filter_sublist.map _)

/-! ## The functions -/

theorem Inv.blank (root : s.tree.root = 0) (nodes : ∀ n, s.nodes n = none) (pending : s.pending = [])
    (queue : s.queue = []) : s.Inv [] := by
  have holds : s.tree.Holds [] := ⟨.leaf, ⟨root, trivial, List.nodup_nil⟩, .of_balanced rfl rfl, rfl⟩
  have empty : s.completions = [] := by simp [completions, pending, queue]
  refine ⟨⟨holds, .nil, nofun⟩, fun n some => ?_, ?_⟩
  · simp [nodes n] at some
  · refine ⟨by simp [empty], by simp [empty], ?_, ?_⟩
    · simp [nodes]
    · simp [nodes]

theorem Inv.update (inv : s.Inv order) (there : s.nodes n = some node) (new : IocpNode)
    (handle : new.handle = node.handle) (tree : next.tree = s.tree)
    (nodes : next.nodes = Function.update s.nodes n (some new)) (armed : next.Armed) : next.Inv order := by
  have stored : ∀ a, (next.nodes a).isSome = (s.nodes a).isSome := by
    intro a
    by_cases here : a = n
    · simp [nodes, here, there]
    · simp [nodes, here]
  refine ⟨inv.sorted.congr tree fun a member => ⟨?_, ?_⟩, fun a some => inv.reached a (stored a ▸ some), armed⟩
  · by_cases here : a = n
    · simp [handleAt, nodes, here, there, handle]
    · simp [handleAt, nodes, here]
  · rw [stored a]
    exact inv.sorted.stored a member

theorem Inv.unique (inv : s.Inv order) {m : Addr} {first second : IocpNode} (left : s.nodes m = some first)
    (right : s.nodes n = some second) (same : first.handle = second.handle) : m = n := by
  have distinct : (order.map s.handleAt).Nodup :=
    List.pairwise_map.mpr (inv.sorted.sorted.imp fun less => Nat.ne_of_gt less)
  refine List.inj_on_of_nodup_map distinct (inv.reached m (by simp [left])) (inv.reached n (by simp [right])) ?_
  rw [handleAt_eq left, handleAt_eq right, same]

/-- What arming a node does: nothing if it is armed, nothing if the system refuses, or it
has a completion. -/
inductive Arms (s : IocpReactor) (n : Addr) (node : IocpNode) : IocpReactor → Int → Prop where
  | already : node.armed = true → Arms s n node s 0
  | refused : node.armed = false → Arms s n node s (-1)
  | armed {next : IocpReactor} : node.armed = false → next.tree = s.tree →
      next.nodes = Function.update s.nodes n (some { node with armed := true }) →
      next.completions.Perm (⟨node.packet, n⟩ :: s.completions) → Arms s n node next 0

theorem associate_spec (s : IocpReactor) (c : Completion) (answer : Associate) :
    s.associate c answer = none ∨ ∃ mid, s.associate c answer = some mid ∧ mid.tree = s.tree ∧
      mid.nodes = s.nodes ∧ mid.completions.Perm (c :: s.completions) := by
  cases answer with
  | refused => exact .inl rfl
  | waiting => exact .inr ⟨_, rfl, rfl, rfl, by simp [completions]⟩
  | signaled =>
    refine .inr ⟨_, rfl, rfl, rfl, ?_⟩
    simp only [completions, ← List.append_assoc]
    exact List.perm_append_singleton _ _

theorem nodeArm_spec (there : s.nodes n = some node) (answer : Associate) :
    ∃ next res, s.nodeArm n answer = some (next, res) ∧ Arms s n node next res := by
  cases set : node.armed with
  | true => exact ⟨s, 0, by simp [nodeArm, there, set], .already set⟩
  | false =>
    obtain refused | ⟨mid, associated, tree, nodes, perm⟩ := associate_spec s ⟨node.packet, n⟩ answer
    · exact ⟨s, -1, by simp [nodeArm, there, set, refused], .refused set⟩
    · refine ⟨mid.setNode n { node with armed := true }, 0, ?_, .armed set tree ?_ perm⟩
      · simp [nodeArm, there, set, associated]
      · rw [setNode, nodes]

theorem Arms.inv {res : Int} (arms : Arms s n node next res) (there : s.nodes n = some node) (inv : s.Inv order) :
    next.Inv order := by
  cases arms with
  | already => exact inv
  | refused => exact inv
  | armed idle tree nodes perm =>
    have armed := inv.armed.arm there idle nodes perm
    exact inv.update there { node with armed := true } rfl tree nodes armed

theorem Arms.nodes {res : Int} (arms : Arms s n node next res) (there : s.nodes n = some node) :
    next.nodes = Function.update s.nodes n (some { node with armed := decide (res = 0) }) := by
  cases arms with
  | already set =>
    refine (Function.update_eq_self_iff.mpr ?_).symm
    cases node
    cases set
    exact there.symm
  | refused idle =>
    refine (Function.update_eq_self_iff.mpr ?_).symm
    cases node
    cases idle
    exact there.symm
  | armed _ _ nodes _ => exact nodes

theorem nodeFree_spec (armed : s.Armed) (there : s.nodes n = some node) :
    ∃ next, s.nodeFree n = some next ∧ next.tree = s.tree ∧ next.nodes = Function.update s.nodes n none ∧
      next.completions = s.completions.filter fun c => c.node ≠ n := by
  cases set : node.armed with
  | true =>
    refine ⟨(s.cancel node.packet).free n, by simp [nodeFree, there, set], rfl, rfl, ?_⟩
    exact armed.cancel_completions there
  | false =>
    refine ⟨s.free n, by simp [nodeFree, there, set], rfl, rfl, ?_⟩
    refine (List.filter_eq_self.mpr fun c member => ?_).symm
    simpa using armed.idle_absent there set member

theorem Inv.nodeDetach_spec (inv : s.Inv order) (member : n ∈ order) (bound : order.length ≤ fuel) :
    ∃ next, s.nodeDetach fuel n = some next ∧ next.Inv (order.erase n) ∧
      next.nodes = Function.update s.nodes n none := by
  obtain ⟨tree, erased, holds⟩ := RBTree.erase_spec inv.sorted.holds member
    (Foundation.RedBlack.Tree.maxHeight_le bound)
  obtain ⟨node, there⟩ := Option.isSome_iff_exists.mp (inv.sorted.stored n member)
  have nodup := inv.sorted.holds.nodup
  have armed : ({ s with tree := tree } : IocpReactor).Armed :=
    ⟨inv.armed.live, inv.armed.once, inv.armed.present, inv.armed.apart⟩
  obtain ⟨next, run, same, nodes, rest⟩ := nodeFree_spec armed there
  have kept : ∀ a ∈ order.erase n, a ∈ order ∧ next.nodes a = s.nodes a := by
    intro a inside
    obtain ⟨other, old⟩ := (List.Nodup.mem_erase_iff nodup).mp inside
    exact ⟨old, by simp [nodes, other]⟩
  refine ⟨next, by simp [nodeDetach, erased, run], ⟨⟨same ▸ holds, ?_, fun a inside => ?_⟩, fun a some => ?_, ?_⟩, nodes⟩
  · refine (inv.sorted.sorted.sublist List.erase_sublist).imp_of_mem fun {a b} left right less => ?_
    simpa [handleAt, (kept a left).2, (kept b right).2] using less
  · rw [(kept a inside).2]
    exact inv.sorted.stored a (kept a inside).1
  · have other : a ≠ n := by
      rintro rfl
      simp [nodes] at some
    exact (List.Nodup.mem_erase_iff nodup).mpr ⟨other, inv.reached a (by simpa [nodes, other] using some)⟩
  · exact armed.remove nodes rest

theorem setNode_setNode (s : IocpReactor) (n : Addr) (first second : IocpNode) :
    (s.setNode n first).setNode n second = s.setNode n second := by
  simp [setNode]

theorem free_setNode (absent : s.nodes n = none) (node : IocpNode) : (s.setNode n node).free n = s := by
  simp [setNode, free, ← absent]

theorem Inv.armInsert_spec (inv : s.Inv order) (absent : s.nodes n = none) (idle : node.armed = false)
    (unknown : ∀ a ∈ order, s.handleAt a ≠ node.handle) (nonnull : n ≠ 0) (aligned : 4 ∣ n)
    (fresh : ∀ m other, s.nodes m = some other → other.packet ≠ node.packet) (bound : order.length < fuel)
    (answer : Associate) :
    ∃ mid res, (s.setNode n node).nodeArm n answer = some (mid, res) ∧
      (res = -1 ∧ mid.nodeFree n = some s ∨ res = 0 ∧ ∃ next after, mid.insert fuel n = some (next, 0) ∧
        next.Inv after ∧ next.nodes = Function.update s.nodes n (some { node with armed := true })) := by
  have there : (s.setNode n node).nodes n = some node := Function.update_self ..
  obtain ⟨mid, res, run, arms⟩ := nodeArm_spec there answer
  refine ⟨mid, res, run, ?_⟩
  cases arms with
  | already set => exact absurd (idle.symm.trans set) (by decide)
  | refused => exact .inl ⟨rfl, by simp [nodeFree, there, idle, free_setNode absent]⟩
  | armed _ tree nodes perm =>
    have armed := (inv.armed.new absent idle fresh).arm there idle nodes perm
    have stored : mid.nodes = Function.update s.nodes n (some { node with armed := true }) := by
      rw [nodes, setNode, Function.update_idem]
    have outside : n ∉ order := fun member => by simpa [absent] using inv.sorted.stored n member
    have kept : ∀ a ∈ order, mid.nodes a = s.nodes a := by
      intro a member
      have other : a ≠ n := fun same => outside (same ▸ member)
      simp [stored, other]
    have sorted : mid.Sorted order := inv.sorted.congr tree fun a member => by
      simpa [handleAt, kept a member] using inv.sorted.stored a member
    have here : mid.nodes n = some { node with armed := true } := by simp [stored]
    obtain ⟨tree, after, inserted, holds, members⟩ := sorted.insert_spec here
      (fun a member => by simpa [handleAt, kept a member] using unknown a member) nonnull aligned outside bound
    refine .inr ⟨rfl, _, after, inserted, ⟨holds, fun a some => (members a).mpr ?_, ?_⟩, stored⟩
    · by_cases same : a = n
      · exact .inl same
      · exact .inr (inv.reached a (by simpa [stored, same] using some))
    · exact ⟨armed.live, armed.once, armed.present, armed.apart⟩

theorem Inv.addNode_spec (inv : s.Inv order) (absent : s.nodes n = none) (idle : node.armed = false)
    (unknown : ∀ a ∈ order, s.handleAt a ≠ node.handle) (nonnull : n ≠ 0) (aligned : 4 ∣ n) {answers : AddAnswers}
    (fresh : ∀ m other, s.nodes m = some other → other.packet ≠ answers.packet) (bound : order.length < fuel) :
    s.addNode fuel n node answers = some (s, -1) ∨ ∃ next after, s.addNode fuel n node answers = some (next, 0) ∧
      next.Inv after ∧
      next.nodes = Function.update s.nodes n (some { node with packet := answers.packet, armed := true }) := by
  unfold addNode
  by_cases none : answers.packet = 0
  · exact .inl (by simp [none, free_setNode absent])
  · have packed : ({ node with packet := answers.packet } : IocpNode).armed = false := idle
    obtain ⟨mid, res, run, ⟨rfl, freed⟩ | ⟨rfl, next, after, inserted, rest⟩⟩ :=
      inv.armInsert_spec absent packed unknown nonnull aligned fresh bound answers.associate
    · exact .inl (by simp [none, setNode_setNode, run, freed])
    · exact .inr ⟨next, after, by simp [none, setNode_setNode, run, inserted], rest⟩

end HevTaskSystem.IocpReactor
