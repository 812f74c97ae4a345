import HevTaskSystem.Foundation.Transition
import HevTaskSystem.Reactor.IocpInvariant

/-! Runs of the completion port reactor.

The steps are the calls of the reactor, the passes of its wait loop and the signals of the
system. Every step returns, keeps the invariant, and changes the nodes in one of few ways.
-/

set_option autoImplicit false

namespace HevTaskSystem

open Foundation IocpReactor

inductive IocpOp where
  | add (event : IocpEvent) (answers : AddAnswers)
  | mod (event : IocpEvent) (socket select : Bool)
  | del (event : IocpEvent)
  | wait (answers : WaitAnswers)
  | signal (c : Completion)
  | destroy

inductive IocpReply where
  | code (res : Int)
  | waited (result : WaitResult)
  | done
  deriving DecidableEq

namespace IocpOp

def apply (fuel : Nat) (s : IocpReactor) : IocpOp → Option (IocpReactor × IocpReply)
  | .add event answers => do
    let (next, res) ← s.add fuel event answers
    return (next, .code res)
  | .mod event socket select => do
    let (next, res) ← s.mod fuel event socket select
    return (next, .code res)
  | .del event => do
    let (next, res) ← s.del fuel event
    return (next, .code res)
  | .wait answers => do
    let (next, result) ← s.wait answers
    return (next, .waited result)
  | .signal c => return (s.signal c, .done)
  | .destroy => do
    return (← s.destroy fuel, .done)

/-- What the system guarantees: memory and packets that it hands out are not in use, and
only a pending packet is signaled. -/
def Ready (s : IocpReactor) : IocpOp → Prop
  | .add _ answers => (answers.calloc ≠ 0 → 4 ∣ answers.calloc ∧ s.nodes answers.calloc = none) ∧
      ∀ n node, s.nodes n = some node → node.packet ≠ answers.packet
  | .signal c => c ∈ s.pending
  | _ => True

theorem wait_ready (s : IocpReactor) (answers : WaitAnswers) : (IocpOp.wait answers).Ready s := trivial

end IocpOp

namespace IocpReactor

inductive Adds (s next : IocpReactor) (event : IocpEvent) : Int → Prop where
  | refused : next.nodes = s.nodes → Adds s next event (-1)
  /-- A waitable handle is added again. -/
  | again {n : Addr} {node : IocpNode} {res : Int} : s.nodes n = some node → node.handle = event.handle →
      node.isHandle = true → event.events = 0 →
      next.nodes = Function.update s.nodes n (some { node with data := event.data, armed := decide (res = 0) }) →
      Adds s next event res
  | new {n : Addr} {ehandle packet : Nat} : s.nodes n = none →
      (∀ m node, s.nodes m = some node → node.handle ≠ event.handle) →
      (event.events = 0 → ehandle = event.handle) →
      next.nodes = Function.update s.nodes n (some ⟨event.handle, event.data, ehandle, packet, true⟩) →
      Adds s next event 0

inductive Deletes (s next : IocpReactor) (event : IocpEvent) : Int → Prop where
  | absent : (∀ m node, s.nodes m = some node → node.handle ≠ event.handle) → next.nodes = s.nodes →
      Deletes s next event (-1)
  | deleted {n : Addr} {node : IocpNode} : s.nodes n = some node → node.handle = event.handle →
      next.nodes = Function.update s.nodes n none → Deletes s next event 0

inductive Waits (s next : IocpReactor) : WaitResult → Prop where
  | timeout : s.queue = [] → next.nodes = s.nodes → Waits s next .timeout
  | handle {c : Completion} {node : IocpNode} : c ∈ s.queue → s.nodes c.node = some node → node.isHandle = true →
      next.nodes = Function.update s.nodes c.node (some { node with armed := false }) →
      Waits s next (.event c.node node.data 0)
  | socket {c : Completion} {node : IocpNode} {armed : Bool} {result : WaitResult} : c ∈ s.queue →
      s.nodes c.node = some node → node.isHandle = false →
      next.nodes = Function.update s.nodes c.node (some { node with armed := armed }) →
      (result = .again ∨ ∃ events, result = .event c.node node.data events) → Waits s next result

variable {s next : IocpReactor} {order : List Addr} {fuel : Nat}

theorem addNode_setNode (s : IocpReactor) (n : Addr) (first node : IocpNode) (answers : AddAnswers) :
    (s.setNode n first).addNode fuel n node answers = s.addNode fuel n node answers := by
  simp only [addNode, setNode_setNode]

theorem Inv.lookup_spec (inv : s.Inv order) (handle : Nat) (bound : order.length < fuel) :
    ∃ n, s.lookup fuel handle = some n ∧
      (n ≠ 0 ∧ n ∈ order ∧ (∃ node, s.nodes n = some node ∧ node.handle = handle) ∨
        n = 0 ∧ (∀ a ∈ order, s.handleAt a ≠ handle) ∧ ∀ m node, s.nodes m = some node → node.handle ≠ handle) := by
  obtain ⟨n, run, found | ⟨null, absent⟩⟩ := inv.sorted.lookup_spec handle bound
  · exact ⟨n, run, .inl found⟩
  · refine ⟨n, run, .inr ⟨null, absent, fun m node there => ?_⟩⟩
    rw [← handleAt_eq there]
    exact absent m (inv.reached m (by simp [there]))

theorem Inv.add_spec (inv : s.Inv order) {event : IocpEvent} {answers : AddAnswers}
    (ready : (IocpOp.add event answers).Ready s) (bound : order.length < fuel) :
    ∃ next res after, s.add fuel event answers = some (next, res) ∧ next.Inv after ∧ Adds s next event res := by
  obtain ⟨allocated, fresh⟩ := ready
  obtain ⟨found, run, ⟨nonnull, -, node, there, handle⟩ | ⟨rfl, unknown, absent⟩⟩ := inv.lookup_spec event.handle bound
  · simp only [add, run, there, Option.bind_eq_bind, Option.bind_some, ne_eq, nonnull, not_false_eq_true, if_true]
    by_cases refused : ¬ node.isHandle = true ∨ ¬ event.events = 0
    · rw [if_pos refused]
      exact ⟨s, -1, order, rfl, inv, .refused rfl⟩
    · rw [if_neg refused]
      simp only [not_or, not_not] at refused
      have here : (s.setNode found { node with data := event.data }).nodes found =
          some { node with data := event.data } := Function.update_self ..
      obtain ⟨next, res, armed, arms⟩ := nodeArm_spec here answers.associate
      have mid : (s.setNode found { node with data := event.data }).Inv order :=
        inv.update there { node with data := event.data } rfl rfl rfl (inv.armed.retarget there event.data)
      refine ⟨next, res, order, armed, arms.inv here mid, .again there handle refused.1 refused.2 ?_⟩
      rw [arms.nodes here, setNode, Function.update_idem]
  · simp only [add, run, Option.bind_eq_bind, Option.bind_some, ne_eq, not_true_eq_false, if_false]
    by_cases null : answers.calloc = 0
    · rw [if_pos null]
      exact ⟨s, -1, order, rfl, inv, .refused rfl⟩
    · obtain ⟨aligned, free⟩ := allocated null
      have start (ehandle : Nat) (own : event.events = 0 → ehandle = event.handle) :
          ∃ next res after, s.addNode fuel answers.calloc ⟨event.handle, event.data, ehandle, 0, false⟩ answers =
            some (next, res) ∧ next.Inv after ∧ Adds s next event res := by
        have idle : (⟨event.handle, event.data, ehandle, 0, false⟩ : IocpNode).armed = false := rfl
        obtain failed | ⟨next, after, added, inv, nodes⟩ :=
          inv.addNode_spec free idle unknown null aligned fresh bound
        · exact ⟨s, -1, order, failed, inv, .refused rfl⟩
        · exact ⟨next, 0, after, added, inv, .new free absent own nodes⟩
      rw [if_neg null]
      by_cases waitable : event.events = 0
      · rw [if_neg (not_not.mpr waitable), addNode_setNode]
        exact start event.handle fun _ => rfl
      · rw [if_pos waitable]
        by_cases failed : ¬ answers.socket = true ∨ answers.event = 0
        · rw [if_pos failed, free_setNode free]
          exact ⟨s, -1, order, rfl, inv, .refused rfl⟩
        · rw [if_neg failed, setNode_setNode]
          by_cases select : answers.select = true
          · rw [if_neg (not_not.mpr select), addNode_setNode]
            exact start answers.event fun none => absurd none waitable
          · rw [if_pos select, free_setNode free]
            exact ⟨s, -1, order, rfl, inv, .refused rfl⟩

theorem Inv.mod_spec (inv : s.Inv order) (event : IocpEvent) (socket select : Bool) (bound : order.length < fuel) :
    ∃ res, s.mod fuel event socket select = some (s, res) ∧
      (res = 0 → ∃ n node, s.nodes n = some node ∧ node.handle = event.handle) := by
  obtain ⟨found, run, ⟨nonnull, -, node, there, handle⟩ | ⟨rfl, -, -⟩⟩ := inv.lookup_spec event.handle bound
  · simp only [mod, run, there, Option.bind_eq_bind, Option.bind_some, nonnull, if_false]
    split
    · exact ⟨-1, rfl, nofun⟩
    · exact ⟨0, rfl, fun _ => ⟨found, node, there, handle⟩⟩
  · exact ⟨-1, by simp [mod, run], nofun⟩

theorem Inv.del_spec (inv : s.Inv order) (event : IocpEvent) (bound : order.length < fuel) :
    ∃ next res after, s.del fuel event = some (next, res) ∧ next.Inv after ∧ Deletes s next event res := by
  obtain ⟨found, run, ⟨nonnull, member, node, there, handle⟩ | ⟨rfl, -, absent⟩⟩ := inv.lookup_spec event.handle bound
  · obtain ⟨next, detached, after, nodes⟩ := inv.nodeDetach_spec member (Nat.le_of_lt bound)
    exact ⟨next, 0, _, by simp [del, run, nonnull, detached], after, .deleted there handle nodes⟩
  · exact ⟨s, -1, order, by simp [del, run], inv, .absent absent rfl⟩

theorem Inv.destroy_spec (inv : s.Inv order) (bound : order.length < fuel) :
    ∃ next, s.destroy fuel = some next ∧ next.Inv [] := by
  have pass : ∀ rank (s : IocpReactor), (∃ order, s.Inv order ∧ order.length = rank ∧ rank ≤ fuel) →
      ∃ flow, destroyPass fuel s = some flow ∧
        Pass (fun rank s => ∃ order, IocpReactor.Inv s order ∧ order.length = rank ∧ rank ≤ fuel)
          (fun next => IocpReactor.Inv next []) rank flow := by
    rintro rank s ⟨order, inv, rfl, bound⟩
    obtain ⟨null, rfl⟩ | member := inv.sorted.holds.root
    · exact ⟨.done s, by simp [destroyPass, null], inv⟩
    · have nonnull := inv.sorted.holds.ne_zero member
      have shorter := List.length_erase_of_mem member
      have positive := List.length_pos_of_mem member
      obtain ⟨next, detached, after, -⟩ := inv.nodeDetach_spec member bound
      exact ⟨.next next, by simp [destroyPass, nonnull, detached], _, by omega, _, after, shorter, by omega⟩
  exact loop_total pass ⟨order, inv, rfl, Nat.le_of_lt bound⟩ bound

theorem Inv.wait_spec (inv : s.Inv order) (answers : WaitAnswers) :
    ∃ next result, s.wait answers = some (next, result) ∧ next.Inv order ∧ Waits s next result := by
  cases queue : s.queue with
  | nil => exact ⟨s, .timeout, by simp [wait, queue], inv, .timeout queue rfl⟩
  | cons c rest =>
    have head : c ∈ s.queue := by simp [queue]
    obtain ⟨node, there, -⟩ := inv.armed.live c (List.mem_append_right _ head)
    -- the completion is received: the node is idle
    have received : ({ s with queue := rest }.setNode c.node { node with armed := false } : IocpReactor).Inv order := by
      refine inv.update there { node with armed := false } rfl rfl rfl (inv.armed.receive there rfl ?_)
      rw [completions, queue]
      exact List.perm_middle
    simp only [wait, queue, there, Option.bind_eq_bind, Option.bind_some]
    by_cases waitable : node.isHandle = true
    · rw [if_pos waitable]
      exact ⟨_, _, rfl, received, .handle head there waitable rfl⟩
    · rw [if_neg waitable]
      rw [Bool.not_eq_true] at waitable
      by_cases socket : answers.socket = true
      · have here : ({ s with queue := rest }.setNode c.node { node with armed := false } : IocpReactor).nodes c.node =
            some { node with armed := false } := Function.update_self ..
        obtain ⟨next, res, armed, arms⟩ := nodeArm_spec here answers.associate
        have nodes : next.nodes = Function.update s.nodes c.node (some { node with armed := decide (res = 0) }) := by
          rw [arms.nodes here, setNode, Function.update_idem]
        simp only [if_neg (not_not.mpr socket), armed, Option.bind_some]
        have inv' := arms.inv here received
        split
        · exact ⟨next, _, rfl, inv', .socket head there waitable nodes (.inr ⟨_, rfl⟩)⟩
        · exact ⟨next, _, rfl, inv', .socket head there waitable nodes (.inl rfl)⟩
      · rw [if_pos socket]
        exact ⟨_, _, rfl, received, .socket head there waitable rfl (.inl rfl)⟩

theorem Inv.signal_spec (inv : s.Inv order) {c : Completion} (pending : c ∈ s.pending) : (s.signal c).Inv order := by
  have perm : (s.signal c).completions.Perm s.completions := by
    have moved : (s.pending.erase c ++ (s.queue ++ [c])).Perm (c :: (s.pending.erase c ++ s.queue)) := by
      rw [← List.append_assoc]
      exact List.perm_append_singleton _ _
    exact moved.trans ((List.perm_cons_erase pending).symm.append_right _)
  refine ⟨⟨inv.sorted.holds, inv.sorted.sorted, inv.sorted.stored⟩, inv.reached, ?_⟩
  refine ⟨fun d member => inv.armed.live d (perm.mem_iff.mp member), ?_, fun n node there set => ?_, inv.armed.apart⟩
  · exact (perm.map _).nodup_iff.mpr inv.armed.once
  · obtain ⟨d, member, same⟩ := inv.armed.present n node there set
    exact ⟨d, perm.mem_iff.mpr member, same⟩

inductive Effect (s next : IocpReactor) : IocpOp → IocpReply → Prop where
  | add {event : IocpEvent} {answers : AddAnswers} {res : Int} : Adds s next event res →
      Effect s next (.add event answers) (.code res)
  | mod {event : IocpEvent} {socket select : Bool} {res : Int} : next = s →
      (res = 0 → ∃ n node, s.nodes n = some node ∧ node.handle = event.handle) →
      Effect s next (.mod event socket select) (.code res)
  | del {event : IocpEvent} {res : Int} : Deletes s next event res → Effect s next (.del event) (.code res)
  | wait {answers : WaitAnswers} {result : WaitResult} : Waits s next result →
      Effect s next (.wait answers) (.waited result)
  | signal {c : Completion} : next.nodes = s.nodes → Effect s next (.signal c) .done
  | destroy : (∀ n, next.nodes n = none) → Effect s next .destroy .done

theorem Inv.apply_spec (inv : s.Inv order) {op : IocpOp} (ready : op.Ready s) (bound : order.length < fuel) :
    ∃ next reply after, op.apply fuel s = some (next, reply) ∧ next.Inv after ∧ Effect s next op reply := by
  cases op with
  | add event answers =>
    obtain ⟨next, res, after, run, inv, adds⟩ := inv.add_spec ready bound
    exact ⟨next, .code res, after, by simp [IocpOp.apply, run], inv, .add adds⟩
  | mod event socket select =>
    obtain ⟨res, run, found⟩ := inv.mod_spec event socket select bound
    exact ⟨s, .code res, order, by simp [IocpOp.apply, run], inv, .mod rfl found⟩
  | del event =>
    obtain ⟨next, res, after, run, inv, deletes⟩ := inv.del_spec event bound
    exact ⟨next, .code res, after, by simp [IocpOp.apply, run], inv, .del deletes⟩
  | wait answers =>
    obtain ⟨next, result, run, inv, waits⟩ := inv.wait_spec answers
    exact ⟨next, .waited result, order, by simp [IocpOp.apply, run], inv, .wait waits⟩
  | signal c => exact ⟨s.signal c, .done, order, rfl, inv.signal_spec ready, .signal rfl⟩
  | destroy =>
    obtain ⟨next, run, inv⟩ := inv.destroy_spec bound
    refine ⟨next, .done, [], by simp [IocpOp.apply, run], inv, .destroy fun n => ?_⟩
    cases there : next.nodes n with
    | none => rfl
    | some node => exact absurd (inv.reached n (by simp [there])) List.not_mem_nil

/-! ## Enough fuel -/

theorem insert_stable {n : Addr} : Stable fun fuel => s.insert fuel n :=
  .bind (.const _) fun _ => .bind RBTree.insertDistinct_stable fun _ => .const _

theorem addNode_stable {n : Addr} {node : IocpNode} {answers : AddAnswers} :
    Stable fun fuel => s.addNode fuel n node answers :=
  .ite (.const _) (.bind (.const _) fun _ => .ite (.const _) (.bind insert_stable fun _ => .const _))

theorem nodeDetach_stable {n : Addr} : Stable fun fuel => s.nodeDetach fuel n :=
  .bind RBTree.erase_stable fun _ => .const _

theorem add_stable {event : IocpEvent} {answers : AddAnswers} : Stable fun fuel => s.add fuel event answers :=
  .bind RBTree.search_stable fun _ => .ite (.const _) <| .ite (.const _) <|
    .ite (.ite (.const _) (.ite (.const _) addNode_stable)) addNode_stable

theorem destroyPass_stable : Stable fun fuel => destroyPass fuel s :=
  .ite (.bind nodeDetach_stable fun _ => .const _) (.const _)

theorem destroy_stable : Stable fun fuel => s.destroy fuel := .nested fun _ => destroyPass_stable

theorem apply_stable {op : IocpOp} : Stable fun fuel => op.apply fuel s := by
  cases op with
  | add event answers => exact .bind add_stable fun _ => .const _
  | mod event socket select => exact .bind (.bind RBTree.search_stable fun _ => .const _) fun _ => .const _
  | del event =>
    refine .bind (.bind RBTree.search_stable fun _ => ?_) fun _ => .const _
    exact .ite (.const _) (.bind nodeDetach_stable fun _ => .const _)
  | wait answers => exact .const _
  | signal c => exact .const _
  | destroy => exact .bind destroy_stable fun _ => .const _

theorem Inv.effect (inv : s.Inv order) {op : IocpOp} {reply : IocpReply} (ready : op.Ready s)
    (result : op.apply fuel s = some (next, reply)) : (∃ after, next.Inv after) ∧ Effect s next op reply := by
  obtain ⟨expected, answer, after, returns, kept, effect⟩ := inv.apply_spec ready
    (Nat.lt_of_lt_of_le (Nat.lt_succ_self _) (Nat.le_max_right fuel _))
  cases (apply_stable (Nat.le_max_left fuel _) result).symm.trans returns
  exact ⟨⟨after, kept⟩, effect⟩

end IocpReactor

/-- The reactor with what happened to each handle: it was added and not deleted, it was added
as a waitable handle and not deleted, it was added since it was last reported. The
reactor takes no steps once it is destroyed. -/
structure IocpHistory where
  reactor : IocpReactor
  alive : Bool
  added : Nat → Bool
  waitable : Nat → Bool
  due : Nat → Bool

namespace IocpHistory

def reported (s : IocpReactor) : WaitResult → Option Nat
  | .event n _ _ => (s.nodes n).bind fun node => if node.isHandle then some node.handle else none
  | _ => none

def record (h : IocpHistory) (next : IocpReactor) : IocpOp → IocpReply → IocpHistory
  | .add event _, .code res =>
    { h with
      reactor := next
      added := if res = 0 then Function.update h.added event.handle true else h.added
      waitable := if res = 0 then Function.update h.waitable event.handle (event.events = 0) else h.waitable
      due := if res = 0 then Function.update h.due event.handle true else h.due }
  | .del event, .code res =>
    { h with
      reactor := next
      added := if res = 0 then Function.update h.added event.handle false else h.added
      waitable := if res = 0 then Function.update h.waitable event.handle false else h.waitable
      due := if res = 0 then Function.update h.due event.handle false else h.due }
  | .wait _, .waited result =>
    { h with
      reactor := next
      due := match reported h.reactor result with
        | some handle => Function.update h.due handle false
        | none => h.due }
  | .destroy, _ => ⟨next, false, fun _ => false, fun _ => false, fun _ => false⟩
  | _, _ => { h with reactor := next }

end IocpHistory

def iocpSystem : System IocpHistory IocpOp where
  init h := h.reactor.tree.root = 0 ∧ (∀ n, h.reactor.nodes n = none) ∧ h.reactor.pending = [] ∧
    h.reactor.queue = [] ∧ h.alive = true ∧ (∀ handle, h.added handle = false) ∧
    (∀ handle, h.waitable handle = false) ∧ ∀ handle, h.due handle = false
  step h op next := h.alive = true ∧ op.Ready h.reactor ∧
    ∃ fuel reactor reply, op.apply fuel h.reactor = some (reactor, reply) ∧ next = h.record reactor op reply

namespace IocpHistory

structure Flags (nodes : Addr → Option IocpNode) (added waitable due : Nat → Bool) : Prop where
  added : ∀ handle, added handle = true ↔ ∃ n node, nodes n = some node ∧ node.handle = handle
  waitable : ∀ n node, nodes n = some node → waitable node.handle = true → node.isHandle = true
  due : ∀ n node, nodes n = some node → node.isHandle = true → node.armed = true → due node.handle = true

structure Inv (h : IocpHistory) : Prop where
  reactor : ∃ order, h.reactor.Inv order
  flags : Flags h.reactor.nodes h.added h.waitable h.due

section Flags

variable {nodes : Addr → Option IocpNode} {added waitable due added' waitable' due' : Nat → Bool} {n : Addr}
  {handle : Nat}

theorem Flags.change (flags : Flags nodes added waitable due) {new : Option IocpNode}
    (alone : ∀ m other, m ≠ n → nodes m = some other → other.handle ≠ handle)
    (old : ∀ node, nodes n = some node → node.handle = handle)
    (named : ∀ node, new = some node → node.handle = handle)
    (others : ∀ other, other ≠ handle → added' other = added other ∧ waitable' other = waitable other ∧
      due' other = due other)
    (isAdded : added' handle = new.isSome)
    (isWaitable : ∀ node, new = some node → waitable' handle = true → node.isHandle = true)
    (isDue : ∀ node, new = some node → node.isHandle = true → node.armed = true → due' handle = true) :
    Flags (Function.update nodes n new) added' waitable' due' where
  added other := by
    by_cases here : other = handle
    · subst here
      rw [isAdded, Option.isSome_iff_exists]
      constructor
      · rintro ⟨node, rfl⟩
        exact ⟨n, node, Function.update_self .., named node rfl⟩
      · rintro ⟨m, node, there, same⟩
        by_cases at_ : m = n
        · exact ⟨node, by simpa [at_] using there⟩
        · exact absurd same (alone m node at_ (by simpa [at_] using there))
    · rw [(others other here).1, flags.added other]
      refine exists_congr fun m => exists_congr fun node => and_congr_left fun same => ?_
      by_cases at_ : m = n
      · subst at_
        rw [Function.update_self]
        exact ⟨fun there => absurd (same.symm.trans (old node there)) here,
          fun there => absurd (same.symm.trans (named node there)) here⟩
      · rw [Function.update_of_ne at_]
  waitable m node there set := by
    by_cases at_ : m = n
    · subst at_
      rw [Function.update_self] at there
      exact isWaitable node there (named node there ▸ set)
    · rw [Function.update_of_ne at_] at there
      exact flags.waitable m node there ((others _ (alone m node at_ there)).2.1 ▸ set)
  due m node there kind set := by
    by_cases at_ : m = n
    · subst at_
      rw [Function.update_self] at there
      rw [named node there]
      exact isDue node there kind set
    · rw [Function.update_of_ne at_] at there
      rw [(others _ (alone m node at_ there)).2.2]
      exact flags.due m node there kind set

end Flags

section Step

variable {h : IocpHistory} {next : IocpReactor} {event : IocpEvent} {n : Addr} {node : IocpNode}

theorem Inv.alone (inv : h.Inv) (there : h.reactor.nodes n = some node) (m : Addr) (other : IocpNode)
    (apart : m ≠ n) (stored : h.reactor.nodes m = some other) : other.handle ≠ node.handle := by
  obtain ⟨order, reactor⟩ := inv.reactor
  exact fun same => apart (reactor.unique stored there same)

theorem Inv.old (there : h.reactor.nodes n = some node) (other : IocpNode)
    (stored : h.reactor.nodes n = some other) : other.handle = node.handle := by
  rw [there, Option.some.injEq] at stored
  rw [stored]

theorem Inv.adds {res : Int} (inv : h.Inv) (adds : Adds h.reactor next event res) :
    Flags next.nodes (if res = 0 then Function.update h.added event.handle true else h.added)
      (if res = 0 then Function.update h.waitable event.handle (event.events = 0) else h.waitable)
      (if res = 0 then Function.update h.due event.handle true else h.due) := by
  cases adds with
  | refused nodes => exact nodes ▸ inv.flags
  | @again n node res there handle kind waitable nodes =>
    rw [nodes]
    have alone := inv.alone there
    have old := Inv.old there
    rw [handle] at alone old
    by_cases success : res = 0
    · simp only [success, if_true]
      refine inv.flags.change alone old ?_ (fun other apart => ?_) ?_ ?_ ?_
      · rintro _ ⟨⟩
        exact handle
      · simp [apart]
      · simp
      · rintro _ ⟨⟩ -
        exact kind
      · simp
    · simp only [success, if_false]
      refine inv.flags.change alone old ?_ (fun other apart => ⟨rfl, rfl, rfl⟩) ?_ ?_ ?_
      · rintro _ ⟨⟩
        exact handle
      · exact (inv.flags.added event.handle).mpr ⟨n, node, there, handle⟩
      · rintro _ ⟨⟩ -
        exact kind
      · rintro _ ⟨⟩ - armed
        exact Bool.noConfusion armed
  | new free absent own nodes =>
    rw [nodes]
    refine inv.flags.change (fun m other _ => absent m other) (fun node there => ?_) ?_ (fun other apart => ?_) ?_ ?_ ?_
    · exact nomatch free.symm.trans there
    · rintro _ ⟨⟩
      rfl
    · simp [apart]
    · simp
    · rintro _ ⟨⟩ set
      simp only [if_true, Function.update_self, decide_eq_true_eq] at set
      simp [IocpNode.isHandle, own set]
    · simp

theorem Inv.deletes {res : Int} (inv : h.Inv) (deletes : Deletes h.reactor next event res) :
    Flags next.nodes (if res = 0 then Function.update h.added event.handle false else h.added)
      (if res = 0 then Function.update h.waitable event.handle false else h.waitable)
      (if res = 0 then Function.update h.due event.handle false else h.due) := by
  cases deletes with
  | absent _ nodes => exact nodes ▸ inv.flags
  | deleted there handle nodes =>
    rw [nodes]
    have alone := inv.alone there
    have old := Inv.old there
    rw [handle] at alone old
    refine inv.flags.change alone old nofun (fun other apart => ?_) ?_ nofun nofun
    · simp [apart]
    · simp

theorem Inv.waits {result : WaitResult} (inv : h.Inv) (waits : Waits h.reactor next result) :
    Flags next.nodes h.added h.waitable (match reported h.reactor result with
      | some handle => Function.update h.due handle false
      | none => h.due) := by
  cases waits with
  | timeout _ nodes => exact nodes ▸ inv.flags
  | @handle c node _ there kind nodes =>
    simp only [reported, there, Option.bind_some, kind, if_true]
    rw [nodes]
    refine inv.flags.change (inv.alone there) (Inv.old there) ?_ (fun other apart => ?_) ?_ ?_ ?_
    · rintro _ ⟨⟩
      rfl
    · simp [apart]
    · exact (inv.flags.added node.handle).mpr ⟨c.node, node, there, rfl⟩
    · rintro _ ⟨⟩ set
      exact inv.flags.waitable c.node node there set
    · rintro _ ⟨⟩ - armed
      exact Bool.noConfusion armed
  | @socket c node armed result _ there kind nodes received =>
    have silent : reported h.reactor result = none := by
      rcases received with rfl | ⟨events, rfl⟩
      · rfl
      · simp [reported, there, kind]
    rw [silent, nodes]
    refine inv.flags.change (inv.alone there) (Inv.old there) ?_ (fun other apart => ⟨rfl, rfl, rfl⟩) ?_ ?_ ?_
    · rintro _ ⟨⟩
      rfl
    · exact (inv.flags.added node.handle).mpr ⟨c.node, node, there, rfl⟩
    · rintro _ ⟨⟩ set
      exact inv.flags.waitable c.node node there set
    · rintro _ ⟨⟩ handle
      exact nomatch kind.symm.trans handle

theorem Inv.record {after : List Addr} {op : IocpOp} {reply : IocpReply} (inv : h.Inv) (kept : next.Inv after)
    (effect : Effect h.reactor next op reply) : (h.record next op reply).Inv := by
  refine ⟨⟨after, ?_⟩, ?_⟩
  · cases effect <;> exact kept
  · cases effect with
    | add adds => exact inv.adds adds
    | mod same => exact same ▸ inv.flags
    | del deletes => exact inv.deletes deletes
    | wait waits => exact inv.waits waits
    | signal nodes =>
      show Flags next.nodes h.added h.waitable h.due
      exact nodes ▸ inv.flags
    | destroy none =>
      refine ⟨fun handle => ⟨nofun, ?_⟩, fun n node there => ?_, fun n node there => ?_⟩
      · rintro ⟨n, node, there, -⟩
        exact nomatch (none n).symm.trans there
      · exact nomatch (none n).symm.trans there
      · exact nomatch (none n).symm.trans there

end Step

theorem iocpSystem_inv {ops : List IocpOp} {h : IocpHistory} (run : iocpSystem.Run ops h) : h.Inv := by
  refine run.invariant Inv ?_ ?_
  · rintro h ⟨root, nodes, pending, queue, -, added, waitable, due⟩
    exact ⟨⟨[], .blank root nodes pending queue⟩, by simp [added, nodes], by simp [nodes], by simp [nodes]⟩
  · rintro h op _ inv ⟨-, ready, fuel, reactor, reply, result, rfl⟩
    obtain ⟨order, kept⟩ := inv.reactor
    obtain ⟨⟨after, kept⟩, effect⟩ := kept.effect ready result
    exact inv.record kept effect

end IocpHistory

theorem IocpReactor.Armed.count {s : IocpReactor} (armed : s.Armed) {n : Addr} {node : IocpNode}
    (there : s.nodes n = some node) :
    (s.completions.countP fun c => c.node = n) = if node.armed then 1 else 0 := by
  have counted : (s.completions.countP fun c => c.node = n) = (s.completions.map Completion.node).count n := by
    rw [List.count_eq_countP, List.countP_map]
    rfl
  rw [counted]
  cases set : node.armed with
  | true =>
    obtain ⟨c, member, same⟩ := armed.present n node there set
    exact List.count_eq_one_of_mem armed.once (List.mem_map.mpr ⟨c, member, same⟩)
  | false =>
    refine List.count_eq_zero.mpr fun member => ?_
    obtain ⟨c, member, same⟩ := List.mem_map.mp member
    exact armed.idle_absent there set member same

/-- The tree has one node per handle, the lookup finds exactly the handles that were added
and not deleted; a node is armed exactly when it has a completion, and then it has one;
every completion belongs to a node in memory, so every step returns; and a pass that
returns a waitable handle does so only if the handle was added since it was last returned. -/
structure IocpHistory.LifeCycle (h : IocpHistory) : Prop where
  tree : ∃ order, h.reactor.tree.Holds order ∧ (∀ n, n ∈ order ↔ (h.reactor.nodes n).isSome) ∧
    (order.map h.reactor.handleAt).Nodup ∧ ∀ fuel, order.length < fuel →
      (∀ handle, ∃ n, h.reactor.lookup fuel handle = some n ∧ (n ≠ 0 ↔ h.added handle = true) ∧
        (n ≠ 0 → ∃ node, h.reactor.nodes n = some node ∧ node.handle = handle)) ∧
      ∀ op : IocpOp, op.Ready h.reactor → ∃ next reply, op.apply fuel h.reactor = some (next, reply)
  armed : ∀ n node, h.reactor.nodes n = some node →
    ((h.reactor.pending ++ h.reactor.queue).countP fun c => c.node = n) = if node.armed then 1 else 0
  received : ∀ c ∈ h.reactor.pending ++ h.reactor.queue,
    ∃ node, h.reactor.nodes c.node = some node ∧ node.packet = c.packet
  reported : ∀ answers next n data events node, h.reactor.wait answers = some (next, .event n data events) →
    h.reactor.nodes n = some node → h.waitable node.handle = true → h.due node.handle = true

theorem iocp_node_life_cycle {ops : List IocpOp} {h : IocpHistory} (run : iocpSystem.Run ops h) : h.LifeCycle := by
  have inv := IocpHistory.iocpSystem_inv run
  obtain ⟨order, reactor⟩ := inv.reactor
  refine ⟨⟨order, reactor.sorted.holds, fun n => ⟨reactor.sorted.stored n, reactor.reached n⟩, ?_, fun fuel bound =>
    ⟨fun handle => ?_, fun op ready => ?_⟩⟩, fun n node there => reactor.armed.count there, fun c member => ?_, ?_⟩
  · exact List.pairwise_map.mpr (reactor.sorted.sorted.imp fun less => Nat.ne_of_gt less)
  · obtain ⟨n, found, ⟨nonnull, -, node, there, named⟩ | ⟨null, -, absent⟩⟩ := reactor.lookup_spec handle bound
    · have added := (inv.flags.added handle).mpr ⟨n, node, there, named⟩
      exact ⟨n, found, ⟨fun _ => added, fun _ => nonnull⟩, fun _ => ⟨node, there, named⟩⟩
    · refine ⟨n, found, ⟨fun nonnull => absurd null nonnull, fun added => ?_⟩, fun nonnull => absurd null nonnull⟩
      obtain ⟨m, node, there, named⟩ := (inv.flags.added handle).mp added
      exact absurd named (absent m node there)
  · obtain ⟨next, reply, -, returns, -⟩ := reactor.apply_spec ready bound
    exact ⟨next, reply, returns⟩
  · obtain ⟨node, there, packet, -⟩ := reactor.armed.live c member
    exact ⟨node, there, packet⟩
  · intro answers next n data events node result there waitable
    obtain ⟨expected, reply, returns, -, waits⟩ := reactor.wait_spec answers
    rw [result, Option.some.injEq] at returns
    cases returns
    -- the completion that was received shows that the node was armed
    have armed : node.armed = true := by
      cases waits with
      | @handle c other head stored =>
        obtain ⟨live, present, -, set⟩ := reactor.armed.live c (List.mem_append_right _ head)
        rw [there, Option.some.injEq] at present
        exact present ▸ set
      | @socket c other set _ head stored kind _ reply =>
        obtain ⟨events, same⟩ := reply.resolve_left nofun
        cases same
        obtain ⟨live, present, -, set⟩ := reactor.armed.live c (List.mem_append_right _ head)
        rw [there, Option.some.injEq] at present
        exact present ▸ set
    exact inv.flags.due n node there (inv.flags.waitable n node there waitable) armed

/-- A waitable handle that is already signaled is added, received, and not due any more. -/
theorem iocp_node_life_cycle_handle :
    ∃ ops h, iocpSystem.Run ops h ∧ h.LifeCycle ∧ ops.length = 2 ∧ h.added 40 = true ∧ h.due 40 = false := by
  have start : iocpSystem.Run []
      ⟨⟨RBTree.blank, fun _ => none, [], []⟩, true, fun _ => false, fun _ => false, fun _ => false⟩ :=
    .init ⟨rfl, fun _ => rfl, rfl, rfl, rfl, fun _ => rfl, fun _ => rfl, fun _ => rfl⟩
  have fresh : (IocpOp.add ⟨40, 0, 100⟩ ⟨4, false, 0, false, 9, .signaled⟩).Ready
      ⟨RBTree.blank, fun _ => none, [], []⟩ := ⟨fun _ => ⟨by decide, rfl⟩, nofun⟩
  have added := start.step ⟨rfl, fresh, 2, _, _, rfl, rfl⟩
  have waited := added.step ⟨rfl, IocpOp.wait_ready _ ⟨false, none, .refused⟩, 0, _, _, rfl, rfl⟩
  exact ⟨_, _, waited, iocp_node_life_cycle waited, rfl, rfl, rfl⟩

end HevTaskSystem
