import HevTaskSystem.RBTree.Search

/-! The I/O reactor over a completion port.

Every socket or waitable handle has a node in a tree, and the node waits on an event
through a wait completion packet. An armed packet is pending until its event is
signaled; its completion is then queued at the port until the reactor receives it or the
packet is cancelled. What the system answers to a call is an input.
-/

set_option autoImplicit false

namespace HevTaskSystem

open Foundation

structure IocpNode where
  handle : Nat
  data : Addr
  ehandle : Nat
  packet : Nat
  armed : Bool
  deriving DecidableEq

def IocpNode.isHandle (node : IocpNode) : Bool := node.handle = node.ehandle

/-- A completion that is pending or queued: its packet, and the node it was armed for. -/
structure Completion where
  packet : Nat
  node : Addr
  deriving DecidableEq

/-- `HevTaskIOReactorSetupEvent`, with the operation left to the caller. -/
structure IocpEvent where
  handle : Nat
  events : Nat
  data : Addr
  deriving DecidableEq

/-- The answer of `NtAssociateWaitCompletionPacket`: an error, or success with the event not
yet or already signaled. -/
inductive Associate where
  | refused
  | waiting
  | signaled
  deriving DecidableEq

/-- The answers of the system while a node is added: the memory, whether the handle is that
of an open socket, the event, whether `WSAEventSelect` succeeds, and the packet; NULL
where a call fails. -/
structure AddAnswers where
  calloc : Addr
  socket : Bool
  event : Nat
  select : Bool
  packet : Nat
  associate : Associate
  deriving DecidableEq

/-- The answers during a pass of `hev_task_io_reactor_wait`: whether the socket is open, and
the network events, none if `WSAEnumNetworkEvents` fails. -/
structure WaitAnswers where
  socket : Bool
  nevents : Option Nat
  associate : Associate
  deriving DecidableEq

inductive WaitResult where
  /-- Nothing was received. -/
  | timeout
  /-- A completion was received and the loop goes on. -/
  | again
  /-- The completion of the node is returned as an event. -/
  | event (node data : Addr) (events : Nat)
  deriving DecidableEq

/-- The tree and its nodes, and the completions at the port. -/
structure IocpReactor where
  tree : RBTree
  nodes : Addr → Option IocpNode
  pending : List Completion
  queue : List Completion

namespace IocpReactor

def setNode (self : IocpReactor) (n : Addr) (node : IocpNode) : IocpReactor :=
  { self with nodes := Function.update self.nodes n (some node) }

def free (self : IocpReactor) (n : Addr) : IocpReactor :=
  { self with nodes := Function.update self.nodes n none }

/-- `NtCancelWaitCompletionPacket` with a completion that is already queued removed, too. -/
def cancel (self : IocpReactor) (packet : Nat) : IocpReactor :=
  { self with
    pending := self.pending.filter fun c => c.packet ≠ packet
    queue := self.queue.filter fun c => c.packet ≠ packet }

/-- `NtAssociateWaitCompletionPacket`: the completion is pending, or queued at once. -/
def associate (self : IocpReactor) (c : Completion) : Associate → Option IocpReactor
  | .refused => none
  | .waiting => some { self with pending := self.pending ++ [c] }
  | .signaled => some { self with queue := self.queue ++ [c] }

def nodeArm (self : IocpReactor) (n : Addr) (answer : Associate) : Option (IocpReactor × Int) := do
  let node ← self.nodes n
  if node.armed then
    return (self, 0)
  else
    match self.associate ⟨node.packet, n⟩ answer with
    | none => return (self, -1)
    | some self => return (self.setNode n { node with armed := true }, 0)

def nodeFree (self : IocpReactor) (n : Addr) : Option IocpReactor := do
  let node ← self.nodes n
  let self := if node.armed then self.cancel node.packet else self
  return self.free n

def nodeDetach (fuel : Nat) (self : IocpReactor) (n : Addr) : Option IocpReactor := do
  let self := { self with tree := ← self.tree.erase fuel n }
  self.nodeFree n

def toward (self : IocpReactor) (handle : Nat) (this : Addr) : Option (Option RedBlack.Side) := do
  let this ← self.nodes this
  if this.handle < handle then return some .left
  else if this.handle > handle then return some .right
  else return none

def insert (fuel : Nat) (self : IocpReactor) (n : Addr) : Option (IocpReactor × Int) := do
  let node ← self.nodes n
  match ← self.tree.insertDistinct fuel (self.toward node.handle) n with
  | some tree => return ({ self with tree := tree }, 0)
  | none => return (self, -1)

def lookup (fuel : Nat) (self : IocpReactor) (handle : Nat) : Option Addr :=
  self.tree.search fuel (self.toward handle)

/-- The rest of `hev_task_io_reactor_iocp_add` for a node that has its event: the packet,
its arming and the insertion into the tree. -/
def addNode (fuel : Nat) (self : IocpReactor) (n : Addr) (node : IocpNode) (answers : AddAnswers) :
    Option (IocpReactor × Int) := do
  let self := self.setNode n node
  if answers.packet = 0 then
    return (self.free n, -1)
  else
    let self := self.setNode n { node with packet := answers.packet }
    let (self, res) ← self.nodeArm n answers.associate
    if res < 0 then
      return (← self.nodeFree n, -1)
    else
      let (self, _) ← self.insert fuel n
      return (self, 0)

def add (fuel : Nat) (self : IocpReactor) (event : IocpEvent) (answers : AddAnswers) :
    Option (IocpReactor × Int) := do
  let found ← self.lookup fuel event.handle
  if found ≠ 0 then
    let node ← self.nodes found
    if ¬ node.isHandle ∨ event.events ≠ 0 then
      return (self, -1)
    else
      let self := self.setNode found { node with data := event.data }
      self.nodeArm found answers.associate
  else
    let n := answers.calloc
    if n = 0 then
      return (self, -1)
    else
      let node : IocpNode := ⟨event.handle, event.data, 0, 0, false⟩
      let self := self.setNode n node
      if event.events ≠ 0 then
        if ¬ answers.socket ∨ answers.event = 0 then
          return (self.free n, -1)
        else
          let node := { node with ehandle := answers.event }
          let self := self.setNode n node
          if ¬ answers.select then
            return (self.free n, -1)
          else
            self.addNode fuel n node answers
      else
        self.addNode fuel n { node with ehandle := event.handle } answers

def mod (fuel : Nat) (self : IocpReactor) (event : IocpEvent) (socket select : Bool) : Option (IocpReactor × Int) := do
  let found ← self.lookup fuel event.handle
  if found = 0 then
    return (self, -1)
  else
    let node ← self.nodes found
    if ¬ node.isHandle ∧ event.events ≠ 0 ∧ (¬ socket ∨ ¬ select) then
      return (self, -1)
    else
      return (self, 0)

def del (fuel : Nat) (self : IocpReactor) (event : IocpEvent) : Option (IocpReactor × Int) := do
  let found ← self.lookup fuel event.handle
  if found = 0 then
    return (self, -1)
  else
    return (← self.nodeDetach fuel found, 0)

def destroyPass (fuel : Nat) (self : IocpReactor) : Option (Flow IocpReactor IocpReactor) := do
  if self.tree.root ≠ 0 then
    return .next (← self.nodeDetach fuel self.tree.root)
  else
    return .done self

/-- The function `hev_task_io_reactor_destroy` up to the release of the reactor itself. -/
def destroy (fuel : Nat) (self : IocpReactor) : Option IocpReactor :=
  loop (destroyPass fuel) fuel self

def wait (self : IocpReactor) (answers : WaitAnswers) : Option (IocpReactor × WaitResult) := do
  match self.queue with
  | [] => return (self, .timeout)
  | completion :: queue =>
    let n := completion.node
    let node ← self.nodes n
    let self := { self with queue := queue }
    let self := self.setNode n { node with armed := false }
    if node.isHandle then
      return (self, .event n node.data 0)
    else if ¬ answers.socket then
      return (self, .again)
    else
      let (self, _) ← self.nodeArm n answers.associate
      match answers.nevents with
      | some (events + 1) => return (self, .event n node.data (events + 1))
      | _ => return (self, .again)

def signal (self : IocpReactor) (c : Completion) : IocpReactor :=
  { self with pending := self.pending.erase c, queue := self.queue ++ [c] }

end IocpReactor

end HevTaskSystem
