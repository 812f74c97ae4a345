import HevTaskSystem.Foundation.Transition
import HevTaskSystem.RBTree.Memory

/-! The aide, `kern/aide/hev-task-aide.c`, in one process.

The aide is shared by the threads of a process and counted by their references. A section
under the mutex is one step, and so is every other access to the aide, so calls of
different threads interleave between them. A fork is followed into the parent or into the
child, where only the forking thread goes on. The counter is a natural number: every
reference belongs to a proxy with two descriptors, and descriptors are of type `int`.
-/

set_option autoImplicit false

namespace HevTaskSystem

open Foundation

structure Aide where
  orphan : Bool
  refCount : Nat
  deriving DecidableEq

/-- What reaches the thread, the sockets or the reactor of an aide. -/
inductive AideEffect where
  | quit
  | join
  | drainWrite
  | drainRead
  | reactorDel
  deriving DecidableEq

/-- An effect on an aide, and whether the process has inherited the aide. -/
structure AideTouch where
  effect : AideEffect
  aide : Addr
  inherited : Bool
  deriving DecidableEq

/-- How far a thread is in `hev_task_aide_put` or `hev_task_dns_proxy_destroy`. -/
inductive AidePhase where
  /-- Before the section of `hev_task_aide_put`. -/
  | put
  /-- In the loop of `hev_task_aide_destroy` that writes to the aide. -/
  | quit
  /-- Before the thread of the aide is joined. -/
  | join
  /-- Before the aide is freed. -/
  | release
  /-- Before `hev_task_dns_proxy_destroy` looks at the aide. -/
  | proxyDestroy
  /-- In the first loop of `hev_task_dns_proxy_drain`. -/
  | drainWrite
  /-- In its second loop. -/
  | drainRead
  /-- Before `hev_task_aide_del` looks at the aide. -/
  | del
  /-- Before `hev_task_aide_del` calls the reactor. -/
  | delSetup
  deriving DecidableEq

structure AideCall where
  phase : AidePhase
  aide : Addr
  deriving DecidableEq

def AidePhase.ending : AidePhase → Bool
  | .quit | .join | .release => true
  | _ => false

def AideCall.holds (a : Addr) (c : AideCall) : Bool := c.aide = a ∧ ¬ c.phase.ending

/-- A process. Recorded are the references that have been got and not put, the aides that were
created, the calls of `hev_task_aide_destroy` for an aide since it was created, the aides
that were inherited, and all effects. -/
structure AideProcess where
  aides : Addr → Option Aide
  aide : Addr
  mutex : Bool
  once : Bool
  calls : List AideCall
  outstanding : Addr → Nat
  created : Addr → Bool
  destroys : Addr → Nat
  inherited : Addr → Bool
  touched : List AideTouch

namespace AideProcess

def setAide (self : AideProcess) (a : Addr) (x : Aide) : AideProcess :=
  { self with aides := Function.update self.aides a (some x) }

def touch (self : AideProcess) (effect : AideEffect) (a : Addr) : AideProcess :=
  { self with touched := self.touched ++ [⟨effect, a, self.inherited a⟩] }

/-- The function `hev_task_aide_new`, with the address of the new aide or NULL. -/
def aideNew (self : AideProcess) (calloc : Addr) : AideProcess :=
  if calloc = 0 then self
  else
    { self.setAide calloc ⟨false, 0⟩ with
      aide := calloc
      outstanding := Function.update self.outstanding calloc 0
      created := Function.update self.created calloc true
      destroys := Function.update self.destroys calloc 0
      inherited := Function.update self.inherited calloc false }

/-- The section of `hev_task_aide_get`, with its result. -/
def get (self : AideProcess) (calloc : Addr) : Option (AideProcess × Addr) := do
  let self := if self.aide = 0 then self.aideNew calloc else self
  if self.aide ≠ 0 then
    let x ← self.aides self.aide
    let self := self.setAide self.aide { x with refCount := x.refCount + 1 }
    return ({ self with outstanding := Function.update self.outstanding self.aide (self.outstanding self.aide + 1) },
      self.aide)
  else
    return (self, 0)

/-- The section of `hev_task_aide_put`, with the number of references left. -/
def putSection (self : AideProcess) (a : Addr) : Option (AideProcess × Nat) := do
  let x ← self.aides a
  let refCount := x.refCount - 1
  let self := self.setAide a { x with refCount := refCount }
  return ({ self with
    aide := if refCount = 0 ∧ self.aide = a then 0 else self.aide
    outstanding := Function.update self.outstanding a (self.outstanding a - 1) }, refCount)

def orphan (self : AideProcess) (a : Addr) : Option Bool := do
  let x ← self.aides a
  return x.orphan

/-- A call of a thread up to its next access to the aide, with the phase it is in then. The
loops are repeated if `again` is set. -/
def advance (self : AideProcess) (c : AideCall) (again : Bool) : Option (AideProcess × Option AidePhase) := do
  match c.phase with
  | .put =>
    let (self, refCount) ← self.putSection c.aide
    if refCount = 0 then
      return ({ self with destroys := Function.update self.destroys c.aide (self.destroys c.aide + 1) }, some .quit)
    else
      return (self, none)
  | .quit =>
    if ← self.orphan c.aide then
      return (self, some .join)
    else
      return (self.touch .quit c.aide, some (if again then .quit else .join))
  | .join =>
    if ← self.orphan c.aide then
      return (self, some .release)
    else
      return (self.touch .join c.aide, some .release)
  | .release =>
    let _ ← self.aides c.aide
    return ({ self with aides := Function.update self.aides c.aide none }, none)
  | .proxyDestroy =>
    if ← self.orphan c.aide then
      return (self, some .del)
    else
      return (self, some .drainWrite)
  | .drainWrite => return (self.touch .drainWrite c.aide, some (if again then .drainWrite else .drainRead))
  | .drainRead => return (self.touch .drainRead c.aide, some (if again then .drainRead else .del))
  | .del =>
    if ← self.orphan c.aide then
      return (self, some .put)
    else
      return (self, some .delSetup)
  | .delSetup =>
    let _ ← self.aides c.aide
    return (self.touch .reactorDel c.aide, some .put)

def inherit (self : AideProcess) : AideProcess :=
  { self with calls := [], inherited := fun a => (self.aides a).isSome }

def forkChild (self : AideProcess) : Option AideProcess := do
  if self.aide ≠ 0 then
    let x ← self.aides self.aide
    let self := self.setAide self.aide { x with orphan := true }
    return { self with aide := 0, mutex := false }
  else
    return { self with mutex := false }

end AideProcess

inductive AideOp where
  /-- `hev_sys_once` of `hev_task_aide_get` -/
  | once
  | get (calloc : Addr)
  /-- A thread starts `hev_task_aide_put` or, with `proxy`, `hev_task_dns_proxy_destroy`. -/
  | start (a : Addr) (proxy : Bool)
  /-- The call at a position goes on. -/
  | advance (i : Nat) (again : Bool)
  | forkPrepare
  | forkParent
  | forkChild
  /-- A fork without handlers. -/
  | fork (child : Bool)

namespace AideOp

/-- What the callers and the system guarantee: a put matches an earlier get, sections exclude
each other, and new memory is not in use. -/
def Ready (s : AideProcess) : AideOp → Prop
  | .once => True
  | .get calloc => s.once = true ∧ s.mutex = false ∧ (calloc ≠ 0 → s.aides calloc = none)
  | .start a _ => s.calls.countP (AideCall.holds a) < s.outstanding a
  | .advance i _ => ∃ c, s.calls[i]? = some c ∧ (c.phase = .put → s.mutex = false)
  | .forkPrepare => s.once = true ∧ s.mutex = false
  | .forkParent => s.mutex = true
  | .forkChild => s.mutex = true
  | .fork _ => s.once = false

def apply (s : AideProcess) : AideOp → Option AideProcess
  | .once => some { s with once := true }
  | .get calloc => do
    let (s, _) ← s.get calloc
    return s
  | .start a proxy => some { s with calls := s.calls ++ [⟨if proxy then .proxyDestroy else .put, a⟩] }
  | .advance i again => do
    let c ← s.calls[i]?
    let (next, phase) ← s.advance c again
    return { next with
      calls := s.calls.take i ++ (phase.map fun phase => { c with phase := phase }).toList ++ s.calls.drop (i + 1) }
  | .forkPrepare => some { s with mutex := true }
  | .forkParent => some { s with mutex := false }
  | .forkChild => s.inherit.forkChild
  | .fork child => some (if child then s.inherit else s)

instance decidableReady (s : AideProcess) (op : AideOp) : Decidable (op.Ready s) :=
  match op with
  | .once => inferInstanceAs (Decidable True)
  | .get _ => inferInstanceAs (Decidable (_ ∧ _ ∧ (_ → _)))
  | .start _ _ => inferInstanceAs (Decidable (_ < _))
  | .advance i _ => decidable_of_iff ((s.calls[i]?).any fun c => c.phase = .put → s.mutex = false)
      (by simp [Ready, Option.any_eq_true, imp_iff_not_or])
  | .forkPrepare => inferInstanceAs (Decidable (_ ∧ _))
  | .forkParent | .forkChild | .fork _ => inferInstanceAs (Decidable (_ = _))

def perform (s : AideProcess) (op : AideOp) : Option AideProcess := if op.Ready s then op.apply s else none

end AideOp

def aideSystem : System AideProcess AideOp where
  init s := (∀ a, s.aides a = none) ∧ s.aide = 0 ∧ s.mutex = false ∧ s.once = false ∧ s.calls = [] ∧
    (∀ a, s.outstanding a = 0) ∧ (∀ a, s.created a = false) ∧ (∀ a, s.inherited a = false) ∧ s.touched = []
  step s op next := op.Ready s ∧ op.apply s = some next

theorem AideOp.perform_sound {s next : AideProcess} {op : AideOp} (done : op.perform s = some next) :
    aideSystem.step s op next := by
  by_cases ready : op.Ready s
  · exact ⟨ready, by rwa [perform, if_pos ready] at done⟩
  · rw [perform, if_neg ready] at done
    exact nomatch done

end HevTaskSystem
