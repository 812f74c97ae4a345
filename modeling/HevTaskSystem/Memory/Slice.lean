import Mathlib.Data.Nat.Bitwise
import HevTaskSystem.Foundation.Chain
import HevTaskSystem.Foundation.Ledger
import HevTaskSystem.Foundation.Loop
import HevTaskSystem.Foundation.Transition
import HevTaskSystem.List.HevList

/-! The slice allocator, `mem/slice/hev-memory-allocator-slice.c`.

Freed slices are kept in lists, one for each size class, up to a number of slices in all;
beyond it the list that was used least recently gives one up to libc. A block is named by
the address of its header; the caller gets the address behind it. Sizes and addresses are
those of a 64-bit machine, with the constants of `configs.mk` apart from the number of
slices to keep, which is a parameter.
-/

set_option autoImplicit false

namespace HevTaskSystem

open Foundation

/-- `HevMemorySlice`, and the bytes that libc was asked for behind it. -/
structure Slice where
  next : Addr
  index : Int
  capacity : Nat
  deriving DecidableEq, Repr

namespace Slice

def align : Nat := 16

def maxIndex : Nat := 4096 / align

/-- `sizeof (HevMemorySlice)` -/
def headerSize : Nat := 16

/-- `ALIGN_UP (size, CACHED_SLICE_ALIGN)` -/
def alignUp (size : Nat) : Nat := (size + align - 1) % 2 ^ 64 &&& (2 ^ 64 - align)

/-- `index = size / CACHED_SLICE_ALIGN`, an `int`. -/
def indexOf (size : Nat) : Int := Int.bmod (size / align : Nat) (2 ^ 32)

/-- What libc is asked for: `sizeof (HevMemorySlice) + size`. -/
def request (size : Nat) : Nat := (headerSize + size) % 2 ^ 64

def Cached (index : Int) : Prop := 1 ≤ index ∧ index ≤ maxIndex

instance (index : Int) : Decidable (Cached index) := inferInstanceAs (Decidable (_ ∧ _))

end Slice

/-! ## The list of recently used classes -/

def lruInsert (list : HevList) (nodes : ListNodes) (node : Addr) : HevList × ListNodes :=
  let nodes : ListNodes := { nodes with prev := Function.update nodes.prev node 0 }
  let nodes : ListNodes :=
    if list.head ≠ 0 then
      ⟨Function.update nodes.next node list.head, Function.update nodes.prev list.head node⟩
    else
      { nodes with next := Function.update nodes.next node 0 }
  (⟨node, if list.tail = 0 then node else list.tail⟩, nodes)

def lruRemove (list : HevList) (nodes : ListNodes) (node : Addr) : HevList × ListNodes :=
  let nodes : ListNodes :=
    if nodes.prev node ≠ 0 then
      { nodes with next := Function.update nodes.next (nodes.prev node) (nodes.next node) }
    else
      nodes
  let nodes : ListNodes :=
    if nodes.next node ≠ 0 then
      { nodes with prev := Function.update nodes.prev (nodes.next node) (nodes.prev node) }
    else
      nodes
  (⟨if list.head = node then nodes.next node else list.head,
    if list.tail = node then nodes.prev node else list.tail⟩, nodes)

/-! ## The allocator -/

/-- A call of libc's `free`, with the lists as they were. -/
structure FreeCall where
  block : Addr
  mslices : Nat → Addr
  blocks : Addr → Option Slice

/-- `HevMemoryAllocatorSlice` and the headers of the blocks that libc has handed out. The
address of `lru_nodes[i]` is `i + 1`. The last four fields are no fields of the source and
no operation reads them: what libc has handed out and taken back, the calls of its `free`,
and the times of the last hit or first slice of every class. -/
structure SliceAllocator where
  lru : HevList
  lruNodes : ListNodes
  cachedCount : Nat
  cachedMslices : Nat → Addr
  blocks : Addr → Option Slice
  libc : Ledger Addr
  frees : List FreeCall
  clock : Nat
  touched : Nat → Nat

namespace SliceAllocator

/-- `hev_memory_allocator_slice_new`; the nodes are not initialised. -/
def new (lruNodes : ListNodes) : SliceAllocator where
  lru := ⟨0, 0⟩
  lruNodes
  cachedCount := 0
  cachedMslices _ := 0
  blocks _ := none
  libc := .empty
  frees := []
  clock := 1
  touched _ := 0

/-- A block from libc, with the header that is then written. Its `next` is not initialised,
and nothing reads it before it is cached. -/
def obtain (self : SliceAllocator) (slice : Addr) (size : Nat) (index : Int) : SliceAllocator :=
  { self with
    blocks := Function.update self.blocks slice (some ⟨0, index, Slice.request size - Slice.headerSize⟩)
    libc := self.libc.give slice }

def giveBack (self : SliceAllocator) (slice : Addr) : Option SliceAllocator := do
  let libc ← self.libc.take slice
  return { self with blocks := Function.update self.blocks slice none, libc }

/-- `free (slice)` -/
def libcFree (self : SliceAllocator) (slice : Addr) : Option SliceAllocator := do
  let next ← self.giveBack slice
  return { next with frees := self.frees ++ [⟨slice, self.cachedMslices, self.blocks⟩] }

def insertNode (self : SliceAllocator) (i : Nat) : SliceAllocator :=
  let (lru, lruNodes) := lruInsert self.lru self.lruNodes (i + 1)
  { self with lru, lruNodes, clock := self.clock + 1, touched := Function.update self.touched i self.clock }

def removeNode (self : SliceAllocator) (i : Nat) : SliceAllocator :=
  let (lru, lruNodes) := lruRemove self.lru self.lruNodes (i + 1)
  { self with lru, lruNodes }

/-- `*owner = slice->next` for the first slice of a class. -/
def pop (self : SliceAllocator) (i : Nat) (slice : Slice) : SliceAllocator :=
  { self with
    cachedMslices := Function.update self.cachedMslices i slice.next
    cachedCount := self.cachedCount - 1 }

/-- `_hev_memory_allocator_alloc`; `answer` is what `malloc` returns if it is called. -/
def alloc (self : SliceAllocator) (size : Nat) (answer : Option Addr) : Option (SliceAllocator × Addr) := do
  let size := Slice.alignUp size
  let index := Slice.indexOf size
  if index = 0 then
    return (self, 0)
  else if Slice.Cached index then
    let i := (index - 1).toNat
    let slice := self.cachedMslices i
    if slice ≠ 0 then
      let header ← self.blocks slice
      let self := (self.pop i header).removeNode i
      return (if self.cachedMslices i ≠ 0 then self.insertNode i else self, slice)
    else
      match answer with
      | none => return (self, 0)
      | some slice => return (self.obtain slice size (index - 1), slice)
  else
    match answer with
    | none => return (self, 0)
    | some slice => return (self.obtain slice size (-1), slice)

/-- The eviction in `_hev_memory_allocator_free`. Without a last node there is no list to
take a slice from. -/
def evict (self : SliceAllocator) : Option SliceAllocator := do
  let node := self.lru.tail
  if node = 0 then
    none
  else
    let i := node - 1
    let freeSlice := self.cachedMslices i
    let header ← self.blocks freeSlice
    let self := self.pop i header
    let self := if self.cachedMslices i = 0 then self.removeNode i else self
    self.libcFree freeSlice

def push (self : SliceAllocator) (ptr : Addr) (slice : Slice) : SliceAllocator :=
  let i := slice.index.toNat
  let next := self.cachedMslices i
  let self :=
    { self with
      blocks := Function.update self.blocks ptr (some { slice with next })
      cachedMslices := Function.update self.cachedMslices i ptr
      cachedCount := self.cachedCount + 1 }
  if next = 0 then self.insertNode i else self

def free (maxCount : Nat) (self : SliceAllocator) (ptr : Addr) : Option SliceAllocator := do
  let slice ← self.blocks ptr
  if slice.index < 0 then
    self.libcFree ptr
  else if slice.index < Slice.maxIndex then
    let self ← if maxCount ≤ self.cachedCount then self.evict else some self
    return self.push ptr slice
  else
    none

/-- `_hev_memory_allocator_realloc`; `answer` is what `realloc` returns if it is called.
Asked for no bytes at all libc may return NULL and free the block, which `drops` says. -/
def realloc (maxCount : Nat) (self : SliceAllocator) (ptr : Addr) (size : Nat) (answer : Option Addr)
    (drops : Bool) : Option (SliceAllocator × Addr) := do
  if size = 0 then
    let self ← self.free maxCount ptr
    return (self, 0)
  else
    let size := Slice.alignUp size
    let index := Slice.indexOf size
    match answer with
    | none =>
      if drops ∧ Slice.request size = 0 then
        let self ← self.giveBack ptr
        return (self, 0)
      else
        return (self, 0)
    | some slice =>
      let self ← self.giveBack ptr
      return (self.obtain slice size (if Slice.Cached index then index - 1 else -1), slice)

/-- `while (iter)` in `_hev_memory_allocator_destroy`. -/
def destroyList (fuel : Nat) (self : SliceAllocator) (iter : Addr) : Option SliceAllocator :=
  loop (fun (self, iter) => do
    if iter = 0 then
      return .done self
    else
      let slice ← self.blocks iter
      let self ← self.libcFree iter
      return .next (self, slice.next)) fuel (self, iter)

def destroy (fuel : Nat) (self : SliceAllocator) : Option SliceAllocator :=
  loop (fun (self, node) => do
    if node = 0 then
      return .done self
    else
      let self ← self.destroyList fuel (self.cachedMslices (node - 1))
      return .next (self, self.lruNodes.next node)) fuel (self, self.lru.head)

end SliceAllocator

/-! ## Callers -/

structure SliceUser where
  self : SliceAllocator
  held : List Addr

inductive SliceOp where
  | malloc (size : Nat) (answer : Option Addr)
  | realloc (ptr : Addr) (size : Nat) (answer : Option Addr) (drops : Bool)
  | free (ptr : Addr)
  deriving DecidableEq, Repr

namespace SliceOp

/-- What libc and the caller guarantee: libc returns NULL or a block that it has not handed
out, the caller passes blocks that it holds. -/
def Ready (s : SliceUser) : SliceOp → Prop
  | .malloc _ answer => ∀ a, answer = some a → a ≠ 0 ∧ s.self.blocks a = none
  | .realloc ptr _ answer _ => ptr ∈ s.held ∧ ∀ a, answer = some a → a ≠ 0 ∧ (a = ptr ∨ s.self.blocks a = none)
  | .free ptr => ptr ∈ s.held

def apply (maxCount : Nat) (s : SliceUser) : SliceOp → Option SliceUser
  | .malloc size answer => do
    let (self, ptr) ← s.self.alloc size answer
    return ⟨self, if ptr ≠ 0 then s.held ++ [ptr] else s.held⟩
  | .realloc ptr size answer drops => do
    let (self, result) ← s.self.realloc maxCount ptr size answer drops
    let held := if size = 0 ∨ result ≠ 0 then s.held.erase ptr else s.held
    return ⟨self, if result ≠ 0 then held ++ [result] else held⟩
  | .free ptr => do
    let self ← s.self.free maxCount ptr
    return ⟨self, s.held.erase ptr⟩

/-- A failed `realloc` leaves its block to the caller. -/
def Keeps : SliceOp → Prop
  | .realloc _ size answer drops => ¬ (answer = none ∧ drops ∧ Slice.request (Slice.alignUp size) = 0)
  | _ => True

end SliceOp

def sliceSystem (maxCount : Nat) : System SliceUser SliceOp where
  init s := s.held = [] ∧ ∃ lruNodes, s.self = .new lruNodes
  step s op next := op.Ready s ∧ op.apply maxCount s = some next

end HevTaskSystem
