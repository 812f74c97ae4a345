import HevTaskSystem.Foundation.RedBlack

/-! Intrusive tree nodes in memory and the primitive steps on their packed words.

Each field of `HevRBTreeNode` is a map from addresses, with address zero for
NULL. An access through NULL is a fault, `none`. The word `__parent_color`
holds the parent address with the colour in its lowest bit; node addresses are
multiples of four, so both parts can be read back.
-/

set_option autoImplicit false

namespace HevTaskSystem

open Foundation.RedBlack

abbrev Addr := Nat

/-- `HevRBTree` together with the node fields it points into. -/
structure RBTree where
  root : Addr
  parentColor : Addr → Nat
  child : Side → Addr → Addr

namespace RBTree

/-- `HEV_RBTREE_RED = 0`, `HEV_RBTREE_BLACK = 1`. -/
def colorBit : Color → Nat
  | .red => 0
  | .black => 1

/-- `(uintptr_t)parent | color`. -/
def word (parent : Nat) (color : Color) : Nat := parent ||| colorBit color

/-- `pc & HEV_RBTREE_BLACK`. -/
def wordIsBlack (pc : Nat) : Bool := pc &&& 1 != 0

/-- `pc & ~3`. -/
def wordParent (pc : Nat) : Nat := pc / 4 * 4

/-! ## Field accesses -/

def loadWord (self : RBTree) (node : Addr) : Option Nat :=
  if node = 0 then none else some (self.parentColor node)

def setWord (self : RBTree) (node : Addr) (pc : Nat) : RBTree :=
  { self with parentColor := fun a => if a = node then pc else self.parentColor a }

def storeWord (self : RBTree) (node : Addr) (pc : Nat) : Option RBTree :=
  if node = 0 then none else some (self.setWord node pc)

def loadChild (self : RBTree) (side : Side) (node : Addr) : Option Addr :=
  if node = 0 then none else some (self.child side node)

def setChild (self : RBTree) (side : Side) (node target : Addr) : RBTree :=
  { self with
    child := fun s a => if s = side ∧ a = node then target else self.child s a }

def storeChild (self : RBTree) (side : Side) (node target : Addr) : Option RBTree :=
  if node = 0 then none else some (self.setChild side node target)

/-! ## Source primitives -/

def nodeIsBlack (self : RBTree) (node : Addr) : Option Bool := do
  return wordIsBlack (← self.loadWord node)

def nodeIsRed (self : RBTree) (node : Addr) : Option Bool := do
  return !wordIsBlack (← self.loadWord node)

/-- `node && hev_rbtree_node_is_red (node)`. -/
def nodeIsRedIf (self : RBTree) (node : Addr) : Option Bool :=
  if node = 0 then some false else self.nodeIsRed node

/-- `!node || hev_rbtree_node_is_black (node)`. -/
def nodeIsBlackIf (self : RBTree) (node : Addr) : Option Bool :=
  if node = 0 then some true else self.nodeIsBlack node

def nodeParent (self : RBTree) (node : Addr) : Option Addr := do
  return wordParent (← self.loadWord node)

/-- `hev_rbtree_node_red_parent`: the word of a red node is the bare address. -/
def nodeRedParent (self : RBTree) (node : Addr) : Option Addr := self.loadWord node

def nodeSetBlack (self : RBTree) (node : Addr) : Option RBTree := do
  self.storeWord node ((← self.loadWord node) ||| colorBit .black)

def nodeSetParent (self : RBTree) (node parent : Addr) : Option RBTree := do
  self.storeWord node (((← self.loadWord node) &&& 1) ||| parent)

def nodeSetParentColor (self : RBTree) (node parent : Addr) (color : Color) : Option RBTree :=
  self.storeWord node (word parent color)

/-- `if (node) hev_rbtree_node_set_parent_color (node, parent, color)`. -/
def nodeSetParentColorIf (self : RBTree) (node parent : Addr) (color : Color) : Option RBTree :=
  if node = 0 then some self else self.nodeSetParentColor node parent color

/-- `if (node) hev_rbtree_node_set_parent (node, parent)`. -/
def nodeSetParentIf (self : RBTree) (node parent : Addr) : Option RBTree :=
  if node = 0 then some self else self.nodeSetParent node parent

def changeChild (self : RBTree) (old new parent : Addr) : Option RBTree := do
  if parent ≠ 0 then
    if (← self.loadChild .left parent) = old then
      self.storeChild .left parent new
    else
      self.storeChild .right parent new
  else
    return { self with root := new }

/-- The parent and colour of `old` go to `new`; `old` gets `new` as its parent
and `color` as its colour. -/
def rotateSetParents (self : RBTree) (old new : Addr) (color : Color) : Option RBTree := do
  let parent ← self.nodeParent old
  let self ← self.storeWord new (← self.loadWord old)
  let self ← self.nodeSetParentColor old new color
  self.changeChild old new parent

inductive Slot where
  | root
  | child (side : Side) (parent : Addr)
  deriving DecidableEq, Repr

def loadSlot (self : RBTree) : Slot → Option Addr
  | .root => some self.root
  | .child side parent => self.loadChild side parent

def storeSlot (self : RBTree) (slot : Slot) (target : Addr) : Option RBTree :=
  match slot with
  | .root => some { self with root := target }
  | .child side parent => self.storeChild side parent target

def nodeLink (self : RBTree) (node parent : Addr) (link : Slot) : Option RBTree := do
  let self ← self.storeWord node parent
  let self ← self.storeChild .right node 0
  let self ← self.storeChild .left node 0
  self.storeSlot link node

/-! ## Packed words of aligned parents -/

section Words

variable {parent : Nat} (aligned : 4 ∣ parent)
include aligned

theorem word_eq_add (color : Color) : word parent color = parent + colorBit color := by
  obtain ⟨k, rfl⟩ := aligned
  have small : colorBit color < 2 ^ 2 := by cases color <;> decide
  exact (Nat.two_pow_add_eq_or_of_lt small k).symm

theorem wordParent_word (color : Color) : wordParent (word parent color) = parent := by
  rw [word_eq_add aligned, wordParent]
  obtain ⟨k, rfl⟩ := aligned
  cases color <;> simp only [colorBit] <;> omega

theorem wordIsBlack_word (color : Color) : wordIsBlack (word parent color) = decide (color = .black) := by
  rw [word_eq_add aligned, wordIsBlack, Nat.and_one_is_mod]
  obtain ⟨k, rfl⟩ := aligned
  cases color with
  | red | black => simp [colorBit]; omega

theorem word_red : word parent .red = parent := by
  rw [word_eq_add aligned]
  rfl

theorem word_ne {other : Nat} (color : Color) (aligned' : 4 ∣ other) (apart : parent ≠ other) :
    word parent color ≠ other := by
  rw [word_eq_add aligned]
  cases color with
  | red => exact apart
  | black =>
    simp only [colorBit]
    omega

omit aligned in
theorem word_or_black (color : Color) : word parent color ||| colorBit .black = word parent .black := by
  rw [word, word, Nat.or_assoc]
  cases color <;> rfl

omit aligned in
theorem word_and_one_or (color : Color) {other : Addr} (aligned : 4 ∣ parent) :
    (word parent color &&& 1) ||| other = word other color := by
  have bit : word parent color &&& 1 = colorBit color := by
    rw [word_eq_add aligned, Nat.and_one_is_mod]
    obtain ⟨k, rfl⟩ := aligned
    cases color <;> simp only [colorBit] <;> omega
  rw [bit, word, Nat.or_comm]

end Words

end RBTree

end HevTaskSystem
