import Mathlib.Data.List.Nodup
import Mathlib.Tactic.Common

/-! Red-black trees and their one-hole contexts.

Trees are given by their constructors and read in order. A context is the list
of frames met on the way up from its hole, so a subtree and its surroundings
can be described apart and put together again by `fill`. The shape of a node is
written from one side at a time; a statement about `side` covers both mirror
images.
-/

set_option autoImplicit false

namespace HevTaskSystem.Foundation.RedBlack

inductive Color where
  | red
  | black
  deriving DecidableEq, Repr

inductive Side where
  | left
  | right
  deriving DecidableEq, Repr

def Side.flip : Side → Side
  | .left => .right
  | .right => .left

@[simp] theorem Side.flip_flip (side : Side) : side.flip.flip = side := by cases side <;> rfl

@[simp, grind .] theorem Side.flip_ne (side : Side) : side.flip ≠ side := by cases side <;> decide

@[simp] theorem Side.ne_flip (side : Side) : side ≠ side.flip := by cases side <;> decide

theorem Side.eq_or_flip (side other : Side) : other = side ∨ other = side.flip := by
  cases side <;> cases other <;> decide

inductive Tree (α : Type) where
  | leaf
  | node (color : Color) (left : Tree α) (label : α) (right : Tree α)
  deriving DecidableEq, Repr

variable {α : Type}

namespace Tree

def toList : Tree α → List α
  | leaf => []
  | node _ left label right => left.toList ++ label :: right.toList

def color : Tree α → Color
  | leaf => .black
  | node color _ _ _ => color

def paint (color : Color) : Tree α → Tree α
  | leaf => leaf
  | node _ left label right => node color left label right

/-- A node whose child on `side` is `near` and whose other child is `far`. -/
def build (side : Side) (color : Color) (near : Tree α) (label : α) (far : Tree α) : Tree α :=
  match side with
  | .left => node color near label far
  | .right => node color far label near

def NoRedRed : Tree α → Prop
  | leaf => True
  | node color left _ right =>
    (color = .red → left.color = .black ∧ right.color = .black) ∧ left.NoRedRed ∧ right.NoRedRed

def blackCounts : Tree α → List Nat
  | leaf => [0]
  | node color left _ right =>
    (left.blackCounts ++ right.blackCounts).map fun k => if color = .black then k + 1 else k

structure Valid (t : Tree α) : Prop where
  root_black : t.color = .black
  no_red_red : t.NoRedRed
  same_count : ∃ n, ∀ k ∈ t.blackCounts, k = n

/-- Red-black conditions below the root, with the number of black nodes on every
path. A red root is allowed. -/
def Balanced : Tree α → Nat → Prop
  | leaf, n => n = 0
  | node .red left _ right, n =>
    left.Balanced n ∧ right.Balanced n ∧ left.color = .black ∧ right.color = .black
  | node .black left _ right, n => ∃ m, n = m + 1 ∧ left.Balanced m ∧ right.Balanced m

@[simp] theorem toList_leaf : (leaf : Tree α).toList = [] := rfl

@[simp] theorem color_leaf : (leaf : Tree α).color = .black := rfl

@[simp] theorem color_build (side : Side) (color : Color) (near : Tree α) (label : α)
    (far : Tree α) : (build side color near label far).color = color := by
  cases side <;> rfl

@[simp] theorem paint_leaf (color : Color) : (leaf : Tree α).paint color = leaf := rfl

@[simp] theorem paint_build (side : Side) (color other : Color) (near : Tree α) (label : α)
    (far : Tree α) :
    (build side color near label far).paint other = build side other near label far := by
  cases side <;> rfl

theorem paint_color (t : Tree α) : t.paint t.color = t := by
  cases t <;> rfl

theorem paint_black_of_color {t : Tree α} (black : t.color = .black) : t.paint .black = t := by
  rw [← black, paint_color]

@[simp] theorem color_paint_black (t : Tree α) : (t.paint .black).color = .black := by
  cases t <;> rfl

@[simp] theorem toList_paint (color : Color) (t : Tree α) : (t.paint color).toList = t.toList := by
  cases t <;> rfl

theorem node_eq_build (side : Side) (color : Color) (left : Tree α) (label : α) (right : Tree α) :
    ∃ near far, node color left label right = build side color near label far := by
  cases side with
  | left => exact ⟨left, right, rfl⟩
  | right => exact ⟨right, left, rfl⟩

theorem exists_build_of_red (side : Side) {t : Tree α} (red : t.color = .red) :
    ∃ label near far, t = build side .red near label far := by
  cases t with
  | leaf => cases red
  | node color left label right =>
    cases red
    obtain ⟨near, far, same⟩ := node_eq_build side .red left label right
    exact ⟨label, near, far, same⟩

@[grind =] theorem mem_build {side : Side} {color : Color} {near far : Tree α} {label a : α} :
    a ∈ (build side color near label far).toList ↔ a = label ∨ a ∈ near.toList ∨ a ∈ far.toList := by
  cases side <;> simp only [build, toList, List.mem_append, List.mem_cons] <;> tauto

theorem nodup_build {side : Side} {color : Color} {near far : Tree α} {label : α} :
    (build side color near label far).toList.Nodup ↔
      label ∉ near.toList ∧ label ∉ far.toList ∧ near.toList.Nodup ∧ far.toList.Nodup ∧
        near.toList.Disjoint far.toList := by
  cases side with
  | left =>
    simp only [build, toList, List.nodup_append', List.nodup_cons, List.disjoint_cons_right]
    tauto
  | right =>
    simp only [build, toList, List.nodup_append', List.nodup_cons, List.disjoint_cons_right]
    rw [List.disjoint_comm]
    tauto

theorem balanced_build_red {side : Side} {near far : Tree α} {label : α} {n : Nat} :
    (build side .red near label far).Balanced n ↔
      near.Balanced n ∧ far.Balanced n ∧ near.color = .black ∧ far.color = .black := by
  cases side with
  | left => rfl
  | right => simp only [build, Balanced]; tauto

theorem balanced_build_black {side : Side} {near far : Tree α} {label : α} {n : Nat} :
    (build side .black near label far).Balanced n ↔
      ∃ m, n = m + 1 ∧ near.Balanced m ∧ far.Balanced m := by
  cases side with
  | left => rfl
  | right =>
    simp only [build, Balanced]
    exact exists_congr fun m => and_congr_right fun _ => and_comm

@[simp] theorem balanced_leaf {n : Nat} : (leaf : Tree α).Balanced n ↔ n = 0 := Iff.rfl

theorem Balanced.paint_red {t : Tree α} {n : Nat} (balanced : t.Balanced n) (red : t.color = .red) :
    (t.paint .black).Balanced (n + 1) := by
  cases t with
  | leaf => cases red
  | node color left label right =>
    cases red
    exact ⟨n, rfl, balanced.1, balanced.2.1⟩

theorem Balanced.exists_node {t : Tree α} {n : Nat} (side : Side) (balanced : t.Balanced (n + 1)) :
    ∃ color near label far, t = build side color near label far := by
  cases t with
  | leaf => cases balanced
  | node color left label right =>
    obtain ⟨near, far, same⟩ := node_eq_build side color left label right
    exact ⟨color, near, label, far, same⟩

theorem Balanced.eq_leaf_of_black {t : Tree α} (balanced : t.Balanced 0) (black : t.color = .black) :
    t = leaf := by
  cases t with
  | leaf => rfl
  | node color left label right =>
    cases black
    obtain ⟨_, count, _⟩ := balanced
    cases count

theorem exists_blackCount (t : Tree α) : ∃ k, k ∈ t.blackCounts := by
  induction t with
  | leaf => exact ⟨0, by simp [blackCounts]⟩
  | node color left label right ihl _ =>
    obtain ⟨k, hk⟩ := ihl
    exact ⟨_, List.mem_map_of_mem (List.mem_append_left _ hk)⟩

theorem balanced_iff {t : Tree α} {n : Nat} :
    t.Balanced n ↔ t.NoRedRed ∧ ∀ k ∈ t.blackCounts, k = n := by
  induction t generalizing n with
  | leaf => simp [Balanced, NoRedRed, blackCounts, eq_comm]
  | node color left label right ihl ihr =>
    cases color with
    | red =>
      simp only [Balanced, NoRedRed, blackCounts, ihl, ihr, List.mem_map, List.mem_append]
      simp only [reduceCtorEq, if_false, exists_eq_right, forall_const]
      constructor
      · rintro ⟨⟨lr, lc⟩, ⟨rr, rc⟩, lb, rb⟩
        exact ⟨⟨⟨lb, rb⟩, lr, rr⟩, fun k hk => hk.elim (lc k) (rc k)⟩
      · rintro ⟨⟨⟨lb, rb⟩, lr, rr⟩, count⟩
        exact ⟨⟨lr, fun k hk => count k (.inl hk)⟩, ⟨rr, fun k hk => count k (.inr hk)⟩, lb, rb⟩
    | black =>
      simp only [Balanced, NoRedRed, blackCounts, ihl, ihr, List.mem_map, List.mem_append]
      simp only [reduceCtorEq, false_implies, if_true, true_and]
      constructor
      · rintro ⟨m, rfl, ⟨lr, lc⟩, rr, rc⟩
        refine ⟨⟨lr, rr⟩, ?_⟩
        rintro k ⟨j, hj, rfl⟩
        rw [hj.elim (lc j) (rc j)]
      · rintro ⟨⟨lr, rr⟩, count⟩
        -- Some path says what the common count is.
        obtain ⟨k, hk⟩ := exists_blackCount left
        have top := count (k + 1) ⟨k, .inl hk, rfl⟩
        refine ⟨k, top.symm, ⟨lr, fun j hj => ?_⟩, rr, fun j hj => ?_⟩
        · have := count (j + 1) ⟨j, .inl hj, rfl⟩
          omega
        · have := count (j + 1) ⟨j, .inr hj, rfl⟩
          omega

theorem blackCounts_build (side : Side) (color : Color) (near : Tree α) (label : α) (far : Tree α) :
    (build side color near label far).blackCounts.Perm
      ((near.blackCounts ++ far.blackCounts).map fun k => if color = .black then k + 1 else k) := by
  cases side with
  | left => exact List.Perm.refl _
  | right => exact List.perm_append_comm.map _

theorem Valid.of_balanced {t : Tree α} {n : Nat} (black : t.color = .black)
    (balanced : t.Balanced n) : t.Valid :=
  ⟨black, (balanced_iff.mp balanced).1, n, (balanced_iff.mp balanced).2⟩

theorem Valid.balanced {t : Tree α} (valid : t.Valid) : ∃ n, t.Balanced n := by
  obtain ⟨n, count⟩ := valid.same_count
  exact ⟨n, balanced_iff.mpr ⟨valid.no_red_red, count⟩⟩

def mirror : Tree α → Tree α
  | leaf => leaf
  | node color left label right => node color right.mirror label left.mirror

@[simp] theorem toList_mirror (t : Tree α) : t.mirror.toList = t.toList.reverse := by
  induction t with
  | leaf => rfl
  | node color left label right ihl ihr => simp [mirror, toList, ihl, ihr]

end Tree

open HevTaskSystem.Foundation.RedBlack.Tree

/-- One step up from a hole: the hole is the child on `side` of `label`. -/
structure Frame (α : Type) where
  side : Side
  color : Color
  label : α
  sibling : Tree α
  deriving DecidableEq, Repr

abbrev Context (α : Type) := List (Frame α)

namespace Context

def fill : Context α → Tree α → Tree α
  | [], t => t
  | f :: k, t => fill k (build f.side f.color t f.label f.sibling)

def before : Context α → List α
  | [] => []
  | ⟨.left, _, _, _⟩ :: k => before k
  | ⟨.right, _, label, sibling⟩ :: k => before k ++ (sibling.toList ++ [label])

def after : Context α → List α
  | [] => []
  | ⟨.left, _, label, sibling⟩ :: k => label :: sibling.toList ++ after k
  | ⟨.right, _, _, _⟩ :: k => after k

def labels : Context α → List α
  | [] => []
  | f :: k => f.label :: f.sibling.toList ++ labels k

def headColor : Context α → Option Color
  | [] => none
  | f :: _ => some f.color

/-- The hole takes a balanced tree with `n` black nodes on every path, and the
tree around it is then red-black, up to the colours at the hole itself. -/
def Hole : Context α → Nat → Prop
  | [], _ => True
  | ⟨_, .red, _, sibling⟩ :: k, n =>
    sibling.Balanced n ∧ sibling.color = .black ∧ headColor k = some .black ∧ Hole k n
  | ⟨_, .black, _, sibling⟩ :: k, n => sibling.Balanced n ∧ Hole k (n + 1)

def blackNodes : Context α → Nat
  | [] => 0
  | f :: k => blackNodes k + if f.color = .black then 1 else 0

def besideCounts : Context α → List Nat
  | [] => []
  | f :: k => f.sibling.blackCounts.map (· + blackNodes (f :: k)) ++ besideCounts k

theorem Hole.sibling {f : Frame α} {k : Context α} {n : Nat} (hole : Hole (f :: k) n) :
    f.sibling.Balanced n := by
  obtain ⟨side, color, label, sibling⟩ := f
  cases color <;> exact hole.1

@[simp] theorem fill_nil (t : Tree α) : fill [] t = t := rfl

@[simp] theorem fill_cons (f : Frame α) (k : Context α) (t : Tree α) :
    fill (f :: k) t = fill k (build f.side f.color t f.label f.sibling) := rfl

theorem fill_append (inner outer : Context α) (t : Tree α) :
    fill (inner ++ outer) t = fill outer (fill inner t) := by
  induction inner generalizing t with
  | nil => rfl
  | cons f k ih => exact ih _

theorem blackCounts_fill (k : Context α) (t : Tree α) :
    (fill k t).blackCounts.Perm (t.blackCounts.map (· + blackNodes k) ++ besideCounts k) := by
  induction k generalizing t with
  | nil => simp [blackNodes, besideCounts]
  | cons f k ih =>
    refine (ih _).trans ?_
    rw [besideCounts, ← List.append_assoc, ← List.map_append]
    refine List.Perm.append_right _ (((blackCounts_build ..).map _).trans (List.Perm.of_eq ?_))
    rw [List.map_map]
    refine List.map_congr_left fun c _ => ?_
    simp only [Function.comp_apply, blackNodes]
    split <;> omega

theorem Hole.besideCounts_eq {k : Context α} {n c : Nat} (hole : Hole k n) (beside : c ∈ besideCounts k) :
    c = n + blackNodes k := by
  induction k generalizing n with
  | nil => exact absurd beside List.not_mem_nil
  | cons f k ih =>
    rcases List.mem_append.mp beside with here | outer
    · obtain ⟨j, path, rfl⟩ := List.mem_map.mp here
      rw [(balanced_iff.mp hole.sibling).2 j path]
    · obtain ⟨side, color, label, sibling⟩ := f
      cases color with
      | red => simpa [blackNodes] using ih hole.2.2.2 outer
      | black =>
        have count := ih hole.2 outer
        simp only [blackNodes, if_true]
        omega

theorem toList_fill (k : Context α) (t : Tree α) :
    (fill k t).toList = before k ++ t.toList ++ after k := by
  induction k generalizing t with
  | nil => simp [before, after]
  | cons f k ih =>
    obtain ⟨side, color, label, sibling⟩ := f
    cases side <;> simp [ih, before, after, build, toList]

theorem toList_fill_node (k : Context α) (color : Color) (left : Tree α) (a : α) (right : Tree α) :
    (fill k (node color left a right)).toList =
      (before k ++ left.toList) ++ a :: (right.toList ++ after k) := by
  simp [toList_fill, toList]

theorem not_mem_of_nodup_fill {k : Context α} {color : Color} {left right : Tree α} {a : α}
    (nodup : (fill k (node color left a right)).toList.Nodup) :
    a ∉ before k ++ left.toList ∧ a ∉ right.toList ++ after k := by
  rw [toList_fill_node, List.nodup_append, List.nodup_cons] at nodup
  exact ⟨fun inside => nodup.2.2 a inside a List.mem_cons_self rfl, nodup.2.1.1⟩

theorem before_of_left {k : Context α} (down : ∀ f ∈ k, f.side = .left) : before k = [] := by
  induction k with
  | nil => rfl
  | cons f k ih =>
    obtain ⟨side, color, label, sibling⟩ := f
    obtain rfl : side = .left := down _ List.mem_cons_self
    exact ih fun f member => down f (List.mem_cons_of_mem _ member)

theorem toList_fill_congr (k : Context α) {t t' : Tree α} (order : t'.toList = t.toList) :
    (fill k t').toList = (fill k t).toList := by
  rw [toList_fill, toList_fill, order]

theorem mem_fill {k : Context α} {t : Tree α} {a : α} :
    a ∈ (fill k t).toList ↔ a ∈ labels k ∨ a ∈ t.toList := by
  induction k generalizing t with
  | nil => simp [labels]
  | cons f k ih =>
    rw [fill_cons, ih, mem_build]
    simp only [labels, List.cons_append, List.mem_cons, List.mem_append]
    tauto

theorem nodup_fill {k : Context α} {t : Tree α} :
    (fill k t).toList.Nodup ↔
      (labels k).Nodup ∧ t.toList.Nodup ∧ (labels k).Disjoint t.toList := by
  induction k generalizing t with
  | nil => simp [labels]
  | cons f k ih =>
    rw [fill_cons, ih, nodup_build]
    have split : (labels k).Disjoint (build f.side f.color t f.label f.sibling).toList ↔
        f.label ∉ labels k ∧ (labels k).Disjoint t.toList ∧
          (labels k).Disjoint f.sibling.toList := by
      simp only [List.Disjoint, mem_build]
      constructor
      · intro apart
        exact ⟨fun h => apart h (.inl rfl), fun _ h h' => apart h (.inr (.inl h')),
          fun _ h h' => apart h (.inr (.inr h'))⟩
      · rintro ⟨top, inner, outer⟩ a h (rfl | h' | h')
        · exact top h
        · exact inner h h'
        · exact outer h h'
    rw [split]
    simp only [labels, List.cons_append, List.nodup_cons, List.nodup_append', List.mem_append,
      List.disjoint_cons_left, List.disjoint_append_left, not_or]
    rw [@List.disjoint_comm _ t.toList f.sibling.toList,
      @List.disjoint_comm _ (labels k) f.sibling.toList]
    tauto

theorem balanced_fill {k : Context α} {t : Tree α} {n : Nat} (hole : Hole k n)
    (balanced : t.Balanced n) (fits : t.color = .black ∨ headColor k = some .black)
    (root : k = [] → t.color = .black) : (fill k t).Valid := by
  induction k generalizing t n with
  | nil => exact .of_balanced (root rfl) balanced
  | cons f k ih =>
    obtain ⟨side, color, label, sibling⟩ := f
    cases color with
    | red =>
      obtain ⟨hs, hb, hk, hole⟩ := hole
      have black : t.color = .black := fits.resolve_right (by simp [headColor])
      refine ih hole (balanced_build_red.mpr ⟨balanced, hs, black, hb⟩) (.inr hk) ?_
      rintro rfl
      simp [headColor] at hk
    | black =>
      obtain ⟨hs, hole⟩ := hole
      exact ih hole (balanced_build_black.mpr ⟨n, rfl, balanced, hs⟩)
        (.inl (color_build ..)) fun _ => color_build ..

theorem valid_fill_node {f : Frame α} {k : Context α} {n : Nat} (hole : Hole (f :: k) n) (side : Side)
    (label : α) {near far : Tree α} (nearBalanced : near.Balanced n) (farBalanced : far.Balanced n)
    (nearBlack : near.color = .black) (farBlack : far.color = .black) :
    (fill k (build side f.color near label far)).Valid := by
  have other : Hole (⟨side, f.color, label, far⟩ :: k) n := by
    obtain ⟨_, color, _, sibling⟩ := f
    cases color with
    | red => exact ⟨farBalanced, farBlack, hole.2.2⟩
    | black => exact ⟨farBalanced, hole.2⟩
  rw [← fill_cons ⟨side, f.color, label, far⟩]
  exact balanced_fill other nearBalanced (.inl nearBlack) nofun

theorem split_of_valid {k : Context α} {t : Tree α} (valid : (fill k t).Valid) :
    ∃ n, Hole k n ∧ t.Balanced n ∧ (t.color = .red → headColor k = some .black) := by
  induction k generalizing t with
  | nil =>
    obtain ⟨n, balanced⟩ := valid.balanced
    refine ⟨n, True.intro, balanced, fun red => ?_⟩
    have black := valid.root_black
    rw [fill_nil, red] at black
    cases black
  | cons f k ih =>
    obtain ⟨side, color, label, sibling⟩ := f
    obtain ⟨n, hole, balanced, above⟩ := ih valid
    cases color with
    | red =>
      obtain ⟨ht, hs, tb, sb⟩ := balanced_build_red.mp balanced
      refine ⟨n, ⟨hs, sb, above (color_build ..), hole⟩, ht, fun red => ?_⟩
      rw [tb] at red
      cases red
    | black =>
      obtain ⟨m, rfl, ht, hs⟩ := balanced_build_black.mp balanced
      exact ⟨m, ⟨hs, hole⟩, ht, fun _ => rfl⟩

theorem valid_relabel {k : Context α} {color : Color} {left right : Tree α} {a : α} (b : α)
    (valid : (fill k (node color left a right)).Valid) : (fill k (node color left b right)).Valid := by
  obtain ⟨n, hole, balanced, below⟩ := split_of_valid valid
  have fits : color = .black ∨ headColor k = some .black := by
    cases color with
    | red => exact .inr (below rfl)
    | black => exact .inl rfl
  refine @balanced_fill _ _ (node color left b right) _ hole ?_ fits ?_
  · cases color <;> exact balanced
  · rintro rfl
    exact valid.root_black

/-- Putting the only child of a node in its place, painted black. The tree stays
valid unless the node was black and had no child. -/
theorem valid_remove {k : Context α} {side : Side} {color : Color} {a : α} {t : Tree α}
    (valid : (fill k (build side color leaf a t)).Valid) :
    (t = leaf ∧ color = .black ∧ Hole k 1) ∨
      ((t = leaf ↔ color = .red) ∧ (fill k (t.paint .black)).Valid) := by
  obtain ⟨n, hole, balanced, below⟩ := split_of_valid valid
  cases color with
  | red =>
    obtain ⟨rfl, child, _, black⟩ := balanced_build_red.mp balanced
    obtain rfl := child.eq_leaf_of_black black
    exact .inr ⟨by simp, balanced_fill hole rfl (.inl rfl) fun _ => rfl⟩
  | black =>
    obtain ⟨m, rfl, rfl, child⟩ := balanced_build_black.mp balanced
    by_cases empty : t = leaf
    · exact .inl ⟨empty, rfl, hole⟩
    · have red : t.color = .red := by
        cases color : t.color with
        | red => rfl
        | black => exact absurd (child.eq_leaf_of_black color) empty
      exact .inr ⟨by simp [empty], balanced_fill hole (child.paint_red red) (.inl (color_paint_black t))
        fun _ => color_paint_black t⟩

theorem exists_context {t : Tree α} {a : α} (member : a ∈ t.toList) :
    ∃ k color left right, t = fill k (node color left a right) := by
  induction t with
  | leaf => simp at member
  | node color left label right ihl ihr =>
    simp only [toList, List.mem_append, List.mem_cons] at member
    rcases member with inside | rfl | inside
    · obtain ⟨k, c, l, r, same⟩ := ihl inside
      exact ⟨k ++ [⟨.left, color, label, right⟩], c, l, r, by rw [fill_append, ← same]; rfl⟩
    · exact ⟨[], color, left, right, rfl⟩
    · obtain ⟨k, c, l, r, same⟩ := ihr inside
      exact ⟨k ++ [⟨.right, color, label, left⟩], c, l, r, by rw [fill_append, ← same]; rfl⟩

theorem exists_leftmost (color : Color) (left : Tree α) (label : α) (right : Tree α) :
    ∃ k c a r, node color left label right = fill k (node c .leaf a r) ∧
      ∀ f ∈ k, f.side = .left := by
  induction left generalizing color label right with
  | leaf => exact ⟨[], color, label, right, rfl, by simp⟩
  | node c l a r ihl _ =>
    obtain ⟨k, c', a', r', same, down⟩ := ihl c a r
    refine ⟨k ++ [⟨.left, color, label, right⟩], c', a', r', by rw [fill_append, ← same]; rfl, ?_⟩
    intro f member
    rcases List.mem_append.mp member with inside | last
    · exact down f inside
    · rw [List.mem_singleton.mp last]

end Context

end HevTaskSystem.Foundation.RedBlack
