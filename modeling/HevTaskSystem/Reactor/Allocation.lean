import HevTaskSystem.Reactor.Tokens

/-! The registry of virtual descriptors hands out the lowest free one.

A search for a free slot begins at the hint. Every slot below the hint is in use: a close
lowers the hint to its slot, a new socket raises it by one slot, or to the capacity if no
slot was free, and a replacement puts a socket into its slot, wherever that is. The socket
that was last put into each slot is recorded beside the registry.
-/

set_option autoImplicit false

namespace HevTaskSystem

open Foundation FdRegistry

namespace FdRegistry

variable {w : Nat} {self next : FdRegistry w} {memory more : Bool} {i : Nat} {s : BitVec w}

def InUse (self : FdRegistry w) (i : Nat) : Prop := self.table.socket i ≠ invalidSocket w

/-- The hint is no slot past the end, and every slot below it is in use. -/
structure Hinted (registry : FdRegistry w) : Prop where
  within : registry.hint ≤ registry.slots.length
  used : ∀ i < registry.hint, registry.InUse i

/-- What growth leaves: the old slots as they were, and new ones without a socket. -/
structure Grown (before after : FdRegistry w) : Prop where
  kept : ∀ i < before.slots.length, after.slots[i]? = before.slots[i]?
  free : ∀ i, before.slots.length ≤ i → i < after.slots.length → after.slots[i]? = some (blankSlot w)

theorem growLocked_slots {need : Nat} (grown : self.growLocked more need = some next) :
    next.hint = self.hint ∧
      ∃ count, next.slots = self.slots ++ List.replicate count (blankSlot w) := by
  simp only [growLocked] at grown
  split_ifs at grown
  cases grown
  exact ⟨rfl, _, rfl⟩

theorem growLocked_grown {need : Nat} (grown : self.growLocked more need = some next) : Grown self next := by
  obtain ⟨-, count, slots⟩ := growLocked_slots grown
  refine ⟨fun i old => ?_, fun i new inside => ?_⟩
  · rw [slots, List.getElem?_append_left old]
  · rw [slots, List.length_append, List.length_replicate] at inside
    rw [slots, List.getElem?_append_right new, List.getElem?_replicate, if_pos (by omega)]

/-- The next slot can be had unless memory is short or the registry is full. -/
theorem growLocked_none (failed : self.growLocked more self.slots.length = none) :
    more = false ∨ maxFds ≤ self.slots.length := by
  simp only [growLocked] at failed
  split_ifs at failed with large full memory
  · exact .inr large
  · have room := (newCap_bounds self.slots.length (Nat.lt_of_not_le large)).1
    omega
  · exact .inl (by simpa using memory)

theorem not_inUse_of_le (past : self.slots.length ≤ i) : ¬ self.InUse i := by
  simp [InUse, table, slotAt, List.getElem?_eq_none past, blankSlot]

theorem free_iff (inside : i < self.slots.length) :
    (self.slots[i]?.any fun slot => slot.socket = invalidSocket w) = true ↔ ¬ self.InUse i := by
  simp [InUse, table, slotAt, List.getElem?_eq_getElem inside]

theorem findFree_least (hinted : self.Hinted) (found : self.findFree = some i) : ∀ j < i, self.InUse j := by
  intro j before
  obtain ⟨-, member, least⟩ := List.find?_range'_eq_some.mp found
  rw [List.mem_range'_1] at member
  by_cases below : j < self.hint
  · exact hinted.used j below
  · by_contra free
    have tested := least j (Nat.le_of_not_lt below) before
    rw [(free_iff (by omega)).mpr free] at tested
    cases tested

theorem findFree_none (hinted : self.Hinted) (full : self.findFree = none) : ∀ j < self.slots.length, self.InUse j := by
  intro j inside
  by_cases below : j < self.hint
  · exact hinted.used j below
  · by_contra free
    have tested := List.find?_range'_eq_none.mp full j (Nat.le_of_not_lt below) (by have := hinted.within; omega)
    rw [(free_iff inside).mpr free] at tested
    cases tested

/-! ## The operations keep the hint -/

theorem Hinted.congr (hinted : self.Hinted) (hint : next.hint = self.hint) (table : next.table = self.table)
    (length : self.slots.length ≤ next.slots.length) : next.Hinted where
  within := by
    rw [hint]
    exact Nat.le_trans hinted.within length
  used i below := by
    rw [hint] at below
    rw [InUse, table]
    exact hinted.used i below

theorem Hinted.init (hinted : self.Hinted) (ok : self.Ok) (memory : Bool) : (self.init memory).Hinted := by
  refine hinted.congr ?_ (init_spec memory ok).2 ?_
  · unfold FdRegistry.init
    split <;> rfl
  · unfold FdRegistry.init
    cases started : self.started with
    | true => exact Nat.le_refl _
    | false =>
      rw [ok.unstarted started]
      exact Nat.zero_le _

theorem Hinted.grow (hinted : self.Hinted) (started : self.started = true) {need : Nat}
    (grown : self.growLocked more need = some next) : next.Hinted := by
  obtain ⟨hint, count, slots⟩ := growLocked_slots grown
  refine hinted.congr hint (growLocked_spec started grown).2.1 ?_
  rw [slots, List.length_append]
  exact Nat.le_add_right _ _

theorem Hinted.put (hinted : self.Hinted) (table : next.table = self.table.put i s) (valid : s ≠ invalidSocket w)
    (hint : next.hint = self.hint) (length : next.slots.length = self.slots.length) : next.Hinted where
  within := by
    rw [hint, length]
    exact hinted.within
  used j below := by
    rw [hint] at below
    simp only [InUse, table, FdTable.put, Function.update_apply]
    split
    · exact valid
    · exact hinted.used j below

theorem Hinted.raise (used : ∀ j < i, self.InUse j) (inside : i < self.slots.length)
    (table : next.table = self.table.put i s) (valid : s ≠ invalidSocket w) (hint : next.hint = i + 1)
    (length : next.slots.length = self.slots.length) : next.Hinted where
  within := by
    rw [hint, length]
    exact inside
  used j below := by
    rw [hint] at below
    simp only [InUse, table, FdTable.put, Function.update_apply]
    split
    · exact valid
    · exact used j (by omega)

theorem Hinted.clear (hinted : self.Hinted) (inside : i < self.slots.length) (table : next.table = self.table.clear i)
    (hint : next.hint = if i < self.hint then i else self.hint) (length : next.slots.length = self.slots.length) :
    next.Hinted where
  within := by
    have := hinted.within
    rw [hint, length]
    split <;> omega
  used j below := by
    have other : j ≠ i ∧ j < self.hint := by
      rw [hint] at below
      split at below <;> omega
    simp only [InUse, table, FdTable.clear, Function.update_of_ne other.1]
    exact hinted.used j other.2

/-- How a search for a slot ends: with the first free one, or there is none and there cannot
be more. -/
def Searched (used : Nat → Prop) (capacity : Nat) (more : Bool) (result : Int) : Prop :=
  (∃ i < maxFds, result = fdBase + i ∧ ¬ used i ∧ ∀ j < i, used j) ∨
    result = -1 ∧ (∀ j < capacity, used j) ∧ (more = false ∨ capacity = maxFds)

theorem socketToFd_searched (ok : self.Ok) (hinted : self.Hinted) (valid : s ≠ invalidSocket w)
    (memory more : Bool) :
    (self.socketToFd memory more s).2.Hinted ∧
      Searched self.InUse (self.init memory).slots.length more (self.socketToFd memory more s).1 := by
  have started := init_started self memory
  have hinted := hinted.init ok memory
  obtain ⟨ok, same⟩ := init_spec memory ok
  have inUse : self.InUse = (self.init memory).InUse := funext fun i => by rw [InUse, InUse, same]
  unfold socketToFd
  rw [if_neg valid, inUse]
  generalize self.init memory = self at ok hinted started
  dsimp only
  cases found : self.findFree with
  | some i =>
    obtain ⟨inside, free⟩ := findFree_spec found
    have used := findFree_least hinted found
    refine ⟨Hinted.raise used inside (table_put inside rfl) valid rfl (List.length_modify ..),
      .inl ⟨i, ?_, rfl, ?_, used⟩⟩
    · exact Nat.lt_of_lt_of_le inside ok.bounded
    · exact fun inUse => inUse free
  | none =>
    have used := findFree_none hinted found
    dsimp only
    -- The hint is at the end now, as no slot is free.
    have full : ({ self with hint := self.slots.length } : FdRegistry w).Hinted := ⟨Nat.le_refl _, used⟩
    cases grown : ({ self with hint := self.slots.length } : FdRegistry w).growLocked more self.slots.length with
    | none =>
      refine ⟨full, .inr ⟨rfl, used, ?_⟩⟩
      exact (growLocked_none grown).imp_right fun most => Nat.le_antisymm ok.bounded most
    | some next =>
      have started' : ({ self with hint := self.slots.length } : FdRegistry w).started = true := started
      obtain ⟨okNext, kept, inside⟩ := growLocked_spec started' grown
      refine ⟨Hinted.raise (fun j before => ?_) inside (table_put inside rfl) valid rfl (List.length_modify ..),
        .inl ⟨self.slots.length, Nat.lt_of_lt_of_le inside okNext.bounded, rfl, not_inUse_of_le (Nat.le_refl _), used⟩⟩
      rw [InUse, kept]
      exact used j before

theorem socketToFd_hinted (ok : self.Ok) (hinted : self.Hinted) (memory more : Bool) (s : BitVec w) :
    (self.socketToFd memory more s).2.Hinted := by
  by_cases valid : s = invalidSocket w
  · rw [socketToFd, if_pos valid]
    exact hinted
  · exact (socketToFd_searched ok hinted valid memory more).1

theorem fdCloseSocket_hinted (ok : self.Ok) (hinted : self.Hinted) (memory : Bool) (fd : Int) :
    (self.fdCloseSocket memory fd).2.Hinted := by
  have hinted := hinted.init ok memory
  unfold fdCloseSocket
  generalize self.init memory = self at hinted
  rcases indexFromFd_eq fd with outside | ⟨i, inside, named, index⟩
  · rw [outside]
    exact hinted
  · have here : ¬ (i : Int) < 0 := by omega
    simp only [index, here, if_false, Int.toNat_natCast]
    cases there : self.slots[i]? with
    | none => exact hinted
    | some slot =>
      have within := (List.getElem?_eq_some_iff.mp there).1
      refine hinted.clear within (table_clear within rfl) ?_ (List.length_modify ..)
      simp only [Int.ofNat_lt]

theorem fdReplace_hinted (ok : self.Ok) (hinted : self.Hinted) (valid : s ≠ invalidSocket w) (memory more : Bool)
    (fd : Int) : (self.fdReplace memory more fd s).2.Hinted := by
  unfold fdReplace
  rcases indexFromFd_eq fd with outside | ⟨i, inside, named, index⟩
  · rw [outside]
    exact hinted
  · have here : ¬ (i : Int) < 0 := by omega
    simp only [index, here, if_false, Int.toNat_natCast]
    have started := init_started self memory
    have hinted := hinted.init ok memory
    generalize self.init memory = self at hinted started
    cases enough : if i ≥ self.slots.length then self.growLocked more i else some self with
    | none => exact hinted
    | some next =>
      have grown : next.Hinted ∧ i < next.slots.length := by
        split at enough
        · exact ⟨hinted.grow started enough, (growLocked_spec started enough).2.2⟩
        · cases enough
          exact ⟨hinted, by omega⟩
      exact grown.1.put (table_put grown.2 rfl) valid rfl (List.length_modify ..)

end FdRegistry

/-! ## Histories -/

/-- The registry with the socket that was last put into each slot and not closed since. The
record is no part of the program. -/
structure FdLog (w : Nat) where
  registry : FdRegistry w
  last : Nat → Option (BitVec w)

namespace FdOp

variable {w : Nat}

def log (h : FdLog w) : FdOp w → FdLog w
  | .socketToFd memory more s =>
    let result := h.registry.socketToFd memory more s
    ⟨result.2, if result.1 < 0 then h.last else Function.update h.last (indexFromFd result.1).toNat (some s)⟩
  | .fdCloseSocket memory fd =>
    ⟨(h.registry.fdCloseSocket memory fd).2,
      if indexFromFd fd < 0 then h.last else Function.update h.last (indexFromFd fd).toNat none⟩
  | .fdReplace memory more fd s =>
    let result := h.registry.fdReplace memory more fd s
    ⟨result.2, if result.1 = none then h.last else Function.update h.last (indexFromFd fd).toNat (some s)⟩
  | .fdToSocket memory fd => { h with registry := (h.registry.fdToSocket memory fd).2 }
  | .fdToToken memory fd => { h with registry := (h.registry.fdToToken memory fd).2 }
  | .tokenToSocket memory token => { h with registry := (h.registry.tokenToSocket memory token).2 }

/-- What `hev_sys_dup2` puts into a slot is a socket: it has checked the copy. -/
def Copies : FdOp w → Prop
  | .fdReplace _ _ _ s => s ≠ invalidSocket w
  | .socketToFd _ _ _ | .fdCloseSocket _ _ | .fdToSocket _ _ | .fdToToken _ _ | .tokenToSocket _ _ => True

end FdOp

def fdLogs (w : Nat) : System (FdLog w) (FdOp w) where
  init h := h = ⟨FdRegistry.empty w, fun _ => none⟩
  step h op next := op.Copies ∧ next = op.log h

namespace FdLog

variable {w : Nat} {h : FdLog w} {registry : FdRegistry w} {i : Nat} {s : BitVec w}

structure Inv (h : FdLog w) : Prop where
  ok : h.registry.Ok
  hinted : h.registry.Hinted
  last : ∀ i, h.registry.table.socket i = (h.last i).getD (invalidSocket w)
  valid : ∀ i s, h.last i = some s → s ≠ invalidSocket w

theorem Inv.start : Inv ⟨FdRegistry.empty w, fun _ => none⟩ where
  ok := FdRegistry.empty_ok
  hinted := ⟨Nat.le_refl _, fun _ below => absurd below (Nat.not_lt_zero _)⟩
  last _ := rfl
  valid _ _ none := by cases none

theorem Inv.inUse_iff (inv : h.Inv) : h.registry.InUse i ↔ h.last i ≠ none := by
  rw [InUse, inv.last i]
  cases last : h.last i with
  | none => simp
  | some s => simpa using inv.valid i s last

theorem Inv.same (inv : h.Inv) (ok : registry.Ok) (hinted : registry.Hinted)
    (table : registry.table = h.registry.table) : Inv ⟨registry, h.last⟩ :=
  ⟨ok, hinted, fun i => by rw [table]; exact inv.last i, inv.valid⟩

theorem Inv.put (inv : h.Inv) (ok : registry.Ok) (hinted : registry.Hinted)
    (table : registry.table = h.registry.table.put i s) (valid : s ≠ invalidSocket w) :
    Inv ⟨registry, Function.update h.last i (some s)⟩ where
  ok := ok
  hinted := hinted
  last j := by
    simp only [table, FdTable.put, Function.update_apply]
    split
    · rfl
    · exact inv.last j
  valid j other here := by
    simp only [Function.update_apply] at here
    split at here
    · cases here
      exact valid
    · exact inv.valid j other here

theorem Inv.clear (inv : h.Inv) (ok : registry.Ok) (hinted : registry.Hinted)
    (table : registry.table = h.registry.table.clear i) : Inv ⟨registry, Function.update h.last i none⟩ where
  ok := ok
  hinted := hinted
  last j := by
    simp only [table, FdTable.clear, Function.update_apply]
    split
    · rfl
    · exact inv.last j
  valid j other here := by
    simp only [Function.update_apply] at here
    split at here
    · cases here
    · exact inv.valid j other here

theorem Inv.read (inv : h.Inv) {memory : Bool} (read : registry = h.registry.init memory) : Inv ⟨registry, h.last⟩ := by
  obtain ⟨ok, same⟩ := init_spec memory inv.ok
  subst read
  exact inv.same ok (inv.hinted.init inv.ok memory) same

theorem Inv.step (inv : h.Inv) {op : FdOp w} (copies : op.Copies) : (op.log h).Inv := by
  cases op with
  | socketToFd memory more s =>
    have hinted := socketToFd_hinted inv.ok inv.hinted memory more s
    obtain ⟨ok, ⟨failed, same⟩ | ⟨i, inside, fd, valid, -, put⟩⟩ := socketToFd_spec inv.ok memory more s
    · simp only [FdOp.log, failed]
      exact inv.same ok hinted same
    · have positive : ¬ fdBase + (i : Int) < 0 := by
        unfold fdBase
        omega
      simp only [FdOp.log, fd, positive, if_false, indexFromFd_base inside, Int.toNat_natCast]
      exact inv.put ok hinted put valid
  | fdCloseSocket memory fd =>
    have hinted := fdCloseSocket_hinted inv.ok inv.hinted memory fd
    obtain ⟨ok, ⟨outside, same⟩ | ⟨i, inside, rfl, clear⟩⟩ := fdCloseSocket_spec inv.ok memory fd
    · simp only [FdOp.log, outside]
      exact inv.same ok hinted same
    · have positive : ¬ (i : Int) < 0 := by omega
      simp only [FdOp.log, indexFromFd_base inside, positive, if_false, Int.toNat_natCast]
      exact inv.clear ok hinted clear
  | fdReplace memory more fd s =>
    have hinted := fdReplace_hinted inv.ok inv.hinted copies memory more fd
    obtain ⟨ok, ⟨failed, same⟩ | ⟨i, inside, rfl, replaced, put⟩⟩ := fdReplace_spec inv.ok memory more fd s
    · simp only [FdOp.log, failed, if_true]
      exact inv.same ok hinted same
    · simp only [FdOp.log, replaced, reduceCtorEq, if_false, indexFromFd_base inside, Int.toNat_natCast]
      exact inv.put ok hinted put copies
  | fdToSocket memory fd => exact inv.read (fdToSocket_snd _ memory fd)
  | fdToToken memory fd => exact inv.read (fdToToken_snd _ memory fd)
  | tokenToSocket memory token => exact inv.read (tokenToSocket_snd _ memory token)

theorem inv_run {ops : List (FdOp w)} (run : (fdLogs w).Run ops h) : h.Inv := by
  refine run.invariant Inv ?_ ?_
  · rintro _ rfl
    exact .start
  · rintro before op _ inv ⟨copies, rfl⟩
    exact inv.step copies

/-- The registry hands out the lowest free descriptor and finds what was put there. -/
structure Allocates (h : FdLog w) : Prop where
  used : ∀ i < h.registry.hint, h.registry.InUse i
  bounds : h.registry.hint ≤ h.registry.slots.length ∧ h.registry.slots.length ≤ 2 ^ 20
  grows : ∀ more need next, h.registry.growLocked more need = some next → Grown h.registry next
  lowest : ∀ s, s ≠ invalidSocket w → ∀ memory more,
    Searched (fun i => h.last i ≠ none) (h.registry.init memory).slots.length more
      (h.registry.socketToFd memory more s).1
  finds : ∀ i s, h.last i = some s → ∀ memory, (h.registry.fdToSocket memory (fdBase + i)).1 = s

theorem Inv.finds (inv : h.Inv) (here : h.last i = some s) (memory : Bool) :
    (h.registry.fdToSocket memory (fdBase + i)).1 = s := by
  -- A slot in use lies inside the table.
  have inside : i < h.registry.slots.length := by
    by_contra past
    exact not_inUse_of_le (Nat.le_of_not_lt past) (inv.inUse_iff.mpr (by simp [here]))
  rw [fdToSocket_base inv.ok memory (Nat.lt_of_lt_of_le inside inv.ok.bounded), inv.last i, here, Option.getD_some]

theorem Inv.allocates (inv : h.Inv) : h.Allocates where
  used := inv.hinted.used
  bounds := ⟨inv.hinted.within, inv.ok.bounded⟩
  grows _ _ _ := growLocked_grown
  lowest s valid memory more := by
    have inUse : h.registry.InUse = fun i => h.last i ≠ none := funext fun i => propext inv.inUse_iff
    rw [← inUse]
    exact (socketToFd_searched inv.ok inv.hinted valid memory more).2
  finds _ _ here := inv.finds here

end FdLog

/-- In every history of the registry, whether memory could be had or not, all slots below the
hint are in use, growth keeps the slots, a new socket gets the lowest free descriptor and
fails only if there is none, and a descriptor leads to the socket last put there. -/
theorem registry_allocates_lowest {w : Nat} {ops : List (FdOp w)} {h : FdLog w} (run : (fdLogs w).Run ops h) :
    h.Allocates :=
  (FdLog.inv_run run).allocates

/-- Two sockets are registered, the first one is closed and one more is put at the descriptor
of index 300. The closed descriptor is the next one, and after it the one of index 2. -/
theorem registry_allocates_lowest_again : ∃ (ops : List (FdOp 64)) (h : FdLog 64), (fdLogs 64).Run ops h ∧
    h.last 0 = none ∧ h.last 1 = some 7 ∧ h.last 300 = some 9 ∧ h.registry.hint = 0 ∧
      (h.registry.socketToFd true true 11).1 = fdBase ∧
      ((h.registry.socketToFd true true 11).2.socketToFd true true 13).1 = fdBase + 2 ∧ h.Allocates := by
  have run : (fdLogs 64).Run [] ⟨FdRegistry.empty 64, fun _ => none⟩ := .init rfl
  have run := run.step (show (fdLogs 64).step _ (.socketToFd true true 5) _ from ⟨trivial, rfl⟩)
  have run := run.step (show (fdLogs 64).step _ (.socketToFd true true 7) _ from ⟨trivial, rfl⟩)
  have run := run.step (show (fdLogs 64).step _ (.fdCloseSocket true fdBase) _ from ⟨trivial, rfl⟩)
  have run := run.step (show (fdLogs 64).step _ (.fdReplace true true (fdBase + 300) 9) _ from
    ⟨show (9 : BitVec 64) ≠ invalidSocket 64 by decide, rfl⟩)
  refine ⟨_, _, run, ?_, ?_, ?_, ?_, ?_, ?_, registry_allocates_lowest run⟩
  all_goals decide +kernel

end HevTaskSystem
