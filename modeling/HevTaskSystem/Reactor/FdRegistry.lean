import HevTaskSystem.Foundation.Transition
import Mathlib.Algebra.Group.Nat.Defs

/-! The registry of virtual descriptors for Winsock sockets, and the tokens that name
one registration of a descriptor.

A slot keeps its socket and a generation that advances each time a socket is put into
the slot. A token packs the generation over the index of the slot, so it has only the
upper bits of a word for the generation. The operations hold the lock of the registry,
so each is one step; whether the memory for the slots could be had is an input.
-/

set_option autoImplicit false

namespace HevTaskSystem

open Foundation

structure RegSlot (w : Nat) where
  socket : BitVec w
  gen : BitVec w
  deriving DecidableEq

/-- The slots with their capacity, the hint of the next free slot, and whether they
were set up. -/
structure FdRegistry (w : Nat) where
  started : Bool
  slots : List (RegSlot w)
  hint : Nat
  deriving DecidableEq

namespace FdRegistry

variable {w : Nat}

def initialCap : Nat := 256

def maxFds : Nat := 2 ^ 20

def fdBase : Int := 0x40000000

def tokenBits : Nat := 20

def genMask (w : Nat) : BitVec w := ~~~ 0#w >>> tokenBits

def invalidSocket (w : Nat) : BitVec w := ~~~ 0#w

def blankSlot (w : Nat) : RegSlot w := ⟨invalidSocket w, 0⟩

def empty (w : Nat) : FdRegistry w := ⟨false, [], 0⟩

/-- The function `reg_init`; without memory the registry starts with no slots. -/
def init (self : FdRegistry w) (memory : Bool) : FdRegistry w :=
  if self.started then self
  else { self with
    started := true
    slots := if memory then List.replicate initialCap (blankSlot w) else [] }

def indexFromFd (fd : Int) : Int :=
  if fd < fdBase ∨ fd ≥ fdBase + maxFds then -1 else fd - fdBase

def newCap (capacity needIdx : Nat) : Nat :=
  let newCap := if capacity ≠ 0 then capacity * 2 else initialCap
  let newCap := if newCap ≤ needIdx then needIdx + 1 else newCap
  if newCap > maxFds then maxFds else newCap

/-- The function `reg_grow_locked`, with no result where the source returns -1. -/
def growLocked (self : FdRegistry w) (memory : Bool) (needIdx : Nat) : Option (FdRegistry w) :=
  if needIdx ≥ maxFds then none
  else
    let newCap := newCap self.slots.length needIdx
    if newCap ≤ self.slots.length then none
    else if !memory then none
    else some { self with
      slots := self.slots ++ List.replicate (newCap - self.slots.length) (blankSlot w) }

def fdToSocket (self : FdRegistry w) (memory : Bool) (fd : Int) : BitVec w × FdRegistry w :=
  let self := self.init memory
  let idx := indexFromFd fd
  if idx < 0 then (invalidSocket w, self)
  else
    match self.slots[idx.toNat]? with
    | some slot => (slot.socket, self)
    | none => (invalidSocket w, self)

def fdToToken (self : FdRegistry w) (memory : Bool) (fd : Int) : BitVec w × FdRegistry w :=
  let self := self.init memory
  let idx := indexFromFd fd
  if idx < 0 then (invalidSocket w, self)
  else
    match self.slots[idx.toNat]? with
    | some slot =>
      if slot.socket ≠ invalidSocket w then
        (slot.gen <<< tokenBits ||| BitVec.ofNat w idx.toNat, self)
      else (invalidSocket w, self)
    | none => (invalidSocket w, self)

def tokenToSocket (self : FdRegistry w) (memory : Bool) (token : BitVec w) : BitVec w × FdRegistry w :=
  let idx := (token &&& (1#w <<< tokenBits - 1#w)).toNat
  let self := self.init memory
  match self.slots[idx]? with
  | some slot => if slot.gen = token >>> tokenBits then (slot.socket, self) else (invalidSocket w, self)
  | none => (invalidSocket w, self)

end FdRegistry

def RegSlot.put {w : Nat} (slot : RegSlot w) (s : BitVec w) : RegSlot w :=
  ⟨s, (slot.gen + 1) &&& FdRegistry.genMask w⟩

namespace FdRegistry

variable {w : Nat}

def findFree (self : FdRegistry w) : Option Nat :=
  (List.range' self.hint (self.slots.length - self.hint)).find? fun i =>
    self.slots[i]?.any fun slot => slot.socket = invalidSocket w

/-- The function `hev_sys_socket_to_fd`. The flags say whether memory could be had for
the first slots and for more slots. -/
def socketToFd (self : FdRegistry w) (memory more : Bool) (s : BitVec w) : Int × FdRegistry w :=
  if s = invalidSocket w then (-1, self)
  else
    let self := self.init memory
    match self.findFree with
    | some i => (fdBase + i, { self with slots := self.slots.modify i (·.put s), hint := i + 1 })
    | none =>
      let oldCap := self.slots.length
      let self := { self with hint := oldCap }
      match self.growLocked more oldCap with
      | some self =>
        (fdBase + oldCap, { self with slots := self.slots.modify oldCap (·.put s), hint := oldCap + 1 })
      | none => (-1, self)

def fdCloseSocket (self : FdRegistry w) (memory : Bool) (fd : Int) : BitVec w × FdRegistry w :=
  let self := self.init memory
  let idx := indexFromFd fd
  if idx < 0 then (invalidSocket w, self)
  else
    match self.slots[idx.toNat]? with
    | some slot =>
      (slot.socket, { self with
        slots := self.slots.modify idx.toNat fun slot => { slot with socket := invalidSocket w }
        hint := if idx < self.hint then idx.toNat else self.hint })
    | none => (invalidSocket w, self)

/-- The function `hev_sys_fd_replace`: the socket it replaced, and no result where the
source returns -1. -/
def fdReplace (self : FdRegistry w) (memory more : Bool) (fd : Int) (s : BitVec w) :
    Option (BitVec w) × FdRegistry w :=
  let idx := indexFromFd fd
  if idx < 0 then (none, self)
  else
    let self := self.init memory
    match if idx.toNat ≥ self.slots.length then self.growLocked more idx.toNat else some self with
    | none => (none, self)
    | some self =>
      (self.slots[idx.toNat]?.map (·.socket), { self with slots := self.slots.modify idx.toNat (·.put s) })

end FdRegistry

/-- The registry as a table of all indices: an index past the capacity reads as a blank
slot, so growing the capacity does not show. -/
structure FdTable (w : Nat) where
  socket : Nat → BitVec w
  gen : Nat → BitVec w

namespace FdTable

variable {w : Nat}

def put (table : FdTable w) (i : Nat) (s : BitVec w) : FdTable w where
  socket := Function.update table.socket i s
  gen := Function.update table.gen i ((table.gen i + 1) &&& FdRegistry.genMask w)

def clear (table : FdTable w) (i : Nat) : FdTable w :=
  { table with socket := Function.update table.socket i (FdRegistry.invalidSocket w) }

theorem clear_put (table : FdTable w) (i : Nat) (s : BitVec w) : (table.clear i).put i s = table.put i s := by
  simp [clear, put]

theorem ext_slots {first second : FdTable w} (socket : ∀ i, first.socket i = second.socket i)
    (gen : ∀ i, first.gen i = second.gen i) : first = second := by
  cases first
  cases second
  simp only [FdTable.mk.injEq]
  exact ⟨funext socket, funext gen⟩

end FdTable

namespace FdRegistry

variable {w : Nat} {self next : FdRegistry w} {memory more : Bool} {fd : Int} {s : BitVec w} {i : Nat}

def slotAt (self : FdRegistry w) (i : Nat) : RegSlot w := self.slots[i]?.getD (blankSlot w)

def table (self : FdRegistry w) : FdTable w where
  socket i := (self.slotAt i).socket
  gen i := (self.slotAt i).gen

/-- There are no slots before the registry was set up, and never too many. -/
structure Ok (registry : FdRegistry w) : Prop where
  unstarted : registry.started = false → registry.slots = []
  bounded : registry.slots.length ≤ maxFds

theorem empty_ok : (empty w).Ok := ⟨fun _ => rfl, Nat.zero_le _⟩

theorem table_congr (same : ∀ i, next.slotAt i = self.slotAt i) : next.table = self.table :=
  FdTable.ext_slots (fun i => congrArg RegSlot.socket (same i)) fun i => congrArg RegSlot.gen (same i)

theorem table_append (count : Nat) (slots : next.slots = self.slots ++ List.replicate count (blankSlot w)) :
    next.table = self.table := by
  refine table_congr fun i => ?_
  rw [slotAt, slotAt, slots]
  by_cases old : i < self.slots.length
  · rw [List.getElem?_append_left old]
  · rw [List.getElem?_append_right (by omega), List.getElem?_eq_none (by omega : self.slots.length ≤ i),
      List.getElem?_replicate]
    split <;> rfl

theorem init_spec (memory : Bool) (ok : self.Ok) : (self.init memory).Ok ∧ (self.init memory).table = self.table := by
  unfold init
  cases started : self.started with
  | true => exact ⟨ok, rfl⟩
  | false =>
    have none := ok.unstarted started
    cases memory with
    | false => exact ⟨⟨fun _ => rfl, Nat.zero_le _⟩, table_append 0 (by simp [none])⟩
    | true =>
      refine ⟨⟨fun unstarted => Bool.noConfusion unstarted, ?_⟩, table_append initialCap ?_⟩
      · exact Nat.le_trans (Nat.le_of_eq List.length_replicate) (by decide)
      · rw [none]
        rfl

theorem init_started (self : FdRegistry w) (memory : Bool) : (self.init memory).started = true := by
  unfold init
  split
  · assumption
  · rfl

theorem Ok.modify (ok : self.Ok) {change : RegSlot w → RegSlot w} (slots : next.slots = self.slots.modify i change)
    (started : next.started = self.started) : next.Ok := by
  refine ⟨fun unstarted => ?_, ?_⟩
  · rw [slots, ok.unstarted (started ▸ unstarted)]
    simp
  · rw [slots, List.length_modify]
    exact ok.bounded

theorem newCap_bounds (capacity : Nat) {need : Nat} (small : need < maxFds) :
    need < newCap capacity need ∧ newCap capacity need ≤ maxFds := by
  simp only [newCap]
  split_ifs <;> omega

theorem growLocked_spec (started : self.started = true) {need : Nat}
    (grown : self.growLocked more need = some next) :
    next.Ok ∧ next.table = self.table ∧ need < next.slots.length := by
  simp only [growLocked] at grown
  split_ifs at grown with large full memory
  · obtain ⟨least, most⟩ := newCap_bounds self.slots.length (Nat.lt_of_not_le large)
    cases grown
    refine ⟨⟨fun unstarted => ?_, ?_⟩, table_append _ rfl, ?_⟩
    · exact absurd (started.symm.trans unstarted) (by decide)
    · simp only [List.length_append, List.length_replicate]
      omega
    · simp only [List.length_append, List.length_replicate]
      omega

theorem slotAt_modify (inside : i < self.slots.length) (change : RegSlot w → RegSlot w) (j : Nat)
    (slots : next.slots = self.slots.modify i change) :
    next.slotAt j = if j = i then change (self.slotAt i) else self.slotAt j := by
  rw [slotAt, slots, List.getElem?_modify]
  by_cases here : j = i
  · subst here
    simp [slotAt, List.getElem?_eq_getElem inside]
  · simp [slotAt, here, Ne.symm here]

theorem table_put (inside : i < self.slots.length) (slots : next.slots = self.slots.modify i (·.put s)) :
    next.table = self.table.put i s := by
  refine FdTable.ext_slots (fun j => ?_) fun j => ?_
  · simp only [table, FdTable.put, slotAt_modify inside _ j slots, Function.update_apply]
    split <;> rfl
  · simp only [table, FdTable.put, slotAt_modify inside _ j slots, Function.update_apply]
    split <;> rfl

theorem table_clear (inside : i < self.slots.length)
    (slots : next.slots = self.slots.modify i fun slot => { slot with socket := invalidSocket w }) :
    next.table = self.table.clear i := by
  refine FdTable.ext_slots (fun j => ?_) fun j => ?_
  · simp only [table, FdTable.clear, slotAt_modify inside _ j slots, Function.update_apply]
    split <;> rfl
  · simp only [table, FdTable.clear, slotAt_modify inside _ j slots]
    split
    · rename_i same
      rw [same]
    · rfl

theorem indexFromFd_eq (fd : Int) : indexFromFd fd = -1 ∨ ∃ i < maxFds, fd = fdBase + i ∧ indexFromFd fd = i := by
  unfold indexFromFd
  split
  · exact .inl rfl
  · refine .inr ⟨(fd - fdBase).toNat, ?_, ?_, ?_⟩ <;> omega

theorem indexFromFd_base (inside : i < maxFds) : indexFromFd (fdBase + i) = i := by
  unfold indexFromFd
  split <;> omega

theorem findFree_spec (found : self.findFree = some i) :
    i < self.slots.length ∧ self.table.socket i = invalidSocket w := by
  have here := List.find?_some found
  have member := List.mem_of_find?_eq_some found
  obtain ⟨slot, there, free⟩ := (Option.any_eq_true _ _).mp here
  refine ⟨(List.getElem?_eq_some_iff.mp there).1, ?_⟩
  simpa [table, slotAt, there] using free

theorem findFree_first {slot : RegSlot w} (hint : self.hint = 0) (first : self.slots[0]? = some slot)
    (free : slot.socket = invalidSocket w) : self.findFree = some 0 := by
  obtain ⟨count, length⟩ := Nat.exists_eq_succ_of_ne_zero (Nat.ne_of_gt (List.getElem?_eq_some_iff.mp first).1)
  rw [findFree, hint, length, Nat.sub_zero, Nat.succ_eq_add_one, List.range'_succ]
  exact List.find?_cons_of_pos (by simp [first, free])

theorem socketToFd_spec (ok : self.Ok) (memory more : Bool) (s : BitVec w) :
    (self.socketToFd memory more s).2.Ok ∧
      ((self.socketToFd memory more s).1 = -1 ∧ (self.socketToFd memory more s).2.table = self.table ∨
        ∃ i < maxFds, (self.socketToFd memory more s).1 = fdBase + i ∧ s ≠ invalidSocket w ∧
          self.table.socket i = invalidSocket w ∧
          (self.socketToFd memory more s).2.table = self.table.put i s) := by
  unfold socketToFd
  by_cases invalid : s = invalidSocket w
  · rw [if_pos invalid]
    exact ⟨ok, .inl ⟨rfl, rfl⟩⟩
  · rw [if_neg invalid]
    obtain ⟨ok, same⟩ := init_spec memory ok
    have started := init_started self memory
    rw [← same]
    generalize self.init memory = self at ok started
    dsimp only
    cases found : self.findFree with
    | some i =>
      obtain ⟨inside, free⟩ := findFree_spec found
      refine ⟨ok.modify rfl rfl, .inr ⟨i, Nat.lt_of_lt_of_le inside ok.bounded, rfl, invalid, free, table_put inside rfl⟩⟩
    | none =>
      dsimp only
      have started' : ({ self with hint := self.slots.length } : FdRegistry w).started = true := started
      cases grown : ({ self with hint := self.slots.length } : FdRegistry w).growLocked more self.slots.length with
      | none => exact ⟨⟨ok.unstarted, ok.bounded⟩, .inl ⟨rfl, rfl⟩⟩
      | some next =>
        obtain ⟨okNext, kept, inside⟩ := growLocked_spec started' grown
        refine ⟨okNext.modify rfl rfl, .inr ⟨_, Nat.lt_of_lt_of_le inside okNext.bounded, rfl, invalid, ?_, ?_⟩⟩
        · simp [table, slotAt, blankSlot]
        · exact (table_put inside rfl).trans (congrArg (fun table : FdTable w => table.put _ s) kept)

theorem fdCloseSocket_spec (ok : self.Ok) (memory : Bool) (fd : Int) :
    (self.fdCloseSocket memory fd).2.Ok ∧
      (indexFromFd fd = -1 ∧ (self.fdCloseSocket memory fd).2.table = self.table ∨
        ∃ i < maxFds, fd = fdBase + i ∧ (self.fdCloseSocket memory fd).2.table = self.table.clear i) := by
  obtain ⟨ok, same⟩ := init_spec memory ok
  unfold fdCloseSocket
  rw [← same]
  generalize self.init memory = self at ok
  rcases indexFromFd_eq fd with outside | ⟨i, inside, named, index⟩
  · rw [outside]
    exact ⟨ok, .inl ⟨rfl, rfl⟩⟩
  · have here : ¬ (i : Int) < 0 := by omega
    simp only [index, here, if_false, Int.toNat_natCast]
    cases there : self.slots[i]? with
    | none =>
      refine ⟨ok, .inr ⟨i, inside, named, FdTable.ext_slots (fun j => ?_) fun _ => rfl⟩⟩
      simp only [table, FdTable.clear, Function.update_apply]
      split
      · rename_i same
        simp [same, slotAt, there, blankSlot]
      · rfl
    | some slot =>
      exact ⟨ok.modify rfl rfl, .inr ⟨i, inside, named, table_clear (List.getElem?_eq_some_iff.mp there).1 rfl⟩⟩

theorem fdReplace_spec (ok : self.Ok) (memory more : Bool) (fd : Int) (s : BitVec w) :
    (self.fdReplace memory more fd s).2.Ok ∧
      ((self.fdReplace memory more fd s).1 = none ∧ (self.fdReplace memory more fd s).2.table = self.table ∨
        ∃ i < maxFds, fd = fdBase + i ∧ (self.fdReplace memory more fd s).1 = some (self.table.socket i) ∧
          (self.fdReplace memory more fd s).2.table = self.table.put i s) := by
  unfold fdReplace
  rcases indexFromFd_eq fd with outside | ⟨i, inside, named, index⟩
  · rw [outside]
    exact ⟨ok, .inl ⟨rfl, rfl⟩⟩
  · have here : ¬ (i : Int) < 0 := by omega
    simp only [index, here, if_false, Int.toNat_natCast]
    obtain ⟨ok, same⟩ := init_spec memory ok
    have started := init_started self memory
    rw [← same]
    generalize self.init memory = self at ok started
    cases enough : if i ≥ self.slots.length then self.growLocked more i else some self with
    | none => exact ⟨ok, .inl ⟨rfl, rfl⟩⟩
    | some next =>
      have grown : next.Ok ∧ next.table = self.table ∧ i < next.slots.length := by
        split at enough
        · exact growLocked_spec started enough
        · cases enough
          exact ⟨ok, rfl, by omega⟩
      obtain ⟨okNext, kept, length⟩ := grown
      refine ⟨okNext.modify rfl rfl, .inr ⟨i, inside, named, ?_, ?_⟩⟩
      · rw [← kept]
        simp [table, slotAt, List.getElem?_eq_getElem length]
      · exact (table_put length rfl).trans (congrArg (fun table : FdTable w => table.put i s) kept)

theorem fdToSocket_snd (self : FdRegistry w) (memory : Bool) (fd : Int) :
    (self.fdToSocket memory fd).2 = self.init memory := by
  simp only [fdToSocket]
  repeat' split
  all_goals rfl

theorem fdToToken_snd (self : FdRegistry w) (memory : Bool) (fd : Int) :
    (self.fdToToken memory fd).2 = self.init memory := by
  simp only [fdToToken]
  repeat' split
  all_goals rfl

theorem tokenToSocket_snd (self : FdRegistry w) (memory : Bool) (token : BitVec w) :
    (self.tokenToSocket memory token).2 = self.init memory := by
  simp only [tokenToSocket]
  repeat' split
  all_goals rfl

theorem fdToToken_eq (ok : self.Ok) (memory : Bool) (inside : i < maxFds) :
    (self.fdToToken memory (fdBase + i)).1 =
      if self.table.socket i ≠ invalidSocket w then
        self.table.gen i <<< tokenBits ||| BitVec.ofNat w i
      else invalidSocket w := by
  obtain ⟨-, same⟩ := init_spec memory ok
  have here : ¬ (i : Int) < 0 := by omega
  rw [← same]
  simp only [fdToToken, indexFromFd_base inside, here, if_false, Int.toNat_natCast, table, slotAt]
  rcases Option.eq_none_or_eq_some (self.init memory).slots[i]? with there | ⟨slot, there⟩
  · simp [there, blankSlot]
  · simp only [there, Option.getD_some]
    split <;> rfl

theorem fdToSocket_base (ok : self.Ok) (memory : Bool) (inside : i < maxFds) :
    (self.fdToSocket memory (fdBase + i)).1 = self.table.socket i := by
  obtain ⟨-, same⟩ := init_spec memory ok
  have here : ¬ (i : Int) < 0 := by omega
  rw [← same]
  simp only [fdToSocket, indexFromFd_base inside, here, if_false, Int.toNat_natCast, table, slotAt]
  cases (self.init memory).slots[i]? with
  | none => rfl
  | some slot => rfl

theorem fdToSocket_eq (ok : self.Ok) (memory : Bool) (fd : Int) :
    (self.fdToSocket memory fd).1 = invalidSocket w ∨
      ∃ i < maxFds, fd = fdBase + i ∧ (self.fdToSocket memory fd).1 = self.table.socket i := by
  rcases indexFromFd_eq fd with outside | ⟨i, inside, rfl, -⟩
  · rw [fdToSocket, outside]
    exact .inl rfl
  · exact .inr ⟨i, inside, rfl, fdToSocket_base ok memory inside⟩

theorem tokenToSocket_eq (ok : self.Ok) (memory : Bool) (token : BitVec w) :
    (self.tokenToSocket memory token).1 =
      if self.table.gen (token &&& (1#w <<< tokenBits - 1#w)).toNat = token >>> tokenBits then
        self.table.socket (token &&& (1#w <<< tokenBits - 1#w)).toNat
      else invalidSocket w := by
  obtain ⟨-, same⟩ := init_spec memory ok
  rw [← same]
  simp only [tokenToSocket, table, slotAt]
  generalize (token &&& (1#w <<< tokenBits - 1#w)).toNat = idx
  rcases Option.eq_none_or_eq_some (self.init memory).slots[idx]? with there | ⟨slot, there⟩
  · -- past the capacity a token of generation zero would find a blank slot, to the same effect
    simp [there, blankSlot]
  · simp only [there, Option.getD_some]
    split <;> rfl

section Tokens

variable (wide : tokenBits < w)

def generations (w : Nat) : Nat := 2 ^ (w - tokenBits)

def tokenOf (w : Nat) (turn i : Nat) : BitVec w :=
  BitVec.ofNat w (turn % generations w * 2 ^ tokenBits + i)

include wide

theorem two_pow_eq : 2 ^ w = generations w * 2 ^ tokenBits := by
  rw [generations, ← Nat.pow_add]
  congr 1
  omega

theorem genMask_toNat : (genMask w).toNat = generations w - 1 := by
  have split := two_pow_eq wide
  have positive : 0 < generations w := Nat.two_pow_pos _
  rw [genMask, BitVec.toNat_ushiftRight, BitVec.toNat_not, BitVec.toNat_ofNat, Nat.zero_mod, Nat.sub_zero,
    Nat.shiftRight_eq_div_pow, split]
  refine Nat.div_eq_of_lt_le ?_ ?_ <;> simp only [tokenBits] <;> omega

theorem put_gen (gen : BitVec w) : ((gen + 1) &&& genMask w).toNat = (gen.toNat + 1) % generations w := by
  rw [BitVec.toNat_and, genMask_toNat wide, generations, Nat.and_two_pow_sub_one_eq_mod, BitVec.toNat_add,
    Nat.mod_mod_of_dvd _ (Nat.pow_dvd_pow 2 (Nat.sub_le w tokenBits))]
  have one : (1 : BitVec w).toNat = 1 := by
    rw [BitVec.ofNat_eq_ofNat, BitVec.toNat_ofNat]
    exact Nat.mod_eq_of_lt (Nat.one_lt_two_pow (by omega))
  rw [one]

theorem tokenOf_toNat (turn : Nat) (inside : i < maxFds) :
    (tokenOf w turn i).toNat = turn % generations w * 2 ^ tokenBits + i := by
  have below : turn % generations w < generations w := Nat.mod_lt _ (Nat.two_pow_pos _)
  rw [tokenOf, BitVec.toNat_ofNat, two_pow_eq wide]
  refine Nat.mod_eq_of_lt ?_
  calc turn % generations w * 2 ^ tokenBits + i < turn % generations w * 2 ^ tokenBits + 2 ^ tokenBits := by
        exact Nat.add_lt_add_left inside _
    _ = (turn % generations w + 1) * 2 ^ tokenBits := by rw [Nat.add_mul, Nat.one_mul]
    _ ≤ generations w * 2 ^ tokenBits := Nat.mul_le_mul_right _ below

theorem token_eq (turn : Nat) (gen : BitVec w) (current : gen.toNat = turn % generations w) (inside : i < maxFds) :
    gen <<< tokenBits ||| BitVec.ofNat w i = tokenOf w turn i := by
  have whole := tokenOf_toNat wide turn inside
  have fits : turn % generations w * 2 ^ tokenBits + i < 2 ^ w := whole ▸ (tokenOf w turn i).isLt
  refine BitVec.eq_of_toNat_eq ?_
  rw [whole, BitVec.toNat_or, BitVec.toNat_shiftLeft, BitVec.toNat_ofNat, current, Nat.shiftLeft_eq,
    Nat.mod_eq_of_lt (by omega), Nat.mod_eq_of_lt (by omega : i < 2 ^ w), ← Nat.shiftLeft_eq,
    ← Nat.shiftLeft_add_eq_or_of_lt (i := tokenBits) inside, Nat.shiftLeft_eq]

theorem tokenOf_index (turn : Nat) (inside : i < maxFds) :
    (tokenOf w turn i &&& (1#w <<< tokenBits - 1#w)).toNat = i := by
  have small : 2 ^ tokenBits < 2 ^ w := Nat.pow_lt_pow_right (by decide) wide
  have one : 1 < 2 ^ w := Nat.one_lt_two_pow (by omega)
  have mask : (1#w <<< tokenBits - 1#w).toNat = 2 ^ tokenBits - 1 := by
    rw [BitVec.toNat_sub_of_le, BitVec.toNat_shiftLeft, BitVec.toNat_ofNat, Nat.mod_eq_of_lt one,
      Nat.shiftLeft_eq, Nat.one_mul, Nat.mod_eq_of_lt small]
    rw [BitVec.le_def, BitVec.toNat_shiftLeft, BitVec.toNat_ofNat, Nat.mod_eq_of_lt one,
      Nat.shiftLeft_eq, Nat.one_mul, Nat.mod_eq_of_lt small]
    exact Nat.one_le_two_pow
  rw [BitVec.toNat_and, mask, Nat.and_two_pow_sub_one_eq_mod, tokenOf_toNat wide turn inside, Nat.mul_comm,
    Nat.mul_add_mod, Nat.mod_eq_of_lt (show i < 2 ^ tokenBits from inside)]

theorem tokenOf_gen (turn : Nat) (inside : i < maxFds) :
    (tokenOf w turn i >>> tokenBits).toNat = turn % generations w := by
  rw [BitVec.toNat_ushiftRight, Nat.shiftRight_eq_div_pow, tokenOf_toNat wide turn inside, Nat.mul_comm,
    Nat.mul_add_div (Nat.two_pow_pos _), Nat.div_eq_of_lt (show i < 2 ^ tokenBits from inside), Nat.add_zero]

end Tokens

end FdRegistry

end HevTaskSystem
