import HevTaskSystem.Reactor.FdRegistry
import Mathlib.Data.List.Induction

/-! Tokens of registrations over whole histories of the registry of descriptors.

A history keeps the registry, how often the generation of each slot advanced, and the
registrations so far with the tokens they were given. The generation of a slot is the
number of its turns modulo the number of generations a token has room for, so two turns
of one slot have the same token exactly when they are a multiple of that number apart.
-/

set_option autoImplicit false

namespace HevTaskSystem

open Foundation FdRegistry

/-- One registration of a descriptor: its slot, the turn of the slot it began, its
socket and its token, and whether it has ended. -/
structure Registration (w : Nat) where
  idx : Nat
  turn : Nat
  socket : BitVec w
  token : BitVec w
  ended : Bool

def Registration.fd {w : Nat} (r : Registration w) : Int := fdBase + r.idx

/-- Only the registry is in the program: the turns and the registrations record what happened. -/
structure FdHistory (w : Nat) where
  registry : FdRegistry w
  turns : Nat → Nat
  registrations : List (Registration w)

inductive FdOp (w : Nat) where
  | socketToFd (memory more : Bool) (s : BitVec w)
  | fdCloseSocket (memory : Bool) (fd : Int)
  | fdReplace (memory more : Bool) (fd : Int) (s : BitVec w)
  | fdToSocket (memory : Bool) (fd : Int)
  | fdToToken (memory : Bool) (fd : Int)
  | tokenToSocket (memory : Bool) (token : BitVec w)

namespace FdHistory

variable {w : Nat}

def start (w : Nat) : FdHistory w := ⟨FdRegistry.empty w, fun _ => 0, []⟩

def close (registrations : List (Registration w)) (fd : Int) : List (Registration w) :=
  registrations.map fun r => if r.fd = fd then { r with ended := true } else r

def begin (registrations : List (Registration w)) (new : Registration w) : List (Registration w) :=
  if new.socket = invalidSocket w then registrations else registrations ++ [new]

/-- The slot takes a turn. The token of the registration that begins is what
`hev_sys_fd_to_token` returns for its descriptor. -/
def turn (h : FdHistory w) (registry : FdRegistry w) (idx : Nat) (s : BitVec w) : FdHistory w where
  registry := registry
  turns := Function.update h.turns idx (h.turns idx + 1)
  registrations := begin h.registrations
    ⟨idx, h.turns idx + 1, s, (registry.fdToToken true (fdBase + idx)).1, false⟩

end FdHistory

namespace FdOp

variable {w : Nat}

def apply (h : FdHistory w) : FdOp w → FdHistory w
  | .socketToFd memory more s =>
    let result := h.registry.socketToFd memory more s
    if result.1 < 0 then { h with registry := result.2 }
    else h.turn result.2 (indexFromFd result.1).toNat s
  | .fdCloseSocket memory fd =>
    { h with
      registry := (h.registry.fdCloseSocket memory fd).2
      registrations := FdHistory.close h.registrations fd }
  | .fdReplace memory more fd s =>
    let result := h.registry.fdReplace memory more fd s
    if result.1 = none then { h with registry := result.2 }
    else { h with registrations := FdHistory.close h.registrations fd }.turn result.2 (indexFromFd fd).toNat s
  | .fdToSocket memory fd => { h with registry := (h.registry.fdToSocket memory fd).2 }
  | .fdToToken memory fd => { h with registry := (h.registry.fdToToken memory fd).2 }
  | .tokenToSocket memory token => { h with registry := (h.registry.tokenToSocket memory token).2 }

def Unwrapped (h : FdHistory w) (op : FdOp w) : Prop := ∀ i, (op.apply h).turns i ≤ generations w

end FdOp

def fdSystem (w : Nat) : System (FdHistory w) (FdOp w) where
  init h := h = FdHistory.start w
  step h op next := next = op.apply h

/-- How the registrations of a history stand to the slots and their turns. -/
structure Records {w : Nat} (table : FdTable w) (turns : Nat → Nat) (registrations : List (Registration w)) :
    Prop where
  gens : ∀ i, (table.gen i).toNat = turns i % generations w
  made : ∀ r ∈ registrations, r.idx < maxFds ∧ 1 ≤ r.turn ∧ r.turn ≤ turns r.idx ∧ r.token = tokenOf w r.turn r.idx
  live : ∀ r ∈ registrations, r.ended = false →
    r.turn = turns r.idx ∧ table.socket r.idx = r.socket ∧ r.socket ≠ invalidSocket w
  ended : ∀ r ∈ registrations, r.ended = true → r.turn = turns r.idx → table.socket r.idx = invalidSocket w
  distinct : registrations.Pairwise fun a b => a.idx = b.idx → a.turn ≠ b.turn
  covers : ∀ i, table.socket i ≠ invalidSocket w → ∃ r ∈ registrations, r.idx = i ∧ r.ended = false

namespace Records

variable {w : Nat} {table : FdTable w} {turns : Nat → Nat} {registrations : List (Registration w)}
  {i : Nat} {s token : BitVec w}

theorem fd_eq_iff {r : Registration w} : r.fd = fdBase + i ↔ r.idx = i := by
  unfold Registration.fd
  omega

theorem mem_close {r : Registration w} (member : r ∈ FdHistory.close registrations (fdBase + i)) :
    r ∈ registrations ∧ r.idx ≠ i ∨
      ∃ before ∈ registrations, before.idx = i ∧ r = { before with ended := true } := by
  obtain ⟨before, there, rfl⟩ := List.mem_map.mp member
  split
  · rename_i same
    exact .inr ⟨before, there, fd_eq_iff.mp same, rfl⟩
  · rename_i other
    exact .inl ⟨there, fun here => other (fd_eq_iff.mpr here)⟩

theorem clear (records : Records table turns registrations) (i : Nat) :
    Records (table.clear i) turns (FdHistory.close registrations (fdBase + i)) where
  gens := records.gens
  made r member := by
    rcases mem_close member with ⟨there, -⟩ | ⟨before, there, -, rfl⟩
    · exact records.made r there
    · exact records.made before there
  live r member unended := by
    rcases mem_close member with ⟨there, other⟩ | ⟨before, -, -, rfl⟩
    · simpa [FdTable.clear, other] using records.live r there unended
    · exact Bool.noConfusion unended
  ended r member ended last := by
    rcases mem_close member with ⟨there, other⟩ | ⟨before, -, here, rfl⟩
    · simpa [FdTable.clear, other] using records.ended r there ended last
    · simp [FdTable.clear, here]
  distinct := by
    refine List.pairwise_map.mpr (records.distinct.imp fun {a b} apart => ?_)
    split <;> split <;> exact apart
  covers j there := by
    by_cases here : j = i
    · simp [FdTable.clear, here] at there
    · obtain ⟨r, member, index, unended⟩ := records.covers j (by simpa [FdTable.clear, here] using there)
      refine ⟨r, List.mem_map.mpr ⟨r, member, if_neg fun same => ?_⟩, index, unended⟩
      exact here (index.symm.trans (fd_eq_iff.mp same))

theorem mem_begin {r new : Registration w} :
    r ∈ FdHistory.begin registrations new ↔ r ∈ registrations ∨ new.socket ≠ invalidSocket w ∧ r = new := by
  unfold FdHistory.begin
  split <;> simp_all

theorem gen_put (wide : tokenBits < w) (current : (table.gen i).toNat = turns i % generations w) (s : BitVec w) :
    ((table.put i s).gen i).toNat = (turns i + 1) % generations w := by
  simp only [FdTable.put, Function.update_self, put_gen wide, current]
  rw [Nat.mod_add_mod]

theorem old (records : Records table turns registrations) (free : table.socket i = invalidSocket w)
    {r : Registration w} (member : r ∈ registrations) (here : r.idx = i) : r.ended = true ∧ r.turn < turns i + 1 := by
  refine ⟨?_, Nat.lt_succ_of_le (here ▸ (records.made r member).2.2.1)⟩
  cases ended : r.ended with
  | true => rfl
  | false =>
    obtain ⟨-, socket, valid⟩ := records.live r member ended
    exact absurd (socket.symm.trans (here ▸ free)) valid

theorem put (wide : tokenBits < w) (records : Records table turns registrations) (inside : i < maxFds)
    (free : table.socket i = invalidSocket w) (new : s ≠ invalidSocket w → token = tokenOf w (turns i + 1) i) :
    Records (table.put i s) (Function.update turns i (turns i + 1))
      (FdHistory.begin registrations ⟨i, turns i + 1, s, token, false⟩) where
  gens j := by
    by_cases here : j = i
    · subst here
      rw [Function.update_self, gen_put wide (records.gens j) s]
    · simpa [FdTable.put, here] using records.gens j
  made r member := by
    rcases mem_begin.mp member with there | ⟨valid, rfl⟩
    · obtain ⟨index, first, last, token⟩ := records.made r there
      refine ⟨index, first, ?_, token⟩
      by_cases here : r.idx = i
      · simp only [here, Function.update_self]
        exact Nat.le_of_lt (records.old free there here).2
      · simpa [here] using last
    · exact ⟨inside, Nat.succ_pos _, by simp, new valid⟩
  live r member unended := by
    rcases mem_begin.mp member with there | ⟨valid, rfl⟩
    · have other : r.idx ≠ i := fun here => by simp [(records.old free there here).1] at unended
      simpa [FdTable.put, other] using records.live r there unended
    · simpa [FdTable.put] using valid
  ended r member ended last := by
    rcases mem_begin.mp member with there | ⟨-, rfl⟩
    · by_cases here : r.idx = i
      · -- an older turn of this slot is not its last one any more
        have before := (records.old free there here).2
        simp only [here, Function.update_self] at last
        omega
      · simpa [FdTable.put, here] using records.ended r there ended (by simpa [here] using last)
    · exact Bool.noConfusion ended
  distinct := by
    unfold FdHistory.begin
    split
    · exact records.distinct
    · refine List.pairwise_append.mpr ⟨records.distinct, List.pairwise_singleton _ _, fun r there _ only here => ?_⟩
      obtain rfl := List.mem_singleton.mp only
      exact Nat.ne_of_lt (records.old free there here).2
  covers j there := by
    by_cases here : j = i
    · subst here
      have valid : s ≠ invalidSocket w := by simpa [FdTable.put] using there
      exact ⟨_, mem_begin.mpr (.inr ⟨valid, rfl⟩), rfl, rfl⟩
    · obtain ⟨r, member, rest⟩ := records.covers j (by simpa [FdTable.put, here] using there)
      exact ⟨r, mem_begin.mpr (.inl member), rest⟩

end Records

namespace FdHistory

variable {w : Nat} {h : FdHistory w} {registry : FdRegistry w} {i : Nat} {s : BitVec w}

structure Inv (h : FdHistory w) : Prop where
  ok : h.registry.Ok
  records : Records h.registry.table h.turns h.registrations

theorem start_inv : (start w).Inv where
  ok := FdRegistry.empty_ok
  records := by
    refine ⟨fun i => ?_, ?_, ?_, ?_, .nil, fun i there => ?_⟩
    · simp [start, FdRegistry.empty, table, slotAt, blankSlot]
    · exact fun _ none => absurd none List.not_mem_nil
    · exact fun _ none => absurd none List.not_mem_nil
    · exact fun _ none => absurd none List.not_mem_nil
    · exact absurd rfl there

theorem Inv.same (inv : h.Inv) (ok : registry.Ok) (same : registry.table = h.registry.table) :
    ({ h with registry := registry } : FdHistory w).Inv := by
  refine ⟨ok, ?_⟩
  show Records registry.table _ _
  exact same ▸ inv.records

theorem turn_token (wide : tokenBits < w) (inv : h.Inv) (ok : registry.Ok) (inside : i < maxFds)
    (put : registry.table = h.registry.table.put i s) (valid : s ≠ invalidSocket w) :
    (registry.fdToToken true (fdBase + i)).1 = tokenOf w (h.turns i + 1) i := by
  rw [fdToToken_eq ok true inside, put, if_pos (by simpa [FdTable.put] using valid)]
  exact token_eq wide _ _ (Records.gen_put wide (inv.records.gens i) s) inside

theorem Inv.turn (wide : tokenBits < w) (inv : h.Inv) (ok : registry.Ok) (inside : i < maxFds)
    (free : h.registry.table.socket i = invalidSocket w) (put : registry.table = h.registry.table.put i s) :
    (h.turn registry i s).Inv where
  ok := ok
  records := by
    have next := inv.records.put wide inside free (turn_token wide inv ok inside put)
    exact put ▸ next

theorem Inv.replace (wide : tokenBits < w) (inv : h.Inv) (ok : registry.Ok) (inside : i < maxFds)
    (put : registry.table = h.registry.table.put i s) :
    ({ h with registrations := close h.registrations (fdBase + i) }.turn registry i s).Inv where
  ok := ok
  records := by
    have free : (h.registry.table.clear i).socket i = invalidSocket w := by simp [FdTable.clear]
    have next := (inv.records.clear i).put wide inside free (turn_token wide inv ok inside put)
    rw [FdTable.clear_put] at next
    exact put ▸ next

theorem Inv.read (inv : h.Inv) {memory : Bool} (read : registry = h.registry.init memory) :
    ({ h with registry := registry } : FdHistory w).Inv := by
  obtain ⟨ok, same⟩ := init_spec memory inv.ok
  subst read
  exact inv.same ok same

theorem Inv.clear (inv : h.Inv) (ok : registry.Ok) (clear : registry.table = h.registry.table.clear i) :
    ({ h with registry := registry, registrations := close h.registrations (fdBase + i) } : FdHistory w).Inv where
  ok := ok
  records := clear ▸ inv.records.clear i

theorem Inv.close_outside (inv : h.Inv) {fd : Int} (outside : indexFromFd fd = -1) :
    close h.registrations fd = h.registrations := by
  unfold close
  conv_rhs => rw [← List.map_id h.registrations]
  refine List.map_congr_left fun r member => if_neg fun same => ?_
  have index := indexFromFd_base (inv.records.made r member).1
  rw [← Registration.fd, same, outside] at index
  omega

theorem Inv.step (wide : tokenBits < w) (inv : h.Inv) (op : FdOp w) : (op.apply h).Inv := by
  cases op with
  | socketToFd memory more s =>
    obtain ⟨ok, ⟨failed, same⟩ | ⟨i, inside, fd, -, free, put⟩⟩ := socketToFd_spec inv.ok memory more s
    · simp only [FdOp.apply, failed]
      exact inv.same ok same
    · have positive : ¬ fdBase + (i : Int) < 0 := by
        unfold fdBase
        omega
      simp only [FdOp.apply, fd, positive, if_false, indexFromFd_base inside, Int.toNat_natCast]
      exact inv.turn wide ok inside free put
  | fdCloseSocket memory fd =>
    obtain ⟨ok, ⟨outside, same⟩ | ⟨i, -, rfl, clear⟩⟩ := fdCloseSocket_spec inv.ok memory fd
    · simp only [FdOp.apply, inv.close_outside outside]
      exact inv.same ok same
    · exact inv.clear ok clear
  | fdReplace memory more fd s =>
    obtain ⟨ok, ⟨failed, same⟩ | ⟨i, inside, rfl, replaced, put⟩⟩ := fdReplace_spec inv.ok memory more fd s
    · simp only [FdOp.apply, failed, if_true]
      exact inv.same ok same
    · simp only [FdOp.apply, replaced, reduceCtorEq, if_false, indexFromFd_base inside, Int.toNat_natCast]
      exact inv.replace wide ok inside put
  | fdToSocket memory fd => exact inv.read (fdToSocket_snd _ memory fd)
  | fdToToken memory fd => exact inv.read (fdToToken_snd _ memory fd)
  | tokenToSocket memory token => exact inv.read (tokenToSocket_snd _ memory token)

theorem inv_run (wide : tokenBits < w) {ops : List (FdOp w)} (run : (fdSystem w).Run ops h) : h.Inv := by
  refine run.invariant Inv ?_ ?_
  · rintro _ rfl
    exact start_inv
  · rintro before op _ inv rfl
    exact inv.step wide op

/-- A registration keeps its place, its descriptor, its socket and its token, and stays
ended once it has ended. -/
def Persists (before after : List (Registration w)) : Prop :=
  ∀ (k : Nat) (r : Registration w), before[k]? = some r →
    ∃ ended, after[k]? = some { r with ended := r.ended || ended }

theorem Persists.refl (registrations : List (Registration w)) : Persists registrations registrations :=
  fun _ _ there => ⟨false, by simpa using there⟩

theorem Persists.trans {first second third : List (Registration w)} (one : Persists first second)
    (two : Persists second third) : Persists first third := by
  intro k r there
  obtain ⟨ended, there⟩ := one k r there
  obtain ⟨later, there⟩ := two k _ there
  exact ⟨ended || later, by simpa [Bool.or_assoc] using there⟩

theorem persists_close (registrations : List (Registration w)) (fd : Int) :
    Persists registrations (close registrations fd) := by
  intro k r there
  refine ⟨decide (r.fd = fd), ?_⟩
  rw [close, List.getElem?_map, there, Option.map_some]
  split <;> simp_all

theorem persists_begin (registrations : List (Registration w)) (new : Registration w) :
    Persists registrations (begin registrations new) := by
  intro k r there
  refine ⟨false, ?_⟩
  unfold begin
  split
  · simpa using there
  · rw [List.getElem?_append_left (List.getElem?_eq_some_iff.mp there).1]
    simpa using there

theorem persists_apply (h : FdHistory w) (op : FdOp w) :
    Persists h.registrations (op.apply h).registrations := by
  cases op with
  | socketToFd memory more s =>
    simp only [FdOp.apply]
    split
    · exact .refl _
    · exact persists_begin _ _
  | fdCloseSocket memory fd => exact persists_close _ _
  | fdReplace memory more fd s =>
    simp only [FdOp.apply]
    split
    · exact .refl _
    · exact (persists_close _ fd).trans (persists_begin _ _)
  | fdToSocket memory fd => exact .refl _
  | fdToToken memory fd => exact .refl _
  | tokenToSocket memory token => exact .refl _

/-- The tokens of all registrations name them: a token resolves to the socket of its
registration while that lasts and to no socket afterwards, it is what the descriptor
translates to, a descriptor with a socket has a registration, and no two registrations
have the same token. -/
structure Resolves (h : FdHistory w) : Prop where
  token : ∀ r ∈ h.registrations, ∀ memory,
    (h.registry.tokenToSocket memory r.token).1 = if r.ended then invalidSocket w else r.socket
  current : ∀ r ∈ h.registrations, r.ended = false → ∀ memory, (h.registry.fdToToken memory r.fd).1 = r.token
  registered : ∀ fd memory, (h.registry.fdToSocket memory fd).1 ≠ invalidSocket w →
    ∃ r ∈ h.registrations, r.fd = fd ∧ r.ended = false
  distinct : h.registrations.Pairwise fun a b => a.token ≠ b.token

theorem turn_eq {a b : Nat} (least : 1 ≤ a ∧ 1 ≤ b) (most : a ≤ generations w ∧ b ≤ generations w)
    (same : a % generations w = b % generations w) : a = b := by
  rcases Nat.lt_or_eq_of_le most.1 with first | first <;> rcases Nat.lt_or_eq_of_le most.2 with second | second
  · rwa [Nat.mod_eq_of_lt first, Nat.mod_eq_of_lt second] at same
  · rw [second, Nat.mod_self, Nat.mod_eq_of_lt first] at same
    omega
  · rw [first, Nat.mod_self, Nat.mod_eq_of_lt second] at same
    omega
  · omega

/-- What the token of a registration resolves to: the socket of the slot, when its present
turn has the generation of the registration. -/
theorem Inv.resolve (wide : tokenBits < w) (inv : h.Inv) {r : Registration w} (member : r ∈ h.registrations)
    (memory : Bool) :
    (h.registry.tokenToSocket memory r.token).1 =
      if h.turns r.idx % generations w = r.turn % generations w then h.registry.table.socket r.idx
      else invalidSocket w := by
  obtain ⟨inside, -, -, token⟩ := inv.records.made r member
  rw [token, tokenToSocket_eq inv.ok, tokenOf_index wide _ inside]
  refine if_congr ?_ rfl rfl
  rw [← BitVec.toNat_inj, tokenOf_gen wide _ inside, inv.records.gens]

theorem Inv.resolves (wide : tokenBits < w) (inv : h.Inv) (unwrapped : ∀ i, h.turns i ≤ generations w) :
    h.Resolves where
  token r member memory := by
    obtain ⟨-, first, last, -⟩ := inv.records.made r member
    rw [inv.resolve wide member memory]
    cases ended : r.ended with
    | false =>
      obtain ⟨turn, socket, -⟩ := inv.records.live r member ended
      rw [if_pos (by rw [turn]), socket]
      rfl
    | true =>
      rw [if_pos rfl]
      split
      · rename_i same
        have turn := turn_eq ⟨by omega, first⟩ ⟨unwrapped _, Nat.le_trans last (unwrapped _)⟩ same
        exact inv.records.ended r member ended turn.symm
      · rfl
  current r member unended memory := by
    obtain ⟨inside, -, -, token⟩ := inv.records.made r member
    obtain ⟨turn, socket, valid⟩ := inv.records.live r member unended
    rw [token, turn, Registration.fd, fdToToken_eq inv.ok memory inside, if_pos (socket ▸ valid)]
    exact token_eq wide _ _ (inv.records.gens _) inside
  registered fd memory there := by
    obtain none | ⟨i, -, rfl, socket⟩ := fdToSocket_eq inv.ok memory fd
    · exact absurd none there
    · obtain ⟨r, member, index, unended⟩ := inv.records.covers i (socket ▸ there)
      exact ⟨r, member, Records.fd_eq_iff.mpr index, unended⟩
  distinct := by
    refine inv.records.distinct.imp_of_mem fun {a b} left right apart same => ?_
    obtain ⟨insideA, firstA, lastA, tokenA⟩ := inv.records.made a left
    obtain ⟨insideB, firstB, lastB, tokenB⟩ := inv.records.made b right
    rw [tokenA, tokenB] at same
    have index : a.idx = b.idx := by
      rw [← tokenOf_index wide a.turn insideA, same, tokenOf_index wide b.turn insideB]
    have gen : a.turn % generations w = b.turn % generations w := by
      rw [← tokenOf_gen wide a.turn insideA, same, tokenOf_gen wide b.turn insideB]
    exact apart index (turn_eq ⟨firstA, firstB⟩ ⟨Nat.le_trans lastA (unwrapped _),
      Nat.le_trans lastB (unwrapped _)⟩ gen)

theorem unwrapped_run {ops : List (FdOp w)} (run : ((fdSystem w).restrict FdOp.Unwrapped).Run ops h) :
    ∀ i, h.turns i ≤ generations w := by
  refine run.invariant (fun h => ∀ i, h.turns i ≤ generations w) ?_ ?_
  · rintro _ rfl i
    exact Nat.zero_le _
  · rintro before op _ - ⟨unwrapped, rfl⟩
    exact unwrapped

theorem turns_apply (h : FdHistory w) (op : FdOp w) (i : Nat) : (op.apply h).turns i ≤ h.turns i + 1 := by
  have turned (j : Nat) : Function.update h.turns j (h.turns j + 1) i ≤ h.turns i + 1 := by
    rw [Function.update_apply]
    split
    · rename_i same
      exact Nat.le_of_eq (by rw [same])
    · exact Nat.le_succ _
  cases op with
  | socketToFd memory more s | fdReplace memory more fd s =>
    simp only [FdOp.apply]
    split
    · exact Nat.le_succ _
    · exact turned _
  | _ => exact Nat.le_succ _

theorem short_run (ops : List (FdOp w)) (short : ops.length ≤ generations w) :
    ((fdSystem w).restrict FdOp.Unwrapped).Run ops (ops.foldl FdOp.apply (start w)) ∧
      ∀ i, (ops.foldl FdOp.apply (start w)).turns i ≤ ops.length := by
  induction ops using List.reverseRecOn with
  | nil => exact ⟨.init rfl, fun i => Nat.le_refl _⟩
  | append_singleton ops op ih =>
    rw [List.length_append, List.length_singleton] at short ⊢
    rw [List.foldl_append, List.foldl_cons, List.foldl_nil]
    obtain ⟨run, turns⟩ := ih (by omega)
    have step (i : Nat) := Nat.le_trans (turns_apply (ops.foldl FdOp.apply (start w)) op i)
      (Nat.add_le_add_right (turns i) 1)
    exact ⟨.step run ⟨fun i => Nat.le_trans (step i) short, rfl⟩, step⟩

theorem replace_turn (inv : h.Inv) (inside : i < h.registry.slots.length) (started : h.registry.started = true) :
    let next := (FdOp.fdReplace true true (fdBase + i) s).apply h
    next.turns i = h.turns i + 1 ∧ next.registry.table.socket i = s ∧
      next.registry.slots.length = h.registry.slots.length ∧ next.registry.started = true := by
  have small := Nat.lt_of_lt_of_le inside inv.ok.bounded
  have here : ¬ (i : Int) < 0 := by omega
  have room : ¬ i ≥ h.registry.slots.length := by omega
  have init : h.registry.init true = h.registry := if_pos started
  have result : h.registry.fdReplace true true (fdBase + i) s =
      (some (h.registry.table.socket i), { h.registry with slots := h.registry.slots.modify i (·.put s) }) := by
    simp [fdReplace, indexFromFd_base small, here, init, room, table, slotAt, inside]
  simp only [FdOp.apply, result, reduceCtorEq, if_false, turn, indexFromFd_base small, Int.toNat_natCast]
  refine ⟨Function.update_self .., ?_, List.length_modify .., started⟩
  rw [table_put inside rfl]
  exact Function.update_self ..

theorem first_socket (valid : s ≠ invalidSocket w) :
    (FdRegistry.empty w).socketToFd true true s =
      (fdBase, ⟨true, (List.replicate initialCap (blankSlot w)).modify 0 (·.put s), 1⟩) := by
  have init : (FdRegistry.empty w).init true = ⟨true, List.replicate initialCap (blankSlot w), 0⟩ := rfl
  have free : (⟨true, List.replicate initialCap (blankSlot w), 0⟩ : FdRegistry w).findFree = some 0 :=
    findFree_first rfl rfl rfl
  rw [socketToFd, if_neg valid]
  simp only [init, free]
  rfl

theorem replaces_run (wide : tokenBits < w) {first : BitVec w} (valid : first ≠ invalidSocket w) (count : Nat) :
    ∃ h, (fdSystem w).Run (.socketToFd true true first :: List.replicate count (.fdReplace true true fdBase s)) h ∧
      h.turns 0 = count + 1 ∧ (h.registry.table.socket 0 = if count = 0 then first else s) ∧
      0 < h.registry.slots.length ∧ h.registry.started = true ∧
      ∃ r ∈ h.registrations, r.idx = 0 ∧ r.turn = 1 ∧ r.socket = first := by
  induction count with
  | zero =>
    have index : indexFromFd fdBase = 0 := by decide
    refine ⟨(FdOp.socketToFd true true first).apply (start w), .step (.init rfl) rfl, ?_⟩
    have positive : ¬ fdBase < 0 := by decide
    simp only [FdOp.apply, start, first_socket valid, positive, if_false, index]
    refine ⟨rfl, rfl, ?_, rfl, ?_⟩
    · show 0 < ((List.replicate initialCap (blankSlot w)).modify 0 (·.put first)).length
      rw [List.length_modify, List.length_replicate]
      decide
    · exact ⟨_, Records.mem_begin.mpr (.inr ⟨valid, rfl⟩), rfl, rfl, rfl⟩
  | succ count ih =>
    obtain ⟨h, run, turns, -, inside, started, r, member, index, one, socket⟩ := ih
    obtain ⟨turn, put, length, started⟩ := replace_turn (i := 0) (s := s) (inv_run wide run) inside started
    rw [List.replicate_succ', ← List.cons_append]
    refine ⟨_, .step run rfl, turn.trans (by rw [turns]), put, length ▸ inside, started, ?_⟩
    obtain ⟨k, there⟩ := List.getElem?_of_mem member
    obtain ⟨ended, there⟩ := persists_apply h (.fdReplace true true fdBase s) k r there
    exact ⟨_, List.mem_of_getElem? there, index, one, socket⟩

/-- A token of an ended registration resolves to the socket of a later one. -/
def Confuses (h : FdHistory w) : Prop :=
  ∃ first ∈ h.registrations, ∃ later ∈ h.registrations, first.ended = true ∧ later.ended = false ∧
    first.fd = later.fd ∧ first.socket ≠ later.socket ∧ first.token = later.token ∧
    ∀ memory, (h.registry.tokenToSocket memory first.token).1 = later.socket

theorem exists_confused (wide : tokenBits < w) (first later : BitVec w) (valid : first ≠ invalidSocket w)
    (laterValid : later ≠ invalidSocket w) (apart : first ≠ later) : ∃ ops h, (fdSystem w).Run ops h ∧ h.Confuses := by
  have nonzero : generations w ≠ 0 := Nat.ne_of_gt (Nat.two_pow_pos _)
  obtain ⟨h, run, turns, socket, -, -, r, member, index, one, firstSocket⟩ :=
    replaces_run (s := later) wide valid (generations w)
  rw [if_neg nonzero] at socket
  have inv := inv_run wide run
  obtain ⟨last, there, lastIndex, unended⟩ := inv.records.covers 0 (socket ▸ laterValid)
  obtain ⟨turn, lastSocket, -⟩ := inv.records.live last there unended
  rw [lastIndex] at turn lastSocket
  -- the generation has come round to the one of the first registration
  have round : h.turns 0 % generations w = 1 % generations w := by rw [turns, Nat.add_mod_left]
  have ended : r.ended = true := by
    cases ended : r.ended with
    | true => rfl
    | false =>
      have current := (inv.records.live r member ended).1
      rw [index] at current
      omega
  refine ⟨_, h, run, r, member, last, there, ended, unended, ?_, ?_, ?_, fun memory => ?_⟩
  · rw [Registration.fd, Registration.fd, index, lastIndex]
  · rw [firstSocket, ← lastSocket, socket]
    exact apart
  · rw [(inv.records.made r member).2.2.2, (inv.records.made last there).2.2.2, index, lastIndex, turn, one, tokenOf,
      tokenOf, round]
  · rw [inv.resolve wide member memory, index, one, if_pos round, lastSocket]

end FdHistory

/-- In every history in which no slot takes more turns than there are generations, the
tokens name their registrations, now and in every later state. -/
theorem tokens_name_registrations (w : Nat) (wide : tokenBits < w) {ops : List (FdOp w)} {h : FdHistory w}
    (run : ((fdSystem w).restrict FdOp.Unwrapped).Run ops h) :
    h.Resolves ∧ ∀ more later, (((fdSystem w).restrict FdOp.Unwrapped).startAt h).Run more later →
      later.Resolves ∧ FdHistory.Persists h.registrations later.registrations := by
  have resolves {ops : List (FdOp w)} {h : FdHistory w} (run : ((fdSystem w).restrict FdOp.Unwrapped).Run ops h) :
      h.Resolves :=
    (FdHistory.inv_run wide run.of_restrict).resolves wide (FdHistory.unwrapped_run run)
  refine ⟨resolves run, fun more later rest => ⟨resolves (run.append rest), ?_⟩⟩
  refine rest.invariant (fun later => FdHistory.Persists h.registrations later.registrations) ?_ ?_
  · rintro _ rfl
    exact .refl _
  · rintro before op _ persists ⟨-, rfl⟩
    exact persists.trans (FdHistory.persists_apply before op)

theorem tokens_name_registrations_reuse :
    let ops : List (FdOp 32) := [.socketToFd true true 5, .fdCloseSocket true fdBase, .socketToFd true true 6]
    let h := ops.foldl FdOp.apply (FdHistory.start 32)
    h.Resolves ∧ h.registrations.map (fun r => (r.idx, r.socket, r.token, r.ended)) =
      [(0, 5, 0x100000, true), (0, 6, 0x200000, false)] :=
  ⟨(tokens_name_registrations 32 (by decide) (FdHistory.short_run _ (by decide)).1).1, by decide +kernel⟩

/-- After as many replacements as there are generations, 4096 for words of 32 bits, the
token of the first registration names the socket of the last. -/
theorem stale_token_resolves :
    (∃ ops h, (fdSystem 32).Run ops h ∧ h.Confuses) ∧ ∃ ops h, (fdSystem 64).Run ops h ∧ h.Confuses :=
  ⟨FdHistory.exists_confused (by decide) 5 6 (by decide) (by decide) (by decide),
    FdHistory.exists_confused (by decide) 5 6 (by decide) (by decide) (by decide)⟩

end HevTaskSystem
