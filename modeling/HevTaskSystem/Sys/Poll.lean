import HevTaskSystem.Reactor.FdRegistry
import Mathlib.Data.List.Basic

/-! The function `poll` of the Windows layer, over `WSAPoll`.

`WSAPoll` fails if one entry is no socket, so only the entries that name a socket are
passed to it, and what it reports is written back through a map of their indices. The result
is that of a `poll` which looks at each entry by itself.
-/

set_option autoImplicit false

namespace HevTaskSystem

open FdRegistry

structure SysPollFd where
  fd : Int
  events : Nat
  revents : Nat
  deriving DecidableEq

structure WsaPollFd (w : Nat) where
  fd : BitVec w
  events : Nat
  revents : Nat
  deriving DecidableEq

def pollNval : Nat := 4

/-- The value of `errno`: `EINVAL`, `ENOMEM` or that of a Winsock error. -/
inductive SysPollError where
  | einval | enomem | wsa
  deriving DecidableEq

structure SysPoll (w : Nat) where
  fds : Nat → SysPollFd
  native : Nat → WsaPollFd w
  map : Nat → Nat
  invalid : Nat
  valid : Nat

/-- The entries, the value or error returned, and the time for which the call waits at most. -/
structure SysPollResult where
  fds : Nat → SysPollFd
  result : Except SysPollError Nat
  waits : Int

namespace SysPoll

variable {w : Nat}

def setRevents (fds : Nat → SysPollFd) (i revents : Nat) : Nat → SysPollFd :=
  Function.update fds i { fds i with revents }

/-- The first loop for one entry, with the answer of `hev_sys_fd_to_socket`. -/
def scan (socket : Nat → BitVec w) (self : SysPoll w) (i : Nat) : SysPoll w :=
  let self := { self with fds := setRevents self.fds i 0 }
  if (self.fds i).fd < 0 then self
  else if socket i = invalidSocket w then
    { self with fds := setRevents self.fds i pollNval, invalid := self.invalid + 1 }
  else
    { self with
      native := Function.update self.native self.valid ⟨socket i, (self.fds i).events, 0⟩
      map := Function.update self.map self.valid i
      valid := self.valid + 1 }

def copyBack (native : Nat → WsaPollFd w) (map : Nat → Nat) (fds : Nat → SysPollFd) (i : Nat) : Nat → SysPollFd :=
  setRevents fds (map i) (native i).revents

/-- The function `WSAPoll`: the conditions of the sockets that were asked for. -/
def wsaPoll (ready : BitVec w → Nat → Nat) (native : Nat → WsaPollFd w) (valid : Nat) : (Nat → WsaPollFd w) × Nat :=
  let native := fun i =>
    if i < valid then { native i with revents := ready (native i).fd (native i).events } else native i
  (native, (List.range valid).countP fun i => (native i).revents ≠ 0)

/-- The function `hev_sys_poll` after the first loop; `WSAPoll` may fail. -/
def finish (self : SysPoll w) (wsa : Option (BitVec w → Nat → Nat)) (timeout : Int) : SysPollResult :=
  if self.valid = 0 then ⟨self.fds, .ok self.invalid, if self.invalid = 0 then timeout else 0⟩
  else
    let waits := if self.invalid ≠ 0 then 0 else timeout
    match wsa with
    | none => ⟨self.fds, .error .wsa, waits⟩
    | some ready =>
      let (native, res) := wsaPoll ready self.native self.valid
      ⟨(List.range self.valid).foldl (copyBack native self.map) self.fds, .ok (res + self.invalid), waits⟩

/-- The function `hev_sys_poll`. The buffers are on the stack for up to 64 entries. -/
def hevSysPoll (null memory : Bool) (socket : Nat → BitVec w) (wsa : Option (BitVec w → Nat → Nat))
    (native : Nat → WsaPollFd w) (map : Nat → Nat) (fds : Nat → SysPollFd) (nfds timeout : Int) : SysPollResult :=
  if nfds < 0 ∨ nfds > 0 ∧ null then ⟨fds, .error .einval, 0⟩
  else if nfds > 64 ∧ ¬ memory then ⟨fds, .error .enomem, 0⟩
  else ((List.range nfds.toNat).foldl (scan socket) ⟨fds, native, map, 0, 0⟩).finish wsa timeout

/-! ## Each entry by itself -/

def bad (socket : Nat → BitVec w) (fds : Nat → SysPollFd) (i : Nat) : Bool :=
  ¬ (fds i).fd < 0 ∧ socket i = invalidSocket w

def chosen (socket : Nat → BitVec w) (fds : Nat → SysPollFd) (i : Nat) : Bool :=
  ¬ (fds i).fd < 0 ∧ socket i ≠ invalidSocket w

/-- The conditions of one entry: none if it is to be ignored, `POLLNVAL` if it names no socket. -/
def condition (socket : Nat → BitVec w) (ready : BitVec w → Nat → Nat) (fds : Nat → SysPollFd) (i : Nat) : Nat :=
  if (fds i).fd < 0 then 0
  else if socket i = invalidSocket w then pollNval
  else ready (socket i) (fds i).events

structure Scanned (socket : Nat → BitVec w) (fds : Nat → SysPollFd) (n : Nat) (poll : SysPoll w) : Prop where
  entry : ∀ i, poll.fds i = if i < n then { fds i with revents := if bad socket fds i then pollNval else 0 } else fds i
  invalid : poll.invalid = (List.range n).countP (bad socket fds)
  native : ∀ k < poll.valid, poll.native k = ⟨socket (poll.map k), (fds (poll.map k)).events, 0⟩
  order : (List.range poll.valid).map poll.map = (List.range n).filter (chosen socket fds)

variable {socket : Nat → BitVec w} {ready : BitVec w → Nat → Nat} {fds : Nat → SysPollFd} {self : SysPoll w} {n : Nat}

theorem Scanned.zero (native : Nat → WsaPollFd w) (map : Nat → Nat) :
    Scanned socket fds 0 ⟨fds, native, map, 0, 0⟩ := by
  refine ⟨fun i => ?_, rfl, fun k less => ?_, rfl⟩
  · simp
  · exact absurd less (Nat.not_lt_zero k)

theorem countP_range_succ (p : Nat → Bool) (n : Nat) :
    (List.range (n + 1)).countP p = (List.range n).countP p + if p n then 1 else 0 := by
  rw [List.range_succ, List.countP_append]
  cases here : p n <;> simp [here]

section Step

variable (scanned : Scanned socket fds n self)

include scanned

theorem Scanned.entry_succ {revents : Nat} (last : revents = if bad socket fds n then pollNval else 0) (i : Nat) :
    setRevents self.fds n revents i =
      if i < n + 1 then { fds i with revents := if bad socket fds i then pollNval else 0 } else fds i := by
  by_cases same : i = n
  · subst same
    have here : self.fds i = fds i := by simpa using scanned.entry i
    simp [setRevents, here, last]
  · rw [setRevents, Function.update_of_ne same, scanned.entry i]
    have bounds : i < n ↔ i < n + 1 := by omega
    simp only [bounds]

theorem Scanned.skip {revents invalid : Nat} (last : revents = if bad socket fds n then pollNval else 0)
    (count : invalid = self.invalid + if bad socket fds n then 1 else 0) (skipped : chosen socket fds n = false) :
    Scanned socket fds (n + 1) { self with fds := setRevents self.fds n revents, invalid := invalid } := by
  refine ⟨scanned.entry_succ last, ?_, scanned.native, ?_⟩
  · rw [countP_range_succ, ← scanned.invalid]
    exact count
  · rw [scanned.order, List.range_succ, List.filter_append]
    simp [skipped]

theorem Scanned.pick (good : bad socket fds n = false) (picked : chosen socket fds n = true) :
    Scanned socket fds (n + 1) { self with
      fds := setRevents self.fds n 0
      native := Function.update self.native self.valid ⟨socket n, (fds n).events, 0⟩
      map := Function.update self.map self.valid n
      valid := self.valid + 1 } := by
  refine ⟨scanned.entry_succ (by simp [good]), ?_, fun k less => ?_, ?_⟩
  · rw [countP_range_succ, ← scanned.invalid, good]
    rfl
  · rcases Nat.lt_succ_iff_lt_or_eq.mp less with less | rfl
    · simpa [Nat.ne_of_lt less] using scanned.native k less
    · simp
  · have front : (List.range self.valid).map (Function.update self.map self.valid n) =
        (List.range self.valid).map self.map :=
      List.map_congr_left fun k member => Function.update_of_ne (Nat.ne_of_lt (List.mem_range.mp member)) ..
    rw [List.range_succ, List.map_append, front, scanned.order, List.range_succ, List.filter_append]
    simp [picked]

theorem Scanned.scan : Scanned socket fds (n + 1) (self.scan socket n) := by
  have here : self.fds n = fds n := by simpa using scanned.entry n
  have same : setRevents self.fds n 0 n = { fds n with revents := 0 } := by simp [setRevents, here]
  unfold SysPoll.scan
  simp only [same]
  split_ifs with ignored invalid
  · exact scanned.skip (by simp [bad, ignored]) (by simp [bad, ignored]) (by simp [chosen, ignored])
  · have twice : setRevents (setRevents self.fds n 0) n pollNval = setRevents self.fds n pollNval := by
      simp [setRevents]
    rw [twice]
    exact scanned.skip (by simp [bad, ignored, invalid]) (by simp [bad, ignored, invalid])
      (by simp [chosen, invalid])
  · exact scanned.pick (by simp [bad, invalid]) (by simp [chosen, invalid, ignored])

end Step

theorem scanned_foldl (socket : Nat → BitVec w) (fds : Nat → SysPollFd) (native : Nat → WsaPollFd w) (map : Nat → Nat)
    (n : Nat) :
    Scanned socket fds n ((List.range n).foldl (scan socket) ⟨fds, native, map, 0, 0⟩) := by
  induction n with
  | zero => exact .zero native map
  | succ n ih =>
    rw [List.range_succ, List.foldl_append]
    exact ih.scan

theorem copyBack_foldl {native : Nat → WsaPollFd w} {map : Nat → Nat} {written : Nat → Nat} (k : Nat)
    (agree : ∀ j < k, (native j).revents = written (map j)) (i : Nat) :
    (List.range k).foldl (copyBack native map) fds i =
      if ∃ j < k, map j = i then { fds i with revents := written i } else fds i := by
  induction k with
  | zero => simp
  | succ k ih =>
    rw [List.range_succ, List.foldl_append]
    have before := ih fun j less => agree j (Nat.lt_succ_of_lt less)
    simp only [List.foldl_cons, List.foldl_nil, copyBack, setRevents]
    by_cases last : i = map k
    · subst last
      rw [Function.update_self, if_pos ⟨k, Nat.lt_succ_self k, rfl⟩, agree k (Nat.lt_succ_self k), before]
      split_ifs <;> rfl
    · rw [Function.update_of_ne last, before]
      refine if_congr ?_ rfl rfl
      constructor
      · rintro ⟨j, less, maps⟩
        exact ⟨j, Nat.lt_succ_of_lt less, maps⟩
      · rintro ⟨j, less, maps⟩
        rcases Nat.lt_succ_iff_lt_or_eq.mp less with less | rfl
        · exact ⟨j, less, maps⟩
        · exact absurd maps.symm last

theorem condition_of_skipped {i : Nat} (skipped : chosen socket fds i = false) :
    condition socket ready fds i = if bad socket fds i then pollNval else 0 := by
  by_cases ignored : (fds i).fd < 0
  · simp [condition, bad, ignored]
  · have invalid : socket i = invalidSocket w := by simpa [chosen, ignored] using skipped
    simp [condition, bad, ignored, invalid]

theorem condition_of_chosen {i : Nat} (picked : chosen socket fds i = true) :
    condition socket ready fds i = ready (socket i) (fds i).events := by
  have valid : 0 ≤ (fds i).fd ∧ ¬ socket i = invalidSocket w := by simpa [chosen] using picked
  simp [condition, Int.not_lt.mpr valid.1, valid.2]

theorem countP_condition (n : Nat) : (List.range n).countP (fun i => condition socket ready fds i ≠ 0) =
    ((List.range n).filter (chosen socket fds)).countP (fun i => condition socket ready fds i ≠ 0) +
      (List.range n).countP (bad socket fds) := by
  rw [List.countP_eq_countP_filter_add _ _ (chosen socket fds)]
  congr 1
  rw [List.countP_filter]
  refine List.countP_congr fun i _ => ?_
  cases picked : chosen socket fds i with
  | true =>
    have valid : 0 ≤ (fds i).fd ∧ ¬ socket i = invalidSocket w := by simpa [chosen] using picked
    simp [bad, valid.2]
  | false =>
    rw [condition_of_skipped picked]
    cases bad socket fds i <;> simp [pollNval]

theorem Scanned.mapped (scanned : Scanned socket fds n self) {i : Nat} :
    (∃ k < self.valid, self.map k = i) ↔ i < n ∧ chosen socket fds i = true := by
  rw [← List.mem_range (n := n), ← List.mem_filter, ← scanned.order]
  simp only [List.mem_map, List.mem_range]

theorem Scanned.invalid_eq_zero (scanned : Scanned socket fds n self) :
    self.invalid = 0 ↔ ¬ ∃ i < n, bad socket fds i = true := by
  rw [scanned.invalid, List.countP_eq_zero]
  simp

theorem Scanned.finish_some (scanned : Scanned socket fds n self) (i : Nat) :
    (List.range self.valid).foldl (copyBack (wsaPoll ready self.native self.valid).1 self.map) self.fds i =
        (if i < n then { fds i with revents := condition socket ready fds i } else fds i) ∧
      (wsaPoll ready self.native self.valid).2 + self.invalid =
        (List.range n).countP fun i => condition socket ready fds i ≠ 0 := by
  have reported (k : Nat) (less : k < self.valid) :
      ((wsaPoll ready self.native self.valid).1 k).revents = condition socket ready fds (self.map k) := by
    rw [condition_of_chosen (scanned.mapped.mp ⟨k, less, rfl⟩).2]
    simp [wsaPoll, less, scanned.native k less]
  constructor
  · rw [copyBack_foldl self.valid reported i, scanned.entry i]
    by_cases less : i < n
    · rw [if_pos less, if_pos less]
      cases picked : chosen socket fds i with
      | true => rw [if_pos (scanned.mapped.mpr ⟨less, picked⟩)]
      | false =>
        rw [if_neg, condition_of_skipped picked]
        exact fun passed => Bool.noConfusion (picked.symm.trans (scanned.mapped.mp passed).2)
    · rw [if_neg less, if_neg less, if_neg]
      exact fun passed => less (scanned.mapped.mp passed).1
  · rw [countP_condition, scanned.invalid, ← scanned.order, List.countP_map]
    congr 1
    refine List.countP_congr fun k member => ?_
    change decide (((wsaPoll ready self.native self.valid).1 k).revents ≠ 0) = true ↔ _
    rw [Function.comp_apply, reported k (List.mem_range.mp member)]

/-- The entries are those of a `poll` that looks at each of them by itself, and so is the number
of entries with conditions. The call does not wait if an entry names no socket. -/
theorem hev_sys_poll_refines (null memory : Bool) (socket : Nat → BitVec w) (ready : BitVec w → Nat → Nat)
    (native : Nat → WsaPollFd w) (map : Nat → Nat) (fds : Nat → SysPollFd) (n : Nat) (timeout : Int)
    (present : n = 0 ∨ null = false) (buffers : n ≤ 64 ∨ memory = true) :
    (∀ i, (hevSysPoll null memory socket (some ready) native map fds n timeout).fds i =
        if i < n then { fds i with revents := condition socket ready fds i } else fds i) ∧
      (hevSysPoll null memory socket (some ready) native map fds n timeout).result =
        .ok ((List.range n).countP fun i => condition socket ready fds i ≠ 0) ∧
      (hevSysPoll null memory socket (some ready) native map fds n timeout).waits =
        if ∃ i < n, bad socket fds i = true then 0 else timeout := by
  have scanned := scanned_foldl socket fds native map n
  have accepted : ¬ ((n : Int) < 0 ∨ (n : Int) > 0 ∧ null = true) := by
    rintro (negative | ⟨positive, isNull⟩)
    · omega
    · rcases present with rfl | isPresent
      · omega
      · exact Bool.noConfusion (isPresent.symm.trans isNull)
  have room : ¬ ((n : Int) > 64 ∧ ¬ memory = true) := by
    rintro ⟨large, missing⟩
    rcases buffers with small | enough
    · omega
    · exact missing enough
  simp only [hevSysPoll, if_neg accepted, if_neg room, Int.toNat_natCast]
  generalize (List.range n).foldl (scan socket) ⟨fds, native, map, 0, 0⟩ = self at scanned
  have waits : (if self.invalid = 0 then timeout else 0) = if ∃ i < n, bad socket fds i = true then 0 else timeout := by
    by_cases zero : self.invalid = 0
    · rw [if_pos zero, if_neg (scanned.invalid_eq_zero.mp zero)]
    · rw [if_neg zero, if_pos (not_not.mp fun missing => zero (scanned.invalid_eq_zero.mpr missing))]
  by_cases none : self.valid = 0
  · rw [finish, if_pos none]
    -- Without an entry that was passed on `WSAPoll` would count nothing.
    have alone := fun i => @Scanned.finish_some w socket ready fds self n scanned i
    simp only [none, List.range_zero, List.foldl_nil, wsaPoll, List.countP_nil, Nat.zero_add] at alone
    exact ⟨fun i => (alone i).1, congrArg Except.ok (alone 0).2, waits⟩
  · rw [finish, if_neg none]
    refine ⟨fun i => (scanned.finish_some i).1, ?_, ?_⟩
    · exact congrArg Except.ok (scanned.finish_some 0).2
    · rw [← waits]
      by_cases zero : self.invalid = 0
      · simp [zero]
      · simp [zero]

/-- A descriptor of a socket, one that is ignored, one that was closed, and another socket. -/
theorem hev_sys_poll_refines_four : (hevSysPoll false false (fun i => if i = 2 then invalidSocket 32 else 7)
    (some fun _ events => events) (fun _ => ⟨0, 0, 0⟩) (fun _ => 0)
    (fun i => if i = 1 then ⟨-1, 1, 9⟩ else ⟨5, i, 9⟩) 4 (-1)).result = .ok 2 := by
  have refines := (hev_sys_poll_refines false false (fun i => if i = 2 then invalidSocket 32 else 7)
    (fun _ events => events) (fun _ => ⟨0, 0, 0⟩) (fun _ => 0) (fun i => if i = 1 then ⟨-1, 1, 9⟩ else ⟨5, i, 9⟩) 4 (-1)
    (.inr rfl) (.inl (by decide))).2.1
  exact refines.trans (by decide)

end SysPoll

end HevTaskSystem
