import HevTaskSystem.Foundation.Ledger
import HevTaskSystem.Foundation.Owners
import HevTaskSystem.Reactor.FdRegistry

/-! The sockets of the Windows layer, which the registry holds for their descriptors.

Threads make, duplicate, replace and close sockets at the same time. Only an operation of
the registry holds its lock, so a call takes many steps, and each answer of the system
may be a failure. Between two steps a socket is in a slot of the registry or in a local
variable of one call; one that could not be closed stays open, and nothing refers to it.
-/

set_option autoImplicit false

namespace HevTaskSystem

open Foundation FdRegistry

inductive SocketVar where
  | s | listener | conn | peer
  deriving DecidableEq

theorem SocketVar.ext {α : Type} {f g : SocketVar → α}
    (same : (f .s, f .listener, f .conn, f .peer) = (g .s, g .listener, g .conn, g .peer)) : f = g := by
  simp only [Prod.mk.injEq] at same
  obtain ⟨s, listener, conn, peer⟩ := same
  funext v
  cases v <;> assumption

/-- Where a call stands, with the variables that are still used. The first group are the
calls with one socket, the second one is `hev_sys_socketpair` with its label `fail`. -/
inductive SocketPc (w : Nat) where
  | idle
  | made (s : BitVec w)
  | ready (s : BitVec w)
  | copied (newfd : Int) (s : BitVec w)
  | replace (newfd : Int) (s : BitVec w)
  | closing (s : BitVec w)
  | listen (listener : BitVec w)
  | socket (listener : BitVec w)
  | connect (listener conn : BitVec w)
  | accept (listener conn : BitVec w)
  | closeListener (listener conn peer : BitVec w)
  | nonblockConn (conn peer : BitVec w)
  | nonblockPeer (conn peer : BitVec w)
  | registerConn (conn peer : BitVec w)
  | registerPeer (fd0 : Int) (peer : BitVec w)
  | fail (fd0 fd1 : Int) (conn peer listener : BitVec w)
  | dropFirst (s : BitVec w) (fd1 : Int) (conn peer listener : BitVec w)
  | failSecond (fd1 : Int) (conn peer listener : BitVec w)
  | dropSecond (s conn peer listener : BitVec w)
  | dropConn (conn peer listener : BitVec w)
  | dropPeer (peer listener : BitVec w)
  | dropListener (listener : BitVec w)

namespace SocketPc

variable {w : Nat}

/-- The socket in a variable, `INVALID_SOCKET` for a variable that is not used. -/
def var : SocketPc w → SocketVar → BitVec w
  | .made s, .s | .ready s, .s | .copied _ s, .s | .replace _ s, .s | .closing s, .s => s
  | .listen listener, .listener | .socket listener, .listener => listener
  | .connect listener _, .listener | .accept listener _, .listener => listener
  | .connect _ conn, .conn | .accept _ conn, .conn => conn
  | .closeListener listener _ _, .listener => listener
  | .closeListener _ conn _, .conn => conn
  | .closeListener _ _ peer, .peer => peer
  | .nonblockConn conn _, .conn | .nonblockPeer conn _, .conn | .registerConn conn _, .conn => conn
  | .nonblockConn _ peer, .peer | .nonblockPeer _ peer, .peer | .registerConn _ peer, .peer => peer
  | .registerPeer _ peer, .peer => peer
  | .dropFirst s _ _ _ _, .s | .dropSecond s _ _ _, .s => s
  | .fail _ _ conn _ _, .conn | .dropFirst _ _ conn _ _, .conn | .failSecond _ conn _ _, .conn => conn
  | .dropSecond _ conn _ _, .conn | .dropConn conn _ _, .conn => conn
  | .fail _ _ _ peer _, .peer | .dropFirst _ _ _ peer _, .peer | .failSecond _ _ peer _, .peer => peer
  | .dropSecond _ _ peer _, .peer | .dropConn _ peer _, .peer | .dropPeer peer _, .peer => peer
  | .fail _ _ _ _ listener, .listener | .dropFirst _ _ _ _ listener, .listener => listener
  | .failSecond _ _ _ listener, .listener | .dropSecond _ _ _ listener, .listener => listener
  | .dropConn _ _ listener, .listener | .dropPeer _ listener, .listener => listener
  | .dropListener listener, .listener => listener
  | _, _ => invalidSocket w

def Valid : SocketPc w → Prop
  | .made s | .ready s | .copied _ s | .replace _ s | .closing s => s ≠ invalidSocket w
  | .listen listener | .socket listener => listener ≠ invalidSocket w
  | .connect listener _ | .accept listener _ | .closeListener listener _ _ => listener ≠ invalidSocket w
  | .dropFirst s _ _ _ _ | .dropSecond s _ _ _ => s ≠ invalidSocket w
  | _ => True

end SocketPc

/-- The registry, the sockets that are open in the system, and the calls of all threads. Recorded
are the sockets that were left open by a `closesocket` that failed, and how many were not open
when they were closed. -/
structure WinSockets (w : Nat) where
  registry : FdRegistry w
  sockets : Ledger (BitVec w)
  calls : Nat → SocketPc w
  left : List (BitVec w)
  misses : Nat

/-- What a thread does next. A socket `s` is the answer of `socket`, `WSASocketW` or
`accept`, the flag `ok` that of `closesocket` or of the calls before the next step, and the memory flags are
those of the registry. -/
inductive SocketAct (w : Nat) where
  | socket (s : BitVec w)
  | accept (memory : Bool) (fd : Int) (s : BitVec w)
  | dup (memory : Bool) (oldfd : Int) (s : BitVec w)
  | dup2 (memory : Bool) (oldfd newfd : Int) (s : BitVec w)
  | close (memory : Bool) (fd : Int)
  | socketpair (s : BitVec w)
  | goOn (ok memory more : Bool) (s : BitVec w)

/-- The new socket of a step, `INVALID_SOCKET` where there is none. -/
def SocketAct.made {w : Nat} : SocketAct w → BitVec w
  | .socket s | .accept _ _ s | .dup _ _ s | .dup2 _ _ _ s | .socketpair s | .goOn _ _ _ s => s
  | .close _ _ => invalidSocket w

namespace WinSockets

variable {w : Nat}

def init (w : Nat) : WinSockets w := ⟨FdRegistry.empty w, .empty, fun _ => .idle, [], 0⟩

def put (self : WinSockets w) (t : Nat) (pc : SocketPc w) : WinSockets w :=
  { self with calls := Function.update self.calls t pc }

def make (self : WinSockets w) (t : Nat) (s : BitVec w) (made failed : SocketPc w) : WinSockets w :=
  if s = invalidSocket w then self.put t failed
  else { self with sockets := self.sockets.give s }.put t made

def closesocket (self : WinSockets w) (ok : Bool) (s : BitVec w) : WinSockets w :=
  match self.sockets.take s with
  | some sockets => if ok then { self with sockets } else { self with left := self.left ++ [s] }
  | none => { self with misses := self.misses + 1 }

def drop (self : WinSockets w) (ok : Bool) (s : BitVec w) : WinSockets w :=
  if s ≠ invalidSocket w then self.closesocket ok s else self

/-- The functions `hev_sys_accept` and `hev_sys_dup` up to the new socket, which
`hev_sys_fd_register` gets in `hev_sys_dup`. -/
def derive (self : WinSockets w) (t : Nat) (memory : Bool) (fd : Int) (s : BitVec w) : WinSockets w :=
  let (from', registry) := self.registry.fdToSocket memory fd
  let self := { self with registry }
  if from' = invalidSocket w then self.put t .idle else self.make t s (.made s) .idle

def dup2 (self : WinSockets w) (t : Nat) (memory : Bool) (oldfd newfd : Int) (s : BitVec w) : WinSockets w :=
  let (from', registry) := self.registry.fdToSocket memory oldfd
  let self := { self with registry }
  if from' = invalidSocket w then self.put t .idle
  else if oldfd = newfd then self.put t .idle
  else self.make t s (.copied newfd s) .idle

def close (self : WinSockets w) (t : Nat) (memory : Bool) (fd : Int) : WinSockets w :=
  if fd < 0 then self.put t .idle
  else
    let (s, registry) := self.registry.fdCloseSocket memory fd
    { self with registry }.put t (if s ≠ invalidSocket w then .closing s else .idle)

/-- A socket of the call goes into the registry by `hev_sys_socket_to_fd`. -/
def register (self : WinSockets w) (t : Nat) (memory more : Bool) (s : BitVec w)
    (failed registered : Int → SocketPc w) : WinSockets w :=
  let (fd, registry) := self.registry.socketToFd memory more s
  { self with registry }.put t (if fd < 0 then failed fd else registered fd)

def unregister (self : WinSockets w) (t : Nat) (memory : Bool) (fd : Int) (some' : BitVec w → SocketPc w)
    (none' : SocketPc w) : WinSockets w :=
  if fd ≥ 0 then
    let (s, registry) := self.registry.fdCloseSocket memory fd
    { self with registry }.put t (if s ≠ invalidSocket w then some' s else none')
  else self.put t none'

def goOn (self : WinSockets w) (t : Nat) (ok memory more : Bool) (s : BitVec w) : SocketPc w → WinSockets w
  | .idle => self.put t .idle
  | .made x => self.put t (if ok then .ready x else .closing x)
  | .ready x => self.register t memory more x (fun _ => .closing x) fun _ => .idle
  | .copied newfd x => self.put t (if ok then .replace newfd x else .closing x)
  | .replace newfd x =>
    match self.registry.fdReplace memory more newfd x with
    | (none, registry) => { self with registry }.put t (.closing x)
    | (some replaced, registry) =>
      { self with registry }.put t (if replaced ≠ invalidSocket w then .closing replaced else .idle)
  | .closing x => (self.closesocket ok x).put t .idle
  | .listen listener =>
    self.put t (if ok then .socket listener else .fail (-1) (-1) (invalidSocket w) (invalidSocket w) listener)
  | .socket listener =>
    self.make t s (.connect listener s) (.fail (-1) (-1) (invalidSocket w) (invalidSocket w) listener)
  | .connect listener conn =>
    self.put t (if ok then .accept listener conn else .fail (-1) (-1) conn (invalidSocket w) listener)
  | .accept listener conn =>
    self.make t s (.closeListener listener conn s) (.fail (-1) (-1) conn (invalidSocket w) listener)
  | .closeListener listener conn peer => (self.closesocket ok listener).put t (.nonblockConn conn peer)
  | .nonblockConn conn peer =>
    self.put t (if ok then .nonblockPeer conn peer else .fail (-1) (-1) conn peer (invalidSocket w))
  | .nonblockPeer conn peer =>
    self.put t (if ok then .registerConn conn peer else .fail (-1) (-1) conn peer (invalidSocket w))
  | .registerConn conn peer =>
    self.register t memory more conn (.fail · (-1) conn peer (invalidSocket w)) (.registerPeer · peer)
  | .registerPeer fd0 peer =>
    self.register t memory more peer (.fail fd0 · (invalidSocket w) peer (invalidSocket w)) fun _ => .idle
  | .fail fd0 fd1 conn peer listener =>
    self.unregister t memory fd0 (.dropFirst · fd1 conn peer listener) (.failSecond fd1 conn peer listener)
  | .dropFirst x fd1 conn peer listener => (self.closesocket ok x).put t (.failSecond fd1 conn peer listener)
  | .failSecond fd1 conn peer listener =>
    self.unregister t memory fd1 (.dropSecond · conn peer listener) (.dropConn conn peer listener)
  | .dropSecond x conn peer listener => (self.closesocket ok x).put t (.dropConn conn peer listener)
  | .dropConn conn peer listener => (self.drop ok conn).put t (.dropPeer peer listener)
  | .dropPeer peer listener => (self.drop ok peer).put t (.dropListener listener)
  | .dropListener listener => (self.drop ok listener).put t .idle

def exec (self : WinSockets w) (t : Nat) (act : SocketAct w) : Option (WinSockets w) :=
  match self.calls t, act with
  | .idle, .socket s => some (self.make t s (.made s) .idle)
  | .idle, .accept memory fd s => some (self.derive t memory fd s)
  | .idle, .dup memory oldfd s => some (self.derive t memory oldfd s)
  | .idle, .dup2 memory oldfd newfd s => some (self.dup2 t memory oldfd newfd s)
  | .idle, .close memory fd => some (self.close t memory fd)
  | .idle, .socketpair s => some (self.make t s (.listen s) .idle)
  | .idle, .goOn _ _ _ _ => none
  | pc, .goOn ok memory more s => some (self.goOn t ok memory more s pc)
  | _, _ => none

/-- The places of sockets: the slots of the registry, the variables of the threads, and the
record of those that could not be closed. -/
inductive Place where
  | slot (i : Nat)
  | var (t : Nat) (v : SocketVar)
  | left (i : Nat)
  deriving DecidableEq

/-- What a place has, with `INVALID_SOCKET` for nothing. -/
def content (self : WinSockets w) : Place → BitVec w
  | .slot i => self.registry.table.socket i
  | .var t v => (self.calls t).var v
  | .left i => self.left.getD i (invalidSocket w)

def place (self : WinSockets w) (p : Place) : Option (BitVec w) :=
  if self.content p = invalidSocket w then none else some (self.content p)

def Open (self : WinSockets w) (s : BitVec w) : Prop := (self.sockets.number s).isSome = true

def system (w : Nat) : System (WinSockets w) (Nat × SocketAct w) where
  init state := state = init w
  step state label next :=
    (label.2.made ≠ invalidSocket w → ¬ state.Open label.2.made) ∧ state.exec label.1 label.2 = some next

/-- Every open socket is at one place, and what is at a place is open. -/
structure Owned (state : WinSockets w) : Prop where
  registry : state.registry.Ok
  sound : state.sockets.Sound
  exclusive : Exclusive state.Open state.place
  calls : ∀ t, (state.calls t).Valid
  misses : state.misses = 0

variable {self : WinSockets w} {t : Nat} {old pc failed : SocketPc w} {v : SocketVar} {s : BitVec w} {i : Nat}
  {registry : FdRegistry w} {p : Place} {memory more : Bool} {fd : Int}

theorem place_of_content {next : WinSockets w} {q : Place} (same : next.content q = self.content p) :
    next.place q = self.place p := by
  unfold place
  rw [same]

theorem place_none (empty : self.content p = invalidSocket w) : self.place p = none := if_pos empty

theorem place_some (here : self.content p = s) (valid : s ≠ invalidSocket w) : self.place p = some s := by
  unfold place
  rw [here, if_neg valid]

theorem place_eq_some (here : self.place p = some s) : self.content p = s ∧ s ≠ invalidSocket w := by
  unfold place at here
  split_ifs at here with empty
  · cases here
    exact ⟨rfl, empty⟩

theorem put_content (call : self.calls t = old) (moved : pc.var = Function.update old.var v s) (p : Place) :
    (self.put t pc).content p = if p = .var t v then s else self.content p := by
  cases p with
  | slot i | left i => rfl
  | var t' v' =>
    by_cases here : t' = t
    · subst here
      have pc' : (self.put t' pc).content (.var t' v') = pc.var v' :=
        congrArg (SocketPc.var · v') (Function.update_self ..)
      have old' : self.content (.var t' v') = old.var v' := congrArg (SocketPc.var · v') call
      rw [pc', old', moved, Function.update_apply]
      simp
    · rw [if_neg fun equal => here (Place.var.inj equal).1]
      exact congrArg (SocketPc.var · v') (Function.update_of_ne here ..)

theorem put_calls {next : WinSockets w} (owned : self.Owned) (same : next.calls = self.calls) (valid : pc.Valid)
    (t' : Nat) : ((next.put t pc).calls t').Valid := by
  change (Function.update next.calls t pc t').Valid
  rw [Function.update_apply, same]
  split_ifs
  · exact valid
  · exact owned.calls t'

theorem Owned.keep (owned : self.Owned) (call : self.calls t = old) (ok : registry.Ok)
    (table : registry.table = self.registry.table) (same : pc.var = old.var) (valid : pc.Valid) :
    ({ self with registry := registry }.put t pc).Owned := by
  refine ⟨ok, owned.sound, owned.exclusive.congr fun p => place_of_content ?_, put_calls owned rfl valid, owned.misses⟩
  have moved : pc.var = Function.update old.var .s (old.var .s) := by rw [same, Function.update_eq_self]
  have call' : ({ self with registry := registry } : WinSockets w).calls t = old := call
  rw [put_content call' moved p]
  split_ifs with here
  · rw [here]
    exact (congrArg (SocketPc.var · .s) call).symm
  · cases p with
    | slot i => exact congrArg (FdTable.socket · i) table
    | var _ _ | left _ => rfl

theorem Owned.give (owned : self.Owned) (call : self.calls t = old) (socket : s ≠ invalidSocket w)
    (new : ¬ self.Open s) (free : old.var v = invalidSocket w) (moved : pc.var = Function.update old.var v s)
    (valid : pc.Valid) :
    ({ self with sockets := self.sockets.give s }.put t pc).Owned := by
  have absent : self.sockets.number s = none := Option.not_isSome_iff_eq_none.mp new
  have after (p : Place) : ({ self with sockets := self.sockets.give s }.put t pc).content p =
      if p = .var t v then s else self.content p := put_content call moved p
  refine ⟨owned.registry, owned.sound.give absent, ?_, put_calls owned rfl valid, owned.misses⟩
  refine owned.exclusive.create (p := .var t v) (h := s) (place_none ?_) new (place_some ?_ socket) ?_ ?_
  · exact (congrArg (SocketPc.var · v) call).trans free
  · rw [after, if_pos rfl]
  · intro p other
    refine place_of_content ?_
    rw [after, if_neg other]
  · intro s'
    by_cases same : s' = s
    · subst same
      exact ⟨fun _ => .inr rfl, fun _ => by simp [Open, put, Ledger.give_self]⟩
    · simp [Open, put, Ledger.give_of_ne same, same]

theorem Owned.make (owned : self.Owned) (call : self.calls t = old) (new : s ≠ invalidSocket w → ¬ self.Open s)
    (free : old.var v = invalidSocket w) (moved : pc.var = Function.update old.var v s)
    (same : failed.var = old.var) (valid : s ≠ invalidSocket w → pc.Valid) (validFailed : failed.Valid) :
    (self.make t s pc failed).Owned := by
  unfold WinSockets.make
  split_ifs with invalid
  · exact owned.keep call owned.registry rfl same validFailed
  · exact owned.give call invalid (new invalid) free moved (valid invalid)

theorem Owned.closed {n : Nat} (owned : self.Owned) (call : self.calls t = old) (socket : s ≠ invalidSocket w)
    (here : old.var v = s) (moved : pc.var = Function.update old.var v (invalidSocket w)) (valid : pc.Valid)
    (number : self.sockets.number s = some n) :
    (({ self with
      sockets := ⟨self.sockets.given, self.sockets.back ++ [n], Function.update self.sockets.number s none⟩ } :
        WinSockets w).put t pc).Owned := by
  have mine : self.content (.var t v) = s := (congrArg (SocketPc.var · v) call).trans here
  have after := put_content call moved
  refine ⟨owned.registry, owned.sound.take (Ledger.take_eq number), ?_, put_calls owned rfl valid, owned.misses⟩
  refine owned.exclusive.remove (place_some mine socket) (place_none ?_) (fun p other => place_of_content ?_) fun s' => ?_
  · exact (after _).trans (if_pos rfl)
  · exact (after _).trans (if_neg other)
  · by_cases same : s' = s
    · subst same
      simp [Open, put]
    · simp [Open, put, same]

theorem getD_concat_of_ne {sockets : List (BitVec w)} {i : Nat} (other : i ≠ sockets.length) :
    (sockets ++ [s]).getD i (invalidSocket w) = sockets.getD i (invalidSocket w) := by
  simp only [List.getD_eq_getElem?_getD]
  rcases Nat.lt_or_gt_of_ne other with less | more
  · rw [List.getElem?_append_left less]
  · rw [List.getElem?_eq_none (by simp; omega), List.getElem?_eq_none (by omega)]

/-- The socket goes from the variable to the end of the record. -/
theorem Owned.leave (owned : self.Owned) (call : self.calls t = old) (here : old.var v = s)
    (moved : pc.var = Function.update old.var v (invalidSocket w)) (valid : pc.Valid) :
    (({ self with left := self.left ++ [s] } : WinSockets w).put t pc).Owned := by
  have mine : self.content (.var t v) = s := (congrArg (SocketPc.var · v) call).trans here
  have call' : ({ self with left := self.left ++ [s] } : WinSockets w).calls t = old := call
  have after := put_content call' moved
  refine ⟨owned.registry, owned.sound, ?_, put_calls owned rfl valid, owned.misses⟩
  refine owned.exclusive.exchange (p := .left self.left.length) (q := .var t v) (place_of_content ?_)
    (place_of_content ?_) fun p notLast notVar => place_of_content ?_
  · rw [after, if_neg nofun, mine]
    simp [content]
  · rw [after, if_pos rfl]
    simp [content]
  · rw [after, if_neg notVar]
    cases p with
    | slot _ | var _ _ => rfl
    | left i => exact getD_concat_of_ne fun equal => notLast (equal ▸ rfl)

theorem Owned.closesocket {ok : Bool} (owned : self.Owned) (call : self.calls t = old) (socket : s ≠ invalidSocket w)
    (here : old.var v = s) (moved : pc.var = Function.update old.var v (invalidSocket w)) (valid : pc.Valid) :
    ((self.closesocket ok s).put t pc).Owned := by
  have held : self.place (.var t v) = some s := place_some ((congrArg (SocketPc.var · v) call).trans here) socket
  obtain ⟨n, number⟩ := Option.isSome_iff_exists.mp ((owned.exclusive.covers s).mpr ⟨_, held⟩)
  simp only [WinSockets.closesocket, Ledger.take_eq number]
  cases ok with
  | true => exact owned.closed call socket here moved valid number
  | false => exact owned.leave call here moved valid

theorem Owned.drop {ok : Bool} (owned : self.Owned) (call : self.calls t = old) (here : old.var v = s)
    (moved : pc.var = Function.update old.var v (invalidSocket w)) (valid : pc.Valid) :
    ((self.drop ok s).put t pc).Owned := by
  unfold WinSockets.drop
  split_ifs with socket
  · exact owned.closesocket call socket here moved valid
  · refine owned.keep call owned.registry rfl ?_ valid
    rw [moved, ← Decidable.not_not.mp socket, ← here, Function.update_eq_self]

theorem Owned.exchange (owned : self.Owned) (call : self.calls t = old) (ok : registry.Ok)
    (slots : registry.table.socket = Function.update self.registry.table.socket i (old.var v))
    (moved : pc.var = Function.update old.var v (self.registry.table.socket i)) (valid : pc.Valid) :
    ({ self with registry := registry }.put t pc).Owned := by
  have call' : ({ self with registry := registry } : WinSockets w).calls t = old := call
  have after := put_content call' moved
  refine ⟨ok, owned.sound, ?_, put_calls owned rfl valid, owned.misses⟩
  refine owned.exclusive.exchange (p := .slot i) (q := .var t v) (place_of_content ?_) (place_of_content ?_) ?_
  · calc registry.table.socket i = old.var v := by rw [slots, Function.update_self]
      _ = self.content (.var t v) := (congrArg (SocketPc.var · v) call).symm
  · rw [after, if_pos rfl]
    rfl
  · intro p notSlot notVar
    refine place_of_content ?_
    rw [after, if_neg notVar]
    cases p with
    | slot j =>
      have other : j ≠ i := fun equal => notSlot (equal ▸ rfl)
      exact (congrFun slots j).trans (Function.update_of_ne other ..)
    | var _ _ | left _ => rfl

end WinSockets

namespace FdRegistry

variable {w : Nat} {self : FdRegistry w} {memory : Bool} {fd : Int}

theorem fdToSocket_registry (self : FdRegistry w) (memory : Bool) (fd : Int) :
    (self.fdToSocket memory fd).2 = self.init memory := by
  simp only [fdToSocket]
  split_ifs
  · rfl
  · split <;> rfl

theorem fdCloseSocket_returns (ok : self.Ok) (memory : Bool) (fd : Int) :
    ((self.fdCloseSocket memory fd).1 = invalidSocket w ∧ (self.fdCloseSocket memory fd).2.table = self.table) ∨
      ∃ i, (self.fdCloseSocket memory fd).1 = self.table.socket i ∧
        (self.fdCloseSocket memory fd).2.table = self.table.clear i := by
  rcases (fdCloseSocket_spec ok memory fd).2 with ⟨outside, same⟩ | ⟨i, inside, rfl, cleared⟩
  · exact .inl ⟨by simp [fdCloseSocket, outside], same⟩
  · refine .inr ⟨i, ?_, cleared⟩
    have here : ¬ (i : Int) < 0 := by omega
    rw [← (init_spec memory ok).2]
    simp only [fdCloseSocket, indexFromFd_base inside, here, if_false, Int.toNat_natCast, table, slotAt]
    cases (self.init memory).slots[i]? with
    | none => rfl
    | some slot => rfl

end FdRegistry

namespace WinSockets

variable {w : Nat} {self : WinSockets w} {t i : Nat} {old failed : SocketPc w} {v : SocketVar} {s : BitVec w}
  {pc : BitVec w → SocketPc w} {ok memory more : Bool} {fd : Int}

theorem Owned.register {failed registered : Int → SocketPc w} (owned : self.Owned) (call : self.calls t = old)
    (here : old.var v = s) (same : ∀ fd, (failed fd).var = old.var)
    (moved : ∀ fd, (registered fd).var = Function.update old.var v (invalidSocket w))
    (validFailed : ∀ fd, (failed fd).Valid) (valid : ∀ fd, (registered fd).Valid) :
    (self.register t memory more s failed registered).Owned := by
  have spec := socketToFd_spec owned.registry memory more s
  unfold WinSockets.register
  generalize self.registry.socketToFd memory more s = result at spec
  obtain ⟨fd, registry⟩ := result
  obtain ⟨ok, ⟨rfl, table⟩ | ⟨i, inside, rfl, _, free, table⟩⟩ := spec
  · exact owned.keep call ok table (same _) (validFailed _)
  · have positive : ¬ fdBase + (i : Int) < 0 := by
      unfold fdBase
      omega
    dsimp only
    rw [if_neg positive]
    refine owned.exchange (i := i) (v := v) call ok ?_ ?_ (valid _)
    · rw [table, here]
      rfl
    · rw [free]
      exact moved _

theorem Owned.take (owned : self.Owned) (call : self.calls t = old) (free : old.var v = invalidSocket w)
    (same : failed.var = old.var) (moved : ∀ s, (pc s).var = Function.update old.var v s)
    (valid : ∀ s, s ≠ invalidSocket w → (pc s).Valid) (validFailed : failed.Valid) :
    ({ self with registry := (self.registry.fdCloseSocket memory fd).2 }.put t
      (if (self.registry.fdCloseSocket memory fd).1 ≠ invalidSocket w then pc (self.registry.fdCloseSocket memory fd).1
        else failed)).Owned := by
  have ok := (fdCloseSocket_spec owned.registry memory fd).1
  have unmoved : failed.var = Function.update old.var v (invalidSocket w) := by
    rw [same, ← free, Function.update_eq_self]
  rcases fdCloseSocket_returns owned.registry memory fd with ⟨invalid, table⟩ | ⟨i, socket, table⟩
  · rw [invalid, if_neg (not_not.mpr rfl)]
    exact owned.keep call ok table same validFailed
  · refine owned.exchange (i := i) (v := v) call ok ?_ ?_ ?_
    · rw [table, free]
      rfl
    · rw [socket]
      split_ifs with socket
      · exact moved _
      · rw [Decidable.not_not.mp socket, unmoved]
    · split_ifs with socket
      · exact valid _ socket
      · exact validFailed

theorem Owned.unregister (owned : self.Owned) (call : self.calls t = old) (free : old.var v = invalidSocket w)
    (same : failed.var = old.var) (moved : ∀ s, (pc s).var = Function.update old.var v s)
    (valid : ∀ s, s ≠ invalidSocket w → (pc s).Valid) (validFailed : failed.Valid) :
    (self.unregister t memory fd pc failed).Owned := by
  unfold WinSockets.unregister
  split_ifs
  · exact owned.take call free same moved valid validFailed
  · exact owned.keep call owned.registry rfl same validFailed

theorem Owned.close (owned : self.Owned) (call : self.calls t = .idle) : (self.close t memory fd).Owned := by
  unfold WinSockets.close
  split_ifs
  · exact owned.keep call owned.registry rfl rfl trivial
  · exact owned.take (v := .s) call rfl rfl (fun s => SocketVar.ext rfl) (fun s socket => socket) trivial

theorem Owned.init (owned : self.Owned) (memory : Bool) (fd : Int) :
    ({ self with registry := (self.registry.fdToSocket memory fd).2 } : WinSockets w).Owned := by
  rw [fdToSocket_registry]
  obtain ⟨ok, table⟩ := init_spec memory owned.registry
  refine ⟨ok, owned.sound, owned.exclusive.congr fun p => place_of_content ?_, owned.calls, owned.misses⟩
  cases p with
  | slot i => exact congrArg (FdTable.socket · i) table
  | var _ _ | left _ => rfl

theorem Owned.derive (owned : self.Owned) (call : self.calls t = .idle)
    (new : s ≠ invalidSocket w → ¬ self.Open s) : (self.derive t memory fd s).Owned := by
  have started := owned.init memory fd
  unfold WinSockets.derive
  dsimp only
  split_ifs
  · exact started.keep call started.registry rfl rfl trivial
  · exact started.make (v := .s) call new rfl (SocketVar.ext rfl) rfl id trivial

theorem Owned.dup2 {newfd : Int} (owned : self.Owned) (call : self.calls t = .idle)
    (new : s ≠ invalidSocket w → ¬ self.Open s) : (self.dup2 t memory fd newfd s).Owned := by
  have started := owned.init memory fd
  unfold WinSockets.dup2
  dsimp only
  split_ifs
  · exact started.keep call started.registry rfl rfl trivial
  · exact started.keep call started.registry rfl rfl trivial
  · exact started.make (v := .s) call new rfl (SocketVar.ext rfl) rfl id trivial

theorem Owned.replace {newfd : Int} {x : BitVec w} (owned : self.Owned) (call : self.calls t = .replace newfd x) :
    (self.goOn t ok memory more s (.replace newfd x)).Owned := by
  have held : (SocketPc.replace newfd x).Valid := call ▸ owned.calls t
  have spec := fdReplace_spec owned.registry memory more newfd x
  simp only [WinSockets.goOn]
  generalize self.registry.fdReplace memory more newfd x = result at spec
  obtain ⟨replaced, registry⟩ := result
  obtain ⟨ok, ⟨rfl, table⟩ | ⟨i, inside, fd, rfl, table⟩⟩ := spec
  · exact owned.keep call ok table (SocketVar.ext rfl) held
  · refine owned.exchange (i := i) (v := .s) call ok ?_ ?_ ?_
    · rw [table]
      rfl
    · split_ifs with socket
      · exact SocketVar.ext rfl
      · rw [Decidable.not_not.mp socket]
        exact SocketVar.ext rfl
    · split_ifs with socket
      · exact socket
      · trivial

theorem Owned.goOn (owned : self.Owned) (call : self.calls t = old)
    (new : s ≠ invalidSocket w → ¬ self.Open s) : (self.goOn t ok memory more s old).Owned := by
  have held : old.Valid := call ▸ owned.calls t
  have stay {pc : SocketPc w} (same : pc.var = old.var) (valid : pc.Valid) : (self.put t pc).Owned :=
    owned.keep call owned.registry rfl same valid
  cases old with
  | idle => exact stay rfl trivial
  | made x => cases ok <;> exact stay (SocketVar.ext rfl) held
  | ready x =>
    simp only [WinSockets.goOn]
    exact owned.register (v := .s) call rfl (fun _ => SocketVar.ext rfl)
      (fun _ => SocketVar.ext rfl) (fun _ => held) fun _ => trivial
  | copied newfd x => cases ok <;> exact stay (SocketVar.ext rfl) held
  | replace newfd x => exact owned.replace call
  | closing x => exact owned.closesocket (v := .s) call held rfl (SocketVar.ext rfl) trivial
  | listen listener =>
    cases ok with
    | false => exact stay (SocketVar.ext rfl) trivial
    | true => exact stay (SocketVar.ext rfl) held
  | socket listener =>
    exact owned.make (v := .conn) call new rfl (SocketVar.ext rfl) (SocketVar.ext rfl) (fun _ => held) trivial
  | connect listener conn =>
    cases ok with
    | false => exact stay (SocketVar.ext rfl) trivial
    | true => exact stay (SocketVar.ext rfl) held
  | accept listener conn =>
    exact owned.make (v := .peer) call new rfl (SocketVar.ext rfl) (SocketVar.ext rfl) (fun _ => held) trivial
  | closeListener listener conn peer =>
    exact owned.closesocket (v := .listener) call held rfl (SocketVar.ext rfl) trivial
  | nonblockConn conn peer | nonblockPeer conn peer => cases ok <;> exact stay (SocketVar.ext rfl) trivial
  | registerConn conn peer =>
    simp only [WinSockets.goOn]
    exact owned.register (v := .conn) call rfl (fun _ => SocketVar.ext rfl)
      (fun _ => SocketVar.ext rfl) (fun _ => trivial) fun _ => trivial
  | registerPeer fd0 peer =>
    simp only [WinSockets.goOn]
    exact owned.register (v := .peer) call rfl (fun _ => SocketVar.ext rfl)
      (fun _ => SocketVar.ext rfl) (fun _ => trivial) fun _ => trivial
  | fail fd0 fd1 conn peer listener =>
    simp only [WinSockets.goOn]
    exact owned.unregister (v := .s) call rfl (SocketVar.ext rfl)
      (fun _ => SocketVar.ext rfl) (fun _ socket => socket) trivial
  | dropFirst x fd1 conn peer listener =>
    exact owned.closesocket (v := .s) call held rfl (SocketVar.ext rfl) trivial
  | failSecond fd1 conn peer listener =>
    simp only [WinSockets.goOn]
    exact owned.unregister (v := .s) call rfl (SocketVar.ext rfl)
      (fun _ => SocketVar.ext rfl) (fun _ socket => socket) trivial
  | dropSecond x conn peer listener =>
    exact owned.closesocket (v := .s) call held rfl (SocketVar.ext rfl) trivial
  | dropConn conn peer listener => exact owned.drop (v := .conn) call rfl (SocketVar.ext rfl) trivial
  | dropPeer peer listener => exact owned.drop (v := .peer) call rfl (SocketVar.ext rfl) trivial
  | dropListener listener => exact owned.drop (v := .listener) call rfl (SocketVar.ext rfl) trivial

theorem Owned.exec {act : SocketAct w} {next : WinSockets w} (owned : self.Owned)
    (new : act.made ≠ invalidSocket w → ¬ self.Open act.made) (step : self.exec t act = some next) : next.Owned := by
  unfold WinSockets.exec at step
  split at step
  case h_1 call => cases step; exact owned.make (v := .s) call new rfl (SocketVar.ext rfl) rfl id trivial
  case h_2 call => cases step; exact owned.derive call new
  case h_3 call => cases step; exact owned.derive call new
  case h_4 call => cases step; exact owned.dup2 call new
  case h_5 call => cases step; exact owned.close call
  case h_6 call =>
    cases step
    exact owned.make (v := .listener) call new rfl (SocketVar.ext rfl) rfl id trivial
  case h_7 => cases step
  case h_8 => cases step; exact owned.goOn rfl new
  case h_9 => cases step

theorem Owned.initial (w : Nat) : (WinSockets.init w).Owned where
  registry := empty_ok
  sound := .empty
  exclusive := by
    have none (p : Place) : (WinSockets.init w).place p = none := by
      cases p <;> exact place_none rfl
    constructor
    · intro p _ _ here
      cases (none p).symm.trans here
    · intro s
      constructor
      · intro isOpen
        cases isOpen
      · rintro ⟨p, here⟩
        cases (none p).symm.trans here
  calls _ := trivial
  misses := rfl

theorem mem_of_getD {list : List (BitVec w)} (here : list.getD i (invalidSocket w) = s) (valid : s ≠ invalidSocket w) :
    s ∈ list := by
  rw [List.getD_eq_getElem?_getD] at here
  cases found : list[i]? with
  | none =>
    rw [found] at here
    exact absurd here.symm valid
  | some x =>
    rw [found] at here
    exact List.mem_of_getElem? (found.trans (congrArg some here))

/-- Whatever the threads do and whichever call of the system fails, every socket that is
open is in one slot of the registry or in one variable of one call, or could not be closed;
each is closed at most once, and no call closes one that is not open. When no call is in
flight, the open sockets are those of the registry and those that could not be closed. -/
theorem sockets_have_one_owner {labels : List (Nat × SocketAct w)} {state : WinSockets w}
    (run : (system w).Run labels state) :
    state.misses = 0 ∧ state.sockets.Sound ∧
      (∀ s, state.Open s → ∃ p, state.place p = some s ∧ ∀ q, state.place q = some s → q = p) ∧
      (∀ p s, state.place p = some s → state.Open s) ∧
      ((∀ t, state.calls t = .idle) → ∀ s, state.Open s ↔
        s ≠ invalidSocket w ∧ ((∃ i, state.registry.table.socket i = s) ∨ s ∈ state.left)) := by
  have owned : state.Owned := by
    refine run.invariant Owned ?_ ?_
    · rintro _ rfl
      exact .initial w
    · exact fun _ _ _ owned step => owned.exec step.1 step.2
  have exclusive := owned.exclusive
  refine ⟨owned.misses, owned.sound, fun s isOpen => ?_, fun p s here => (exclusive.covers s).mpr ⟨p, here⟩,
    fun quiet s => ?_⟩
  · obtain ⟨p, here⟩ := (exclusive.covers s).mp isOpen
    exact ⟨p, here, fun q there => exclusive.single q p s there here⟩
  · rw [exclusive.covers]
    constructor
    · rintro ⟨p, here⟩
      obtain ⟨content, valid⟩ := place_eq_some here
      refine ⟨valid, ?_⟩
      cases p with
      | slot i => exact .inl ⟨i, content⟩
      | left i => exact .inr (mem_of_getD content valid)
      -- The variables of a thread without a call are not used.
      | var t v =>
        have unused : (state.calls t).var v = invalidSocket w := by rw [quiet t]; rfl
        exact absurd (content.symm.trans unused) valid
    · rintro ⟨valid, ⟨i, here⟩ | member⟩
      · exact ⟨.slot i, place_some here valid⟩
      · obtain ⟨i, here⟩ := List.mem_iff_getElem?.mp member
        exact ⟨.left i, place_some (by simp [content, here]) valid⟩

def execFresh (state : WinSockets w) (label : Nat × SocketAct w) : Option (WinSockets w) :=
  if label.2.made = invalidSocket w ∨ (state.sockets.number label.2.made).isSome = false then
    state.exec label.1 label.2
  else none

theorem execFresh_step (state : WinSockets w) (label : Nat × SocketAct w) (next : WinSockets w)
    (taken : state.execFresh label = some next) : (system w).step state label next := by
  unfold execFresh at taken
  split_ifs at taken with fresh
  refine ⟨fun valid isOpen => ?_, taken⟩
  rcases fresh with invalid | closed
  · exact valid invalid
  · exact Bool.noConfusion (closed.symm.trans isOpen)

/-- A pair of sockets whose first end another thread closes before the second end is in the
registry. -/
theorem sockets_have_one_owner_pair : ∃ labels state, (system 32).Run labels state ∧
    state.sockets.given = 3 ∧ state.sockets.back = [0, 1] ∧ state.misses = 0 := by
  have start : (system 32).Run [] (init 32) := .init rfl
  obtain ⟨state, run, final⟩ := start.exists_exec execFresh
    (fun state => state.sockets.given = 3 ∧ state.sockets.back = [0, 1]) execFresh_step
    [(0, .socketpair 7), (0, .goOn true true true 0xffffffff), (0, .goOn true true true 8),
      (0, .goOn true true true 0xffffffff), (0, .goOn true true true 9), (0, .goOn true true true 0xffffffff),
      (0, .goOn true true true 0xffffffff), (0, .goOn true true true 0xffffffff), (0, .goOn true true true 0xffffffff),
      (1, .close true 0x40000000), (0, .goOn true true true 0xffffffff), (1, .goOn true true true 0xffffffff)]
    (by decide +kernel)
  obtain ⟨given, back⟩ := of_decide_eq_true final
  exact ⟨_, state, run, given, back, (sockets_have_one_owner run).1⟩

end WinSockets

end HevTaskSystem
