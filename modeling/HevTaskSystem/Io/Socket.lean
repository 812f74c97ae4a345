import HevTaskSystem.Buffer.Circular
import HevTaskSystem.Foundation.Script

/-! Transfers over sockets that go on until all bytes are there.

With `MSG_WAITALL` the functions of `hev-task-io-socket.c` call the system until the whole
buffer, or the whole vector of buffers, has been transferred. A script says what the
system calls answer. The addresses of the transferred bytes are recorded in the order of
the stream; they are written by a receive and read by a send. The structures `iovec` of
the caller and of the local copy stand in one memory.
-/

set_option autoImplicit false

namespace HevTaskSystem

open Foundation

structure MsgFlags where
  waitall : Bool
  dontwait : Bool
  deriving DecidableEq

/-- What a system call returns: a number of bytes, `-1` with `EAGAIN`, or `-1` with another
error. After `EAGAIN`, `abort` is what the yielder returns when it is called. -/
inductive IoAnswer where
  | count (s : Nat)
  | again (abort : Bool)
  | error
  deriving DecidableEq

namespace IoAnswer

def result : IoAnswer → Int
  | .count s => s
  | .again _ => -1
  | .error => -1

def bytes : IoAnswer → Nat
  | .count s => s
  | .again _ => 0
  | .error => 0

/-- More bytes came, or the call is repeated after `EAGAIN`. -/
def smooth (flags : MsgFlags) : IoAnswer → Bool
  | .count s => s ≠ 0
  | .again abort => ¬ flags.dontwait ∧ ¬ abort
  | .error => false

end IoAnswer

/-! ## One buffer -/

/-- The local variables of the functions for one buffer, with the transferred bytes. -/
structure FlatIo where
  buf : Nat
  len : Nat
  size : Nat
  moved : List Nat

namespace FlatIo

def start (buf : Nat) (len : Nat) : FlatIo := ⟨buf, len, 0, []⟩

def offered (self : FlatIo) : List Nat := List.range' (self.buf + self.size) (self.len - self.size)

def transfer (self : FlatIo) (answer : IoAnswer) : FlatIo :=
  { self with moved := self.moved ++ self.offered.take answer.bytes }

theorem transfer_none {self : FlatIo} {answer : IoAnswer} (none : answer.bytes = 0) : self.transfer answer = self := by
  simp [transfer, none]

def returned (flags : MsgFlags) (self : FlatIo) (answer : IoAnswer) : Flow FlatIo (FlatIo × Int) :=
  if ¬ flags.waitall then .done (self, answer.result)
  else if answer.result ≤ 0 then .done (self, if self.size ≠ 0 then self.size else answer.result)
  else
    let self := { self with size := self.size + answer.bytes }
    if self.size < self.len then .next self else .done (self, self.size)

theorem returned_count {self : FlatIo} {flags : MsgFlags} (waitall : flags.waitall = true) {s : Nat} (positive : 0 < s) :
    self.returned flags (.count s) = if self.size + s < self.len then .next { self with size := self.size + s }
      else .done ({ self with size := self.size + s }, ↑(self.size + s)) := by
  rw [returned, if_neg (by simp [waitall]), if_neg (by simp [IoAnswer.result]; omega)]
  rfl

def pass (flags : MsgFlags) (yielder : Bool) (self : FlatIo) (answer : IoAnswer) : Flow FlatIo (FlatIo × Int) :=
  match answer with
  | .again abort =>
    if ¬ flags.dontwait then
      if yielder ∧ abort then .done (self, if self.size ≠ 0 then self.size else -2) else .next self
    else self.returned flags answer
  | _ => (self.transfer answer).returned flags answer

def Allows (self : FlatIo) (answer : IoAnswer) : Prop := answer.bytes ≤ self.offered.length

end FlatIo

def Socket.recv (buf : Nat) (len : Nat) (flags : MsgFlags) (yielder : Bool) : List IoAnswer → Flow FlatIo (FlatIo × Int) :=
  feed (FlatIo.pass flags yielder) (.start buf len)

def Socket.send (buf : Nat) (len : Nat) (flags : MsgFlags) (yielder : Bool) : List IoAnswer → Flow FlatIo (FlatIo × Int) :=
  feed (FlatIo.pass flags yielder) (.start buf len)

/-! ## A vector of buffers -/

structure MsgHdr where
  name : Nat
  namelen : Nat
  control : Nat
  controllen : Nat
  flags : Nat
  iov : Nat
  iovlen : Nat

structure RecvmsgAnswer where
  io : IoAnswer
  namelen : Nat
  controllen : Nat
  flags : Nat

namespace IoVec

def vector (iovs : Nat → IoVec) (iov : Nat) : Nat → List IoVec
  | 0 => []
  | n + 1 => iovs iov :: vector iovs (iov + 1) n

def total (vector : List IoVec) : Nat := (vector.map IoVec.len).sum

def copy (iovs : Nat → IoVec) (iov msgIov : Nat) (len : Nat) : Nat → (Nat → IoVec) × Nat
  | 0 => (iovs, len)
  | n + 1 =>
    let iovs := Function.update iovs iov (iovs msgIov)
    copy iovs (iov + 1) (msgIov + 1) (len + (iovs iov).len) n

/-- The loop that skips `s` bytes, with the number of elements it passes. -/
def advance (iovs : Nat → IoVec) (iov : Nat) (s : Nat) : Nat → (Nat → IoVec) × Nat
  | 0 => (iovs, 0)
  | n + 1 =>
    if s < (iovs iov).len then
      (Function.update iovs iov ⟨(iovs iov).base + s, (iovs iov).len - s⟩, 0)
    else
      let (iovs, i) := advance iovs (iov + 1) (s - (iovs iov).len) n
      (iovs, i + 1)

def removeFirst (s : Nat) : List IoVec → List IoVec
  | [] => []
  | iov :: rest => if s < iov.len then ⟨iov.base + s, iov.len - s⟩ :: rest else removeFirst (s - iov.len) rest

end IoVec

/-- The memory of `iovec` structures, the header of the caller and the local variables of the
functions for a vector, with the transferred bytes. -/
structure MsgIo where
  iovs : Nat → IoVec
  msg : MsgHdr
  mh : MsgHdr
  size : Nat
  len : Nat
  moved : List Nat

namespace MsgIo

/-- Up to the first system call, with the local array at `iov`. -/
def start (iovs : Nat → IoVec) (msg : MsgHdr) (iov : Nat) : MsgIo :=
  let (iovs, len) := IoVec.copy iovs iov msg.iov 0 msg.iovlen
  ⟨iovs, msg, { msg with iov := iov }, 0, len, []⟩

def remaining (self : MsgIo) : List IoVec := IoVec.vector self.iovs self.mh.iov self.mh.iovlen

def transfer (self : MsgIo) (answer : IoAnswer) : MsgIo :=
  { self with moved := self.moved ++ (IoVec.places self.remaining).take answer.bytes }

theorem transfer_none {self : MsgIo} {answer : IoAnswer} (none : answer.bytes = 0) : self.transfer answer = self := by
  simp [transfer, none]

def returned (flags : MsgFlags) (self : MsgIo) (answer : IoAnswer) : Flow MsgIo (MsgIo × Int) :=
  if ¬ flags.waitall then .done (self, answer.result)
  else if answer.result ≤ 0 then .done (self, if self.size ≠ 0 then self.size else answer.result)
  else
    let self := { self with size := self.size + answer.bytes }
    if self.size < self.len then
      let (iovs, i) := IoVec.advance self.iovs self.mh.iov answer.bytes self.mh.iovlen
      .next { self with iovs := iovs, mh := { self.mh with iov := self.mh.iov + i, iovlen := self.mh.iovlen - i } }
    else .done (self, self.size)

theorem returned_count {self : MsgIo} {flags : MsgFlags} (waitall : flags.waitall = true) {s : Nat} (positive : 0 < s)
    {iovs : Nat → IoVec} {i : Nat} (advanced : IoVec.advance self.iovs self.mh.iov s self.mh.iovlen = (iovs, i)) :
    self.returned flags (.count s) = if self.size + s < self.len then
        .next { self with
          iovs := iovs
          size := self.size + s
          mh := { self.mh with iov := self.mh.iov + i, iovlen := self.mh.iovlen - i } }
      else .done ({ self with size := self.size + s }, ↑(self.size + s)) := by
  rw [returned, if_neg (by simp [waitall]), if_neg (by simp [IoAnswer.result]; omega)]
  simp only [IoAnswer.bytes, advanced]

/-- From one system call to the next; `propagate` is what happens to the header of the caller
when the call has returned. -/
def pass (propagate : MsgIo → MsgIo) (flags : MsgFlags) (yielder : Bool) (self : MsgIo) (answer : IoAnswer) :
    Flow MsgIo (MsgIo × Int) :=
  match answer with
  | .again abort =>
    if ¬ flags.dontwait then
      if yielder ∧ abort then .done (self, if self.size ≠ 0 then self.size else -2) else .next self
    else (propagate self).returned flags answer
  | _ => (propagate (self.transfer answer)).returned flags answer

/-- The system call `recvmsg` writes to the local header. -/
def answered (self : MsgIo) (answer : RecvmsgAnswer) : MsgIo :=
  { self with mh := { self.mh with namelen := answer.namelen, controllen := answer.controllen, flags := answer.flags } }

def propagate (self : MsgIo) : MsgIo :=
  { self with msg :=
    { self.msg with flags := self.mh.flags, namelen := self.mh.namelen, controllen := self.mh.controllen } }

def recvmsgPass (flags : MsgFlags) (yielder : Bool) (self : MsgIo) (answer : RecvmsgAnswer) :
    Flow MsgIo (MsgIo × Int) :=
  (self.answered answer).pass propagate flags yielder answer.io

end MsgIo

def Socket.recvmsg (iovs : Nat → IoVec) (msg : MsgHdr) (iov : Nat) (flags : MsgFlags) (yielder : Bool) :
    List RecvmsgAnswer → Flow MsgIo (MsgIo × Int) :=
  feed (MsgIo.recvmsgPass flags yielder) (.start iovs msg iov)

def Socket.sendmsg (iovs : Nat → IoVec) (msg : MsgHdr) (iov : Nat) (flags : MsgFlags) (yielder : Bool) :
    List IoAnswer → Flow MsgIo (MsgIo × Int) :=
  feed (MsgIo.pass id flags yielder) (.start iovs msg iov)

/-! ## Vectors -/

namespace IoVec

variable {iovs : Nat → IoVec} {iov : Nat} {s : Nat}

@[simp] theorem length_places (vector : List IoVec) : (places vector).length = total vector := by
  simp [places, total, List.length_flatMap]

theorem places_removeFirst (vector : List IoVec) : places (removeFirst s vector) = (places vector).drop s := by
  induction vector generalizing s with
  | nil => simp [places, removeFirst]
  | cons iov rest ih =>
    have split : places (iov :: rest) = List.range' iov.base iov.len ++ places rest := rfl
    rw [split, List.drop_append, List.length_range', removeFirst]
    split_ifs with inside
    · rw [Nat.sub_eq_zero_of_le inside.le, List.drop_zero]
      simp [places, List.drop_range']
    · have passed : (List.range' iov.base iov.len).drop s = [] :=
        List.drop_eq_nil_of_le (by rw [List.length_range']; omega)
      rw [ih, passed, List.nil_append]

theorem removeFirst_removeFirst (more : Nat) (vector : List IoVec) :
    removeFirst more (removeFirst s vector) = removeFirst (s + more) vector := by
  induction vector generalizing s with
  | nil => rfl
  | cons iov rest ih =>
    simp only [removeFirst]
    by_cases inside : s < iov.len
    · simp only [inside, if_true, removeFirst]
      by_cases still : more < iov.len - s
      · simp only [still, if_true, show s + more < iov.len by omega]
        congr 2 <;> omega
      · simp only [still, if_false, show ¬ s + more < iov.len by omega]
        congr 1
        omega
    · simp only [inside, if_false, show ¬ s + more < iov.len by omega, ih]
      congr 1
      omega

theorem vector_congr {iovs' : Nat → IoVec} {n : Nat} (same : ∀ i < n, iovs' (iov + i) = iovs (iov + i)) :
    vector iovs' iov n = vector iovs iov n := by
  induction n generalizing iov with
  | zero => rfl
  | succ n ih =>
    simp only [vector]
    congr 1
    · exact same 0 (by omega)
    · refine ih fun i bound => ?_
      have there := same (i + 1) (by omega)
      rwa [show iov + (i + 1) = iov + 1 + i by omega] at there

theorem copy_spec {src : Nat} {n len : Nat} (apart : ∀ i < n, ∀ j < n, iov + i ≠ src + j) :
    vector (copy iovs iov src len n).1 iov n = vector iovs src n ∧
      (copy iovs iov src len n).2 = len + total (vector iovs src n) ∧
      ∀ a, a < iov ∨ iov + n ≤ a → (copy iovs iov src len n).1 a = iovs a := by
  induction n generalizing iovs iov src len with
  | zero => simp [copy, vector, total]
  | succ n ih =>
    have after := @ih (Function.update iovs iov (iovs src)) (iov + 1) (src + 1) (len + (iovs src).len)
      fun i left j right => by have := apart (i + 1) (by omega) (j + 1) (by omega); omega
    obtain ⟨copied, length, frame⟩ := after
    have source : vector (Function.update iovs iov (iovs src)) (src + 1) n = vector iovs (src + 1) n := by
      refine vector_congr fun i bound => Function.update_of_ne ?_ _ _
      have := apart 0 (by omega) (i + 1) (by omega)
      omega
    have first := frame iov (.inl (by omega))
    rw [Function.update_self] at first
    simp only [copy, Function.update_self, vector]
    refine ⟨by rw [first, copied, source], ?_, fun a outside => ?_⟩
    · rw [length, source]
      simp [total]
      omega
    · rw [frame a (by omega), Function.update_of_ne (by omega)]

/-- The elements from where the loop stops are the vector without its first bytes. If the
vector is longer than that, the loop stops at one of them. -/
theorem advance_spec (n : Nat) :
    vector (advance iovs iov s n).1 (iov + (advance iovs iov s n).2) (n - (advance iovs iov s n).2) =
        removeFirst s (vector iovs iov n) ∧
      (advance iovs iov s n).2 ≤ n ∧ (s < total (vector iovs iov n) → (advance iovs iov s n).2 < n) ∧
      ∀ a, a < iov ∨ iov + n ≤ a → (advance iovs iov s n).1 a = iovs a := by
  induction n generalizing iov s with
  | zero => simp [advance, vector, removeFirst, total]
  | succ n ih =>
    simp only [advance, vector, removeFirst]
    split_ifs with inside
    · refine ⟨?_, by omega, fun _ => by omega, fun a outside => Function.update_of_ne (by omega) _ _⟩
      simp only [Nat.add_zero, Nat.sub_zero, vector, Function.update_self]
      congr 1
      exact vector_congr fun i _ => Function.update_of_ne (by omega) _ _
    · obtain ⟨rest, bound, stops, frame⟩ := @ih (iov + 1) (s - (iovs iov).len)
      refine ⟨?_, by simpa using bound, fun more => ?_, fun a outside => frame a (by omega)⟩
      · rw [← rest]
        congr 1 <;> omega
      · have := stops (by simp [total] at more ⊢; omega)
        simpa using this

end IoVec

/-! ## Both -/

section Together

variable (iovs : Nat → IoVec) (msg : MsgHdr) (iov buf : Nat)

structure Caller (vec : MsgIo) : Prop where
  iov : vec.msg.iov = msg.iov
  iovlen : vec.msg.iovlen = msg.iovlen
  array : ∀ i < msg.iovlen, vec.iovs (msg.iov + i) = iovs (msg.iov + i)

/-- The bytes transferred so far are the first ones of the buffer, and of the vector. -/
structure Moved (flat : FlatIo) (vec : MsgIo) : Prop where
  size : vec.size = flat.size
  bound : flat.size ≤ IoVec.total (IoVec.vector iovs msg.iov msg.iovlen)
  buffer : flat.moved = List.range' buf flat.size
  vector : vec.moved = (IoVec.places (IoVec.vector iovs msg.iov msg.iovlen)).take flat.size

/-- Before a system call: the vector that is left is that of the caller without its first
`size` bytes, and it stands in the local array, at one of its elements if the vector was
advanced. -/
structure Together (flat : FlatIo) (vec : MsgIo) : Prop where
  moved : Moved iovs msg buf flat vec
  caller : Caller iovs msg vec
  places : IoVec.places vec.remaining = (IoVec.places (IoVec.vector iovs msg.iov msg.iovlen)).drop flat.size
  elements : vec.remaining = if flat.size = 0 then IoVec.vector iovs msg.iov msg.iovlen
    else IoVec.removeFirst flat.size (IoVec.vector iovs msg.iov msg.iovlen)
  array : iov ≤ vec.mh.iov ∧ vec.mh.iov + vec.mh.iovlen = iov + msg.iovlen
  inside : flat.size ≠ 0 → vec.mh.iov < iov + msg.iovlen
  buf : flat.buf = buf
  len : flat.len = IoVec.total (IoVec.vector iovs msg.iov msg.iovlen) ∧ vec.len = flat.len

/-- Both functions return the same value, and transferred the same bytes. -/
structure Ended (flat : FlatIo × Int) (vec : MsgIo × Int) : Prop where
  moved : Moved iovs msg buf flat.1 vec.1
  caller : Caller iovs msg vec.1
  value : vec.2 = flat.2
  count : flat.2 = flat.1.size ∨ flat.1.size = 0 ∧ flat.2 < 0

end Together

section Step

variable {iovs : Nat → IoVec} {msg : MsgHdr} {iov buf : Nat} {flat : FlatIo} {vec : MsgIo}

theorem Together.start (apart : ∀ i < msg.iovlen, ∀ j < msg.iovlen, iov + i ≠ msg.iov + j) :
    Together iovs msg iov buf (.start buf (IoVec.total (IoVec.vector iovs msg.iov msg.iovlen)))
      (.start iovs msg iov) := by
  obtain ⟨copied, length, frame⟩ := @IoVec.copy_spec iovs iov msg.iov msg.iovlen 0 apart
  have array : (MsgIo.start iovs msg iov).remaining = IoVec.vector iovs msg.iov msg.iovlen := copied
  refine ⟨⟨rfl, Nat.zero_le _, rfl, rfl⟩, ⟨rfl, rfl, fun i bound => frame _ ?_⟩, ?_, ?_, ⟨Nat.le_refl _, rfl⟩, ?_, rfl,
    rfl, ?_⟩
  · by_contra within
    have := apart (msg.iov + i - iov) (by omega) i bound
    omega
  · rw [array]
    rfl
  · rw [array]
    rfl
  · exact fun nonzero => absurd rfl nonzero
  · exact length.trans (Nat.zero_add _)

def Propagates (propagate : MsgIo → MsgIo) : Prop :=
  ∀ s, ∃ hdr : MsgHdr, hdr.iov = s.msg.iov ∧ hdr.iovlen = s.msg.iovlen ∧ propagate s = { s with msg := hdr }

variable {propagate : MsgIo → MsgIo} {flags : MsgFlags} {yielder : Bool} {answer : IoAnswer}

theorem Together.headers (together : Together iovs msg iov buf flat vec) {hdr mh : MsgHdr} (place : hdr.iov = vec.msg.iov)
    (length : hdr.iovlen = vec.msg.iovlen) (place' : mh.iov = vec.mh.iov) (length' : mh.iovlen = vec.mh.iovlen) :
    Together iovs msg iov buf flat { vec with msg := hdr, mh := mh } := by
  obtain ⟨⟨size, bound, buffer, vector⟩, ⟨first, second, array⟩, places, elements, there, inside, start, len⟩ := together
  have same : MsgIo.remaining { vec with msg := hdr, mh := mh } = vec.remaining := by
    simp only [MsgIo.remaining, place', length']
  refine ⟨⟨size, bound, buffer, vector⟩, ⟨place.trans first, length.trans second, array⟩, ?_, ?_, ?_, ?_, start, len⟩
  · rw [same, places]
  · rw [same, elements]
  · simpa only [place', length'] using there
  · simpa only [place'] using inside

theorem Together.transfer (together : Together iovs msg iov buf flat vec) (allows : flat.Allows answer) :
    Moved iovs msg buf { flat.transfer answer with size := flat.size + answer.bytes }
      { vec.transfer answer with size := vec.size + answer.bytes } := by
  obtain ⟨moved, -, places, -, -, -, start, len, -⟩ := together
  rw [FlatIo.Allows, FlatIo.offered, List.length_range', len] at allows
  have bound := moved.bound
  refine ⟨congrArg (· + answer.bytes) moved.size, by simp only; omega, ?_, ?_⟩
  · simp only [FlatIo.transfer, FlatIo.offered, moved.buffer, start]
    rw [List.take_range'_of_length_ge (by omega)]
    simp
  · simp only [MsgIo.transfer, moved.vector, places]
    rw [← List.take_add]

theorem Together.ended (together : Together iovs msg iov buf flat vec) {res : Int} (nonpositive : res ≤ 0) :
    Ended iovs msg buf (flat, if flat.size ≠ 0 then (flat.size : Int) else res)
      (vec, if vec.size ≠ 0 then (vec.size : Int) else res) := by
  refine ⟨together.moved, together.caller, by simp only [together.moved.size], ?_⟩
  by_cases nonzero : flat.size = 0
  · rcases Int.lt_or_eq_of_le nonpositive with negative | rfl
    · exact .inr ⟨nonzero, by simp [nonzero, negative]⟩
    · exact .inl (by simp [nonzero])
  · exact .inl (by simp [nonzero])

theorem Together.stop (together : Together iovs msg iov buf flat vec) (waitall : flags.waitall = true)
    (nonpositive : answer.result ≤ 0) :
    (flat.returned flags answer).Related (Together iovs msg iov buf) (Ended iovs msg buf) (vec.returned flags answer) := by
  have first : flat.returned flags answer = .done (flat, if flat.size ≠ 0 then (flat.size : Int) else answer.result) := by
    simp [FlatIo.returned, waitall, nonpositive]
  have second : vec.returned flags answer = .done (vec, if vec.size ≠ 0 then (vec.size : Int) else answer.result) := by
    simp [MsgIo.returned, waitall, nonpositive]
  rw [first, second]
  exact .done (together.ended nonpositive)

theorem Together.advance (together : Together iovs msg iov buf flat vec)
    (apart : ∀ i < msg.iovlen, ∀ j < msg.iovlen, iov + i ≠ msg.iov + j) {s i : Nat} (positive : 0 < s)
    {iovs' : Nat → IoVec}
    (advanced : IoVec.advance vec.iovs vec.mh.iov s vec.mh.iovlen = (iovs', i))
    (allows : flat.Allows (.count s)) (short : flat.size + s < flat.len) :
    Together iovs msg iov buf { flat.transfer (.count s) with size := flat.size + s }
      { vec.transfer (.count s) with
        iovs := iovs'
        size := vec.size + s
        mh := { vec.mh with iov := vec.mh.iov + i, iovlen := vec.mh.iovlen - i } } := by
  have moved := together.transfer allows
  obtain ⟨before, ⟨place, length, array⟩, places, elements, ⟨low, high⟩, -, start, len, len'⟩ := together
  obtain ⟨rest, bound, stops, frame⟩ := @IoVec.advance_spec vec.iovs vec.mh.iov s vec.mh.iovlen
  simp only [advanced] at rest bound stops frame
  have left : IoVec.total (IoVec.vector vec.iovs vec.mh.iov vec.mh.iovlen) = flat.len - flat.size := by
    rw [← IoVec.length_places, ← MsgIo.remaining, places, List.length_drop, IoVec.length_places, len]
  have removed : IoVec.removeFirst s vec.remaining =
      IoVec.removeFirst (flat.size + s) (IoVec.vector iovs msg.iov msg.iovlen) := by
    rw [elements]
    split_ifs with none
    · rw [none, Nat.zero_add]
    · rw [IoVec.removeFirst_removeFirst]
  have stop := stops (by omega)
  refine ⟨⟨moved.size, moved.bound, moved.buffer, moved.vector⟩, ⟨place, length, fun j inside => ?_⟩, ?_, ?_, ?_, ?_,
    start, len, len'⟩
  · have outside : msg.iov + j < vec.mh.iov ∨ vec.mh.iov + vec.mh.iovlen ≤ msg.iov + j := by
      by_contra within
      have := apart (msg.iov + j - iov) (by omega) j inside
      omega
    exact (frame _ outside).trans (array j inside)
  · refine (congrArg IoVec.places (rest.trans removed)).trans ?_
    rw [IoVec.places_removeFirst]
  · exact (rest.trans removed).trans (if_neg (by simp only; omega)).symm
  · simp only
    omega
  · simp only
    omega

theorem Together.more (together : Together iovs msg iov buf flat vec)
    (apart : ∀ i < msg.iovlen, ∀ j < msg.iovlen, iov + i ≠ msg.iov + j) (waitall : flags.waitall = true) {s : Nat}
    (positive : 0 < s) (allows : flat.Allows (.count s)) :
    ((flat.transfer (.count s)).returned flags (.count s)).Related (Together iovs msg iov buf)
      (Ended iovs msg buf) ((vec.transfer (.count s)).returned flags (.count s)) := by
  have moved := together.transfer allows
  have size : (vec.transfer (.count s)).size = (flat.transfer (.count s)).size := together.moved.size
  have len : (vec.transfer (.count s)).len = (flat.transfer (.count s)).len := together.len.2
  rw [FlatIo.returned_count waitall positive, MsgIo.returned_count waitall positive rfl]
  split_ifs with short short' short'
  · exact .next (together.advance apart positive rfl allows short)
  · omega
  · omega
  · obtain ⟨place, length, array⟩ := together.caller
    exact .done ⟨moved, ⟨place, length, array⟩, congrArg Nat.cast moved.size, .inl rfl⟩

theorem Together.pass (together : Together iovs msg iov buf flat vec) (propagates : Propagates propagate)
    (apart : ∀ i < msg.iovlen, ∀ j < msg.iovlen, iov + i ≠ msg.iov + j) (waitall : flags.waitall = true)
    (allows : flat.Allows answer) :
    (flat.pass flags yielder answer).Related (Together iovs msg iov buf) (Ended iovs msg buf)
      (vec.pass propagate flags yielder answer) := by
  obtain ⟨hdr, place, length, same⟩ := propagates (vec.transfer answer)
  have kept : Together iovs msg iov buf flat { vec with msg := hdr } := together.headers place length rfl rfl
  have repropagated : propagate (vec.transfer answer) = MsgIo.transfer { vec with msg := hdr } answer := same
  cases answer with
  | again abort =>
    simp only [FlatIo.pass, MsgIo.pass]
    by_cases wait : flags.dontwait = true
    · rw [MsgIo.transfer_none rfl, MsgIo.transfer_none rfl] at repropagated
      simp only [wait, not_true, if_false, repropagated]
      exact kept.stop waitall (show (-1 : Int) ≤ 0 by decide)
    · by_cases asked : yielder = true ∧ abort = true
      · simp only [wait, if_true, asked, and_self]
        exact .done (together.ended (by decide))
      · simp only [wait, asked, if_false]
        exact .next together
  | error =>
    simp only [FlatIo.pass, MsgIo.pass, repropagated]
    rw [FlatIo.transfer_none rfl, MsgIo.transfer_none rfl]
    exact kept.stop waitall (by decide)
  | count s =>
    simp only [FlatIo.pass, MsgIo.pass, repropagated]
    rcases Nat.eq_zero_or_pos s with rfl | positive
    · rw [FlatIo.transfer_none rfl, MsgIo.transfer_none rfl]
      exact kept.stop waitall (by decide)
    · exact kept.more apart waitall positive allows

end Step

theorem Together.recvmsgPass {iovs : Nat → IoVec} {msg : MsgHdr} {iov buf : Nat} {flat : FlatIo} {vec : MsgIo}
    (together : Together iovs msg iov buf flat vec)
    (apart : ∀ i < msg.iovlen, ∀ j < msg.iovlen, iov + i ≠ msg.iov + j) {flags : MsgFlags}
    (waitall : flags.waitall = true) {yielder : Bool} {answer : RecvmsgAnswer} (allows : flat.Allows answer.io) :
    (flat.pass flags yielder answer.io).Related (Together iovs msg iov buf) (Ended iovs msg buf)
      (vec.recvmsgPass flags yielder answer) := by
  have propagates : Propagates MsgIo.propagate := fun s => ⟨s.propagate.msg, rfl, rfl, rfl⟩
  have answered : Together iovs msg iov buf flat (vec.answered answer) := together.headers rfl rfl rfl rfl
  exact answered.pass propagates apart waitall allows

theorem FlatIo.pass_smooth {flags : MsgFlags} (waitall : flags.waitall = true) {yielder : Bool} {total : Nat}
    {flat : FlatIo} {answer : IoAnswer} (before : flat.len = total ∧ flat.size ≤ total)
    (good : flat.Allows answer ∧ answer.smooth flags) :
    (flat.pass flags yielder answer).Meets (fun flat => flat.len = total ∧ flat.size ≤ total)
      fun result => result.2 = (total : Int) := by
  obtain ⟨rfl, bound⟩ := before
  obtain ⟨allows, smooth⟩ := good
  cases answer with
  | again abort =>
    simp only [IoAnswer.smooth, Bool.decide_and] at smooth
    simp_all [pass, Flow.Meets]
  | error => exact nomatch smooth
  | count s =>
    simp only [IoAnswer.smooth, decide_eq_true_eq] at smooth
    simp only [Allows, offered, List.length_range', IoAnswer.bytes] at allows
    simp only [pass, returned_count waitall (Nat.pos_of_ne_zero smooth)]
    by_cases short : (flat.transfer (.count s)).size + s < (flat.transfer (.count s)).len
    · rw [if_pos short]
      exact ⟨rfl, short.le⟩
    · rw [if_neg short]
      have all : flat.len ≤ flat.size + s := Nat.le_of_not_lt short
      exact congrArg Nat.cast (show flat.size + s = flat.len by omega)

theorem full_of_smooth {iovs : Nat → IoVec} {msg : MsgHdr} {iov buf len : Nat} {flags : MsgFlags}
    (waitall : flags.waitall = true) {yielder : Bool} {answers : List IoAnswer}
    (fits : Fits (FlatIo.pass flags yielder) FlatIo.Allows (.start buf len) answers)
    (smooth : ∀ answer ∈ answers, answer.smooth flags) {state : MsgIo} {value : Int}
    (related : (feed (FlatIo.pass flags yielder) (.start buf len) answers).Related (Together iovs msg iov buf)
      (Ended iovs msg buf) (.done (state, value))) : value = len := by
  have meets := feed_meets (fun _ _ before good => FlatIo.pass_smooth waitall before good)
    (show (FlatIo.start buf len).len = len ∧ (FlatIo.start buf len).size ≤ len from ⟨rfl, Nat.zero_le _⟩)
    (fits.and_of_forall smooth)
  obtain ⟨result, done, ended⟩ := related.exists_done
  rw [done] at meets
  exact ended.value.trans meets

/-- A function for a vector returns what the function for one buffer of the same length
returns and transfers the same bytes, and if nothing intervenes that is the length. -/
theorem scatter_gather_agrees (iovs : Nat → IoVec) (msg : MsgHdr) (iov buf : Nat)
    (apart : ∀ i < msg.iovlen, ∀ j < msg.iovlen, iov + i ≠ msg.iov + j) (flags : MsgFlags)
    (waitall : flags.waitall = true) (yielder : Bool) {len : Nat}
    (length : len = IoVec.total (IoVec.vector iovs msg.iov msg.iovlen)) :
    (∀ answers : List RecvmsgAnswer,
      Fits (FlatIo.pass flags yielder) FlatIo.Allows (.start buf len) (answers.map RecvmsgAnswer.io) →
      (Socket.recv buf len flags yielder (answers.map RecvmsgAnswer.io)).Related (Together iovs msg iov buf)
        (Ended iovs msg buf) (Socket.recvmsg iovs msg iov flags yielder answers) ∧
      ((∀ answer ∈ answers, answer.io.smooth flags) → ∀ state value,
        Socket.recvmsg iovs msg iov flags yielder answers = .done (state, value) → value = len)) ∧
    (∀ answers : List IoAnswer, Fits (FlatIo.pass flags yielder) FlatIo.Allows (.start buf len) answers →
      (Socket.send buf len flags yielder answers).Related (Together iovs msg iov buf) (Ended iovs msg buf)
        (Socket.sendmsg iovs msg iov flags yielder answers) ∧
      ((∀ answer ∈ answers, answer.smooth flags) → ∀ state value,
        Socket.sendmsg iovs msg iov flags yielder answers = .done (state, value) → value = len)) := by
  have together : Together iovs msg iov buf (.start buf len) (.start iovs msg iov) := length ▸ Together.start apart
  refine ⟨fun answers fits => ?_, fun answers fits => ?_⟩
  · have related : (Socket.recv buf len flags yielder _).Related _ _ (Socket.recvmsg iovs msg iov flags yielder answers) :=
      feed_related (fun _ _ answer together allows => together.recvmsgPass apart waitall allows) together fits
    refine ⟨related, fun smooth state value done => ?_⟩
    refine full_of_smooth waitall fits ?_ (done ▸ related)
    exact fun answer member => (List.mem_map.mp member).elim fun other ⟨there, same⟩ => same ▸ smooth other there
  · have propagates : Propagates id := fun s => ⟨s.msg, rfl, rfl, rfl⟩
    have related : (Socket.send buf len flags yielder answers).Related (Together iovs msg iov buf) (Ended iovs msg buf)
        (Socket.sendmsg iovs msg iov flags yielder answers) := by
      have both := feed_related (fun _ _ answer together allows => together.pass propagates apart waitall allows)
        together ((List.map_id answers).symm ▸ fits)
      rwa [List.map_id] at both
    exact ⟨related, fun smooth state value done => full_of_smooth waitall fits smooth (done ▸ related)⟩

/-- Five bytes for two buffers with an empty one between them come in three parts, which end
inside the first buffer, inside the last one, and at its end. -/
theorem scatter_gather_agrees_split : ∃ iovs flat state,
    Socket.recv 50 5 ⟨true, false⟩ true [.count 1, .again false, .count 2, .count 2] = .done (flat, 5) ∧
      Socket.recvmsg iovs ⟨0, 0, 0, 0, 0, 10, 3⟩ 20 ⟨true, false⟩ true
        [⟨.count 1, 0, 0, 0⟩, ⟨.again false, 0, 0, 0⟩, ⟨.count 2, 0, 0, 0⟩, ⟨.count 2, 0, 0, 0⟩] = .done (state, 5) ∧
      flat.moved = [50, 51, 52, 53, 54] ∧ state.moved = [100, 101, 300, 301, 302] ∧
      Ended iovs ⟨0, 0, 0, 0, 0, 10, 3⟩ 50 (flat, 5) (state, 5) := by
  refine ⟨fun a => if a = 10 then ⟨100, 2⟩ else if a = 12 then ⟨300, 3⟩ else ⟨200, 0⟩, _, _, rfl, rfl, rfl, rfl, ?_⟩
  have fits : Fits (FlatIo.pass ⟨true, false⟩ true) FlatIo.Allows (.start 50 5)
      [.count 1, .again false, .count 2, .count 2] := by
    refine ⟨?_, ?_, ?_, ?_, trivial⟩ <;> exact Nat.le_of_ble_eq_true rfl
  have related := (scatter_gather_agrees (fun a => if a = 10 then ⟨100, 2⟩ else if a = 12 then ⟨300, 3⟩ else ⟨200, 0⟩)
    ⟨0, 0, 0, 0, 0, 10, 3⟩ 20 50 (fun i left j right => by simp only at left right ⊢; omega) ⟨true, false⟩ rfl true rfl).1
    [⟨.count 1, 0, 0, 0⟩, ⟨.again false, 0, 0, 0⟩, ⟨.count 2, 0, 0, 0⟩, ⟨.count 2, 0, 0, 0⟩] fits
  obtain ⟨result, done, ended⟩ := related.1.exists_done
  cases done
  exact ended

end HevTaskSystem
