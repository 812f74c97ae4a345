import HevTaskSystem.Io.Socket

/-! The ancillary data of `hev_task_io_socket_sendmsg` and `hev_task_io_socket_recvmsg`.

Every system call of a retry loop is given the same local header. To the loop of a send we
add the ancillary data that the accepted calls were given, to the loop of a receive the
ancillary data that they attached and the memory where these are stored. Nothing takes the
data out of the header after the first accepted call, so each further one sends them again,
or reports its own in their place.
-/

set_option autoImplicit false

namespace HevTaskSystem

open Foundation

def IoAnswer.accepted : IoAnswer → Bool
  | .count _ => true
  | .again _ => false
  | .error => false

def MsgHdr.ancillary (hdr : MsgHdr) : Nat × Nat := (hdr.control, hdr.controllen)

/-! ## What a pass does to the headers -/

namespace MsgIo

variable {propagate : MsgIo → MsgIo} {flags : MsgFlags} {yielder : Bool} {self : MsgIo} {answer : IoAnswer}

theorem pass_failed (waitall : flags.waitall = true) (failed : answer.accepted = false)
    (propagates : ∃ hdr, propagate self = { self with msg := hdr }) :
    self.pass propagate flags yielder answer = .next self ∨
      ∃ hdr error : _, (hdr = self.msg ∨ hdr = (propagate self).msg) ∧ error < 0 ∧
        self.pass propagate flags yielder answer =
          .done ({ self with msg := hdr }, if self.size ≠ 0 then (self.size : Int) else error) := by
  obtain ⟨hdr, same⟩ := propagates
  have stop : ∀ {other : IoAnswer}, other.result = -1 → (propagate self).returned flags other =
      .done ({ self with msg := hdr }, if self.size ≠ 0 then (self.size : Int) else -1) := by
    intro other value
    simp [same, returned, waitall, value]
  cases answer with
  | count s => cases failed
  | error =>
    refine .inr ⟨hdr, -1, .inr (by rw [same]), by decide, ?_⟩
    simp only [pass, transfer_none (show IoAnswer.error.bytes = 0 from rfl)]
    exact stop rfl
  | again abort =>
    simp only [pass]
    by_cases wait : flags.dontwait = true
    · rw [if_neg (by simp [wait])]
      exact .inr ⟨hdr, -1, .inr (by rw [same]), by decide, stop rfl⟩
    · rw [if_pos wait]
      by_cases asked : yielder = true ∧ abort = true
      · rw [if_pos asked]
        exact .inr ⟨self.msg, -2, .inl rfl, by decide, rfl⟩
      · exact .inl (if_neg asked)

theorem pass_accepted (waitall : flags.waitall = true) {s : Nat} {next : MsgIo}
    (propagated : propagate (self.transfer (.count s)) = next) :
    (self.pass propagate flags yielder (.count s)).Meets
      (fun after => after.mh.ancillary = next.mh.ancillary ∧ after.msg = next.msg ∧ 0 < after.size)
      fun result => result.1.msg = next.msg ∧ 0 ≤ result.2 := by
  simp only [pass, propagated]
  rcases Nat.eq_zero_or_pos s with rfl | positive
  · have stop : next.returned flags (.count 0) = .done (next, if next.size ≠ 0 then (next.size : Int) else 0) := by
      simp [returned, waitall, IoAnswer.result]
    rw [stop]
    refine ⟨rfl, ?_⟩
    split
    · exact Int.natCast_nonneg _
    · exact Int.le_refl 0
  · rw [returned_count waitall positive rfl]
    split
    · exact ⟨rfl, rfl, Nat.add_pos_right _ positive⟩
    · exact ⟨rfl, Int.natCast_nonneg _⟩

end MsgIo

/-! ## Sending -/

/-- The loop of a send, with the ancillary data that its accepted calls were given. -/
structure SendControl where
  io : MsgIo
  offers : List (Nat × Nat)

namespace SendControl

/-- The system call `sendmsg` is given the local header. -/
def offer (self : SendControl) (answer : IoAnswer) : List (Nat × Nat) :=
  if answer.accepted then self.offers ++ [self.io.mh.ancillary] else self.offers

def pass (flags : MsgFlags) (yielder : Bool) (self : SendControl) (answer : IoAnswer) :
    Flow SendControl (SendControl × Int) :=
  (self.io.pass id flags yielder answer).map (fun io => ⟨io, self.offer answer⟩)
    fun result => (⟨result.1, self.offer answer⟩, result.2)

def Single (self : SendControl) (answer : IoAnswer) : Prop := answer.accepted = true → self.offers = []

/-- Before a system call: nothing was sent, or the data were sent with the first bytes. -/
structure Sent (msg : MsgHdr) (state : SendControl) : Prop where
  header : state.io.mh.ancillary = msg.ancillary
  once : state.offers = [] ∧ state.io.size = 0 ∨ state.offers = [msg.ancillary] ∧ 0 < state.io.size

/-- The data were sent once if the function succeeds, and not at all if it fails. -/
structure SentOnce (msg : MsgHdr) (result : SendControl × Int) : Prop where
  success : 0 ≤ result.2 → result.1.offers = [msg.ancillary]
  failure : result.2 < 0 → result.1.offers = []

variable {msg : MsgHdr} {flags : MsgFlags} {yielder : Bool} {self : SendControl} {answer : IoAnswer}

theorem Sent.pass (sent : self.Sent msg) (waitall : flags.waitall = true) (single : self.Single answer) :
    (self.pass flags yielder answer).Meets (Sent msg) (SentOnce msg) := by
  obtain ⟨header, once⟩ := sent
  rw [SendControl.pass, Flow.meets_map]
  cases accepted : answer.accepted with
  | true =>
    cases answer with
    | again abort => cases accepted
    | error => cases accepted
    | count s =>
      have offers : self.offer (.count s) = [msg.ancillary] := by
        simp [offer, accepted, single accepted, header]
      refine (MsgIo.pass_accepted waitall rfl).imp (fun io after => ?_) fun result after => ?_
      · exact ⟨after.1.trans header, .inr ⟨offers, after.2.2⟩⟩
      · exact ⟨fun _ => offers, fun negative => absurd after.2 (Int.not_le.mpr negative)⟩
  | false =>
    have offers : self.offer answer = self.offers := by simp [offer, accepted]
    rcases @MsgIo.pass_failed id flags yielder self.io answer waitall accepted ⟨self.io.msg, rfl⟩ with
      again | ⟨hdr, error, -, negative, stop⟩
    · rw [again, offers]
      exact ⟨header, once⟩
    · rw [stop, offers]
      rcases once with ⟨none, zero⟩ | ⟨some, positive⟩
      · simp only [zero, ne_eq, not_true, if_false]
        exact ⟨fun success => absurd success (Int.not_le.mpr negative), fun _ => none⟩
      · simp only [positive.ne', ne_eq, not_false_eq_true, if_true]
        exact ⟨fun _ => some, fun failure => absurd (Int.natCast_nonneg _) (Int.not_le.mpr failure)⟩

end SendControl

/-- The function `hev_task_io_socket_sendmsg`, with the ancillary data that are sent. -/
def Socket.sendmsgControl (iovs : Nat → IoVec) (msg : MsgHdr) (iov : Nat) (flags : MsgFlags) (yielder : Bool) :
    List IoAnswer → Flow SendControl (SendControl × Int) :=
  feed (SendControl.pass flags yielder) ⟨.start iovs msg iov, []⟩

/-! ## Receiving -/

/-- What `recvmsg` returns and writes to the header, and the ancillary data that it stores. -/
structure ControlAnswer where
  answer : RecvmsgAnswer
  control : List UInt8

/-- The loop of a receive, with the memory of the ancillary data and the data that the
accepted calls attached. -/
structure RecvControl where
  io : MsgIo
  memory : Nat → UInt8
  attached : List (List UInt8)

def storeBytes (memory : Nat → UInt8) (place : Nat) : List UInt8 → Nat → UInt8
  | [] => memory
  | byte :: bytes => storeBytes (Function.update memory place byte) (place + 1) bytes

def loadBytes (memory : Nat → UInt8) (place length : Nat) : List UInt8 :=
  (List.range' place length).map memory

theorem storeBytes_of_lt {bytes : List UInt8} {memory : Nat → UInt8} {place a : Nat} (before : a < place) :
    storeBytes memory place bytes a = memory a := by
  induction bytes generalizing memory place with
  | nil => rfl
  | cons byte bytes ih => rw [storeBytes, ih (by omega), Function.update_of_ne (by omega)]

theorem loadBytes_storeBytes (memory : Nat → UInt8) (place : Nat) (bytes : List UInt8) :
    loadBytes (storeBytes memory place bytes) place bytes.length = bytes := by
  induction bytes generalizing memory place with
  | nil => rfl
  | cons byte bytes ih =>
    have first : storeBytes (Function.update memory place byte) (place + 1) bytes place = byte := by
      rw [storeBytes_of_lt (Nat.lt_succ_self place), Function.update_self]
    have rest := ih (Function.update memory place byte) (place + 1)
    rw [loadBytes] at rest
    rw [loadBytes, storeBytes, List.length_cons, List.range'_succ, List.map_cons, first, rest]

namespace RecvControl

/-- The system call `recvmsg` stores the ancillary data. -/
def received (self : RecvControl) (io : MsgIo) (answer : ControlAnswer) : RecvControl :=
  if answer.answer.io.accepted then
    ⟨io, storeBytes self.memory self.io.mh.control answer.control, self.attached ++ [answer.control]⟩
  else ⟨io, self.memory, self.attached⟩

def pass (flags : MsgFlags) (yielder : Bool) (self : RecvControl) (answer : ControlAnswer) :
    Flow RecvControl (RecvControl × Int) :=
  (self.io.recvmsgPass flags yielder answer.answer).map (fun io => self.received io answer)
    fun result => (self.received result.1 answer, result.2)

/-- What the system does: an accepted call stores no more than there is room for and says
how much it stored, a failing one leaves the header alone. -/
structure Kernel (state : RecvControl) (answer : ControlAnswer) : Prop where
  accepted : answer.answer.io.accepted = true →
    answer.control.length ≤ state.io.mh.controllen ∧ answer.answer.controllen = answer.control.length
  failed : answer.answer.io.accepted = false → state.io.answered answer.answer = state.io

def Single (self : RecvControl) (answer : ControlAnswer) : Prop :=
  answer.answer.io.accepted = true → self.attached = []

/-- The data are in the memory of the caller, and their length is in the header. -/
structure Stored (msg : MsgHdr) (state : RecvControl) (control : List UInt8) : Prop where
  place : state.io.msg.control = msg.control
  length : state.io.msg.controllen = control.length
  bytes : loadBytes state.memory msg.control control.length = control

/-- Before a system call: nothing was received, or the data came with the first bytes. -/
structure Received (msg : MsgHdr) (state : RecvControl) : Prop where
  place : state.io.msg.control = msg.control ∧ state.io.mh.control = msg.control
  once : state.attached = [] ∧ state.io.size = 0 ∨ ∃ control, state.attached = [control] ∧ 0 < state.io.size ∧
    state.Stored msg control ∧ state.io.mh.controllen = control.length

/-- The data of the first accepted call are still there. -/
structure ReceivedOnce (msg : MsgHdr) (result : RecvControl × Int) : Prop where
  success : 0 ≤ result.2 → result.1.attached ≠ []
  kept : ∀ control rest, result.1.attached = control :: rest → result.1.Stored msg control

variable {msg : MsgHdr} {flags : MsgFlags} {yielder : Bool} {self : RecvControl} {answer : ControlAnswer}

theorem Received.pass (got : self.Received msg) (waitall : flags.waitall = true)
    (allowed : self.Kernel answer ∧ self.Single answer) :
    (self.pass flags yielder answer).Meets (Received msg) (ReceivedOnce msg) := by
  obtain ⟨⟨place, place'⟩, once⟩ := got
  obtain ⟨kernel, single⟩ := allowed
  rw [RecvControl.pass, Flow.meets_map]
  cases accepted : answer.answer.io.accepted with
  | true =>
    obtain ⟨s, count⟩ : ∃ s, answer.answer.io = .count s := by
      cases io : answer.answer.io with
      | count s => exact ⟨s, rfl⟩
      | again abort | error => simp [io, IoAnswer.accepted] at accepted
    obtain ⟨-, length⟩ := kernel.accepted accepted
    have received : ∀ io, self.received io answer =
        ⟨io, storeBytes self.memory msg.control answer.control, [answer.control]⟩ := by
      intro io
      simp [RecvControl.received, accepted, single accepted, place']
    -- The header of the caller gets the length, whether the loop goes on or not.
    have stored : ∀ io : MsgIo, io.msg = { self.io.msg with
          flags := answer.answer.flags, namelen := answer.answer.namelen, controllen := answer.answer.controllen } →
        Stored msg ⟨io, storeBytes self.memory msg.control answer.control, [answer.control]⟩ answer.control := by
      intro io hdr
      refine ⟨?_, ?_, loadBytes_storeBytes self.memory msg.control answer.control⟩
      · rw [hdr, place]
      · rw [hdr, length]
    rw [MsgIo.recvmsgPass, count]
    refine (MsgIo.pass_accepted waitall rfl).imp (fun io after => ?_) fun result after => ?_
    · obtain ⟨header, hdr, positive⟩ := after
      have stored := stored io hdr
      rw [received]
      exact ⟨⟨stored.place, (congrArg Prod.fst header).trans place'⟩,
        .inr ⟨_, rfl, positive, stored, (congrArg Prod.snd header).trans length⟩⟩
    · rw [received]
      refine ⟨fun _ => List.cons_ne_nil _ _, fun control rest same => ?_⟩
      cases same
      exact stored result.1 after.1
  | false =>
    have received : ∀ io, self.received io answer = { self with io := io } := by
      intro io
      simp [RecvControl.received, accepted]
    have same := kernel.failed accepted
    rw [MsgIo.recvmsgPass, same]
    rcases @MsgIo.pass_failed MsgIo.propagate flags yielder self.io answer.answer.io waitall accepted
      ⟨self.io.propagate.msg, rfl⟩ with again | ⟨hdr, error, header, negative, stop⟩
    · rw [again]
      simp only [Flow.Meets, received]
      exact ⟨⟨place, place'⟩, once⟩
    · rw [stop]
      simp only [Flow.Meets, received]
      rcases once with ⟨none, zero⟩ | ⟨control, some, positive, stored, length⟩
      · refine ⟨fun success => ?_, fun control rest same => ?_⟩
        · simp only [zero, ne_eq, not_true, if_false] at success
          exact absurd success (Int.not_le.mpr negative)
        · exact absurd (none.symm.trans same) (by simp)
      · refine ⟨fun _ => by simp [some], fun other rest same => ?_⟩
        cases some.symm.trans same
        -- What is propagated is the length that the first call reported.
        have control' : hdr.control = msg.control ∧ hdr.controllen = control.length := by
          rcases header with rfl | rfl
          · exact ⟨place, stored.length⟩
          · exact ⟨place, length⟩
        exact ⟨control'.1, control'.2, stored.bytes⟩

end RecvControl

/-- The function `hev_task_io_socket_recvmsg`, with the ancillary data that are stored. -/
def Socket.recvmsgControl (iovs : Nat → IoVec) (msg : MsgHdr) (iov : Nat) (flags : MsgFlags) (yielder : Bool)
    (memory : Nat → UInt8) : List ControlAnswer → Flow RecvControl (RecvControl × Int) :=
  feed (RecvControl.pass flags yielder) ⟨.start iovs msg iov, memory, []⟩

/-- With `MSG_WAITALL`, if no system call of the loop is accepted after another one: a send
that succeeds gave the ancillary data to one accepted call, and when a receive returns, the
data that the first accepted call attached are where the caller expects them. -/
theorem ancillary_data_once (iovs : Nat → IoVec) (msg : MsgHdr) (iov : Nat) (flags : MsgFlags)
    (waitall : flags.waitall = true) (yielder : Bool) (memory : Nat → UInt8) :
    (∀ answers result, Fits (SendControl.pass flags yielder) SendControl.Single ⟨.start iovs msg iov, []⟩ answers →
      Socket.sendmsgControl iovs msg iov flags yielder answers = .done result → SendControl.SentOnce msg result) ∧
    (∀ answers result, Fits (RecvControl.pass flags yielder)
        (fun state answer => state.Kernel answer ∧ state.Single answer) ⟨.start iovs msg iov, memory, []⟩ answers →
      Socket.recvmsgControl iovs msg iov flags yielder memory answers = .done result →
        RecvControl.ReceivedOnce msg result) := by
  constructor
  · intro answers result fits done
    have start : SendControl.Sent msg ⟨.start iovs msg iov, []⟩ := ⟨rfl, .inl ⟨rfl, rfl⟩⟩
    have meets := feed_meets (fun _ _ sent single => sent.pass waitall single) start fits
    rw [← Socket.sendmsgControl, done] at meets
    exact meets
  · intro answers result fits done
    have start : RecvControl.Received msg ⟨.start iovs msg iov, memory, []⟩ := ⟨⟨rfl, rfl⟩, .inl ⟨rfl, rfl⟩⟩
    have meets := feed_meets (fun _ _ got allowed => got.pass waitall allowed) start fits
    rw [← Socket.recvmsgControl, done] at meets
    exact meets

/-- Two bytes are sent, and received, by the call after one that failed with `EAGAIN`. -/
theorem ancillary_data_once_again : ∃ sent got,
    Socket.sendmsgControl (fun _ => ⟨100, 2⟩) ⟨0, 0, 500, 16, 0, 10, 1⟩ 20 ⟨true, false⟩ false
        [.again false, .count 2] = .done (sent, 2) ∧
      sent.offers = [(500, 16)] ∧
    Socket.recvmsgControl (fun _ => ⟨100, 2⟩) ⟨0, 0, 500, 16, 0, 10, 1⟩ 20 ⟨true, false⟩ false (fun _ => 0)
        [⟨⟨.again false, 0, 16, 0⟩, []⟩, ⟨⟨.count 2, 0, 4, 0⟩, [1, 2, 3, 4]⟩] = .done (got, 2) ∧
      got.Stored ⟨0, 0, 500, 16, 0, 10, 1⟩ [1, 2, 3, 4] := by
  have once := ancillary_data_once (fun _ => ⟨100, 2⟩) ⟨0, 0, 500, 16, 0, 10, 1⟩ 20 ⟨true, false⟩ rfl false fun _ => 0
  refine ⟨_, _, rfl, ?_, rfl, ?_⟩
  · exact (once.1 [.again false, .count 2] _ ⟨fun _ => rfl, fun _ => rfl, trivial⟩ rfl).success (by decide)
  · refine (once.2 [⟨⟨.again false, 0, 16, 0⟩, []⟩, ⟨⟨.count 2, 0, 4, 0⟩, [1, 2, 3, 4]⟩] _ ?_ rfl).kept _ _ rfl
    exact ⟨⟨⟨fun accepted => Bool.noConfusion accepted, fun _ => rfl⟩, fun _ => rfl⟩,
      ⟨⟨fun _ => ⟨by decide, rfl⟩, fun failed => Bool.noConfusion failed⟩, fun _ => rfl⟩, trivial⟩

/-- Two bytes in two parts: the ancillary data are sent twice, and the data that came with
the first byte are not counted any more, or overwritten. -/
theorem ancillary_data_repeated : ∃ sent got later,
    Socket.sendmsgControl (fun _ => ⟨100, 2⟩) ⟨0, 0, 500, 16, 0, 10, 1⟩ 20 ⟨true, false⟩ false
        [.count 1, .count 1] = .done (sent, 2) ∧
      sent.offers = [(500, 16), (500, 16)] ∧
    Fits (RecvControl.pass ⟨true, false⟩ false) RecvControl.Kernel
      ⟨.start (fun _ => ⟨100, 2⟩) ⟨0, 0, 500, 16, 0, 10, 1⟩ 20, fun _ => 0, []⟩
      [⟨⟨.count 1, 0, 4, 0⟩, [1, 2, 3, 4]⟩, ⟨⟨.count 1, 0, 0, 0⟩, []⟩] ∧
    Socket.recvmsgControl (fun _ => ⟨100, 2⟩) ⟨0, 0, 500, 16, 0, 10, 1⟩ 20 ⟨true, false⟩ false (fun _ => 0)
        [⟨⟨.count 1, 0, 4, 0⟩, [1, 2, 3, 4]⟩, ⟨⟨.count 1, 0, 0, 0⟩, []⟩] = .done (got, 2) ∧
      got.io.msg.controllen = 0 ∧
    Socket.recvmsgControl (fun _ => ⟨100, 2⟩) ⟨0, 0, 500, 16, 0, 10, 1⟩ 20 ⟨true, false⟩ false (fun _ => 0)
        [⟨⟨.count 1, 0, 4, 0⟩, [1, 2, 3, 4]⟩, ⟨⟨.count 1, 0, 1, 0⟩, [9]⟩] = .done (later, 2) ∧
      loadBytes later.memory 500 4 = [9, 2, 3, 4] := by
  refine ⟨_, _, _, rfl, rfl, ?_, rfl, rfl, rfl, rfl⟩
  exact ⟨⟨fun _ => ⟨by decide, rfl⟩, fun failed => Bool.noConfusion failed⟩,
    ⟨fun _ => ⟨by decide, rfl⟩, fun failed => Bool.noConfusion failed⟩, trivial⟩

end HevTaskSystem
