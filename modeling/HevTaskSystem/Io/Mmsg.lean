import HevTaskSystem.Io.Socket

/-! Several messages in one call: `hev_task_io_socket_recvmmsg` and `hev_task_io_socket_sendmmsg`.

Where the system has `recvmmsg` and `sendmmsg`, a system call transfers several messages; on
Windows a loop over single messages stands in for it. Elsewhere a system call transfers
one message. The headers of the messages are not looked at here; the length of each
message is stored in its element of the array, and the lengths are also recorded in the
order in which the system transferred the messages.
-/

set_option autoImplicit false

namespace HevTaskSystem

open Foundation

/-- What a system call for several messages returns: messages with their lengths, or what a
call for one of them returns. -/
inductive MmsgAnswer where
  | messages (lens : List Nat)
  | again (abort : Bool)
  | error
  deriving DecidableEq

/-- `r = recvmsg (…)`, with `r = 1` for a message. -/
def IoAnswer.message : IoAnswer → MmsgAnswer
  | .count s => .messages [s]
  | .again abort => .again abort
  | .error => .error

/-- The field `msg_len` of each element, the number of messages of the calls before, and the
lengths of all messages that were transferred. -/
structure Mmsg where
  len : Nat → Nat
  c : Nat
  arrived : List Nat

namespace Mmsg

def start (len : Nat → Nat) : Mmsg := ⟨len, 0, []⟩

def store (self : Mmsg) (i : Nat) (s : Nat) : Mmsg :=
  { self with len := Function.update self.len i s, arrived := self.arrived ++ [s] }

def storeAll (self : Mmsg) (i : Nat) : List Nat → Mmsg
  | [] => self
  | s :: lens => (self.store i s).storeAll (i + 1) lens

def returned (n : Nat) (flags : MsgFlags) (self : Mmsg) (r : Int) : Flow Mmsg (Mmsg × Int) :=
  if ¬ flags.waitall then .done (self, r)
  else if r ≤ 0 then .done (self, if self.c ≠ 0 then self.c else r)
  else
    let self := { self with c := self.c + r.toNat }
    if self.c < n then .next self else .done (self, self.c)

def again (n : Nat) (flags : MsgFlags) (yielder : Bool) (self : Mmsg) (abort : Bool) : Flow Mmsg (Mmsg × Int) :=
  if ¬ flags.dontwait then
    if yielder ∧ abort then .done (self, if self.c ≠ 0 then self.c else -2) else .next self
  else self.returned n flags (-1)

def pass (n : Nat) (flags : MsgFlags) (yielder : Bool) (self : Mmsg) (answer : MmsgAnswer) : Flow Mmsg (Mmsg × Int) :=
  match answer with
  | .again abort => self.again n flags yielder abort
  | .error => self.returned n flags (-1)
  | .messages lens => (self.storeAll self.c lens).returned n flags lens.length

/-- The system transfers no more messages than it is given elements. -/
def Allows (n : Nat) (self : Mmsg) : MmsgAnswer → Prop
  | .messages lens => lens.length ≤ n - self.c
  | .again _ => True
  | .error => True

end Mmsg

def Socket.recvmmsg (len : Nat → Nat) (n : Nat) (flags : MsgFlags) (yielder : Bool) :
    List MmsgAnswer → Flow Mmsg (Mmsg × Int) :=
  feed (Mmsg.pass n flags yielder) (.start len)

def Socket.sendmmsg (len : Nat → Nat) (n : Nat) (flags : MsgFlags) (yielder : Bool) :
    List MmsgAnswer → Flow Mmsg (Mmsg × Int) :=
  feed (Mmsg.pass n flags yielder) (.start len)

/-- From one system call to the next, without `MSG_WAITFORONE`. -/
def Mmsg.single (n : Nat) (flags : MsgFlags) (yielder : Bool) (self : Mmsg) (answer : IoAnswer) :
    Flow Mmsg (Mmsg × Int) :=
  self.pass n flags yielder answer.message

def Socket.recvmmsgSingle (len : Nat → Nat) (n : Nat) (flags : MsgFlags) (yielder : Bool) :
    List IoAnswer → Flow Mmsg (Mmsg × Int) :=
  feed (Mmsg.single n flags yielder) (.start len)

def Socket.sendmmsgSingle (len : Nat → Nat) (n : Nat) (flags : MsgFlags) (yielder : Bool) :
    List IoAnswer → Flow Mmsg (Mmsg × Int) :=
  feed (Mmsg.single n flags yielder) (.start len)

/-! ## The loop of the Windows layer -/

/-- In a call of `hev_sys_recvmmsg` or `hev_sys_sendmmsg`: the messages of this call so far. -/
structure SysMmsg where
  io : Mmsg
  i : Nat

namespace SysMmsg

def leave (n : Nat) (flags : MsgFlags) (self : SysMmsg) : Flow SysMmsg (Mmsg × Int) :=
  (self.io.returned n flags self.i).map (⟨·, 0⟩) id

/-- From one call of `hev_sys_recvmsg_impl` to the next. An error behind the first message is
not reported. -/
def pass (n : Nat) (flags : MsgFlags) (yielder : Bool) (self : SysMmsg) (answer : IoAnswer) :
    Flow SysMmsg (Mmsg × Int) :=
  match answer with
  | .count s =>
    let self : SysMmsg := ⟨self.io.store (self.io.c + self.i) s, self.i + 1⟩
    if self.i < n - self.io.c then .next self else self.leave n flags
  | .again abort =>
    if self.i > 0 then self.leave n flags
    else (self.io.again n flags yielder abort).map (⟨·, 0⟩) id
  | .error =>
    if self.i > 0 then self.leave n flags
    else (self.io.returned n flags (-1)).map (⟨·, 0⟩) id

end SysMmsg

/-- The function `hev_task_io_socket_recvmmsg` over the Windows layer, for at least one element. -/
def Socket.sysRecvmmsg (len : Nat → Nat) (n : Nat) (flags : MsgFlags) (yielder : Bool) :
    List IoAnswer → Flow SysMmsg (Mmsg × Int) :=
  feed (SysMmsg.pass n flags yielder) ⟨.start len, 0⟩

/-- The function `hev_task_io_socket_sendmmsg` over the Windows layer, for at least one element. -/
def Socket.sysSendmmsg (len : Nat → Nat) (n : Nat) (flags : MsgFlags) (yielder : Bool) :
    List IoAnswer → Flow SysMmsg (Mmsg × Int) :=
  feed (SysMmsg.pass n flags yielder) ⟨.start len, 0⟩

/-! ## What is stored -/

namespace Mmsg

variable {len : Nat → Nat} {n : Nat} {flags : MsgFlags} {yielder : Bool} {self : Mmsg}

/-- The messages stand in the first elements in the order of their transfer, and the other
elements are as before. -/
def Stored (len : Nat → Nat) (self : Mmsg) : Prop := ∀ i, self.len i = (self.arrived[i]?).getD (len i)

theorem Stored.store (stored : self.Stored len) (s : Nat) : (self.store self.arrived.length s).Stored len := by
  intro i
  by_cases here : i = self.arrived.length
  · subst here
    simp [Mmsg.store]
  · simp only [Mmsg.store, Function.update_of_ne here, stored i]
    rcases Nat.lt_or_gt_of_ne here with before | behind
    · rw [List.getElem?_append_left before]
    · rw [List.getElem?_eq_none (Nat.le_of_lt behind), List.getElem?_eq_none (by simp; omega)]

theorem storeAll_c (self : Mmsg) (i : Nat) (lens : List Nat) : (self.storeAll i lens).c = self.c := by
  induction lens generalizing self i with
  | nil => rfl
  | cons s lens ih => exact ih (self.store i s) (i + 1)

theorem storeAll_arrived (self : Mmsg) (i : Nat) (lens : List Nat) :
    (self.storeAll i lens).arrived = self.arrived ++ lens := by
  induction lens generalizing self i with
  | nil => exact (List.append_nil _).symm
  | cons s lens ih =>
    rw [storeAll, ih]
    simp [Mmsg.store]

theorem Stored.storeAll {lens : List Nat} (stored : self.Stored len) :
    (self.storeAll self.arrived.length lens).Stored len := by
  induction lens generalizing self with
  | nil => exact stored
  | cons s lens ih =>
    have after := ih (stored.store s)
    rwa [show (self.store self.arrived.length s).arrived.length = self.arrived.length + 1 by simp [Mmsg.store]] at after

structure Waits (len : Nat → Nat) (n : Nat) (flags : MsgFlags) (io : Mmsg) : Prop where
  stored : io.Stored len
  count : io.arrived.length = io.c
  room : io.c < n ∨ io.c = 0
  once : flags.waitall = false → io.c = 0

/-- When the function has returned: the value is the number of messages, or nothing was
transferred. -/
structure Returns (len : Nat → Nat) (n : Nat) (io : Mmsg) (value : Int) : Prop where
  stored : io.Stored len
  bound : io.arrived.length ≤ n
  value : value = io.arrived.length ∨ value < 0 ∧ io.arrived = []

def Keeps (len : Nat → Nat) (n : Nat) (flags : MsgFlags) : Flow Mmsg (Mmsg × Int) → Prop :=
  Flow.Meets (Waits len n flags) fun result => Returns len n result.1 result.2

theorem Waits.start (len : Nat → Nat) (n : Nat) (flags : MsgFlags) : (start len).Waits len n flags :=
  ⟨fun _ => rfl, rfl, .inr rfl, fun _ => rfl⟩

theorem returned_keeps {r : Nat} (stored : self.Stored len) (count : self.arrived.length = self.c + r)
    (bound : self.c + r ≤ n) (once : flags.waitall = false → self.c = 0) : Keeps len n flags (self.returned n flags r) := by
  unfold returned
  by_cases whole : flags.waitall = true
  · rw [if_neg (by simp [whole])]
    have more : flags.waitall = false → self.c + r = 0 := by simp [whole]
    by_cases none : r = 0
    · rw [if_pos (by omega)]
      refine ⟨stored, by simp only; omega, .inl ?_⟩
      by_cases first : self.c = 0 <;> simp [first] <;> omega
    · rw [if_neg (by omega)]
      simp only [Int.toNat_natCast]
      split
      · rename_i less
        exact ⟨stored, count, .inl less, more⟩
      · exact ⟨stored, by simp only; omega, .inl (by simp only; omega)⟩
  · rw [if_pos (by simpa using whole)]
    have first := once (by simpa using whole)
    exact ⟨stored, by simp only; omega, .inl (by simp only; omega)⟩

theorem Waits.ended (waits : self.Waits len n flags) {code : Int} (negative : code < 0) :
    Returns len n self (if self.c ≠ 0 then self.c else code) := by
  have room := waits.room
  have count := waits.count
  refine ⟨waits.stored, by omega, ?_⟩
  by_cases first : self.c = 0
  · rw [if_neg (by simpa using first)]
    exact .inr ⟨negative, List.length_eq_zero_iff.mp (count.trans first)⟩
  · rw [if_pos first]
    exact .inl (by omega)

theorem Waits.failed (waits : self.Waits len n flags) : Keeps len n flags (self.returned n flags (-1)) := by
  have ended := waits.ended (show (-1 : Int) < 0 by decide)
  unfold returned
  by_cases whole : flags.waitall = true
  · rw [if_neg (by simp [whole]), if_pos (by decide)]
    exact ended
  · rw [if_pos (by simpa using whole)]
    have first := waits.once (by simpa using whole)
    rwa [if_neg (by simpa using first)] at ended

theorem Waits.again (waits : self.Waits len n flags) (abort : Bool) :
    Keeps len n flags (self.again n flags yielder abort) := by
  unfold Mmsg.again
  split
  · split
    · exact waits.ended (by decide)
    · exact waits
  · exact waits.failed

theorem Waits.pass (waits : self.Waits len n flags) {answer : MmsgAnswer} (allows : self.Allows n answer) :
    Keeps len n flags (self.pass n flags yielder answer) := by
  have room := waits.room
  cases answer with
  | messages lens =>
    have bound : lens.length ≤ n - self.c := allows
    have stored : (self.storeAll self.c lens).Stored len := by
      rw [← waits.count]
      exact waits.stored.storeAll
    refine returned_keeps stored ?_ ?_ ?_
    · rw [storeAll_c, storeAll_arrived, List.length_append, waits.count]
    · rw [storeAll_c]
      omega
    · rw [storeAll_c]
      exact waits.once
  | again abort => exact waits.again abort
  | error => exact waits.failed

end Mmsg

structure SysMmsg.Waits (len : Nat → Nat) (n : Nat) (flags : MsgFlags) (sys : SysMmsg) : Prop where
  stored : sys.io.Stored len
  count : sys.io.arrived.length = sys.io.c + sys.i
  room : sys.io.c + sys.i < n
  once : flags.waitall = false → sys.io.c = 0

namespace SysMmsg

variable {len : Nat → Nat} {n : Nat} {flags : MsgFlags} {yielder : Bool} {self : SysMmsg}

def Keeps (len : Nat → Nat) (n : Nat) (flags : MsgFlags) : Flow SysMmsg (Mmsg × Int) → Prop :=
  Flow.Meets (Waits len n flags) fun result => Mmsg.Returns len n result.1 result.2

theorem keeps_map (positive : 0 < n) {flow : Flow Mmsg (Mmsg × Int)} (keeps : Mmsg.Keeps len n flags flow) :
    Keeps len n flags (flow.map (⟨·, 0⟩) id) := by
  cases flow with
  | next io =>
    obtain ⟨stored, count, room, once⟩ := keeps
    exact ⟨stored, count, by simp only; omega, once⟩
  | done result => exact keeps

theorem Waits.leave (waits : self.Waits len n flags) : Keeps len n flags (self.leave n flags) := by
  have room := waits.room
  exact keeps_map (by omega) (Mmsg.returned_keeps waits.stored waits.count (by omega) waits.once)

theorem Waits.first (waits : self.Waits len n flags) (none : ¬ self.i > 0) : self.io.Waits len n flags := by
  have count := waits.count
  have room := waits.room
  exact ⟨waits.stored, by omega, .inl (by omega), waits.once⟩

theorem Waits.pass (waits : self.Waits len n flags) (answer : IoAnswer) :
    Keeps len n flags (self.pass n flags yielder answer) := by
  have room := waits.room
  have positive : 0 < n := by omega
  cases answer with
  | count s =>
    have stored := waits.stored.store s
    rw [waits.count] at stored
    have count : (self.io.store (self.io.c + self.i) s).arrived.length = self.io.c + (self.i + 1) := by
      simp only [Mmsg.store, List.length_append, List.length_singleton, waits.count]
      omega
    simp only [SysMmsg.pass]
    split
    · rename_i less
      exact ⟨stored, count, by simp only [Mmsg.store] at less ⊢; omega, waits.once⟩
    · exact keeps_map positive (Mmsg.returned_keeps stored count (by simp only [Mmsg.store]; omega) waits.once)
  | again abort =>
    simp only [SysMmsg.pass]
    split
    · exact waits.leave
    · rename_i none
      exact keeps_map positive ((waits.first none).again abort)
  | error =>
    simp only [SysMmsg.pass]
    split
    · exact waits.leave
    · rename_i none
      exact keeps_map positive (waits.first none).failed

end SysMmsg

section Runs

variable {len : Nat → Nat} {n : Nat} {flags : MsgFlags} {yielder : Bool}

theorem recvmmsg_keeps {answers : List MmsgAnswer}
    (fits : Fits (Mmsg.pass n flags yielder) (Mmsg.Allows n) (.start len) answers) :
    Mmsg.Keeps len n flags (Socket.recvmmsg len n flags yielder answers) :=
  feed_meets (fun _ _ waits allows => Mmsg.Waits.pass waits allows) (.start len n flags) fits

theorem single_allows (positive : 0 < n) {io : Mmsg} (waits : io.Waits len n flags) (answer : IoAnswer) :
    io.Allows n answer.message := by
  have room := waits.room
  cases answer with
  | count s =>
    show [s].length ≤ n - io.c
    simp only [List.length_singleton]
    omega
  | again abort => trivial
  | error => trivial

theorem recvmmsgSingle_keeps (positive : 0 < n) (answers : List IoAnswer) :
    Mmsg.Keeps len n flags (Socket.recvmmsgSingle len n flags yielder answers) :=
  feed_meets (fun _ answer waits _ => Mmsg.Waits.pass waits (single_allows positive waits answer)) (.start len n flags)
    (fits_true _ answers)

theorem sysRecvmmsg_keeps (positive : 0 < n) (answers : List IoAnswer) :
    SysMmsg.Keeps len n flags (Socket.sysRecvmmsg len n flags yielder answers) := by
  refine feed_meets (fun _ answer waits _ => SysMmsg.Waits.pass waits answer) ?_ (fits_true _ answers)
  exact ⟨fun _ => rfl, rfl, positive, fun _ => rfl⟩

end Runs

/-- In every build the messages are stored in the first elements in the order of their transfer,
nothing else is written, and the value that is returned is their number, unless there are
none. -/
theorem mmsg_stored (len : Nat → Nat) (n : Nat) (positive : 0 < n) (flags : MsgFlags) (yielder : Bool) :
    (∀ answers, Fits (Mmsg.pass n flags yielder) (Mmsg.Allows n) (.start len) answers →
      Mmsg.Keeps len n flags (Socket.recvmmsg len n flags yielder answers) ∧
        Mmsg.Keeps len n flags (Socket.sendmmsg len n flags yielder answers)) ∧
    ∀ answers, Mmsg.Keeps len n flags (Socket.recvmmsgSingle len n flags yielder answers) ∧
      Mmsg.Keeps len n flags (Socket.sendmmsgSingle len n flags yielder answers) ∧
      SysMmsg.Keeps len n flags (Socket.sysRecvmmsg len n flags yielder answers) ∧
      SysMmsg.Keeps len n flags (Socket.sysSendmmsg len n flags yielder answers) :=
  ⟨fun _ fits => ⟨recvmmsg_keeps fits, recvmmsg_keeps fits⟩,
    fun answers => ⟨recvmmsgSingle_keeps positive answers, recvmmsgSingle_keeps positive answers,
      sysRecvmmsg_keeps positive answers, sysRecvmmsg_keeps positive answers⟩⟩

/-- Three elements, two calls: one message, then two. -/
theorem mmsg_stored_three : ∃ io, Socket.recvmmsg (fun _ => 9) 3 ⟨true, false⟩ false
      [.messages [5], .again false, .messages [6, 7]] = .done (io, 3) ∧
    Mmsg.Returns (fun _ => 9) 3 io 3 ∧ (List.range 5).map io.len = [5, 6, 7, 9, 9] := by
  have stored := (mmsg_stored (fun _ => 9) 3 (by decide) ⟨true, false⟩ false).1
    [.messages [5], .again false, .messages [6, 7]] ⟨show 1 ≤ 3 by decide, trivial, show 2 ≤ 2 by decide, trivial⟩
  exact ⟨_, rfl, stored.1, rfl⟩

/-! ## The builds agree -/

/-- The loop for single messages and the loop of the Windows layer have stored the same. -/
structure Mmsg.Alike (n : Nat) (io : Mmsg) (sys : SysMmsg) : Prop where
  len : io.len = sys.io.len
  arrived : io.arrived = sys.io.arrived
  count : io.c = sys.io.c + sys.i
  room : io.c < n

/-- Both functions return the number of elements, and have stored the same. -/
structure Mmsg.Complete (n : Nat) (result result' : Mmsg × Int) : Prop where
  len : result.1.len = result'.1.len
  arrived : result.1.arrived = result'.1.arrived
  value : result.2 = n ∧ result'.2 = n

section Agree

variable {n : Nat} {flags : MsgFlags} {yielder : Bool} {io : Mmsg} {sys : SysMmsg}

def IoAnswer.Steady (yielder : Bool) (answer : IoAnswer) : Prop :=
  answer ≠ .error ∧ (yielder = true → answer ≠ .again true)

theorem Mmsg.returned_waitall (whole : flags.waitall = true) {r : Nat} (some : 0 < r) :
    io.returned n flags r = if io.c + r < n then .next { io with c := io.c + r } else .done ({ io with c := io.c + r }, ↑(io.c + r)) := by
  rw [returned, if_neg (by simp [whole]), if_neg (by omega)]
  rfl

theorem Mmsg.Alike.pass (whole : flags.waitall = true) (blocks : flags.dontwait = false) (alike : io.Alike n sys)
    {answer : IoAnswer} (steady : answer.Steady yielder) :
    (io.single n flags yielder answer).Related (Alike n) (Complete n) (sys.pass n flags yielder answer) := by
  obtain ⟨len, arrived, count, room⟩ := alike
  cases answer with
  | count s =>
    have single : io.single n flags yielder (.count s) = (io.store io.c s).returned n flags (1 : Nat) := rfl
    rw [single, returned_waitall whole Nat.one_pos]
    have stored : (io.store io.c s).len = (sys.io.store (sys.io.c + sys.i) s).len := by
      simp only [store, len, count]
    have more : (io.store io.c s).arrived = (sys.io.store (sys.io.c + sys.i) s).arrived := by
      simp only [store, arrived]
    simp only [SysMmsg.pass]
    have same : (io.store io.c s).c + 1 < n ↔ sys.i + 1 < n - (sys.io.store (sys.io.c + sys.i) s).c := by
      simp only [store, count]
      omega
    by_cases less : (io.store io.c s).c + 1 < n
    · rw [if_pos less, if_pos (same.mp less)]
      exact .next ⟨stored, more, by simp only [store, count]; omega, less⟩
    · rw [if_neg less, if_neg (mt same.mpr less), SysMmsg.leave, returned_waitall whole (Nat.succ_pos _)]
      have full : (sys.io.store (sys.io.c + sys.i) s).c + (sys.i + 1) = n := by
        simp only [store] at less ⊢
        omega
      have full' : (io.store io.c s).c + 1 = n := by
        simp only [store] at less ⊢
        omega
      simp only [full, full', Nat.lt_irrefl, if_false]
      exact .done ⟨stored, more, rfl, rfl⟩
  | again abort =>
    have repeats : ¬ (yielder = true ∧ abort = true) := by
      rintro ⟨with_yielder, rfl⟩
      exact steady.2 with_yielder rfl
    have single : io.single n flags yielder (.again abort) = .next io := by
      show io.again n flags yielder abort = .next io
      rw [again, if_pos (by simp [blocks]), if_neg repeats]
    rw [single]
    simp only [SysMmsg.pass]
    by_cases some : sys.i > 0
    · rw [if_pos some, SysMmsg.leave, returned_waitall whole some, if_pos (by omega)]
      exact .next ⟨len, arrived, count, room⟩
    · rw [if_neg some, again, if_pos (by simp [blocks]), if_neg repeats]
      exact .next ⟨len, arrived, by simp only; omega, room⟩
  | error => exact absurd rfl steady.1

end Agree

/-- As long as messages come, waiting for all of them gives the same in the build for single
messages and over the Windows layer: the same messages are stored, and both return at the
same message. -/
theorem mmsg_builds_agree (len : Nat → Nat) (n : Nat) (positive : 0 < n) (flags : MsgFlags) (whole : flags.waitall = true)
    (blocks : flags.dontwait = false) (yielder : Bool) (answers : List IoAnswer)
    (steady : ∀ answer ∈ answers, answer.Steady yielder) :
    (Socket.recvmmsgSingle len n flags yielder answers).Related (Mmsg.Alike n) (Mmsg.Complete n)
        (Socket.sysRecvmmsg len n flags yielder answers) ∧
      (Socket.sendmmsgSingle len n flags yielder answers).Related (Mmsg.Alike n) (Mmsg.Complete n)
        (Socket.sysSendmmsg len n flags yielder answers) := by
  have fits : Fits (Mmsg.single n flags yielder) (fun _ answer => True ∧ answer.Steady yielder) (.start len)
      (answers.map id) := by
    rw [List.map_id]
    exact (fits_true _ answers).and_of_forall steady
  have step (io : Mmsg) (sys : SysMmsg) (answer : IoAnswer) (alike : io.Alike n sys)
      (allowed : True ∧ (id answer).Steady yielder) : (io.single n flags yielder (id answer)).Related (Mmsg.Alike n)
        (Mmsg.Complete n) (sys.pass n flags yielder answer) :=
    alike.pass whole blocks allowed.2
  have related := feed_related step (⟨rfl, rfl, rfl, positive⟩ : Mmsg.Alike n (.start len) ⟨.start len, 0⟩) fits
  rw [List.map_id] at related
  exact ⟨related, related⟩

/-- The Windows layer asks a second time when messages ran out behind the first two. -/
theorem mmsg_builds_agree_three :
    (Socket.recvmmsgSingle (fun _ => 9) 3 ⟨true, false⟩ true [.count 5, .count 6, .again false, .again false, .count 7]).Related
        (Mmsg.Alike 3) (Mmsg.Complete 3)
        (Socket.sysRecvmmsg (fun _ => 9) 3 ⟨true, false⟩ true [.count 5, .count 6, .again false, .again false, .count 7]) ∧
      ∃ io, Socket.sysRecvmmsg (fun _ => 9) 3 ⟨true, false⟩ true [.count 5, .count 6, .again false, .again false, .count 7] =
        .done (io, 3) := by
  refine ⟨(mmsg_builds_agree (fun _ => 9) 3 (by decide) ⟨true, false⟩ rfl rfl true _ ?_).1, _, rfl⟩
  simp [IoAnswer.Steady]

end HevTaskSystem
