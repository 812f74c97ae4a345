import HevTaskSystem.Buffer.Circular
import HevTaskSystem.Foundation.Relay
import HevTaskSystem.Foundation.Script
import HevTaskSystem.Scheduler.Context

/-! The function `hev_task_io_splice`, which relays bytes between two pairs of descriptors.

Each direction has a splicer: a circular buffer, or a pipe of the system. In a round the
splicer reads from one descriptor and writes to the other. A script says what the system
calls answer. Every direction keeps the rounds that it made, with their system calls.
-/

set_option autoImplicit false

namespace HevTaskSystem

open Foundation Relay

/-- One of the builds of `HevTaskIOSplicer`: the two halves of `task_io_splice`, and what the
system may answer to their calls. -/
structure Splicer where
  State : Type
  init : State → Prop
  read : State → Source UInt8 → State × List (Call UInt8) × Int32
  write : State → Int32 → Sink → State × List (Call UInt8) × Int32
  offersRead : State → Source UInt8 → Prop
  offersWrite : State → Sink → Prop

namespace Splicer

variable (b : Splicer)

def taskIoSplice (self : b.State) (source : Source UInt8) (sink : Sink) : b.State × Round UInt8 :=
  let (self, calls, res) := b.read self source
  let (self, calls', res) := b.write self res sink
  (self, ⟨calls ++ calls', res⟩)

def Offers (self : b.State) (source : Source UInt8) (sink : Sink) : Prop :=
  b.offersRead self source ∧ b.offersWrite (b.read self source).1 sink

end Splicer

/-! ## The build with a circular buffer -/

namespace BufferUser

def spliceRead (self : BufferUser) (source : Source UInt8) : BufferUser × List (Call UInt8) × Int32 :=
  if self.buffer.writing.length ≠ 0 then
    match source with
    | .again => (self, [.read .again], 0)
    | .error => (self, [.read .error], -1)
    | .items bytes => if bytes = [] then (self, [.read (.items [])], -1) else (self.fill bytes, [.read (.items bytes)], 1)
  else (self, [], 1)

def spliceWrite (self : BufferUser) (res : Int32) (sink : Sink) : BufferUser × List (Call UInt8) × Int32 :=
  if self.buffer.reading.length ≠ 0 then
    match sink with
    | .again => (self, [.write [] .again], 0)
    | .error => (self, [.write [] .error], -1)
    | .count s =>
      if s = 0 then (self, [.write [] (.count 0)], -1)
      else (self.take s, [.write (self.unread.take s) (.count s)], 1)
  else if res < 0 then (self, [.shutdown], res)
  else (self, [], res)

end BufferUser

def Splicer.circular : Splicer where
  State := BufferUser
  init s := ∃ maxSize data, 1 ≤ maxSize ∧ s = ⟨.new maxSize data, [], []⟩
  read := BufferUser.spliceRead
  write := BufferUser.spliceWrite
  offersRead s source := s.buffer.writing.length ≠ 0 → ∀ bytes, source = .items bytes →
    bytes.length ≤ (IoVec.places s.buffer.writing).length
  offersWrite s sink := s.buffer.reading.length ≠ 0 → ∀ n, sink = .count n →
    n ≤ (IoVec.places s.buffer.reading).length

/-! ## The build with a pipe -/

/-- The bytes in the pipe, the number of bytes that the splicer thinks are in it, and the
number of bytes it asks for. -/
structure PipeUser where
  fifo : List UInt8
  wlen : Nat
  blen : Nat

namespace PipeUser

def spliceRead (self : PipeUser) (source : Source UInt8) : PipeUser × List (Call UInt8) × Int32 :=
  match source with
  | .again => (self, [.read .again], 0)
  | .error => (self, [.read .error], -1)
  | .items bytes =>
    if bytes = [] then (self, [.read (.items [])], -1)
    else ({ self with fifo := self.fifo ++ bytes, wlen := self.wlen + bytes.length }, [.read (.items bytes)], 1)

def spliceWrite (self : PipeUser) (res : Int32) (sink : Sink) : PipeUser × List (Call UInt8) × Int32 :=
  if self.wlen ≠ 0 then
    match sink with
    | .again => (self, [.write [] .again], 0)
    | .error => (self, [.write [] .error], -1)
    | .count s =>
      if s = 0 then (self, [.write [] (.count 0)], -1)
      else ({ self with fifo := self.fifo.drop s, wlen := self.wlen - s }, [.write (self.fifo.take s) (.count s)], 1)
  else if res < 0 then (self, [.shutdown], res)
  else (self, [], res)

end PipeUser

def Splicer.pipe : Splicer where
  State := PipeUser
  init s := s.fifo = [] ∧ s.wlen = 0 ∧ 1 ≤ s.blen
  read := PipeUser.spliceRead
  write := PipeUser.spliceWrite
  offersRead s source := ∀ bytes, source = .items bytes → bytes.length ≤ s.blen
  offersWrite s sink := ∀ n, sink = .count n → n ≤ min s.blen s.fifo.length

/-! ## Both directions -/

/-- A splicer with the result of its last round and the rounds that it made. -/
structure Direction (b : Splicer) where
  splicer : b.State
  res : Int32
  rounds : List (Round UInt8)

/-- What the system calls of both directions and the yielder answer in a pass of the loop. -/
structure SpliceAnswers where
  sourceF : Source UInt8
  sinkF : Sink
  sourceB : Source UInt8
  sinkB : Sink
  abort : Bool

structure SplicePair (b : Splicer) where
  forward : Direction b
  backward : Direction b
  type : Option YieldType

variable {b : Splicer}

def Direction.run (self : Direction b) (source : Source UInt8) (sink : Sink) : Direction b :=
  if 0 ≤ self.res then
    let (splicer, round) := b.taskIoSplice self.splicer source sink
    ⟨splicer, round.res, self.rounds ++ [round]⟩
  else self

namespace SplicePair

def turn (self : SplicePair b) (answers : SpliceAnswers) : SplicePair b where
  forward := self.forward.run answers.sourceF answers.sinkF
  backward := self.backward.run answers.sourceB answers.sinkB
  type := none

def yield (yielder : Bool) (self : SplicePair b) (answers : SpliceAnswers) (type : YieldType) :
    Flow (SplicePair b) (SplicePair b) :=
  if yielder ∧ answers.abort then .done { self with type := some type } else .next { self with type := some type }

def pass (yielder : Bool) (self : SplicePair b) (answers : SpliceAnswers) : Flow (SplicePair b) (SplicePair b) :=
  let self := self.turn answers
  if self.forward.res > 0 ∨ self.backward.res > 0 then self.yield yielder answers .yield
  else if self.forward.res &&& self.backward.res = 0 then self.yield yielder answers .waitio
  else .done self

def Init (self : SplicePair b) : Prop :=
  (b.init self.forward.splicer ∧ self.forward.res = 1 ∧ self.forward.rounds = []) ∧
    b.init self.backward.splicer ∧ self.backward.res = 1 ∧ self.backward.rounds = []

/-- The system calls that are made transfer no more bytes than they are given. -/
def Allows (self : SplicePair b) (answers : SpliceAnswers) : Prop :=
  (0 ≤ self.forward.res → b.Offers self.forward.splicer answers.sourceF answers.sinkF) ∧
    (0 ≤ self.backward.res → b.Offers self.backward.splicer answers.sourceB answers.sinkB)

end SplicePair

/-! ## The builds as relays -/

/-- The halves of a round do what those of a relay may do, with the bytes that the splicer
holds. -/
structure Splicer.Lawful (b : Splicer) (held : b.State → List UInt8) (ok : b.State → Prop) : Prop where
  init : ∀ {s}, b.init s → ok s ∧ held s = []
  read : ∀ {s source next calls res}, ok s → b.offersRead s source → b.read s source = (next, calls, res) →
    ok next ∧ Reads (held s) calls res (held next)
  write : ∀ {s res sink next calls res'}, ok s → b.offersWrite s sink → b.write s res sink = (next, calls, res') →
    ok next ∧ Writes (held s) res calls res' (held next)

theorem CircularBuffer.reading_eq_nil {buffer : CircularBuffer} : buffer.reading = [] ↔ buffer.useSize = 0 := by
  simp only [reading]
  split_ifs with empty upper <;> simp [empty]

theorem CircularBuffer.writing_eq_nil {buffer : CircularBuffer} :
    buffer.writing = [] ↔ buffer.useSize = buffer.maxSize := by
  simp only [writing]
  split_ifs with full upper <;> simp [full]

namespace BufferUser

variable {s : BufferUser}

theorem Inv.length_unread (inv : s.Inv) : s.unread.length = s.buffer.useSize := by
  rw [unread, List.length_map, inv.ok.reading_places, length_ringSlots]

theorem Inv.reading_nonempty (inv : s.Inv) : s.buffer.reading.length ≠ 0 ↔ s.unread ≠ [] := by
  rw [← List.length_pos_iff, inv.length_unread, Ne, List.length_eq_zero_iff, CircularBuffer.reading_eq_nil]
  omega

theorem Inv.full (inv : s.Inv) (none : ¬ s.buffer.writing.length ≠ 0) : s.unread ≠ [] := by
  rw [not_not, List.length_eq_zero_iff, CircularBuffer.writing_eq_nil] at none
  rw [← List.length_pos_iff, inv.length_unread]
  have rp := inv.ok.rp
  omega

theorem Inv.unread_fill (inv : s.Inv) {bytes : List UInt8} (after : (s.fill bytes).Inv) :
    (s.fill bytes).unread = s.unread ++ bytes := by
  have whole : s.taken ++ (s.fill bytes).unread = s.filled ++ bytes := after.fifo
  rw [← inv.fifo, List.append_assoc] at whole
  exact List.append_cancel_left whole

theorem Inv.unread_take (inv : s.Inv) {count : Nat} (after : (s.take count).Inv) :
    (s.take count).unread = s.unread.drop count := by
  have whole : s.taken ++ s.unread.take count ++ (s.take count).unread = s.filled := after.fifo
  rw [← inv.fifo, List.append_assoc] at whole
  refine List.append_cancel_left ((List.append_cancel_left whole).trans ?_)
  rw [List.take_append_drop]

end BufferUser

theorem circular_lawful : Splicer.circular.Lawful BufferUser.unread BufferUser.Inv where
  init := by
    rintro s ⟨maxSize, data, nonempty, rfl⟩
    have empty : BufferUser.unread ⟨.new maxSize data, [], []⟩ = [] := rfl
    exact ⟨⟨⟨nonempty, Nat.zero_le _⟩, empty⟩, empty⟩
  read := by
    intro s source next calls res inv offers result
    change s.spliceRead source = _ at result
    unfold BufferUser.spliceRead at result
    split at result
    · rename_i room
      cases source with
      | again =>
        cases result
        exact ⟨inv, .again⟩
      | error =>
        cases result
        exact ⟨inv, .stop (.inr rfl)⟩
      | items bytes =>
        simp only at result
        split at result
        · cases result
          exact ⟨inv, .stop (.inl rfl)⟩
        · rename_i some
          cases result
          have after := inv.fill (offers room bytes rfl)
          exact ⟨after, inv.unread_fill after ▸ .items some⟩
    · rename_i none
      cases result
      exact ⟨inv, .full (inv.full none)⟩
  write := by
    intro s res sink next calls res' inv offers result
    change s.spliceWrite res sink = _ at result
    unfold BufferUser.spliceWrite at result
    split at result
    · rename_i region
      have some := inv.reading_nonempty.mp region
      cases sink with
      | again =>
        cases result
        exact ⟨inv, .again some⟩
      | error =>
        cases result
        exact ⟨inv, .error some (.inr rfl)⟩
      | count n =>
        simp only at result
        split at result
        · cases result
          exact ⟨inv, .error some (.inl rfl)⟩
        · rename_i positive
          cases result
          have offered := offers region n rfl
          have after := inv.take offered
          have bound : n ≤ (BufferUser.unread s).length := offered.trans_eq (List.length_map _).symm
          exact ⟨after, inv.unread_take after ▸ .count some positive bound⟩
    · rename_i none
      have empty : s.unread = [] := by
        by_contra some
        exact none (inv.reading_nonempty.mpr some)
      split at result
      · rename_i negative
        cases result
        exact ⟨inv, .shutdown empty negative⟩
      · rename_i negative
        cases result
        exact ⟨inv, .idle empty negative⟩

theorem pipe_lawful : Splicer.pipe.Lawful PipeUser.fifo fun s => s.wlen = s.fifo.length where
  init := by
    rintro s ⟨fifo, wlen, -⟩
    exact ⟨by rw [fifo, wlen]; rfl, fifo⟩
  read := by
    intro s source next calls res length offers result
    change s.spliceRead source = _ at result
    unfold PipeUser.spliceRead at result
    cases source with
    | again =>
      cases result
      exact ⟨length, .again⟩
    | error =>
      cases result
      exact ⟨length, .stop (.inr rfl)⟩
    | items bytes =>
      simp only at result
      split at result
      · cases result
        exact ⟨length, .stop (.inl rfl)⟩
      · rename_i some
        cases result
        exact ⟨by simp only [List.length_append, length], .items some⟩
  write := by
    intro s res sink next calls res' length offers result
    change s.spliceWrite res sink = _ at result
    unfold PipeUser.spliceWrite at result
    split at result
    · rename_i positive
      have some : s.fifo ≠ [] := by
        rintro empty
        exact positive (by rw [length, empty]; rfl)
      cases sink with
      | again =>
        cases result
        exact ⟨length, .again some⟩
      | error =>
        cases result
        exact ⟨length, .error some (.inr rfl)⟩
      | count n =>
        simp only at result
        split at result
        · cases result
          exact ⟨length, .error some (.inl rfl)⟩
        · rename_i nonzero
          cases result
          have offered := offers n rfl
          exact ⟨by simp only [List.length_drop, length], .count some nonzero (by omega)⟩
    · rename_i zero
      have empty : s.fifo = [] := List.length_eq_zero_iff.mp (by omega)
      split at result
      · rename_i negative
        cases result
        exact ⟨length, .shutdown empty negative⟩
      · rename_i negative
        cases result
        exact ⟨length, .idle empty negative⟩

/-! ## Runs -/

/-- What a direction has done: the bytes that were accepted are first ones of those that were
received; the sink is shut down once at most, after the source was over and when all
bytes were accepted; a round returns 0 only if its last call returned `EAGAIN`; and there
is no round after one that returned -1. -/
structure Direction.Relays (d : Direction b) : Prop where
  accepted : (accepted (log d.rounds)).IsPrefix (received (log d.rounds))
  shutdown_once : (log d.rounds).count .shutdown ≤ 1
  shutdown : ∀ earlier later, log d.rounds = earlier ++ .shutdown :: later →
    (∃ call ∈ earlier, call.isOver) ∧ Relay.accepted earlier = received earlier
  again : ∀ round ∈ d.rounds, round.res = 0 → ∃ call, round.calls.getLast? = some call ∧ call.isAgain
  ended : ∀ earlier round later, d.rounds = earlier ++ round :: later → round.res = -1 → later = []
  res : d.res = (d.rounds.getLast?.map Round.res).getD 1

section Lawful

variable {held : b.State → List UInt8} {ok : b.State → Prop}

theorem Splicer.Lawful.round (lawful : b.Lawful held ok) {s next : b.State} {source : Source UInt8} {sink : Sink}
    {round : Round UInt8} (good : ok s) (offers : b.Offers s source sink)
    (result : b.taskIoSplice s source sink = (next, round)) : ok next ∧ Rounds (held s) round (held next) := by
  obtain ⟨first, second⟩ := offers
  obtain ⟨middle, reads⟩ := lawful.read good first rfl
  obtain ⟨last, writes⟩ := lawful.write middle second rfl
  cases result
  exact ⟨last, .round reads writes⟩

structure Direction.Inv (held : b.State → List UInt8) (ok : b.State → Prop) (d : Direction b) : Prop where
  ok : ok d.splicer
  relayed : Relayed (held d.splicer) d.rounds
  res : d.res = (d.rounds.getLast?.map Round.res).getD 1
  range : d.res = -1 ∨ d.res = 0 ∨ d.res = 1
  running : 0 ≤ d.res → ∀ round ∈ d.rounds, round.res ≠ -1

theorem Direction.Inv.start (lawful : b.Lawful held ok) {self : Direction b} (init : b.init self.splicer)
    (res : self.res = 1) (rounds : self.rounds = []) : self.Inv held ok := by
  obtain ⟨good, empty⟩ := lawful.init init
  refine ⟨good, ?_, by rw [res, rounds]; rfl, .inr (.inr res), fun _ => by simp [rounds]⟩
  rw [empty, rounds]
  exact .nil

theorem Direction.Inv.run (lawful : b.Lawful held ok) {self : Direction b} (inv : self.Inv held ok)
    {source : Source UInt8} {sink : Sink} (offers : 0 ≤ self.res → b.Offers self.splicer source sink) :
    (self.run source sink).Inv held ok := by
  unfold Direction.run
  split
  · rename_i running
    cases result : b.taskIoSplice self.splicer source sink with
    | mk next round =>
      have live := inv.running running
      obtain ⟨good, step⟩ := lawful.round inv.ok (offers running) result
      refine ⟨good, inv.relayed.step live step, by simp, step.range, fun still other member => ?_⟩
      rcases List.mem_append.mp member with member | member
      · exact live other member
      · rw [List.mem_singleton.mp member]
        intro ended
        change 0 ≤ round.res at still
        rw [ended] at still
        exact absurd still (by decide)
  · exact inv

theorem Direction.Inv.relays {self : Direction b} (inv : self.Inv held ok) : self.Relays where
  accepted := ⟨_, inv.relayed.balance⟩
  shutdown_once := inv.relayed.shutdown_once
  shutdown earlier later split :=
    have ⟨stopped, all, _⟩ := inv.relayed.shutdown earlier later split
    ⟨stopped, all⟩
  again := inv.relayed.again
  ended := inv.relayed.ended
  res := inv.res

def SplicePair.Inv (held : b.State → List UInt8) (ok : b.State → Prop) (self : SplicePair b) : Prop :=
  self.forward.Inv held ok ∧ self.backward.Inv held ok

theorem SplicePair.Inv.turn (lawful : b.Lawful held ok) {self : SplicePair b} (inv : self.Inv held ok)
    {answers : SpliceAnswers} (allows : self.Allows answers) : (self.turn answers).Inv held ok :=
  ⟨inv.1.run lawful allows.1, inv.2.run lawful allows.2⟩

/-- A pass yields, or leaves the loop because both directions have ended. -/
theorem SplicePair.Inv.pass_cases {yielder : Bool} {self : SplicePair b} {answers : SpliceAnswers}
    (after : (self.turn answers).Inv held ok) :
    (∃ type, self.pass yielder answers = (self.turn answers).yield yielder answers type) ∧
        ¬ ((self.turn answers).forward.res = -1 ∧ (self.turn answers).backward.res = -1) ∨
      self.pass yielder answers = .done (self.turn answers) ∧
        (self.turn answers).forward.res = -1 ∧ (self.turn answers).backward.res = -1 := by
  unfold SplicePair.pass
  rcases after.1.range with first | first | first <;> rcases after.2.range with second | second | second <;>
    simp only [first, second]
  · exact .inr ⟨rfl, trivial, trivial⟩
  all_goals exact .inl ⟨⟨_, rfl⟩, by decide⟩

theorem SplicePair.Inv.pass (lawful : b.Lawful held ok) {yielder : Bool} {self : SplicePair b} (inv : self.Inv held ok)
    {answers : SpliceAnswers} (allows : self.Allows answers) :
    (self.pass yielder answers).Meets (SplicePair.Inv held ok) (SplicePair.Inv held ok) ∧
      ((∃ result, self.pass yielder answers = .done result) ↔
        (self.turn answers).forward.res = -1 ∧ (self.turn answers).backward.res = -1 ∨
          yielder = true ∧ answers.abort = true) := by
  have after := inv.turn lawful allows
  rcases SplicePair.Inv.pass_cases after with ⟨⟨type, yields⟩, runs⟩ | ⟨leaves, stopped⟩
  · rw [yields, SplicePair.yield]
    by_cases abort : yielder = true ∧ answers.abort = true
    · rw [if_pos abort]
      exact ⟨⟨after.1, after.2⟩, fun _ => .inr abort, fun _ => ⟨_, rfl⟩⟩
    · rw [if_neg abort]
      exact ⟨⟨after.1, after.2⟩, fun ⟨_, done⟩ => (nomatch done), fun either => absurd either (not_or.mpr ⟨runs, abort⟩)⟩
  · rw [leaves]
    exact ⟨after, fun _ => .inl stopped, fun _ => ⟨_, rfl⟩⟩

end Lawful

/-- In both builds every direction relays, and the loop goes on as long as one direction has
not ended and the yielder does not abort. -/
theorem splice_relays (b : Splicer) (build : b = .circular ∨ b = .pipe) (start : SplicePair b) (init : start.Init)
    (yielder : Bool) (answers : List SpliceAnswers) (fits : Fits (SplicePair.pass yielder) SplicePair.Allows start answers) :
    (feed (SplicePair.pass yielder) start answers).Meets
      (fun s => s.forward.Relays ∧ s.backward.Relays ∧ ∀ next, s.Allows next →
        ((∃ result, s.pass yielder next = .done result) ↔
          (s.turn next).forward.res = -1 ∧ (s.turn next).backward.res = -1 ∨ yielder = true ∧ next.abort = true))
      (fun s => s.forward.Relays ∧ s.backward.Relays) := by
  obtain ⟨held, ok, lawful⟩ : ∃ held ok, b.Lawful held ok := by
    rcases build with rfl | rfl
    · exact ⟨_, _, circular_lawful⟩
    · exact ⟨_, _, pipe_lawful⟩
  obtain ⟨⟨first, res, rounds⟩, second, res', rounds'⟩ := init
  have before : start.Inv held ok := ⟨.start lawful first res rounds, .start lawful second res' rounds'⟩
  have kept := feed_meets (fun _ _ inv allows => (SplicePair.Inv.pass lawful inv allows).1) before fits
  cases run : feed (SplicePair.pass yielder) start answers with
  | next s =>
    rw [run] at kept
    exact ⟨kept.1.relays, kept.2.relays, fun next allows => (SplicePair.Inv.pass lawful kept allows).2⟩
  | done s =>
    rw [run] at kept
    exact ⟨kept.1.relays, kept.2.relays⟩

/-- Two bytes and the end of the stream are relayed through a pipe in three passes, while the
other direction fails at once. -/
theorem splice_relays_two : ∃ (start : SplicePair .pipe) (answers : List SpliceAnswers) (s : SplicePair .pipe),
    start.Init ∧ feed (SplicePair.pass false) start answers = .done s ∧ s.forward.Relays ∧ s.backward.Relays ∧
      accepted (log s.forward.rounds) = [1, 2] ∧ (log s.forward.rounds).count .shutdown = 1 := by
  let start : SplicePair .pipe := ⟨⟨(⟨[], 0, 8⟩ : PipeUser), 1, []⟩, ⟨(⟨[], 0, 8⟩ : PipeUser), 1, []⟩, none⟩
  let answers : List SpliceAnswers := [⟨.items [1, 2], .count 1, .error, .again, false⟩,
    ⟨.items [], .count 1, .again, .again, false⟩, ⟨.items [], .again, .again, .again, false⟩]
  have init : start.Init := ⟨⟨⟨rfl, rfl, by decide⟩, rfl, rfl⟩, ⟨rfl, rfl, by decide⟩, rfl, rfl⟩
  have run : feed (SplicePair.pass false) start answers = .done
      ⟨⟨(⟨[], 0, 8⟩ : PipeUser), -1, [⟨[.read (.items [1, 2]), .write [1] (.count 1)], 1⟩,
        ⟨[.read (.items []), .write [2] (.count 1)], 1⟩, ⟨[.read (.items []), .shutdown], -1⟩]⟩,
        ⟨(⟨[], 0, 8⟩ : PipeUser), -1, [⟨[.read .error, .shutdown], -1⟩]⟩, none⟩ := by
    simp [start, answers, feed, SplicePair.pass, SplicePair.turn, Direction.run, Splicer.taskIoSplice, Splicer.pipe,
      PipeUser.spliceRead, PipeUser.spliceWrite, SplicePair.yield]
  have fits : Fits (SplicePair.pass false) SplicePair.Allows start answers := by
    simp [start, answers, Fits, SplicePair.Allows, Splicer.Offers, SplicePair.pass, SplicePair.turn, Direction.run,
      Splicer.taskIoSplice, Splicer.pipe, PipeUser.spliceRead, PipeUser.spliceWrite, SplicePair.yield]
  have meets := splice_relays .pipe (.inr rfl) start init false answers fits
  rw [run] at meets
  exact ⟨start, answers, _, init, run, meets.1, meets.2, rfl, rfl⟩

end HevTaskSystem
