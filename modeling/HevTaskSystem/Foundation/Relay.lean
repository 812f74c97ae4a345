import Mathlib.Data.List.Basic

/-! A relay takes items from a source and hands them to a sink.

It works in rounds. A round may ask the source for more items and, if it has items, it
offers them to the sink; if it has none and the source is over, it shuts the sink down.
The result of a round is `1` if it should go on, `0` if it has to wait and `-1` if it has
ended. What a round can do is stated once, and what follows for the rounds of a relay is
proved from that.
-/

set_option autoImplicit false

namespace HevTaskSystem.Foundation.Relay

/-- What the source answers; no items at all is the end of the stream. -/
inductive Source (α : Type) where
  | items (items : List α)
  | again
  | error
  deriving DecidableEq

inductive Sink where
  | count (s : Nat)
  | again
  | error
  deriving DecidableEq

inductive Call (α : Type) where
  | read (answer : Source α)
  | write (accepted : List α) (answer : Sink)
  | shutdown
  deriving DecidableEq

structure Round (α : Type) where
  calls : List (Call α)
  res : Int32
  deriving DecidableEq

variable {α : Type}

namespace Call

def received : Call α → List α
  | .read (.items items) => items
  | _ => []

def accepted : Call α → List α
  | .write accepted _ => accepted
  | _ => []

def isOver : Call α → Bool
  | .read (.items items) => items.isEmpty
  | .read .error => true
  | _ => false

def isAgain : Call α → Bool
  | .read .again => true
  | .write _ .again => true
  | _ => false

theorem isOver_none {call : Call α} (stopped : call.isOver) : call.accepted = [] ∧ call.received = [] := by
  cases call with
  | read answer =>
    cases answer with
    | items items => exact ⟨rfl, List.isEmpty_iff.mp stopped⟩
    | again => exact nomatch stopped
    | error => exact ⟨rfl, rfl⟩
  | write | shutdown => exact nomatch stopped

end Call

def received (calls : List (Call α)) : List α := calls.flatMap Call.received

def accepted (calls : List (Call α)) : List α := calls.flatMap Call.accepted

def log (rounds : List (Round α)) : List (Call α) := rounds.flatMap Round.calls

/-- The first half of a round, with the items that the relay holds. A relay that holds some
need not ask for more. -/
inductive Reads (held : List α) : List (Call α) → Int32 → List α → Prop where
  | full : held ≠ [] → Reads held [] 1 held
  | items {items : List α} : items ≠ [] → Reads held [.read (.items items)] 1 (held ++ items)
  | again : Reads held [.read .again] 0 held
  | stop {answer : Source α} : answer = .items [] ∨ answer = .error → Reads held [.read answer] (-1) held

/-- The second half of a round, after the result of the first one. -/
inductive Writes (held : List α) (res : Int32) : List (Call α) → Int32 → List α → Prop where
  | count {s : Nat} : held ≠ [] → s ≠ 0 → s ≤ held.length →
      Writes held res [.write (held.take s) (.count s)] 1 (held.drop s)
  | again : held ≠ [] → Writes held res [.write [] .again] 0 held
  | error {answer : Sink} : held ≠ [] → answer = .count 0 ∨ answer = .error →
      Writes held res [.write [] answer] (-1) held
  | shutdown : held = [] → res < 0 → Writes held res [.shutdown] res held
  | idle : held = [] → ¬ res < 0 → Writes held res [] res held

inductive Rounds (held : List α) : Round α → List α → Prop where
  | round {calls calls' : List (Call α)} {res res' : Int32} {between after : List α} :
      Reads held calls res between → Writes between res calls' res' after → Rounds held ⟨calls ++ calls', res'⟩ after

section Halves

variable {held between after : List α} {calls : List (Call α)} {res res' : Int32}

theorem Reads.balance (reads : Reads held calls res between) :
    accepted calls = [] ∧ held ++ received calls = between ∧ .shutdown ∉ calls := by
  cases reads with
  | full => exact ⟨rfl, List.append_nil _, List.not_mem_nil⟩
  | items | again => simp [accepted, received, Call.accepted, Call.received]
  | stop which => rcases which with rfl | rfl <;> simp [accepted, received, Call.accepted, Call.received]

theorem Writes.balance (writes : Writes between res calls res' after) :
    received calls = [] ∧ accepted calls ++ after = between := by
  cases writes with
  | count | again | error | shutdown => simp [accepted, received, Call.accepted, Call.received]
  | idle => simp [accepted, received]

theorem Reads.range (reads : Reads held calls res between) :
    (res = -1 ∨ res = 0 ∨ res = 1) ∧ (res = 0 → calls = [.read .again] ∧ between = held) := by
  cases reads with
  | full | items => exact ⟨.inr (.inr rfl), fun zero => absurd zero (by decide)⟩
  | again => exact ⟨.inr (.inl rfl), fun _ => ⟨rfl, rfl⟩⟩
  | stop => exact ⟨.inl rfl, fun zero => absurd zero (by decide)⟩

/-- Results of the second half; if it has to wait, it has items that the sink did not take, or
it has none and the first half had to wait. -/
theorem Writes.range (writes : Writes between res calls res' after) (before : res = -1 ∨ res = 0 ∨ res = 1) :
    (res' = -1 ∨ res' = 0 ∨ res' = 1) ∧
      (res' = 0 → calls = [.write [] .again] ∧ after ≠ [] ∧ between ≠ [] ∨ after = [] ∧ between = [] ∧ res = 0) := by
  cases writes with
  | count => exact ⟨.inr (.inr rfl), fun zero => absurd zero (by decide)⟩
  | again some => exact ⟨.inr (.inl rfl), fun _ => .inl ⟨rfl, some, some⟩⟩
  | error => exact ⟨.inl rfl, fun zero => absurd zero (by decide)⟩
  | shutdown empty | idle empty => exact ⟨before, fun zero => .inr ⟨empty, empty, zero⟩⟩

end Halves

variable {held after : List α} {round : Round α} {rounds : List (Round α)}

theorem Rounds.balance (step : Rounds held round after) :
    accepted round.calls ++ after = held ++ received round.calls := by
  obtain ⟨reads, writes⟩ := step
  obtain ⟨none, first, -⟩ := reads.balance
  obtain ⟨none', second⟩ := writes.balance
  simp only [accepted, received, List.flatMap_append] at none none' first second ⊢
  rw [none, none', List.nil_append, List.append_nil, first, second]

theorem Rounds.range (step : Rounds held round after) : round.res = -1 ∨ round.res = 0 ∨ round.res = 1 := by
  obtain ⟨reads, writes⟩ := step
  cases writes with
  | count => exact .inr (.inr rfl)
  | again => exact .inr (.inl rfl)
  | error => exact .inl rfl
  | shutdown _ _ | idle _ _ => cases reads <;> simp

theorem Rounds.again (step : Rounds held round after) (wait : round.res = 0) :
    ∃ call, round.calls.getLast? = some call ∧ call.isAgain := by
  obtain ⟨reads, writes⟩ := step
  cases writes with
  | count => exact absurd (show (1 : Int32) = 0 from wait) (by decide)
  | again => exact ⟨.write [] .again, by simp, rfl⟩
  | error => exact absurd (show (-1 : Int32) = 0 from wait) (by decide)
  | shutdown _ negative =>
    simp only at wait
    exact absurd (wait ▸ negative) (by decide)
  | idle _ _ =>
    cases reads with
    | full | items => exact absurd (show (1 : Int32) = 0 from wait) (by decide)
    | again => exact ⟨.read .again, rfl, rfl⟩
    | stop => exact absurd (show (-1 : Int32) = 0 from wait) (by decide)

/-- A round shuts the sink down after the source was over, when it holds nothing, and it ends
the relay with that. -/
theorem Rounds.shutdown (step : Rounds held round after) (shut : .shutdown ∈ round.calls) :
    ∃ call, call.isOver ∧ call ≠ .shutdown ∧ round = ⟨[call, .shutdown], -1⟩ ∧ held = [] := by
  obtain ⟨reads, writes⟩ := step
  have absent := reads.balance.2.2
  cases writes with
  | count | again | error | idle => simp [absent] at shut
  | shutdown empty negative =>
    cases reads with
    | full | items | again => exact absurd negative (by decide)
    | @stop answer which => exact ⟨.read answer, by rcases which with rfl | rfl <;> rfl, nofun, rfl, empty⟩

/-! ## All rounds -/

structure Relayed (held : List α) (rounds : List (Round α)) : Prop where
  balance : accepted (log rounds) ++ held = received (log rounds)
  again : ∀ round ∈ rounds, round.res = 0 → ∃ call, round.calls.getLast? = some call ∧ call.isAgain
  ended : ∀ earlier round later, rounds = earlier ++ round :: later → round.res = -1 → later = []
  shutdown : ∀ earlier later, log rounds = earlier ++ .shutdown :: later →
    (∃ call ∈ earlier, call.isOver) ∧ accepted earlier = received earlier ∧ later = []
  runs : (∀ round ∈ rounds, round.res ≠ -1) → .shutdown ∉ log rounds

theorem Relayed.nil : Relayed ([] : List α) [] :=
  ⟨rfl, nofun, fun _ _ _ split => by simp at split, fun _ _ split => by simp [log] at split, fun _ => List.not_mem_nil⟩

theorem log_append (rounds : List (Round α)) (round : Round α) : log (rounds ++ [round]) = log rounds ++ round.calls := by
  simp [log]

theorem Relayed.step (relayed : Relayed held rounds) (running : ∀ round ∈ rounds, round.res ≠ -1)
    (step : Rounds held round after) : Relayed after (rounds ++ [round]) := by
  have quiet := relayed.runs running
  refine ⟨?_, ?_, ?_, ?_, ?_⟩
  · have balance := step.balance
    simp only [log_append, accepted, received, List.flatMap_append] at balance ⊢
    rw [List.append_assoc, balance, ← List.append_assoc]
    exact congrArg (· ++ _) relayed.balance
  · intro other member wait
    rcases List.mem_append.mp member with member | member
    · exact relayed.again other member wait
    · rw [List.mem_singleton.mp member] at wait ⊢
      exact step.again wait
  · intro earlier other later split ended
    rcases List.eq_nil_or_concat later with rfl | ⟨init, last, rfl⟩
    · rfl
    · have split' : rounds ++ [round] = (earlier ++ other :: init) ++ [last] := by simpa using split
      obtain ⟨before, -⟩ := List.append_inj' split' rfl
      exact absurd ended (running other (by simp [before]))
  · intro earlier later split
    rw [log_append] at split
    have shut : .shutdown ∈ log rounds ++ round.calls := by simp [split]
    obtain ⟨call, stopped, other, rfl, empty⟩ := step.shutdown ((List.mem_append.mp shut).resolve_left quiet)
    have parts : log rounds ++ [call] ++ .shutdown :: [] = earlier ++ .shutdown :: later := by simpa using split
    rw [List.append_cons_inj_of_notMem (by simp [quiet, other.symm]) List.not_mem_nil] at parts
    obtain ⟨rfl, -, rfl⟩ := parts
    obtain ⟨none, none'⟩ := Call.isOver_none stopped
    have balance := relayed.balance
    rw [empty, List.append_nil] at balance
    refine ⟨⟨call, by simp, stopped⟩, ?_, rfl⟩
    simp only [accepted, received, List.flatMap_append, List.flatMap_singleton, none, none'] at balance ⊢
    rw [balance]
  · intro running' member
    rw [log_append, List.mem_append] at member
    obtain ⟨call, -, -, rfl, -⟩ := step.shutdown (member.resolve_left quiet)
    exact running' _ (List.mem_append_right _ (List.mem_singleton_self _)) rfl

theorem Relayed.shutdown_once [DecidableEq α] (relayed : Relayed held rounds) :
    (log rounds).count .shutdown ≤ 1 := by
  by_cases member : .shutdown ∈ log rounds
  · obtain ⟨earlier, later, split, first⟩ := List.eq_append_cons_of_mem member
    obtain ⟨-, -, rfl⟩ := relayed.shutdown earlier later split
    rw [split, List.count_append, List.count_eq_zero.mpr first]
    simp
  · rw [List.count_eq_zero.mpr member]
    omega

end HevTaskSystem.Foundation.Relay
