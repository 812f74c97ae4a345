import HevTaskSystem.Foundation.Ring
import HevTaskSystem.Foundation.Splice
import HevTaskSystem.Foundation.Transition

/-! The circular buffer, `lib/io/buffer/hev-circular-buffer.c`.

The buffer offers its memory as one or two regions, to read from and to write to. A
region is given by its place in `data`. Sizes are natural numbers: no object takes more
than half of the address space, so no sum of two positions in one overflows.
-/

set_option autoImplicit false

namespace HevTaskSystem

open Foundation

/-- `struct iovec`, with a base that counts from `data`. -/
structure IoVec where
  base : Nat
  len : Nat
  deriving DecidableEq, Repr

def IoVec.places (regions : List IoVec) : List Nat :=
  regions.flatMap fun iov => List.range' iov.base iov.len

structure CircularBuffer where
  rp : Nat
  useSize : Nat
  maxSize : Nat
  data : Nat → UInt8

namespace CircularBuffer

/-- `hev_circular_buffer_new`, with what is in the memory it gets. -/
def new (maxSize : Nat) (data : Nat → UInt8) : CircularBuffer := ⟨0, 0, maxSize, data⟩

def reading (self : CircularBuffer) : List IoVec :=
  let upperSize := self.maxSize - self.rp
  if self.useSize = 0 then []
  else if self.useSize ≤ upperSize then [⟨self.rp, self.useSize⟩]
  else [⟨self.rp, upperSize⟩, ⟨0, self.useSize - upperSize⟩]

def readFinish (self : CircularBuffer) (size : Nat) : CircularBuffer :=
  { self with rp := (self.rp + size) % self.maxSize, useSize := self.useSize - size }

def writing (self : CircularBuffer) : List IoVec :=
  let wp := (self.rp + self.useSize) % self.maxSize
  let upperSize := self.maxSize - wp
  let spcSize := self.maxSize - self.useSize
  if self.useSize = self.maxSize then []
  else if spcSize ≤ upperSize then [⟨wp, spcSize⟩]
  else [⟨wp, upperSize⟩, ⟨0, spcSize - upperSize⟩]

def writeFinish (self : CircularBuffer) (size : Nat) : CircularBuffer :=
  { self with useSize := self.useSize + size }

/-! ## The regions -/

structure Ok (b : CircularBuffer) : Prop where
  rp : b.rp < b.maxSize
  useSize : b.useSize ≤ b.maxSize

variable {b : CircularBuffer}

theorem Ok.reading_places (ok : b.Ok) :
    IoVec.places b.reading = ringSlots b.maxSize b.rp b.useSize := by
  obtain ⟨rp, useSize⟩ := ok
  simp only [reading]
  split_ifs with empty upper
  · simp [IoVec.places, empty, ringSlots]
  · simp [IoVec.places, ringSlots_below (show b.rp + b.useSize ≤ b.maxSize by omega)]
  · simp [IoVec.places, ringSlots_across (show b.rp ≤ b.maxSize by omega) (by omega) useSize]

theorem Ok.writing_places (ok : b.Ok) : IoVec.places b.writing =
    ringSlots b.maxSize (b.rp + b.useSize) (b.maxSize - b.useSize) := by
  obtain ⟨rp, useSize⟩ := ok
  have wp : (b.rp + b.useSize) % b.maxSize < b.maxSize := Nat.mod_lt _ (by omega)
  rw [← ringSlots_mod]
  simp only [writing]
  split_ifs with full upper
  · simp [IoVec.places, full, ringSlots]
  · rw [ringSlots_below (by omega)]
    simp [IoVec.places]
  · rw [ringSlots_across (by omega) (by omega) (by omega)]
    simp [IoVec.places]

theorem Ok.places (ok : b.Ok) : IoVec.places b.reading ++ IoVec.places b.writing =
    ringSlots b.maxSize b.rp b.maxSize := by
  rw [ok.reading_places, ok.writing_places, ← ringSlots_add, Nat.add_sub_cancel' ok.useSize]

end CircularBuffer

/-! ## A user of the buffer -/

/-- The buffer with all bytes that have been filled in and taken out. -/
structure BufferUser where
  buffer : CircularBuffer
  filled : List UInt8
  taken : List UInt8

/-- Some bytes are filled in, or a number of bytes taken out. -/
inductive BufferOp where
  | fill (bytes : List UInt8)
  | take (count : Nat)
  deriving DecidableEq, Repr

namespace BufferUser

def unread (s : BufferUser) : List UInt8 := (IoVec.places s.buffer.reading).map s.buffer.data

def fill (s : BufferUser) (bytes : List UInt8) : BufferUser where
  buffer :=
    let data := storeAt s.buffer.data (IoVec.places s.buffer.writing) bytes
    { s.buffer with data }.writeFinish bytes.length
  filled := s.filled ++ bytes
  taken := s.taken

def take (s : BufferUser) (count : Nat) : BufferUser where
  buffer := s.buffer.readFinish count
  filled := s.filled
  taken := s.taken ++ s.unread.take count

end BufferUser

namespace BufferOp

def Ready (s : BufferUser) : BufferOp → Prop
  | .fill bytes => bytes.length ≤ (IoVec.places s.buffer.writing).length
  | .take count => count ≤ (IoVec.places s.buffer.reading).length

instance (s : BufferUser) (op : BufferOp) : Decidable (op.Ready s) := by
  cases op <;> unfold Ready <;> infer_instance

def apply (s : BufferUser) : BufferOp → BufferUser
  | .fill bytes => s.fill bytes
  | .take count => s.take count

end BufferOp

def bufferSystem (maxSize : Nat) : System BufferUser BufferOp where
  init s := (∃ data, s.buffer = .new maxSize data) ∧ s.filled = [] ∧ s.taken = []
  step s op next := op.Ready s ∧ next = op.apply s

namespace BufferUser

/-- What was filled in is what was taken out and what is still there. -/
structure Inv (s : BufferUser) : Prop where
  ok : s.buffer.Ok
  fifo : s.taken ++ s.unread = s.filled

variable {s : BufferUser} {bytes : List UInt8} {count : Nat}

theorem Inv.fill (inv : s.Inv) (room : bytes.length ≤ (IoVec.places s.buffer.writing).length) :
    (s.fill bytes).Inv := by
  have slots := inv.ok.writing_places
  have free : bytes.length ≤ s.buffer.maxSize - s.buffer.useSize := by
    rwa [slots, length_ringSlots] at room
  have ok : (s.fill bytes).buffer.Ok := by
    refine ⟨inv.ok.rp, ?_⟩
    have useSize := inv.ok.useSize
    simp only [BufferUser.fill, CircularBuffer.writeFinish]
    omega
  have apart := @ringSlots_nodup s.buffer.maxSize s.buffer.rp _ le_rfl
  rw [← inv.ok.places, List.nodup_append'] at apart
  obtain ⟨_, nodup, disjoint⟩ := apart
  -- The bytes go behind those that are there, which stay as they are.
  have new : (ringSlots s.buffer.maxSize (s.buffer.rp + s.buffer.useSize) bytes.length).map
      (s.fill bytes).buffer.data = bytes := by
    rw [← take_ringSlots free, ← slots]
    exact map_storeAt nodup room
  have old : (IoVec.places s.buffer.reading).map (s.fill bytes).buffer.data = s.unread :=
    List.map_congr_left fun a member => storeAt_of_not_mem (disjoint member)
  have unread : (s.fill bytes).unread = s.unread ++ bytes := by
    rw [BufferUser.unread, ok.reading_places]
    change (ringSlots s.buffer.maxSize s.buffer.rp (s.buffer.useSize + bytes.length)).map _ = _
    rw [ringSlots_add, List.map_append, new, ← inv.ok.reading_places, old]
  refine ⟨ok, ?_⟩
  rw [unread, ← List.append_assoc]
  exact congrArg (· ++ bytes) inv.fifo

theorem Inv.take (inv : s.Inv) (offered : count ≤ (IoVec.places s.buffer.reading).length) : (s.take count).Inv := by
  have slots := inv.ok.reading_places
  have bound : count ≤ s.buffer.useSize := by
    rwa [slots, length_ringSlots] at offered
  have useSize := inv.ok.useSize
  have rp := inv.ok.rp
  have ok : (s.take count).buffer.Ok := by
    refine ⟨Nat.mod_lt _ (by omega), ?_⟩
    simp only [BufferUser.take, CircularBuffer.readFinish]
    omega
  have unread : (s.take count).unread = s.unread.drop count := by
    rw [BufferUser.unread, BufferUser.unread, ok.reading_places, slots, ← List.map_drop, drop_ringSlots bound]
    rfl
  refine ⟨ok, ?_⟩
  rw [unread]
  change (s.taken ++ s.unread.take count) ++ _ = s.filled
  rw [List.append_assoc, List.take_append_drop, inv.fifo]

end BufferUser

/-- The positions stay in range. What is offered for reading is what was filled in and
not yet taken, oldest first, so what was taken is a first part of what was filled in. The
regions for reading and for writing are all places of the memory, each once. -/
theorem circular_buffer_fifo {maxSize : Nat} (nonempty : 1 ≤ maxSize) {ops : List BufferOp} {s : BufferUser}
    (run : (bufferSystem maxSize).Run ops s) :
    s.buffer.rp < maxSize ∧ s.buffer.useSize ≤ maxSize ∧ s.taken ++ s.unread = s.filled ∧
      s.taken.IsPrefix s.filled ∧
      (IoVec.places s.buffer.reading ++ IoVec.places s.buffer.writing).Perm (List.range maxSize) := by
  have inv : s.Inv ∧ s.buffer.maxSize = maxSize := by
    refine run.invariant (fun s => s.Inv ∧ s.buffer.maxSize = maxSize) ?_ ?_
    · rintro s ⟨⟨data, buffer⟩, filled, taken⟩
      refine ⟨⟨?_, ?_⟩, ?_⟩
      · rw [buffer]
        exact ⟨nonempty, Nat.zero_le _⟩
      · simp [filled, taken, BufferUser.unread, buffer, CircularBuffer.new, CircularBuffer.reading, IoVec.places]
      · rw [buffer]
        rfl
    · rintro s op _ ⟨inv, size⟩ ⟨ready, rfl⟩
      cases op with
      | fill bytes => exact ⟨inv.fill ready, size⟩
      | take count => exact ⟨inv.take ready, size⟩
  obtain ⟨⟨ok, fifo⟩, rfl⟩ := inv
  refine ⟨ok.rp, ok.useSize, fifo, ⟨s.unread, fifo⟩, ?_⟩
  rw [ok.places]
  exact ringSlots_perm

/-- Over the end of the memory, with three bytes of four in use. -/
theorem circular_buffer_fifo_four : ∃ s, (bufferSystem 4).Run [.fill [1, 2, 3], .take 2, .fill [4, 5]] s ∧
    s.buffer.reading = [⟨2, 2⟩, ⟨0, 1⟩] ∧ s.buffer.writing = [⟨1, 1⟩] ∧ s.unread = [3, 4, 5] ∧
      s.taken.IsPrefix s.filled := by
  have run : (bufferSystem 4).Run [] ⟨.new 4 fun _ => 0, [], []⟩ := .init ⟨⟨_, rfl⟩, rfl, rfl⟩
  have step : ∀ {ops s} (op : BufferOp), (bufferSystem 4).Run ops s → op.Ready s →
      (bufferSystem 4).Run (ops ++ [op]) (op.apply s) := fun op run ready => run.step ⟨ready, rfl⟩
  have run := step (.fill [1, 2, 3]) run (by decide)
  have run := step (.take 2) run (by decide)
  have run := step (.fill [4, 5]) run (by decide)
  exact ⟨_, run, by decide, by decide, by decide, (circular_buffer_fifo (by decide) run).2.2.2.1⟩

end HevTaskSystem
