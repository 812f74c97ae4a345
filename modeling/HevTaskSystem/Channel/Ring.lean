import HevTaskSystem.Foundation.Ring
import HevTaskSystem.Foundation.Splice
import HevTaskSystem.RBTree.Memory

/-! The message ring of a channel endpoint.

The ring lies in the endpoint it is read from; the other endpoint writes to it. A
buffered ring copies a message into the block behind its buffers, a synchronous ring,
of one buffer, only keeps a pointer to the buffer of the task that writes.
-/

set_option autoImplicit false

namespace HevTaskSystem

open Foundation

/-- Where the `data` of a `HevTaskChannelBuffer` points: nowhere yet, at an offset of the
block behind the buffers, or at the buffer of the task inside `hev_task_channel_write`. -/
inductive BufferData where
  | wild
  | own (offset : Nat)
  | writer (t : Addr)
  deriving DecidableEq, Repr

structure ChannelBuffer where
  size : Nat
  data : BufferData
  deriving DecidableEq, Repr

/-- The fields of `HevTaskChannel` for its messages, and the block behind the buffers.
The last two are no fields of the source: the messages stored so far, and for each
message taken the count that was asked for and the bytes that were returned. No
operation reads them. -/
structure ChannelRing where
  rdIdx : Nat
  wrIdx : Nat
  maxSize : Nat
  useCount : Nat
  maxCount : Nat
  buffers : List ChannelBuffer
  bytes : List UInt8
  writes : List (List UInt8)
  reads : List (Nat × List UInt8)
  deriving DecidableEq, Repr

namespace ChannelRing

/-- Arithmetic of `unsigned int`. -/
def unsigned (n : Nat) : Nat := n % 2 ^ 32

/-- The ring of an endpoint as `hev_task_channel_new_with_buffers` sets it up. -/
def new (size buffers : Nat) : ChannelRing :=
  let buffers := unsigned (buffers + 1)
  let dataSize := if buffers > 1 then unsigned (size * buffers) else 0
  { rdIdx := 0
    wrIdx := 0
    maxSize := size
    useCount := 0
    maxCount := buffers
    buffers := (List.range buffers).map fun i =>
      ⟨0, if buffers > 1 then .own (unsigned (size * i)) else .wild⟩
    bytes := List.replicate dataSize 0
    writes := []
    reads := [] }

/-- `hev_task_channel_data_copy`; each case of its switch copies `size` bytes. -/
def dataCopy (src : List UInt8) (size : Nat) : List UInt8 := src.take size

def load (ring : ChannelRing) (buffer : Addr → Option (List UInt8)) (data : BufferData) (size : Nat) :
    Option (List UInt8) :=
  match data with
  | .wild => none
  | .own offset =>
    if offset + size ≤ ring.bytes.length then some (dataCopy (ring.bytes.drop offset) size) else none
  | .writer t => do
    let src ← buffer t
    if size ≤ src.length then some (dataCopy src size) else none

/-- `hev_task_channel_read` between the wait and the wakeup of the writer. -/
def take (ring : ChannelRing) (buffer : Addr → Option (List UInt8)) (count : Nat) :
    Option (ChannelRing × List UInt8) := do
  let cbuf ← ring.buffers[ring.rdIdx]?
  let rdIdx := (ring.rdIdx + 1) % ring.maxCount
  let size := if cbuf.size < count then cbuf.size else count
  let bytes ← ring.load buffer cbuf.data size
  return ({ ring with rdIdx, reads := ring.reads ++ [(count, bytes)] }, bytes)

/-- `hev_task_channel_write` between the wait and the wakeup of the reader, by the
task `t` on an endpoint with `maxSize`. -/
def store (ring : ChannelRing) (t : Addr) (maxSize : Nat) (buffer : List UInt8) :
    Option (ChannelRing × Nat) := do
  let cbuf ← ring.buffers[ring.wrIdx]?
  let wrIdx := (ring.wrIdx + 1) % ring.maxCount
  let size := buffer.length
  if ring.maxCount = 1 then
    let buffers := ring.buffers.set ring.wrIdx ⟨size, .writer t⟩
    return ({ ring with wrIdx, buffers, writes := ring.writes ++ [buffer] }, size)
  else
    let size := if size > maxSize then maxSize else size
    match cbuf.data with
    | .own offset =>
      if offset + size ≤ ring.bytes.length then
        let bytes := splice ring.bytes offset (dataCopy buffer size)
        let buffers := ring.buffers.set ring.wrIdx ⟨size, cbuf.data⟩
        let writes := ring.writes ++ [buffer.take maxSize]
        return ({ ring with wrIdx, bytes, buffers, writes }, size)
      else
        none
    | _ => none

/-! ## The queue in the ring -/

def pending (ring : ChannelRing) : List (List UInt8) := ring.writes.drop ring.reads.length

def Cell (ring : ChannelRing) (writer : Addr → List UInt8 → Prop) (slot : Nat) (message : List UInt8) :
    Prop :=
  ∃ cbuf, ring.buffers[slot]? = some cbuf ∧ cbuf.size = message.length ∧
    match cbuf.data with
    | .wild => False
    | .own offset => offset + message.length ≤ ring.bytes.length ∧
      (ring.bytes.drop offset).take message.length = message
    | .writer t => writer t message

/-- Indices, counters, histories and the places of the buffers. -/
structure Ok (ring : ChannelRing) : Prop where
  start : ring.rdIdx < ring.maxCount
  room : ring.useCount ≤ ring.maxCount
  wrIdx : ring.wrIdx = (ring.rdIdx + ring.useCount) % ring.maxCount
  balance : ring.writes.length = ring.reads.length + ring.useCount
  delivered : ∀ (i : Nat) (message : List UInt8) (count : Nat) (bytes : List UInt8),
    ring.writes[i]? = some message → ring.reads[i]? = some (count, bytes) → bytes = message.take count
  buffers : ring.buffers.length = ring.maxCount
  block : ring.maxCount ≠ 1 → ring.bytes.length = ring.maxSize * ring.maxCount
  places : ring.maxCount ≠ 1 → ∀ (i : Nat) (cbuf : ChannelBuffer), ring.buffers[i]? = some cbuf →
    cbuf.data = .own (ring.maxSize * i)
  bounded : ring.maxCount ≠ 1 → ∀ message ∈ ring.writes, message.length ≤ ring.maxSize

def Holds (ring : ChannelRing) (writer : Addr → List UInt8 → Prop) : Prop :=
  InRing (ring.Cell writer) ring.maxCount ring.rdIdx ring.pending

variable {ring : ChannelRing} {writer : Addr → List UInt8 → Prop} {message : List UInt8}

@[simps useCount maxCount maxSize writes reads]
def withCount (ring : ChannelRing) (useCount : Nat) : ChannelRing := { ring with useCount }

theorem Ok.length_pending (ok : ring.Ok) : ring.pending.length = ring.useCount := by
  have := ok.balance
  rw [pending, List.length_drop]
  omega

theorem Ok.pending_eq_cons (ok : ring.Ok) (readable : ring.useCount ≠ 0) :
    ∃ message, ring.writes[ring.reads.length]? = some message ∧
      ring.pending = message :: ring.writes.drop (ring.reads.length + 1) := by
  have inside : ring.reads.length < ring.writes.length := by
    have := ok.balance
    omega
  refine ⟨ring.writes[ring.reads.length], List.getElem?_eq_getElem inside, ?_⟩
  exact List.drop_eq_getElem_cons inside

/-- Pointers to the buffers of tasks are in synchronous rings only, and only while there
is a message. -/
theorem Holds.change (holds : ring.Holds writer) (ok : ring.Ok) {writer' : Addr → List UInt8 → Prop}
    (same : ring.maxCount = 1 → ring.useCount ≠ 0 → ∀ t message, writer t message → writer' t message) :
    ring.Holds writer' := by
  refine InRing.congr holds fun i message inside cell => ?_
  obtain ⟨cbuf, found, size, place⟩ := cell
  refine ⟨cbuf, found, size, ?_⟩
  cases data : cbuf.data with
  | wild => simp [data] at place
  | own offset => simpa [data] using place
  | writer t =>
    rw [data] at place
    have one : ring.maxCount = 1 := by
      by_contra many
      rw [ok.places many _ cbuf found] at data
      cases data
    have readable : ring.useCount ≠ 0 := by
      rw [ok.length_pending] at inside
      omega
    exact same one readable t message place

theorem new_ok {size buffers : Nat} (few : buffers + 1 < 2 ^ 32) (small : size * (buffers + 1) < 2 ^ 32) :
    (new size buffers).Ok := by
  have count : unsigned (buffers + 1) = buffers + 1 := Nat.mod_eq_of_lt few
  have data : unsigned (size * (buffers + 1)) = size * (buffers + 1) := Nat.mod_eq_of_lt small
  simp only [new, count, data]
  constructor
  case start => exact Nat.succ_pos buffers
  case room => exact Nat.zero_le _
  case wrIdx => simp
  case balance => rfl
  case delivered => simp
  case buffers => simp
  case block =>
    intro many
    have many' : buffers + 1 > 1 := by
      simp only [ne_eq] at many
      omega
    rw [if_pos many', List.length_replicate]
  -- The places are computed with 32 bits; below the bound on the block none of them wraps.
  case places =>
    intro many i cbuf found
    have many' : buffers + 1 > 1 := by
      simp only [ne_eq] at many
      omega
    simp only [if_pos many', List.getElem?_map, Option.map_eq_some_iff] at found
    obtain ⟨j, found, rfl⟩ := found
    obtain ⟨inside, rfl⟩ := List.getElem?_eq_some_iff.mp found
    simp only [List.length_range] at inside
    rw [List.getElem_range]
    have less : size * i < 2 ^ 32 := Nat.lt_of_le_of_lt (Nat.mul_le_mul_left size inside.le) small
    rw [unsigned, Nat.mod_eq_of_lt less]
  case bounded => simp

theorem new_holds {size buffers : Nat} : (new size buffers).Holds writer := .nil

/-! ## Taking a message -/

theorem load_of_cell {buffer : Addr → Option (List UInt8)} {slot count : Nat} {cbuf : ChannelBuffer}
    (found : ring.buffers[slot]? = some cbuf) (cell : ring.Cell writer slot message)
    (sharing : ∀ t, writer t message → buffer t = some message) (less : count ≤ message.length) :
    ring.load buffer cbuf.data count = some (message.take count) := by
  obtain ⟨cbuf', found', size, place⟩ := cell
  obtain rfl : cbuf = cbuf' := Option.some.inj (found.symm.trans found')
  cases data : cbuf.data with
  | wild => simp [data] at place
  | own offset =>
    rw [data] at place
    obtain ⟨inside, content⟩ := place
    have cut : (ring.bytes.drop offset).take count = message.take count := by
      rw [← content, List.take_take]
      congr 1
      omega
    rw [load, if_pos (by omega), dataCopy, cut]
  | writer t =>
    rw [data] at place
    simp [load, sharing t place, less, dataCopy]

@[simps useCount maxCount maxSize writes reads]
def taken (ring : ChannelRing) (count : Nat) (message : List UInt8) : ChannelRing :=
  { ring with
    rdIdx := (ring.rdIdx + 1) % ring.maxCount
    reads := ring.reads ++ [(count, message.take count)] }

theorem take_eq {buffer : Addr → Option (List UInt8)} (ok : ring.Ok) (holds : ring.Holds writer)
    (sharing : ∀ t message, writer t message → buffer t = some message) (readable : ring.useCount ≠ 0)
    (count : Nat) :
    ∃ message, ring.writes[ring.reads.length]? = some message ∧
      ring.take buffer count = some (ring.taken count message, message.take count) := by
  obtain ⟨message, found, queue⟩ := ok.pending_eq_cons readable
  rw [Holds, queue] at holds
  have cell := holds.first
  rw [Nat.mod_eq_of_lt ok.start] at cell
  have ⟨cbuf, there, size, _⟩ := cell
  refine ⟨message, found, ?_⟩
  have enough : (if cbuf.size < count then cbuf.size else count) ≤ message.length := by
    split <;> omega
  have loaded := load_of_cell there cell (fun t => sharing t message) enough
  have cut : message.take (if cbuf.size < count then cbuf.size else count) = message.take count := by
    split
    · rw [size, List.take_length, List.take_of_length_le (by omega)]
    · rfl
  rw [cut] at loaded
  simp [take, taken, there, loaded]

theorem Ok.taken (ok : ring.Ok) (readable : ring.useCount ≠ 0) {count : Nat}
    (found : ring.writes[ring.reads.length]? = some message) :
    ((ring.taken count message).withCount (ring.useCount - 1)).Ok where
  start := Nat.mod_lt _ (Nat.zero_lt_of_lt ok.start)
  room := Nat.le_trans (Nat.sub_le ..) ok.room
  wrIdx := by
    show ring.wrIdx = ((ring.rdIdx + 1) % ring.maxCount + (ring.useCount - 1)) % ring.maxCount
    rw [ok.wrIdx, Nat.mod_add_mod]
    congr 1
    omega
  balance := by
    have := ok.balance
    show ring.writes.length = (ring.reads ++ [(count, message.take count)]).length + (ring.useCount - 1)
    rw [List.length_append, List.length_singleton]
    omega
  delivered := by
    intro i stored asked bytes hwrite hread
    simp only [withCount, ChannelRing.taken, List.getElem?_append] at hwrite hread
    -- An old read keeps its message; the new one is at the end of both histories.
    split at hread
    · exact ok.delivered i stored asked bytes hwrite hread
    · rename_i outside
      have inside := (List.getElem?_eq_some_iff.mp hread).1
      have here : i = ring.reads.length := by
        simp only [List.length_singleton] at inside
        omega
      subst here
      simp only [Nat.sub_self, List.getElem?_cons_zero, Option.some.injEq, Prod.mk.injEq] at hread
      rw [found] at hwrite
      rw [← Option.some.inj hwrite, ← hread.1, ← hread.2]
  buffers := ok.buffers
  block := ok.block
  places := ok.places
  bounded := ok.bounded

theorem Holds.taken (holds : ring.Holds writer) (ok : ring.Ok) (readable : ring.useCount ≠ 0)
    {count : Nat} : ((ring.taken count message).withCount (ring.useCount - 1)).Holds writer := by
  obtain ⟨_, _, queue⟩ := ok.pending_eq_cons readable
  rw [Holds, queue] at holds
  have rest : ((ring.taken count message).withCount (ring.useCount - 1)).pending =
      ring.writes.drop (ring.reads.length + 1) := by
    simp [pending, withCount, ChannelRing.taken]
  rw [Holds, rest]
  exact holds.pop

/-! ## Storing a message -/

def messageOf (ring : ChannelRing) (buffer : List UInt8) : List UInt8 :=
  if ring.maxCount = 1 then buffer else buffer.take ring.maxSize

/-- The ring after a write of the buffer by the task `t`. -/
@[simps useCount maxCount maxSize writes reads]
def stored (ring : ChannelRing) (t : Addr) (buffer : List UInt8) : ChannelRing :=
  let message := ring.messageOf buffer
  let offset := ring.maxSize * ring.wrIdx
  { ring with
    wrIdx := (ring.wrIdx + 1) % ring.maxCount
    buffers := ring.buffers.set ring.wrIdx
      ⟨message.length, if ring.maxCount = 1 then .writer t else .own offset⟩
    bytes := if ring.maxCount = 1 then ring.bytes else splice ring.bytes offset message
    writes := ring.writes ++ [message] }

theorem Ok.wrIdx_lt (ok : ring.Ok) : ring.wrIdx < ring.maxCount := by
  rw [ok.wrIdx]
  exact Nat.mod_lt _ (Nat.zero_lt_of_lt ok.start)

theorem slot_bounds (size : Nat) {count i : Nat} (less : i < count) : size * i + size ≤ size * count := by
  calc size * i + size = size * (i + 1) := (Nat.mul_succ size i).symm
    _ ≤ size * count := Nat.mul_le_mul_left size less

theorem length_messageOf_le {buffer : List UInt8} (many : ring.maxCount ≠ 1) :
    (ring.messageOf buffer).length ≤ ring.maxSize := by
  rw [messageOf, if_neg many, List.length_take]
  exact Nat.min_le_left ..

theorem store_eq (ok : ring.Ok) (t : Addr) (buffer : List UInt8) :
    ring.store t ring.maxSize buffer = some (ring.stored t buffer, (ring.messageOf buffer).length) := by
  have inside : ring.wrIdx < ring.buffers.length := ok.buffers ▸ ok.wrIdx_lt
  have found := List.getElem?_eq_getElem inside
  by_cases one : ring.maxCount = 1
  · simp [store, stored, found, messageOf, one]
  · have place := ok.places one _ _ found
    have fits := slot_bounds ring.maxSize ok.wrIdx_lt
    rw [← ok.block one] at fits
    have size : (if buffer.length > ring.maxSize then ring.maxSize else buffer.length) =
        (ring.messageOf buffer).length := by
      rw [messageOf, if_neg one, List.length_take]
      split <;> omega
    have copied : dataCopy buffer (ring.messageOf buffer).length = ring.messageOf buffer := by
      rw [dataCopy, messageOf, if_neg one, List.length_take, List.take_eq_take_iff]
      omega
    have less := @length_messageOf_le ring buffer one
    have fits' : ring.maxSize * ring.wrIdx + (ring.messageOf buffer).length ≤ ring.bytes.length := by
      omega
    simp only [store, found, Option.bind_eq_bind, Option.bind_some, if_neg one, place, size, if_pos fits',
      copied, stored]
    simp [messageOf, one]

theorem Ok.stored (ok : ring.Ok) (room : ring.useCount < ring.maxCount) (t : Addr) (buffer : List UInt8) :
    ((ring.stored t buffer).withCount (ring.useCount + 1)).Ok where
  start := ok.start
  room := room
  wrIdx := by
    show (ring.wrIdx + 1) % ring.maxCount = (ring.rdIdx + (ring.useCount + 1)) % ring.maxCount
    rw [ok.wrIdx, Nat.mod_add_mod, Nat.add_assoc]
  balance := by
    have := ok.balance
    show (ring.writes ++ [ring.messageOf buffer]).length = ring.reads.length + (ring.useCount + 1)
    rw [List.length_append, List.length_singleton]
    omega
  delivered := by
    intro i message count bytes hwrite hread
    -- Fewer messages are read than written, so a read never refers to the new one.
    have old : i < ring.writes.length := by
      have := (List.getElem?_eq_some_iff.mp hread).1
      have := ok.balance
      simp only [withCount, ChannelRing.stored] at *
      omega
    refine ok.delivered i message count bytes ?_ hread
    rwa [withCount, ChannelRing.stored, List.getElem?_append_left old] at hwrite
  buffers := by
    simp [withCount, ChannelRing.stored, ok.buffers]
  block := by
    intro many
    have one : ring.maxCount ≠ 1 := many
    have fits := slot_bounds ring.maxSize ok.wrIdx_lt
    rw [← ok.block one] at fits
    have less := @length_messageOf_le ring buffer one
    simp only [withCount, ChannelRing.stored, if_neg one]
    rw [length_splice (by omega)]
    exact ok.block one
  places := by
    intro many i cbuf found
    have one : ring.maxCount ≠ 1 := many
    simp only [withCount, ChannelRing.stored, List.getElem?_set, if_neg one] at found ⊢
    split at found
    · rename_i here
      split at found
      · cases found
        rw [here]
      · cases found
    · exact ok.places one i cbuf found
  bounded := by
    intro many message member
    have one : ring.maxCount ≠ 1 := many
    simp only [withCount, ChannelRing.stored, List.mem_append, List.mem_singleton] at member
    rcases member with old | rfl
    · exact ok.bounded one message old
    · exact length_messageOf_le one

/-- A write to a ring with room appends the message. In a synchronous ring the message
stays in the buffer of the task. -/
theorem Holds.stored (holds : ring.Holds writer) (ok : ring.Ok) (room : ring.useCount < ring.maxCount)
    {t : Addr} {buffer : List UInt8} {writer' : Addr → List UInt8 → Prop}
    (mine : ring.maxCount = 1 → writer' t buffer) :
    ((ring.stored t buffer).withCount (ring.useCount + 1)).Holds writer' := by
  have queue : ((ring.stored t buffer).withCount (ring.useCount + 1)).pending =
      ring.pending ++ [ring.messageOf buffer] := by
    have := ok.balance
    show (ring.writes ++ [ring.messageOf buffer]).drop ring.reads.length = _
    exact List.drop_append_of_le_length (by omega)
  have slot : (ring.rdIdx + ring.pending.length) % ring.maxCount = ring.wrIdx := by
    rw [ok.length_pending, ok.wrIdx]
  have inside : ring.wrIdx < ring.buffers.length := ok.buffers ▸ ok.wrIdx_lt
  rw [Holds, queue]
  show InRing _ ring.maxCount ring.rdIdx _
  refine InRing.push holds (ok.length_pending ▸ room) ?_ ?_
  · intro i message member other cell
    rw [slot] at other
    obtain ⟨cbuf, found, size, place⟩ := cell
    have less : i < ring.maxCount := ok.buffers ▸ (List.getElem?_eq_some_iff.mp found).1
    -- A ring of one slot has no other slot; in a larger one every slot has its own part.
    have one : ring.maxCount ≠ 1 := by
      intro one
      have := ok.wrIdx_lt
      omega
    have data := ok.places one i cbuf found
    rw [data] at place
    have bound := ok.bounded one message (List.mem_of_mem_drop member)
    have here := @length_messageOf_le ring buffer one
    have fits := slot_bounds ring.maxSize ok.wrIdx_lt
    rw [← ok.block one] at fits
    refine ⟨cbuf, ?_, size, ?_⟩
    · simpa [withCount, ChannelRing.stored, List.getElem?_set_ne (Ne.symm other)] using found
    · simp only [data, withCount, ChannelRing.stored, if_neg one]
      rw [length_splice (by omega), take_drop_splice_of_disjoint (by omega)]
      · exact place
      · rcases Nat.lt_or_gt_of_ne other with before | behind
        · have := slot_bounds ring.maxSize before
          omega
        · have := slot_bounds ring.maxSize behind
          omega
  · rw [slot]
    refine ⟨_, by simpa [withCount, ChannelRing.stored] using List.getElem?_set_self inside, rfl, ?_⟩
    by_cases one : ring.maxCount = 1
    · simpa [one, messageOf] using mine one
    · have fits := slot_bounds ring.maxSize ok.wrIdx_lt
      rw [← ok.block one] at fits
      have here := @length_messageOf_le ring buffer one
      simp only [if_neg one, withCount, ChannelRing.stored]
      rw [length_splice (by omega), take_drop_splice_self (by omega)]
      exact ⟨by omega, rfl⟩

end ChannelRing

end HevTaskSystem
