import Mathlib.Logic.Function.Basic
import HevTaskSystem.Foundation.Align
import HevTaskSystem.Foundation.Transition

/-! The stacks of tasks, and giving their unused pages back.

A stack is a block of the heap with tags at its low end, or a mapping with a page that cannot
be touched. `hev_task_release_stack` gives the whole pages between that end and a margin below
the stack pointer back to the system, which may then show anything there. Tasks go on running
on their stacks, on each other's turn and on other stacks inside calls.
-/

set_option autoImplicit false

namespace HevTaskSystem

open Foundation

/-! ## Layout -/

/-- `CONFIG_STACK_BACKEND` and its overflow detection: how many bytes of tags there are on the
heap, whether a mapping has a protected page. -/
inductive StackKind where
  | heap (detectionSize : Nat)
  | mmap (protect : Bool)
  deriving DecidableEq, Repr

/-- A build and a machine. `madvise` says whether `STACK_MADV_RELEASE` is defined. -/
structure StackConfig where
  backend : StackKind
  pageShift : Nat
  madvise : Bool
  deriving DecidableEq, Repr

/-- `HevTaskStack`; `memory` is the object itself on the heap and `self->stack` of a mapping. -/
structure StackBlock where
  memory : Nat
  size : Nat
  deriving DecidableEq, Repr

namespace StackConfig

/-- `getpagesize ()` -/
def pageSize (config : StackConfig) : Nat := 2 ^ config.pageShift

/-- `sizeof (HevTaskStack)` on the heap. -/
def headerSize : Nat := 4

def releaseMargin : Nat := 512

variable (config : StackConfig)

/-- `hev_task_stack_new`, with the memory that the allocator or `mmap` gave. -/
def stackNew (size : Nat) (memory : Nat) : StackBlock :=
  match config.backend with
  | .heap detectionSize => ⟨memory, size + detectionSize⟩
  | .mmap protect => ⟨memory, alignUp 32 size config.pageSize + if protect then config.pageSize else 0⟩

def extent (stack : StackBlock) : Nat :=
  match config.backend with
  | .heap _ => headerSize + stack.size
  | .mmap _ => stack.size

def getBase (stack : StackBlock) : Nat :=
  match config.backend with
  | .heap _ => stack.memory + headerSize
  | .mmap _ => stack.memory

def getBottom (stack : StackBlock) : Nat :=
  match config.backend with
  | .heap _ => alignDown 64 (stack.memory + stack.size) 16
  | .mmap _ => stack.memory + stack.size

def floor (stack : StackBlock) : Nat :=
  match config.backend with
  | .heap detectionSize => config.getBase stack + detectionSize
  | .mmap protect => config.getBase stack + if protect then config.pageSize else 0

def discard (start sp : Nat) : Option (Nat × Nat) :=
  if config.madvise then
    let start := alignUp 64 start config.pageSize
    let stop := alignDown 64 ((sp + 2 ^ 64 - releaseMargin) % 2 ^ 64) config.pageSize
    if stop > start then some (start, stop - start) else none
  else none

def stackRelease (stack : StackBlock) (sp : Nat) : Option (Nat × Nat) :=
  config.discard (config.floor stack) sp

/-- `hev_task_release_stack` for the current task, where `sp` is the address of its frame. -/
def releaseStack (stack : StackBlock) (sp : Nat) : Option (Nat × Nat) :=
  if sp ≤ config.getBase stack ∨ sp > config.getBottom stack then none
  else config.stackRelease stack sp

def tagBytes : Nat :=
  match config.backend with
  | .heap detectionSize => detectionSize / 4 * 4
  | .mmap _ => 0

def tagByte (i : Nat) : Nat :=
  match i % 4 with
  | 0 => 0xef
  | 1 => 0xbe
  | 2 => 0xad
  | _ => 0xde

def detectionMark (mem : Nat → Nat) (stack : StackBlock) : Nat → Nat := fun a =>
  if config.getBase stack ≤ a ∧ a < config.getBase stack + config.tagBytes then
    tagByte (a - config.getBase stack)
  else mem a

def detectionCheck (mem : Nat → Nat) (stack : StackBlock) : Bool :=
  (List.range config.tagBytes).all fun i => mem (config.getBase stack + i) == tagByte i

def Inside (stack : StackBlock) (a : Nat) : Prop := stack.memory ≤ a ∧ a < stack.memory + config.extent stack

/-- The memory lies neither at the very start nor at the very end of the address space. -/
def Placed (stack : StackBlock) : Prop :=
  releaseMargin ≤ stack.memory ∧ stack.memory + config.extent stack + config.pageSize ≤ 2 ^ 64

variable {config : StackConfig} {stack : StackBlock} {sp start a : Nat} {len : Nat}

theorem memory_le_base : stack.memory ≤ config.getBase stack := by
  unfold getBase
  split <;> omega

theorem base_add_tagBytes_le : config.getBase stack + config.tagBytes ≤ config.floor stack := by
  unfold tagBytes floor
  split <;> omega

theorem bottom_le : config.getBottom stack ≤ stack.memory + config.extent stack := by
  unfold getBottom extent
  split
  · have down := alignDown_le 64 (stack.memory + stack.size) 16
    omega
  · exact Nat.le_refl _

theorem inside_of_live (low : config.getBase stack ≤ a) (high : a < config.getBottom stack) : config.Inside stack a :=
  ⟨Nat.le_trans memory_le_base low, Nat.lt_of_lt_of_le high bottom_le⟩

theorem detectionCheck_iff {mem : Nat → Nat} : config.detectionCheck mem stack = true ↔
    ∀ i < config.tagBytes, mem (config.getBase stack + i) = tagByte i := by
  simp [detectionCheck]

theorem detectionCheck_mark (mem : Nat → Nat) :
    config.detectionCheck (config.detectionMark mem stack) stack = true := by
  rw [detectionCheck_iff]
  intro i less
  simp [detectionMark, less]

theorem Placed.pageShift_le (placed : config.Placed stack) : config.pageShift ≤ 64 := by
  have room : config.pageSize ≤ 2 ^ 64 := by
    have high := placed.2
    omega
  exact (Nat.pow_le_pow_iff_right (by decide)).mp room

/-- What is given back: whole pages between the end of the tags or of the protected page and the
margin below the stack pointer. -/
theorem releaseStack_range (placed : config.Placed stack) (room : config.floor stack ≤ config.getBottom stack)
    (range : config.releaseStack stack sp = some (start, len)) :
    config.floor stack ≤ start ∧ start + len + releaseMargin ≤ sp ∧ sp ≤ config.getBottom stack ∧
      config.pageSize ∣ start ∧ config.pageSize ∣ len := by
  have fits := placed.pageShift_le
  obtain ⟨low, high⟩ := placed
  have base := @memory_le_base config stack
  have bottom := @bottom_le config stack
  unfold releaseStack stackRelease discard at range
  split_ifs at range with outside advise
  have margin : (sp + 2 ^ 64 - releaseMargin) % 2 ^ 64 = sp - releaseMargin := by
    unfold releaseMargin at low ⊢
    omega
  have stop : alignDown 64 (sp - releaseMargin) config.pageSize =
      (sp - releaseMargin) / config.pageSize * config.pageSize := alignDown_eq (by omega) fits
  have up : config.floor stack ≤ alignUp 64 (config.floor stack) config.pageSize :=
    le_alignUp fits (by change config.floor stack + config.pageSize ≤ 2 ^ 64; omega)
  have begins : config.pageSize ∣ alignUp 64 (config.floor stack) config.pageSize := by
    rw [alignUp, show config.pageSize = 2 ^ config.pageShift from rfl,
      alignDown_eq (Nat.mod_lt _ (by decide)) fits]
    exact Nat.dvd_mul_left ..
  have down := alignDown_le 64 (sp - releaseMargin) config.pageSize
  simp only [margin] at range
  split_ifs at range with more
  cases range
  refine ⟨up, by omega, by omega, begins, Nat.dvd_sub ?_ begins⟩
  rw [stop]
  exact Nat.dvd_mul_left ..

end StackConfig

/-! ## Tasks on their stacks -/

/-- A task with its stack. `away` counts the calls on other stacks that it is in; `contents` are
the bytes stored on the stack and still in use. -/
structure StackUser where
  stack : StackBlock
  sp : Nat
  away : Nat
  contents : Nat → Option Nat

/-- The memory, the tasks, and what was stored outside of their stacks. -/
structure StackWorld where
  mem : Nat → Nat
  others : Nat → Nat
  currentTask : Option Nat
  users : Nat → Option StackUser

inductive StackOp where
  | new (task size memory : Nat)
  | switch (task : Nat)
  | push (bytes : Nat)
  | pop (bytes : Nat)
  | store (a value : Nat)
  | callJump
  | callReturn
  /-- `fill` is what the memory shows where pages were given back. -/
  | release (task frame : Nat) (fill : Nat → Nat)
  | other (a value : Nat)
  | destroy (task : Nat)

namespace StackWorld

def current (self : StackWorld) : Option StackUser := self.currentTask.bind self.users

def setUser (self : StackWorld) (task : Nat) (user : StackUser) : StackWorld :=
  { self with users := Function.update self.users task (some user) }

def onStack (self : StackWorld) (act : StackUser → StackUser × (Nat → Nat)) : Option StackWorld := do
  let task ← self.currentTask
  let user ← self.users task
  return { self.setUser task (act user).1 with mem := (act user).2 }

def release (config : StackConfig) (self : StackWorld) (task frame : Nat) (fill : Nat → Nat) : StackWorld :=
  if self.currentTask ≠ some task then self
  else match self.users task with
    | none => self
    | some user => match config.releaseStack user.stack frame with
      | none => self
      | some (start, len) => { self with mem := fun a => if start ≤ a ∧ a < start + len then fill a else self.mem a }

end StackWorld

namespace StackOp

def exec (config : StackConfig) (self : StackWorld) : StackOp → Option StackWorld
  | .new task size memory =>
    let stack := config.stackNew size memory
    let user : StackUser := ⟨stack, config.getBottom stack, 0, fun _ => none⟩
    some { self.setUser task user with mem := config.detectionMark self.mem stack }
  | .switch task => some { self with currentTask := some task }
  | .push bytes => self.onStack fun user => ({ user with sp := user.sp - bytes }, self.mem)
  | .pop bytes => self.onStack fun user => ({ user with
      sp := user.sp + bytes
      contents := fun a => if a < user.sp + bytes then none else user.contents a }, self.mem)
  | .store a value => self.onStack fun user =>
      ({ user with contents := Function.update user.contents a (some value) }, Function.update self.mem a value)
  | .callJump => self.onStack fun user => ({ user with away := user.away + 1 }, self.mem)
  | .callReturn => self.onStack fun user => ({ user with away := user.away - 1 }, self.mem)
  | .release task frame fill => some (self.release config task frame fill)
  | .other a value => some { self with
      mem := Function.update self.mem a value
      others := Function.update self.others a value }
  -- The memory of a stack is again memory like any other.
  | .destroy task => do
    let user ← self.users task
    if config.detectionCheck self.mem user.stack then
      return { self with users := Function.update self.users task none, others := fun a =>
        if user.stack.memory ≤ a ∧ a < user.stack.memory + config.extent user.stack then self.mem a else self.others a }
    else none

def Elsewhere (config : StackConfig) (self : StackWorld) (a : Nat) : Prop :=
  ∀ task user, self.users task = some user → ¬ config.Inside user.stack a

/-- Memory of a new stack is not in use and the stack is not empty; a task stays on its stack and
does not run over the end of the tags or of the protected page. A frame of the release function
is below the caller's, and inside a call it is on another stack. -/
def Ready (config : StackConfig) (self : StackWorld) : StackOp → Prop
  | .new task size memory => self.users task = none ∧ config.Placed (config.stackNew size memory) ∧
      config.floor (config.stackNew size memory) ≤ config.getBottom (config.stackNew size memory) ∧
      ∀ a, config.Inside (config.stackNew size memory) a → Elsewhere config self a
  | .switch _ | .callJump | .callReturn => True
  | .push bytes => ∀ user, self.current = some user → user.away = 0 ∧ config.floor user.stack + bytes ≤ user.sp
  | .pop bytes => ∀ user, self.current = some user → user.away = 0 ∧ user.sp + bytes ≤ config.getBottom user.stack
  | .store a _ => ∀ user, self.current = some user → user.sp ≤ a ∧ a < config.getBottom user.stack
  | .release _ frame _ => ∀ user, self.current = some user → if user.away = 0 then frame ≤ user.sp
      else frame ≤ config.getBase user.stack ∨ config.getBottom user.stack < frame
  | .other a _ => Elsewhere config self a
  | .destroy task => self.currentTask ≠ some task

end StackOp

def stackSystem (config : StackConfig) : System StackWorld StackOp where
  init s := s.currentTask = none ∧ (∀ task, s.users task = none) ∧ s.others = s.mem
  step s op next := op.Ready config s ∧ op.exec config s = some next

/-! ## Nothing in use is lost -/

section Sound

variable {config : StackConfig}

structure StackUser.Sound (config : StackConfig) (mem : Nat → Nat) (user : StackUser) : Prop where
  placed : config.Placed user.stack
  low : config.floor user.stack ≤ user.sp
  high : user.sp ≤ config.getBottom user.stack
  live : ∀ a value, user.contents a = some value → user.sp ≤ a ∧ a < config.getBottom user.stack ∧ mem a = value
  tags : config.detectionCheck mem user.stack = true

structure StackWorld.Sound (config : StackConfig) (s : StackWorld) : Prop where
  users : ∀ task user, s.users task = some user → user.Sound config s.mem
  apart : ∀ task other user user', s.users task = some user → s.users other = some user' → task ≠ other →
    ∀ a, config.Inside user.stack a → ¬ config.Inside user'.stack a
  others : ∀ a, StackOp.Elsewhere config s a → s.mem a = s.others a

variable {mem mem' : Nat → Nat} {user user' : StackUser} {s : StackWorld} {task : Nat}

def StackUser.Uses (config : StackConfig) (user : StackUser) (a : Nat) : Prop :=
  config.getBase user.stack ≤ a ∧ a < config.getBase user.stack + config.tagBytes ∨ user.contents a ≠ none

theorem StackUser.Sound.uses {a : Nat} (sound : user.Sound config mem) (uses : user.Uses config a) :
    config.Inside user.stack a ∧ (a < config.floor user.stack ∨ user.sp ≤ a) := by
  have floor := @StackConfig.base_add_tagBytes_le config user.stack
  have low := sound.low
  have high := sound.high
  rcases uses with ⟨first, last⟩ | stored
  · exact ⟨StackConfig.inside_of_live first (by omega), .inl (by omega)⟩
  · obtain ⟨value, has⟩ := Option.ne_none_iff_exists'.mp stored
    obtain ⟨above, below, -⟩ := sound.live a value has
    exact ⟨StackConfig.inside_of_live (by omega) below, .inr above⟩

theorem StackUser.Sound.frame (sound : user.Sound config mem) (same : ∀ a, user.Uses config a → mem' a = mem a) :
    user.Sound config mem' := by
  refine ⟨sound.placed, sound.low, sound.high, fun a value has => ?_, ?_⟩
  · obtain ⟨above, below, here⟩ := sound.live a value has
    exact ⟨above, below, (same a (.inr (by simp [has]))).trans here⟩
  · rw [StackConfig.detectionCheck_iff]
    intro i less
    rw [same _ (.inl (by omega))]
    exact StackConfig.detectionCheck_iff.mp sound.tags i less

/-- A step that changes one task and memory of its stack only, where the stack has no memory of
another and all that the task had. -/
theorem StackWorld.Sound.setUser (sound : s.Sound config)
    (apart : ∀ other user, other ≠ task → s.users other = some user → ∀ a, config.Inside user'.stack a →
      ¬ config.Inside user.stack a)
    (covers : ∀ user, s.users task = some user → user.stack = user'.stack)
    (outside : ∀ a, ¬ config.Inside user'.stack a → mem' a = s.mem a) (after : user'.Sound config mem') :
    StackWorld.Sound config { s.setUser task user' with mem := mem' } := by
  have old {other : Nat} (which : other ≠ task) : (s.setUser task user').users other = s.users other :=
    Function.update_of_ne which ..
  have new {user : StackUser} (here : (s.setUser task user').users task = some user) : user' = user := by
    simpa [StackWorld.setUser] using here
  refine ⟨fun other user here => ?_, fun first second user₁ user₂ here there different a inside inside' => ?_,
    fun a elsewhere => ?_⟩
  · by_cases which : other = task
    · obtain rfl := new (which ▸ here)
      exact after
    · have was := (old which).symm.trans here
      refine (sound.users other user was).frame fun a uses => outside a fun inside => ?_
      exact apart other user which was a inside ((sound.users other user was).uses uses).1
  · by_cases first_new : first = task
    · obtain rfl := new (first_new ▸ here)
      have which : second ≠ task := fun same => different (first_new.trans same.symm)
      exact apart second user₂ which ((old which).symm.trans there) a inside inside'
    · have was := (old first_new).symm.trans here
      by_cases second_new : second = task
      · obtain rfl := new (second_new ▸ there)
        exact apart first user₁ first_new was a inside' inside
      · exact sound.apart first second user₁ user₂ was ((old second_new).symm.trans there) different a inside inside'
  · have free : ¬ config.Inside user'.stack a := elsewhere task user' (Function.update_self ..)
    refine (outside a free).trans (sound.others a fun other user was => ?_)
    by_cases which : other = task
    · rw [covers user (which ▸ was)]
      exact free
    · exact elsewhere other user ((old which).trans was)

theorem StackWorld.Sound.keepStack (sound : s.Sound config) (has : s.users task = some user)
    (stack : user'.stack = user.stack) (outside : ∀ a, ¬ config.Inside user.stack a → mem' a = s.mem a)
    (after : user'.Sound config mem') : StackWorld.Sound config { s.setUser task user' with mem := mem' } := by
  refine sound.setUser (fun other user₂ which was a inside => ?_) (fun user₂ was => ?_) (stack ▸ outside) after
  · exact sound.apart task other user user₂ has was which.symm a (stack ▸ inside)
  · rw [stack, Option.some.inj (was.symm.trans has)]

theorem StackWorld.Sound.onStack {act : StackUser → StackUser × (Nat → Nat)} {next : StackWorld}
    (sound : s.Sound config) (result : s.onStack act = some next)
    (keep : ∀ user, s.current = some user → user.Sound config s.mem → (act user).1.stack = user.stack ∧
      (∀ a, ¬ config.Inside user.stack a → (act user).2 a = s.mem a) ∧ (act user).1.Sound config (act user).2) :
    next.Sound config := by
  simp only [StackWorld.onStack, Option.bind_eq_bind, Option.bind_eq_some_iff, Option.pure_def,
    Option.some.injEq] at result
  obtain ⟨task, current, user, has, rfl⟩ := result
  obtain ⟨stack, outside, after⟩ := keep user (by simp [StackWorld.current, current, has]) (sound.users task user has)
  exact sound.keepStack has stack outside after

theorem StackWorld.Sound.setMem (sound : s.Sound config) (has : s.users task = some user)
    (outside : ∀ a, ¬ config.Inside user.stack a → mem' a = s.mem a) (after : user.Sound config mem') :
    StackWorld.Sound config { s with mem := mem' } := by
  have same : s.setUser task user = s := by
    unfold StackWorld.setUser
    rw [← has, Function.update_eq_self]
  have step := sound.keepStack has rfl outside after
  rwa [same] at step

theorem StackWorld.Sound.new {size memory : Nat} (sound : s.Sound config)
    (ready : (StackOp.new task size memory).Ready config s) {next : StackWorld}
    (result : (StackOp.new task size memory).exec config s = some next) : next.Sound config := by
  obtain ⟨absent, placed, room, unused⟩ := ready
  simp only [StackOp.exec, Option.some.injEq] at result
  subst result
  set stack := config.stackNew size memory
  -- The tags are the only memory that changes, and they are in the new block.
  have mark : ∀ a, ¬ config.Inside stack a → config.detectionMark s.mem stack a = s.mem a := by
    intro a outside
    refine if_neg fun ⟨low, high⟩ => outside (StackConfig.inside_of_live low ?_)
    have floor := @StackConfig.base_add_tagBytes_le config stack
    omega
  refine sound.setUser (fun other user _ was a inside => unused a inside other user was) (fun user was => ?_) mark ?_
  · cases absent.symm.trans was
  · exact ⟨placed, room, Nat.le_refl _, fun _ _ has => absurd has (by simp), StackConfig.detectionCheck_mark _⟩

theorem StackWorld.Sound.release {frame : Nat} {fill : Nat → Nat} (sound : s.Sound config)
    (ready : (StackOp.release task frame fill).Ready config s) : (s.release config task frame fill).Sound config := by
  unfold StackWorld.release
  split_ifs with other
  · exact sound
  · split
    · exact sound
    · next user has =>
      split
      · exact sound
      · next start len range =>
        have current : s.current = some user := by simp_all [StackWorld.current]
        have frame_le := ready user current
        have here := sound.users task user has
        obtain ⟨above, below, bottom, -⟩ :=
          StackConfig.releaseStack_range here.placed (Nat.le_trans here.low here.high) range
        -- Inside a call the frame is on another stack, and the function has returned.
        have home : frame ≤ user.sp := by
          split_ifs at frame_le with home
          · exact frame_le
          · have returned : config.releaseStack user.stack frame = none := if_pos frame_le
            cases returned.symm.trans range
        have floor := @StackConfig.base_add_tagBytes_le config user.stack
        refine sound.setMem has (fun a outside => if_neg fun within => outside ?_)
          (here.frame fun a uses => if_neg fun within => ?_)
        · exact StackConfig.inside_of_live (by omega) (by omega)
        · have unused := (here.uses uses).2
          omega

theorem StackWorld.Sound.other {a value : Nat} (sound : s.Sound config) (elsewhere : StackOp.Elsewhere config s a) :
    StackWorld.Sound config { s with
      mem := Function.update s.mem a value
      others := Function.update s.others a value } := by
  refine ⟨fun task user has => ?_, sound.apart, fun b outside => ?_⟩
  · refine (sound.users task user has).frame fun b uses => Function.update_of_ne ?_ ..
    rintro rfl
    exact elsewhere task user has ((sound.users task user has).uses uses).1
  · by_cases which : b = a
    · subst which
      simp
    · simpa [which] using sound.others b outside

theorem StackWorld.Sound.destroy (sound : s.Sound config) {next : StackWorld}
    (result : (StackOp.destroy task).exec config s = some next) : next.Sound config := by
  simp only [StackOp.exec, Option.bind_eq_bind, Option.bind_eq_some_iff] at result
  obtain ⟨user, has, result⟩ := result
  split_ifs at result
  cases result
  have old : ∀ other before, Function.update s.users task none other = some before →
      other ≠ task ∧ s.users other = some before := by
    intro other before here
    by_cases which : other = task
    · simp [which] at here
    · exact ⟨which, by simpa [which] using here⟩
  refine ⟨fun other before here => sound.users other before (old other before here).2,
    fun first second user₁ user₂ here there => sound.apart first second user₁ user₂ (old _ _ here).2 (old _ _ there).2,
    fun a elsewhere => ?_⟩
  by_cases inside : config.Inside user.stack a
  · exact (if_pos inside).symm
  · refine (sound.others a fun other before was => ?_).trans (if_neg inside).symm
    by_cases which : other = task
    · subst which
      obtain rfl : user = before := Option.some.inj (has.symm.trans was)
      exact inside
    · exact elsewhere other before (by simpa [which] using was)

theorem stackSystem_keep {op : StackOp} {next : StackWorld} (sound : s.Sound config)
    (step : (stackSystem config).step s op next) : next.Sound config := by
  obtain ⟨ready, result⟩ := step
  cases op with
  | new task size memory => exact sound.new ready result
  | switch task =>
    cases result
    exact ⟨sound.users, sound.apart, sound.others⟩
  | push bytes =>
    refine sound.onStack result fun user current here => ⟨rfl, fun _ _ => rfl, ?_⟩
    have room := (ready user current).2
    refine ⟨here.placed, Nat.le_sub_of_add_le room, Nat.le_trans (Nat.sub_le ..) here.high, fun a value has => ?_,
      here.tags⟩
    obtain ⟨low, rest⟩ := here.live a value has
    exact ⟨Nat.le_trans (Nat.sub_le ..) low, rest⟩
  | pop bytes =>
    refine sound.onStack result fun user current here => ⟨rfl, fun _ _ => rfl, ?_⟩
    refine ⟨here.placed, Nat.le_trans here.low (Nat.le_add_right ..), (ready user current).2,
      fun a value has => ?_, here.tags⟩
    have has : (if a < user.sp + bytes then none else user.contents a) = some value := has
    split_ifs at has with popped
    exact ⟨Nat.not_lt.mp popped, (here.live a value has).2⟩
  | store a value =>
    refine sound.onStack result fun user current here => ?_
    obtain ⟨low, high⟩ := ready user current
    have floor := @StackConfig.base_add_tagBytes_le config user.stack
    have above := here.low
    refine ⟨rfl, fun b outside => Function.update_of_ne ?_ .., here.placed, here.low, here.high, fun b old has => ?_, ?_⟩
    · rintro rfl
      exact outside (StackConfig.inside_of_live (by omega) high)
    · by_cases which : b = a
      · subst which
        exact ⟨low, high, by simpa using has⟩
      · simpa [which] using here.live b old (by simpa [which] using has)
    · rw [StackConfig.detectionCheck_iff]
      intro i less
      have other : config.getBase user.stack + i ≠ a := by omega
      exact (Function.update_of_ne other ..).trans (StackConfig.detectionCheck_iff.mp here.tags i less)
  | callJump | callReturn => exact sound.onStack result fun user _ here =>
      ⟨rfl, fun _ _ => rfl, here.placed, here.low, here.high, here.live, here.tags⟩
  | release task frame fill =>
    cases result
    exact sound.release ready
  | other a value =>
    cases result
    exact sound.other ready
  | destroy task => exact sound.destroy result

/-- However tasks run, call, release and end: every byte in use has the value last stored there,
on every stack and outside of all stacks; the tags of every stack pass their check; and what a
release gives back are whole pages between the tags or the protected page and the margin. -/
theorem stack_release_safe {ops : List StackOp} (run : (stackSystem config).Run ops s) :
    (∀ task user, s.users task = some user →
      (∀ a value, user.contents a = some value → s.mem a = value) ∧ config.detectionCheck s.mem user.stack = true ∧
        ∀ frame start len, config.releaseStack user.stack frame = some (start, len) →
          config.floor user.stack ≤ start ∧ start + len + StackConfig.releaseMargin ≤ frame ∧
            config.pageSize ∣ start ∧ config.pageSize ∣ len) ∧
      ∀ a, StackOp.Elsewhere config s a → s.mem a = s.others a := by
  have sound : s.Sound config := by
    refine run.invariant (StackWorld.Sound config) ?_ fun _ _ _ => stackSystem_keep
    rintro s ⟨-, empty, same⟩
    have absurd {task : Nat} {user : StackUser} {p : Prop} (has : s.users task = some user) : p := by
      cases (empty task).symm.trans has
    exact ⟨fun _ _ => absurd, fun _ _ _ _ => absurd, fun a _ => (congrFun same a).symm⟩
  refine ⟨fun task user has => ?_, sound.others⟩
  have here := sound.users task user has
  refine ⟨fun a value stored => (here.live a value stored).2.2, here.tags, fun frame start len range => ?_⟩
  obtain ⟨low, high, -, whole⟩ :=
    StackConfig.releaseStack_range here.placed (Nat.le_trans here.low here.high) range
  exact ⟨low, high, whole⟩

end Sound

/-- A heap stack of twenty thousand bytes with one tag; three of its pages are given back and
show zeros. -/
theorem stack_release_safe_heap : ∃ s, (stackSystem ⟨.heap 4, 12, true⟩).Run [.new 1 20000 65536, .switch 1,
    .push 100, .store 85500 7, .release 1 85420 fun _ => 0] s ∧ s.mem 70000 = 0 ∧ s.mem 85500 = 7 := by
  have start : (stackSystem ⟨.heap 4, 12, true⟩).Run [] ⟨fun _ => 9, fun _ => 9, none, fun _ => none⟩ :=
    .init ⟨rfl, fun _ => rfl, rfl⟩
  have made : (stackSystem ⟨.heap 4, 12, true⟩).Run [.new 1 20000 65536] _ :=
    start.step ⟨⟨rfl, ⟨by decide, by decide⟩, by decide, fun _ _ _ _ has => by cases has⟩, rfl⟩
  have runs : (stackSystem ⟨.heap 4, 12, true⟩).Run [_, .switch 1] _ := made.step ⟨trivial, rfl⟩
  have pushed : (stackSystem ⟨.heap 4, 12, true⟩).Run [_, _, .push 100] _ :=
    runs.step ⟨fun _ has => by cases has; decide, rfl⟩
  have stored : (stackSystem ⟨.heap 4, 12, true⟩).Run [_, _, _, .store 85500 7] _ :=
    pushed.step ⟨fun _ has => by cases has; decide, rfl⟩
  have released : (stackSystem ⟨.heap 4, 12, true⟩).Run [_, _, _, _, .release 1 85420 fun _ => 0] _ :=
    stored.step ⟨fun _ has => by cases has; decide, rfl⟩
  exact ⟨_, released, by decide, ((stack_release_safe released).1 1 _ rfl).1 85500 7 rfl⟩

end HevTaskSystem
