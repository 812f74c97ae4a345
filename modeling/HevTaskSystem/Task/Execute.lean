import Mathlib.Tactic.Common
import Mathlib.Tactic.MkIffOfInductiveProp
import HevTaskSystem.Foundation.Symbolic

/-! `hev_task_execute`, the switch to another stack, on every architecture.

The routine takes the stack of an object, saves the stack pointer and the return address there,
calls an entry on that stack, and goes back. Each backend is its assembly code over registers
named by their part in the calling convention; pushes, pairs and the call itself are written as
the loads, stores and additions they make. The entry is any function that keeps to the calling
convention. One check of the symbolic run of a backend shows that it switches and returns, and
every backend passes it but that of ppc64, which does not give the entry its own address.
-/

set_option autoImplicit false

namespace HevTaskSystem

open Foundation.Symbolic

/-- A backend: the code before and after the call, the register called, and the instructions in
the delay slot of the call. `frame` is how far below the top of the new stack the entry starts;
`owned` are the bytes above its stack pointer that the convention lets the entry overwrite, and
`own` is the register in which the convention has it find its own address. -/
structure ExecuteBackend where
  word : Nat
  stackedArgs : Bool
  stackedReturn : Bool
  before : List Instr
  target : Reg
  slot : List Instr
  after : List Instr
  frame : Nat
  owned : Nat × Nat
  own : Option Reg := none

namespace ExecuteBackend

variable (b : ExecuteBackend)

def bits : Nat := 8 * b.word

def call : List Instr :=
  if b.stackedReturn then [.addi .sp .sp (-b.word), .store .next .sp 0] else [.addi .link .next 0]

def ret : List Instr := if b.stackedReturn then [.load .link .sp 0, .addi .sp .sp b.word] else []

def prologue : List Instr := b.before ++ b.call ++ b.slot

def epilogue : List Instr := b.after ++ b.ret

def pushed : Nat := if b.stackedReturn then b.word else 0

def self : Value := if b.stackedArgs then Value.cell ⟨.reg .sp, b.word⟩ else ⟨.reg (.arg 0), 0⟩

def entry : Value := if b.stackedArgs then Value.cell ⟨.reg .sp, 2 * b.word⟩ else ⟨.reg (.arg 1), 0⟩

def top : Value := b.self.cell

def returnAddress : Value := if b.stackedReturn then Value.cell ⟨.reg .sp, 0⟩ else ⟨.reg .link, 0⟩

/-! ## What is required and what is provided -/

variable {b : ExecuteBackend}

/-- The two stacks lie apart around their ends, and the object is not on them. -/
structure Separate (b : ExecuteBackend) (s : Cpu b.bits) : Prop where
  ranges : ∀ i j : Int, -16 ≤ i → i < 16 → -512 ≤ j → j < 0 →
    s.regs .sp + BitVec.ofInt _ i ≠ b.top.eval s + BitVec.ofInt _ j
  object : ∀ j : Int, -512 ≤ j → j < 0 → b.self.eval s ≠ b.top.eval s + BitVec.ofInt _ j
  below : ∀ i : Int, -16 ≤ i → i < 0 → b.self.eval s ≠ s.regs .sp + BitVec.ofInt _ i

/-- What the entry finds when the routine that started in `s` calls it in `c`. -/
structure Enters (b : ExecuteBackend) (s c : Cpu b.bits) : Prop where
  entry : c.regs b.target = b.entry.eval s
  own : ∀ r ∈ b.own, c.regs r = b.entry.eval s
  back : (if b.stackedReturn then c.mem (c.regs .sp) else c.regs .link) = s.regs .next
  argument : (if b.stackedArgs then c.mem (c.regs .sp + BitVec.ofInt _ b.word) else c.regs (.arg 0)) = b.self.eval s
  stack : c.regs .sp = b.top.eval s + BitVec.ofInt _ (-(b.frame + b.pushed))
  memory : ∀ x, (∀ j : Int, -(b.frame + b.pushed) ≤ j → j < 0 → x ≠ b.top.eval s + BitVec.ofInt _ j) →
    (∀ i : Int, -16 ≤ i → i < 0 → x ≠ s.regs .sp + BitVec.ofInt _ i) → c.mem x = s.mem x

/-- The entry, called in `c`, has returned in `c'` and kept to the calling convention: it leaves
the frame of its caller alone but for the bytes it owns, and the stack the routine came from. -/
structure Obeys (b : ExecuteBackend) (s c c' : Cpu b.bits) : Prop where
  sp : c'.regs .sp = c.regs .sp + BitVec.ofInt _ b.pushed
  saved : ∀ i, c'.regs (.saved i) = c.regs (.saved i)
  frame : ∀ off : Int, 0 ≤ off → off < b.frame → ¬ (b.owned.1 ≤ off ∧ off < b.owned.2) →
    c'.mem (c'.regs .sp + BitVec.ofInt _ off) = c.mem (c'.regs .sp + BitVec.ofInt _ off)
  caller : ∀ off : Int, -16 ≤ off → off < 16 →
    c'.mem (s.regs .sp + BitVec.ofInt _ off) = c.mem (s.regs .sp + BitVec.ofInt _ off)

/-- The routine that started in `s` returns in `f`, from the state `c'` in which the entry
returned. -/
structure Returns (b : ExecuteBackend) (s c' f : Cpu b.bits) : Prop where
  sp : f.regs .sp = s.regs .sp + BitVec.ofInt _ b.pushed
  target : f.regs .link = b.returnAddress.eval s
  saved : ∀ i, f.regs (.saved i) = s.regs (.saved i)
  mem : f.mem = c'.mem

/-! ## The check -/

variable (b : ExecuteBackend)

def pre : State := State.start.exec b.prologue

def post : State := State.start.exec b.epilogue

/-- Addresses that the routine may use: near the top of the new stack, near the end of the old
one, and the object. -/
def OnNew (a : Value) : Prop := a.base = b.top.base ∧ -512 ≤ a.off ∧ a.off < 0

def OnOld (a : Value) (limit : Int) : Prop := a.base = .reg .sp ∧ -16 ≤ a.off ∧ a.off < limit

def Kept (a : Value) : Prop :=
  b.OnNew a ∧ -(b.frame : Int) ≤ a.off ∧ ¬ (b.owned.1 ≤ a.off + b.frame ∧ a.off + b.frame < b.owned.2) ∨
    OnOld a 16

instance (a : Value) : Decidable (b.OnNew a) := inferInstanceAs (Decidable (_ ∧ _ ∧ _))

instance (a : Value) (limit : Int) : Decidable (OnOld a limit) := inferInstanceAs (Decidable (_ ∧ _ ∧ _))

instance (a : Value) : Decidable (b.Kept a) := inferInstanceAs (Decidable (_ ∧ _ ∧ _ ∨ _))

def resolve : Base → Option Value
  | .reg .sp => some ((b.pre.regs .sp).add b.pushed)
  | .reg (.saved i) => some (b.pre.regs (.saved i))
  | .reg _ => none
  | .cell base off => do
    let a := (← resolve base).add off
    if b.Kept a then some (lookup a b.pre.writes) else none

def resolveValue (v : Value) : Option Value := (b.resolve v.base).map (·.add v.off)

@[mk_iff] structure Checked : Prop where
  word : b.word = 4 ∨ b.word = 8
  frame : b.frame + b.pushed ≤ 512
  top : b.top.off = 0
  entry : b.pre.regs b.target = b.entry
  own : ∀ r ∈ b.own, b.pre.regs r = b.entry
  back : (if b.stackedReturn then lookup (b.pre.regs .sp) b.pre.writes else b.pre.regs .link) = ⟨.reg .next, 0⟩
  pushes : b.stackedReturn = true → b.OnNew (b.pre.regs .sp)
  argument : (if b.stackedArgs then lookup ((b.pre.regs .sp).add b.word) b.pre.writes else b.pre.regs (.arg 0)) = b.self
  shadow : b.stackedArgs = true → b.OnNew ((b.pre.regs .sp).add b.word)
  stack : b.pre.regs .sp = b.top.add (-(b.frame + b.pushed))
  writes : ∀ write ∈ b.pre.writes, (b.OnNew write.1 ∧ -(b.frame + b.pushed : Int) ≤ write.1.off) ∨ OnOld write.1 0
  used : ∀ a ∈ b.pre.used, b.OnNew a ∨ OnOld a 16 ∨ a = b.self
  silent : b.post.writes = []
  sp : b.resolveValue (b.post.regs .sp) = some ⟨.reg .sp, b.pushed⟩
  target : b.resolveValue (b.post.regs .link) = some b.returnAddress
  saved : ∀ i, b.resolveValue (b.post.regs (.saved i)) = some ⟨.reg (.saved i), 0⟩
  aligned : ∀ a ∈ b.pre.used ++ b.post.used, (b.word : Int) ∣ a.off

instance : Decidable b.Checked := decidable_of_iff' _ b.checked_iff

/-! ## Soundness of the check -/

section Sound

variable {b} {s c c' : Cpu b.bits} {a : Value}

theorem OnNew.eval (checked : b.Checked) (new : b.OnNew a) :
    a.eval s = b.top.eval s + BitVec.ofInt _ a.off := by
  simp [Value.eval, new.1, checked.top]

theorem OnOld.eval {limit : Int} (old : OnOld a limit) : a.eval s = s.regs .sp + BitVec.ofInt _ a.off := by
  simp [Value.eval, old.1, Base.eval]

theorem Checked.large (checked : b.Checked) : 1024 ≤ 2 ^ b.bits := by
  rcases checked.word with four | eight
  · simp [bits, four]
  · simp [bits, eight]

theorem Checked.apart (checked : b.Checked) (separate : b.Separate s) (use : b.OnNew a ∨ OnOld a 16 ∨ a = b.self) :
    Apart s b.pre.writes [a] := by
  intro write member a' among other
  obtain rfl := List.mem_singleton.mp among
  rcases checked.writes write member with ⟨new, -⟩ | old
  · have ⟨base, low, high⟩ := new
    rcases use with ⟨base', low', high'⟩ | here | rfl
    · exact Value.eval_ne 512 checked.large (base.trans base'.symm) other low (by omega) low' (by omega)
    · rw [new.eval checked, here.eval]
      exact (separate.ranges _ _ here.2.1 here.2.2 low high).symm
    · rw [new.eval checked]
      exact (separate.object _ low high).symm
  · have ⟨base, low, high⟩ := old
    rcases use with here | ⟨base', low', high'⟩ | rfl
    · rw [old.eval, here.eval checked]
      exact separate.ranges _ _ low (by omega) here.2.1 here.2.2
    · exact Value.eval_ne 512 checked.large (base.trans base'.symm) other (by omega) (by omega) (by omega) (by omega)
    · rw [old.eval]
      exact (separate.below _ low high).symm

theorem Checked.describes (checked : b.Checked) (separate : b.Separate s) :
    Describes s b.pre (s.exec b.prologue) := by
  refine (describes_start s).exec b.prologue fun write member a among => ?_
  exact checked.apart separate (checked.used a among) write member a List.mem_cons_self

theorem Checked.enters (checked : b.Checked) (separate : b.Separate s) : b.Enters s (s.exec b.prologue) := by
  obtain ⟨regs, mem⟩ := checked.describes separate
  have stack : (s.exec b.prologue).regs .sp = b.top.eval s + BitVec.ofInt _ (-(b.frame + b.pushed)) := by
    rw [regs, checked.stack, Value.eval_add]
  refine ⟨?_, fun r named => ?_, ?_, ?_, stack, fun x new old => ?_⟩
  · rw [regs, checked.entry]
  · rw [regs, checked.own r named]
  · have back := checked.back
    split_ifs at back ⊢ with stacked
    · have here := memory_lookup (checked.apart separate (.inl (checked.pushes stacked)))
      rw [mem, regs, here, back, Value.eval_reg]
    · rw [regs, back, Value.eval_reg]
  · have argument := checked.argument
    split_ifs at argument ⊢ with stacked
    · have here := memory_lookup (checked.apart separate (.inl (checked.shadow stacked)))
      rw [mem, regs, ← Value.eval_add, here, argument]
    · rw [regs, argument]
  · rw [mem]
    refine memory_of_ne fun write member => ?_
    rcases checked.writes write member with ⟨here, low⟩ | here
    · rw [here.eval checked]
      exact new _ low here.2.2
    · rw [here.eval]
      exact old _ here.2.1 here.2.2

theorem Checked.kept (checked : b.Checked) (separate : b.Separate s) (obeys : b.Obeys s (s.exec b.prologue) c')
    (kept : b.Kept a) : c'.mem (a.eval s) = (lookup a b.pre.writes).eval s := by
  obtain ⟨regs, mem⟩ := checked.describes separate
  have same : c'.mem (a.eval s) = (s.exec b.prologue).mem (a.eval s) := by
    rcases kept with ⟨new, low, free⟩ | old
    · have sp : a.eval s = c'.regs .sp + BitVec.ofInt _ (a.off + b.frame) := by
        rw [new.eval checked, obeys.sp, (checked.enters separate).stack, BitVec.add_assoc, BitVec.add_assoc,
          ← BitVec.ofInt_add, ← BitVec.ofInt_add]
        congr 2
        omega
      rw [sp]
      exact obeys.frame _ (by omega) (by have := new.2.2; omega) free
    · rw [old.eval]
      exact obeys.caller _ old.2.1 old.2.2
  rw [same, mem]
  refine memory_lookup (checked.apart separate ?_)
  exact kept.imp (fun new => new.1) .inl

theorem Checked.resolve_eval (checked : b.Checked) (separate : b.Separate s)
    (obeys : b.Obeys s (s.exec b.prologue) c') {base : Base} {v : Value} (found : b.resolve base = some v) :
    base.eval c' = v.eval s := by
  have regs := (checked.describes separate).regs
  induction base generalizing v with
  | reg r =>
    cases r with
    | sp =>
      cases found
      rw [Base.eval, obeys.sp, regs, Value.eval_add]
    | saved i =>
      cases found
      rw [Base.eval, obeys.saved, regs]
    | link => cases found
    | next => cases found
    | arg i => cases found
    | temp i => cases found
  | cell base off ih =>
    simp only [resolve, Option.bind_eq_bind, Option.bind_eq_some_iff] at found
    obtain ⟨below, known, found⟩ := found
    split_ifs at found with kept
    cases found
    rw [Base.eval, ih known, ← Value.eval_add]
    exact checked.kept separate obeys kept

theorem Checked.resolveValue_eval (checked : b.Checked) (separate : b.Separate s)
    (obeys : b.Obeys s (s.exec b.prologue) c') {u v : Value} (found : b.resolveValue u = some v) :
    u.eval c' = v.eval s := by
  simp only [resolveValue, Option.map_eq_some_iff] at found
  obtain ⟨below, known, rfl⟩ := found
  rw [Value.eval_add, ← checked.resolve_eval separate obeys known, Value.eval]

theorem Checked.returns (checked : b.Checked) (separate : b.Separate s)
    (obeys : b.Obeys s (s.exec b.prologue) c') : b.Returns s c' (c'.exec b.epilogue) := by
  have silent := checked.silent
  have describes : Describes c' b.post (c'.exec b.epilogue) := by
    refine (describes_start c').exec b.epilogue fun write member => ?_
    rw [post] at silent
    simp [silent] at member
  obtain ⟨regs, mem⟩ := describes
  refine ⟨?_, ?_, fun i => ?_, ?_⟩
  · rw [regs, checked.resolveValue_eval separate obeys checked.sp]
    rfl
  · rw [regs, checked.resolveValue_eval separate obeys checked.target]
  · rw [regs, checked.resolveValue_eval separate obeys (checked.saved i), Value.eval_reg]
  · rw [mem, silent]
    rfl

end Sound

/-! ## The architectures

The comment before a backend names the registers of the architecture by their part in its
calling convention. A call or a return of an architecture with a delay slot executes the
instruction behind it first. On some machines the entry is called through a register of its own.
-/

/-- Most machines with a link register: the stack pointer and the link are stored below the top
of the new stack, at the given distances, and taken from there by the new stack pointer. `move`
readies the register called. -/
def linked (word sp link frame : Nat) (owned : Nat × Nat) (move : List Instr) (target : Reg) : ExecuteBackend where
  word := word
  stackedArgs := false
  stackedReturn := false
  before := [.load (.temp 0) (.arg 0) 0, .store .sp (.temp 0) (-sp), .store .link (.temp 0) (-link),
    .addi .sp (.temp 0) (-frame)] ++ move
  target := target
  slot := []
  after := [.load .link .sp (frame - link), .load .sp .sp (frame - sp)]
  frame := frame
  owned := owned

-- r0, r1 = arg 0, arg 1; r2 = temp 0; blink = link
def arc32 : ExecuteBackend := linked 4 0x0c 0x10 0x10 (0, 0) [] (.arg 1)

-- x0, x1 = arg 0, arg 1; x3, x4 = temp 0, temp 1; x30 = link
def aarch64 : ExecuteBackend where
  word := 8
  stackedArgs := false
  stackedReturn := false
  before := [.load (.temp 0) (.arg 0) 0, .addi (.temp 1) .sp 0, .store (.temp 1) (.temp 0) (-0x10),
    .store .link (.temp 0) (-0x08), .addi .sp (.temp 0) (-0x10)]
  target := .arg 1
  slot := []
  after := [.load (.temp 1) .sp 0, .load .link .sp 0x08, .addi .sp (.temp 1) 0]
  frame := 0x10
  owned := (0, 0)

-- As before, and x29 = saved 0. The frame is on the old stack.
def aarch64Windows : ExecuteBackend where
  word := 8
  stackedArgs := false
  stackedReturn := false
  before := [.addi .sp .sp (-0x10), .store (.saved 0) .sp 0, .store .link .sp 0x08, .addi (.saved 0) .sp 0,
    .load (.temp 0) (.arg 0) 0, .addi .sp (.temp 0) 0]
  target := .arg 1
  slot := []
  after := [.addi .sp (.saved 0) 0, .load (.saved 0) .sp 0, .load .link .sp 0x08, .addi .sp .sp 0x10]
  frame := 0
  owned := (0, 0)

-- r0, r1 = arg 0, arg 1; r3 = temp 0; lr = link
def arm : ExecuteBackend := linked 4 0x4 0x8 0x8 (0, 0) [] (.arg 1)

-- $a0, $a1 = arg 0, arg 1; $t0 = temp 0; $ra = link
def la32 : ExecuteBackend := linked 4 4 8 8 (0, 0) [] (.arg 1)

def la64 : ExecuteBackend := linked 8 8 16 16 (0, 0) [] (.arg 1)

-- Arguments and return address on the stack; d0, a0, a1 = temp 0, temp 1, temp 2
def m68k : ExecuteBackend where
  word := 4
  stackedArgs := true
  stackedReturn := true
  before := [.addi (.temp 0) .sp 0, .load (.temp 1) .sp 4, .load (.temp 2) .sp 8, .load .sp (.temp 1) 0,
    .addi .sp .sp (-4), .store (.temp 0) .sp 0, .addi .sp .sp (-4), .store (.temp 1) .sp 0]
  target := .temp 2
  slot := []
  after := [.load .sp .sp 4]
  frame := 8
  owned := (0, 4)

-- r5, r6 = arg 0, arg 1; r3 = temp 0; r1 = sp; r15 = link. The call and the return have delay slots.
def microblaze : ExecuteBackend where
  word := 4
  stackedArgs := false
  stackedReturn := false
  before := [.load (.temp 0) (.arg 0) 0, .store .sp (.temp 0) (-4), .store .link (.temp 0) (-8)]
  target := .arg 1
  slot := [.addi .sp (.temp 0) (-32)]
  after := [.load .link .sp 24, .load .sp .sp 28]
  frame := 32
  owned := (0, 24)

-- $a0, $a1 = arg 0, arg 1; $t0, $t9 = temp 0, temp 1; $ra = link
def mips32 : ExecuteBackend :=
  { linked 4 0x4 0x8 0x20 (0, 0x10) [.addi (.temp 1) (.arg 1) 0] (.arg 1) with own := some (.temp 1) }

def mips64 : ExecuteBackend :=
  { linked 8 0x08 0x10 0x10 (0, 0) [.addi (.temp 1) (.arg 1) 0] (.arg 1) with own := some (.temp 1) }

-- r3, r4 = arg 0, arg 1; r11 = temp 0; r1 = sp; r9 = link
def or1k : ExecuteBackend := linked 4 4 8 8 (0, 0) [] (.arg 1)

-- r3, r4 = arg 0, arg 1; r5, r0, ctr = temp 0, temp 1, temp 2; r1 = sp; lr = link
def ppc (word frame : Nat) : ExecuteBackend where
  word := word
  stackedArgs := false
  stackedReturn := false
  before := [.load (.temp 0) (.arg 0) 0, .addi (.temp 1) .link 0, .store .sp (.temp 0) (-word),
    .store (.temp 1) (.temp 0) (-(2 * word)), .addi .sp (.temp 0) (-frame), .addi (.temp 2) (.arg 1) 0]
  target := .temp 2
  slot := []
  after := [.load (.temp 1) .sp (frame - 2 * word), .load .sp .sp (frame - word), .addi .link (.temp 1) 0]
  frame := frame
  owned := (0, frame - 2 * word)

def ppc32 : ExecuteBackend := ppc 4 0x10

-- r12 = temp 3, in which the convention has the entry find its own address
def ppc64 : ExecuteBackend := { ppc 8 0x40 with own := some (.temp 3) }

-- a0, a1 = arg 0, arg 1; t0 = temp 0; ra = link
def riscv32 : ExecuteBackend := linked 4 0x0c 0x10 0x10 (0, 0) [] (.arg 1)

def riscv64 : ExecuteBackend := linked 8 0x08 0x10 0x10 (0, 0) [] (.arg 1)

-- r2, r3 = arg 0, arg 1; r4 = temp 0; r14 = link; r15 = sp. The entry saves registers above its
-- stack pointer.
def s390x : ExecuteBackend where
  word := 8
  stackedArgs := false
  stackedReturn := false
  before := [.load (.temp 0) (.arg 0) 0, .addi (.temp 0) (.temp 0) (-256), .store .link (.temp 0) 0,
    .store .sp (.temp 0) 8, .addi .sp (.temp 0) 0]
  target := .arg 1
  slot := []
  after := [.load .link .sp 0, .load .sp .sp 8]
  frame := 256
  owned := (16, 160)

-- r4, r5 = arg 0, arg 1; r3 = temp 0; r15 = sp; pr = link. The call and the return have delay slots.
def sh : ExecuteBackend where
  word := 4
  stackedArgs := false
  stackedReturn := false
  before := [.load (.temp 0) (.arg 0) 0, .addi (.temp 0) (.temp 0) (-4), .store .sp (.temp 0) 0,
    .addi (.temp 0) (.temp 0) (-4), .store .link (.temp 0) 0]
  target := .arg 1
  slot := [.addi .sp (.temp 0) 0]
  after := [.load .link .sp 0, .addi .sp .sp 4, .load .sp .sp 0]
  frame := 8
  owned := (0, 0)

-- a0, a1 = arg 0, arg 1; t0, pv = temp 0, temp 1; ra = link
def sw64 : ExecuteBackend :=
  { linked 8 0x08 0x10 0x10 (0, 0) [.addi (.temp 1) (.arg 1) 0] (.temp 1) with own := some (.temp 1) }

-- Arguments and return address on the stack; eax, edx, ecx = temp 0, temp 1, temp 2
def x86 : ExecuteBackend where
  word := 4
  stackedArgs := true
  stackedReturn := true
  before := [.addi (.temp 0) .sp 0, .load (.temp 1) .sp 0x4, .load (.temp 2) .sp 0x8, .load .sp (.temp 1) 0,
    .addi .sp .sp (-0x8), .addi .sp .sp (-4), .store (.temp 0) .sp 0, .addi .sp .sp (-4), .store (.temp 1) .sp 0]
  target := .temp 2
  slot := []
  after := [.load .sp .sp 0x4]
  frame := 0x10
  owned := (0, 4)

/-- Both conventions, which differ in the registers of the arguments and in `STACK_PAD`; rax is
temp 0. -/
def x8664With (stackPad : Nat) (owned : Nat × Nat) : ExecuteBackend where
  word := 8
  stackedArgs := false
  stackedReturn := true
  before := [.addi (.temp 0) .sp 0, .load .sp (.arg 0) 0, .addi .sp .sp (-8), .store (.temp 0) .sp 0,
    .addi .sp .sp (-stackPad)]
  target := .arg 1
  slot := []
  after := [.load .sp .sp stackPad]
  frame := 8 + stackPad
  owned := owned

-- rdi, rsi = arg 0, arg 1
def x8664 : ExecuteBackend := x8664With 0x08 (0, 0)

-- rcx, rdx = arg 0, arg 1; the entry owns the shadow space
def x8664Windows : ExecuteBackend := x8664With 0x28 (0, 0x20)

/-- All but `ppc64`. -/
def backends : List ExecuteBackend :=
  [arc32, aarch64, aarch64Windows, arm, la32, la64, m68k, microblaze, mips32, mips64, or1k, ppc32,
    riscv32, riscv64, s390x, sh, sw64, x86, x8664, x8664Windows]

theorem backends_checked : ∀ b ∈ backends, b.Checked := by
  decide +kernel

/-- The routine of ppc64 calls the entry without its address in r12: whatever was there is what
the entry computes its table of contents from. -/
theorem ppc64_own (s : Cpu ppc64.bits) : (s.exec ppc64.prologue).regs (.temp 3) = s.regs (.temp 3) := rfl

/-- On every architecture but ppc64 the routine calls the entry with the object as its argument,
on the stack of the object, with the address behind the call to return to and its own address
where the convention has it, and writes nothing but its frames. When the entry keeps to the calling
convention, the routine returns to its caller with the stack pointer and the saved registers of
the caller and changes no memory on the way. -/
theorem task_execute_switches {b : ExecuteBackend} (listed : b ∈ backends) (s : Cpu b.bits) (separate : b.Separate s) :
    b.Enters s (s.exec b.prologue) ∧
      ∀ c', b.Obeys s (s.exec b.prologue) c' → b.Returns s c' (c'.exec b.epilogue) := by
  have checked := backends_checked b listed
  exact ⟨checked.enters separate, fun c' obeys => checked.returns separate obeys⟩

def riscv64Call : Cpu riscv64.bits where
  regs
    | .sp => BitVec.ofInt _ 4096
    | .link => BitVec.ofInt _ 77
    | .arg 0 => BitVec.ofInt _ 20480
    | _ => BitVec.ofInt _ 99
  mem a := if a = BitVec.ofInt _ 20480 then BitVec.ofInt _ 36864 else 0

/-- An entry that returns at once. -/
theorem task_execute_switches_riscv64 :
    ((riscv64Call.exec riscv64.prologue).exec riscv64.epilogue).regs .link = BitVec.ofInt _ 77 ∧
      ((riscv64Call.exec riscv64.prologue).exec riscv64.epilogue).regs .sp = BitVec.ofInt _ 4096 := by
  have top : riscv64.top.eval riscv64Call = BitVec.ofInt _ 36864 := by decide +kernel
  have self : riscv64.self.eval riscv64Call = BitVec.ofInt _ 20480 := by decide +kernel
  have sp : riscv64Call.regs .sp = BitVec.ofInt _ 4096 := rfl
  have apart {i j : Int} (other : i ≠ j) (lowI : -50000 ≤ i) (highI : i < 50000) (lowJ : -50000 ≤ j)
      (highJ : j < 50000) : BitVec.ofInt riscv64.bits i ≠ BitVec.ofInt riscv64.bits j :=
    @ofInt_ne _ i j 50000 (by decide) other lowI highI lowJ highJ
  have separate : riscv64.Separate riscv64Call := by
    refine ⟨fun i j _ _ _ _ => ?_, fun j _ _ => ?_, fun i _ _ => ?_⟩
    · rw [top, sp, ← BitVec.ofInt_add, ← BitVec.ofInt_add]
      exact apart (by omega) (by omega) (by omega) (by omega) (by omega)
    · rw [top, self, ← BitVec.ofInt_add]
      exact apart (by omega) (by omega) (by omega) (by omega) (by omega)
    · rw [self, sp, ← BitVec.ofInt_add]
      exact apart (by omega) (by omega) (by omega) (by omega) (by omega)
  have obeys : riscv64.Obeys riscv64Call (riscv64Call.exec riscv64.prologue) (riscv64Call.exec riscv64.prologue) :=
    ⟨(BitVec.add_zero _).symm, fun _ => rfl, fun _ _ _ _ => rfl, fun _ _ _ => rfl⟩
  have listed : riscv64 ∈ backends := by simp [backends]
  have returns := (task_execute_switches listed riscv64Call separate).2 _ obeys
  refine ⟨returns.target, ?_⟩
  rw [returns.sp]
  decide +kernel

end ExecuteBackend

end HevTaskSystem
