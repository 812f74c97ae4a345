import Mathlib.Algebra.Group.Nat.Defs
import Mathlib.Logic.Function.Basic

/-! Straight-line machine code and its symbolic execution.

A machine has registers and memory cells that hold words; an instruction loads, stores or adds
a constant. A symbolic run keeps for every register and every cell written a value of the form
"what this register or cell held at the start, plus a constant". It describes every real run
from a state in which the cells written lie apart from the other cells used, so a property of
code that its symbolic run shows by computation holds of all its real runs.
-/

set_option autoImplicit false

namespace HevTaskSystem.Foundation.Symbolic

/-- Registers by their part in a calling convention. `next` stands for the address behind the
call instruction. -/
inductive Reg where
  | sp
  | link
  | next
  | arg (i : Fin 8)
  | temp (i : Fin 8)
  | saved (i : Fin 32)
  deriving DecidableEq, Repr

inductive Instr where
  | load (dst base : Reg) (off : Int)
  | store (src base : Reg) (off : Int)
  | addi (dst src : Reg) (imm : Int)
  deriving DecidableEq, Repr

variable {w : Nat}

structure Cpu (w : Nat) where
  regs : Reg → BitVec w
  mem : BitVec w → BitVec w

namespace Cpu

def step (s : Cpu w) : Instr → Cpu w
  | .load dst base off =>
    { s with regs := Function.update s.regs dst (s.mem (s.regs base + BitVec.ofInt w off)) }
  | .store src base off =>
    { s with mem := Function.update s.mem (s.regs base + BitVec.ofInt w off) (s.regs src) }
  | .addi dst src imm =>
    { s with regs := Function.update s.regs dst (s.regs src + BitVec.ofInt w imm) }

def exec (s : Cpu w) (code : List Instr) : Cpu w := code.foldl step s

@[simp] theorem exec_nil (s : Cpu w) : s.exec [] = s := rfl

@[simp] theorem exec_cons (s : Cpu w) (i : Instr) (code : List Instr) : s.exec (i :: code) = (s.step i).exec code := rfl

end Cpu

/-! ## Symbolic values -/

/-- What a register held at the start, or the cell at a constant distance from such a word. -/
inductive Base where
  | reg (r : Reg)
  | cell (base : Base) (off : Int)
  deriving DecidableEq, Repr

@[ext] structure Value where
  base : Base
  off : Int
  deriving DecidableEq, Repr

def Base.eval (s : Cpu w) : Base → BitVec w
  | .reg r => s.regs r
  | .cell base off => s.mem (base.eval s + BitVec.ofInt w off)

namespace Value

def eval (s : Cpu w) (v : Value) : BitVec w := v.base.eval s + BitVec.ofInt w v.off

def add (v : Value) (off : Int) : Value := ⟨v.base, v.off + off⟩

def cell (a : Value) : Value := ⟨.cell a.base a.off, 0⟩

@[simp] theorem eval_reg (s : Cpu w) (r : Reg) : (⟨.reg r, 0⟩ : Value).eval s = s.regs r := by
  simp [eval, Base.eval]

@[simp] theorem eval_add (s : Cpu w) (v : Value) (off : Int) :
    (v.add off).eval s = v.eval s + BitVec.ofInt w off := by
  simp [eval, add, BitVec.ofInt_add, BitVec.add_assoc]

@[simp] theorem eval_cell (s : Cpu w) (a : Value) : a.cell.eval s = s.mem (a.eval s) := by
  simp [eval, cell, Base.eval]

end Value

theorem ofInt_ne {i j : Int} {half : Nat} (large : 2 * half ≤ 2 ^ w) (other : i ≠ j) (lowI : -half ≤ i)
    (highI : i < half) (lowJ : -half ≤ j) (highJ : j < half) : BitVec.ofInt w i ≠ BitVec.ofInt w j := by
  have small {k : Int} (low : -half ≤ k) (high : k < half) : (BitVec.ofInt w k).toInt = k := by
    rw [BitVec.toInt_ofInt]
    exact Int.bmod_eq_of_le (by omega) (by omega)
  intro same
  have equal := congrArg BitVec.toInt same
  rw [small lowI highI, small lowJ highJ] at equal
  exact other equal

theorem Value.eval_ne {s : Cpu w} {a b : Value} (half : Nat) (large : 2 * half ≤ 2 ^ w) (base : a.base = b.base)
    (other : a ≠ b) (lowA : -half ≤ a.off) (highA : a.off < half) (lowB : -half ≤ b.off) (highB : b.off < half) :
    a.eval s ≠ b.eval s := by
  have distances : a.off ≠ b.off := fun same => other (Value.ext base same)
  intro same
  rw [Value.eval, Value.eval, base, BitVec.add_right_inj] at same
  exact ofInt_ne large distances lowA highA lowB highB same

/-! ## Symbolic runs -/

/-- The registers, the cells written, latest first, and the addresses of all cells used. -/
structure State where
  regs : Reg → Value
  writes : List (Value × Value)
  used : List Value

def lookup (a : Value) : List (Value × Value) → Value
  | [] => a.cell
  | (b, v) :: writes => if b = a then v else lookup a writes

namespace State

def start : State := ⟨fun r => ⟨.reg r, 0⟩, [], []⟩

def step (s : State) : Instr → State
  | .load dst base off =>
    let a := (s.regs base).add off
    { s with regs := Function.update s.regs dst (lookup a s.writes), used := a :: s.used }
  | .store src base off =>
    let a := (s.regs base).add off
    { s with writes := (a, s.regs src) :: s.writes, used := a :: s.used }
  | .addi dst src imm => { s with regs := Function.update s.regs dst ((s.regs src).add imm) }

def exec (s : State) (code : List Instr) : State := code.foldl step s

@[simp] theorem exec_nil (s : State) : s.exec [] = s := rfl

@[simp] theorem exec_cons (s : State) (i : Instr) (code : List Instr) :
    s.exec (i :: code) = (s.step i).exec code := rfl

end State

def memory (s : Cpu w) : List (Value × Value) → BitVec w → BitVec w
  | [] => s.mem
  | (a, v) :: writes => Function.update (memory s writes) (a.eval s) (v.eval s)

def Apart (s : Cpu w) (writes : List (Value × Value)) (used : List Value) : Prop :=
  ∀ write ∈ writes, ∀ a ∈ used, write.1 ≠ a → write.1.eval s ≠ a.eval s

structure Describes (s : Cpu w) (sym : State) (cpu : Cpu w) : Prop where
  regs : ∀ r, cpu.regs r = (sym.regs r).eval s
  mem : cpu.mem = memory s sym.writes

theorem describes_start (s : Cpu w) : Describes s .start s where
  regs _ := by simp [State.start]
  mem := rfl

theorem Apart.mono {s : Cpu w} {writes writes' : List (Value × Value)} {used used' : List Value}
    (apart : Apart s writes used) (fewer : writes' ⊆ writes) (less : used' ⊆ used) : Apart s writes' used' :=
  fun write member a among => apart write (fewer member) a (less among)

theorem memory_lookup {s : Cpu w} {a : Value} {writes : List (Value × Value)} (apart : Apart s writes [a]) :
    memory s writes (a.eval s) = (lookup a writes).eval s := by
  induction writes with
  | nil => simp [memory, lookup]
  | cons write writes ih =>
    obtain ⟨b, v⟩ := write
    by_cases same : b = a
    · simp [memory, lookup, same]
    · have other : a.eval s ≠ b.eval s := (apart (b, v) List.mem_cons_self a List.mem_cons_self same).symm
      have rest := ih (apart.mono (List.subset_cons_self ..) (List.Subset.refl _))
      simp [memory, lookup, same, other, rest]

theorem memory_of_ne {s : Cpu w} {x : BitVec w} {writes : List (Value × Value)}
    (other : ∀ write ∈ writes, x ≠ write.1.eval s) : memory s writes x = s.mem x := by
  induction writes with
  | nil => rfl
  | cons write writes ih =>
    have here := other write List.mem_cons_self
    have rest := ih fun write member => other write (List.mem_cons_of_mem _ member)
    simp [memory, here, rest]

theorem State.step_grows (s : State) (i : Instr) :
    s.writes ⊆ (s.step i).writes ∧ s.used ⊆ (s.step i).used := by
  cases i with
  | load dst base off => exact ⟨List.Subset.refl _, List.subset_cons_self ..⟩
  | store src base off => exact ⟨List.subset_cons_self .., List.subset_cons_self ..⟩
  | addi dst src imm => exact ⟨List.Subset.refl _, List.Subset.refl _⟩

theorem State.exec_grows (s : State) (code : List Instr) :
    s.writes ⊆ (s.exec code).writes ∧ s.used ⊆ (s.exec code).used := by
  induction code generalizing s with
  | nil => exact ⟨List.Subset.refl _, List.Subset.refl _⟩
  | cons i code ih =>
    obtain ⟨writes, used⟩ := s.step_grows i
    obtain ⟨writes', used'⟩ := ih (s.step i)
    exact ⟨List.Subset.trans writes writes', List.Subset.trans used used'⟩

theorem Describes.step {s cpu : Cpu w} {sym : State} (describes : Describes s sym cpu) (i : Instr)
    (apart : Apart s (sym.step i).writes (sym.step i).used) : Describes s (sym.step i) (cpu.step i) := by
  obtain ⟨regs, mem⟩ := describes
  cases i with
  | load dst base off =>
    refine ⟨fun r => ?_, mem⟩
    by_cases which : r = dst
    · have here : Apart s sym.writes [(sym.regs base).add off] :=
        apart.mono (List.Subset.refl _) (List.cons_subset_cons _ (List.nil_subset _))
      have value := memory_lookup here
      simp [Cpu.step, State.step, which, regs, mem, ← value]
    · simp [Cpu.step, State.step, which, regs]
  | store src base off =>
    refine ⟨regs, ?_⟩
    simp [Cpu.step, State.step, memory, regs, mem]
  | addi dst src imm =>
    refine ⟨fun r => ?_, mem⟩
    by_cases which : r = dst
    · simp [Cpu.step, State.step, which, regs]
    · simp [Cpu.step, State.step, which, regs]

theorem Describes.exec {s cpu : Cpu w} {sym : State} (describes : Describes s sym cpu) (code : List Instr)
    (apart : Apart s (sym.exec code).writes (sym.exec code).used) :
    Describes s (sym.exec code) (cpu.exec code) := by
  induction code generalizing sym cpu with
  | nil => exact describes
  | cons i code ih =>
    obtain ⟨writes, used⟩ := (sym.step i).exec_grows code
    exact ih (describes.step i (apart.mono writes used)) apart

end HevTaskSystem.Foundation.Symbolic
