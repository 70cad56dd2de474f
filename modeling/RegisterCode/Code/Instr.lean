import RegisterCode.Code.Label

/-!
# Instructions

The instruction model of section 10.3 of the specification (`SPEC_FULL.md`) and the register
allocator of its section 4.2. Code is a sequence of instructions over numbered registers and
labelled slots. Every register is 32 bits wide and is written by a single instruction.

Out of scope: an overflow of the register counter, as in the specification. The counter is an
unbounded number, so that all that is said of registers holds for listings of fewer than `2 ^ 32`.
-/

namespace RegisterCode

/-- A numbered register. -/
structure Register where
  /-- Its number. -/
  index : Nat
  deriving DecidableEq

namespace Register

/-- Registers are ordered by their numbers. -/
instance : Ord Register := ⟨fun a b => compare a.index b.index⟩

/-- The register as emitted. -/
def text (r : Register) : String := "%t" ++ toString r.index

end Register

/-- How many registers have been handed out: those with smaller numbers. There is no largest one. -/
structure RegisterCounter where
  /-- Number of registers handed out. -/
  allocated : Nat := 0
  deriving DecidableEq

namespace RegisterCounter

/-- The next register. -/
def fresh (c : RegisterCounter) : Register × RegisterCounter :=
  (⟨c.allocated⟩, ⟨c.allocated + 1⟩)

/-- The next `n` registers. -/
def freshList (c : RegisterCounter) : Nat → List Register × RegisterCounter
  | 0 => ([], c)
  | n + 1 =>
    let (r, c) := c.fresh
    let (rs, c) := c.freshList n
    (r :: rs, c)

end RegisterCounter

/-- An operand: a register or a number. -/
inductive Value where
  /-- The content of a register. -/
  | reg (r : Register)
  /-- A number that stands in the instruction itself. -/
  | imm (n : Int32)
  deriving DecidableEq

namespace Value

/-- The number zero. -/
def zero : Value := .imm 0

/-- The operand as emitted. -/
def text : Value → String
  | .reg r => r.text
  | .imm n => toString n.toInt

end Value

/-- The arithmetic that code can do. -/
inductive Opcode where
  | add | sub | mul | div
  deriving DecidableEq

/-- The operation as emitted. -/
def Opcode.text : Opcode → String
  | .add => "add"
  | .sub => "sub"
  | .mul => "mul"
  | .div => "div"

/-- One instruction, which is one line of emitted code. -/
inductive Instr where
  /-- Reserve a slot that lives as long as the program, holding zero. -/
  | global (slot : Label)
  /-- Announce a function that is defined elsewhere. -/
  | declare (function : Label)
  /-- Begin a function. -/
  | define (function : Label)
  /-- Reserve a slot that lives as long as the call of the function. -/
  | alloca (slot : Label)
  /-- Write a value to a slot. -/
  | store (value : Value) (slot : Label)
  /-- Read a slot. -/
  | load (target : Register) (slot : Label)
  /-- Compute from two values. -/
  | binary (target : Register) (op : Opcode) (left right : Value)
  /-- Call a function of one argument. -/
  | call (target : Register) (function : Label) (argument : Value)
  /-- Return zero. -/
  | ret
  /-- End a function. -/
  | close
  deriving DecidableEq

namespace Instr

/-- Whether the instruction stands inside a function. -/
def isBody : Instr → Bool
  | .global _ | .declare _ | .define _ | .close => false
  | .alloca _ | .store .. | .load .. | .binary .. | .call .. | .ret => true

/-- The register the instruction writes. -/
def target? : Instr → Option Register
  | .load target _ | .binary target _ _ _ | .call target _ _ => some target
  | .global _ | .declare _ | .define _ | .alloca _ | .store .. | .ret | .close => none

/-- The instruction as emitted, without indentation. -/
def text : Instr → String
  | .global slot => slot.text ++ " = global i32 0"
  | .declare function => "declare i32 " ++ function.text ++ "()"
  | .define function => "define i32 " ++ function.text ++ "() \x7b"
  | .alloca slot => slot.text ++ " = alloca i32, align 4"
  | .store value slot => "store i32 " ++ value.text ++ ", i32* " ++ slot.text
  | .load target slot => target.text ++ " = load i32, i32* " ++ slot.text ++ ", align 4"
  | .binary target op left right =>
    target.text ++ " = " ++ op.text ++ " i32 " ++ left.text ++ ", " ++ right.text
  | .call target function argument =>
    target.text ++ " = call i32(i32) " ++ function.text ++ "(i32 " ++ argument.text ++ ")"
  | .ret => "ret i32 0"
  | .close => "\x7d"

/-- The line of emitted code: instructions inside a function are indented by a tab. -/
def line (i : Instr) : String :=
  (if i.isBody then "\t" else "") ++ i.text ++ "\n"

end Instr

end RegisterCode
