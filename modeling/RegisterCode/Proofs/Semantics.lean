import RegisterCode.Code.Instr
import RegisterCode.Naming.Table
import RegisterCode.Proofs.Tree

/-!
# What programs and code do

Two ways to run a function. A source tree is run in a stack of frames: a variable is a cell of the
frame of its block, an expression is evaluated from left to right, a block has a frame of its own.
Code is run on a machine with registers and labelled slots, one instruction after the other. Both
have the same world around them, in which builtin functions are called; what those do, and what
multiplication and division are, is left open (`Runtime`).

Neither run refers to the other or to the translation. Both are partial: a variable without a
cell, a register without content or a slot that was never made or filled stops the run.

Out of scope: calls between functions and the code that starts a program. A run is that of one
function.
-/

namespace RegisterCode

/-- What the meaning of programs is relative to. Builtin functions go by a name of type `κ` and
work on an external state of type `σ`. -/
structure Runtime (κ σ : Type) where
  mul : Int32 → Int32 → Int32
  div : Int32 → Int32 → Int32
  /-- Call a builtin function with an argument. -/
  call : σ → κ → Int32 → σ × Int32

/-- The same runtime, with other names for the builtin functions. -/
def Runtime.named {κ κ' σ : Type} (rt : Runtime κ σ) (label : κ' → κ) : Runtime κ' σ :=
  ⟨rt.mul, rt.div, fun s f x => rt.call s (label f) x⟩

/-- The world around a run. -/
structure World (κ σ : Type) where
  /-- The external state. -/
  state : σ
  /-- The builtin functions that were called, each with its argument, in order. -/
  calls : List (κ × Int32)

namespace World

variable {κ κ' σ : Type}

/-- Call a builtin function. -/
def call (rt : Runtime κ σ) (w : World κ σ) (f : κ) (x : Int32) : Int32 × World κ σ :=
  ((rt.call w.state f x).2, ⟨(rt.call w.state f x).1, w.calls ++ [(f, x)]⟩)

/-- The same world, with other names for the builtin functions. -/
def relabel (label : κ → κ') (w : World κ σ) : World κ' σ :=
  ⟨w.state, w.calls.map fun c => (label c.1, c.2)⟩

/-- A call under another name is the same call. -/
theorem call_relabel (rt : Runtime κ' σ) (label : κ → κ') (w : World κ σ) (f : κ) (x : Int32) :
    (w.relabel label).call rt (label f) x =
      ((w.call (rt.named label) f x).1, (w.call (rt.named label) f x).2.relabel label) := by
  simp [call, relabel, Runtime.named]

end World

/-! ## Source trees -/

/-- The variables of a frame and their values. -/
def Cells := Name → Option Int32

namespace Cells

/-- The frame without variables. -/
def empty : Cells := fun _ => none

/-- The frame with one variable set, new or not. -/
def set (cells : Cells) (n : Name) (x : Int32) : Cells :=
  fun n' => if n = n' then some x else cells n'

/-- The value of a variable: that of the innermost frame that has it. -/
def find (env : List Cells) (n : Name) : Option Int32 := env.findSome? (· n)

/-- Add a variable to the innermost frame. -/
def declare : List Cells → Name → Int32 → Option (List Cells)
  | [], _, _ => none
  | cells :: env, n, x => some (cells.set n x :: env)

/-- Change a variable, in the innermost frame that has it. -/
def assign : List Cells → Name → Int32 → Option (List Cells)
  | [], _, _ => none
  | cells :: env, n, x =>
    if (cells n).isSome then some (cells.set n x :: env) else (assign env n x).map (cells :: ·)

@[simp]
theorem empty_apply (n : Name) : empty n = none := rfl

theorem set_apply (cells : Cells) (n : Name) (x : Int32) (n' : Name) :
    cells.set n x n' = if n = n' then some x else cells n' := rfl

theorem find_cons (cells : Cells) (env : List Cells) (n : Name) :
    find (cells :: env) n = (cells n).or (find env n) := by
  unfold find
  rw [List.findSome?_cons]
  cases cells n <;> rfl

end Cells

/-- The result of an operation; comparisons and remainders have none. -/
def BinaryOp.eval {κ σ : Type} (rt : Runtime κ σ) : BinaryOp → Int32 → Int32 → Option Int32
  | .add, x, y => some (x + y)
  | .sub, x, y => some (x - y)
  | .mul, x, y => some (rt.mul x y)
  | .div, x, y => some (rt.div x y)
  | .mod, _, _ | .eq, _, _ | .notEq, _, _ | .lt, _, _ | .ltEq, _, _ | .gt, _, _ | .gtEq, _, _ =>
    none

section Source

variable {σ : Type} (rt : Runtime String σ) (names : NameTable)

/-- Evaluate an expression. -/
def ExprTree.eval (env : List Cells) :
    ExprTree → World String σ → Option (Int32 × World String σ)
  | .ident _ n, w => do
    let x ← Cells.find env n
    return (x, w)
  | .int _ value, w => some (.ofInt value, w)
  | .binary _ op left right, w => do
    let (x, w) ← left.eval env w
    let (y, w) ← right.eval env w
    let z ← op.eval rt x y
    return (z, w)
  | .unary _ .neg operand, w => do
    let (x, w) ← operand.eval env w
    return (-x, w)
  | .unary _ .pos operand, w => operand.eval env w
  | .unary _ .not _, _ => none
  | .paren _ inner, w => inner.eval env w
  | .call _ callee [arg], w => do
    let (x, w) ← arg.eval env w
    let f ← names.text? callee
    return w.call rt f x
  | .call _ _ _, _ => none
  | .error _, _ => none

/-- The initial value of a variable: zero, unless the declaration gives one. -/
def ExprTree.evalInit (env : List Cells) (w : World String σ) :
    Option ExprTree → Option (Int32 × World String σ)
  | none => some (0, w)
  | some t => t.eval rt names env w

mutual

/-- Run a statement: it changes the frames and the world. -/
def StmtTree.exec : StmtTree → List Cells → World String σ →
    Option (List Cells × World String σ)
  | .var _ n init, env, w => do
    let (x, w) ← ExprTree.evalInit rt names env w init
    let env ← Cells.declare env n x
    return (env, w)
  | .assign _ n value, env, w => do
    let (x, w) ← value.eval rt names env w
    let env ← Cells.assign env n x
    return (env, w)
  | .block _ body, env, w => do
    let (env, w) ← StmtTree.execAll body (Cells.empty :: env) w
    return (env.tail, w)
  | .expr _ value, env, w => do
    let (_, w) ← value.eval rt names env w
    return (env, w)
  | .error _, _, _ => none

/-- Run one statement after the other. -/
def StmtTree.execAll : List StmtTree → List Cells → World String σ →
    Option (List Cells × World String σ)
  | [], env, w => some (env, w)
  | t :: rest, env, w => do
    let (env, w) ← t.exec env w
    StmtTree.execAll rest env w

end

/-- Run a function: its body, in a frame of its own within that of the package's variables. The
result is what has become of those. -/
def StmtTree.run (t : StmtTree) (globals : Cells) (w : World String σ) :
    Option (Cells × World String σ) := do
  let (env, w) ← t.exec rt names [Cells.empty, globals] w
  let globals ← env[1]?
  return (globals, w)

end Source

/-! ## Code -/

/-- The result of an operation. -/
def Opcode.eval {κ σ : Type} (rt : Runtime κ σ) : Opcode → Int32 → Int32 → Int32
  | .add, x, y => x + y
  | .sub, x, y => x - y
  | .mul, x, y => rt.mul x y
  | .div, x, y => rt.div x y

/-- The slots that were made, and the content of those that were filled. -/
def Slots := Label → Option (Option Int32)

namespace Slots

/-- Make a slot, or change its content. -/
def set (slots : Slots) (slot : Label) (content : Option Int32) : Slots :=
  fun slot' => if slot = slot' then some content else slots slot'

@[simp]
theorem set_self (slots : Slots) (slot : Label) (content : Option Int32) :
    slots.set slot content slot = some content := if_pos rfl

theorem set_of_ne (slots : Slots) {slot slot' : Label} (h : slot ≠ slot')
    (content : Option Int32) : slots.set slot content slot' = slots slot' := if_neg h

@[simp]
theorem set_set (slots : Slots) (slot : Label) (content content' : Option Int32) :
    (slots.set slot content).set slot content' = slots.set slot content' := by
  funext slot'
  by_cases h : slot = slot'
  · rw [← h, set_self, set_self]
  · rw [set_of_ne _ h, set_of_ne _ h, set_of_ne _ h]

end Slots

/-- A machine that runs code. -/
structure Machine (σ : Type) where
  /-- The registers that have a content. -/
  registers : Register → Option Int32
  slots : Slots
  world : World Label σ

namespace Machine

variable {σ : Type}

/-- The content of an operand. -/
def value (m : Machine σ) : Value → Option Int32
  | .reg r => m.registers r
  | .imm n => some n

/-- Give a register a content. -/
def write (m : Machine σ) (r : Register) (x : Int32) : Machine σ :=
  { m with registers := fun r' => if r = r' then some x else m.registers r' }

/-- Run an instruction. Only those that stand in the body of a function can be run. -/
def step (rt : Runtime Label σ) (m : Machine σ) : Instr → Option (Machine σ)
  | .alloca slot => some { m with slots := m.slots.set slot none }
  | .store v slot => do
    let x ← m.value v
    let _ ← m.slots slot
    return { m with slots := m.slots.set slot (some x) }
  | .load r slot => do
    let content ← m.slots slot
    let x ← content
    return m.write r x
  | .binary r op a b => do
    let x ← m.value a
    let y ← m.value b
    return m.write r (op.eval rt x y)
  | .call r f a => do
    let x ← m.value a
    let (y, world) := m.world.call rt f x
    return { m.write r y with world }
  | .global _ | .declare _ | .define _ | .ret | .close => none

/-- Run one instruction after the other. -/
def run (rt : Runtime Label σ) (m : Machine σ) (code : List Instr) : Option (Machine σ) :=
  code.foldlM (step rt) m

@[simp]
theorem run_nil (rt : Runtime Label σ) (m : Machine σ) : m.run rt [] = some m := rfl

theorem run_append (rt : Runtime Label σ) (m : Machine σ) (code code' : List Instr) :
    m.run rt (code ++ code') = (m.run rt code).bind fun m' => m'.run rt code' :=
  List.foldlM_append

@[simp]
theorem run_cons (rt : Runtime Label σ) (m : Machine σ) (i : Instr) (code : List Instr) :
    m.run rt (i :: code) = (m.step rt i).bind fun m' => m'.run rt code :=
  List.foldlM_cons

/-- Operands are no slots. -/
@[simp]
theorem value_with_slots (m : Machine σ) (slots : Slots) (v : Value) :
    ({ m with slots } : Machine σ).value v = m.value v := by
  cases v <;> rfl

@[simp]
theorem write_registers_self (m : Machine σ) (r : Register) (x : Int32) :
    (m.write r x).registers r = some x := if_pos rfl

theorem write_registers_of_ne (m : Machine σ) {r r' : Register} (h : r ≠ r') (x : Int32) :
    (m.write r x).registers r' = m.registers r' := if_neg h

end Machine

end RegisterCode
