import RegisterCode.Lowering.State

/-!
# Code for function bodies

Expression and statement lowering after sections 4.3, 4.4 and 10.6 of the specification
(`SPEC_FULL.md`). Evaluation is eager and goes from left to right. An expression puts its value into
a register of its own, except that parentheses and a unary plus add nothing to their operand. A
local variable gets one slot for each place that declares it; its initial value is computed before
the name is bound.

The walk follows node numbers, which may lead in circles. It therefore counts the levels it goes
down and gives up below as many levels as there are nodes: only a node that contains itself
reaches so far.

Out of scope: the native stack, which grows as needed (section 10.8).
-/

namespace RegisterCode

/-- The arithmetic that code can do for an operator. -/
def BinaryOp.opcode? : BinaryOp → Option Opcode
  | .add => some .add
  | .sub => some .sub
  | .mul => some .mul
  | .div => some .div
  | .mod | .eq | .notEq | .lt | .ltEq | .gt | .gtEq => none

/-- The register content that an integer literal stands for, if it fits. -/
def literal? (n : Int) : Option Int32 :=
  if -2147483648 ≤ n ∧ n ≤ 2147483647 then some (.ofInt n) else none

namespace Lowering

/-- Emit code for an expression; the result is the value it computes. -/
def lowerExpr (ctx : Context) : Nat → ExprId → LowerM Value
  | 0, _ => throw .cyclic
  | level + 1, id => do
    let e ← orFault (ctx.nodes.expr id)
    match e.kind with
    | .ident name =>
      let slot ← ctx.resolveSlot name e.span
      let target ← freshRegister
      emit (.load target slot)
      return .reg target
    | .int n =>
      match literal? n with
      | some n => emitBinary .add .zero (.imm n)
      | none => ctx.rejectExpr id "integer literal outside i32 range"
    | .binary op left right =>
      match op.opcode? with
      | some op =>
        let left ← lowerExpr ctx level left
        let right ← lowerExpr ctx level right
        emitBinary op left right
      | none => ctx.rejectExpr id "binary operator"
    | .unary .neg operand =>
      let operand ← lowerExpr ctx level operand
      emitBinary .sub .zero operand
    | .unary .pos operand => lowerExpr ctx level operand
    | .unary .not _ => ctx.rejectExpr id "unary operator"
    | .paren inner => lowerExpr ctx level inner
    | .call callee args =>
      let args ← orFault (ctx.nodes.exprList args)
      match args with
      | [arg] =>
        match (← get).scopes.lookupUniverse callee with
        | some symbol =>
          if symbol.isBuiltin then
            let arg ← lowerExpr ctx level arg
            let target ← freshRegister
            emit (.call target symbol.label arg)
            return .reg target
          else
            ctx.rejectExpr id "call to non-builtin function"
        | none => ctx.rejectExpr id "call to non-builtin function"
      | _ => ctx.rejectExpr id "call with other than one argument"
    | .error => ctx.rejectExpr id e.kind.describe

/-- Emit code for an expression of the source unit. -/
def Context.lowerExpr (ctx : Context) (id : ExprId) : LowerM Value :=
  Lowering.lowerExpr ctx (ctx.nodes.exprs.size + 1) id

/-- Emit code for the declaration of a local variable. -/
def Context.lowerVar (ctx : Context) (id : StmtId) (name : Name) (init : Option ExprId)
    (span : Span) : LowerM Unit := do
  let value ← match init with
    | some init => ctx.lowerExpr init
    | none => pure .zero
  let text ← orFault (ctx.names.lookup name)
  let slot := ctx.mangling.localSlot text span.start
  report (.variableDeclared slot)
  bindSymbol ⟨name, slot, .declared id⟩
  emit (.alloca slot)
  emit (.store value slot)

/-- Emit code for a statement. -/
def lowerStmt (ctx : Context) : Nat → StmtId → LowerM Unit
  | 0, _ => throw .cyclic
  | level + 1, id => do
    let s ← orFault (ctx.nodes.stmt id)
    match s.kind with
    | .var name init => ctx.lowerVar id name init s.span
    | .assign target value =>
      let slot ← ctx.resolveSlot target s.span
      let value ← ctx.lowerExpr value
      emit (.store value slot)
    | .block body =>
      inScope do
        let body ← orFault (ctx.nodes.stmtList body)
        body.forM (lowerStmt ctx level)
    | .expr value =>
      let _ ← ctx.lowerExpr value
    | .error => ctx.rejectStmt id s.kind.describe

/-- Emit code for a statement of the source unit. -/
def Context.lowerStmt (ctx : Context) (id : StmtId) : LowerM Unit :=
  Lowering.lowerStmt ctx (ctx.nodes.stmts.size + 1) id

end Lowering

end RegisterCode
