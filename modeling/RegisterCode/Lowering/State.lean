import RegisterCode.Code.Listing
import RegisterCode.Lowering.Failure
import RegisterCode.Scope.Chain
import RegisterCode.Source.Rendering
import RegisterCode.Source.Unit

/-!
# The state of a compilation

What one run owns, after sections 5 and 9 of the specification (`SPEC_FULL.md`), with the events of
its section 10.7. Compilation walks over the nodes once. It keeps the open scopes, counts the
registers it hands out, and writes a listing and a log of events. When it fails, what was written so
far is kept.

Out of scope: installing a logger and filtering events.
-/

namespace RegisterCode

/-- What compilation reports while it runs. -/
inductive Event where
  /-- Compilation of a package begins. -/
  | unitStarted (package : String) (globals functions : Nat)
  /-- A function that is defined elsewhere. -/
  | functionDeclared (function : String)
  /-- The body of a function begins. -/
  | functionStarted (function : String)
  /-- A local variable gets its slot. -/
  | variableDeclared (slot : Label)
  /-- The code that starts the program is appended. -/
  | trampolineAppended (package : String)
  deriving DecidableEq

/-- How detailed an event is. -/
inductive EventLevel where
  | debug | trace
  deriving DecidableEq

namespace Event

/-- Events about local variables are more detailed than the others. -/
def level : Event → EventLevel
  | .variableDeclared _ => .trace
  | .unitStarted .. | .functionDeclared _ | .functionStarted _ | .trampolineAppended _ => .debug

/-- The text of an event, without its fields. -/
def message : Event → String
  | .unitStarted .. => "lowering module"
  | .functionDeclared _ => "declaration only"
  | .functionStarted _ => "lowering function"
  | .variableDeclared _ => "declare local"
  | .trampolineAppended _ => "appending entry trampoline"

end Event

namespace Lowering

/-- What stays the same throughout a compilation. -/
structure Context where
  /-- The nodes of the source unit. -/
  nodes : NodeStore
  /-- The names in use, those of builtin functions included. -/
  names : NameTable
  /-- How labels are made. -/
  mangling : Mangling

/-- What changes during a compilation. -/
structure State where
  /-- The open scopes. -/
  scopes : ScopeChain
  /-- The registers handed out so far. -/
  registers : RegisterCounter := {}
  /-- The code emitted so far. -/
  listing : Listing := {}
  /-- The events so far, first to last. -/
  events : Array Event := #[]
  deriving DecidableEq

end Lowering

/-- Steps of a compilation; the state survives a failure. -/
abbrev LowerM := EStateM Failure Lowering.State

namespace Lowering

variable {α : Type}

/-- Fail where a reference leads nowhere. -/
@[inline]
def orFault (x : Except Fault α) : LowerM α :=
  match x with
  | .ok a => pure a
  | .error f => throw (.fault f)

/-- Fail because the source unit is not accepted. -/
@[inline]
def reject (r : Rejection) : LowerM α := throw (.rejected r)

/-- Append an instruction. -/
def emit (i : Instr) : LowerM Unit :=
  modify fun s => { s with listing := s.listing.instr i }

/-- Append text. -/
def emitVerbatim (text : String) : LowerM Unit :=
  modify fun s => { s with listing := s.listing.verbatim text }

/-- Append an empty line. -/
def emitBlankLine : LowerM Unit :=
  modify fun s => { s with listing := s.listing.blankLine }

/-- Report an event. -/
def report (e : Event) : LowerM Unit :=
  modify fun s => { s with events := s.events.push e }

/-- The next register. -/
def freshRegister : LowerM Register :=
  modifyGet fun s =>
    let (r, registers) := s.registers.fresh
    (r, { s with registers })

/-- Compute from two values into the next register. -/
def emitBinary (op : Opcode) (left right : Value) : LowerM Value := do
  let target ← freshRegister
  emit (.binary target op left right)
  return .reg target

/-- Bind a symbol in the innermost scope. -/
def bindSymbol (symbol : Symbol) : LowerM Unit :=
  modify fun s => { s with scopes := (s.scopes.insert symbol).2 }

/-- Open a scope. -/
def enterScope : LowerM Unit :=
  modify fun s => { s with scopes := s.scopes.enter }

/-- Close the innermost scope. -/
def leaveScope : LowerM Unit := fun ⟨scopes, registers, listing, events⟩ =>
  match scopes.leave with
  | .ok _ scopes => .ok () ⟨scopes, registers, listing, events⟩
  | .error f scopes => .error (.fault f) ⟨scopes, registers, listing, events⟩

/-- Run a step in a scope of its own, which is closed whether the step succeeds or fails. -/
@[inline]
def inScope (step : LowerM Unit) : LowerM Unit := do
  enterScope
  try step finally leaveScope

/-- The slot of a variable: what the name stands for, unless that is a builtin function. -/
def Context.resolveSlot (ctx : Context) (name : Name) (span : Span) : LowerM Label := do
  let symbol? ← orFault ((← get).scopes.resolve name)
  match symbol? with
  | none =>
    let name ← orFault (ctx.names.lookup name)
    reject (.undefinedVariable name span)
  | some symbol =>
    if symbol.isBuiltin then
      let name ← orFault (ctx.names.lookup name)
      reject <| .unsupported "identifier"
        ("builtin function `" ++ name ++ "` used as a variable") span
    else
      return symbol.label

/-- Refuse an expression for what it is. -/
def Context.rejectExpr (ctx : Context) (id : ExprId) (construct : String) : LowerM α := do
  let e ← orFault (ctx.nodes.expr id)
  let text ← orFault (ctx.nodes.renderExpr ctx.names id)
  reject (.unsupported construct text e.span)

/-- Refuse a statement for what it is. -/
def Context.rejectStmt (ctx : Context) (id : StmtId) (construct : String) : LowerM α := do
  let s ← orFault (ctx.nodes.stmt id)
  let text ← orFault (ctx.nodes.renderStmt ctx.names id)
  reject (.unsupported construct text s.span)

end Lowering

end RegisterCode
