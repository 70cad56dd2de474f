import RegisterCode.Naming.Table
import RegisterCode.Source.Slice
import RegisterCode.Source.Span

/-!
# Expression and statement nodes

The kinds of nodes after section 10.2 of the specification (`SPEC_FULL.md`, "ExprKind" to
"UnaryOp"). Nodes refer to one another by number, and to lists of children by slices. Every node has
a kind and a span. `describe` names a kind in a phrase; `dump` writes out its fields.

Out of scope: the width of 64 bits of literals in the source. A literal is an integer; those that
have code are within 32 bits.
-/

namespace RegisterCode

/-- Operators that stand between two operands. -/
inductive BinaryOp where
  | add | sub | mul | div | mod | eq | notEq | lt | ltEq | gt | gtEq
  deriving DecidableEq

namespace BinaryOp

/-- The operator as written in source text. -/
def symbol : BinaryOp → String
  | .add => "+"
  | .sub => "-"
  | .mul => "*"
  | .div => "/"
  | .mod => "%"
  | .eq => "=="
  | .notEq => "!="
  | .lt => "<"
  | .ltEq => "<="
  | .gt => ">"
  | .gtEq => ">="

/-- The form in which an operator is shown inside a node. -/
def dump : BinaryOp → String
  | .add => "Add"
  | .sub => "Sub"
  | .mul => "Mul"
  | .div => "Div"
  | .mod => "Mod"
  | .eq => "Eq"
  | .notEq => "NotEq"
  | .lt => "Lt"
  | .ltEq => "LtEq"
  | .gt => "Gt"
  | .gtEq => "GtEq"

end BinaryOp

/-- Operators that stand before their operand. -/
inductive UnaryOp where
  | neg | pos | not
  deriving DecidableEq

namespace UnaryOp

/-- The operator as written in source text. -/
def symbol : UnaryOp → String
  | .neg => "-"
  | .pos => "+"
  | .not => "!"

/-- The form in which an operator is shown inside a node. -/
def dump : UnaryOp → String
  | .neg => "Neg"
  | .pos => "Pos"
  | .not => "Not"

end UnaryOp

/-- The number of an expression node. -/
structure ExprId where
  /-- Position among the expression nodes. -/
  index : Nat
  deriving DecidableEq

/-- The number of a statement node. -/
structure StmtId where
  /-- Position among the statement nodes. -/
  index : Nat
  deriving DecidableEq

/-- The form in which an expression's number is shown. -/
def ExprId.dump (id : ExprId) : String := s!"ExprId({id.index})"

/-- The form in which a statement's number is shown. -/
def StmtId.dump (id : StmtId) : String := s!"StmtId({id.index})"

/-- What an expression is. -/
inductive ExprKind where
  /-- A variable. -/
  | ident (name : Name)
  /-- An integer literal. -/
  | int (value : Int)
  /-- Two operands and the operator between them. -/
  | binary (op : BinaryOp) (left right : ExprId)
  /-- An operator and its operand. -/
  | unary (op : UnaryOp) (operand : ExprId)
  /-- An expression in parentheses. -/
  | paren (inner : ExprId)
  /-- A function applied to a list of arguments. -/
  | call (callee : Name) (args : Slice ExprId)
  /-- A place where the source text is no expression. -/
  | error
  deriving DecidableEq

namespace ExprKind

/-- A phrase for this kind of expression. -/
def describe : ExprKind → String
  | .ident _ => "identifier"
  | .int _ => "integer literal"
  | .binary .. => "binary expression"
  | .unary .. => "unary expression"
  | .paren _ => "parenthesized expression"
  | .call .. => "call expression"
  | .error => "error expression"

/-- The kind with all its fields. -/
def dump : ExprKind → Except Fault String
  | .ident name => .ok s!"Ident({name.dump})"
  | .int value => .ok s!"Int({value})"
  | .binary op left right =>
    .ok s!"Binary \x7b op: {op.dump}, left: {left.dump}, right: {right.dump} \x7d"
  | .unary op operand => .ok s!"Unary \x7b op: {op.dump}, operand: {operand.dump} \x7d"
  | .paren inner => .ok s!"Paren({inner.dump})"
  | .call callee args => do
    let args ← args.dump "ExprRange"
    return s!"Call \x7b func: {callee.dump}, args: {args} \x7d"
  | .error => .ok "Error"

end ExprKind

/-- An expression node. -/
structure Expr where
  /-- What the expression is. -/
  kind : ExprKind
  /-- Where it stands. -/
  span : Span
  deriving DecidableEq

/-- The node with all its fields. -/
def Expr.dump (e : Expr) : Except Fault String := do
  let kind ← e.kind.dump
  return s!"{kind} @ {e.span.dump}"

/-- What a statement is. -/
inductive StmtKind where
  /-- The declaration of a local variable. -/
  | var (name : Name) (init : Option ExprId)
  /-- The assignment of a value to a variable. -/
  | assign (target : Name) (value : ExprId)
  /-- Statements with a scope of their own. -/
  | block (body : Slice StmtId)
  /-- An expression whose value is dropped. -/
  | expr (value : ExprId)
  /-- A place where the source text is no statement. -/
  | error
  deriving DecidableEq

namespace StmtKind

/-- A phrase for this kind of statement. -/
def describe : StmtKind → String
  | .var .. => "variable declaration"
  | .assign .. => "assignment"
  | .block _ => "block"
  | .expr _ => "expression statement"
  | .error => "error statement"

/-- The kind with all its fields. -/
def dump : StmtKind → Except Fault String
  | .var name none => .ok s!"Var \x7b name: {name.dump}, init: None \x7d"
  | .var name (some init) => .ok s!"Var \x7b name: {name.dump}, init: Some({init.dump}) \x7d"
  | .assign target value => .ok s!"Assign \x7b target: {target.dump}, value: {value.dump} \x7d"
  | .block body => do
    let body ← body.dump "StmtRange"
    return s!"Block({body})"
  | .expr value => .ok s!"Expr({value.dump})"
  | .error => .ok "Error"

end StmtKind

/-- A statement node. -/
structure Stmt where
  /-- What the statement is. -/
  kind : StmtKind
  /-- Where it stands. -/
  span : Span
  deriving DecidableEq

/-- The node with all its fields. -/
def Stmt.dump (s : Stmt) : Except Fault String := do
  let kind ← s.kind.dump
  return s!"{kind} @ {s.span.dump}"

end RegisterCode
