import RegisterCode.Source.Unit

/-!
# Building source units

The builder of section 10.2 of the specification (`SPEC_FULL.md`, "ModuleBuilder"). It makes a
source unit node by node, children first. Every node and every declaration gets the one-wide span at
the next position, so no two of them stand at the same place.

Out of scope: the limit of `2 ^ 32` positions. The next position is an unbounded number, so that all
that is said of positions holds for units of fewer than `2 ^ 32` nodes and declarations.
-/

namespace RegisterCode

/-- A source unit under construction. -/
structure Builder where
  /-- The names in use. -/
  names : NameTable
  /-- What has been built so far. -/
  unit : SourceUnit
  /-- The position of the next node. It has no upper limit. -/
  position : Nat
  deriving DecidableEq

/-- Steps that extend a source unit under construction. -/
abbrev BuildM := StateM Builder

namespace Builder

/-- Start a unit of the given package. -/
def start (names : NameTable) (package : String) : Builder :=
  let (package, names) := names.intern package
  { names, unit := { package }, position := 0 }

/-- The name of an identifier. -/
def intern (s : String) : BuildM Name :=
  modifyGet fun b =>
    let (name, names) := b.names.intern s
    (name, { b with names })

/-- The span at the next position. -/
def nextSpan : BuildM Span :=
  modifyGet fun b => (.single b.position, { b with position := b.position + 1 })

/-- Work on the node store. -/
@[inline]
def onNodes {α : Type} (f : NodeStore → α × NodeStore) : BuildM α :=
  modifyGet fun ⟨names, ⟨package, globals, functions, nodes⟩, position⟩ =>
    let (a, nodes) := f nodes
    (a, ⟨names, ⟨package, globals, functions, nodes⟩, position⟩)

/-- Add an expression at the next position. -/
def expr (kind : ExprKind) : BuildM ExprId := do
  let span ← nextSpan
  onNodes (·.addExpr ⟨kind, span⟩)

/-- Add a statement at the next position. -/
def stmt (kind : StmtKind) : BuildM StmtId := do
  let span ← nextSpan
  onNodes (·.addStmt ⟨kind, span⟩)

/-! ## Expressions -/

/-- A variable. -/
def ident (name : String) : BuildM ExprId := do
  let name ← intern name
  expr (.ident name)

/-- An integer literal. -/
def int (value : Int) : BuildM ExprId :=
  expr (.int value)

/-- An operator between two operands. -/
def binary (op : BinaryOp) (left right : ExprId) : BuildM ExprId :=
  expr (.binary op left right)

/-- An operator before its operand. -/
def unary (op : UnaryOp) (operand : ExprId) : BuildM ExprId :=
  expr (.unary op operand)

/-- An expression in parentheses. -/
def paren (inner : ExprId) : BuildM ExprId :=
  expr (.paren inner)

/-- A function applied to arguments. -/
def call (callee : String) (args : List ExprId) : BuildM ExprId := do
  let callee ← intern callee
  let args ← onNodes (·.addExprList args)
  expr (.call callee args)

/-- A place where the source text is no expression. -/
def errorExpr : BuildM ExprId :=
  expr .error

/-! ## Statements -/

/-- The declaration of a local variable. -/
def var (name : String) (init : Option ExprId) : BuildM StmtId := do
  let name ← intern name
  stmt (.var name init)

/-- An assignment. -/
def assign (target : String) (value : ExprId) : BuildM StmtId := do
  let target ← intern target
  stmt (.assign target value)

/-- An expression whose value is dropped. -/
def exprStmt (value : ExprId) : BuildM StmtId :=
  stmt (.expr value)

/-- Statements with a scope of their own. -/
def block (body : List StmtId) : BuildM StmtId := do
  let body ← onNodes (·.addStmtList body)
  stmt (.block body)

/-- A place where the source text is no statement. -/
def errorStmt : BuildM StmtId :=
  stmt .error

/-! ## Declarations -/

/-- A variable of the package. -/
def global (name : String) : BuildM Unit := do
  let name ← intern name
  let span ← nextSpan
  modify fun b => { b with unit := b.unit.addGlobal ⟨name, span⟩ }

/-- A function of the package, with its body unless it is defined elsewhere. -/
def function (name : String) (body : Option StmtId) : BuildM Unit := do
  let name ← intern name
  let span ← nextSpan
  modify fun b => { b with unit := b.unit.addFunction ⟨name, body, span⟩ }

end Builder

end RegisterCode
