import RegisterCode.Source.Node

/-!
# The node store

The store after section 10.2 of the specification (`SPEC_FULL.md`, "ExprArena"): all expression and
statement nodes of a source unit, with the two tables that hold the argument lists of calls and the
bodies of blocks. A store only grows: an added node gets the next number, and what was added before
keeps its number. Nodes may be shared, and may refer to nodes that are not there yet.

Results: an added node or list is read back as it was added (`expr_addExpr`, `stmt_addStmt`,
`exprList_addExprList`, `stmtList_addStmtList`).

Out of scope: the limit of `2 ^ 32` nodes or list entries.
-/

namespace RegisterCode

/-- The nodes of a source unit. -/
structure NodeStore where
  /-- Expression nodes by number. -/
  exprs : Array Expr := #[]
  /-- Argument lists of calls, one behind the other. -/
  exprItems : Array ExprId := #[]
  /-- Statement nodes by number. -/
  stmts : Array Stmt := #[]
  /-- Bodies of blocks, one behind the other. -/
  stmtItems : Array StmtId := #[]
  deriving DecidableEq

namespace NodeStore

/-- A store without nodes. -/
def empty : NodeStore := {}

/-- Add an expression node. -/
def addExpr (store : NodeStore) (e : Expr) : ExprId × NodeStore :=
  (⟨store.exprs.size⟩, { store with exprs := store.exprs.push e })

/-- Add a statement node. -/
def addStmt (store : NodeStore) (s : Stmt) : StmtId × NodeStore :=
  (⟨store.stmts.size⟩, { store with stmts := store.stmts.push s })

/-- Add a list of expressions. -/
def addExprList (store : NodeStore) (ids : List ExprId) : Slice ExprId × NodeStore :=
  let (slice, items) := Slice.store store.exprItems ids
  (slice, { store with exprItems := items })

/-- Add a list of statements. -/
def addStmtList (store : NodeStore) (ids : List StmtId) : Slice StmtId × NodeStore :=
  let (slice, items) := Slice.store store.stmtItems ids
  (slice, { store with stmtItems := items })

/-- The expression node with this number. -/
def expr (store : NodeStore) (id : ExprId) : Except Fault Expr :=
  match store.exprs[id.index]? with
  | some e => .ok e
  | none => .error (.indexOutOfBounds store.exprs.size id.index)

/-- The statement node with this number. -/
def stmt (store : NodeStore) (id : StmtId) : Except Fault Stmt :=
  match store.stmts[id.index]? with
  | some s => .ok s
  | none => .error (.indexOutOfBounds store.stmts.size id.index)

/-- The expressions of a stored list. -/
def exprList (store : NodeStore) (slice : Slice ExprId) : Except Fault (List ExprId) :=
  slice.read store.exprItems

/-- The statements of a stored list. -/
def stmtList (store : NodeStore) (slice : Slice StmtId) : Except Fault (List StmtId) :=
  slice.read store.stmtItems

/-! ## Lemmas -/

@[simp]
theorem expr_addExpr (store : NodeStore) (e : Expr) :
    (store.addExpr e).2.expr (store.addExpr e).1 = .ok e := by
  simp [addExpr, expr]

@[simp]
theorem stmt_addStmt (store : NodeStore) (s : Stmt) :
    (store.addStmt s).2.stmt (store.addStmt s).1 = .ok s := by
  simp [addStmt, stmt]

@[simp]
theorem exprList_addExprList (store : NodeStore) (ids : List ExprId) :
    (store.addExprList ids).2.exprList (store.addExprList ids).1 = .ok ids :=
  Slice.read_store store.exprItems ids

@[simp]
theorem stmtList_addStmtList (store : NodeStore) (ids : List StmtId) :
    (store.addStmtList ids).2.stmtList (store.addStmtList ids).1 = .ok ids :=
  Slice.read_store store.stmtItems ids

end NodeStore

end RegisterCode
