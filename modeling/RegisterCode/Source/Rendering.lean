import RegisterCode.Source.NodeStore

/-!
# Rendering nodes as source text

The display for diagnostics of sections 10.2 and 10.6 of the specification (`SPEC_FULL.md`). A node
is rendered on one line and close to how it would be written. This is for messages, so a tree is
shown down to a fixed depth only, and whatever lies deeper is shown as `...`. Every step counts
towards the depth, also that from a statement to its expression. The nodes of cut subtrees are not
read, hence cyclic nodes can be rendered too.

Results: beyond the limit nothing is read (`exprText_of_lt`, `stmtText_of_lt`), and an induction
over depths that starts there (`depth_induction`).

Out of scope: writing to a stream. A rendering is a string.
-/

namespace RegisterCode

namespace Rendering

/-- The greatest depth at which a node is shown; the node that is rendered is at depth `0`. -/
def maxDepth : Nat := 32

/-- What stands for a subtree that lies deeper. -/
def elided : String := "..."

/-- What stands for a node that marks an error in the source text. -/
def errorMark : String := "<error>"

/-- The text of an expression at the given depth. -/
def exprText (store : NodeStore) (names : NameTable) (depth : Nat) (id : ExprId) :
    Except Fault String :=
  if depth > maxDepth then .ok elided
  else do
    let e ← store.expr id
    match e.kind with
    | .ident name => names.lookup name
    | .int value => return toString value
    | .binary op left right =>
      let left ← exprText store names (depth + 1) left
      let right ← exprText store names (depth + 1) right
      return left ++ " " ++ op.symbol ++ " " ++ right
    | .unary op operand =>
      let operand ← exprText store names (depth + 1) operand
      return op.symbol ++ operand
    | .paren inner =>
      let inner ← exprText store names (depth + 1) inner
      return "(" ++ inner ++ ")"
    | .call callee args =>
      let callee ← names.lookup callee
      let args ← store.exprList args
      let args ← args.mapM (exprText store names (depth + 1))
      return callee ++ "(" ++ ", ".intercalate args ++ ")"
    | .error => return errorMark
termination_by maxDepth + 1 - depth

/-- The text of a statement at the given depth. -/
def stmtText (store : NodeStore) (names : NameTable) (depth : Nat) (id : StmtId) :
    Except Fault String :=
  if depth > maxDepth then .ok elided
  else do
    let s ← store.stmt id
    match s.kind with
    | .var name none =>
      let name ← names.lookup name
      return "var " ++ name
    | .var name (some init) =>
      let name ← names.lookup name
      let init ← exprText store names (depth + 1) init
      return "var " ++ name ++ " = " ++ init
    | .assign target value =>
      let target ← names.lookup target
      let value ← exprText store names (depth + 1) value
      return target ++ " = " ++ value
    | .block body =>
      let body ← store.stmtList body
      if body.isEmpty then
        return "\x7b\x7d"
      else
        let body ← body.mapM (stmtText store names (depth + 1))
        return "\x7b " ++ "; ".intercalate body ++ " \x7d"
    | .expr value => exprText store names (depth + 1) value
    | .error => return errorMark
termination_by maxDepth + 1 - depth

/-! ## Lemmas -/

section

variable {store : NodeStore} {names : NameTable} {depth : Nat}

theorem exprText_of_lt (h : maxDepth < depth) (id : ExprId) :
    exprText store names depth id = .ok elided := by
  rw [exprText, if_pos h]

theorem stmtText_of_lt (h : maxDepth < depth) (id : StmtId) :
    stmtText store names depth id = .ok elided := by
  rw [stmtText, if_pos h]

end

/-- What holds beyond the limit, and at each depth up to it if at the next one, holds at all
depths. -/
theorem depth_induction {P : Nat → Prop} (beyond : ∀ depth, maxDepth < depth → P depth)
    (step : ∀ depth, depth ≤ maxDepth → P (depth + 1) → P depth) (depth : Nat) : P depth := by
  by_cases h : depth ≤ maxDepth
  · exact step depth h (depth_induction beyond step (depth + 1))
  · exact beyond depth (Nat.lt_of_not_le h)
termination_by maxDepth + 1 - depth

end Rendering

namespace NodeStore

/-- The text of an expression as shown in messages. -/
def renderExpr (store : NodeStore) (names : NameTable) (id : ExprId) : Except Fault String :=
  Rendering.exprText store names 0 id

/-- The text of a statement as shown in messages. -/
def renderStmt (store : NodeStore) (names : NameTable) (id : StmtId) : Except Fault String :=
  Rendering.stmtText store names 0 id

end NodeStore

end RegisterCode
