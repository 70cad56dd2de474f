import RegisterCode.Proofs.Renaming

/-!
# Growth

Nothing that a builder has made is ever changed. A node that is added gets a number behind all
others, a list is stored behind all others, and a table of names grows at its end. So a builder
that goes on working can still read every node and list it could read before, and every name keeps
its text: the later builder extends the earlier one (`Builder.Extends`).

Results:
* `BuildStep.apply_extends`: every build step extends the builder.
* `Activity.foldl_extends`: so does any number of build steps and of names interned in between.
* `Builder.expr_adds`, `Builder.stmt_adds`: what adding a node does.
-/

namespace RegisterCode

/-! ## Stores -/

/-- What is stored behind a list does not change it. -/
theorem Slice.read_append {α : Type} {s : Slice α} {table : Array α} {items : List α}
    (h : s.read table = .ok items) (more : List α) : s.read (table ++ more) = .ok items := by
  obtain ⟨hle, hitems⟩ := Slice.read_eq_ok_iff.mp h
  have hsize := Slice.size_append_list table more
  refine Slice.read_eq_ok_iff.mpr ⟨by omega, ?_⟩
  rw [← hitems]
  unfold Slice.items
  rw [Array.toList_extract, Array.toList_extract, Array.toList_appendList,
    List.extract_eq_take_drop, List.extract_eq_take_drop,
    List.drop_append_of_le_length (by rw [Array.length_toList]; omega),
    List.take_append_of_le_length (by rw [List.length_drop, Array.length_toList]; omega)]

namespace NodeStore

/-- All that can be read from the one store can be read from the other, and is the same. -/
structure Extends (store store' : NodeStore) : Prop where
  expr : ∀ {id e}, store.expr id = .ok e → store'.expr id = .ok e
  stmt : ∀ {id s}, store.stmt id = .ok s → store'.stmt id = .ok s
  exprList : ∀ {slice ids}, store.exprList slice = .ok ids → store'.exprList slice = .ok ids
  stmtList : ∀ {slice ids}, store.stmtList slice = .ok ids → store'.stmtList slice = .ok ids

theorem Extends.refl (store : NodeStore) : store.Extends store := ⟨id, id, id, id⟩

theorem Extends.trans {store store' store'' : NodeStore} (h : store.Extends store')
    (h' : store'.Extends store'') : store.Extends store'' where
  expr he := h'.expr (h.expr he)
  stmt hs := h'.stmt (h.stmt hs)
  exprList hl := h'.exprList (h.exprList hl)
  stmtList hl := h'.stmtList (h.stmtList hl)

theorem getElem?_push_of_some {α : Type} {table : Array α} {i : Nat} {a : α}
    (h : table[i]? = some a) (x : α) : (table.push x)[i]? = some a := by
  have hlt : i < table.size := (Array.getElem?_eq_some_iff.mp h).1
  rw [Array.getElem?_push, if_neg (by omega), h]

theorem addExpr_extends (store : NodeStore) (e : Expr) : store.Extends (store.addExpr e).2 where
  expr h := expr_eq_ok.mpr (getElem?_push_of_some (expr_eq_ok.mp h) e)
  stmt := id
  exprList := id
  stmtList := id

theorem addStmt_extends (store : NodeStore) (s : Stmt) : store.Extends (store.addStmt s).2 where
  expr := id
  stmt h := stmt_eq_ok.mpr (getElem?_push_of_some (stmt_eq_ok.mp h) s)
  exprList := id
  stmtList := id

theorem addExprList_extends (store : NodeStore) (ids : List ExprId) :
    store.Extends (store.addExprList ids).2 where
  expr := id
  stmt := id
  exprList h := Slice.read_append h ids
  stmtList := id

theorem addStmtList_extends (store : NodeStore) (ids : List StmtId) :
    store.Extends (store.addStmtList ids).2 where
  expr := id
  stmt := id
  exprList := id
  stmtList h := Slice.read_append h ids

end NodeStore

/-! ## Builders -/

namespace Builder

/-- Names, nodes and lists of the one builder are also there in the other. -/
structure Extends (b b' : Builder) : Prop where
  names : b.names.Extends b'.names
  nodes : b.unit.nodes.Extends b'.unit.nodes

theorem Extends.refl (b : Builder) : b.Extends b :=
  ⟨NameTable.Extends.refl _, NodeStore.Extends.refl _⟩

theorem Extends.trans {b b' b'' : Builder} (h : b.Extends b') (h' : b'.Extends b'') :
    b.Extends b'' :=
  ⟨h.names.trans h'.names, h.nodes.trans h'.nodes⟩

theorem run_bind {α β : Type} (x : BuildM α) (f : α → BuildM β) (b : Builder) :
    (x >>= f).run b = (f (x.run b).1).run (x.run b).2 := rfl

theorem intern_extends (s : String) (b : Builder) : b.Extends ((intern s).run b).2 :=
  ⟨b.names.intern_extends s, NodeStore.Extends.refl _⟩

theorem exprList_extends (ids : List ExprId) (b : Builder) :
    b.Extends ((onNodes (·.addExprList ids)).run b).2 :=
  ⟨NameTable.Extends.refl _, b.unit.nodes.addExprList_extends ids⟩

theorem stmtList_extends (ids : List StmtId) (b : Builder) :
    b.Extends ((onNodes (·.addStmtList ids)).run b).2 :=
  ⟨NameTable.Extends.refl _, b.unit.nodes.addStmtList_extends ids⟩

/-- What is done to add an expression: it stands behind all others, at the next position. -/
structure AddsExpr (b : Builder) (kind : ExprKind) (id : ExprId) (b' : Builder) : Prop where
  extends_ : b.Extends b'
  node : b'.unit.nodes.expr id = .ok ⟨kind, .single b.position⟩
  behind : ∀ {id' e}, b.unit.nodes.expr id' = .ok e → id'.index < id.index
  names : b'.names = b.names
  position : b'.position = b.position + 1

theorem expr_adds (kind : ExprKind) (b : Builder) :
    b.AddsExpr kind ((expr kind).run b).1 ((expr kind).run b).2 where
  extends_ := ⟨NameTable.Extends.refl _, b.unit.nodes.addExpr_extends _⟩
  node := b.unit.nodes.expr_addExpr _
  behind := NodeStore.index_lt_of_expr
  names := rfl
  position := rfl

/-- What is done to add a statement: it stands behind all others, at the next position. -/
structure AddsStmt (b : Builder) (kind : StmtKind) (id : StmtId) (b' : Builder) : Prop where
  extends_ : b.Extends b'
  node : b'.unit.nodes.stmt id = .ok ⟨kind, .single b.position⟩
  behind : ∀ {id' s}, b.unit.nodes.stmt id' = .ok s → id'.index < id.index
  names : b'.names = b.names
  position : b'.position = b.position + 1

theorem stmt_adds (kind : StmtKind) (b : Builder) :
    b.AddsStmt kind ((stmt kind).run b).1 ((stmt kind).run b).2 where
  extends_ := ⟨NameTable.Extends.refl _, b.unit.nodes.addStmt_extends _⟩
  node := b.unit.nodes.stmt_addStmt _
  behind := NodeStore.index_lt_of_stmt
  names := rfl
  position := rfl

theorem expr_extends (kind : ExprKind) (b : Builder) : b.Extends ((expr kind).run b).2 :=
  (expr_adds kind b).extends_

theorem stmt_extends (kind : StmtKind) (b : Builder) : b.Extends ((stmt kind).run b).2 :=
  (stmt_adds kind b).extends_

end Builder

/-- **A build step extends the builder.** -/
theorem BuildStep.apply_extends (b : Builder) (step : BuildStep) : b.Extends (step.apply b) := by
  cases step with
  | ident name => exact (Builder.intern_extends name b).trans (Builder.expr_extends _ _)
  | int value => exact Builder.expr_extends _ b
  | binary op left right => exact Builder.expr_extends _ b
  | unary op operand => exact Builder.expr_extends _ b
  | paren inner => exact Builder.expr_extends _ b
  | call callee args =>
    have hlist := (Builder.intern_extends callee b).trans (Builder.exprList_extends args _)
    exact hlist.trans (Builder.expr_extends _ _)
  | errorExpr => exact Builder.expr_extends _ b
  | var name init => exact (Builder.intern_extends name b).trans (Builder.stmt_extends _ _)
  | assign target value =>
    exact (Builder.intern_extends target b).trans (Builder.stmt_extends _ _)
  | exprStmt value => exact Builder.stmt_extends _ b
  | block body => exact (Builder.stmtList_extends body b).trans (Builder.stmt_extends _ _)
  | errorStmt => exact Builder.stmt_extends _ b
  | global name => exact ⟨b.names.intern_extends name, NodeStore.Extends.refl _⟩
  | function name body => exact ⟨b.names.intern_extends name, NodeStore.Extends.refl _⟩

/-- Something that may happen to a builder: a step of its own, or a text that is interned for
another purpose. -/
inductive Activity where
  | build (step : BuildStep)
  | intern (text : String)

namespace Activity

/-- The builder afterwards. -/
def apply (b : Builder) : Activity → Builder
  | .build step => step.apply b
  | .intern text => ((Builder.intern text).run b).2

theorem apply_extends (b : Builder) (a : Activity) : b.Extends (a.apply b) := by
  cases a with
  | build step => exact step.apply_extends b
  | intern text => exact Builder.intern_extends text b

/-- **Whatever is done with a builder extends it.** -/
theorem foldl_extends (b : Builder) (later : List Activity) :
    b.Extends (later.foldl apply b) := by
  induction later generalizing b with
  | nil => exact Builder.Extends.refl b
  | cons a later ih => exact (apply_extends b a).trans (ih (a.apply b))

end Activity

end RegisterCode
