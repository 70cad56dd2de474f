import RegisterCode.Proofs.Growth

/-!
# Building and reading back

A program as it is written is a tree with texts for names. To build it, its parts are built from
left to right and then the node itself (`WrittenExpr.build`, `WrittenStmt.build`). What a builder
makes of it is a node in a store, which stands for a tree of nodes again; with the texts of its
names that tree is written the same way (`ExprTree.written?`, `StmtTree.written?`).

The argument has two halves. A tree is stored if all its nodes are where it says, each behind the
nodes below it (`ExprTree.Stored`, `StmtTree.Stored`). A stored tree is what unfolding its root
gives, and stays stored when the store grows; building stores a tree that is written as it should
be and whose nodes are numbered in the order of their making (`WrittenExpr.exists_made`,
`WrittenStmt.exists_made`).

Result: `build_read_back`.
-/

namespace RegisterCode

/-! ## Programs as they are written -/

/-- An expression as it is written. -/
inductive WrittenExpr where
  | ident (name : String)
  | int (value : Int)
  | binary (op : BinaryOp) (left right : WrittenExpr)
  | unary (op : UnaryOp) (operand : WrittenExpr)
  | paren (inner : WrittenExpr)
  | call (callee : String) (args : List WrittenExpr)
  | error

/-- A statement as it is written. -/
inductive WrittenStmt where
  | var (name : String) (init : Option WrittenExpr)
  | assign (target : String) (value : WrittenExpr)
  | block (body : List WrittenStmt)
  | expr (value : WrittenExpr)
  | error

mutual

/-- Build an expression: first its parts, from left to right. -/
def WrittenExpr.build : WrittenExpr → BuildM ExprId
  | .ident name => Builder.ident name
  | .int value => Builder.int value
  | .binary op left right => do
    let left ← left.build
    let right ← right.build
    Builder.binary op left right
  | .unary op operand => do
    let operand ← operand.build
    Builder.unary op operand
  | .paren inner => do
    let inner ← inner.build
    Builder.paren inner
  | .call callee args => do
    let args ← WrittenExpr.buildAll args
    Builder.call callee args
  | .error => Builder.errorExpr

/-- Build expressions one after the other. -/
def WrittenExpr.buildAll : List WrittenExpr → BuildM (List ExprId)
  | [] => return []
  | t :: ts => do
    let id ← t.build
    let ids ← WrittenExpr.buildAll ts
    return id :: ids

end

mutual

/-- Build a statement: first its parts, from left to right. -/
def WrittenStmt.build : WrittenStmt → BuildM StmtId
  | .var name none => Builder.var name none
  | .var name (some init) => do
    let init ← init.build
    Builder.var name (some init)
  | .assign target value => do
    let value ← value.build
    Builder.assign target value
  | .block body => do
    let body ← WrittenStmt.buildAll body
    Builder.block body
  | .expr value => do
    let value ← value.build
    Builder.exprStmt value
  | .error => Builder.errorStmt

/-- Build statements one after the other. -/
def WrittenStmt.buildAll : List WrittenStmt → BuildM (List StmtId)
  | [] => return []
  | t :: ts => do
    let id ← t.build
    let ids ← WrittenStmt.buildAll ts
    return id :: ids

end

mutual

/-- How a tree is written with these names, if all its names are among them. -/
def ExprTree.written? (names : NameTable) : ExprTree → Option WrittenExpr
  | .ident _ name => do
    let name ← (names.lookup name).toOption
    return .ident name
  | .int _ value => some (.int value)
  | .binary _ op left right => do
    let left ← left.written? names
    let right ← right.written? names
    return .binary op left right
  | .unary _ op operand => do
    let operand ← operand.written? names
    return .unary op operand
  | .paren _ inner => do
    let inner ← inner.written? names
    return .paren inner
  | .call _ callee args => do
    let callee ← (names.lookup callee).toOption
    let args ← ExprTree.writtenAll? names args
    return .call callee args
  | .error _ => some .error

/-- How trees are written with these names. -/
def ExprTree.writtenAll? (names : NameTable) : List ExprTree → Option (List WrittenExpr)
  | [] => some []
  | t :: ts => do
    let t ← t.written? names
    let ts ← ExprTree.writtenAll? names ts
    return t :: ts

end

mutual

/-- How a statement is written with these names, if all its names are among them. -/
def StmtTree.written? (names : NameTable) : StmtTree → Option WrittenStmt
  | .var _ name none => do
    let name ← (names.lookup name).toOption
    return .var name none
  | .var _ name (some init) => do
    let name ← (names.lookup name).toOption
    let init ← init.written? names
    return .var name (some init)
  | .assign _ target value => do
    let target ← (names.lookup target).toOption
    let value ← value.written? names
    return .assign target value
  | .block _ body => do
    let body ← StmtTree.writtenAll? names body
    return .block body
  | .expr _ value => do
    let value ← value.written? names
    return .expr value
  | .error _ => some .error

/-- How statements are written with these names. -/
def StmtTree.writtenAll? (names : NameTable) : List StmtTree → Option (List WrittenStmt)
  | [] => some []
  | t :: ts => do
    let t ← t.written? names
    let ts ← StmtTree.writtenAll? names ts
    return t :: ts

end

theorem InternTable.toOption_lookup (t : InternTable) (n : Name) :
    (t.lookup n).toOption = t.text? n := by
  unfold lookup
  cases t.text? n <;> rfl

theorem NameTable.text?_intern (t : NameTable) (s : String) :
    (t.intern s).2.text? (t.intern s).1 = some s :=
  InternTable.lookup_eq_ok_iff.mp (t.lookup_intern s)

/-! ### More names -/

section Names

variable {names names' : NameTable}

mutual

theorem ExprTree.written?_mono (hext : names.Extends names') :
    ∀ {tree : ExprTree} {t : WrittenExpr}, tree.written? names = some t →
      tree.written? names' = some t
  | .ident _ name, t, h => by
    simp only [written?, InternTable.toOption_lookup, Option.bind_eq_bind,
      Option.bind_eq_some_iff] at h ⊢
    obtain ⟨s, hs, ht⟩ := h
    exact ⟨s, hext _ _ hs, ht⟩
  | .int .., t, h => h
  | .binary _ op left right, t, h => by
    simp only [written?, Option.bind_eq_bind, Option.bind_eq_some_iff] at h ⊢
    obtain ⟨l, hl, r, hr, ht⟩ := h
    exact ⟨l, written?_mono hext hl, r, written?_mono hext hr, ht⟩
  | .unary _ op operand, t, h => by
    simp only [written?, Option.bind_eq_bind, Option.bind_eq_some_iff] at h ⊢
    obtain ⟨x, hx, ht⟩ := h
    exact ⟨x, written?_mono hext hx, ht⟩
  | .paren _ inner, t, h => by
    simp only [written?, Option.bind_eq_bind, Option.bind_eq_some_iff] at h ⊢
    obtain ⟨x, hx, ht⟩ := h
    exact ⟨x, written?_mono hext hx, ht⟩
  | .call _ callee args, t, h => by
    simp only [written?, InternTable.toOption_lookup, Option.bind_eq_bind,
      Option.bind_eq_some_iff] at h ⊢
    obtain ⟨s, hs, ts, hts, ht⟩ := h
    exact ⟨s, hext _ _ hs, ts, writtenAll?_mono hext hts, ht⟩
  | .error _, t, h => h

theorem ExprTree.writtenAll?_mono (hext : names.Extends names') :
    ∀ {trees : List ExprTree} {ts : List WrittenExpr}, writtenAll? names trees = some ts →
      writtenAll? names' trees = some ts
  | [], ts, h => h
  | tree :: trees, ts, h => by
    simp only [writtenAll?, Option.bind_eq_bind, Option.bind_eq_some_iff] at h ⊢
    obtain ⟨t, ht, rest, hrest, hts⟩ := h
    exact ⟨t, written?_mono hext ht, rest, writtenAll?_mono hext hrest, hts⟩

end

mutual

theorem StmtTree.written?_mono (hext : names.Extends names') :
    ∀ {tree : StmtTree} {t : WrittenStmt}, tree.written? names = some t →
      tree.written? names' = some t
  | .var _ name none, t, h => by
    simp only [written?, InternTable.toOption_lookup, Option.bind_eq_bind,
      Option.bind_eq_some_iff] at h ⊢
    obtain ⟨s, hs, ht⟩ := h
    exact ⟨s, hext _ _ hs, ht⟩
  | .var _ name (some init), t, h => by
    simp only [written?, InternTable.toOption_lookup, Option.bind_eq_bind,
      Option.bind_eq_some_iff] at h ⊢
    obtain ⟨s, hs, x, hx, ht⟩ := h
    exact ⟨s, hext _ _ hs, x, ExprTree.written?_mono hext hx, ht⟩
  | .assign _ target value, t, h => by
    simp only [written?, InternTable.toOption_lookup, Option.bind_eq_bind,
      Option.bind_eq_some_iff] at h ⊢
    obtain ⟨s, hs, x, hx, ht⟩ := h
    exact ⟨s, hext _ _ hs, x, ExprTree.written?_mono hext hx, ht⟩
  | .block _ body, t, h => by
    simp only [written?, Option.bind_eq_bind, Option.bind_eq_some_iff] at h ⊢
    obtain ⟨ts, hts, ht⟩ := h
    exact ⟨ts, writtenAll?_mono hext hts, ht⟩
  | .expr _ value, t, h => by
    simp only [written?, Option.bind_eq_bind, Option.bind_eq_some_iff] at h ⊢
    obtain ⟨x, hx, ht⟩ := h
    exact ⟨x, ExprTree.written?_mono hext hx, ht⟩
  | .error _, t, h => h

theorem StmtTree.writtenAll?_mono (hext : names.Extends names') :
    ∀ {trees : List StmtTree} {ts : List WrittenStmt}, writtenAll? names trees = some ts →
      writtenAll? names' trees = some ts
  | [], ts, h => h
  | tree :: trees, ts, h => by
    simp only [writtenAll?, Option.bind_eq_bind, Option.bind_eq_some_iff] at h ⊢
    obtain ⟨t, ht, rest, hrest, hts⟩ := h
    exact ⟨t, written?_mono hext ht, rest, writtenAll?_mono hext hrest, hts⟩

end

end Names

/-! ## Where the nodes of a tree stand -/

/-- The node at the root. -/
def ExprTree.site : ExprTree → Site ExprId
  | .ident site _ | .int site _ | .binary site .. | .unary site .. | .paren site _
  | .call site .. | .error site => site

/-- The node at the root. -/
def StmtTree.site : StmtTree → Site StmtId
  | .var site .. | .assign site .. | .block site _ | .expr site _ | .error site => site

mutual

/-- The spans of the nodes, those below a node before its own. -/
def ExprTree.spans : ExprTree → List Span
  | .ident site _ | .int site _ | .error site => [site.span]
  | .binary site _ left right => left.spans ++ right.spans ++ [site.span]
  | .unary site _ operand => operand.spans ++ [site.span]
  | .paren site inner => inner.spans ++ [site.span]
  | .call site _ args => ExprTree.spansAll args ++ [site.span]

/-- The spans of the nodes of all the trees. -/
def ExprTree.spansAll : List ExprTree → List Span
  | [] => []
  | t :: ts => t.spans ++ ExprTree.spansAll ts

end

mutual

/-- The spans of the nodes, expressions included, those below a node before its own. -/
def StmtTree.spans : StmtTree → List Span
  | .var site _ init => init.elim [] ExprTree.spans ++ [site.span]
  | .assign site _ value => value.spans ++ [site.span]
  | .block site body => StmtTree.spansAll body ++ [site.span]
  | .expr site value => value.spans ++ [site.span]
  | .error site => [site.span]

/-- The spans of the nodes of all the statements. -/
def StmtTree.spansAll : List StmtTree → List Span
  | [] => []
  | t :: ts => t.spans ++ StmtTree.spansAll ts

end

/-- From `b` to `b'` nodes were made at these spans, one at each position. -/
structure Builder.Takes (b : Builder) (spans : List Span) (b' : Builder) : Prop where
  extends_ : b.Extends b'
  numbered : spans = (List.range' b.position spans.length).map .single
  position : b'.position = b.position + spans.length

namespace Builder.Takes

variable {b b₁ b' : Builder} {spans spans' : List Span}

/-- Without a new node. -/
theorem none (h : b.Extends b') (hp : b'.position = b.position) : b.Takes [] b' :=
  ⟨h, rfl, hp⟩

theorem refl (b : Builder) : b.Takes [] b := none (Builder.Extends.refl b) rfl

theorem trans (h : b.Takes spans b₁) (h' : b₁.Takes spans' b') : b.Takes (spans ++ spans') b' where
  extends_ := h.extends_.trans h'.extends_
  numbered := by
    rw [List.length_append, ← List.range'_append_1, List.map_append, ← h.position, ← h.numbered,
      ← h'.numbered]
  position := by rw [h'.position, h.position, List.length_append, Nat.add_assoc]

/-- Followed by steps without a new node. -/
theorem silent (h : b.Takes spans b₁) (h' : b₁.Takes [] b') : b.Takes spans b' :=
  List.append_nil spans ▸ h.trans h'

/-- With one more node. -/
theorem snoc (h : b.Takes spans b₁) (hext : b₁.Extends b') (hp : b'.position = b₁.position + 1) :
    b.Takes (spans ++ [.single b₁.position]) b' :=
  h.trans ⟨hext, rfl, hp⟩

end Builder.Takes

/-! ## Stored trees -/

/-- The nodes of the tree are in the store, every node behind those below it. -/
inductive ExprTree.Stored (store : NodeStore) : ExprTree → Prop where
  | ident {site : Site ExprId} {name : Name}
      (node : store.expr site.id = .ok ⟨.ident name, site.span⟩) : Stored store (.ident site name)
  | int {site : Site ExprId} {value : Int}
      (node : store.expr site.id = .ok ⟨.int value, site.span⟩) : Stored store (.int site value)
  | binary {site : Site ExprId} {op : BinaryOp} {left right : ExprTree}
      (node : store.expr site.id = .ok ⟨.binary op left.site.id right.site.id, site.span⟩)
      (left_lt : left.site.id.index < site.id.index)
      (right_lt : right.site.id.index < site.id.index)
      (left_stored : Stored store left) (right_stored : Stored store right) :
      Stored store (.binary site op left right)
  | unary {site : Site ExprId} {op : UnaryOp} {operand : ExprTree}
      (node : store.expr site.id = .ok ⟨.unary op operand.site.id, site.span⟩)
      (operand_lt : operand.site.id.index < site.id.index)
      (operand_stored : Stored store operand) : Stored store (.unary site op operand)
  | paren {site : Site ExprId} {inner : ExprTree}
      (node : store.expr site.id = .ok ⟨.paren inner.site.id, site.span⟩)
      (inner_lt : inner.site.id.index < site.id.index)
      (inner_stored : Stored store inner) : Stored store (.paren site inner)
  | call {site : Site ExprId} {callee : Name} {args : List ExprTree} {slice : Slice ExprId}
      (node : store.expr site.id = .ok ⟨.call callee slice, site.span⟩)
      (items : store.exprList slice = .ok (args.map (·.site.id)))
      (args_lt : ∀ t ∈ args, t.site.id.index < site.id.index)
      (args_stored : ∀ t ∈ args, Stored store t) : Stored store (.call site callee args)
  | error {site : Site ExprId} (node : store.expr site.id = .ok ⟨.error, site.span⟩) :
      Stored store (.error site)

/-- The nodes of the statement are in the store, every node behind those below it. -/
inductive StmtTree.Stored (store : NodeStore) : StmtTree → Prop where
  | var {site : Site StmtId} {name : Name} {init : Option ExprTree}
      (node : store.stmt site.id = .ok ⟨.var name (init.map (·.site.id)), site.span⟩)
      (init_stored : ∀ t ∈ init, t.Stored store) : Stored store (.var site name init)
  | assign {site : Site StmtId} {target : Name} {value : ExprTree}
      (node : store.stmt site.id = .ok ⟨.assign target value.site.id, site.span⟩)
      (value_stored : value.Stored store) : Stored store (.assign site target value)
  | block {site : Site StmtId} {body : List StmtTree} {slice : Slice StmtId}
      (node : store.stmt site.id = .ok ⟨.block slice, site.span⟩)
      (items : store.stmtList slice = .ok (body.map (·.site.id)))
      (body_lt : ∀ t ∈ body, t.site.id.index < site.id.index)
      (body_stored : ∀ t ∈ body, Stored store t) : Stored store (.block site body)
  | expr {site : Site StmtId} {value : ExprTree}
      (node : store.stmt site.id = .ok ⟨.expr value.site.id, site.span⟩)
      (value_stored : value.Stored store) : Stored store (.expr site value)
  | error {site : Site StmtId} (node : store.stmt site.id = .ok ⟨.error, site.span⟩) :
      Stored store (.error site)

theorem forall_lt_of_succ {i : Nat} {P : Nat → Prop} (h : ∀ level, i ≤ level → P (level + 1)) :
    ∀ level, i < level → P level
  | level + 1, hlt => h level (Nat.le_of_lt_succ hlt)

namespace ExprTree.Stored

variable {store store' : NodeStore} {tree : ExprTree}

theorem exists_node (h : tree.Stored store) : ∃ e, store.expr tree.site.id = .ok e := by
  cases h <;> exact ⟨_, ‹_›⟩

theorem index_lt (h : tree.Stored store) : tree.site.id.index < store.exprs.size :=
  have ⟨_, he⟩ := h.exists_node
  NodeStore.index_lt_of_expr he

theorem mono (h : tree.Stored store) (hext : store.Extends store') : tree.Stored store' := by
  induction h with
  | ident node => exact .ident (hext.expr node)
  | int node => exact .int (hext.expr node)
  | binary node left_lt right_lt _ _ ihl ihr =>
    exact .binary (hext.expr node) left_lt right_lt ihl ihr
  | unary node operand_lt _ ih => exact .unary (hext.expr node) operand_lt ih
  | paren node inner_lt _ ih => exact .paren (hext.expr node) inner_lt ih
  | call node items args_lt _ ih =>
    exact .call (hext.expr node) (hext.exprList items) args_lt ih
  | error node => exact .error (hext.expr node)

/-- A stored tree is unfolded in as many levels as there are nodes up to its root. -/
theorem unfoldExpr (h : tree.Stored store) :
    ∀ level, tree.site.id.index < level → store.unfoldExpr level tree.site.id = some tree := by
  -- the parts of a node have smaller numbers, so one level less is enough for them
  induction h with
  | ident node =>
    exact forall_lt_of_succ fun level _ => NodeStore.unfoldExpr_succ.mpr (.ident node)
  | int node =>
    exact forall_lt_of_succ fun level _ => NodeStore.unfoldExpr_succ.mpr (.int node)
  | binary node left_lt right_lt _ _ ihl ihr =>
    refine forall_lt_of_succ fun level hle => ?_
    have hl := ihl level (Nat.lt_of_lt_of_le left_lt hle)
    have hr := ihr level (Nat.lt_of_lt_of_le right_lt hle)
    exact NodeStore.unfoldExpr_succ.mpr (.binary node hl hr)
  | unary node operand_lt _ ih =>
    refine forall_lt_of_succ fun level hle => ?_
    have hx := ih level (Nat.lt_of_lt_of_le operand_lt hle)
    exact NodeStore.unfoldExpr_succ.mpr (.unary node hx)
  | paren node inner_lt _ ih =>
    refine forall_lt_of_succ fun level hle => ?_
    have hx := ih level (Nat.lt_of_lt_of_le inner_lt hle)
    exact NodeStore.unfoldExpr_succ.mpr (.paren node hx)
  | call node items args_lt _ ih =>
    refine forall_lt_of_succ fun level hle => NodeStore.unfoldExpr_succ.mpr (.call node items ?_)
    refine List.forall₂_map_left_iff.mpr (List.forall₂_same.mpr fun t ht => ?_)
    exact ih t ht level (Nat.lt_of_lt_of_le (args_lt t ht) hle)
  | error node =>
    exact forall_lt_of_succ fun level _ => NodeStore.unfoldExpr_succ.mpr (.error node)

/-- **A stored tree is the tree below its root.** -/
theorem exprTree (h : tree.Stored store) : store.exprTree tree.site.id = some tree :=
  h.unfoldExpr _ (Nat.lt_succ_of_lt h.index_lt)

end ExprTree.Stored

namespace StmtTree.Stored

variable {store store' : NodeStore} {tree : StmtTree}

theorem exists_node (h : tree.Stored store) : ∃ s, store.stmt tree.site.id = .ok s := by
  cases h <;> exact ⟨_, ‹_›⟩

theorem index_lt (h : tree.Stored store) : tree.site.id.index < store.stmts.size :=
  have ⟨_, hs⟩ := h.exists_node
  NodeStore.index_lt_of_stmt hs

theorem mono (h : tree.Stored store) (hext : store.Extends store') : tree.Stored store' := by
  induction h with
  | var node init_stored =>
    exact .var (hext.stmt node) fun t ht => (init_stored t ht).mono hext
  | assign node value_stored => exact .assign (hext.stmt node) (value_stored.mono hext)
  | block node items body_lt _ ih =>
    exact .block (hext.stmt node) (hext.stmtList items) body_lt ih
  | expr node value_stored => exact .expr (hext.stmt node) (value_stored.mono hext)
  | error node => exact .error (hext.stmt node)

/-- A stored statement is unfolded in as many levels as there are nodes up to its root. -/
theorem unfoldStmt (h : tree.Stored store) :
    ∀ level, tree.site.id.index < level → store.unfoldStmt level tree.site.id = some tree := by
  induction h with
  | @var site name init node init_stored =>
    refine forall_lt_of_succ fun level _ => NodeStore.unfoldStmt_succ.mpr (.var node ?_)
    cases init with
    | none => rfl
    | some init => exact Option.map_eq_some_iff.mpr ⟨_, (init_stored init rfl).exprTree, rfl⟩
  | assign node value_stored =>
    exact forall_lt_of_succ fun level _ =>
      NodeStore.unfoldStmt_succ.mpr (.assign node value_stored.exprTree)
  | block node items body_lt _ ih =>
    refine forall_lt_of_succ fun level hle => NodeStore.unfoldStmt_succ.mpr (.block node items ?_)
    refine List.forall₂_map_left_iff.mpr (List.forall₂_same.mpr fun t ht => ?_)
    exact ih t ht level (Nat.lt_of_lt_of_le (body_lt t ht) hle)
  | expr node value_stored =>
    exact forall_lt_of_succ fun level _ =>
      NodeStore.unfoldStmt_succ.mpr (.expr node value_stored.exprTree)
  | error node =>
    exact forall_lt_of_succ fun level _ => NodeStore.unfoldStmt_succ.mpr (.error node)

/-- **A stored statement is the tree below its root.** -/
theorem stmtTree (h : tree.Stored store) : store.stmtTree tree.site.id = some tree :=
  h.unfoldStmt _ (Nat.lt_succ_of_lt h.index_lt)

end StmtTree.Stored

/-! ## Building -/

/-- The builder holds the tree, and with its names the tree is written as `t`. -/
structure ExprTree.Shows (tree : ExprTree) (b : Builder) (t : WrittenExpr) : Prop where
  stored : tree.Stored b.unit.nodes
  written : tree.written? b.names = some t

/-- The builder holds the trees, and with its names they are written as `ts`. -/
structure ExprTree.ShowAll (trees : List ExprTree) (b : Builder) (ts : List WrittenExpr) :
    Prop where
  stored : ∀ tree ∈ trees, tree.Stored b.unit.nodes
  written : writtenAll? b.names trees = some ts

/-- The builder holds the statement, and with its names it is written as `t`. -/
structure StmtTree.Shows (tree : StmtTree) (b : Builder) (t : WrittenStmt) : Prop where
  stored : tree.Stored b.unit.nodes
  written : tree.written? b.names = some t

/-- The builder holds the statements, and with its names they are written as `ts`. -/
structure StmtTree.ShowAll (trees : List StmtTree) (b : Builder) (ts : List WrittenStmt) :
    Prop where
  stored : ∀ tree ∈ trees, tree.Stored b.unit.nodes
  written : writtenAll? b.names trees = some ts

section Later

variable {b b' : Builder}

theorem ExprTree.Shows.mono {tree : ExprTree} {t : WrittenExpr} (h : tree.Shows b t)
    (hext : b.Extends b') : tree.Shows b' t :=
  ⟨h.stored.mono hext.nodes, written?_mono hext.names h.written⟩

theorem ExprTree.ShowAll.mono {trees : List ExprTree} {ts : List WrittenExpr}
    (h : ShowAll trees b ts) (hext : b.Extends b') : ShowAll trees b' ts :=
  ⟨fun tree ht => (h.stored tree ht).mono hext.nodes, writtenAll?_mono hext.names h.written⟩

theorem StmtTree.Shows.mono {tree : StmtTree} {t : WrittenStmt} (h : tree.Shows b t)
    (hext : b.Extends b') : tree.Shows b' t :=
  ⟨h.stored.mono hext.nodes, written?_mono hext.names h.written⟩

theorem StmtTree.ShowAll.mono {trees : List StmtTree} {ts : List WrittenStmt}
    (h : ShowAll trees b ts) (hext : b.Extends b') : ShowAll trees b' ts :=
  ⟨fun tree ht => (h.stored tree ht).mono hext.nodes, writtenAll?_mono hext.names h.written⟩

end Later

/-- Building went on from `b` and made `made`: the number `id`, new nodes at `spans`, and a builder
of which `shown` holds. -/
structure Builder.Makes {ι : Type} (b : Builder) (made : ι × Builder) (id : ι) (spans : List Span)
    (shown : Builder → Prop) : Prop where
  id_eq : made.1 = id
  shown : shown made.2
  takes : b.Takes spans made.2

/-- Going on from `b`, expression `t` was built, as this tree. -/
abbrev ExprTree.Made (tree : ExprTree) (t : WrittenExpr) (b : Builder)
    (made : ExprId × Builder) : Prop :=
  b.Makes made tree.site.id tree.spans (tree.Shows · t)

/-- Going on from `b`, expressions `ts` were built, as these trees. -/
abbrev ExprTree.AllMade (trees : List ExprTree) (ts : List WrittenExpr) (b : Builder)
    (made : List ExprId × Builder) : Prop :=
  b.Makes made (trees.map (·.site.id)) (spansAll trees) (ShowAll trees · ts)

/-- Going on from `b`, statement `t` was built, as this tree. -/
abbrev StmtTree.Made (tree : StmtTree) (t : WrittenStmt) (b : Builder)
    (made : StmtId × Builder) : Prop :=
  b.Makes made tree.site.id tree.spans (tree.Shows · t)

/-- Going on from `b`, statements `ts` were built, as these trees. -/
abbrev StmtTree.AllMade (trees : List StmtTree) (ts : List WrittenStmt) (b : Builder)
    (made : List StmtId × Builder) : Prop :=
  b.Makes made (trees.map (·.site.id)) (spansAll trees) (ShowAll trees · ts)

namespace Builder

/-- What is done to intern a text: a name with this text is there, and no node. -/
structure Interns (b : Builder) (text : String) (n : Name) (b' : Builder) : Prop where
  takes : b.Takes [] b'
  text_eq : b'.names.text? n = some text

theorem intern_interns (text : String) (b : Builder) :
    b.Interns text ((intern text).run b).1 ((intern text).run b).2 where
  takes := .none (intern_extends text b) rfl
  text_eq := b.names.text?_intern text

/-- What is done to store a list of expressions: it can be read, and there is no new node. -/
structure ListsExprs (b : Builder) (ids : List ExprId) (slice : Slice ExprId) (b' : Builder) :
    Prop where
  takes : b.Takes [] b'
  items : b'.unit.nodes.exprList slice = .ok ids

theorem exprList_lists (ids : List ExprId) (b : Builder) :
    b.ListsExprs ids ((onNodes (·.addExprList ids)).run b).1
      ((onNodes (·.addExprList ids)).run b).2 where
  takes := .none (exprList_extends ids b) rfl
  items := b.unit.nodes.exprList_addExprList ids

/-- What is done to store a list of statements: it can be read, and there is no new node. -/
structure ListsStmts (b : Builder) (ids : List StmtId) (slice : Slice StmtId) (b' : Builder) :
    Prop where
  takes : b.Takes [] b'
  items : b'.unit.nodes.stmtList slice = .ok ids

theorem stmtList_lists (ids : List StmtId) (b : Builder) :
    b.ListsStmts ids ((onNodes (·.addStmtList ids)).run b).1
      ((onNodes (·.addStmtList ids)).run b).2 where
  takes := .none (stmtList_extends ids b) rfl
  items := b.unit.nodes.stmtList_addStmtList ids

variable {b₀ b b' : Builder} {spans : List Span}

theorem AddsExpr.lt {kind : ExprKind} {id : ExprId} (h : b.AddsExpr kind id b') {tree : ExprTree}
    (ht : tree.Stored b.unit.nodes) : tree.site.id.index < id.index :=
  have ⟨_, he⟩ := ht.exists_node
  h.behind he

theorem AddsStmt.lt {kind : StmtKind} {id : StmtId} (h : b.AddsStmt kind id b') {tree : StmtTree}
    (ht : tree.Stored b.unit.nodes) : tree.site.id.index < id.index :=
  have ⟨_, hs⟩ := ht.exists_node
  h.behind hs

theorem AddsExpr.takes {kind : ExprKind} {id : ExprId} (h : b.AddsExpr kind id b')
    (hb : b₀.Takes spans b) : b₀.Takes (spans ++ [.single b.position]) b' :=
  hb.snoc h.extends_ h.position

theorem AddsStmt.takes {kind : StmtKind} {id : StmtId} (h : b.AddsStmt kind id b')
    (hb : b₀.Takes spans b) : b₀.Takes (spans ++ [.single b.position]) b' :=
  hb.snoc h.extends_ h.position

end Builder

/-! ### Expressions -/

namespace ExprTree

variable {b : Builder} {made made' : ExprId × Builder}

theorem exists_made_ident (name : String) (b : Builder) :
    ∃ tree, Made tree (.ident name) b ((Builder.ident name).run b) := by
  rw [Builder.ident, Builder.run_bind]
  have hnamed := Builder.intern_interns name b
  generalize (Builder.intern name).run b = named at hnamed ⊢
  have hadd := Builder.expr_adds (.ident named.1) named.2
  refine ⟨.ident ⟨_, _⟩ named.1, rfl, ⟨.ident hadd.node, ?_⟩, hadd.takes hnamed.takes⟩
  simp [written?, InternTable.toOption_lookup, hadd.extends_.names _ _ hnamed.text_eq]

theorem exists_made_int (value : Int) (b : Builder) :
    ∃ tree, Made tree (.int value) b ((Builder.int value).run b) :=
  have hadd := Builder.expr_adds (.int value) b
  ⟨.int ⟨_, _⟩ value, rfl, ⟨.int hadd.node, rfl⟩, hadd.takes (.refl b)⟩

theorem exists_made_error (b : Builder) : ∃ tree, Made tree .error b (Builder.errorExpr.run b) :=
  have hadd := Builder.expr_adds .error b
  ⟨.error ⟨_, _⟩, rfl, ⟨.error hadd.node, rfl⟩, hadd.takes (.refl b)⟩

theorem exists_made_binary (op : BinaryOp) {l r : ExprTree} {left right : WrittenExpr}
    (hl : l.Made left b made) (hr : r.Made right made.2 made') :
    ∃ tree, Made tree (.binary op left right) b
      ((Builder.binary op made.1 made'.1).run made'.2) := by
  have hadd := Builder.expr_adds (.binary op made.1 made'.1) made'.2
  -- the left operand is still there once the right one is built, and both are with the new node
  have hl₁ := hl.shown.mono hr.takes.extends_
  have hl₂ := hl₁.mono hadd.extends_
  have hr₂ := hr.shown.mono hadd.extends_
  refine ⟨.binary ⟨_, _⟩ op l r, rfl, ⟨?_, ?_⟩, hadd.takes (hl.takes.trans hr.takes)⟩
  · exact .binary (hl.id_eq ▸ hr.id_eq ▸ hadd.node) (hadd.lt hl₁.stored) (hadd.lt hr.shown.stored)
      hl₂.stored hr₂.stored
  · simp [written?, Builder.binary, hl₂.written, hr₂.written]

theorem exists_made_unary (op : UnaryOp) {x : ExprTree} {operand : WrittenExpr}
    (h : x.Made operand b made) :
    ∃ tree, Made tree (.unary op operand) b ((Builder.unary op made.1).run made.2) := by
  have hadd := Builder.expr_adds (.unary op made.1) made.2
  have hx := h.shown.mono hadd.extends_
  refine ⟨.unary ⟨_, _⟩ op x, rfl, ⟨?_, ?_⟩, hadd.takes h.takes⟩
  · exact .unary (h.id_eq ▸ hadd.node) (hadd.lt h.shown.stored) hx.stored
  · simp [written?, Builder.unary, hx.written]

theorem exists_made_paren {x : ExprTree} {inner : WrittenExpr} (h : x.Made inner b made) :
    ∃ tree, Made tree (.paren inner) b ((Builder.paren made.1).run made.2) := by
  have hadd := Builder.expr_adds (.paren made.1) made.2
  have hx := h.shown.mono hadd.extends_
  refine ⟨.paren ⟨_, _⟩ x, rfl, ⟨?_, ?_⟩, hadd.takes h.takes⟩
  · exact .paren (h.id_eq ▸ hadd.node) (hadd.lt h.shown.stored) hx.stored
  · simp [written?, Builder.paren, hx.written]

theorem exists_made_call (callee : String) {trees : List ExprTree} {args : List WrittenExpr}
    {made : List ExprId × Builder} (h : AllMade trees args b made) :
    ∃ tree, Made tree (.call callee args) b ((Builder.call callee made.1).run made.2) := by
  rw [Builder.call, Builder.run_bind, Builder.run_bind]
  have hnamed := Builder.intern_interns callee made.2
  generalize (Builder.intern callee).run made.2 = named at hnamed ⊢
  have hlisted := Builder.exprList_lists made.1 named.2
  generalize (Builder.onNodes (·.addExprList made.1)).run named.2 = listed at hlisted ⊢
  have hadd := Builder.expr_adds (.call named.1 listed.1) listed.2
  have hready := hnamed.takes.trans hlisted.takes
  have hargs := h.shown.mono hready.extends_
  have hargs' := hargs.mono hadd.extends_
  refine ⟨.call ⟨_, _⟩ named.1 trees, rfl, ⟨?_, ?_⟩, hadd.takes (h.takes.silent hready)⟩
  · exact .call hadd.node (h.id_eq ▸ hadd.extends_.nodes.exprList hlisted.items)
      (fun t ht => hadd.lt (hargs.stored t ht)) hargs'.stored
  · have htext := (hlisted.takes.extends_.trans hadd.extends_).names _ _ hnamed.text_eq
    simp [written?, InternTable.toOption_lookup, htext, hargs'.written]

theorem Made.cons {tree : ExprTree} {t : WrittenExpr} (h : tree.Made t b made)
    {trees : List ExprTree} {ts : List WrittenExpr} {all : List ExprId × Builder}
    (hs : AllMade trees ts made.2 all) :
    AllMade (tree :: trees) (t :: ts) b (made.1 :: all.1, all.2) where
  id_eq := by rw [h.id_eq, hs.id_eq, List.map_cons]
  shown := by
    have hfirst := h.shown.mono hs.takes.extends_
    refine ⟨List.forall_mem_cons.mpr ⟨hfirst.stored, hs.shown.stored⟩, ?_⟩
    simp [writtenAll?, hfirst.written, hs.shown.written]
  takes := h.takes.trans hs.takes

end ExprTree

namespace WrittenExpr

mutual

/-- **Building an expression stores a tree that is written like it.** -/
theorem exists_made : ∀ (t : WrittenExpr) (b : Builder),
    ∃ tree : ExprTree, tree.Made t b (t.build.run b)
  | .ident name, b => ExprTree.exists_made_ident name b
  | .int value, b => ExprTree.exists_made_int value b
  | .binary op left right, b => by
    obtain ⟨l, hl⟩ := exists_made left b
    obtain ⟨r, hr⟩ := exists_made right (left.build.run b).2
    exact ExprTree.exists_made_binary op hl hr
  | .unary op operand, b => by
    obtain ⟨x, hx⟩ := exists_made operand b
    exact ExprTree.exists_made_unary op hx
  | .paren inner, b => by
    obtain ⟨x, hx⟩ := exists_made inner b
    exact ExprTree.exists_made_paren hx
  | .call callee args, b => by
    obtain ⟨trees, h⟩ := exists_allMade args b
    exact ExprTree.exists_made_call callee h
  | .error, b => ExprTree.exists_made_error b

theorem exists_allMade : ∀ (ts : List WrittenExpr) (b : Builder),
    ∃ trees : List ExprTree, ExprTree.AllMade trees ts b ((buildAll ts).run b)
  | [], b => ⟨[], rfl, ⟨by simp, rfl⟩, .refl b⟩
  | t :: ts, b => by
    obtain ⟨tree, h⟩ := exists_made t b
    obtain ⟨trees, hs⟩ := exists_allMade ts (t.build.run b).2
    exact ⟨tree :: trees, h.cons hs⟩

end

end WrittenExpr

/-! ### Statements -/

namespace StmtTree

variable {b : Builder} {made : ExprId × Builder}

theorem exists_made_var (name : String) (b : Builder) :
    ∃ tree, Made tree (.var name none) b ((Builder.var name none).run b) := by
  rw [Builder.var, Builder.run_bind]
  have hnamed := Builder.intern_interns name b
  generalize (Builder.intern name).run b = named at hnamed ⊢
  have hadd := Builder.stmt_adds (.var named.1 none) named.2
  refine ⟨.var ⟨_, _⟩ named.1 none, rfl, ⟨.var hadd.node (by simp), ?_⟩, hadd.takes hnamed.takes⟩
  simp [written?, InternTable.toOption_lookup, hadd.extends_.names _ _ hnamed.text_eq]

theorem exists_made_varInit (name : String) {x : ExprTree} {init : WrittenExpr}
    (h : x.Made init b made) :
    ∃ tree, Made tree (.var name (some init)) b
      ((Builder.var name (some made.1)).run made.2) := by
  rw [Builder.var, Builder.run_bind]
  have hnamed := Builder.intern_interns name made.2
  generalize (Builder.intern name).run made.2 = named at hnamed ⊢
  have hadd := Builder.stmt_adds (.var named.1 (some made.1)) named.2
  have hx := h.shown.mono (hnamed.takes.extends_.trans hadd.extends_)
  refine ⟨.var ⟨_, _⟩ named.1 (some x), rfl, ⟨?_, ?_⟩, hadd.takes (h.takes.silent hnamed.takes)⟩
  · exact .var (by rw [Option.map_some, ← h.id_eq]; exact hadd.node) (by simpa using hx.stored)
  · have htext := hadd.extends_.names _ _ hnamed.text_eq
    simp [written?, InternTable.toOption_lookup, htext, hx.written]

theorem exists_made_assign (target : String) {x : ExprTree} {value : WrittenExpr}
    (h : x.Made value b made) :
    ∃ tree, Made tree (.assign target value) b
      ((Builder.assign target made.1).run made.2) := by
  rw [Builder.assign, Builder.run_bind]
  have hnamed := Builder.intern_interns target made.2
  generalize (Builder.intern target).run made.2 = named at hnamed ⊢
  have hadd := Builder.stmt_adds (.assign named.1 made.1) named.2
  have hx := h.shown.mono (hnamed.takes.extends_.trans hadd.extends_)
  refine ⟨.assign ⟨_, _⟩ named.1 x, rfl, ⟨?_, ?_⟩, hadd.takes (h.takes.silent hnamed.takes)⟩
  · exact .assign (h.id_eq ▸ hadd.node) hx.stored
  · have htext := hadd.extends_.names _ _ hnamed.text_eq
    simp [written?, InternTable.toOption_lookup, htext, hx.written]

theorem exists_made_expr {x : ExprTree} {value : WrittenExpr} (h : x.Made value b made) :
    ∃ tree, Made tree (.expr value) b ((Builder.exprStmt made.1).run made.2) := by
  have hadd := Builder.stmt_adds (.expr made.1) made.2
  have hx := h.shown.mono hadd.extends_
  refine ⟨.expr ⟨_, _⟩ x, rfl, ⟨?_, ?_⟩, hadd.takes h.takes⟩
  · exact .expr (h.id_eq ▸ hadd.node) hx.stored
  · simp [written?, Builder.exprStmt, hx.written]

theorem exists_made_error (b : Builder) : ∃ tree, Made tree .error b (Builder.errorStmt.run b) :=
  have hadd := Builder.stmt_adds .error b
  ⟨.error ⟨_, _⟩, rfl, ⟨.error hadd.node, rfl⟩, hadd.takes (.refl b)⟩

theorem exists_made_block {trees : List StmtTree} {body : List WrittenStmt}
    {made : List StmtId × Builder} (h : AllMade trees body b made) :
    ∃ tree, Made tree (.block body) b ((Builder.block made.1).run made.2) := by
  rw [Builder.block, Builder.run_bind]
  have hlisted := Builder.stmtList_lists made.1 made.2
  generalize (Builder.onNodes (·.addStmtList made.1)).run made.2 = listed at hlisted ⊢
  have hadd := Builder.stmt_adds (.block listed.1) listed.2
  have hbody := h.shown.mono hlisted.takes.extends_
  have hbody' := hbody.mono hadd.extends_
  refine ⟨.block ⟨_, _⟩ trees, rfl, ⟨?_, ?_⟩, hadd.takes (h.takes.silent hlisted.takes)⟩
  · exact .block hadd.node (h.id_eq ▸ hadd.extends_.nodes.stmtList hlisted.items)
      (fun t ht => hadd.lt (hbody.stored t ht)) hbody'.stored
  · simp [written?, hbody'.written]

theorem Made.cons {made : StmtId × Builder} {tree : StmtTree} {t : WrittenStmt}
    (h : tree.Made t b made) {trees : List StmtTree} {ts : List WrittenStmt}
    {all : List StmtId × Builder} (hs : AllMade trees ts made.2 all) :
    AllMade (tree :: trees) (t :: ts) b (made.1 :: all.1, all.2) where
  id_eq := by rw [h.id_eq, hs.id_eq, List.map_cons]
  shown := by
    have hfirst := h.shown.mono hs.takes.extends_
    refine ⟨List.forall_mem_cons.mpr ⟨hfirst.stored, hs.shown.stored⟩, ?_⟩
    simp [writtenAll?, hfirst.written, hs.shown.written]
  takes := h.takes.trans hs.takes

end StmtTree

namespace WrittenStmt

mutual

/-- **Building a statement stores a tree that is written like it.** -/
theorem exists_made : ∀ (t : WrittenStmt) (b : Builder),
    ∃ tree : StmtTree, tree.Made t b (t.build.run b)
  | .var name none, b => StmtTree.exists_made_var name b
  | .var name (some init), b => by
    obtain ⟨x, hx⟩ := init.exists_made b
    exact StmtTree.exists_made_varInit name hx
  | .assign target value, b => by
    obtain ⟨x, hx⟩ := value.exists_made b
    exact StmtTree.exists_made_assign target hx
  | .block body, b => by
    obtain ⟨trees, h⟩ := exists_allMade body b
    exact StmtTree.exists_made_block h
  | .expr value, b => by
    obtain ⟨x, hx⟩ := value.exists_made b
    exact StmtTree.exists_made_expr hx
  | .error, b => StmtTree.exists_made_error b

theorem exists_allMade : ∀ (ts : List WrittenStmt) (b : Builder),
    ∃ trees : List StmtTree, StmtTree.AllMade trees ts b ((buildAll ts).run b)
  | [], b => ⟨[], rfl, ⟨by simp, rfl⟩, .refl b⟩
  | t :: ts, b => by
    obtain ⟨tree, h⟩ := exists_made t b
    obtain ⟨trees, hs⟩ := exists_allMade ts (t.build.run b).2
    exact ⟨tree :: trees, h.cons hs⟩

end

end WrittenStmt

/-! ## Reading back -/

/-- **What is built is read back.** Build an expression or a statement with any builder, and let
anything be built and interned afterwards: from the returned number one unfolds a tree that is
written as it was, and its nodes, taken in the order in which they were made, stand at the
consecutive positions that began with the builder's next one. -/
theorem build_read_back (b : Builder) (later : List Activity) :
    (∀ t : WrittenExpr,
      let made := t.build.run b
      let final := later.foldl Activity.apply made.2
      ∃ tree, final.unit.nodes.exprTree made.1 = some tree ∧
        tree.written? final.names = some t ∧
        tree.spans = (List.range' b.position tree.spans.length).map Span.single ∧
        made.2.position = b.position + tree.spans.length) ∧
    ∀ t : WrittenStmt,
      let made := t.build.run b
      let final := later.foldl Activity.apply made.2
      ∃ tree, final.unit.nodes.stmtTree made.1 = some tree ∧
        tree.written? final.names = some t ∧
        tree.spans = (List.range' b.position tree.spans.length).map Span.single ∧
        made.2.position = b.position + tree.spans.length := by
  constructor
  · intro t made final
    obtain ⟨tree, hid, hshows, htakes⟩ := t.exists_made b
    have hfinal := hshows.mono (Activity.foldl_extends made.2 later)
    exact ⟨tree, hid ▸ hfinal.stored.exprTree, hfinal.written, htakes.numbered, htakes.position⟩
  · intro t made final
    obtain ⟨tree, hid, hshows, htakes⟩ := t.exists_made b
    have hfinal := hshows.mono (Activity.foldl_extends made.2 later)
    exact ⟨tree, hid ▸ hfinal.stored.stmtTree, hfinal.written, htakes.numbered, htakes.position⟩

end RegisterCode
