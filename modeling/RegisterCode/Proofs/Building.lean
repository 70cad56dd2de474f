import RegisterCode.Proofs.Growth

/-!
# What a builder keeps

A builder is told to make one node or declaration after the other. As long as it is only given
numbers of nodes that it has handed out before, the unit is well formed at every point: a node holds
nodes with smaller numbers, and whatever a node or declaration refers to is there. Nothing is ever
changed, so a number that was handed out stands for the same node from then on, and a list for the
same numbers. Every call uses up one position, whatever it makes.

The store is treated by itself first. `NodeStore.Layered` says of each node that all it refers to is
there and that it stands above the nodes it holds; a store that grows stays layered if this is so
for the node that is new (`Layered.grow`).

Results:
* `Builder.WellBuilt`: the invariant. `WellBuilt.apply` is one call, `WellBuilt.foldl` any number.
* `BuildStep.denotes`: the number that a call returns stands for the node it was asked for.
* `builder_invariant`: all of it together.
-/

namespace RegisterCode

/-! ## Layered stores -/

theorem NameTable.Extends.index_lt {t t' : NameTable} (h : t.Extends t') {n : Name}
    (hn : n.index < t.size) : n.index < t'.size := by
  obtain ⟨text, htext⟩ := InternTable.exists_text hn
  exact (List.getElem?_eq_some_iff.mp (h n text htext)).1

theorem NameTable.index_intern_lt (t : NameTable) (text : String) :
    (t.intern text).1.index < (t.intern text).2.size :=
  (List.getElem?_eq_some_iff.mp (InternTable.lookup_eq_ok_iff.mp (t.lookup_intern text))).1

namespace NodeStore

variable {store store' : NodeStore} {names names' : NameTable}

/-- The node is there. -/
def Holds (store : NodeStore) : NodeId → Prop
  | .expr id => id.index < store.exprs.size
  | .stmt id => id.index < store.stmts.size

theorem Extends.holds (h : store.Extends store') (id : NodeId) (hid : store.Holds id) :
    store'.Holds id := by
  cases id with
  | expr id =>
    obtain ⟨e, he⟩ := exists_expr hid
    exact index_lt_of_expr (h.expr he)
  | stmt id =>
    obtain ⟨s, hs⟩ := exists_stmt hid
    exact index_lt_of_stmt (h.stmt hs)

/-- A list of expressions that is there stays the same. -/
theorem Extends.exprItems (h : store.Extends store') {slice : Slice ExprId}
    (hs : slice.start + slice.length ≤ store.exprItems.size) :
    slice.start + slice.length ≤ store'.exprItems.size ∧
      slice.items store'.exprItems = slice.items store.exprItems :=
  Slice.read_eq_ok_iff.mp (h.exprList (Slice.read_eq_items hs))

/-- A list of statements that is there stays the same. -/
theorem Extends.stmtItems (h : store.Extends store') {slice : Slice StmtId}
    (hs : slice.start + slice.length ≤ store.stmtItems.size) :
    slice.start + slice.length ≤ store'.stmtItems.size ∧
      slice.items store'.stmtItems = slice.items store.stmtItems :=
  Slice.read_eq_ok_iff.mp (h.stmtList (Slice.read_eq_items hs))

end NodeStore

section Kinds

variable {store store' : NodeStore} {names names' : NameTable}

/-- What an expression refers to stays there. -/
theorem ExprKind.InBounds.extend {kind : ExprKind} (h : kind.InBounds store names)
    (hstore : store.Extends store') (hnames : names.Extends names') :
    kind.InBounds store' names' ∧ kind.children store' = kind.children store := by
  obtain ⟨hchildren, hkind⟩ := h
  have hsame : kind.children store' = kind.children store := by
    cases kind with
    | call f args => exact (hstore.exprItems hkind.2).2
    | ident | int | binary | unary | paren | error => rfl
  refine ⟨⟨fun c hc => ?_, ?_⟩, hsame⟩
  · rw [hsame] at hc
    exact hstore.holds (.expr c) (hchildren c hc)
  · cases kind with
    | ident n => exact hnames.index_lt hkind
    | call f args => exact ⟨hnames.index_lt hkind.1, (hstore.exprItems hkind.2).1⟩
    | int | binary | unary | paren | error => trivial

/-- What a statement refers to stays there. -/
theorem StmtKind.InBounds.extend {kind : StmtKind} (h : kind.InBounds store names)
    (hstore : store.Extends store') (hnames : names.Extends names') :
    kind.InBounds store' names' ∧ kind.children store' = kind.children store := by
  obtain ⟨hchildren, hkind⟩ := h
  have hexpr : ∀ e : ExprId, e.index < store.exprs.size → e.index < store'.exprs.size :=
    fun e => hstore.holds (.expr e)
  have hsame : kind.children store' = kind.children store := by
    cases kind with
    | block body => exact (hstore.stmtItems hkind).2
    | var | assign | expr | error => rfl
  refine ⟨⟨fun c hc => ?_, ?_⟩, hsame⟩
  · rw [hsame] at hc
    exact hstore.holds (.stmt c) (hchildren c hc)
  · cases kind with
    | var n init =>
      cases init with
      | none => exact hnames.index_lt hkind
      | some init => exact ⟨hnames.index_lt hkind.1, hexpr init hkind.2⟩
    | assign n value => exact ⟨hnames.index_lt hkind.1, hexpr value hkind.2⟩
    | block body => exact (hstore.stmtItems hkind).1
    | expr value => exact hexpr value hkind
    | error => trivial

end Kinds

namespace NodeStore

variable {store store' : NodeStore} {names names' : NameTable}

/-- An expression under this number is fine: all it refers to is there, and it stands above the
nodes it holds. -/
def ExprFits (store : NodeStore) (names : NameTable) (id : ExprId) (e : Expr) : Prop :=
  e.kind.InBounds store names ∧ ∀ c ∈ e.kind.children store, c.index < id.index

/-- The same for a statement. -/
def StmtFits (store : NodeStore) (names : NameTable) (id : StmtId) (s : Stmt) : Prop :=
  s.kind.InBounds store names ∧ ∀ c ∈ s.kind.children store, c.index < id.index

/-- All nodes are fine. -/
structure Layered (store : NodeStore) (names : NameTable) : Prop where
  exprs : ∀ {id e}, store.expr id = .ok e → store.ExprFits names id e
  stmts : ∀ {id s}, store.stmt id = .ok s → store.StmtFits names id s

theorem layered_iff : store.Layered names ↔ store.InBounds names ∧ store.Descending := by
  constructor
  · intro h
    have hexpr : ∀ i (hi : i < store.exprs.size), store.ExprFits names ⟨i⟩ store.exprs[i] :=
      fun i hi => h.exprs (expr_eq_ok.mpr (Array.getElem?_eq_getElem hi))
    have hstmt : ∀ i (hi : i < store.stmts.size), store.StmtFits names ⟨i⟩ store.stmts[i] :=
      fun i hi => h.stmts (stmt_eq_ok.mpr (Array.getElem?_eq_getElem hi))
    refine ⟨⟨fun e he => ?_, fun s hs => ?_⟩,
      ⟨fun i hi => (hexpr i hi).2, fun i hi => (hstmt i hi).2⟩⟩
    · obtain ⟨i, hi, rfl⟩ := Array.mem_iff_getElem.mp he
      exact (hexpr i hi).1
    · obtain ⟨i, hi, rfl⟩ := Array.mem_iff_getElem.mp hs
      exact (hstmt i hi).1
  · rintro ⟨hbounds, hdescending⟩
    refine ⟨fun {id e} he => ⟨hbounds.expr he, ?_⟩, fun {id s} hs => ⟨hbounds.stmt hs, ?_⟩⟩
    · obtain ⟨hlt, rfl⟩ := Array.getElem?_eq_some_iff.mp (expr_eq_ok.mp he)
      exact hdescending.exprs id.index hlt
    · obtain ⟨hlt, rfl⟩ := Array.getElem?_eq_some_iff.mp (stmt_eq_ok.mp hs)
      exact hdescending.stmts id.index hlt

/-- A store that grows stays layered if its new nodes are fine. -/
theorem Layered.grow (h : store.Layered names) (hstore : store.Extends store')
    (hnames : names.Extends names')
    (exprs : ∀ {id e}, store'.expr id = .ok e →
      store.expr id = .ok e ∨ store'.ExprFits names' id e)
    (stmts : ∀ {id s}, store'.stmt id = .ok s →
      store.stmt id = .ok s ∨ store'.StmtFits names' id s) :
    store'.Layered names' := by
  constructor
  · intro id e he
    rcases exprs he with hold | hnew
    · obtain ⟨hkind, hbelow⟩ := h.exprs hold
      obtain ⟨hkind', hsame⟩ := hkind.extend hstore hnames
      exact ⟨hkind', hsame ▸ hbelow⟩
    · exact hnew
  · intro id s hs
    rcases stmts hs with hold | hnew
    · obtain ⟨hkind, hbelow⟩ := h.stmts hold
      obtain ⟨hkind', hsame⟩ := hkind.extend hstore hnames
      exact ⟨hkind', hsame ▸ hbelow⟩
    · exact hnew

/-- A new expression stands above all others. -/
theorem Layered.addExpr (h : store.Layered names) {e : Expr} (hkind : e.kind.InBounds store names) :
    (store.addExpr e).2.Layered names := by
  have hgrows := store.addExpr_extends e
  refine h.grow hgrows (NameTable.Extends.refl names) (fun {id e'} he => ?_) fun hs => .inl hs
  have hread : (store.exprs.push e)[id.index]? = some e' := expr_eq_ok.mp he
  rw [Array.getElem?_push] at hread
  split at hread
  · next hnew =>
    obtain rfl := Option.some.inj hread
    obtain ⟨hkind', hsame⟩ := hkind.extend hgrows (NameTable.Extends.refl names)
    refine .inr ⟨hkind', fun c hc => ?_⟩
    rw [hsame] at hc
    exact hnew ▸ hkind.1 c hc
  · exact .inl (expr_eq_ok.mpr hread)

/-- A new statement stands above all others. -/
theorem Layered.addStmt (h : store.Layered names) {s : Stmt} (hkind : s.kind.InBounds store names) :
    (store.addStmt s).2.Layered names := by
  have hgrows := store.addStmt_extends s
  refine h.grow hgrows (NameTable.Extends.refl names) (fun he => .inl he) fun {id s'} hs => ?_
  have hread : (store.stmts.push s)[id.index]? = some s' := stmt_eq_ok.mp hs
  rw [Array.getElem?_push] at hread
  split at hread
  · next hnew =>
    obtain rfl := Option.some.inj hread
    obtain ⟨hkind', hsame⟩ := hkind.extend hgrows (NameTable.Extends.refl names)
    refine .inr ⟨hkind', fun c hc => ?_⟩
    rw [hsame] at hc
    exact hnew ▸ hkind.1 c hc
  · exact .inl (stmt_eq_ok.mpr hread)

end NodeStore

/-! ## Calls -/

namespace BuildStep

/-- The numbers that are passed to a call. -/
def uses : BuildStep → List NodeId
  | .binary _ left right => [.expr left, .expr right]
  | .unary _ operand => [.expr operand]
  | .paren inner => [.expr inner]
  | .call _ args => args.map .expr
  | .var _ init => init.toList.map .expr
  | .assign _ value | .exprStmt value => [.expr value]
  | .block body => body.map .stmt
  | .function _ body => body.toList.map .stmt
  | .ident _ | .int _ | .errorExpr | .errorStmt | .global _ => []

/-- The number that a call returns. -/
def returns (b : Builder) : BuildStep → Option NodeId
  | .ident name => some (.expr ((Builder.ident name).run b).1)
  | .int value => some (.expr ((Builder.int value).run b).1)
  | .binary op left right => some (.expr ((Builder.binary op left right).run b).1)
  | .unary op operand => some (.expr ((Builder.unary op operand).run b).1)
  | .paren inner => some (.expr ((Builder.paren inner).run b).1)
  | .call callee args => some (.expr ((Builder.call callee args).run b).1)
  | .errorExpr => some (.expr (Builder.errorExpr.run b).1)
  | .var name init => some (.stmt ((Builder.var name init).run b).1)
  | .assign target value => some (.stmt ((Builder.assign target value).run b).1)
  | .exprStmt value => some (.stmt ((Builder.exprStmt value).run b).1)
  | .block body => some (.stmt ((Builder.block body).run b).1)
  | .errorStmt => some (.stmt (Builder.errorStmt.run b).1)
  | .global _ | .function .. => none

/-- `Denotes names store span step id`: under the number `id` there is the node that `step` asks
for, at `span`. -/
inductive Denotes (names : NameTable) (store : NodeStore) (span : Span) :
    BuildStep → NodeId → Prop where
  | ident {id : ExprId} {n : Name} {text : String} (named : names.text? n = some text)
      (node : store.expr id = .ok ⟨.ident n, span⟩) :
      Denotes names store span (.ident text) (.expr id)
  | int {id : ExprId} {value : Int} (node : store.expr id = .ok ⟨.int value, span⟩) :
      Denotes names store span (.int value) (.expr id)
  | binary {id left right : ExprId} {op : BinaryOp}
      (node : store.expr id = .ok ⟨.binary op left right, span⟩) :
      Denotes names store span (.binary op left right) (.expr id)
  | unary {id operand : ExprId} {op : UnaryOp}
      (node : store.expr id = .ok ⟨.unary op operand, span⟩) :
      Denotes names store span (.unary op operand) (.expr id)
  | paren {id inner : ExprId} (node : store.expr id = .ok ⟨.paren inner, span⟩) :
      Denotes names store span (.paren inner) (.expr id)
  | call {id : ExprId} {n : Name} {text : String} {slice : Slice ExprId} {args : List ExprId}
      (named : names.text? n = some text) (node : store.expr id = .ok ⟨.call n slice, span⟩)
      (listed : store.exprList slice = .ok args) :
      Denotes names store span (.call text args) (.expr id)
  | errorExpr {id : ExprId} (node : store.expr id = .ok ⟨.error, span⟩) :
      Denotes names store span .errorExpr (.expr id)
  | var {id : StmtId} {n : Name} {text : String} {init : Option ExprId}
      (named : names.text? n = some text) (node : store.stmt id = .ok ⟨.var n init, span⟩) :
      Denotes names store span (.var text init) (.stmt id)
  | assign {id : StmtId} {n : Name} {text : String} {value : ExprId}
      (named : names.text? n = some text) (node : store.stmt id = .ok ⟨.assign n value, span⟩) :
      Denotes names store span (.assign text value) (.stmt id)
  | exprStmt {id : StmtId} {value : ExprId} (node : store.stmt id = .ok ⟨.expr value, span⟩) :
      Denotes names store span (.exprStmt value) (.stmt id)
  | block {id : StmtId} {slice : Slice StmtId} {body : List StmtId}
      (node : store.stmt id = .ok ⟨.block slice, span⟩)
      (listed : store.stmtList slice = .ok body) :
      Denotes names store span (.block body) (.stmt id)
  | errorStmt {id : StmtId} (node : store.stmt id = .ok ⟨.error, span⟩) :
      Denotes names store span .errorStmt (.stmt id)

/-- A number goes on standing for its node. -/
theorem Denotes.extend {names names' : NameTable} {store store' : NodeStore} {span : Span}
    {step : BuildStep} {id : NodeId} (h : Denotes names store span step id)
    (hstore : store.Extends store') (hnames : names.Extends names') :
    Denotes names' store' span step id := by
  cases h with
  | ident named node => exact .ident (hnames _ _ named) (hstore.expr node)
  | int node => exact .int (hstore.expr node)
  | binary node => exact .binary (hstore.expr node)
  | unary node => exact .unary (hstore.expr node)
  | paren node => exact .paren (hstore.expr node)
  | call named node listed =>
    exact .call (hnames _ _ named) (hstore.expr node) (hstore.exprList listed)
  | errorExpr node => exact .errorExpr (hstore.expr node)
  | var named node => exact .var (hnames _ _ named) (hstore.stmt node)
  | assign named node => exact .assign (hnames _ _ named) (hstore.stmt node)
  | exprStmt node => exact .exprStmt (hstore.stmt node)
  | block node listed => exact .block (hstore.stmt node) (hstore.stmtList listed)
  | errorStmt node => exact .errorStmt (hstore.stmt node)

theorem Denotes.holds {names : NameTable} {store : NodeStore} {span : Span} {step : BuildStep}
    {id : NodeId} (h : Denotes names store span step id) : store.Holds id := by
  cases h with
  | ident _ node | int node | binary node | unary node | paren node | call _ node
  | errorExpr node =>
    exact NodeStore.index_lt_of_expr node
  | var _ node | assign _ node | exprStmt node | block node | errorStmt node =>
    exact NodeStore.index_lt_of_stmt node

/-- **The number that a call returns stands for the node it was asked for.** -/
theorem denotes (b : Builder) (step : BuildStep) {id : NodeId} (h : step.returns b = some id) :
    Denotes (step.apply b).names (step.apply b).unit.nodes (.single b.position) step id := by
  have hnamed : ∀ text, (b.names.intern text).2.text? (b.names.intern text).1 = some text :=
    fun text => InternTable.lookup_eq_ok_iff.mp (b.names.lookup_intern text)
  cases step with
  | ident name =>
    cases h
    exact .ident (hnamed name) (NodeStore.expr_addExpr _ _)
  | int value =>
    cases h
    exact .int (NodeStore.expr_addExpr _ _)
  | binary op left right =>
    cases h
    exact .binary (NodeStore.expr_addExpr _ _)
  | unary op operand =>
    cases h
    exact .unary (NodeStore.expr_addExpr _ _)
  | paren inner =>
    cases h
    exact .paren (NodeStore.expr_addExpr _ _)
  | call callee args =>
    cases h
    exact .call (hnamed callee) (NodeStore.expr_addExpr _ _)
      (NodeStore.exprList_addExprList b.unit.nodes args)
  | errorExpr =>
    cases h
    exact .errorExpr (NodeStore.expr_addExpr _ _)
  | var name init =>
    cases h
    exact .var (hnamed name) (NodeStore.stmt_addStmt _ _)
  | assign target value =>
    cases h
    exact .assign (hnamed target) (NodeStore.stmt_addStmt _ _)
  | exprStmt value =>
    cases h
    exact .exprStmt (NodeStore.stmt_addStmt _ _)
  | block body =>
    cases h
    exact .block (NodeStore.stmt_addStmt _ _) (NodeStore.stmtList_addStmtList b.unit.nodes body)
  | errorStmt =>
    cases h
    exact .errorStmt (NodeStore.stmt_addStmt _ _)
  | global | function => cases h

end BuildStep

/-! ## The invariant -/

/-- The spans of all nodes and declarations. -/
def SourceUnit.spans (u : SourceUnit) : List Span :=
  u.nodes.exprs.toList.map (·.span) ++ (u.nodes.stmts.toList.map (·.span) ++
    (u.globals.map (·.span) ++ u.functions.map (·.span)))

/-- What is added to one of the lists is added to all of them together. -/
theorem perm_concat {α : Type} (f : α → Span) (l : List α) (a : α) (rest : List Span) :
    ((l ++ [a]).map f ++ rest).Perm (f a :: (l.map f ++ rest)) := by
  rw [List.map_append, List.append_assoc]
  exact List.perm_middle

namespace Builder

variable {b b' : Builder} {calls : Nat}

/-- After this number of calls all that is referred to is there, every node stands above those that
it holds, and every position up to the next one is that of one node or declaration. -/
structure WellBuilt (b : Builder) (calls : Nat) : Prop where
  inBounds : b.unit.InBounds b.names
  descending : b.unit.nodes.Descending
  spans : b.unit.spans.Perm ((List.range calls).map .single)
  position_eq : b.position = calls

theorem WellBuilt.layered (h : b.WellBuilt calls) : b.unit.nodes.Layered b.names :=
  NodeStore.layered_iff.mpr ⟨h.inBounds.nodes, h.descending⟩

/-- What the declarations of a unit refer to stays there. -/
theorem inBounds_of_extends (h : b.unit.InBounds b.names) (hext : b.Extends b')
    (hnodes : b'.unit.nodes.Layered b'.names) (hpackage : b'.unit.package = b.unit.package)
    (hglobals : b'.unit.globals = b.unit.globals)
    (hfunctions : b'.unit.functions = b.unit.functions) : b'.unit.InBounds b'.names where
  package := hpackage ▸ hext.names.index_lt h.package
  globals g hg := hext.names.index_lt (h.globals g (hglobals ▸ hg))
  functions f hf := hext.names.index_lt (h.functions f (hfunctions ▸ hf))
  bodies f hf id hid := hext.nodes.holds (.stmt id) (h.bodies f (hfunctions ▸ hf) id hid)
  nodes := (NodeStore.layered_iff.mp hnodes).1

/-- Names and lists were added, and nothing else. -/
structure Prepares (b b' : Builder) : Prop where
  extends_ : b.Extends b'
  exprs_eq : b'.unit.nodes.exprs = b.unit.nodes.exprs
  stmts_eq : b'.unit.nodes.stmts = b.unit.nodes.stmts
  package_eq : b'.unit.package = b.unit.package
  globals_eq : b'.unit.globals = b.unit.globals
  functions_eq : b'.unit.functions = b.unit.functions
  position_eq : b'.position = b.position

theorem intern_prepares (text : String) (b : Builder) : b.Prepares ((intern text).run b).2 :=
  ⟨intern_extends text b, rfl, rfl, rfl, rfl, rfl, rfl⟩

theorem exprList_prepares (ids : List ExprId) (b : Builder) :
    b.Prepares ((onNodes (·.addExprList ids)).run b).2 :=
  ⟨exprList_extends ids b, rfl, rfl, rfl, rfl, rfl, rfl⟩

theorem stmtList_prepares (ids : List StmtId) (b : Builder) :
    b.Prepares ((onNodes (·.addStmtList ids)).run b).2 :=
  ⟨stmtList_extends ids b, rfl, rfl, rfl, rfl, rfl, rfl⟩

namespace WellBuilt

theorem start (names : NameTable) (package : String) : (start names package).WellBuilt 0 where
  inBounds :=
    { package := names.index_intern_lt package
      globals := fun _ hg => absurd hg List.not_mem_nil
      functions := fun _ hf => absurd hf List.not_mem_nil
      bodies := fun _ hf => absurd hf List.not_mem_nil
      nodes := ⟨fun e he => absurd he (Array.not_mem_empty e),
        fun s hs => absurd hs (Array.not_mem_empty s)⟩ }
  descending :=
    ⟨fun _ hi => absurd hi (Nat.not_lt_zero _), fun _ hi => absurd hi (Nat.not_lt_zero _)⟩
  spans := .nil
  position_eq := rfl

theorem prepare (h : b.WellBuilt calls) (hp : b.Prepares b') : b'.WellBuilt calls := by
  have hlayered : b'.unit.nodes.Layered b'.names := by
    refine h.layered.grow hp.extends_.nodes hp.extends_.names (fun he => .inl ?_) fun hs => .inl ?_
    · rw [NodeStore.expr_eq_ok, hp.exprs_eq] at he
      exact NodeStore.expr_eq_ok.mpr he
    · rw [NodeStore.stmt_eq_ok, hp.stmts_eq] at hs
      exact NodeStore.stmt_eq_ok.mpr hs
  refine ⟨?_, (NodeStore.layered_iff.mp hlayered).2, ?_, hp.position_eq.trans h.position_eq⟩
  · exact inBounds_of_extends h.inBounds hp.extends_ hlayered hp.package_eq hp.globals_eq
      hp.functions_eq
  · rw [SourceUnit.spans, hp.exprs_eq, hp.stmts_eq, hp.globals_eq, hp.functions_eq]
    exact h.spans

/-- One more call, one more span. -/
theorem spans_succ (h : b.WellBuilt calls) {spans : List Span}
    (hnew : spans.Perm (.single b.position :: b.unit.spans)) :
    spans.Perm ((List.range (calls + 1)).map .single) := by
  obtain ⟨-, -, hspans, rfl⟩ := h
  rw [List.range_succ, List.map_append, List.map_singleton]
  calc spans
    List.Perm _ (.single b.position :: b.unit.spans) := hnew
    List.Perm _ (.single b.position :: (List.range b.position).map .single) := hspans.cons _
    List.Perm _ _ := (List.perm_append_singleton _ _).symm

theorem expr (h : b.WellBuilt calls) {kind : ExprKind}
    (hkind : kind.InBounds b.unit.nodes b.names) :
    ((Builder.expr kind).run b).2.WellBuilt (calls + 1) := by
  have hlayered : ((Builder.expr kind).run b).2.unit.nodes.Layered b.names :=
    h.layered.addExpr hkind
  refine ⟨?_, (NodeStore.layered_iff.mp hlayered).2, h.spans_succ ?_,
    congrArg (· + 1) h.position_eq⟩
  · exact inBounds_of_extends h.inBounds (expr_extends kind b) hlayered rfl rfl rfl
  · have hexprs : ((Builder.expr kind).run b).2.unit.nodes.exprs.toList =
        b.unit.nodes.exprs.toList ++ [⟨kind, .single b.position⟩] := Array.toList_push
    rw [SourceUnit.spans, hexprs]
    exact perm_concat _ _ _ _

theorem stmt (h : b.WellBuilt calls) {kind : StmtKind}
    (hkind : kind.InBounds b.unit.nodes b.names) :
    ((Builder.stmt kind).run b).2.WellBuilt (calls + 1) := by
  have hlayered : ((Builder.stmt kind).run b).2.unit.nodes.Layered b.names :=
    h.layered.addStmt hkind
  refine ⟨?_, (NodeStore.layered_iff.mp hlayered).2, h.spans_succ ?_,
    congrArg (· + 1) h.position_eq⟩
  · exact inBounds_of_extends h.inBounds (stmt_extends kind b) hlayered rfl rfl rfl
  · have hstmts : ((Builder.stmt kind).run b).2.unit.nodes.stmts.toList =
        b.unit.nodes.stmts.toList ++ [⟨kind, .single b.position⟩] := Array.toList_push
    rw [SourceUnit.spans, hstmts]
    exact ((perm_concat _ _ _ _).append_left _).trans List.perm_middle

theorem global (h : b.WellBuilt calls) {n : Name} (hn : n.index < b.names.size) :
    WellBuilt ⟨b.names, b.unit.addGlobal ⟨n, .single b.position⟩, b.position + 1⟩ (calls + 1) := by
  refine ⟨⟨h.inBounds.package, ?_, h.inBounds.functions, h.inBounds.bodies, h.inBounds.nodes⟩,
    h.descending, h.spans_succ ?_, congrArg (· + 1) h.position_eq⟩
  · intro g hg
    rcases List.mem_append.mp hg with hg | hg
    · exact h.inBounds.globals g hg
    · obtain rfl := List.mem_singleton.mp hg
      exact hn
  · have hglobals := (perm_concat (·.span) b.unit.globals ⟨n, .single b.position⟩
      (b.unit.functions.map (·.span))).append_left (b.unit.nodes.stmts.toList.map (·.span))
    exact ((hglobals.trans List.perm_middle).append_left _).trans List.perm_middle

theorem function (h : b.WellBuilt calls) {n : Name} {body : Option StmtId}
    (hn : n.index < b.names.size) (hbody : ∀ id ∈ body, id.index < b.unit.nodes.stmts.size) :
    WellBuilt ⟨b.names, b.unit.addFunction ⟨n, body, .single b.position⟩, b.position + 1⟩
      (calls + 1) := by
  refine ⟨⟨h.inBounds.package, h.inBounds.globals, ?_, ?_, h.inBounds.nodes⟩, h.descending,
    h.spans_succ ?_, congrArg (· + 1) h.position_eq⟩
  · intro f hf
    rcases List.mem_append.mp hf with hf | hf
    · exact h.inBounds.functions f hf
    · obtain rfl := List.mem_singleton.mp hf
      exact hn
  · intro f hf
    rcases List.mem_append.mp hf with hf | hf
    · exact h.inBounds.bodies f hf
    · obtain rfl := List.mem_singleton.mp hf
      exact hbody
  · have hspans : (b.unit.addFunction ⟨n, body, .single b.position⟩).spans =
        b.unit.spans ++ [.single b.position] := by
      simp [SourceUnit.spans, SourceUnit.addFunction]
    exact hspans ▸ List.perm_append_singleton _ _

/-- **One call keeps the invariant**, if the numbers that are passed are there. -/
theorem apply (h : b.WellBuilt calls) {step : BuildStep}
    (huses : ∀ id ∈ step.uses, b.unit.nodes.Holds id) : (step.apply b).WellBuilt (calls + 1) := by
  have hnamed : ∀ text, ((intern text).run b).2.WellBuilt calls :=
    fun text => h.prepare (intern_prepares text b)
  have hnone : ∀ {α : Type} {P : α → Prop}, ∀ c ∈ ([] : List α), P c :=
    fun c hc => absurd hc List.not_mem_nil
  have hheld : ∀ {ids : List ExprId}, step.uses = ids.map .expr →
      ∀ c ∈ ids, c.index < b.unit.nodes.exprs.size :=
    fun heq c hc => huses (.expr c) (heq ▸ List.mem_map_of_mem hc)
  cases step with
  | ident name => exact (hnamed name).expr ⟨hnone, b.names.index_intern_lt name⟩
  | int value => exact h.expr ⟨hnone, trivial⟩
  | binary op left right => exact h.expr ⟨hheld rfl, trivial⟩
  | unary op operand => exact h.expr ⟨hheld rfl, trivial⟩
  | paren inner => exact h.expr ⟨hheld rfl, trivial⟩
  | call callee args =>
    obtain ⟨hle, hitems⟩ := Slice.read_eq_ok_iff.mp (b.unit.nodes.exprList_addExprList args)
    have hlisted := (hnamed callee).prepare (exprList_prepares args _)
    refine hlisted.expr ⟨fun c hc => ?_, b.names.index_intern_lt callee, hle⟩
    exact hheld rfl c (hitems ▸ hc)
  | errorExpr => exact h.expr ⟨hnone, trivial⟩
  | var name init =>
    cases init with
    | none => exact (hnamed name).stmt ⟨hnone, b.names.index_intern_lt name⟩
    | some init =>
      exact (hnamed name).stmt
        ⟨hnone, b.names.index_intern_lt name, huses (.expr init) List.mem_cons_self⟩
  | assign target value =>
    exact (hnamed target).stmt
      ⟨hnone, b.names.index_intern_lt target, huses (.expr value) List.mem_cons_self⟩
  | exprStmt value => exact h.stmt ⟨hnone, huses (.expr value) List.mem_cons_self⟩
  | block body =>
    obtain ⟨hle, hitems⟩ := Slice.read_eq_ok_iff.mp (b.unit.nodes.stmtList_addStmtList body)
    have hlisted := h.prepare (stmtList_prepares body b)
    refine hlisted.stmt ⟨fun c hc => ?_, hle⟩
    exact huses (.stmt c) (List.mem_map_of_mem (hitems ▸ hc))
  | errorStmt => exact h.stmt ⟨hnone, trivial⟩
  | global name => exact (hnamed name).global (b.names.index_intern_lt name)
  | function name body =>
    refine (hnamed name).function (b.names.index_intern_lt name) fun id hid => ?_
    exact huses (.stmt id) (List.mem_map_of_mem (Option.mem_toList.mpr hid))

end WellBuilt

end Builder

/-! ## Any number of calls -/

/-- Every number that is passed to a call is among `known` or was returned by an earlier call. -/
def Builder.Supplied (b : Builder) (known : List NodeId) : List Activity → Prop
  | [] => True
  | .build step :: later => (∀ id ∈ step.uses, id ∈ known) ∧
      (step.apply b).Supplied ((step.returns b).toList ++ known) later
  | .intern text :: later => ((Builder.intern text).run b).2.Supplied known later

instance Builder.decidableSupplied (b : Builder) (known : List NodeId) :
    (later : List Activity) → Decidable (b.Supplied known later)
  | [] => inferInstanceAs (Decidable True)
  | .build step :: later =>
    have := (step.apply b).decidableSupplied ((step.returns b).toList ++ known) later
    inferInstanceAs (Decidable (_ ∧ _))
  | .intern text :: later => ((Builder.intern text).run b).2.decidableSupplied known later

/-- The number of calls. Texts that are interned for another purpose are none. -/
def Activity.calls : List Activity → Nat
  | [] => 0
  | .build _ :: later => calls later + 1
  | .intern _ :: later => calls later

namespace Builder

variable {b : Builder} {known : List NodeId} {calls : Nat}

theorem Supplied.of_append {before after : List Activity}
    (h : b.Supplied known (before ++ after)) : b.Supplied known before := by
  induction before generalizing b known with
  | nil => trivial
  | cons a before ih =>
    cases a with
    | build step => exact ⟨h.1, ih h.2⟩
    | intern text => exact ih (b := ((Builder.intern text).run b).2) h

/-- **Any number of calls keeps the invariant**, if only known numbers are passed. -/
theorem WellBuilt.foldl {later : List Activity} (h : b.WellBuilt calls)
    (hknown : ∀ id ∈ known, b.unit.nodes.Holds id) (hs : b.Supplied known later) :
    (later.foldl Activity.apply b).WellBuilt (calls + Activity.calls later) := by
  induction later generalizing b known calls with
  | nil => exact h
  | cons a later ih =>
    cases a with
    | build step =>
      obtain ⟨huses, hs⟩ := hs
      have hnext := h.apply fun id hid => hknown id (huses id hid)
      rw [Activity.calls, Nat.add_comm _ 1, ← Nat.add_assoc]
      refine ih hnext (fun id hid => ?_) hs
      rcases List.mem_append.mp hid with hid | hid
      · exact (step.denotes b (Option.mem_toList.mp hid)).holds
      · exact (step.apply_extends b).nodes.holds id (hknown id hid)
    | intern text => exact ih (h.prepare (intern_prepares text b)) hknown hs

end Builder

/-- **The invariant of a builder.** Let the calls of a builder be given only numbers that earlier
calls returned. Then at every point every node holds nodes with smaller numbers only, everything
that nodes and declarations refer to is there, and the spans of the nodes and declarations are the
one-wide ones at the first positions, one for each call. Whatever could be read at that point can
be read at every later one and is the same, and the number that the next call returns stands for
the node it was asked for, then and later. -/
theorem builder_invariant (names : NameTable) (package : String) (before after : List Activity)
    (h : (Builder.start names package).Supplied [] (before ++ after)) :
    let b := before.foldl Activity.apply (Builder.start names package)
    let b' := after.foldl Activity.apply b
    b.unit.nodes.Descending ∧ b.unit.InBounds b.names ∧
      b.unit.spans.Perm ((List.range (Activity.calls before)).map .single) ∧ b.Extends b' ∧
      ∀ step rest id, after = .build step :: rest → step.returns b = some id →
        step.Denotes b'.names b'.unit.nodes (.single (Activity.calls before)) id := by
  intro b b'
  have hbuilt := (Builder.WellBuilt.start names package).foldl
    (fun id (hid : id ∈ []) => absurd hid List.not_mem_nil) h.of_append
  rw [Nat.zero_add] at hbuilt
  refine ⟨hbuilt.descending, hbuilt.inBounds, hbuilt.spans, Activity.foldl_extends b after, ?_⟩
  rintro step rest id rfl hid
  have hlater : (step.apply b).Extends b' := Activity.foldl_extends (step.apply b) rest
  have hdenotes := (step.denotes b hid).extend hlater.nodes hlater.names
  rw [hbuilt.position_eq] at hdenotes
  exact hdenotes

namespace Builder

/-- A sum of a node with itself. -/
def shared : List Activity :=
  [.build (.global "x"), .build (.ident "x"), .intern "y", .build (.binary .add ⟨0⟩ ⟨0⟩)]

/-- A call with the sum and the node in its list, and a function around it. -/
def around : List Activity :=
  [.build (.call "println" [⟨1⟩, ⟨0⟩]), .build (.exprStmt ⟨2⟩), .build (.var "x" (some ⟨1⟩)),
    .build (.block [⟨1⟩, ⟨0⟩, ⟨0⟩]), .build (.function "main" (some ⟨2⟩))]

end Builder

/-- The call is the fourth, and stands for the same node when the function has been added. -/
theorem builder_invariant_shared :
    (Builder.start .initial "main").Supplied [] (Builder.shared ++ Builder.around) ∧
    ∃ b b', b = Builder.shared.foldl Activity.apply (Builder.start .initial "main") ∧
      b' = Builder.around.foldl Activity.apply b ∧ b.unit.InBounds b.names ∧
      b.unit.spans.Perm [.single 0, .single 1, .single 2] ∧
      BuildStep.Denotes b'.names b'.unit.nodes (.single 3) (.call "println" [⟨1⟩, ⟨0⟩])
        (.expr ⟨2⟩) := by
  have h : (Builder.start .initial "main").Supplied [] (Builder.shared ++ Builder.around) := by
    decide +kernel
  obtain ⟨-, hbounds, hspans, -, hdenotes⟩ :=
    builder_invariant .initial "main" Builder.shared Builder.around h
  exact ⟨h, _, _, rfl, rfl, hbounds, hspans, hdenotes _ _ _ rfl rfl⟩

end RegisterCode
