import RegisterCode.Proofs.Interchange

/-!
# Parentheses and plus signs

Parentheses and a plus sign in front of an operand have no code of their own. `SourceUnit.bared`
takes them out of a unit: wherever a node refers to one of them, it refers to what is inside
instead. The nodes keep their numbers, kinds and places, so that all other text stays where it was.

Results:
* `NodeStore.unfoldStmt_bared`: the trees of the new unit are those of the old one without
  parentheses and plus signs.
* `SourceUnit.WellFormed.bared`: a well-formed unit stays well formed.
* `Compiler.parentheses_erasable`: both units have the same listing, or are rejected for the same
  reason at the same place.
-/

namespace RegisterCode

/-! ## Taking them out of a store -/

namespace ExprKind

/-- What is inside, if this is a pair of parentheses or a plus sign. -/
def inside? : ExprKind → Option ExprId
  | .paren inner | .unary .pos inner => some inner
  | .ident _ | .int _ | .binary .. | .unary .neg _ | .unary .not _ | .call .. | .error => none

/-- The kind with other nodes directly below. -/
def redirect (f : ExprId → ExprId) : ExprKind → ExprKind
  | .binary op left right => .binary op (f left) (f right)
  | .unary op operand => .unary op (f operand)
  | .paren inner => .paren (f inner)
  | .ident n => .ident n
  | .int value => .int value
  | .call callee args => .call callee args
  | .error => .error

end ExprKind

/-- The kind with other expressions directly below. -/
def StmtKind.redirect (f : ExprId → ExprId) : StmtKind → StmtKind
  | .var n init => .var n (init.map f)
  | .assign n value => .assign n (f value)
  | .expr value => .expr (f value)
  | .block body => .block body
  | .error => .error

namespace NodeStore

/-- What is inside the node, if it is a pair of parentheses or a plus sign. -/
def inside? (store : NodeStore) (id : ExprId) : Option ExprId :=
  store.exprs[id.index]?.bind (·.kind.inside?)

/-- The node that is reached by going inside at most the given number of times. -/
def innermost (store : NodeStore) : Nat → ExprId → ExprId
  | 0, id => id
  | level + 1, id =>
    match store.inside? id with
    | some inner => innermost store level inner
    | none => id

/-- The node inside all parentheses and plus signs. -/
def bare (store : NodeStore) (id : ExprId) : ExprId := store.innermost (store.exprs.size + 1) id

/-- The store in which no node refers to parentheses or a plus sign. -/
def bared (store : NodeStore) : NodeStore where
  exprs := store.exprs.map fun e => ⟨e.kind.redirect store.bare, e.span⟩
  exprItems := store.exprItems.map store.bare
  stmts := store.stmts.map fun s => ⟨s.kind.redirect store.bare, s.span⟩
  stmtItems := store.stmtItems

end NodeStore

/-- The unit in which no node refers to parentheses or a plus sign. -/
def SourceUnit.bared (u : SourceUnit) : SourceUnit := { u with nodes := u.nodes.bared }

/-! ## Taking them out of trees -/

mutual

/-- The tree without parentheses and plus signs. -/
def ExprTree.bare : ExprTree → ExprTree
  | .ident site n => .ident site n
  | .int site value => .int site value
  | .binary site op left right => .binary site op left.bare right.bare
  | .unary _ .pos operand => operand.bare
  | .unary site .neg operand => .unary site .neg operand.bare
  | .unary site .not operand => .unary site .not operand.bare
  | .paren _ inner => inner.bare
  | .call site f args => .call site f (ExprTree.bareAll args)
  | .error site => .error site

/-- The trees without parentheses and plus signs. -/
def ExprTree.bareAll : List ExprTree → List ExprTree
  | [] => []
  | t :: ts => t.bare :: ExprTree.bareAll ts

end

mutual

/-- The statement without parentheses and plus signs. -/
def StmtTree.bare : StmtTree → StmtTree
  | .var site n init => .var site n (init.map ExprTree.bare)
  | .assign site n value => .assign site n value.bare
  | .block site body => .block site (StmtTree.bareAll body)
  | .expr site value => .expr site value.bare
  | .error site => .error site

/-- The statements without parentheses and plus signs. -/
def StmtTree.bareAll : List StmtTree → List StmtTree
  | [] => []
  | t :: ts => t.bare :: StmtTree.bareAll ts

end

theorem ExprTree.bareAll_eq (ts : List ExprTree) : bareAll ts = ts.map bare := by
  induction ts with
  | nil => rfl
  | cons t ts ih => rw [bareAll, List.map_cons, ih]

theorem StmtTree.bareAll_eq (ts : List StmtTree) : bareAll ts = ts.map bare := by
  induction ts with
  | nil => rfl
  | cons t ts ih => rw [bareAll, List.map_cons, ih]

/-! ### They never offend -/

section Offences

variable (builtin : Name → Bool) (vars : List Name)

mutual

theorem ExprTree.offences_bare : ∀ t : ExprTree,
    t.bare.offences builtin vars = t.offences builtin vars
  | .ident .. => rfl
  | .int .. => rfl
  | .binary _ _ left right => by
    rw [bare, offences, offences, offences_bare left, offences_bare right]
  | .unary _ .pos operand => by
    rw [bare, offences_bare operand, offences, if_pos (by decide), List.nil_append]
  | .unary _ .neg operand => by rw [bare, offences, offences, offences_bare operand]
  | .unary _ .not operand => by rw [bare, offences, offences, offences_bare operand]
  | .paren _ inner => by rw [bare, offences, offences_bare inner]
  | .call _ _ args => by
    have hlength : (bareAll args).length = args.length := by rw [bareAll_eq, List.length_map]
    rw [bare, offences, offences, hlength, offencesAll_bare args]
  | .error _ => rfl

theorem ExprTree.offencesAll_bare : ∀ ts : List ExprTree,
    ExprTree.offencesAll builtin vars (ExprTree.bareAll ts) = ExprTree.offencesAll builtin vars ts
  | [] => rfl
  | t :: ts => by rw [bareAll, offencesAll, offencesAll, offences_bare t, offencesAll_bare ts]

end

theorem StmtTree.declared_bare (t : StmtTree) : t.bare.declared = t.declared := by
  cases t <;> rfl

theorem StmtTree.offencesAll_bare (ts : List StmtTree) (vars : List Name) :
    StmtTree.offencesAll builtin vars (StmtTree.bareAll ts) =
      StmtTree.offencesAll builtin vars ts := by
  induction ts using StmtTree.listInduction generalizing vars with
  | nil => rfl
  | var site n init rest ih =>
    rw [bareAll, offencesAll, offencesAll, ih, declared_bare]
    cases init with
    | none => rfl
    | some value => exact congrArg (· ++ _) (value.offences_bare builtin vars)
  | assign site n value rest ih =>
    rw [bareAll, offencesAll, offencesAll, ih, declared_bare, bare, offences, offences,
      value.offences_bare]
  | block site body rest ihbody ih =>
    rw [bareAll, offencesAll, offencesAll, ih, declared_bare, bare, offences, offences, ihbody]
  | expr site value rest ih =>
    rw [bareAll, offencesAll, offencesAll, ih, declared_bare, bare, offences, offences,
      value.offences_bare]
  | error site rest ih =>
    rw [bareAll, offencesAll, offencesAll, ih, declared_bare]
    rfl

end Offences

/-! ### They have no code -/

section Code

variable {univ : Layer} {ls ls' : List Layer} {k k' : Nat} {code : List Instr}

/-- **A tree without parentheses and plus signs has the same code.** -/
theorem ExprCode.bare {t : ExprTree} {r : Nat} (h : ExprCode univ ls k t code r) :
    ExprCode univ ls k t.bare code r := by
  induction h with
  | ident bound => exact .ident bound
  | int fits => exact .int fits
  | binary arithmetic _ _ ih ih' => exact .binary arithmetic ih ih'
  | neg _ ih => exact .neg ih
  | pos _ ih => exact ih
  | paren _ ih => exact ih
  | call builtin _ ih => exact .call builtin ih

theorem InitCode.bare {init : Option ExprTree} {v : Value}
    (h : InitCode univ ls k init code v k') :
    InitCode univ ls k (init.map ExprTree.bare) code v k' := by
  cases h with
  | zero => exact .zero
  | expr value => exact .expr value.bare

/-- **So have statements.** -/
theorem StmtsCode.bareAll {m : Mangling} {names : NameTable} {ts : List StmtTree}
    (h : StmtsCode m names univ ls k ts code ls' k') :
    StmtsCode m names univ ls k (StmtTree.bareAll ts) code ls' k' := by
  induction h with
  | nil => exact .nil
  | var value named _ ih => exact .var value.bare named ih
  | assign bound value _ ih => exact .assign bound value.bare ih
  | block _ _ ihbody ih => exact .block ihbody ih
  | expr value _ ih => exact .expr value.bare ih

/-- A body and the body without parentheses and plus signs may be interchanged. -/
theorem StmtTree.interchangeable_bare (t : StmtTree) : t.Interchangeable t.bare where
  offences builtin vars := by
    have h := StmtTree.offencesAll_bare builtin [t] vars
    simpa only [StmtTree.bareAll, StmtTree.offencesAll, List.append_nil] using h
  code h := ⟨_, h.bareAll⟩

end Code

/-! ## The trees of the new unit -/

theorem ExprKind.inside?_eq_some_iff {kind : ExprKind} {inner : ExprId} :
    kind.inside? = some inner ↔ kind = .paren inner ∨ kind = .unary .pos inner := by
  cases kind with
  | unary op operand => cases op <;> simp [inside?]
  | _ => simp [inside?]

theorem Slice.items_map {α : Type} (s : Slice α) (table : Array α) (f : α → α) :
    s.items (table.map f) = (s.items table).map f := by
  simp [Slice.items]

theorem Slice.read_map {α : Type} {s : Slice α} {table : Array α} {xs : List α}
    (h : s.read table = .ok xs) (f : α → α) : s.read (table.map f) = .ok (xs.map f) := by
  obtain ⟨hle, rfl⟩ := Slice.read_eq_ok_iff.mp h
  exact Slice.read_eq_ok_iff.mpr ⟨by rwa [Array.size_map], s.items_map table f⟩

namespace NodeStore

variable {store : NodeStore} {level : Nat} {id inner : ExprId} {t : ExprTree}

theorem inside?_eq {e : Expr} (he : store.expr id = .ok e) :
    store.inside? id = e.kind.inside? := by
  rw [inside?, expr_eq_ok.mp he, Option.bind_some]

/-- A tree with parentheses or a plus sign at its root is the tree inside. -/
theorem unfoldExpr_inside (h : store.unfoldExpr (level + 1) id = some t)
    (hin : store.inside? id = some inner) :
    ∃ t', store.unfoldExpr level inner = some t' ∧ t.bare = t'.bare := by
  cases unfoldExpr_succ.mp h with
  | @paren span inner' t' node below =>
    rw [inside?_eq node] at hin
    obtain rfl := Option.some.inj hin
    exact ⟨t', below, rfl⟩
  | @unary span op operand t' node below =>
    rw [inside?_eq node] at hin
    cases op with
    | pos =>
      obtain rfl := Option.some.inj hin
      exact ⟨t', below, rfl⟩
    | neg | not => cases hin
  | ident node | int node | error node | binary node | call node =>
    rw [inside?_eq node] at hin
    cases hin

theorem innermost_of_inside (hin : store.inside? id = some inner) :
    store.innermost (level + 1) id = store.innermost level inner := by
  rw [innermost, hin]

theorem innermost_of_none (hin : store.inside? id = none) : store.innermost level id = id := by
  cases level with
  | zero => rfl
  | succ level => rw [innermost, hin]

/-- Below a node with a tree, the way inside ends no later than the tree. -/
theorem innermost_eq_of_le (h : store.unfoldExpr level id = some t) {n : Nat} (hn : level ≤ n) :
    store.innermost n id = store.innermost level id := by
  induction level generalizing id t n with
  | zero => exact absurd h (by simp [unfoldExpr])
  | succ level ih =>
    cases hin : store.inside? id with
    | none => rw [innermost_of_none hin, innermost_of_none hin]
    | some inner =>
      obtain ⟨t', ht', -⟩ := unfoldExpr_inside h hin
      obtain ⟨n, rfl⟩ := Nat.exists_eq_succ_of_ne_zero (Nat.ne_zero_of_lt hn)
      rw [innermost_of_inside hin, innermost_of_inside hin, ih ht' (Nat.le_of_succ_le_succ hn)]

/-- There it ends at a node that is neither parentheses nor a plus sign. -/
theorem inside?_innermost (h : store.unfoldExpr level id = some t) :
    store.inside? (store.innermost level id) = none := by
  induction level generalizing id t with
  | zero => exact absurd h (by simp [unfoldExpr])
  | succ level ih =>
    cases hin : store.inside? id with
    | none => rw [innermost_of_none hin, hin]
    | some inner =>
      obtain ⟨t', ht', -⟩ := unfoldExpr_inside h hin
      rw [innermost_of_inside hin, ih ht']

theorem bare_of_inside (h : store.unfoldExpr (level + 1) id = some t)
    (hlevel : level ≤ store.exprs.size) (hin : store.inside? id = some inner) :
    store.bare id = store.bare inner := by
  obtain ⟨t', ht', -⟩ := unfoldExpr_inside h hin
  calc store.bare id = store.innermost store.exprs.size inner := innermost_of_inside hin
    _ = store.innermost level inner := innermost_eq_of_le ht' hlevel
    _ = store.bare inner := (innermost_eq_of_le ht' (Nat.le_succ_of_le hlevel)).symm

theorem expr_bared {e : Expr} (he : store.expr id = .ok e) :
    store.bared.expr id = .ok ⟨e.kind.redirect store.bare, e.span⟩ := by
  rw [expr_eq_ok] at he ⊢
  simp [bared, he]

theorem stmt_bared {id : StmtId} {s : Stmt} (hs : store.stmt id = .ok s) :
    store.bared.stmt id = .ok ⟨s.kind.redirect store.bare, s.span⟩ := by
  rw [stmt_eq_ok] at hs ⊢
  simp [bared, hs]

/-- **The new tree below an expression is the old one without parentheses and plus signs.** -/
theorem unfoldExpr_bared (hlevel : level ≤ store.exprs.size + 1)
    (h : store.unfoldExpr level id = some t) :
    store.bared.unfoldExpr level (store.bare id) = some t.bare := by
  induction level generalizing id t with
  | zero => exact absurd h (by simp [unfoldExpr])
  | succ level ih =>
    have below : ∀ {id : ExprId} {t : ExprTree}, store.unfoldExpr level id = some t →
        store.bared.unfoldExpr level (store.bare id) = some t.bare :=
      ih (Nat.le_of_succ_le hlevel)
    cases hin : store.inside? id with
    | some inner =>
      obtain ⟨t', ht', hbare⟩ := unfoldExpr_inside h hin
      -- the node itself is skipped, which leaves a level to spare
      rw [bare_of_inside h (Nat.le_of_succ_le_succ hlevel) hin, hbare]
      exact unfoldExpr_mono (below ht') (Nat.le_succ level)
    | none =>
      have hid : store.bare id = id := innermost_of_none hin
      rw [hid, unfoldExpr_succ]
      cases unfoldExpr_succ.mp h with
      | ident node => exact .ident (expr_bared node)
      | int node => exact .int (expr_bared node)
      | binary node first second => exact .binary (expr_bared node) (below first) (below second)
      | @unary span op operand t' node inner =>
        cases op with
        | pos => exact absurd ((inside?_eq node).symm.trans hin) (by simp [ExprKind.inside?])
        | neg | not => exact .unary (expr_bared node) (below inner)
      | paren node =>
        exact absurd ((inside?_eq node).symm.trans hin) (by simp [ExprKind.inside?])
      | call node listed args =>
        refine .call (expr_bared node) (Slice.read_map listed store.bare) ?_
        rw [ExprTree.bareAll_eq, List.forall₂_map_left_iff, List.forall₂_map_right_iff]
        exact args.imp fun _ _ => below
      | error node => exact .error (expr_bared node)

theorem exprTree_bared (h : store.exprTree id = some t) :
    store.bared.exprTree (store.bare id) = some t.bare := by
  have hsize : store.bared.exprs.size = store.exprs.size := Array.size_map ..
  rw [exprTree, hsize]
  exact unfoldExpr_bared (Nat.le_refl _) h

/-- **The same for statements.** -/
theorem unfoldStmt_bared {id : StmtId} {t : StmtTree} (h : store.unfoldStmt level id = some t) :
    store.bared.unfoldStmt level id = some t.bare := by
  induction level generalizing id t with
  | zero => exact absurd h (by simp [unfoldStmt])
  | succ level ih =>
    rw [unfoldStmt_succ]
    cases unfoldStmt_succ.mp h with
    | @var span n init t' node value =>
      refine .var (stmt_bared node) ?_
      cases init with
      | none =>
        cases value
        rfl
      | some init =>
        obtain ⟨x, hx, rfl⟩ := Option.map_eq_some_iff.mp value
        simp [exprTree_bared hx]
    | assign node value => exact .assign (stmt_bared node) (exprTree_bared value)
    | block node listed body =>
      refine .block (stmt_bared node) listed ?_
      rw [StmtTree.bareAll_eq, List.forall₂_map_right_iff]
      exact body.imp fun _ _ => ih
    | expr node value => exact .expr (stmt_bared node) (exprTree_bared value)
    | error node => exact .error (stmt_bared node)

theorem stmtTree_bared {id : StmtId} {t : StmtTree} (h : store.stmtTree id = some t) :
    store.bared.stmtTree id = some t.bare := by
  have hsize : store.bared.stmts.size = store.stmts.size := Array.size_map ..
  rw [stmtTree, hsize]
  exact unfoldStmt_bared h

/-! ## The new unit is well formed -/

variable {names : NameTable}

/-- What is inside a node stands directly below it. -/
theorem exprBelow_of_inside (hin : store.inside? id = some inner) : store.ExprBelow id inner := by
  obtain ⟨e, he, hkind⟩ := Option.bind_eq_some_iff.mp hin
  refine ⟨e, expr_eq_ok.mpr he, ?_⟩
  rcases ExprKind.inside?_eq_some_iff.mp hkind with hk | hk <;> simp [hk, ExprKind.children]

/-- The way inside leads down. -/
theorem reflTransGen_innermost (store : NodeStore) (level : Nat) (id : ExprId) :
    Relation.ReflTransGen store.ExprBelow id (store.innermost level id) := by
  induction level generalizing id with
  | zero => exact .refl
  | succ level ih =>
    cases hin : store.inside? id with
    | none => rw [innermost_of_none hin]
    | some inner =>
      rw [innermost_of_inside hin]
      exact .head (exprBelow_of_inside hin) (ih inner)

theorem InBounds.bare_lt (h : store.InBounds names) (hid : id.index < store.exprs.size) :
    (store.bare id).index < store.exprs.size := by
  rcases (store.reflTransGen_innermost (store.exprs.size + 1) id).cases_tail with heq | ⟨p, -, hp⟩
  · have hbare : store.bare id = id := heq
    rw [hbare]
    exact hid
  · obtain ⟨e, he, hc⟩ := hp
    exact (h.expr he).1 _ hc

theorem children_redirect (store : NodeStore) (kind : ExprKind) :
    (kind.redirect store.bare).children store.bared = (kind.children store).map store.bare := by
  cases kind with
  | call f args => exact args.items_map store.exprItems store.bare
  | _ => rfl

theorem stmtChildren_redirect (store : NodeStore) (kind : StmtKind) :
    (kind.redirect store.bare).children store.bared = kind.children store := by
  cases kind <;> rfl

theorem InBounds.bared (h : store.InBounds names) : store.bared.InBounds names where
  exprs e he := by
    obtain ⟨e₀, he₀, rfl⟩ := Array.mem_map.mp he
    obtain ⟨hchildren, hkind⟩ := h.exprs e₀ he₀
    constructor
    · intro c hc
      rw [children_redirect] at hc
      obtain ⟨c₀, hc₀, rfl⟩ := List.mem_map.mp hc
      rw [NodeStore.bared, Array.size_map]
      exact h.bare_lt (hchildren c₀ hc₀)
    · generalize e₀.kind = kind at hkind ⊢
      cases kind with
      | ident n => exact hkind
      | call f args => exact ⟨hkind.1, by simpa [NodeStore.bared] using hkind.2⟩
      | _ => trivial
  stmts s hs := by
    obtain ⟨s₀, hs₀, rfl⟩ := Array.mem_map.mp hs
    obtain ⟨hchildren, hkind⟩ := h.stmts s₀ hs₀
    have hexprs : store.bared.exprs.size = store.exprs.size := Array.size_map ..
    constructor
    · intro c hc
      rw [stmtChildren_redirect] at hc
      rw [NodeStore.bared, Array.size_map]
      exact hchildren c hc
    · generalize s₀.kind = kind at hkind ⊢
      cases kind with
      | var n init =>
        cases init with
        | none => exact hkind
        | some init => exact ⟨hkind.1, hexprs ▸ h.bare_lt hkind.2⟩
      | assign n value => exact ⟨hkind.1, hexprs ▸ h.bare_lt hkind.2⟩
      | block body => exact hkind
      | expr value => exact hexprs ▸ h.bare_lt hkind
      | error => trivial

/-- A node of the new store is a node of the old one that refers to bare nodes. -/
theorem expr_of_bared {e : Expr} (he : store.bared.expr id = .ok e) :
    ∃ e₀, store.expr id = .ok e₀ ∧ e = ⟨e₀.kind.redirect store.bare, e₀.span⟩ := by
  have hlt : id.index < store.exprs.size := by simpa [NodeStore.bared] using index_lt_of_expr he
  obtain ⟨e₀, he₀⟩ := exists_expr hlt
  exact ⟨e₀, he₀, Except.ok.inj (he.symm.trans (expr_bared he₀))⟩

theorem stmt_of_bared {id : StmtId} {s : Stmt} (hs : store.bared.stmt id = .ok s) :
    ∃ s₀, store.stmt id = .ok s₀ ∧ s = ⟨s₀.kind.redirect store.bare, s₀.span⟩ := by
  have hlt : id.index < store.stmts.size := by simpa [NodeStore.bared] using index_lt_of_stmt hs
  obtain ⟨s₀, hs₀⟩ := exists_stmt hlt
  exact ⟨s₀, hs₀, Except.ok.inj (hs.symm.trans (stmt_bared hs₀))⟩

/-- **Taking parentheses and plus signs out leads into no circle**: what a node refers to now stood
somewhere below it before. -/
theorem Acyclic.bared (h : store.Acyclic) : store.bared.Acyclic where
  exprs id hcycle := by
    refine h.exprs id (Relation.TransGen.closed ?_ _ _ hcycle)
    rintro p c ⟨e, he, hc⟩
    obtain ⟨e₀, he₀, rfl⟩ := expr_of_bared he
    rw [children_redirect] at hc
    obtain ⟨c₀, hc₀, rfl⟩ := List.mem_map.mp hc
    have hbelow : store.ExprBelow p c₀ := ⟨e₀, he₀, hc₀⟩
    exact .trans_left (.single hbelow) (store.reflTransGen_innermost _ c₀)
  stmts id hcycle := by
    refine h.stmts id (Relation.TransGen.mono ?_ _ _ hcycle)
    rintro p c ⟨s, hs, hc⟩
    obtain ⟨s₀, hs₀, rfl⟩ := stmt_of_bared hs
    rw [stmtChildren_redirect] at hc
    exact ⟨s₀, hs₀, hc⟩

/-- Some node refers directly to this expression. -/
def Refers (store : NodeStore) (id : ExprId) : Prop :=
  (∃ e ∈ store.exprs, id ∈ e.kind.children store) ∨ ∃ s ∈ store.stmts, id ∈ s.kind.exprs

theorem refers_of_bared (h : store.bared.Refers id) :
    ∃ id₀, store.Refers id₀ ∧ id = store.bare id₀ := by
  rcases h with ⟨e, he, hid⟩ | ⟨s, hs, hid⟩
  · obtain ⟨e₀, he₀, rfl⟩ := Array.mem_map.mp he
    rw [children_redirect] at hid
    obtain ⟨id₀, hid₀, rfl⟩ := List.mem_map.mp hid
    exact ⟨id₀, Or.inl ⟨e₀, he₀, hid₀⟩, rfl⟩
  · obtain ⟨s₀, hs₀, rfl⟩ := Array.mem_map.mp hs
    have hexprs : (s₀.kind.redirect store.bare).exprs = s₀.kind.exprs.map store.bare := by
      cases s₀.kind with
      | var n init => cases init <;> rfl
      | _ => rfl
    rw [hexprs] at hid
    obtain ⟨id₀, hid₀, rfl⟩ := List.mem_map.mp hid
    exact ⟨id₀, Or.inr ⟨s₀, hs₀, hid₀⟩, rfl⟩

theorem inside?_bared (store : NodeStore) (id : ExprId) :
    store.bared.inside? id = (store.inside? id).map store.bare := by
  have hkind : ∀ kind : ExprKind,
      (kind.redirect store.bare).inside? = kind.inside?.map store.bare := by
    intro kind
    cases kind with
    | unary op operand => cases op <;> rfl
    | _ => rfl
  unfold inside?
  rw [bared, Array.getElem?_map]
  cases store.exprs[id.index]? with
  | none => rfl
  | some e => exact hkind e.kind

/-- **In the new store no node refers to parentheses or a plus sign.** -/
theorem inside?_of_refers (hb : store.InBounds names) (ha : store.Acyclic)
    (h : store.bared.Refers id) : store.bared.inside? id = none := by
  obtain ⟨id₀, hrefers, rfl⟩ := refers_of_bared h
  have hlt : id₀.index < store.exprs.size := by
    rcases hrefers with ⟨e, he, hid⟩ | ⟨s, hs, hid⟩
    · exact (hb.exprs e he).1 id₀ hid
    · exact (hb.stmts s hs).exprs id₀ hid
  obtain ⟨t, ht⟩ := exists_exprTree hb ha hlt
  rw [inside?_bared, bare, inside?_innermost ht, Option.map_none]

end NodeStore

theorem SourceUnit.WellFormed.bared {u : SourceUnit} {names : NameTable} (h : u.WellFormed names) :
    u.bared.WellFormed names where
  package := h.package
  globals := h.globals
  functions := h.functions
  bodies f hf id hid := by
    rw [SourceUnit.bared, NodeStore.bared, Array.size_map]
    exact h.bodies f hf id hid
  nodes := h.nodes.bared
  acyclic := h.acyclic.bared

/-- **Taking parentheses and plus signs out of a unit rewrites it to interchangeable bodies.** -/
theorem SourceUnit.WellFormed.rewrites_bared {u : SourceUnit} {names : NameTable}
    (h : u.WellFormed names) : u.Rewrites u.bared where
  package := rfl
  globals := rfl
  functions := by
    refine List.forall₂_same.mpr fun f hf => ⟨rfl, ?_⟩
    cases hbody : f.body with
    | none => exact .none
    | some id =>
      obtain ⟨t, ht⟩ := NodeStore.exists_stmtTree h.nodes h.acyclic (h.bodies f hf id hbody)
      exact .some ⟨t, t.bare, ht, NodeStore.stmtTree_bared ht, t.interchangeable_bare⟩

/-! ## Rejections -/

/-- The rejection without the text that shows the node. -/
def Rejection.outline : Rejection → Rejection
  | .undefinedVariable name span => .undefinedVariable name span
  | .unsupported construct _ span => .unsupported construct "" span

/-- The failure without the text that shows a node. -/
def Failure.outline : Failure → Failure
  | .rejected r => .rejected r.outline
  | .fault f => .fault f
  | .cyclic => .cyclic

/-- What is said about an offence only depends on the nodes in the text that shows one. -/
theorem Offence.outline_eq {nodes nodes' : NodeStore} {names : NameTable} {o : Offence}
    {r r' : Rejection} (h : o.rejection nodes names = .ok r)
    (h' : o.rejection nodes' names = .ok r') : r'.outline = r.outline := by
  have unsupported : ∀ {x x' : Except Fault String} {construct : String} {span : Span},
      (do return .unsupported construct (← x) span) = Except.ok r →
      (do return .unsupported construct (← x') span) = Except.ok r' → r'.outline = r.outline := by
    intro x x' construct span hx hx'
    cases x with
    | error f => cases hx
    | ok text =>
      cases x' with
      | error f => cases hx'
      | ok text' =>
        cases hx
        cases hx'
        rfl
  cases o with
  | undefined | builtinVariable => rw [Except.ok.inj (h.symm.trans h')]
  | expr construct site => exact unsupported h h'
  | stmt construct site => exact unsupported h h'

namespace Compiler

/-- **Parentheses and plus signs can be taken out everywhere.** The new unit is well formed and
refers to none of them. It has the same listing, or is rejected for the same construct or name at
the same place; only the text that shows the node may differ. -/
theorem parentheses_erasable (c : Compiler) {names : NameTable} {u : SourceUnit}
    (hu : u.WellFormed names) :
    u.bared.WellFormed names ∧
    (∀ id, u.bared.nodes.Refers id → u.bared.nodes.inside? id = none) ∧
    (c.compile names u.bared).outcome.mapError Failure.outline =
      (c.compile names u).outcome.mapError Failure.outline := by
  refine ⟨hu.bared, fun id => NodeStore.inside?_of_refers hu.nodes hu.acyclic, ?_⟩
  rcases outcome_of_rewrites (c := c) hu hu.bared hu.rewrites_bared with
    ⟨listing, hok, hok'⟩ | ⟨_, _, _, _, _, _, o, _, r, r', hr, hr', hfails, hfails'⟩
  · rw [hok, hok']
  · rw [hfails, hfails']
    exact congrArg (Except.error ∘ Failure.rejected) (Offence.outline_eq hr hr')

end Compiler

namespace Counter

/-- A unit whose function is `{ println(((+x))); x = (((+x)) % 2) }`. There is no code for `%`. -/
def nested : SourceUnit where
  package := ⟨1⟩
  globals := [⟨⟨2⟩, ⟨0, 5⟩⟩]
  functions := [⟨⟨1⟩, some ⟨2⟩, ⟨6, 50⟩⟩]
  nodes :=
    { exprs := #[⟨.ident ⟨2⟩, ⟨18, 19⟩⟩, ⟨.unary .pos ⟨0⟩, ⟨17, 19⟩⟩, ⟨.paren ⟨1⟩, ⟨16, 20⟩⟩,
        ⟨.paren ⟨2⟩, ⟨15, 21⟩⟩, ⟨.call ⟨3⟩ ⟨0, 1⟩, ⟨8, 22⟩⟩, ⟨.int 2, ⟨38, 39⟩⟩,
        ⟨.binary .mod ⟨3⟩ ⟨5⟩, ⟨29, 39⟩⟩, ⟨.paren ⟨6⟩, ⟨28, 40⟩⟩]
      exprItems := #[⟨3⟩]
      stmts := #[⟨.expr ⟨4⟩, ⟨8, 22⟩⟩, ⟨.assign ⟨2⟩ ⟨7⟩, ⟨24, 40⟩⟩, ⟨.block ⟨0, 2⟩, ⟨7, 42⟩⟩]
      stmtItems := #[⟨0⟩, ⟨1⟩] }

theorem nested_wellFormed : nested.WellFormed names where
  package := by decide
  globals := by decide
  functions := by decide
  bodies := by decide
  nodes := ⟨by decide, by decide⟩
  acyclic := NodeStore.Descending.acyclic ⟨by decide, by decide⟩

/-- Its rejection shows parentheses, which that of the new unit does not. -/
theorem parentheses_erasable_nested :
    nested.WellFormed names ∧
    (({} : Compiler).compile names nested).outcome =
      .error (.rejected (.unsupported "binary operator" "((+x)) % 2" ⟨29, 39⟩)) ∧
    (({} : Compiler).compile names nested.bared).outcome =
      .error (.rejected (.unsupported "binary operator" "x % 2" ⟨29, 39⟩)) ∧
    (({} : Compiler).compile names nested.bared).outcome.mapError Failure.outline =
      (({} : Compiler).compile names nested).outcome.mapError Failure.outline :=
  ⟨nested_wellFormed, by decide +kernel, by decide +kernel,
    (Compiler.parentheses_erasable {} nested_wellFormed).2.2⟩

end Counter

end RegisterCode
