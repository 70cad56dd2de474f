import Mathlib.Data.List.Forall2
import RegisterCode.Source.Unit

/-!
# Source trees

A store keeps nodes under numbers. Below a node that does not contain itself there is a finite
tree, in which a shared node occurs once for every way that leads to it: this is the program the
nodes stand for. `NodeStore.exprTree` and `NodeStore.stmtTree` unfold it. A tree remembers at each
place which node it comes from and where that node stands, and forgets how lists of children are
kept.

Results: which tree stands below a node, by the trees one level further down (`unfoldExpr_succ`,
`unfoldStmt_succ`), and induction over statement lists (`StmtTree.listInduction`), where the body
of a block is a list like any other.
-/

namespace RegisterCode

/-- The node that a part of a tree comes from. -/
structure Site (α : Type) where
  /-- Its number. -/
  id : α
  /-- Where it stands. -/
  span : Span
  deriving DecidableEq

/-- An expression with everything below it. -/
inductive ExprTree where
  | ident (site : Site ExprId) (name : Name)
  | int (site : Site ExprId) (value : Int)
  | binary (site : Site ExprId) (op : BinaryOp) (left right : ExprTree)
  | unary (site : Site ExprId) (op : UnaryOp) (operand : ExprTree)
  | paren (site : Site ExprId) (inner : ExprTree)
  | call (site : Site ExprId) (callee : Name) (args : List ExprTree)
  | error (site : Site ExprId)

/-- A statement with everything below it. -/
inductive StmtTree where
  | var (site : Site StmtId) (name : Name) (init : Option ExprTree)
  | assign (site : Site StmtId) (target : Name) (value : ExprTree)
  | block (site : Site StmtId) (body : List StmtTree)
  | expr (site : Site StmtId) (value : ExprTree)
  | error (site : Site StmtId)

namespace NodeStore

/-- The tree below an expression node, if it ends within the given number of levels. -/
def unfoldExpr (store : NodeStore) : Nat → ExprId → Option ExprTree
  | 0, _ => none
  | level + 1, id => do
    let e ← (store.expr id).toOption
    match e.kind with
    | .ident name => return .ident ⟨id, e.span⟩ name
    | .int value => return .int ⟨id, e.span⟩ value
    | .binary op left right =>
      let left ← unfoldExpr store level left
      let right ← unfoldExpr store level right
      return .binary ⟨id, e.span⟩ op left right
    | .unary op operand =>
      let operand ← unfoldExpr store level operand
      return .unary ⟨id, e.span⟩ op operand
    | .paren inner =>
      let inner ← unfoldExpr store level inner
      return .paren ⟨id, e.span⟩ inner
    | .call callee args =>
      let args ← (store.exprList args).toOption
      let args ← args.mapM (unfoldExpr store level)
      return .call ⟨id, e.span⟩ callee args
    | .error => return .error ⟨id, e.span⟩

/-- The tree below an expression node. No more levels than nodes are needed, unless a node
contains itself. -/
def exprTree (store : NodeStore) (id : ExprId) : Option ExprTree :=
  store.unfoldExpr (store.exprs.size + 1) id

/-- The tree below a statement node, if it ends within the given number of levels. -/
def unfoldStmt (store : NodeStore) : Nat → StmtId → Option StmtTree
  | 0, _ => none
  | level + 1, id => do
    let s ← (store.stmt id).toOption
    match s.kind with
    | .var name none => return .var ⟨id, s.span⟩ name none
    | .var name (some init) =>
      let init ← store.exprTree init
      return .var ⟨id, s.span⟩ name (some init)
    | .assign target value =>
      let value ← store.exprTree value
      return .assign ⟨id, s.span⟩ target value
    | .block body =>
      let body ← (store.stmtList body).toOption
      let body ← body.mapM (unfoldStmt store level)
      return .block ⟨id, s.span⟩ body
    | .expr value =>
      let value ← store.exprTree value
      return .expr ⟨id, s.span⟩ value
    | .error => return .error ⟨id, s.span⟩

/-- The tree below a statement node. -/
def stmtTree (store : NodeStore) (id : StmtId) : Option StmtTree :=
  store.unfoldStmt (store.stmts.size + 1) id

end NodeStore

@[simp]
theorem toOption_ok {α : Type} (a : α) : (Except.ok a : Except Fault α).toOption = some a := rfl

@[simp]
theorem toOption_eq_some_iff {α : Type} {x : Except Fault α} {a : α} :
    x.toOption = some a ↔ x = .ok a := by
  cases x <;> simp [Except.toOption]

/-- The trees of the functions' bodies, in order. -/
def SourceUnit.bodies (u : SourceUnit) : Option (List StmtTree) :=
  (u.functions.filterMap (·.body)).mapM u.nodes.stmtTree

/-! ## One level of a tree -/

/-- A tree with an expression node at its root and trees that stand `below` the nodes under it. -/
inductive ExprLevel (store : NodeStore) (below : ExprId → ExprTree → Prop) (id : ExprId) :
    ExprTree → Prop where
  | ident {span : Span} {n : Name} (node : store.expr id = .ok ⟨.ident n, span⟩) :
      ExprLevel store below id (.ident ⟨id, span⟩ n)
  | int {span : Span} {value : Int} (node : store.expr id = .ok ⟨.int value, span⟩) :
      ExprLevel store below id (.int ⟨id, span⟩ value)
  | binary {span : Span} {op : BinaryOp} {left right : ExprId} {l r : ExprTree}
      (node : store.expr id = .ok ⟨.binary op left right, span⟩) (first : below left l)
      (second : below right r) : ExprLevel store below id (.binary ⟨id, span⟩ op l r)
  | unary {span : Span} {op : UnaryOp} {operand : ExprId} {t : ExprTree}
      (node : store.expr id = .ok ⟨.unary op operand, span⟩) (operand : below operand t) :
      ExprLevel store below id (.unary ⟨id, span⟩ op t)
  | paren {span : Span} {inner : ExprId} {t : ExprTree}
      (node : store.expr id = .ok ⟨.paren inner, span⟩) (inner : below inner t) :
      ExprLevel store below id (.paren ⟨id, span⟩ t)
  | call {span : Span} {f : Name} {args : Slice ExprId} {ids : List ExprId} {ts : List ExprTree}
      (node : store.expr id = .ok ⟨.call f args, span⟩) (listed : store.exprList args = .ok ids)
      (args : List.Forall₂ below ids ts) : ExprLevel store below id (.call ⟨id, span⟩ f ts)
  | error {span : Span} (node : store.expr id = .ok ⟨.error, span⟩) :
      ExprLevel store below id (.error ⟨id, span⟩)

/-- A tree with a statement node at its root and trees that stand `below` the statements under
it. -/
inductive StmtLevel (store : NodeStore) (below : StmtId → StmtTree → Prop) (id : StmtId) :
    StmtTree → Prop where
  | var {span : Span} {n : Name} {init : Option ExprId} {t : Option ExprTree}
      (node : store.stmt id = .ok ⟨.var n init, span⟩) (value : init.mapM store.exprTree = some t) :
      StmtLevel store below id (.var ⟨id, span⟩ n t)
  | assign {span : Span} {n : Name} {value : ExprId} {t : ExprTree}
      (node : store.stmt id = .ok ⟨.assign n value, span⟩) (value : store.exprTree value = some t) :
      StmtLevel store below id (.assign ⟨id, span⟩ n t)
  | block {span : Span} {body : Slice StmtId} {ids : List StmtId} {ts : List StmtTree}
      (node : store.stmt id = .ok ⟨.block body, span⟩) (listed : store.stmtList body = .ok ids)
      (body : List.Forall₂ below ids ts) : StmtLevel store below id (.block ⟨id, span⟩ ts)
  | expr {span : Span} {value : ExprId} {t : ExprTree}
      (node : store.stmt id = .ok ⟨.expr value, span⟩) (value : store.exprTree value = some t) :
      StmtLevel store below id (.expr ⟨id, span⟩ t)
  | error {span : Span} (node : store.stmt id = .ok ⟨.error, span⟩) :
      StmtLevel store below id (.error ⟨id, span⟩)

theorem mapM_eq_some_iff {α β : Type} {f : α → Option β} {as : List α} {bs : List β} :
    as.mapM f = some bs ↔ List.Forall₂ (fun a b => f a = some b) as bs := by
  induction as generalizing bs with
  | nil => simp [eq_comm]
  | cons a as ih =>
    rw [List.forall₂_cons_left_iff]
    simp only [List.mapM_cons, Option.bind_eq_bind, Option.bind_eq_some_iff, ih, Option.pure_def,
      Option.some.injEq]
    constructor
    · rintro ⟨b, hb, bs', hbs', rfl⟩
      exact ⟨b, bs', hb, hbs', rfl⟩
    · rintro ⟨b, bs', hb, hbs', rfl⟩
      exact ⟨b, hb, bs', hbs', rfl⟩

/-- Every member of the second list is related to one of the first. -/
theorem exists_of_mem_right {α β : Type} {R : α → β → Prop} {as : List α} {bs : List β}
    (h : List.Forall₂ R as bs) {b : β} (hb : b ∈ bs) : ∃ a ∈ as, R a b := by
  induction h with
  | nil => exact absurd hb List.not_mem_nil
  | cons hfirst _ ih =>
    rcases List.mem_cons.mp hb with rfl | hb
    · exact ⟨_, List.mem_cons_self, hfirst⟩
    · obtain ⟨a, ha, hab⟩ := ih hb
      exact ⟨a, List.mem_cons_of_mem _ ha, hab⟩

theorem ExprLevel.imp {store : NodeStore} {below below' : ExprId → ExprTree → Prop} {id : ExprId}
    {t : ExprTree} (h : ExprLevel store below id t) (himp : ∀ id t, below id t → below' id t) :
    ExprLevel store below' id t := by
  cases h with
  | ident node => exact .ident node
  | int node => exact .int node
  | binary node first second => exact .binary node (himp _ _ first) (himp _ _ second)
  | unary node operand => exact .unary node (himp _ _ operand)
  | paren node inner => exact .paren node (himp _ _ inner)
  | call node listed args => exact .call node listed (args.imp himp)
  | error node => exact .error node

theorem StmtLevel.imp {store : NodeStore} {below below' : StmtId → StmtTree → Prop} {id : StmtId}
    {t : StmtTree} (h : StmtLevel store below id t) (himp : ∀ id t, below id t → below' id t) :
    StmtLevel store below' id t := by
  cases h with
  | var node value => exact .var node value
  | assign node value => exact .assign node value
  | block node listed body => exact .block node listed (body.imp himp)
  | expr node value => exact .expr node value
  | error node => exact .error node

namespace NodeStore

variable {store : NodeStore} {level level' : Nat}

/-- **The tree below an expression, by the trees one level further down.** -/
theorem unfoldExpr_succ {id : ExprId} {t : ExprTree} : store.unfoldExpr (level + 1) id = some t ↔
    ExprLevel store (fun id t => store.unfoldExpr level id = some t) id t := by
  constructor
  · intro h
    cases he : store.expr id with
    | error f => exact absurd h (by simp [unfoldExpr, he, Except.toOption])
    | ok e =>
      obtain ⟨kind, span⟩ := e
      cases kind with
      | ident n =>
        obtain rfl : ExprTree.ident ⟨id, span⟩ n = t := by simpa [unfoldExpr, he] using h
        exact .ident he
      | int value =>
        obtain rfl : ExprTree.int ⟨id, span⟩ value = t := by simpa [unfoldExpr, he] using h
        exact .int he
      | binary op left right =>
        obtain ⟨l, hl, r, hr, rfl⟩ : ∃ l, store.unfoldExpr level left = some l ∧
            ∃ r, store.unfoldExpr level right = some r ∧
              ExprTree.binary ⟨id, span⟩ op l r = t := by
          simpa [unfoldExpr, he, Option.bind_eq_some_iff] using h
        exact .binary he hl hr
      | unary op operand =>
        obtain ⟨x, hx, rfl⟩ : ∃ x, store.unfoldExpr level operand = some x ∧
            ExprTree.unary ⟨id, span⟩ op x = t := by
          simpa [unfoldExpr, he, Option.bind_eq_some_iff] using h
        exact .unary he hx
      | paren inner =>
        obtain ⟨x, hx, rfl⟩ : ∃ x, store.unfoldExpr level inner = some x ∧
            ExprTree.paren ⟨id, span⟩ x = t := by
          simpa [unfoldExpr, he, Option.bind_eq_some_iff] using h
        exact .paren he hx
      | call f args =>
        obtain ⟨ids, hids, ts, hts, rfl⟩ : ∃ ids, store.exprList args = .ok ids ∧
            ∃ ts, ids.mapM (store.unfoldExpr level) = some ts ∧
              ExprTree.call ⟨id, span⟩ f ts = t := by
          simpa [unfoldExpr, he, Option.bind_eq_some_iff] using h
        exact .call he hids (mapM_eq_some_iff.mp hts)
      | error =>
        obtain rfl : ExprTree.error ⟨id, span⟩ = t := by simpa [unfoldExpr, he] using h
        exact .error he
  · intro h
    cases h with
    | ident node => simp [unfoldExpr, node]
    | int node => simp [unfoldExpr, node]
    | binary node first second => simp [unfoldExpr, node, first, second]
    | unary node operand => simp [unfoldExpr, node, operand]
    | paren node inner => simp [unfoldExpr, node, inner]
    | call node listed args => simp [unfoldExpr, node, listed, mapM_eq_some_iff.mpr args]
    | error node => simp [unfoldExpr, node]

/-- With more levels the tree is the same. -/
theorem unfoldExpr_mono {id : ExprId} {t : ExprTree} (h : store.unfoldExpr level id = some t)
    (hle : level ≤ level') : store.unfoldExpr level' id = some t := by
  induction level generalizing level' id t with
  | zero => exact absurd h (by simp [unfoldExpr])
  | succ level ih =>
    cases level' with
    | zero => exact absurd hle (Nat.not_succ_le_zero level)
    | succ level' =>
      refine unfoldExpr_succ.mpr ((unfoldExpr_succ.mp h).imp fun id t ht => ?_)
      exact ih ht (Nat.le_of_succ_le_succ hle)

/-- **The tree below a statement, by the trees one level further down.** -/
theorem unfoldStmt_succ {id : StmtId} {t : StmtTree} : store.unfoldStmt (level + 1) id = some t ↔
    StmtLevel store (fun id t => store.unfoldStmt level id = some t) id t := by
  constructor
  · intro h
    cases hs : store.stmt id with
    | error f => exact absurd h (by simp [unfoldStmt, hs, Except.toOption])
    | ok s =>
      obtain ⟨kind, span⟩ := s
      cases kind with
      | var n init =>
        cases init with
        | none =>
          obtain rfl : StmtTree.var ⟨id, span⟩ n none = t := by simpa [unfoldStmt, hs] using h
          exact .var hs rfl
        | some init =>
          obtain ⟨x, hx, rfl⟩ : ∃ x, store.exprTree init = some x ∧
              StmtTree.var ⟨id, span⟩ n (some x) = t := by
            simpa [unfoldStmt, hs, Option.bind_eq_some_iff] using h
          exact .var hs (by simp [hx])
      | assign n value =>
        obtain ⟨x, hx, rfl⟩ : ∃ x, store.exprTree value = some x ∧
            StmtTree.assign ⟨id, span⟩ n x = t := by
          simpa [unfoldStmt, hs, Option.bind_eq_some_iff] using h
        exact .assign hs hx
      | block body =>
        obtain ⟨ids, hids, ts, hts, rfl⟩ : ∃ ids, store.stmtList body = .ok ids ∧
            ∃ ts, ids.mapM (store.unfoldStmt level) = some ts ∧
              StmtTree.block ⟨id, span⟩ ts = t := by
          simpa [unfoldStmt, hs, Option.bind_eq_some_iff] using h
        exact .block hs hids (mapM_eq_some_iff.mp hts)
      | expr value =>
        obtain ⟨x, hx, rfl⟩ : ∃ x, store.exprTree value = some x ∧
            StmtTree.expr ⟨id, span⟩ x = t := by
          simpa [unfoldStmt, hs, Option.bind_eq_some_iff] using h
        exact .expr hs hx
      | error =>
        obtain rfl : StmtTree.error ⟨id, span⟩ = t := by simpa [unfoldStmt, hs] using h
        exact .error hs
  · intro h
    cases h with
    | @var span n init t node value =>
      cases init with
      | none =>
        obtain rfl : none = t := by simpa using value
        simp [unfoldStmt, node]
      | some init =>
        obtain ⟨x, hx, rfl⟩ := Option.map_eq_some_iff.mp value
        simp [unfoldStmt, node, hx]
    | assign node value => simp [unfoldStmt, node, value]
    | block node listed body => simp [unfoldStmt, node, listed, mapM_eq_some_iff.mpr body]
    | expr node value => simp [unfoldStmt, node, value]
    | error node => simp [unfoldStmt, node]

theorem unfoldStmt_mono {id : StmtId} {t : StmtTree} (h : store.unfoldStmt level id = some t)
    (hle : level ≤ level') : store.unfoldStmt level' id = some t := by
  induction level generalizing level' id t with
  | zero => exact absurd h (by simp [unfoldStmt])
  | succ level ih =>
    cases level' with
    | zero => exact absurd hle (Nat.not_succ_le_zero level)
    | succ level' =>
      refine unfoldStmt_succ.mpr ((unfoldStmt_succ.mp h).imp fun id t ht => ?_)
      exact ih ht (Nat.le_of_succ_le_succ hle)

/-- There is one tree below a statement, however many levels are allowed. -/
theorem unfoldStmt_unique {id : StmtId} {t t' : StmtTree} (h : store.unfoldStmt level id = some t)
    (h' : store.unfoldStmt level' id = some t') : t = t' := by
  have hmore := unfoldStmt_mono h (Nat.le_add_right level level')
  have hmore' := unfoldStmt_mono h' (Nat.le_add_left level' level)
  exact Option.some.inj (hmore.symm.trans hmore')

end NodeStore

/-! ## Two small programs -/

namespace Counter

/-- The names of the program. -/
def names : NameTable := (NameTable.initial.internAll ["main", "x", "println", "tick"]).2

/-- A package with a variable `x`. Its function `main` declares an `x` of its own from it, changes
that in a block and prints it, and prints its opposite; its function `tick` multiplies the
variable of the package by seven. All uses of `x` are one node. -/
def program : SourceUnit where
  package := ⟨1⟩
  globals := [⟨⟨2⟩, ⟨0, 5⟩⟩]
  functions := [⟨⟨1⟩, some ⟨5⟩, ⟨6, 50⟩⟩, ⟨⟨3⟩, none, ⟨50, 60⟩⟩, ⟨⟨4⟩, some ⟨7⟩, ⟨60, 80⟩⟩]
  nodes :=
    { exprs := #[⟨.ident ⟨2⟩, ⟨15, 16⟩⟩, ⟨.int 2, ⟨22, 23⟩⟩, ⟨.binary .sub ⟨0⟩ ⟨1⟩, ⟨20, 23⟩⟩,
        ⟨.unary .pos ⟨2⟩, ⟨19, 23⟩⟩, ⟨.call ⟨3⟩ ⟨0, 1⟩, ⟨25, 30⟩⟩, ⟨.unary .neg ⟨0⟩, ⟨35, 37⟩⟩,
        ⟨.call ⟨3⟩ ⟨1, 1⟩, ⟨33, 38⟩⟩, ⟨.int 7, ⟨64, 65⟩⟩, ⟨.binary .mul ⟨7⟩ ⟨0⟩, ⟨64, 67⟩⟩]
      exprItems := #[⟨0⟩, ⟨5⟩]
      stmts := #[⟨.var ⟨2⟩ (some ⟨0⟩), ⟨10, 16⟩⟩, ⟨.assign ⟨2⟩ ⟨3⟩, ⟨18, 23⟩⟩,
        ⟨.expr ⟨4⟩, ⟨25, 30⟩⟩, ⟨.block ⟨0, 2⟩, ⟨17, 31⟩⟩, ⟨.expr ⟨6⟩, ⟨33, 38⟩⟩,
        ⟨.block ⟨2, 3⟩, ⟨8, 40⟩⟩, ⟨.assign ⟨2⟩ ⟨8⟩, ⟨62, 67⟩⟩, ⟨.block ⟨5, 1⟩, ⟨61, 68⟩⟩]
      stmtItems := #[⟨1⟩, ⟨2⟩, ⟨0⟩, ⟨3⟩, ⟨4⟩, ⟨6⟩] }

/-- A unit that is not accepted. Its function is
`{ { var tick = x; tick = tick % 2 }; tick = println(tick) }`: there is no code for `%`, and behind
the inner block `tick` is no variable. -/
def faulty : SourceUnit where
  package := ⟨1⟩
  globals := [⟨⟨2⟩, ⟨0, 5⟩⟩]
  functions := [⟨⟨1⟩, some ⟨4⟩, ⟨6, 62⟩⟩]
  nodes :=
    { exprs := #[⟨.ident ⟨2⟩, ⟨20, 21⟩⟩, ⟨.ident ⟨4⟩, ⟨30, 34⟩⟩, ⟨.int 2, ⟨37, 38⟩⟩,
        ⟨.binary .mod ⟨1⟩ ⟨2⟩, ⟨30, 38⟩⟩, ⟨.call ⟨3⟩ ⟨0, 1⟩, ⟨50, 60⟩⟩]
      exprItems := #[⟨1⟩]
      stmts := #[⟨.var ⟨4⟩ (some ⟨0⟩), ⟨14, 21⟩⟩, ⟨.assign ⟨4⟩ ⟨3⟩, ⟨23, 38⟩⟩,
        ⟨.block ⟨0, 2⟩, ⟨12, 40⟩⟩, ⟨.assign ⟨4⟩ ⟨4⟩, ⟨42, 60⟩⟩, ⟨.block ⟨2, 2⟩, ⟨10, 62⟩⟩]
      stmtItems := #[⟨0⟩, ⟨1⟩, ⟨2⟩, ⟨3⟩] }

end Counter

/-! ## Induction over statement lists -/

namespace StmtTree

mutual

theorem listInduction_stmt {P : List StmtTree → Prop} (nil : P [])
    (var : ∀ site name init rest, P rest → P (.var site name init :: rest))
    (assign : ∀ site target value rest, P rest → P (.assign site target value :: rest))
    (block : ∀ site body rest, P body → P rest → P (.block site body :: rest))
    (expr : ∀ site value rest, P rest → P (.expr site value :: rest))
    (error : ∀ site rest, P rest → P (.error site :: rest)) :
    ∀ (t : StmtTree) (rest : List StmtTree), P rest → P (t :: rest)
  | .var site name init, rest, h => var site name init rest h
  | .assign site target value, rest, h => assign site target value rest h
  | .block site body, rest, h =>
    block site body rest (listInduction nil var assign block expr error body) h
  | .expr site value, rest, h => expr site value rest h
  | .error site, rest, h => error site rest h

/-- Induction over a list of statements and the lists inside its blocks. -/
theorem listInduction {P : List StmtTree → Prop} (nil : P [])
    (var : ∀ site name init rest, P rest → P (.var site name init :: rest))
    (assign : ∀ site target value rest, P rest → P (.assign site target value :: rest))
    (block : ∀ site body rest, P body → P rest → P (.block site body :: rest))
    (expr : ∀ site value rest, P rest → P (.expr site value :: rest))
    (error : ∀ site rest, P rest → P (.error site :: rest)) :
    ∀ ts : List StmtTree, P ts
  | [] => nil
  | t :: rest =>
    listInduction_stmt nil var assign block expr error t rest
      (listInduction nil var assign block expr error rest)

end

end StmtTree

end RegisterCode
