import Mathlib.Data.List.Nodup
import Mathlib.Data.List.Perm.Subperm
import Mathlib.Logic.Relation
import RegisterCode.Proofs.Naming
import RegisterCode.Proofs.Tree
import RegisterCode.Source.Rendering

/-!
# Well-formed source units

A unit is in bounds if everything that its declarations and nodes refer to is there: names, nodes
and lists. It is well formed if moreover no node contains itself. The walks over a unit count
levels; here it is shown that no walk over a well-formed unit runs out of them. The reason is that
the nodes above a node are pairwise different (`level_induction`).

A single node may be sound in a unit that is not: then all that is in it is in bounds, and every
way down from it ends (`Throughout`).

Results:
* `exists_exprTree`, `exists_stmtTree`: there is a tree below every node.
* `Closed.exprText`, `Closed.stmtText`: every node in bounds has a text, which a larger table of
  names does not change.
* `Throughout.levels`: no walk down from a sound node runs out of levels.
* `SourceUnit.InBounds.wellFormed`: a unit in bounds whose nodes only contain nodes with smaller
  numbers is well formed.
-/

namespace RegisterCode

/-! ## What nodes refer to -/

/-- The number of a node of either kind. -/
inductive NodeId where
  | expr (id : ExprId)
  | stmt (id : StmtId)
  deriving DecidableEq

/-- The elements of a slice, as far as the table has them. -/
def Slice.items {α : Type} (s : Slice α) (table : Array α) : List α :=
  (table.extract s.start (s.start + s.length)).toList

theorem Slice.read_eq_items {α : Type} {s : Slice α} {table : Array α}
    (h : s.start + s.length ≤ table.size) : s.read table = .ok (s.items table) := by
  unfold read
  rw [if_neg (by omega), if_neg (by omega)]
  rfl

/-- A slice is read if it lies inside the table, and then gives the elements there. -/
theorem Slice.read_eq_ok_iff {α : Type} {s : Slice α} {table : Array α} {items : List α} :
    s.read table = .ok items ↔ s.start + s.length ≤ table.size ∧ s.items table = items := by
  by_cases hle : s.start + s.length ≤ table.size
  · simp [Slice.read_eq_items hle, hle]
  · simp only [hle, false_and, iff_false]
    unfold Slice.read
    split
    · simp
    · rw [if_pos (by omega)]
      simp

namespace ExprKind

/-- The nodes directly below an expression. -/
def children (store : NodeStore) : ExprKind → List ExprId
  | .ident _ | .int _ | .error => []
  | .binary _ left right => [left, right]
  | .unary _ operand => [operand]
  | .paren inner => [inner]
  | .call _ args => args.items store.exprItems

/-- All that an expression refers to is there. -/
def InBounds (store : NodeStore) (names : NameTable) (kind : ExprKind) : Prop :=
  (∀ c ∈ kind.children store, c.index < store.exprs.size) ∧
    match kind with
    | .ident n => n.index < names.size
    | .call f args => f.index < names.size ∧ args.start + args.length ≤ store.exprItems.size
    | .int _ | .binary .. | .unary .. | .paren _ | .error => True

instance (store : NodeStore) (names : NameTable) (kind : ExprKind) :
    Decidable (kind.InBounds store names) :=
  have : Decidable (match kind with
      | .ident n => n.index < names.size
      | .call f args => f.index < names.size ∧ args.start + args.length ≤ store.exprItems.size
      | .int _ | .binary .. | .unary .. | .paren _ | .error => True) :=
    match kind with
    | .ident n => inferInstanceAs (Decidable (n.index < names.size))
    | .call f _ => inferInstanceAs (Decidable (f.index < names.size ∧ _))
    | .int _ | .binary .. | .unary .. | .paren _ | .error => inferInstanceAs (Decidable True)
  inferInstanceAs (Decidable (_ ∧ _))

end ExprKind

namespace StmtKind

/-- The statements directly below a statement. -/
def children (store : NodeStore) : StmtKind → List StmtId
  | .block body => body.items store.stmtItems
  | .var .. | .assign .. | .expr _ | .error => []

/-- The expressions directly below a statement. -/
def exprs : StmtKind → List ExprId
  | .var _ init => init.toList
  | .assign _ value | .expr value => [value]
  | .block _ | .error => []

/-- All that a statement refers to is there. -/
def InBounds (store : NodeStore) (names : NameTable) (kind : StmtKind) : Prop :=
  (∀ c ∈ kind.children store, c.index < store.stmts.size) ∧
    match kind with
    | .var n none => n.index < names.size
    | .var n (some init) => n.index < names.size ∧ init.index < store.exprs.size
    | .assign n value => n.index < names.size ∧ value.index < store.exprs.size
    | .block body => body.start + body.length ≤ store.stmtItems.size
    | .expr value => value.index < store.exprs.size
    | .error => True

instance (store : NodeStore) (names : NameTable) (kind : StmtKind) :
    Decidable (kind.InBounds store names) :=
  have : Decidable (match kind with
      | .var n none => n.index < names.size
      | .var n (some init) => n.index < names.size ∧ init.index < store.exprs.size
      | .assign n value => n.index < names.size ∧ value.index < store.exprs.size
      | .block body => body.start + body.length ≤ store.stmtItems.size
      | .expr value => value.index < store.exprs.size
      | .error => True) :=
    match kind with
    | .var n none => inferInstanceAs (Decidable (n.index < names.size))
    | .var n (some _) => inferInstanceAs (Decidable (n.index < names.size ∧ _))
    | .assign n _ => inferInstanceAs (Decidable (n.index < names.size ∧ _))
    | .block body => inferInstanceAs (Decidable (body.start + body.length ≤ _))
    | .expr value => inferInstanceAs (Decidable (value.index < _))
    | .error => inferInstanceAs (Decidable True)
  inferInstanceAs (Decidable (_ ∧ _))

/-- The name of a variable is there, with or without an initial value. -/
theorem InBounds.var_lt {store : NodeStore} {names : NameTable} {n : Name} {init : Option ExprId}
    (h : (StmtKind.var n init).InBounds store names) : n.index < names.size := by
  cases init with
  | none => exact h.2
  | some init => exact h.2.1

theorem InBounds.exprs {store : NodeStore} {names : NameTable} {kind : StmtKind}
    (h : kind.InBounds store names) : ∀ e ∈ kind.exprs, e.index < store.exprs.size := by
  obtain ⟨-, hkind⟩ := h
  intro e he
  cases kind with
  | var n init =>
    obtain rfl := Option.mem_toList.mp he
    exact hkind.2
  | assign n value =>
    obtain rfl := List.mem_singleton.mp he
    exact hkind.2
  | block body => exact absurd he List.not_mem_nil
  | expr value =>
    obtain rfl := List.mem_singleton.mp he
    exact hkind
  | error => exact absurd he List.not_mem_nil

end StmtKind

namespace NodeStore

variable {store : NodeStore} {names names' : NameTable}

/-- Everything that the nodes refer to is there. -/
structure InBounds (store : NodeStore) (names : NameTable) : Prop where
  exprs : ∀ e ∈ store.exprs, e.kind.InBounds store names
  stmts : ∀ s ∈ store.stmts, s.kind.InBounds store names

/-- Expression `c` stands directly below expression `p`. -/
def ExprBelow (store : NodeStore) (p c : ExprId) : Prop :=
  ∃ e, store.expr p = .ok e ∧ c ∈ e.kind.children store

/-- Statement `c` stands directly below statement `p`. -/
def StmtBelow (store : NodeStore) (p c : StmtId) : Prop :=
  ∃ s, store.stmt p = .ok s ∧ c ∈ s.kind.children store

/-- No node contains itself. -/
structure Acyclic (store : NodeStore) : Prop where
  exprs : ∀ id, ¬ Relation.TransGen store.ExprBelow id id
  stmts : ∀ id, ¬ Relation.TransGen store.StmtBelow id id

theorem expr_eq_ok {id : ExprId} {e : Expr} :
    store.expr id = .ok e ↔ store.exprs[id.index]? = some e := by
  unfold expr
  cases store.exprs[id.index]? <;> simp

theorem stmt_eq_ok {id : StmtId} {s : Stmt} :
    store.stmt id = .ok s ↔ store.stmts[id.index]? = some s := by
  unfold stmt
  cases store.stmts[id.index]? <;> simp

theorem exists_expr {id : ExprId} (h : id.index < store.exprs.size) :
    ∃ e, store.expr id = .ok e :=
  ⟨_, expr_eq_ok.mpr (Array.getElem?_eq_getElem h)⟩

theorem exists_stmt {id : StmtId} (h : id.index < store.stmts.size) :
    ∃ s, store.stmt id = .ok s :=
  ⟨_, stmt_eq_ok.mpr (Array.getElem?_eq_getElem h)⟩

theorem index_lt_of_expr {id : ExprId} {e : Expr} (h : store.expr id = .ok e) :
    id.index < store.exprs.size :=
  (Array.getElem?_eq_some_iff.mp (expr_eq_ok.mp h)).1

theorem index_lt_of_stmt {id : StmtId} {s : Stmt} (h : store.stmt id = .ok s) :
    id.index < store.stmts.size :=
  (Array.getElem?_eq_some_iff.mp (stmt_eq_ok.mp h)).1

theorem InBounds.expr (h : store.InBounds names) {id : ExprId} {e : Expr}
    (he : store.expr id = .ok e) : e.kind.InBounds store names :=
  h.exprs e (Array.mem_of_getElem? (expr_eq_ok.mp he))

theorem InBounds.stmt (h : store.InBounds names) {id : StmtId} {s : Stmt}
    (hs : store.stmt id = .ok s) : s.kind.InBounds store names :=
  h.stmts s (Array.mem_of_getElem? (stmt_eq_ok.mp hs))

theorem InBounds.exprList (h : store.InBounds names) {id : ExprId} {e : Expr} {f : Name}
    {args : Slice ExprId} (he : store.expr id = .ok e) (hk : e.kind = .call f args) :
    store.exprList args = .ok (args.items store.exprItems) := by
  have hb := h.expr he
  rw [hk] at hb
  exact Slice.read_eq_items hb.2.2

theorem InBounds.stmtList (h : store.InBounds names) {id : StmtId} {s : Stmt}
    {body : Slice StmtId} (hs : store.stmt id = .ok s) (hk : s.kind = .block body) :
    store.stmtList body = .ok (body.items store.stmtItems) := by
  have hb := h.stmt hs
  rw [hk] at hb
  exact Slice.read_eq_items hb.2

/-! ## Enough levels -/

/-- Going down from `a` along an acyclic relation among `size` things takes at most `size` steps:
what holds of a thing as soon as it holds of all below it, one level further down, holds of `a`
with one level more than there are things. -/
theorem level_induction {α : Type} {index : α → Nat} (hindex : Function.Injective index)
    {below : α → α → Prop} {size : Nat} (hacyclic : ∀ a, ¬ Relation.TransGen below a a)
    (hsize : ∀ a b, below a b → index b < size) {P : Nat → α → Prop}
    (step : ∀ level a, index a < size → (∀ b, below a b → P level b) → P (level + 1) a)
    {a : α} (ha : index a < size) : P (size + 1) a := by
  -- `above` lists the things on the way down to `a`
  have descend : ∀ level (above : List α) (a : α), above.Nodup →
      (∀ p ∈ above, index p < size ∧ Relation.TransGen below p a) → index a < size →
      size < level + above.length → P level a := by
    intro level
    induction level with
    | zero =>
      intro above a hnodup habove _ hlen
      have hsub : above.map index ⊆ List.range size := by
        intro i hi
        obtain ⟨p, hp, rfl⟩ := List.mem_map.mp hi
        exact List.mem_range.mpr (habove p hp).1
      have hle := (List.subperm_of_subset (hnodup.map hindex) hsub).length_le
      rw [List.length_map, List.length_range] at hle
      omega
    | succ level ih =>
      intro above a hnodup habove ha hlen
      apply step level a ha
      intro b hab
      have hfresh : a ∉ above := fun hmem => hacyclic a (habove a hmem).2
      refine ih (a :: above) b (List.nodup_cons.mpr ⟨hfresh, hnodup⟩) ?_ (hsize a b hab) ?_
      · intro p hp
        rcases List.mem_cons.mp hp with rfl | hp
        · exact ⟨ha, .single hab⟩
        · exact ⟨(habove p hp).1, (habove p hp).2.tail hab⟩
      · rw [List.length_cons]
        omega
  exact descend (size + 1) [] a List.nodup_nil (by simp) ha (by simp)

theorem exprIndex_injective : Function.Injective ExprId.index := by
  rintro ⟨i⟩ ⟨j⟩ h
  exact congrArg ExprId.mk h

theorem stmtIndex_injective : Function.Injective StmtId.index := by
  rintro ⟨i⟩ ⟨j⟩ h
  exact congrArg StmtId.mk h

/-- If every member of a list is related to something, the list is related to a list. -/
theorem exists_forall₂ {α β : Type} {R : α → β → Prop} {as : List α} (h : ∀ a ∈ as, ∃ b, R a b) :
    ∃ bs, List.Forall₂ R as bs := by
  induction as with
  | nil => exact ⟨[], .nil⟩
  | cons a as ih =>
    obtain ⟨b, hb⟩ := h a List.mem_cons_self
    obtain ⟨bs, hbs⟩ := ih fun a' ha' => h a' (List.mem_cons_of_mem a ha')
    exact ⟨b :: bs, .cons hb hbs⟩

/-- **Below every expression of a well-formed store there is a tree.** -/
theorem exists_exprTree (hb : store.InBounds names) (ha : store.Acyclic) {id : ExprId}
    (hid : id.index < store.exprs.size) : ∃ t, store.exprTree id = some t := by
  refine level_induction (P := fun level id => ∃ t, store.unfoldExpr level id = some t)
    exprIndex_injective ha.exprs ?_ ?_ hid
  · rintro p c ⟨e, he, hc⟩
    exact (hb.expr he).1 c hc
  · intro level id hid below
    obtain ⟨⟨kind, span⟩, node⟩ := exists_expr hid
    have hchild : ∀ c ∈ kind.children store, ∃ t, store.unfoldExpr level c = some t :=
      fun c hc => below c ⟨_, node, hc⟩
    cases kind with
    | ident n => exact ⟨_, unfoldExpr_succ.mpr (.ident node)⟩
    | int n => exact ⟨_, unfoldExpr_succ.mpr (.int node)⟩
    | error => exact ⟨_, unfoldExpr_succ.mpr (.error node)⟩
    | binary op left right =>
      obtain ⟨l, hl⟩ := hchild left (by simp [ExprKind.children])
      obtain ⟨r, hr⟩ := hchild right (by simp [ExprKind.children])
      exact ⟨_, unfoldExpr_succ.mpr (.binary node hl hr)⟩
    | unary op operand =>
      obtain ⟨t, ht⟩ := hchild operand List.mem_cons_self
      exact ⟨_, unfoldExpr_succ.mpr (.unary node ht)⟩
    | paren inner =>
      obtain ⟨t, ht⟩ := hchild inner List.mem_cons_self
      exact ⟨_, unfoldExpr_succ.mpr (.paren node ht)⟩
    | call f args =>
      obtain ⟨ts, hts⟩ := exists_forall₂ hchild
      exact ⟨_, unfoldExpr_succ.mpr (.call node (hb.exprList node rfl) hts)⟩

/-- **Below every statement of a well-formed store there is a tree.** -/
theorem exists_stmtTree (hb : store.InBounds names) (ha : store.Acyclic) {id : StmtId}
    (hid : id.index < store.stmts.size) : ∃ t, store.stmtTree id = some t := by
  refine level_induction (P := fun level id => ∃ t, store.unfoldStmt level id = some t)
    stmtIndex_injective ha.stmts ?_ ?_ hid
  · rintro p c ⟨s, hs, hc⟩
    exact (hb.stmt hs).1 c hc
  · intro level id hid below
    obtain ⟨⟨kind, span⟩, node⟩ := exists_stmt hid
    have hchild : ∀ c ∈ kind.children store, ∃ t, store.unfoldStmt level c = some t :=
      fun c hc => below c ⟨_, node, hc⟩
    have hexprs : ∀ e ∈ kind.exprs, ∃ t, store.exprTree e = some t :=
      fun e he => exists_exprTree hb ha ((hb.stmt node).exprs e he)
    cases kind with
    | var n init =>
      cases init with
      | none => exact ⟨_, unfoldStmt_succ.mpr (.var node rfl)⟩
      | some init =>
        obtain ⟨t, ht⟩ := hexprs init List.mem_cons_self
        exact ⟨_, unfoldStmt_succ.mpr (.var node (Option.map_eq_some_iff.mpr ⟨t, ht, rfl⟩))⟩
    | assign n value =>
      obtain ⟨t, ht⟩ := hexprs value List.mem_cons_self
      exact ⟨_, unfoldStmt_succ.mpr (.assign node ht)⟩
    | block body =>
      obtain ⟨ts, hts⟩ := exists_forall₂ hchild
      exact ⟨_, unfoldStmt_succ.mpr (.block node (hb.stmtList node rfl) hts)⟩
    | expr value =>
      obtain ⟨t, ht⟩ := hexprs value List.mem_cons_self
      exact ⟨_, unfoldStmt_succ.mpr (.expr node ht)⟩
    | error => exact ⟨_, unfoldStmt_succ.mpr (.error node)⟩

/-! ## Texts -/

/-- A name that is in bounds has one text in all larger tables. -/
theorem exists_lookup (hext : names.Extends names') {n : Name} (hn : n.index < names.size) :
    ∃ text, names.lookup n = .ok text ∧ names'.lookup n = .ok text := by
  obtain ⟨text, ht⟩ := InternTable.exists_text hn
  exact ⟨text, InternTable.lookup_eq_ok_iff.mpr ht,
    InternTable.lookup_eq_ok_iff.mpr (hext n text ht)⟩

theorem exists_mapM {α β : Type} {f g : α → Except Fault β} {as : List α}
    (h : ∀ a ∈ as, ∃ b, f a = .ok b ∧ g a = .ok b) :
    ∃ bs, as.mapM f = .ok bs ∧ as.mapM g = .ok bs := by
  induction as with
  | nil => exact ⟨[], rfl, rfl⟩
  | cons a as ih =>
    obtain ⟨b, hf, hg⟩ := h a List.mem_cons_self
    obtain ⟨bs, hfs, hgs⟩ := ih fun a' ha' => h a' (List.mem_cons_of_mem a ha')
    refine ⟨b :: bs, ?_, ?_⟩
    · rw [List.mapM_cons, hf, hfs]
      rfl
    · rw [List.mapM_cons, hg, hgs]
      rfl

@[simp]
theorem ok_bind {α β : Type} (a : α) (f : α → Except Fault β) : (Except.ok a >>= f) = f a := rfl

/-- The expressions with `P` and the statements with `Q` are in bounds and contain no others. -/
structure Closed (store : NodeStore) (names : NameTable) (P : ExprId → Prop) (Q : StmtId → Prop) :
    Prop where
  expr : ∀ {id}, P id → ∃ e, store.expr id = .ok e ∧ e.kind.InBounds store names ∧
    ∀ c ∈ e.kind.children store, P c
  stmt : ∀ {id}, Q id → ∃ s, store.stmt id = .ok s ∧ s.kind.InBounds store names ∧
    (∀ e ∈ s.kind.exprs, P e) ∧ ∀ c ∈ s.kind.children store, Q c

theorem InBounds.closed (h : store.InBounds names) :
    store.Closed names (·.index < store.exprs.size) (·.index < store.stmts.size) where
  expr hid := by
    obtain ⟨e, he⟩ := exists_expr hid
    exact ⟨e, he, h.expr he, (h.expr he).1⟩
  stmt hid := by
    obtain ⟨s, hs⟩ := exists_stmt hid
    exact ⟨s, hs, h.stmt hs, (h.stmt hs).exprs, (h.stmt hs).1⟩

section Closed

variable {P : ExprId → Prop} {Q : StmtId → Prop}

/-- An expression in bounds has a text at every depth, the same in all larger tables of names. -/
theorem Closed.exprText (h : store.Closed names P Q) (hext : names.Extends names') (depth : Nat)
    {id : ExprId} (hid : P id) :
    ∃ text, Rendering.exprText store names depth id = .ok text ∧
      Rendering.exprText store names' depth id = .ok text := by
  induction depth using Rendering.depth_induction generalizing id with
  | beyond depth hlt =>
    exact ⟨_, Rendering.exprText_of_lt hlt id, Rendering.exprText_of_lt hlt id⟩
  | step depth hle ih =>
    obtain ⟨e, he, ⟨-, hkind⟩, hchild⟩ := h.expr hid
    rw [Rendering.exprText, Rendering.exprText]
    simp only [if_neg (Nat.not_lt.mpr hle), he, ok_bind]
    cases hk : e.kind with
    | ident n =>
      rw [hk] at hkind
      exact exists_lookup hext hkind
    | int n => exact ⟨_, rfl, rfl⟩
    | error => exact ⟨_, rfl, rfl⟩
    | binary op left right =>
      rw [hk] at hchild
      obtain ⟨l, hl, hl'⟩ := ih (hchild left (by simp [ExprKind.children]))
      obtain ⟨r, hr, hr'⟩ := ih (hchild right (by simp [ExprKind.children]))
      simp only [hl, hl', hr, hr', ok_bind]
      exact ⟨_, rfl, rfl⟩
    | unary op operand =>
      rw [hk] at hchild
      obtain ⟨t, ht, ht'⟩ := ih (hchild operand (by simp [ExprKind.children]))
      simp only [ht, ht', ok_bind]
      exact ⟨_, rfl, rfl⟩
    | paren inner =>
      rw [hk] at hchild
      obtain ⟨t, ht, ht'⟩ := ih (hchild inner (by simp [ExprKind.children]))
      simp only [ht, ht', ok_bind]
      exact ⟨_, rfl, rfl⟩
    | call f args =>
      rw [hk] at hchild hkind
      obtain ⟨name, hn, hn'⟩ := exists_lookup hext hkind.1
      obtain ⟨ts, hts, hts'⟩ := exists_mapM fun c hc => ih (hchild c hc)
      rw [ExprKind.children] at hts hts'
      simp only [hn, hn', exprList, Slice.read_eq_items hkind.2, hts, hts', ok_bind]
      exact ⟨_, rfl, rfl⟩

/-- A statement in bounds has a text at every depth, the same in all larger tables of names. -/
theorem Closed.stmtText (h : store.Closed names P Q) (hext : names.Extends names') (depth : Nat)
    {id : StmtId} (hid : Q id) :
    ∃ text, Rendering.stmtText store names depth id = .ok text ∧
      Rendering.stmtText store names' depth id = .ok text := by
  induction depth using Rendering.depth_induction generalizing id with
  | beyond depth hlt =>
    exact ⟨_, Rendering.stmtText_of_lt hlt id, Rendering.stmtText_of_lt hlt id⟩
  | step depth hle ih =>
    obtain ⟨s, hs, ⟨-, hkind⟩, hexprs, hchild⟩ := h.stmt hid
    rw [Rendering.stmtText, Rendering.stmtText]
    simp only [if_neg (Nat.not_lt.mpr hle), hs, ok_bind]
    cases hk : s.kind with
    | var n init =>
      rw [hk] at hkind hexprs
      cases init with
      | none =>
        obtain ⟨name, hn, hn'⟩ := exists_lookup hext hkind
        simp only [hn, hn', ok_bind]
        exact ⟨_, rfl, rfl⟩
      | some init =>
        obtain ⟨name, hn, hn'⟩ := exists_lookup hext hkind.1
        obtain ⟨t, ht, ht'⟩ := h.exprText hext (depth + 1) (hexprs init (by simp [StmtKind.exprs]))
        simp only [hn, hn', ht, ht', ok_bind]
        exact ⟨_, rfl, rfl⟩
    | assign n value =>
      rw [hk] at hkind hexprs
      obtain ⟨name, hn, hn'⟩ := exists_lookup hext hkind.1
      obtain ⟨t, ht, ht'⟩ := h.exprText hext (depth + 1) (hexprs value (by simp [StmtKind.exprs]))
      simp only [hn, hn', ht, ht', ok_bind]
      exact ⟨_, rfl, rfl⟩
    | block body =>
      rw [hk] at hchild hkind
      obtain ⟨ts, hts, hts'⟩ := exists_mapM fun c hc => ih (hchild c hc)
      rw [StmtKind.children] at hts hts'
      simp only [stmtList, Slice.read_eq_items hkind, hts, hts', ok_bind]
      split
      · exact ⟨_, rfl, rfl⟩
      · exact ⟨_, rfl, rfl⟩
    | expr value =>
      rw [hk] at hexprs
      exact h.exprText hext (depth + 1) (hexprs value (by simp [StmtKind.exprs]))
    | error => exact ⟨_, rfl, rfl⟩

end Closed

/-- An expression of a store in bounds has a text at every depth, the same in all larger tables of
names. -/
theorem exprText_of_inBounds (hb : store.InBounds names) (hext : names.Extends names')
    (depth : Nat) {id : ExprId} (hid : id.index < store.exprs.size) :
    ∃ text, Rendering.exprText store names depth id = .ok text ∧
      Rendering.exprText store names' depth id = .ok text :=
  hb.closed.exprText hext depth hid

/-- A statement of a store in bounds has a text at every depth, the same in all larger tables of
names. -/
theorem stmtText_of_inBounds (hb : store.InBounds names) (hext : names.Extends names')
    (depth : Nat) {id : StmtId} (hid : id.index < store.stmts.size) :
    ∃ text, Rendering.stmtText store names depth id = .ok text ∧
      Rendering.stmtText store names' depth id = .ok text :=
  hb.closed.stmtText hext depth hid

/-! ## Nodes that are sound from the top down -/

/-- `good` holds of a thing and of all below it, and every way down ends. -/
inductive Throughout {α : Type} (below : α → α → Prop) (good : α → Prop) : α → Prop where
  | intro {a : α} (here : good a) (under : ∀ b, below a b → Throughout below good b) :
    Throughout below good a

namespace Throughout

variable {α : Type} {below : α → α → Prop} {good : α → Prop} {a : α}

theorem here (h : Throughout below good a) : good a := by
  obtain ⟨hgood, -⟩ := h
  exact hgood

theorem under (h : Throughout below good a) {b : α} (hb : below a b) :
    Throughout below good b := by
  obtain ⟨-, hunder⟩ := h
  exact hunder b hb

theorem not_transGen (h : Throughout below good a) : ¬ Relation.TransGen below a a := by
  induction h with
  | intro _ _ ih =>
    intro hcycle
    obtain ⟨b, hab, hba⟩ := Relation.TransGen.head'_iff.mp hcycle
    exact ih b hab (.tail' hba hab)

variable {index : α → Nat} {size : Nat}

/-- What is good everywhere is so throughout, if no way down comes back. -/
theorem of_acyclic (hindex : Function.Injective index)
    (hacyclic : ∀ a, ¬ Relation.TransGen below a a) (hsize : ∀ a b, below a b → index b < size)
    (hgood : ∀ a, index a < size → good a) (ha : index a < size) : Throughout below good a :=
  level_induction (P := fun _ a => Throughout below good a) hindex hacyclic hsize
    (fun _ a ha hunder => ⟨hgood a ha, hunder⟩) ha

/-- Going down from a thing that is good throughout takes no more steps than there are things. -/
theorem levels (h : Throughout below good a) (hindex : Function.Injective index)
    (hsize : ∀ a, good a → index a < size) {P : Nat → α → Prop}
    (step : ∀ level a, Throughout below good a → (∀ b, below a b → P level b) →
      P (level + 1) a) : P (size + 1) a := by
  -- elsewhere there may be cycles, so only steps from things that are good throughout count
  have hacyclic :
      ∀ a, ¬ Relation.TransGen (fun a b => Throughout below good a ∧ below a b) a a := by
    intro a hcycle
    obtain ⟨b, ⟨ha, -⟩, -⟩ := Relation.TransGen.head'_iff.mp hcycle
    exact ha.not_transGen (Relation.TransGen.mono (fun _ _ hstep => hstep.2) _ _ hcycle)
  refine level_induction (P := fun level a => Throughout below good a → P level a) hindex hacyclic
    ?_ ?_ (hsize a h.here) h
  · rintro a b ⟨ha, hab⟩
    exact hsize b (ha.under hab).here
  · intro level a _ hbelow ha
    exact step level a ha fun b hab => hbelow b ⟨ha, hab⟩ (ha.under hab)

end Throughout

/-- An expression that is in bounds and does not contain itself, and so is everything in it. -/
def ExprSound (store : NodeStore) (names : NameTable) : ExprId → Prop :=
  Throughout store.ExprBelow fun id => ∃ e, store.expr id = .ok e ∧ e.kind.InBounds store names

/-- A statement that is in bounds and does not contain itself, and so is everything in it. -/
def StmtSound (store : NodeStore) (names : NameTable) : StmtId → Prop :=
  Throughout store.StmtBelow fun id => ∃ s, store.stmt id = .ok s ∧
    s.kind.InBounds store names ∧ ∀ e ∈ s.kind.exprs, store.ExprSound names e

theorem sound_closed (store : NodeStore) (names : NameTable) :
    store.Closed names (store.ExprSound names) (store.StmtSound names) where
  expr h := by
    obtain ⟨e, he, hkind⟩ := h.here
    exact ⟨e, he, hkind, fun c hc => h.under ⟨e, he, hc⟩⟩
  stmt h := by
    obtain ⟨s, hs, hkind, hexprs⟩ := h.here
    exact ⟨s, hs, hkind, hexprs, fun c hc => h.under ⟨s, hs, hc⟩⟩

/-- All expressions of a well-formed store are sound. -/
theorem InBounds.exprSound (hb : store.InBounds names) (ha : store.Acyclic) {id : ExprId}
    (hid : id.index < store.exprs.size) : store.ExprSound names id := by
  refine Throughout.of_acyclic exprIndex_injective ha.exprs ?_ (fun id hid => ?_) hid
  · rintro p c ⟨e, he, hc⟩
    exact (hb.expr he).1 c hc
  · obtain ⟨e, he, hkind, -⟩ := hb.closed.expr hid
    exact ⟨e, he, hkind⟩

/-- All statements of a well-formed store are sound. -/
theorem InBounds.stmtSound (hb : store.InBounds names) (ha : store.Acyclic) {id : StmtId}
    (hid : id.index < store.stmts.size) : store.StmtSound names id := by
  refine Throughout.of_acyclic stmtIndex_injective ha.stmts ?_ (fun id hid => ?_) hid
  · rintro p c ⟨s, hs, hc⟩
    exact (hb.stmt hs).1 c hc
  · obtain ⟨s, hs, hkind, hexprs, -⟩ := hb.closed.stmt hid
    exact ⟨s, hs, hkind, fun e he => hb.exprSound ha (hexprs e he)⟩

/-! ## Stores whose nodes contain nodes with smaller numbers -/

/-- Every node only contains nodes that were added before it. -/
structure Descending (store : NodeStore) : Prop where
  exprs : ∀ i (h : i < store.exprs.size), ∀ c ∈ store.exprs[i].kind.children store, c.index < i
  stmts : ∀ i (h : i < store.stmts.size), ∀ c ∈ store.stmts[i].kind.children store, c.index < i

theorem not_transGen_of_lt {α : Type} (index : α → Nat) {below : α → α → Prop}
    (h : ∀ p c, below p c → index c < index p) (a : α) : ¬ Relation.TransGen below a a := by
  have hlt : ∀ c, Relation.TransGen below a c → index c < index a := by
    intro c hc
    induction hc with
    | single hab => exact h a _ hab
    | tail _ hbc ih => exact Nat.lt_trans (h _ _ hbc) ih
  exact fun hcycle => Nat.lt_irrefl _ (hlt a hcycle)

/-- Numbers that get smaller from node to node do not come back. -/
theorem Descending.acyclic (h : store.Descending) : store.Acyclic where
  exprs := by
    refine not_transGen_of_lt ExprId.index ?_
    rintro p c ⟨e, he, hc⟩
    obtain ⟨hlt, rfl⟩ := Array.getElem?_eq_some_iff.mp (expr_eq_ok.mp he)
    exact h.exprs p.index hlt c hc
  stmts := by
    refine not_transGen_of_lt StmtId.index ?_
    rintro p c ⟨s, hs, hc⟩
    obtain ⟨hlt, rfl⟩ := Array.getElem?_eq_some_iff.mp (stmt_eq_ok.mp hs)
    exact h.stmts p.index hlt c hc

end NodeStore

/-! ## Units -/

namespace SourceUnit

/-- Everything that the unit refers to is there. -/
structure InBounds (u : SourceUnit) (names : NameTable) : Prop where
  package : u.package.index < names.size
  globals : ∀ g ∈ u.globals, g.name.index < names.size
  functions : ∀ f ∈ u.functions, f.name.index < names.size
  bodies : ∀ f ∈ u.functions, ∀ id, f.body = some id → id.index < u.nodes.stmts.size
  nodes : u.nodes.InBounds names

/-- Everything that the unit refers to is there, and no node contains itself. -/
structure WellFormed (u : SourceUnit) (names : NameTable) : Prop extends u.InBounds names where
  acyclic : u.nodes.Acyclic

variable {u : SourceUnit} {names : NameTable}

/-- A unit in bounds whose nodes only contain nodes with smaller numbers is well formed. -/
theorem InBounds.wellFormed (h : u.InBounds names) (hd : u.nodes.Descending) :
    u.WellFormed names :=
  ⟨h, hd.acyclic⟩

/-- **The bodies of a well-formed unit are trees.** -/
theorem WellFormed.exists_bodies (h : u.WellFormed names) : ∃ ts, u.bodies = some ts := by
  have hbodies : ∀ id ∈ u.functions.filterMap (·.body), ∃ t, u.nodes.stmtTree id = some t := by
    intro id hid
    obtain ⟨f, hf, hbody⟩ := List.mem_filterMap.mp hid
    exact NodeStore.exists_stmtTree h.nodes h.acyclic (h.bodies f hf id hbody)
  obtain ⟨ts, hts⟩ := NodeStore.exists_forall₂ hbodies
  exact ⟨ts, mapM_eq_some_iff.mpr hts⟩

end SourceUnit

namespace Counter

theorem program_inBounds : program.InBounds names where
  package := by decide
  globals := by decide
  functions := by decide
  bodies := by decide
  nodes := ⟨by decide, by decide⟩

theorem program_descending : program.nodes.Descending where
  exprs := by decide
  stmts := by decide

theorem faulty_inBounds : faulty.InBounds names where
  package := by decide
  globals := by decide
  functions := by decide
  bodies := by decide
  nodes := ⟨by decide, by decide⟩

theorem faulty_descending : faulty.nodes.Descending where
  exprs := by decide
  stmts := by decide

end Counter

end RegisterCode
