import RegisterCode.Proofs.Growth
import RegisterCode.Proofs.Interchange

/-!
# Blocks that hold one statement

A statement may be put into a block of its own. The block opens a scope in which nothing is bound
unless the statement declares a variable, and such a scope changes nothing: what a name stands for
only depends on what is found in the open scopes together (`StmtsCode` reads the layers through
`Layer.find`). A variable that is declared in the block is gone behind it, so declarations are not
to be wrapped, except for the last statement of a function.

Results:
* `Padded.stmtsCode`, `Padded.offences`: statements in blocks of their own have the same code, and
  the same nodes offend.
* `NodeStore.Wraps.acyclic`: wrapping leads into no circle.
* `Compiler.redundant_blocks`: a unit with a wrapped body, or with a wrapped statement inside a
  block, has the same listing or the same failure.
-/

namespace RegisterCode

/-! ## Statements in blocks of their own -/

/-- `Padded ts ts'`: the statements `ts'` are `ts`, some of which are put into blocks of their own,
but no declaration. -/
inductive Padded : List StmtTree → List StmtTree → Prop where
  | nil : Padded [] []
  | leaf {t : StmtTree} {ts ts' : List StmtTree} (simple : ∀ site body, t ≠ .block site body)
      (rest : Padded ts ts') : Padded (t :: ts) (t :: ts')
  | block {site : Site StmtId} {body body' ts ts' : List StmtTree} (within : Padded body body')
      (rest : Padded ts ts') : Padded (.block site body :: ts) (.block site body' :: ts')
  | wrapped {site : Site StmtId} {t t' : StmtTree} {ts ts' : List StmtTree}
      (undeclared : t.declared = []) (inner : Padded [t] [t']) (rest : Padded ts ts') :
      Padded (t :: ts) (.block site [t'] :: ts')

theorem Padded.append {ts ts' us us' : List StmtTree} (h : Padded ts ts') (h' : Padded us us') :
    Padded (ts ++ us) (ts' ++ us') := by
  induction h with
  | nil => exact h'
  | leaf simple _ ih => exact .leaf simple ih
  | block within _ _ ih => exact .block within ih
  | wrapped undeclared inner _ _ ih => exact .wrapped undeclared inner ih

/-- **The same nodes offend in statements with blocks of their own.** -/
theorem Padded.offences {ts ts' : List StmtTree} (h : Padded ts ts') (builtin : Name → Bool)
    (vars : List Name) :
    StmtTree.offencesAll builtin vars ts' = StmtTree.offencesAll builtin vars ts := by
  induction h generalizing vars with
  | nil => rfl
  | leaf simple _ ih => rw [StmtTree.offencesAll, StmtTree.offencesAll, ih]
  | block within _ ihbody ih =>
    rw [StmtTree.offencesAll, StmtTree.offencesAll, StmtTree.offences, StmtTree.offences, ihbody]
    exact congrArg _ (ih vars)
  | @wrapped site t t' ts ts' undeclared _ _ ihinner ih =>
    have hblock : (StmtTree.block site [t']).offences builtin vars = t.offences builtin vars := by
      rw [StmtTree.offences, ihinner, StmtTree.offencesAll, StmtTree.offencesAll, List.append_nil]
    rw [StmtTree.offencesAll, StmtTree.offencesAll, hblock, undeclared]
    exact congrArg _ (ih vars)

/-! ### Their code -/

namespace Layer

/-- An empty scope hides nothing. -/
theorem find_enter (ls : List Layer) : find (empty :: ls) = find ls := by
  funext n
  rw [find_cons, empty_apply, Option.none_or]

/-- A symbol that is bound on top is found, or what was found before. -/
theorem find_bind {l l' : Layer} {ls ls' : List Layer} (h : find (l' :: ls') = find (l :: ls))
    (s : Symbol) : find (l'.bind s :: ls') = find (l.bind s :: ls) := by
  funext n
  have hn := congrFun h n
  rw [find_cons, find_cons] at hn
  rw [find_cons, find_cons, bind_apply, bind_apply]
  by_cases hname : s.name = n
  · rw [if_pos hname, if_pos hname]
    rfl
  · rw [if_neg hname, if_neg hname, hn]

end Layer

section Code

variable {m : Mangling} {names : NameTable} {univ : Layer} {ls ls' out : List Layer} {k k' : Nat}
  {code : List Instr}

/-- The code of an expression only depends on what is found in the layers. -/
theorem ExprCode.of_find_eq {t : ExprTree} {r : Nat} (h : ExprCode univ ls k t code r)
    (hfind : Layer.find ls' = Layer.find ls) : ExprCode univ ls' k t code r := by
  induction h with
  | ident bound => exact .ident (hfind ▸ bound)
  | int fits => exact .int fits
  | binary arithmetic _ _ ih ih' => exact .binary arithmetic ih ih'
  | neg _ ih => exact .neg ih
  | pos _ ih => exact .pos ih
  | paren _ ih => exact .paren ih
  | call builtin _ ih => exact .call builtin ih

theorem InitCode.of_find_eq {init : Option ExprTree} {v : Value}
    (h : InitCode univ ls k init code v k') (hfind : Layer.find ls' = Layer.find ls) :
    InitCode univ ls' k init code v k' := by
  cases h with
  | zero => exact .zero
  | expr value => exact .expr (value.of_find_eq hfind)

/-- The code of a list is that of its first statement, then that of the others. A statement that
declares nothing leaves the variables as they are. -/
theorem StmtsCode.uncons {t : StmtTree} {ts : List StmtTree}
    (h : StmtsCode m names univ ls k (t :: ts) code out k') :
    ∃ code₁ mid k₁ code₂, StmtsCode m names univ ls k [t] code₁ mid k₁ ∧
      StmtsCode m names univ mid k₁ ts code₂ out k' ∧ code = code₁ ++ code₂ ∧
      (t.declared = [] → mid = ls) := by
  cases h with
  | var value named next =>
    exact ⟨_, _, _, _, .var value named .nil, next, by rw [List.append_nil],
      fun hdeclared => absurd hdeclared (List.cons_ne_nil _ _)⟩
  | assign bound value next =>
    exact ⟨_, _, _, _, .assign bound value .nil, next, by rw [List.append_nil], fun _ => rfl⟩
  | block within next =>
    exact ⟨_, _, _, _, .block within .nil, next, by rw [List.append_nil], fun _ => rfl⟩
  | expr value next =>
    exact ⟨_, _, _, _, .expr value .nil, next, by rw [List.append_nil], fun _ => rfl⟩

/-- **Statements with blocks of their own have the same code**, and behind them the same variables
are found. -/
theorem Padded.stmtsCode {ts ts' : List StmtTree} (h : Padded ts ts')
    (hcode : StmtsCode m names univ ls k ts code out k') (hne : ls' ≠ [])
    (hfind : Layer.find ls' = Layer.find ls) :
    ∃ out', StmtsCode m names univ ls' k ts' code out' k' := by
  -- the layers of the two runs differ by empty ones, at every depth
  induction h generalizing ls ls' k k' code out with
  | nil =>
    cases hcode
    exact ⟨ls', .nil⟩
  | leaf simple _ ih =>
    cases hcode with
    | var value named next =>
      obtain ⟨l', ls₀', rfl⟩ := List.exists_cons_of_ne_nil hne
      obtain ⟨out', hnext⟩ := ih next (List.cons_ne_nil _ _) (Layer.find_bind hfind _)
      exact ⟨out', .var (value.of_find_eq hfind) named hnext⟩
    | assign bound value next =>
      obtain ⟨out', hnext⟩ := ih next hne hfind
      exact ⟨out', .assign (hfind ▸ bound) (value.of_find_eq hfind) hnext⟩
    | block => exact absurd rfl (simple _ _)
    | expr value next =>
      obtain ⟨out', hnext⟩ := ih next hne hfind
      exact ⟨out', .expr (value.of_find_eq hfind) hnext⟩
  | block _ _ ihbody ih =>
    cases hcode with
    | block within next =>
      have henter : Layer.find (Layer.empty :: ls') = Layer.find (Layer.empty :: ls) := by
        rw [Layer.find_enter, Layer.find_enter, hfind]
      obtain ⟨_, hwithin⟩ := ihbody within (List.cons_ne_nil _ _) henter
      obtain ⟨out', hnext⟩ := ih next hne hfind
      exact ⟨out', .block hwithin hnext⟩
  | wrapped undeclared _ _ ihinner ih =>
    obtain ⟨code₁, mid, k₁, code₂, hfirst, hnext, rfl, hmid⟩ := hcode.uncons
    obtain rfl := hmid undeclared
    have henter : Layer.find (Layer.empty :: ls') = Layer.find mid := by
      rw [Layer.find_enter, hfind]
    obtain ⟨_, hfirst'⟩ := ihinner hfirst (List.cons_ne_nil _ _) henter
    obtain ⟨out', hnext'⟩ := ih hnext hne hfind
    exact ⟨out', .block hfirst' hnext'⟩

end Code

/-- Bodies with blocks of their own may be interchanged. -/
theorem Padded.interchangeable {t t' : StmtTree} (h : Padded [t] [t']) : t.Interchangeable t' where
  offences builtin vars := by
    have hall := h.offences builtin vars
    simpa only [StmtTree.offencesAll, List.append_nil] using hall
  code hcode := h.stmtsCode hcode (List.cons_ne_nil _ _) rfl

/-- A whole body may be put into a block, whatever it is. -/
theorem Padded.interchangeable_block {t t' : StmtTree} (h : Padded [t] [t']) (site : Site StmtId) :
    t.Interchangeable (.block site [t']) where
  offences builtin vars := by
    rw [StmtTree.offences, h.offences, StmtTree.offencesAll, StmtTree.offencesAll, List.append_nil]
  code hcode := by
    obtain ⟨_, hwithin⟩ := h.stmtsCode hcode (List.cons_ne_nil _ _) (Layer.find_enter _)
    have hblock : StmtsCode _ _ _ _ _ [.block site [t']] (_ ++ []) _ _ := .block hwithin .nil
    rw [List.append_nil] at hblock
    exact ⟨_, hblock⟩

/-! ## Wrapping a node -/

/-- Lists that differ in one place are related if everything is related to itself. -/
theorem forall₂_set {α : Type} {R : α → α → Prop} {l : List α} {i : Nat} {a b : α}
    (hsame : ∀ x ∈ l, R x x) (ha : l[i]? = some a) (hab : R a b) :
    List.Forall₂ R l (l.set i b) := by
  induction l generalizing i with
  | nil => exact .nil
  | cons x l ih =>
    have hrest : ∀ y ∈ l, R y y := fun y hy => hsame y (List.mem_cons_of_mem x hy)
    cases i with
    | zero =>
      obtain rfl := Option.some.inj ha
      exact .cons hab (List.forall₂_same.mpr hrest)
    | succ i => exact .cons (hsame x List.mem_cons_self) (ih hrest ha)

namespace NodeStore

/-- Add a block that holds this statement only. -/
def wrap (store : NodeStore) (id : StmtId) (span : Span) : StmtId × NodeStore :=
  let (body, store) := store.addStmtList [id]
  store.addStmt ⟨.block body, span⟩

/-- Let a block hold other statements. -/
def refill (store : NodeStore) (block : StmtId) (ids : List StmtId) : NodeStore :=
  let (body, store) := store.addStmtList ids
  { store with stmts := store.stmts.modify block.index fun s => { s with kind := .block body } }

/-- Where a block held `a`, it may hold `a'`: the same statement, or the block `w` around a
statement `s` that is no declaration. -/
def Stands (store : NodeStore) (s w a a' : StmtId) : Prop :=
  a' = a ∨ a' = w ∧ a = s ∧ ∀ st, store.stmt s = .ok st → ∀ n init, st.kind ≠ .var n init

/-- The second store is the first one with a new block `w` that holds `s` only, which some blocks
may hold in place of `s`. -/
structure Wraps (store : NodeStore) (s w : StmtId) (store' : NodeStore) : Prop where
  exprs : store'.exprs = store.exprs
  exprItems : store'.exprItems = store.exprItems
  inner_lt : s.index < store.stmts.size
  fresh : w.index = store.stmts.size
  size : store'.stmts.size = store.stmts.size + 1
  wrapper : ∃ span body, store'.stmt w = .ok ⟨.block body, span⟩ ∧ store'.stmtList body = .ok [s]
  simple : ∀ {id st}, store.stmt id = .ok st → (∀ body, st.kind ≠ .block body) →
    store'.stmt id = .ok st
  block : ∀ {id span body ids}, store.stmt id = .ok ⟨.block body, span⟩ →
    store.stmtList body = .ok ids → ∃ body' ids', store'.stmt id = .ok ⟨.block body', span⟩ ∧
      store'.stmtList body' = .ok ids' ∧ List.Forall₂ (store.Stands s w) ids ids'

section Edits

variable {store : NodeStore} {id block s : StmtId} {ids : List StmtId}

theorem stmt_refill_of_ne (h : id ≠ block) : (store.refill block ids).stmt id = store.stmt id := by
  have hne : block.index ≠ id.index := fun heq => h (stmtIndex_injective heq.symm)
  simp [refill, stmt, addStmtList, Array.getElem?_modify, hne]

theorem stmt_refill_self {st : Stmt} (h : store.stmt block = .ok st) :
    (store.refill block ids).stmt block = .ok ⟨.block (store.addStmtList ids).1, st.span⟩ := by
  rw [stmt_eq_ok] at h ⊢
  simp [refill, addStmtList, Array.getElem?_modify, h]

/-- A new block around a statement. -/
theorem wrap_wraps (hs : s.index < store.stmts.size) (span : Span) :
    store.Wraps s (store.wrap s span).1 (store.wrap s span).2 where
  exprs := rfl
  exprItems := rfl
  inner_lt := hs
  fresh := rfl
  size := Array.size_push _
  wrapper := ⟨span, _, stmt_addStmt _ _, (addStmt_extends _ _).stmtList
    (stmtList_addStmtList store [s])⟩
  simple h _ := (addStmt_extends _ _).stmt h
  block h hids := ⟨_, _, (addStmt_extends _ _).stmt h,
    (addStmtList_extends store [s]).stmtList hids, List.forall₂_same.mpr fun _ _ => Or.inl rfl⟩

/-- A new block around a statement of a block, in its place. -/
theorem wrap_refill_wraps {b : Stmt} {body : Slice StmtId} {j : Nat}
    (hblock : store.stmt block = .ok b) (hkind : b.kind = .block body)
    (hids : store.stmtList body = .ok ids) (hj : ids[j]? = some s)
    (hs : s.index < store.stmts.size)
    (hvar : ∀ st, store.stmt s = .ok st → ∀ n init, st.kind ≠ .var n init) (span : Span) :
    store.Wraps s (store.wrap s span).1
      ((store.wrap s span).2.refill block (ids.set j (store.wrap s span).1)) := by
  have hwraps := wrap_wraps hs span
  generalize (store.wrap s span).1 = w, (store.wrap s span).2 = store' at hwraps ⊢
  have hlists := addStmtList_extends store' (ids.set j w)
  have hw : w ≠ block := by
    rintro rfl
    exact Nat.lt_irrefl _ (hwraps.fresh ▸ index_lt_of_stmt hblock)
  obtain ⟨kind, bspan⟩ := b
  obtain rfl : kind = .block body := hkind
  refine ⟨hwraps.exprs, hwraps.exprItems, hs, hwraps.fresh, ?_, ?_, ?_, ?_⟩
  · exact (Array.size_modify ..).trans hwraps.size
  · obtain ⟨wspan, wbody, hwrapper, hlist⟩ := hwraps.wrapper
    exact ⟨wspan, wbody, (stmt_refill_of_ne hw).trans hwrapper, hlists.stmtList hlist⟩
  · intro id st hst hsimple
    have hne : id ≠ block := by
      rintro rfl
      obtain rfl := Except.ok.inj (hst.symm.trans hblock)
      exact hsimple body rfl
    exact (stmt_refill_of_ne hne).trans (hwraps.simple hst hsimple)
  · intro id ispan ibody iids hst hlist
    obtain ⟨body', ids', hst', hlist', hstands⟩ := hwraps.block hst hlist
    by_cases hid : id = block
    · subst hid
      obtain ⟨hkinds, rfl⟩ := Stmt.mk.inj (Except.ok.inj (hst.symm.trans hblock))
      obtain rfl := StmtKind.block.inj hkinds
      obtain rfl := Except.ok.inj (hlist.symm.trans hids)
      refine ⟨_, _, stmt_refill_self hst', stmtList_addStmtList store' _, ?_⟩
      exact forall₂_set (fun _ _ => Or.inl rfl) hj (Or.inr ⟨rfl, rfl, hvar⟩)
    · exact ⟨body', ids', (stmt_refill_of_ne hid).trans hst', hlists.stmtList hlist', hstands⟩

end Edits

section Wraps

variable {store store' : NodeStore} {s w : StmtId} {names : NameTable}

/-- Expressions are read as before. -/
theorem Wraps.expr_eq (h : store.Wraps s w store') : store'.expr = store.expr := by
  funext id
  unfold expr
  rw [h.exprs]

theorem Wraps.exprList_eq (h : store.Wraps s w store') : store'.exprList = store.exprList := by
  funext slice
  unfold exprList
  rw [h.exprItems]

/-- The trees below expressions are the same. -/
theorem Wraps.exprTree_eq (h : store.Wraps s w store') : store'.exprTree = store.exprTree := by
  have hunfold : ∀ level id, store'.unfoldExpr level id = store.unfoldExpr level id := by
    intro level
    induction level with
    | zero => exact fun _ => rfl
    | succ level ih =>
      intro id
      have hbelow : store'.unfoldExpr level = store.unfoldExpr level := funext ih
      rw [unfoldExpr, unfoldExpr, h.expr_eq, h.exprList_eq, hbelow]
  funext id
  rw [exprTree, exprTree, h.exprs, hunfold]

/-- The texts of expressions are the same. -/
theorem Wraps.renderExpr_eq (h : store.Wraps s w store') (id : ExprId) :
    store'.renderExpr names id = store.renderExpr names id := by
  have htext : ∀ depth id, Rendering.exprText store' names depth id =
      Rendering.exprText store names depth id := by
    intro depth
    induction depth using Rendering.depth_induction with
    | beyond depth hlt =>
      intro id
      rw [Rendering.exprText_of_lt hlt, Rendering.exprText_of_lt hlt]
    | step depth hle ih =>
      intro id
      have hbelow : Rendering.exprText store' names (depth + 1) =
          Rendering.exprText store names (depth + 1) := funext ih
      rw [Rendering.exprText, Rendering.exprText, h.expr_eq, h.exprList_eq, hbelow]
  exact htext 0 id

/-! ### The trees of the new store -/

/-- The tree of a statement that is no declaration declares nothing. -/
theorem declared_of_unfoldStmt {level : Nat} {id : StmtId} {t : StmtTree}
    (h : store.unfoldStmt level id = some t)
    (hvar : ∀ st, store.stmt id = .ok st → ∀ n init, st.kind ≠ .var n init) : t.declared = [] := by
  cases level with
  | zero => exact absurd h (by simp [unfoldStmt])
  | succ level =>
    cases unfoldStmt_succ.mp h with
    | var node value => exact absurd rfl (hvar _ node _ _)
    | assign | block | expr | error => rfl

/-- The members of a block have trees in blocks of their own, if each statement has. -/
theorem Wraps.members (h : store.Wraps s w store') {level level' : Nat}
    (step : ∀ {id t}, store.unfoldStmt level id = some t →
      ∃ t', store'.unfoldStmt level' id = some t' ∧ Padded [t] [t'])
    {ids ids' : List StmtId} (hstands : List.Forall₂ (store.Stands s w) ids ids')
    {ts : List StmtTree}
    (hts : List.Forall₂ (fun id t => store.unfoldStmt level id = some t) ids ts) :
    ∃ ts', List.Forall₂ (fun id t => store'.unfoldStmt (level' + 1) id = some t) ids' ts' ∧
      Padded ts ts' := by
  induction hstands generalizing ts with
  | nil =>
    cases hts
    exact ⟨[], .nil, .nil⟩
  | @cons a a' ids ids' hfirst _ ih =>
    obtain ⟨t, ts, ht, hrest, rfl⟩ := List.forall₂_cons_left_iff.mp hts
    obtain ⟨ts', hts', hpadded⟩ := ih hrest
    obtain ⟨t', ht', hfirst'⟩ := step ht
    rcases hfirst with rfl | ⟨rfl, rfl, hvar⟩
    · exact ⟨t' :: ts', .cons (unfoldStmt_mono ht' (Nat.le_succ level')) hts',
        hfirst'.append hpadded⟩
    · obtain ⟨span, body, hw, hlist⟩ := h.wrapper
      have hblock : store'.unfoldStmt (level' + 1) a' = some (.block ⟨a', span⟩ [t']) :=
        unfoldStmt_succ.mpr (.block hw hlist (.cons ht' .nil))
      exact ⟨_ :: ts', .cons hblock hts',
        .wrapped (declared_of_unfoldStmt ht hvar) hfirst' hpadded⟩

/-- In twice as many levels, the new store has the old tree below a statement with blocks of their
own. -/
theorem Wraps.unfoldStmt (h : store.Wraps s w store') {level : Nat} {id : StmtId} {t : StmtTree}
    (ht : store.unfoldStmt level id = some t) :
    ∃ t', store'.unfoldStmt (2 * level) id = some t' ∧ Padded [t] [t'] := by
  induction level generalizing id t with
  | zero => exact absurd ht (by simp [NodeStore.unfoldStmt])
  | succ level ih =>
    -- one of the two new levels is for the statement, the other for a block around a member
    have hroot : ∀ {t'},
        StmtLevel store' (fun id t => store'.unfoldStmt (2 * level + 1) id = some t) id t' →
        store'.unfoldStmt (2 * (level + 1)) id = some t' := unfoldStmt_succ.mpr
    have hleaf : ∀ {t : StmtTree}, (∀ site body, t ≠ .block site body) → Padded [t] [t] :=
      fun simple => .leaf simple .nil
    cases unfoldStmt_succ.mp ht with
    | var node value =>
      have node' := h.simple node fun _ => StmtKind.noConfusion
      exact ⟨_, hroot (.var node' (h.exprTree_eq ▸ value)), hleaf fun _ _ => StmtTree.noConfusion⟩
    | assign node value =>
      have node' := h.simple node fun _ => StmtKind.noConfusion
      exact ⟨_, hroot (.assign node' (h.exprTree_eq ▸ value)),
        hleaf fun _ _ => StmtTree.noConfusion⟩
    | block node listed body =>
      obtain ⟨body', ids', node', listed', hstands⟩ := h.block node listed
      obtain ⟨ts', hts', hpadded⟩ := h.members ih hstands body
      exact ⟨_, hroot (.block node' listed' hts'), .block hpadded .nil⟩
    | expr node value =>
      have node' := h.simple node fun _ => StmtKind.noConfusion
      exact ⟨_, hroot (.expr node' (h.exprTree_eq ▸ value)), hleaf fun _ _ => StmtTree.noConfusion⟩
    | error node =>
      have node' := h.simple node fun _ => StmtKind.noConfusion
      exact ⟨_, hroot (.error node'), hleaf fun _ _ => StmtTree.noConfusion⟩

/-! ### The new store is well formed -/

/-- What a statement of the new store is: the new block, an old statement, or an old block in which
the new one may stand. -/
theorem Wraps.stmt_cases (h : store.Wraps s w store') (hb : store.InBounds names) {id : StmtId}
    {st' : Stmt} (hst' : store'.stmt id = .ok st') :
    (id = w ∧ ∃ body, st'.kind = .block body ∧ store'.stmtList body = .ok [s]) ∨
    (id ≠ w ∧ store.stmt id = .ok st' ∧ ∀ body, st'.kind ≠ .block body) ∨
    ∃ st body body' ids', id ≠ w ∧ store.stmt id = .ok st ∧ st.kind = .block body ∧
      st'.kind = .block body' ∧ store'.stmtList body' = .ok ids' ∧
      List.Forall₂ (store.Stands s w) (body.items store.stmtItems) ids' := by
  by_cases hid : id = w
  · subst hid
    obtain ⟨span, body, hw, hlist⟩ := h.wrapper
    obtain rfl := Except.ok.inj (hst'.symm.trans hw)
    exact Or.inl ⟨rfl, body, rfl, hlist⟩
  · have hlt : id.index < store.stmts.size := by
      have hlt' := index_lt_of_stmt hst'
      have hne : id.index ≠ w.index := fun heq => hid (stmtIndex_injective heq)
      rw [h.size] at hlt'
      rw [h.fresh] at hne
      omega
    obtain ⟨⟨kind, span⟩, hst⟩ := exists_stmt hlt
    cases hkind : kind with
    | block body =>
      subst hkind
      obtain ⟨body', ids', hnew, hlist', hstands⟩ := h.block hst (hb.stmtList hst rfl)
      obtain rfl := Except.ok.inj (hst'.symm.trans hnew)
      exact Or.inr (Or.inr ⟨_, body, body', ids', hid, hst, rfl, rfl, hlist', hstands⟩)
    | _ =>
      subst hkind
      have hsame := h.simple hst fun _ => StmtKind.noConfusion
      obtain rfl := Except.ok.inj (hst'.symm.trans hsame)
      exact Or.inr (Or.inl ⟨hid, hst, fun _ => StmtKind.noConfusion⟩)

/-- What stands below an old statement stood below it, or is the new block in place of what did. -/
theorem Wraps.below (h : store.Wraps s w store') (hb : store.InBounds names) {p c : StmtId}
    (hp : p ≠ w) (hpc : store'.StmtBelow p c) :
    ∃ c₀, store.StmtBelow p c₀ ∧ store.Stands s w c₀ c := by
  obtain ⟨st', hst', hc⟩ := hpc
  rcases h.stmt_cases hb hst' with ⟨rfl, -⟩ | ⟨-, hst, hsimple⟩ |
    ⟨st, body, body', ids', -, hst, hkind, hkind', hlist', hstands⟩
  · exact absurd rfl hp
  · generalize st'.kind = kind at hc hsimple
    cases kind with
    | block body => exact absurd rfl (hsimple body)
    | _ => exact absurd hc List.not_mem_nil
  · rw [hkind', StmtKind.children, (Slice.read_eq_ok_iff.mp hlist').2] at hc
    obtain ⟨c₀, hc₀, hstands⟩ := exists_of_mem_right hstands hc
    exact ⟨c₀, ⟨st, hst, by rwa [hkind]⟩, hstands⟩

/-- Only the wrapped statement stands below the new block. -/
theorem Wraps.below_wrapper (h : store.Wraps s w store') {c : StmtId}
    (hc : store'.StmtBelow w c) : c = s := by
  obtain ⟨st', hst', hc⟩ := hc
  obtain ⟨span, body, hw, hlist⟩ := h.wrapper
  obtain rfl := Except.ok.inj (hst'.symm.trans hw)
  rw [StmtKind.children, (Slice.read_eq_ok_iff.mp hlist).2] at hc
  exact List.mem_singleton.mp hc

/-- The statement that stood where this one stands now. -/
def unwrapped (s w c : StmtId) : StmtId := if c = w then s else c

theorem Wraps.inner_ne (h : store.Wraps s w store') : s ≠ w := by
  rintro rfl
  exact Nat.lt_irrefl _ (h.fresh ▸ h.inner_lt)

theorem Wraps.unwrapped_eq (h : store.Wraps s w store') (hb : store.InBounds names)
    {p c c₀ : StmtId} (hbelow : store.StmtBelow p c₀) (hstands : store.Stands s w c₀ c) :
    unwrapped s w c = c₀ := by
  unfold unwrapped
  rcases hstands with rfl | ⟨rfl, rfl, -⟩
  · obtain ⟨st, hst, hc⟩ := hbelow
    have hlt : c.index < store.stmts.size := (hb.stmt hst).1 c hc
    rw [if_neg]
    rintro rfl
    exact Nat.lt_irrefl _ (h.fresh ▸ hlt)
  · rw [if_pos rfl]

/-- A way down from an old statement was a way down. -/
theorem Wraps.transGen (h : store.Wraps s w store') (hb : store.InBounds names) {p c : StmtId}
    (hp : p ≠ w) (hpc : Relation.TransGen store'.StmtBelow p c) :
    Relation.TransGen store.StmtBelow p (unwrapped s w c) := by
  induction hpc with
  | single hpc =>
    obtain ⟨c₀, hbelow, hstands⟩ := h.below hb hp hpc
    rw [h.unwrapped_eq hb hbelow hstands]
    exact .single hbelow
  | @tail b c _ hbc ih =>
    by_cases hbw : b = w
    · -- the step from the new block to the statement in it was none
      subst hbw
      obtain rfl := h.below_wrapper hbc
      rw [unwrapped, if_pos rfl] at ih
      rw [unwrapped, if_neg h.inner_ne]
      exact ih
    · obtain ⟨c₀, hbelow, hstands⟩ := h.below hb hbw hbc
      rw [unwrapped, if_neg hbw] at ih
      rw [h.unwrapped_eq hb hbelow hstands]
      exact ih.tail hbelow

/-- **Wrapping leads into no circle.** -/
theorem Wraps.acyclic (h : store.Wraps s w store') (hb : store.InBounds names)
    (ha : store.Acyclic) : store'.Acyclic where
  exprs := by
    have hbelow : store'.ExprBelow = store.ExprBelow := by
      funext p c
      have hchildren : ∀ kind : ExprKind, kind.children store' = kind.children store := by
        intro kind
        cases kind with
        | call f args => rw [ExprKind.children, ExprKind.children, h.exprItems]
        | _ => rfl
      simp only [ExprBelow, h.expr_eq, hchildren]
    rw [hbelow]
    exact ha.exprs
  stmts id hcycle := by
    by_cases hid : id = w
    · subst hid
      obtain ⟨b, hb', hback⟩ := Relation.TransGen.head'_iff.mp hcycle
      obtain rfl := h.below_wrapper hb'
      rcases Relation.reflTransGen_iff_eq_or_transGen.mp hback with heq | hback
      · exact h.inner_ne heq.symm
      · have hcycle' := h.transGen hb h.inner_ne hback
        rw [unwrapped, if_pos rfl] at hcycle'
        exact ha.stmts b hcycle'
    · have hcycle' := h.transGen hb hid hcycle
      rw [unwrapped, if_neg hid] at hcycle'
      exact ha.stmts id hcycle'

theorem Wraps.inBounds (h : store.Wraps s w store') (hb : store.InBounds names) :
    store'.InBounds names where
  exprs e he := by
    rw [h.exprs] at he
    have hkind := hb.exprs e he
    unfold ExprKind.InBounds ExprKind.children at hkind ⊢
    rw [h.exprs, h.exprItems]
    exact hkind
  stmts st' hst' := by
    obtain ⟨i, hi⟩ := Array.mem_iff_getElem?.mp hst'
    have hsize := h.size
    have hblock : ∀ {body : Slice StmtId} {ids : List StmtId}, st'.kind = .block body →
        store'.stmtList body = .ok ids → (∀ c ∈ ids, c.index < store'.stmts.size) →
        st'.kind.InBounds store' names := by
      intro body ids hkind hlist hids
      obtain ⟨hle, rfl⟩ := Slice.read_eq_ok_iff.mp hlist
      rw [hkind]
      exact ⟨hids, hle⟩
    have hread : store'.stmt ⟨i⟩ = .ok st' := stmt_eq_ok.mpr hi
    rcases h.stmt_cases hb hread with ⟨-, body, hkind, hlist⟩ |
      ⟨-, hst, hsimple⟩ | ⟨st, body, body', ids', -, hst, hkind, hkind', hlist', hstands⟩
    · refine hblock hkind hlist fun c hc => ?_
      obtain rfl := List.mem_singleton.mp hc
      have hlt := h.inner_lt
      omega
    · have hold := (hb.stmt hst).2
      generalize st'.kind = kind at hold hsimple ⊢
      cases kind with
      | block body => exact absurd rfl (hsimple body)
      | var n init =>
        refine ⟨fun c hc => absurd hc List.not_mem_nil, ?_⟩
        cases init with
        | none => exact hold
        | some init => exact ⟨hold.1, h.exprs ▸ hold.2⟩
      | assign n value =>
        exact ⟨fun c hc => absurd hc List.not_mem_nil, hold.1, h.exprs ▸ hold.2⟩
      | expr value => exact ⟨fun c hc => absurd hc List.not_mem_nil, h.exprs ▸ hold⟩
      | error => exact ⟨fun c hc => absurd hc List.not_mem_nil, trivial⟩
    · refine hblock hkind' hlist' fun c hc => ?_
      obtain ⟨c₀, hc₀, hstands⟩ := exists_of_mem_right hstands hc
      have hlt : c₀.index < store.stmts.size := (hb.stmt hst).1 c₀ (by rwa [hkind])
      rcases hstands with rfl | ⟨rfl, -, -⟩
      · omega
      · rw [h.fresh]
        omega

/-- Below every statement of the new store there is the tree that any number of levels shows. -/
theorem Wraps.stmtTree_of_unfold (h : store.Wraps s w store') (hb : store.InBounds names)
    (ha : store.Acyclic) {level : Nat} {id : StmtId} {t : StmtTree}
    (hid : id.index < store.stmts.size + 1) (ht : store'.unfoldStmt level id = some t) :
    store'.stmtTree id = some t := by
  obtain ⟨t', ht'⟩ := NodeStore.exists_stmtTree (h.inBounds hb) (h.acyclic hb ha) (h.size ▸ hid)
  exact unfoldStmt_unique ht' ht ▸ ht'

/-- **The new tree below a statement is the old one with blocks of their own.** -/
theorem Wraps.exists_stmtTree (h : store.Wraps s w store') (hb : store.InBounds names)
    (ha : store.Acyclic) {id : StmtId} {t : StmtTree} (ht : store.stmtTree id = some t) :
    ∃ t', store'.stmtTree id = some t' ∧ Padded [t] [t'] := by
  obtain ⟨t', ht', hpadded⟩ := h.unfoldStmt ht
  have hid : id.index < store.stmts.size := by
    cases unfoldStmt_succ.mp ht with
    | var node | assign node | block node | expr node | error node => exact index_lt_of_stmt node
  exact ⟨t', h.stmtTree_of_unfold hb ha (Nat.lt_succ_of_lt hid) ht', hpadded⟩

end Wraps

end NodeStore

/-! ## Rejections -/

/-- The offence is that of a statement as a whole. -/
def Offence.isStmt : Offence → Bool
  | .stmt .. => true
  | .undefined .. | .builtinVariable .. | .expr .. => false

section Offences

variable {builtin : Name → Bool} {vars : List Name} {o : Offence}

theorem isStmt_of_mem_variableOffences {n : Name} {span : Span}
    (h : o ∈ variableOffences builtin vars n span) : o.isStmt = false := by
  unfold variableOffences at h
  split at h
  · exact absurd h List.not_mem_nil
  · split at h <;> exact List.mem_singleton.mp h ▸ rfl

theorem isStmt_of_mem_ite {p : Prop} [Decidable p] {construct : String} {site : Site ExprId}
    (h : o ∈ if p then [] else [Offence.expr construct site]) : o.isStmt = false := by
  split at h
  · exact absurd h List.not_mem_nil
  · exact List.mem_singleton.mp h ▸ rfl

mutual

/-- Offences in expressions are not those of statements. -/
theorem ExprTree.isStmt_of_mem_offences : ∀ t : ExprTree, o ∈ t.offences builtin vars →
    o.isStmt = false
  | .ident .., h => isStmt_of_mem_variableOffences h
  | .int .., h => by
    rw [offences] at h
    split at h
    · exact absurd h List.not_mem_nil
    · exact List.mem_singleton.mp h ▸ rfl
  | .binary _ _ left right, h => by
    rw [offences] at h
    rcases List.mem_append.mp h with h | h
    · exact isStmt_of_mem_ite h
    · exact (List.mem_append.mp h).elim left.isStmt_of_mem_offences right.isStmt_of_mem_offences
  | .unary _ _ operand, h => by
    rw [offences] at h
    exact (List.mem_append.mp h).elim isStmt_of_mem_ite operand.isStmt_of_mem_offences
  | .paren _ inner, h => inner.isStmt_of_mem_offences h
  | .call _ _ args, h => by
    rw [offences] at h
    rcases List.mem_append.mp h with h | h
    · exact isStmt_of_mem_ite h
    · exact (List.mem_append.mp h).elim isStmt_of_mem_ite (isStmt_of_mem_offencesAll args)
  | .error _, h => List.mem_singleton.mp h ▸ rfl

theorem ExprTree.isStmt_of_mem_offencesAll : ∀ ts : List ExprTree,
    o ∈ ExprTree.offencesAll builtin vars ts → o.isStmt = false
  | [], h => absurd h List.not_mem_nil
  | t :: ts, h => (List.mem_append.mp h).elim t.isStmt_of_mem_offences
      (isStmt_of_mem_offencesAll ts)

end

theorem StmtTree.exists_mem_offences {ts : List StmtTree}
    (h : o ∈ StmtTree.offencesAll builtin vars ts) :
    ∃ t ∈ ts, ∃ vars, o ∈ t.offences builtin vars := by
  induction ts generalizing vars with
  | nil => exact absurd h List.not_mem_nil
  | cons t ts ih =>
    rcases List.mem_append.mp h with h | h
    · exact ⟨t, List.mem_cons_self, vars, h⟩
    · obtain ⟨t', ht', vars', h'⟩ := ih h
      exact ⟨t', List.mem_cons_of_mem t ht', vars', h'⟩

/-- A statement that offends as a whole is a mark of an error. -/
theorem NodeStore.stmt_of_mem_offences {store : NodeStore} {level : Nat} {id : StmtId}
    {t : StmtTree} (ht : store.unfoldStmt level id = some t) {construct : String}
    {site : Site StmtId} (h : .stmt construct site ∈ t.offences builtin vars) :
    store.stmt site.id = .ok ⟨.error, site.span⟩ := by
  have noExpr : ∀ {x : ExprTree}, ¬ .stmt construct site ∈ x.offences builtin vars :=
    fun hx => Bool.noConfusion (ExprTree.isStmt_of_mem_offences _ hx)
  induction level generalizing id t vars with
  | zero => exact absurd ht (by simp [unfoldStmt])
  | succ level ih =>
    cases unfoldStmt_succ.mp ht with
    | @var span n init t' node value =>
      cases t' with
      | none => exact absurd h List.not_mem_nil
      | some x => exact absurd h noExpr
    | assign node value =>
      rcases List.mem_append.mp h with h | h
      · exact Bool.noConfusion (isStmt_of_mem_variableOffences h)
      · exact absurd h noExpr
    | block node listed body =>
      obtain ⟨t', ht', vars', h'⟩ := StmtTree.exists_mem_offences h
      obtain ⟨id', -, hid'⟩ := exists_of_mem_right body ht'
      exact ih hid' h' fun hx => Bool.noConfusion (ExprTree.isStmt_of_mem_offences _ hx)
    | expr node value => exact absurd h noExpr
    | error node =>
      obtain ⟨rfl, rfl⟩ := Offence.stmt.inj (List.mem_singleton.mp h)
      exact node

end Offences

/-- **Wrapping does not change what is said about an offence.** -/
theorem NodeStore.Wraps.rejection_eq {store store' : NodeStore} {s w id : StmtId}
    {names : NameTable} (h : store.Wraps s w store') {t : StmtTree}
    (ht : store.stmtTree id = some t) {builtin : Name → Bool} {vars : List Name} {o : Offence}
    (ho : o ∈ t.offences builtin vars) : o.rejection store' names = o.rejection store names := by
  cases o with
  | undefined | builtinVariable => rfl
  | expr construct site => rw [Offence.rejection, Offence.rejection, h.renderExpr_eq]
  | stmt construct site =>
    have hnode := stmt_of_mem_offences ht ho
    have hnode' := h.simple hnode fun _ => StmtKind.noConfusion
    have hmark : ∀ {nodes : NodeStore}, nodes.stmt site.id = .ok ⟨.error, site.span⟩ →
        nodes.renderStmt names site.id = .ok Rendering.errorMark := by
      intro nodes hread
      rw [renderStmt, Rendering.stmtText, if_neg (Nat.not_lt_zero _), hread]
      rfl
    rw [Offence.rejection, Offence.rejection, hmark hnode, hmark hnode']

/-! ## Units -/

namespace SourceUnit

/-- The unit in which the body of a function is put into a block. -/
def wrapBody (u : SourceUnit) (i : Nat) (f : FunctionDecl) (body : StmtId) (span : Span) :
    SourceUnit :=
  let (block, nodes) := u.nodes.wrap body span
  { u with functions := u.functions.set i { f with body := some block }, nodes }

/-- The unit in which a statement of a block, at this place among its statements `ids`, is put into
a block of its own. -/
def wrapMember (u : SourceUnit) (block : StmtId) (ids : List StmtId) (place : Nat) (id : StmtId)
    (span : Span) : SourceUnit :=
  let (wrapper, nodes) := u.nodes.wrap id span
  { u with nodes := nodes.refill block (ids.set place wrapper) }

variable {u u' : SourceUnit} {names : NameTable} {s w : StmtId}

/-- The functions of a unit, below which nodes are wrapped. -/
theorem WellFormed.rewritten (hu : u.WellFormed names) {store' : NodeStore}
    (h : u.nodes.Wraps s w store') {f : FunctionDecl} (hf : f ∈ u.functions) :
    Rewritten u.nodes store' f f := by
  refine ⟨rfl, ?_⟩
  cases hbody : f.body with
  | none => exact .none
  | some id =>
    obtain ⟨t, ht⟩ := NodeStore.exists_stmtTree hu.nodes hu.acyclic (hu.bodies f hf id hbody)
    obtain ⟨t', ht', hpadded⟩ := h.exists_stmtTree hu.nodes hu.acyclic ht
    exact .some ⟨t, t', ht, ht', hpadded.interchangeable⟩

theorem WellFormed.wrapBody (hu : u.WellFormed names) {i : Nat} {f : FunctionDecl} {body : StmtId}
    (hf : f ∈ u.functions) (hbody : f.body = some body) (span : Span) :
    (u.wrapBody i f body span).WellFormed names := by
  have h := NodeStore.wrap_wraps (hu.bodies f hf body hbody) span
  have hmem : ∀ {f'}, f' ∈ (u.wrapBody i f body span).functions →
      f' ∈ u.functions ∨ f' = { f with body := some (u.nodes.wrap body span).1 } :=
    List.mem_or_eq_of_mem_set
  refine ⟨⟨hu.package, hu.globals, fun f' hf' => ?_, fun f' hf' id hid => ?_, h.inBounds hu.nodes⟩,
    h.acyclic hu.nodes hu.acyclic⟩
  · rcases hmem hf' with hold | rfl
    · exact hu.functions f' hold
    · exact hu.functions f hf
  · have hsize : (u.wrapBody i f body span).nodes.stmts.size = u.nodes.stmts.size + 1 := h.size
    rw [hsize]
    rcases hmem hf' with hold | rfl
    · exact Nat.lt_succ_of_lt (hu.bodies f' hold id hid)
    · obtain rfl := Option.some.inj hid
      exact h.fresh ▸ Nat.lt_succ_self _

theorem WellFormed.rewrites_wrapBody (hu : u.WellFormed names) {i : Nat} {f : FunctionDecl}
    {body : StmtId} (hf : u.functions[i]? = some f) (hbody : f.body = some body) (span : Span) :
    u.Rewrites (u.wrapBody i f body span) where
  package := rfl
  globals := rfl
  functions := by
    have hlt := hu.bodies f (List.mem_of_getElem? hf) body hbody
    have h := NodeStore.wrap_wraps hlt span
    refine forall₂_set (fun f' hf' => hu.rewritten h hf') hf ⟨rfl, ?_⟩
    obtain ⟨t, ht⟩ := NodeStore.exists_stmtTree hu.nodes hu.acyclic hlt
    obtain ⟨t', ht', hpadded⟩ := h.exists_stmtTree hu.nodes hu.acyclic ht
    obtain ⟨wspan, slice, hw, hlist⟩ := h.wrapper
    have hblock : (u.nodes.wrap body span).2.stmtTree (u.nodes.wrap body span).1 =
        some (.block ⟨(u.nodes.wrap body span).1, wspan⟩ [t']) := by
      refine h.stmtTree_of_unfold hu.nodes hu.acyclic (Nat.lt_succ_of_le (Nat.le_of_eq h.fresh))
        (NodeStore.unfoldStmt_succ.mpr (.block hw hlist (.cons ht' .nil)))
    rw [hbody]
    exact .some ⟨t, _, ht, hblock, hpadded.interchangeable_block _⟩

/-- Wrapping a statement inside a block keeps the functions. -/
theorem WellFormed.withNodes (hu : u.WellFormed names) {store' : NodeStore}
    (h : u.nodes.Wraps s w store') :
    ({ u with nodes := store' } : SourceUnit).WellFormed names ∧
      u.Rewrites { u with nodes := store' } := by
  refine ⟨⟨⟨hu.package, hu.globals, hu.functions, fun f hf id hid => ?_, h.inBounds hu.nodes⟩,
    h.acyclic hu.nodes hu.acyclic⟩, ⟨rfl, rfl, List.forall₂_same.mpr fun f hf => ?_⟩⟩
  · rw [h.size]
    exact Nat.lt_succ_of_lt (hu.bodies f hf id hid)
  · exact hu.rewritten h hf

end SourceUnit

namespace Compiler

variable {c : Compiler} {names : NameTable} {u : SourceUnit}

/-- Units that only differ in wrapped nodes have the same outcome. -/
theorem outcome_of_wraps {u' : SourceUnit} {s w : StmtId} (hu : u.WellFormed names)
    (hu' : u'.WellFormed names) (h : u.nodes.Wraps s w u'.nodes) (hrewrites : u.Rewrites u') :
    (c.compile names u').outcome = (c.compile names u).outcome := by
  rcases outcome_of_rewrites (c := c) hu hu' hrewrites with
    ⟨listing, hok, hok'⟩ | ⟨bodies, hbodies, t, ht, _, _, o, ho, r, r', hr, hr', hfails, hfails'⟩
  · rw [hok, hok']
  · obtain ⟨id, -, hid⟩ := exists_of_mem_right (mapM_eq_some_iff.mp hbodies) ht
    have hsame : r' = r := by
      rw [h.rejection_eq hid ho, hr] at hr'
      exact (Except.ok.inj hr').symm
    rw [hfails, hfails', hsame]

/-- **Blocks that hold one statement change nothing.** The body of a function may be put into a
block, also if it is a declaration, and so may every statement of a block that is no declaration,
wherever the new block is said to stand. The new unit is well formed, and has the same listing or
fails in the same way. -/
theorem redundant_blocks (c : Compiler) (hu : u.WellFormed names) :
    (∀ {i : Nat} {f : FunctionDecl} {body : StmtId} (span : Span), u.functions[i]? = some f →
      f.body = some body →
      (u.wrapBody i f body span).WellFormed names ∧
      (c.compile names (u.wrapBody i f body span)).outcome = (c.compile names u).outcome) ∧
    ∀ {block id : StmtId} {b st : Stmt} {slice : Slice StmtId} {ids : List StmtId} {place : Nat}
      (span : Span), u.nodes.stmt block = .ok b → b.kind = .block slice →
      u.nodes.stmtList slice = .ok ids → ids[place]? = some id → u.nodes.stmt id = .ok st →
      (∀ n init, st.kind ≠ .var n init) →
      (u.wrapMember block ids place id span).WellFormed names ∧
      (c.compile names (u.wrapMember block ids place id span)).outcome =
        (c.compile names u).outcome := by
  constructor
  · intro i f body span hf hbody
    have hmem := List.mem_of_getElem? hf
    have hwf := hu.wrapBody (i := i) hmem hbody span
    have hwraps := NodeStore.wrap_wraps (hu.bodies f hmem body hbody) span
    exact ⟨hwf, outcome_of_wraps hu hwf hwraps (hu.rewrites_wrapBody hf hbody span)⟩
  · intro block id b st slice ids place span hblock hkind hids hplace hst hvar
    have hwraps := NodeStore.wrap_refill_wraps hblock hkind hids hplace
      (NodeStore.index_lt_of_stmt hst)
      (fun st' hst' => Except.ok.inj (hst.symm.trans hst') ▸ hvar) span
    obtain ⟨hwf, hrewrites⟩ := hu.withNodes hwraps
    exact ⟨hwf, outcome_of_wraps hu hwf hwraps hrewrites⟩

end Compiler

namespace Counter

/-- A unit with the functions `main`, which is `{ x = 7; println(x) }`, and `tick`, which is
`var x = x`. -/
def lone : SourceUnit where
  package := ⟨1⟩
  globals := [⟨⟨2⟩, ⟨0, 5⟩⟩]
  functions := [⟨⟨1⟩, some ⟨2⟩, ⟨6, 30⟩⟩, ⟨⟨4⟩, some ⟨3⟩, ⟨30, 50⟩⟩]
  nodes :=
    { exprs := #[⟨.ident ⟨2⟩, ⟨22, 23⟩⟩, ⟨.int 7, ⟨12, 13⟩⟩, ⟨.call ⟨3⟩ ⟨0, 1⟩, ⟨15, 24⟩⟩]
      exprItems := #[⟨0⟩]
      stmts := #[⟨.assign ⟨2⟩ ⟨1⟩, ⟨8, 13⟩⟩, ⟨.expr ⟨2⟩, ⟨15, 24⟩⟩, ⟨.block ⟨0, 2⟩, ⟨7, 25⟩⟩,
        ⟨.var ⟨2⟩ (some ⟨0⟩), ⟨38, 47⟩⟩]
      stmtItems := #[⟨0⟩, ⟨1⟩] }

theorem lone_wellFormed : lone.WellFormed names where
  package := by decide
  globals := by decide
  functions := by decide
  bodies := by decide
  nodes := ⟨by decide, by decide⟩
  acyclic := NodeStore.Descending.acyclic ⟨by decide, by decide⟩

/-- The declaration that is all of `tick`, and the call in `main`, are put into blocks. -/
theorem redundant_blocks_lone :
    lone.WellFormed names ∧
    (({} : Compiler).compile names lone).outcome.toOption.isSome = true ∧
    (({} : Compiler).compile names
      (lone.wrapBody 1 ⟨⟨4⟩, some ⟨3⟩, ⟨30, 50⟩⟩ ⟨3⟩ ⟨0, 0⟩)).outcome =
      (({} : Compiler).compile names lone).outcome ∧
    (({} : Compiler).compile names
      (lone.wrapMember ⟨2⟩ [⟨0⟩, ⟨1⟩] 1 ⟨1⟩ ⟨0, 0⟩)).outcome =
      (({} : Compiler).compile names lone).outcome := by
  have hsame := Compiler.redundant_blocks {} lone_wellFormed
  have hids : lone.nodes.stmtList ⟨0, 2⟩ = .ok [⟨0⟩, ⟨1⟩] := rfl
  exact ⟨lone_wellFormed, by decide +kernel, (hsame.1 ⟨0, 0⟩ rfl rfl).2,
    (hsame.2 ⟨0, 0⟩ rfl rfl hids rfl rfl fun _ _ => StmtKind.noConfusion).2⟩

-- A declaration inside a block is another matter: wrapped, it no longer hides the package's `x`.
example : (({} : Compiler).compile names
    (program.wrapMember ⟨5⟩ [⟨0⟩, ⟨3⟩, ⟨4⟩] 0 ⟨0⟩ ⟨10, 16⟩)).outcome ≠
    (({} : Compiler).compile names program).outcome := by decide +kernel

end Counter

end RegisterCode
