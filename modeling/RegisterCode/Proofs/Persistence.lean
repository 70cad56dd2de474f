import RegisterCode.Proofs.Growth

/-!
# What a store hands out

A store is asked to keep nodes and lists of either kind, in any order, and hands out a number or a
slice for each. It does not look at what it is given: a node may refer to nodes that are not there,
and a list may be empty or hold the same number twice. All lists of one kind lie in one table, so a
slice that is off by one shows a part of its neighbour.

A request and what came back for it make up a `Grant`. A grant is kept as long as its number or
slice yields what was asked for (`Grant.Kept`). A new grant is fresh: it is apart from every grant
that the store keeps already, whoever asked for it (`Grant.Fresh`). A store that grows keeps what
it kept, so what is granted once is kept for ever, and what is fresh later was fresh before.

Results:
* `NodeStore.serve_kept`, `NodeStore.serve_fresh`: one request.
* `NodeStore.serveAll_kept`, `NodeStore.serveAll_apart`: any number of requests.
* `NodeStore.grants_persist`: all of it together.
-/

namespace RegisterCode

/-! ## Slices -/

namespace Slice

variable {α : Type} {s t : Slice α}

/-- The positions of the table that a slice covers. -/
def positions (s : Slice α) : List Nat := List.range' s.start s.length

theorem disjoint_positions (h : s.start + s.length ≤ t.start) :
    s.positions.Disjoint t.positions := by
  intro i hs ht
  have hlt := (List.mem_range'_1.mp hs).2
  have hle := (List.mem_range'_1.mp ht).1
  omega

/-- A slice can be read if and only if it ends inside the table. -/
theorem exists_read_iff {table : Array α} :
    (∃ items, s.read table = .ok items) ↔ s.start + s.length ≤ table.size := by
  constructor
  · rintro ⟨items, hread⟩
    exact (read_eq_ok_iff.mp hread).1
  · intro hle
    exact ⟨s.items table, read_eq_items hle⟩

end Slice

/-! ## Requests and grants -/

/-- What a store can be asked to keep. -/
inductive Request where
  | expr (e : Expr)
  | stmt (s : Stmt)
  | exprList (ids : List ExprId)
  | stmtList (ids : List StmtId)

namespace Request

/-- The numbers that a request adds to the table of expression lists. -/
def exprIds : Request → List ExprId
  | .exprList ids => ids
  | .expr _ | .stmt _ | .stmtList _ => []

/-- The numbers that a request adds to the table of statement lists. -/
def stmtIds : Request → List StmtId
  | .stmtList ids => ids
  | .expr _ | .stmt _ | .exprList _ => []

end Request

/-- A request, and the number or slice that the store handed out for it. -/
inductive Grant where
  | expr (e : Expr) (id : ExprId)
  | stmt (s : Stmt) (id : StmtId)
  | exprList (ids : List ExprId) (slice : Slice ExprId)
  | stmtList (ids : List StmtId) (slice : Slice StmtId)

namespace Grant

/-- What was asked for. -/
def request : Grant → Request
  | .expr e _ => .expr e
  | .stmt s _ => .stmt s
  | .exprList ids _ => .exprList ids
  | .stmtList ids _ => .stmtList ids

/-- What was handed out yields what was asked for. -/
def Kept (store : NodeStore) : Grant → Prop
  | .expr e id => store.expr id = .ok e
  | .stmt s id => store.stmt id = .ok s
  | .exprList ids slice => store.exprList slice = .ok ids
  | .stmtList ids slice => store.stmtList slice = .ok ids

/-- Two grants of one kind have nothing in common: their numbers differ, or no position is covered
by both slices. Those of different kinds concern different tables. -/
def Apart : Grant → Grant → Prop
  | .expr _ id, .expr _ id' => id ≠ id'
  | .stmt _ id, .stmt _ id' => id ≠ id'
  | .exprList _ slice, .exprList _ slice' => slice.positions.Disjoint slice'.positions
  | .stmtList _ slice, .stmtList _ slice' => slice.positions.Disjoint slice'.positions
  | _, _ => True

/-- The grant is apart from all that can be read from the store. -/
def Fresh (store : NodeStore) (g : Grant) : Prop := ∀ g' : Grant, g'.Kept store → g'.Apart g

variable {store store' : NodeStore} {g : Grant}

theorem Kept.extend (h : g.Kept store) (hext : store.Extends store') : g.Kept store' := by
  cases g with
  | expr e id => exact hext.expr h
  | stmt s id => exact hext.stmt h
  | exprList ids slice => exact hext.exprList h
  | stmtList ids slice => exact hext.stmtList h

/-- What is fresh for a store was so before the store had grown. -/
theorem Fresh.of_extends (h : g.Fresh store') (hext : store.Extends store') : g.Fresh store :=
  fun g' hkept => h g' (hkept.extend hext)

end Grant

namespace NodeStore

/-! ## One request -/

/-- Do what is asked for. -/
def serve (store : NodeStore) : Request → Grant × NodeStore
  | .expr e => (.expr e (store.addExpr e).1, (store.addExpr e).2)
  | .stmt s => (.stmt s (store.addStmt s).1, (store.addStmt s).2)
  | .exprList ids => (.exprList ids (store.addExprList ids).1, (store.addExprList ids).2)
  | .stmtList ids => (.stmtList ids (store.addStmtList ids).1, (store.addStmtList ids).2)

theorem request_serve (store : NodeStore) (r : Request) : (store.serve r).1.request = r := by
  cases r <;> rfl

theorem serve_extends (store : NodeStore) (r : Request) : store.Extends (store.serve r).2 := by
  cases r with
  | expr e => exact store.addExpr_extends e
  | stmt s => exact store.addStmt_extends s
  | exprList ids => exact store.addExprList_extends ids
  | stmtList ids => exact store.addStmtList_extends ids

/-- **What is handed out yields what was asked for.** -/
theorem serve_kept (store : NodeStore) (r : Request) :
    (store.serve r).1.Kept (store.serve r).2 := by
  cases r with
  | expr e => exact store.expr_addExpr e
  | stmt s => exact store.stmt_addStmt s
  | exprList ids => exact store.exprList_addExprList ids
  | stmtList ids => exact store.stmtList_addStmtList ids

/-- **What is handed out is apart from all that was there.** A number is the size of its table, and
a slice starts where its table ended. -/
theorem serve_fresh (store : NodeStore) (r : Request) : (store.serve r).1.Fresh store := by
  intro g hkept
  cases r with
  | expr e =>
    cases g with
    | expr e' id =>
      rintro rfl
      exact Nat.lt_irrefl _ (index_lt_of_expr hkept)
    | stmt | exprList | stmtList => trivial
  | stmt s =>
    cases g with
    | stmt s' id =>
      rintro rfl
      exact Nat.lt_irrefl _ (index_lt_of_stmt hkept)
    | expr | exprList | stmtList => trivial
  | exprList ids =>
    cases g with
    | exprList ids' slice => exact Slice.disjoint_positions (Slice.read_eq_ok_iff.mp hkept).1
    | expr | stmt | stmtList => trivial
  | stmtList ids =>
    cases g with
    | stmtList ids' slice => exact Slice.disjoint_positions (Slice.read_eq_ok_iff.mp hkept).1
    | expr | stmt | exprList => trivial

theorem exprItems_serve (store : NodeStore) (r : Request) :
    (store.serve r).2.exprItems.toList = store.exprItems.toList ++ r.exprIds := by
  cases r with
  | exprList ids => exact Array.toList_appendList
  | expr | stmt | stmtList => exact (List.append_nil _).symm

theorem stmtItems_serve (store : NodeStore) (r : Request) :
    (store.serve r).2.stmtItems.toList = store.stmtItems.toList ++ r.stmtIds := by
  cases r with
  | stmtList ids => exact Array.toList_appendList
  | expr | stmt | exprList => exact (List.append_nil _).symm

/-! ## Any number of requests -/

/-- Do one thing after the other that is asked for. -/
def serveAll (store : NodeStore) : List Request → List Grant × NodeStore
  | [] => ([], store)
  | r :: rs =>
    let (g, store) := store.serve r
    let (gs, store) := store.serveAll rs
    (g :: gs, store)

theorem serveAll_cons (store : NodeStore) (r : Request) (rs : List Request) :
    store.serveAll (r :: rs) =
      ((store.serve r).1 :: ((store.serve r).2.serveAll rs).1, ((store.serve r).2.serveAll rs).2) :=
  rfl

theorem serveAll_append (store : NodeStore) (rs rs' : List Request) :
    store.serveAll (rs ++ rs') =
      ((store.serveAll rs).1 ++ ((store.serveAll rs).2.serveAll rs').1,
        ((store.serveAll rs).2.serveAll rs').2) := by
  induction rs generalizing store with
  | nil => rfl
  | cons r rs ih => rw [List.cons_append, serveAll_cons, serveAll_cons, ih, List.cons_append]

/-- Every request is granted, in the order in which they came. -/
theorem map_request_serveAll (store : NodeStore) (rs : List Request) :
    (store.serveAll rs).1.map Grant.request = rs := by
  induction rs generalizing store with
  | nil => rfl
  | cons r rs ih => rw [serveAll_cons, List.map_cons, request_serve, ih]

theorem serveAll_extends (store : NodeStore) (rs : List Request) :
    store.Extends (store.serveAll rs).2 := by
  induction rs generalizing store with
  | nil => exact Extends.refl store
  | cons r rs ih => exact (store.serve_extends r).trans (ih (store.serve r).2)

/-- **A store keeps all that it has granted.** -/
theorem serveAll_kept (store : NodeStore) (rs : List Request) :
    ∀ g ∈ (store.serveAll rs).1, g.Kept (store.serveAll rs).2 := by
  induction rs generalizing store with
  | nil => exact fun g hg => absurd hg List.not_mem_nil
  | cons r rs ih =>
    intro g hg
    rcases List.mem_cons.mp hg with rfl | hg
    · exact (store.serve_kept r).extend (serveAll_extends _ rs)
    · exact ih (store.serve r).2 g hg

/-- **All that is ever handed out is apart from what was there at the start.** -/
theorem serveAll_fresh (store : NodeStore) (rs : List Request) :
    ∀ g ∈ (store.serveAll rs).1, g.Fresh store := by
  induction rs generalizing store with
  | nil => exact fun g hg => absurd hg List.not_mem_nil
  | cons r rs ih =>
    intro g hg
    rcases List.mem_cons.mp hg with rfl | hg
    · exact store.serve_fresh r
    · exact (ih (store.serve r).2 g hg).of_extends (store.serve_extends r)

/-- **No two grants of a run have anything in common.** -/
theorem serveAll_apart (store : NodeStore) (rs : List Request) :
    (store.serveAll rs).1.Pairwise Grant.Apart := by
  induction rs generalizing store with
  | nil => exact List.Pairwise.nil
  | cons r rs ih =>
    refine List.Pairwise.cons (fun g hg => ?_) (ih (store.serve r).2)
    -- the first grant is kept by the store that serves the others
    exact serveAll_fresh _ rs g hg _ (store.serve_kept r)

/-- What every request appends to is extended by all of them in turn. -/
theorem serveAll_appends {α : Type} (view : NodeStore → List α) (adds : Request → List α)
    (step : ∀ store r, view (store.serve r).2 = view store ++ adds r) (store : NodeStore)
    (rs : List Request) : view (store.serveAll rs).2 = view store ++ rs.flatMap adds := by
  induction rs generalizing store with
  | nil => exact (List.append_nil _).symm
  | cons r rs ih => rw [serveAll_cons, ih, step, List.flatMap_cons, List.append_assoc]

/-- **A store is persistent.** Let a store be asked for one thing after the other. Every request is
granted. What was handed out up to some point yields what was asked for, at that point and at every
later one. All numbers of one kind that are ever handed out are different, and no two slices of one
kind cover the same position. Each of the two tables of lists consists of the lists that were to be
kept, one behind the other, and a slice can be read if and only if it ends inside its table. -/
theorem grants_persist (store : NodeStore) (before after : List Request) :
    ∃ granted now more later, store.serveAll before = (granted, now) ∧
      store.serveAll (before ++ after) = (granted ++ more, later) ∧
      granted.map Grant.request = before ∧ more.map Grant.request = after ∧
      (∀ g ∈ granted, g.Kept now ∧ g.Kept later) ∧
      (granted ++ more).Pairwise Grant.Apart ∧
      later.exprItems.toList =
        store.exprItems.toList ++ (before ++ after).flatMap Request.exprIds ∧
      later.stmtItems.toList =
        store.stmtItems.toList ++ (before ++ after).flatMap Request.stmtIds ∧
      (∀ slice, (∃ ids, later.exprList slice = .ok ids) ↔
        slice.start + slice.length ≤ later.exprItems.size) ∧
      ∀ slice, (∃ ids, later.stmtList slice = .ok ids) ↔
        slice.start + slice.length ≤ later.stmtItems.size := by
  have hall := store.serveAll_append before after
  have hkept := store.serveAll_kept before
  have hext := serveAll_extends (store.serveAll before).2 after
  have hapart := store.serveAll_apart (before ++ after)
  have hexprs := serveAll_appends (·.exprItems.toList) Request.exprIds exprItems_serve store
    (before ++ after)
  have hstmts := serveAll_appends (·.stmtItems.toList) Request.stmtIds stmtItems_serve store
    (before ++ after)
  rw [hall] at hapart hexprs hstmts
  refine ⟨_, _, _, _, rfl, hall, map_request_serveAll _ before, map_request_serveAll _ after,
    fun g hg => ?_, hapart, hexprs, hstmts, fun _ => Slice.exists_read_iff,
    fun _ => Slice.exists_read_iff⟩
  exact ⟨hkept g hg, (hkept g hg).extend hext⟩

/-- An expression, a list with it, an empty list, and a statement that refers to nothing. -/
def mixed : List Request :=
  [.expr ⟨.int 1, .single 0⟩, .exprList [⟨0⟩], .exprList [], .stmt ⟨.expr ⟨7⟩, .single 1⟩]

/-- A statement list, the same expression once more, and a list with both expressions. -/
def remixed : List Request :=
  [.stmtList [⟨0⟩, ⟨0⟩], .expr ⟨.int 1, .single 0⟩, .exprList [⟨1⟩, ⟨0⟩]]

/-- The first list is none the longer for its neighbours, and equal nodes get different numbers. -/
theorem grants_persist_mixed :
    ∃ grants later, empty.serveAll (mixed ++ remixed) = (grants, later) ∧
      later.expr ⟨0⟩ = .ok ⟨.int 1, .single 0⟩ ∧ later.stmt ⟨0⟩ = .ok ⟨.expr ⟨7⟩, .single 1⟩ ∧
      later.exprList ⟨0, 1⟩ = .ok [⟨0⟩] ∧ later.exprList ⟨1, 0⟩ = .ok [] ∧
      grants[0]? = some (.expr ⟨.int 1, .single 0⟩ ⟨0⟩) ∧
      grants[5]? = some (.expr ⟨.int 1, .single 0⟩ ⟨1⟩) ∧ grants.Pairwise Grant.Apart ∧
      later.exprItems.toList = [⟨0⟩, ⟨1⟩, ⟨0⟩] ∧ (∃ ids, later.exprList ⟨1, 2⟩ = .ok ids) ∧
      ¬ ∃ ids, later.exprList ⟨2, 2⟩ = .ok ids := by
  obtain ⟨granted, now, more, later, hnow, hall, -, -, hkept, hapart, hitems, -, hread, -⟩ :=
    grants_persist empty mixed remixed
  have hgrants : (empty.serveAll (mixed ++ remixed)).1 = granted ++ more := congrArg Prod.fst hall
  have hgranted : (empty.serveAll mixed).1 = granted := congrArg Prod.fst hnow
  have hsize : later.exprItems.size = 3 := by
    rw [← Array.length_toList, hitems]
    rfl
  have hkept' : ∀ g ∈ (empty.serveAll mixed).1, g.Kept later :=
    fun g hg => (hkept g (hgranted ▸ hg)).2
  refine ⟨granted ++ more, later, hall, hkept' (.expr _ _) (List.mem_of_getElem? (i := 0) rfl),
    hkept' (.stmt _ _) (List.mem_of_getElem? (i := 3) rfl),
    hkept' (.exprList _ _) (List.mem_of_getElem? (i := 1) rfl),
    hkept' (.exprList _ _) (List.mem_of_getElem? (i := 2) rfl), hgrants ▸ rfl, hgrants ▸ rfl,
    hapart, hitems, (hread ⟨1, 2⟩).mpr (Nat.le_of_eq hsize.symm), fun h => ?_⟩
  have hle : 2 + 2 ≤ later.exprItems.size := (hread ⟨2, 2⟩).mp h
  omega

end NodeStore

end RegisterCode
