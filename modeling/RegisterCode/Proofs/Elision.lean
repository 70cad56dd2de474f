import RegisterCode.Proofs.WellFormed

/-!
# Where rendering cuts a tree

Below a node stands a tree, which goes on forever if the node contains itself. `NodeStore.nodeAt`
tells which node stands at the end of a path, that is of a list of choices among the nodes below:
this is the tree, finite or not, and the depth of a place in it is the length of its path. A picture
is a finite tree in which parts may be left out, and `Picture.text` writes it without any limit.

`CutsAt d root t` says that the picture `t` is the tree below `root` where exactly the parts at
depth `d` are left out. It does not say how to make such a picture, and there is at most one
(`CutsAt.unique`).

Results:
* `text_eq_picture`: rendering from some depth on writes the picture down to the limit.
* `rendering_cuts`: the text in a message is that of the tree cut at depth 33, the first beyond the
  limit `Rendering.maxDepth`.
-/

namespace RegisterCode

/-! ## Pictures -/

/-- What a node shows of itself. Names are given by their texts. -/
inductive Caption where
  | ident (text : String)
  | int (value : Int)
  | binary (op : BinaryOp)
  | unary (op : UnaryOp)
  | paren
  | call (callee : String)
  | var (name : String)
  | assign (target : String)
  | block
  | expr
  | error
  deriving DecidableEq

/-- The text of a node, given the texts of the nodes below it. -/
def Caption.write : Caption → List String → String
  | .ident text, _ => text
  | .int value, _ => toString value
  | .binary .add, operands => " + ".intercalate operands
  | .binary .sub, operands => " - ".intercalate operands
  | .binary .mul, operands => " * ".intercalate operands
  | .binary .div, operands => " / ".intercalate operands
  | .binary .mod, operands => " % ".intercalate operands
  | .binary .eq, operands => " == ".intercalate operands
  | .binary .notEq, operands => " != ".intercalate operands
  | .binary .lt, operands => " < ".intercalate operands
  | .binary .ltEq, operands => " <= ".intercalate operands
  | .binary .gt, operands => " > ".intercalate operands
  | .binary .gtEq, operands => " >= ".intercalate operands
  | .unary .neg, operand => "-" ++ String.join operand
  | .unary .pos, operand => "+" ++ String.join operand
  | .unary .not, operand => "!" ++ String.join operand
  | .paren, inner => "(" ++ String.join inner ++ ")"
  | .call callee, args => callee ++ "(" ++ ", ".intercalate args ++ ")"
  -- a variable without an initial value has nothing below it
  | .var name, init => "var " ++ name ++ String.join (init.map (" = " ++ ·))
  | .assign target, value => target ++ String.join (value.map (" = " ++ ·))
  | .block, [] => "\x7b\x7d"
  | .block, body => "\x7b " ++ "; ".intercalate body ++ " \x7d"
  | .expr, value => String.join value
  | .error, _ => "<error>"

/-- A tree of nodes in which parts may be left out. -/
inductive Picture where
  | elided
  | node (caption : Caption) (parts : List Picture)

/-- What stands at the end of a path: every entry of the path chooses among the things below. -/
def follow {α : Type} (below : α → List α) : α → List Nat → Option α
  | a, [] => some a
  | a, i :: p => (below a)[i]?.bind (follow below · p)

theorem follow_append {α : Type} (below : α → List α) (a : α) (p q : List Nat) :
    follow below a (p ++ q) = (follow below a p).bind (follow below · q) := by
  induction p generalizing a with
  | nil => rfl
  | cons i p ih =>
    simp only [List.cons_append, follow, Option.bind_assoc, ih]

/-- What holds at the start and is handed down holds at the end of every path. -/
theorem follow_invariant {α : Type} {below : α → List α} {P : α → Prop}
    (hdown : ∀ a, P a → ∀ b ∈ below a, P b) {a b : α} (ha : P a) {p : List Nat}
    (h : follow below a p = some b) : P b := by
  induction p generalizing a with
  | nil => exact Option.some.inj h ▸ ha
  | cons i p ih =>
    obtain ⟨c, hc, hb⟩ := Option.bind_eq_some_iff.mp h
    exact ih (hdown a ha c (List.mem_of_getElem? hc)) hb

namespace Picture

mutual

/-- The text of a picture. -/
def text : Picture → String
  | .elided => "..."
  | .node caption parts => caption.write (texts parts)

/-- The texts of several pictures. -/
def texts : List Picture → List String
  | [] => []
  | t :: ts => t.text :: texts ts

end

theorem texts_eq_map (ts : List Picture) : texts ts = ts.map text := by
  induction ts with
  | nil => rfl
  | cons t ts ih => rw [texts, ih, List.map_cons]

/-- What the root shows, unless it is left out. -/
def caption? : Picture → Option Caption
  | .elided => none
  | .node caption _ => some caption

/-- The pictures directly below the root. -/
def parts : Picture → List Picture
  | .elided => []
  | .node _ parts => parts

/-- The part of a picture at the end of a path. -/
def part (t : Picture) (p : List Nat) : Option Picture := follow parts t p

mutual

/-- A picture is what it shows at every place. -/
theorem eq_of_captions : ∀ t t' : Picture,
    (∀ p, (t.part p).map caption? = (t'.part p).map caption?) → t = t'
  | .elided, .elided, _ => rfl
  | .elided, .node .., h => absurd (h []) (by simp [part, follow, caption?])
  | .node .., .elided, h => absurd (h []) (by simp [part, follow, caption?])
  | .node c ts, .node c' ts', h => by
    have hc : c = c' := by simpa [part, follow, caption?] using h []
    rw [hc, eq_of_captionsAll ts ts' fun i p => h (i :: p)]

theorem eq_of_captionsAll : ∀ ts ts' : List Picture,
    (∀ (i : Nat) p, (ts[i]?.bind (·.part p)).map caption? =
      (ts'[i]?.bind (·.part p)).map caption?) → ts = ts'
  | [], [], _ => rfl
  | [], _ :: _, h => absurd (h 0 []) (by simp [part, follow])
  | _ :: _, [], h => absurd (h 0 []) (by simp [part, follow])
  | t :: ts, t' :: ts', h => by
    rw [eq_of_captions t t' fun p => h 0 p, eq_of_captionsAll ts ts' fun i p => h (i + 1) p]

end

end Picture

/-! ## The tree below a node -/

/-- A node, as it is shown: its caption and the nodes below it. -/
structure View where
  caption : Caption
  below : List NodeId
  deriving DecidableEq

/-- How an expression is shown, if its name and its list are there. -/
def ExprKind.view? (store : NodeStore) (names : NameTable) : ExprKind → Option View
  | .ident n => return ⟨.ident (← names.text? n), []⟩
  | .int value => some ⟨.int value, []⟩
  | .binary op left right => some ⟨.binary op, [.expr left, .expr right]⟩
  | .unary op operand => some ⟨.unary op, [.expr operand]⟩
  | .paren inner => some ⟨.paren, [.expr inner]⟩
  | .call callee args => do
    let callee ← names.text? callee
    let args ← (store.exprList args).toOption
    return ⟨.call callee, args.map .expr⟩
  | .error => some ⟨.error, []⟩

/-- How a statement is shown, if its name and its list are there. -/
def StmtKind.view? (store : NodeStore) (names : NameTable) : StmtKind → Option View
  | .var n init => return ⟨.var (← names.text? n), init.toList.map .expr⟩
  | .assign n value => return ⟨.assign (← names.text? n), [.expr value]⟩
  | .block body => return ⟨.block, (← (store.stmtList body).toOption).map .stmt⟩
  | .expr value => some ⟨.expr, [.expr value]⟩
  | .error => some ⟨.error, []⟩

/-- The name and the list in an expression are in bounds. -/
def ExprKind.Readable (store : NodeStore) (names : NameTable) : ExprKind → Prop
  | .ident n => n.index < names.size
  | .call callee args =>
    callee.index < names.size ∧ args.start + args.length ≤ store.exprItems.size
  | .int _ | .binary .. | .unary .. | .paren _ | .error => True

/-- The name and the list in a statement are in bounds. -/
def StmtKind.Readable (store : NodeStore) (names : NameTable) : StmtKind → Prop
  | .var n _ | .assign n _ => n.index < names.size
  | .block body => body.start + body.length ≤ store.stmtItems.size
  | .expr _ | .error => True

theorem ExprKind.Readable.exists_view {store : NodeStore} {names : NameTable} {kind : ExprKind}
    (h : kind.Readable store names) : ∃ v, kind.view? store names = some v := by
  cases kind with
  | ident n =>
    obtain ⟨text, ht⟩ := InternTable.exists_text h
    exact ⟨_, by rw [view?, ht]; rfl⟩
  | call callee args =>
    obtain ⟨text, ht⟩ := InternTable.exists_text h.1
    exact ⟨_, by rw [view?, ht, NodeStore.exprList, Slice.read_eq_items h.2]; rfl⟩
  | int | binary | unary | paren | error => exact ⟨_, rfl⟩

theorem StmtKind.Readable.exists_view {store : NodeStore} {names : NameTable} {kind : StmtKind}
    (h : kind.Readable store names) : ∃ v, kind.view? store names = some v := by
  cases kind with
  | var n init =>
    obtain ⟨text, ht⟩ := InternTable.exists_text h
    exact ⟨_, by rw [view?, ht]; rfl⟩
  | assign n value =>
    obtain ⟨text, ht⟩ := InternTable.exists_text h
    exact ⟨_, by rw [view?, ht]; rfl⟩
  | block body => exact ⟨_, by rw [view?, NodeStore.stmtList, Slice.read_eq_items h]; rfl⟩
  | expr | error => exact ⟨_, rfl⟩

namespace NodeStore

variable {store store' : NodeStore} {names names' : NameTable} {root node : NodeId}
  {d depth : Nat}

/-- How a node is shown, if it is there with its name and its list. -/
def view? (store : NodeStore) (names : NameTable) : NodeId → Option View
  | .expr id => (store.expr id).toOption.bind (·.kind.view? store names)
  | .stmt id => (store.stmt id).toOption.bind (·.kind.view? store names)

/-- What a node shows of itself. -/
def caption? (store : NodeStore) (names : NameTable) (node : NodeId) : Option Caption :=
  (store.view? names node).map View.caption

/-- The nodes directly below a node. -/
def below (store : NodeStore) (names : NameTable) (node : NodeId) : List NodeId :=
  (store.view? names node).elim [] View.below

/-- The node at the end of a path that begins at `root`. -/
def nodeAt (store : NodeStore) (names : NameTable) (root : NodeId) (p : List Nat) : Option NodeId :=
  follow (store.below names) root p

/-- The node is there, with its name and its list. -/
def Readable (store : NodeStore) (names : NameTable) : NodeId → Prop
  | .expr id => ∃ e, store.expr id = .ok e ∧ e.kind.Readable store names
  | .stmt id => ∃ s, store.stmt id = .ok s ∧ s.kind.Readable store names

theorem Readable.exists_view (h : store.Readable names node) :
    ∃ v, store.view? names node = some v := by
  cases node with
  | expr id =>
    obtain ⟨e, he, hkind⟩ := h
    rw [view?, he]
    exact hkind.exists_view
  | stmt id =>
    obtain ⟨s, hs, hkind⟩ := h
    rw [view?, hs]
    exact hkind.exists_view

/-- `t` is the tree below `root`, in which exactly the parts at depth `d` are left out. -/
structure CutsAt (store : NodeStore) (names : NameTable) (d : Nat) (root : NodeId) (t : Picture) :
    Prop where
  /-- Above depth `d`, the picture has a part wherever there is a node, and it shows the node. -/
  shown : ∀ p, p.length < d →
    (t.part p).map Picture.caption? = (store.nodeAt names root p).map (store.caption? names)
  /-- At depth `d`, every node is left out. -/
  elided : ∀ p, p.length = d → t.part p = (store.nodeAt names root p).map fun _ => .elided

theorem nodeAt_cons {v : View} (h : store.view? names root = some v) (i : Nat) (p : List Nat) :
    store.nodeAt names root (i :: p) = v.below[i]?.bind (store.nodeAt names · p) := by
  simp only [nodeAt, follow, below, h, Option.elim_some]

/-- The picture of a node, down to the given number of levels. -/
def picture (store : NodeStore) (names : NameTable) : Nat → NodeId → Picture
  | 0, _ => .elided
  | level + 1, node =>
    match store.view? names node with
    | some v => .node v.caption (v.below.map (picture store names level))
    | none => .elided

theorem picture_succ {v : View} (h : store.view? names node = some v) (level : Nat) :
    store.picture names (level + 1) node =
      .node v.caption (v.below.map (store.picture names level)) := by
  simp only [picture, h]

/-- All nodes less than `d` steps below `root` are there, with their names and lists. -/
def ReadableWithin (store : NodeStore) (names : NameTable) (d : Nat) (root : NodeId) : Prop :=
  ∀ p node, p.length < d → store.nodeAt names root p = some node → store.Readable names node

theorem ReadableWithin.exists_view (h : store.ReadableWithin names (d + 1) root) :
    ∃ v, store.view? names root = some v ∧ ∀ c ∈ v.below, store.ReadableWithin names d c := by
  obtain ⟨v, hv⟩ := (h [] root (Nat.succ_pos d) rfl).exists_view
  refine ⟨v, hv, fun c hc p node hp hnode => ?_⟩
  obtain ⟨i, hi⟩ := List.getElem?_of_mem hc
  refine h (i :: p) node (Nat.succ_lt_succ hp) ?_
  rw [nodeAt_cons hv, hi]
  exact hnode

/-- **The picture down to depth `d` is the tree cut at depth `d`.** -/
theorem ReadableWithin.cutsAt (h : store.ReadableWithin names d root) :
    store.CutsAt names d root (store.picture names d root) := by
  induction d generalizing root with
  | zero =>
    refine ⟨fun p hp => absurd hp (Nat.not_lt_zero _), fun p hp => ?_⟩
    obtain rfl := List.length_eq_zero_iff.mp hp
    rfl
  | succ d ih =>
    obtain ⟨v, hv, hbelow⟩ := h.exists_view
    have hpart : ∀ (i : Nat) p, ((store.picture names (d + 1) root).part (i :: p)) =
        v.below[i]?.bind fun c => (store.picture names d c).part p := by
      intro i p
      simp only [picture_succ hv, Picture.part, follow, Picture.parts, List.getElem?_map,
        Option.bind_map, Function.comp_def]
    constructor
    · intro p hp
      cases p with
      | nil => simp [picture_succ hv, Picture.part, nodeAt, follow, Picture.caption?, caption?, hv]
      | cons i p =>
        rw [hpart, nodeAt_cons hv]
        cases hi : v.below[i]? with
        | none => rfl
        | some c =>
          exact (ih (hbelow c (List.mem_of_getElem? hi))).shown p (Nat.lt_of_succ_lt_succ hp)
    · intro p hp
      cases p with
      | nil => exact absurd hp (Nat.succ_ne_zero d).symm
      | cons i p =>
        rw [hpart, nodeAt_cons hv]
        cases hi : v.below[i]? with
        | none => rfl
        | some c => exact (ih (hbelow c (List.mem_of_getElem? hi))).elided p (Nat.succ.inj hp)

/-- Below what is left out there is nothing. -/
theorem CutsAt.part_eq_none {t : Picture} (h : store.CutsAt names d root t) {p : List Nat}
    (hp : d < p.length) : t.part p = none := by
  -- the way leads through a part at depth `d`, which has nothing below it
  have hlen : (p.take d).length = d := by
    rw [List.length_take]
    omega
  obtain ⟨i, q, hq⟩ : ∃ i q, p.drop d = i :: q := List.exists_cons_of_length_pos (by
    rw [List.length_drop]
    omega)
  have hcut : t.part (p.take d) = _ := h.elided _ hlen
  rw [← List.take_append_drop d p, hq, Picture.part, follow_append]
  change (t.part (p.take d)).bind _ = none
  rw [hcut]
  cases store.nodeAt names root (p.take d) <;> rfl

/-- There is one way to cut a tree. -/
theorem CutsAt.unique {t t' : Picture} (h : store.CutsAt names d root t)
    (h' : store.CutsAt names d root t') : t = t' := by
  refine t.eq_of_captions t' fun p => ?_
  rcases Nat.lt_trichotomy p.length d with hp | hp | hp
  · rw [h.shown p hp, h'.shown p hp]
  · rw [h.elided p hp, h'.elided p hp]
  · rw [h.part_eq_none hp, h'.part_eq_none hp]

/-- A tree that ends above depth `d` is shown as a whole. -/
theorem CutsAt.whole {t : Picture} (h : store.CutsAt names d root t)
    (hend : ∀ p, p.length = d → store.nodeAt names root p = none) (p : List Nat) :
    (t.part p).map Picture.caption? = (store.nodeAt names root p).map (store.caption? names) := by
  by_cases hp : p.length < d
  · exact h.shown p hp
  · have hlen : (p.take d).length = d := by
      rw [List.length_take]
      omega
    have hnode : store.nodeAt names root p = none := by
      rw [← List.take_append_drop d p, nodeAt, follow_append]
      change (store.nodeAt names root (p.take d)).bind _ = none
      rw [hend _ hlen]
      rfl
    rcases Nat.eq_or_lt_of_not_lt hp with hp | hp
    · rw [h.elided p hp, hnode]
      rfl
    · rw [h.part_eq_none hp, hnode]
      rfl

/-- Where all nodes are there, a picture leaves out no part above depth `d`. -/
theorem CutsAt.length_of_elided {t : Picture} (h : store.CutsAt names d root t)
    (hreadable : store.ReadableWithin names d root) {p : List Nat}
    (hp : t.part p = some .elided) : p.length = d := by
  rcases Nat.lt_trichotomy p.length d with hlt | heq | hgt
  · have hshown := h.shown p hlt
    rw [hp] at hshown
    obtain ⟨node, hnode, hcaption⟩ := Option.map_eq_some_iff.mp hshown.symm
    obtain ⟨v, hv⟩ := (hreadable p node hlt hnode).exists_view
    rw [caption?, hv] at hcaption
    exact absurd hcaption (Option.some_ne_none _)
  · exact heq
  · exact absurd ((h.part_eq_none hgt).symm.trans hp) (Option.some_ne_none _).symm

/-! ## Rendering -/

/-- The text of a node at the given depth. -/
def text (store : NodeStore) (names : NameTable) (depth : Nat) : NodeId → Except Fault String
  | .expr id => Rendering.exprText store names depth id
  | .stmt id => Rendering.stmtText store names depth id

/-- The text of a node as shown in messages. -/
def render (store : NodeStore) (names : NameTable) : NodeId → Except Fault String
  | .expr id => store.renderExpr names id
  | .stmt id => store.renderStmt names id

theorem render_eq_text (store : NodeStore) (names : NameTable) (node : NodeId) :
    store.render names node = store.text names 0 node := by
  cases node <;> rfl

theorem mapM_ok {α β : Type} {f : α → Except Fault β} {g : α → β} {as : List α}
    (h : ∀ a ∈ as, f a = .ok (g a)) : as.mapM f = .ok (as.map g) := by
  induction as with
  | nil => rfl
  | cons a as ih =>
    rw [List.mapM_cons, h a List.mem_cons_self, ih fun b hb => h b (List.mem_cons_of_mem a hb)]
    rfl

/-- Beyond the limit a node is left out. -/
theorem text_of_lt (h : Rendering.maxDepth < depth) (node : NodeId) :
    store.text names depth node = .ok Picture.elided.text := by
  cases node with
  | expr id => exact Rendering.exprText_of_lt h id
  | stmt id => exact Rendering.stmtText_of_lt h id

/-- An operator stands between its operands. -/
theorem write_binary (op : BinaryOp) (left right : String) :
    (Caption.binary op).write [left, right] = left ++ " " ++ op.symbol ++ " " ++ right := by
  cases op <;> simp [Caption.write, BinaryOp.symbol, String.append_assoc]

/-- An operator stands in front of its operand. -/
theorem write_unary (op : UnaryOp) (operand : String) :
    (Caption.unary op).write [operand] = op.symbol ++ operand := by
  cases op <;> simp [Caption.write, UnaryOp.symbol]

/-- An expression up to the limit, given the texts of the nodes below. -/
theorem text_expr_of_le (hle : depth ≤ Rendering.maxDepth) {id : ExprId} {e : Expr}
    (he : store.expr id = .ok e) {v : View} (hv : e.kind.view? store names = some v)
    {texts : NodeId → String}
    (htexts : ∀ c ∈ v.below, store.text names (depth + 1) c = .ok (texts c)) :
    store.text names depth (.expr id) = .ok (v.caption.write (v.below.map texts)) := by
  obtain ⟨kind, span⟩ := e
  rw [text, Rendering.exprText, if_neg (Nat.not_lt.mpr hle), he, ok_bind]
  cases kind with
  | ident n =>
    obtain ⟨text, htext, rfl⟩ : ∃ text, names.text? n = some text ∧ ⟨.ident text, []⟩ = v := by
      simpa [ExprKind.view?, Option.bind_eq_some_iff] using hv
    exact InternTable.lookup_eq_ok_iff.mpr htext
  | int value =>
    obtain rfl := Option.some.inj hv
    rfl
  | binary op left right =>
    obtain rfl := Option.some.inj hv
    have hleft : Rendering.exprText store names (depth + 1) left = _ :=
      htexts (.expr left) (by simp)
    have hright : Rendering.exprText store names (depth + 1) right = _ :=
      htexts (.expr right) (by simp)
    simp only [hleft, hright, ok_bind]
    exact congrArg Except.ok (write_binary op ..).symm
  | unary op operand =>
    obtain rfl := Option.some.inj hv
    have hoperand : Rendering.exprText store names (depth + 1) operand = _ :=
      htexts (.expr operand) (by simp)
    simp only [hoperand, ok_bind]
    exact congrArg Except.ok (write_unary op _).symm
  | paren inner =>
    obtain rfl := Option.some.inj hv
    have hinner : Rendering.exprText store names (depth + 1) inner = _ :=
      htexts (.expr inner) (by simp)
    simp only [hinner, ok_bind]
    exact congrArg Except.ok (by simp [Caption.write])
  | call callee args =>
    obtain ⟨name, hname, ids, hids, rfl⟩ : ∃ name, names.text? callee = some name ∧
        ∃ ids, store.exprList args = .ok ids ∧ ⟨.call name, ids.map .expr⟩ = v := by
      simpa [ExprKind.view?, Option.bind_eq_some_iff] using hv
    have hargs : ids.mapM (Rendering.exprText store names (depth + 1)) =
        .ok (ids.map fun c => texts (.expr c)) :=
      mapM_ok fun c hc => htexts (.expr c) (List.mem_map_of_mem hc)
    simp only [InternTable.lookup_eq_ok_iff.mpr hname, hids, hargs, ok_bind]
    exact congrArg Except.ok (by simp [Caption.write, Function.comp_def])
  | error =>
    obtain rfl := Option.some.inj hv
    rfl

/-- A statement up to the limit, given the texts of the nodes below. -/
theorem text_stmt_of_le (hle : depth ≤ Rendering.maxDepth) {id : StmtId} {st : Stmt}
    (hst : store.stmt id = .ok st) {v : View} (hv : st.kind.view? store names = some v)
    {texts : NodeId → String}
    (htexts : ∀ c ∈ v.below, store.text names (depth + 1) c = .ok (texts c)) :
    store.text names depth (.stmt id) = .ok (v.caption.write (v.below.map texts)) := by
  obtain ⟨kind, span⟩ := st
  rw [text, Rendering.stmtText, if_neg (Nat.not_lt.mpr hle), hst, ok_bind]
  cases kind with
  | var n init =>
    obtain ⟨name, hname, rfl⟩ : ∃ name, names.text? n = some name ∧
        ⟨.var name, init.toList.map .expr⟩ = v := by
      simpa [StmtKind.view?, Option.bind_eq_some_iff] using hv
    cases init with
    | none =>
      simp only [InternTable.lookup_eq_ok_iff.mpr hname, ok_bind]
      exact congrArg Except.ok (by simp [Caption.write])
    | some init =>
      have hinit : Rendering.exprText store names (depth + 1) init = _ :=
        htexts (.expr init) (by simp)
      simp only [InternTable.lookup_eq_ok_iff.mpr hname, hinit, ok_bind]
      exact congrArg Except.ok (by simp [Caption.write, String.append_assoc])
  | assign n value =>
    obtain ⟨name, hname, rfl⟩ : ∃ name, names.text? n = some name ∧
        ⟨.assign name, [.expr value]⟩ = v := by
      simpa [StmtKind.view?, Option.bind_eq_some_iff] using hv
    have hvalue : Rendering.exprText store names (depth + 1) value = _ :=
      htexts (.expr value) (by simp)
    simp only [InternTable.lookup_eq_ok_iff.mpr hname, hvalue, ok_bind]
    exact congrArg Except.ok (by simp [Caption.write, String.append_assoc])
  | block body =>
    obtain ⟨ids, hids, rfl⟩ : ∃ ids, store.stmtList body = .ok ids ∧
        ⟨.block, ids.map .stmt⟩ = v := by
      simpa [StmtKind.view?, Option.bind_eq_some_iff] using hv
    have hbody : ids.mapM (Rendering.stmtText store names (depth + 1)) =
        .ok (ids.map fun c => texts (.stmt c)) :=
      mapM_ok fun c hc => htexts (.stmt c) (List.mem_map_of_mem hc)
    simp only [hids, hbody, ok_bind]
    cases ids with
    | nil => rfl
    | cons id ids => exact congrArg Except.ok (by simp [Caption.write, Function.comp_def])
  | expr value =>
    obtain rfl := Option.some.inj hv
    have hvalue : Rendering.exprText store names (depth + 1) value = _ :=
      htexts (.expr value) (by simp)
    exact hvalue.trans (congrArg Except.ok (by simp [Caption.write]))
  | error =>
    obtain rfl := Option.some.inj hv
    rfl

theorem text_of_le (hle : depth ≤ Rendering.maxDepth) {v : View}
    (hv : store.view? names node = some v) {texts : NodeId → String}
    (htexts : ∀ c ∈ v.below, store.text names (depth + 1) c = .ok (texts c)) :
    store.text names depth node = .ok (v.caption.write (v.below.map texts)) := by
  cases node with
  | expr id =>
    obtain ⟨e, he, hkind⟩ := Option.bind_eq_some_iff.mp hv
    exact text_expr_of_le hle (toOption_eq_some_iff.mp he) hkind htexts
  | stmt id =>
    obtain ⟨st, hst, hkind⟩ := Option.bind_eq_some_iff.mp hv
    exact text_stmt_of_le hle (toOption_eq_some_iff.mp hst) hkind htexts

/-- All nodes less than `d` steps below `root` are shown in the same way in both stores. -/
def AgreesWithin (store : NodeStore) (names : NameTable) (store' : NodeStore) (names' : NameTable)
    (d : Nat) (root : NodeId) : Prop :=
  ∀ p node, p.length < d → store.nodeAt names root p = some node →
    store'.view? names' node = store.view? names node

/-- **From depth `depth` on, rendering writes the picture as many levels deep as are left up to the
limit**, and only depends on the nodes that are shown there. -/
theorem text_eq_picture (hlevels : depth + d = Rendering.maxDepth + 1)
    (h : store.ReadableWithin names d root)
    (hsame : store.AgreesWithin names store' names' d root) :
    store'.text names' depth root = .ok (store.picture names d root).text := by
  induction d generalizing depth root with
  | zero => exact text_of_lt (by omega) root
  | succ d ih =>
    obtain ⟨v, hv, hbelow⟩ := h.exists_view
    have hv' : store'.view? names' root = some v := (hsame [] root (Nat.succ_pos _) rfl).trans hv
    have htexts : ∀ c ∈ v.below,
        store'.text names' (depth + 1) c = .ok (store.picture names d c).text := by
      intro c hc
      refine ih (by omega) (hbelow c hc) fun p node hp hnode => ?_
      obtain ⟨i, hi⟩ := List.getElem?_of_mem hc
      refine hsame (i :: p) node (Nat.succ_lt_succ hp) ?_
      rw [nodeAt_cons hv, hi]
      exact hnode
    rw [text_of_le (by omega) hv' htexts, picture_succ hv, Picture.text, Picture.texts_eq_map,
      List.map_map]
    rfl

/-- **A message shows the tree below a node, cut at depth 33.** Let all nodes that are at most 32
steps below a node be there, with their names and lists. Then the node has a text. It is that of the
tree below the node, where exactly the parts at depth 33 are left out. A tree that ends above this
depth is shown as a whole, and what lies deeper does not matter: in every store that shows the nodes
above this depth in the same way, the text is the same. -/
theorem rendering_cuts (store : NodeStore) (names : NameTable) (root : NodeId)
    (h : ∀ p node, p.length ≤ 32 → store.nodeAt names root p = some node →
      store.Readable names node) :
    ∃ t : Picture, (∀ t', store.CutsAt names 33 root t' ↔ t' = t) ∧
      (∀ p, t.part p = some .elided → p.length = 33) ∧
      store.render names root = .ok t.text ∧
      ((∀ p, p.length = 33 → store.nodeAt names root p = none) →
        ∀ p, (t.part p).map Picture.caption? =
          (store.nodeAt names root p).map (store.caption? names)) ∧
      ∀ (store' : NodeStore) (names' : NameTable),
        (∀ p node, p.length ≤ 32 → store.nodeAt names root p = some node →
          store'.view? names' node = store.view? names node) →
        store'.render names' root = .ok t.text := by
  have hreadable : store.ReadableWithin names 33 root :=
    fun p node hp => h p node (Nat.le_of_lt_succ hp)
  -- the limit is 32, and a node is left out if its depth is greater
  have hlevels : 0 + 33 = Rendering.maxDepth + 1 := rfl
  have hcuts := hreadable.cutsAt
  refine ⟨store.picture names 33 root, ?_, ?_, ?_, hcuts.whole, ?_⟩
  · exact fun t' => ⟨fun h' => h'.unique hcuts, fun heq => heq ▸ hcuts⟩
  · exact fun p hp => hcuts.length_of_elided hreadable hp
  · rw [render_eq_text]
    exact text_eq_picture hlevels hreadable fun _ _ _ _ => rfl
  · intro store' names' hsame
    rw [render_eq_text]
    exact text_eq_picture hlevels hreadable fun p node hp => hsame p node (Nat.le_of_lt_succ hp)

end NodeStore

namespace Endless

/-- The block `{ var x; … }`, whose second statement is the block itself. -/
def nodes : NodeStore where
  stmts := #[⟨.block ⟨0, 2⟩, ⟨0, 9⟩⟩, ⟨.var ⟨1⟩ none, ⟨2, 7⟩⟩]
  stmtItems := #[⟨1⟩, ⟨0⟩]

def names : NameTable := (NameTable.initial.intern "x").2

end Endless

/-- All nodes of the endless tree are there, and its text ends with the 33rd block. -/
theorem NodeStore.rendering_cuts_endless :
    (∀ p node, p.length ≤ 32 → Endless.nodes.nodeAt Endless.names (.stmt ⟨0⟩) p = some node →
      Endless.nodes.Readable Endless.names node) ∧
    ∃ t, Endless.nodes.CutsAt Endless.names 33 (.stmt ⟨0⟩) t ∧
      t.text = String.join (List.replicate 32 "\x7b var x; ") ++ "\x7b ...; ... \x7d" ++
        String.join (List.replicate 32 " \x7d") := by
  have hinside : ∀ node ∈ [NodeId.stmt ⟨0⟩, .stmt ⟨1⟩],
      ∀ c ∈ Endless.nodes.below Endless.names node, c ∈ [NodeId.stmt ⟨0⟩, .stmt ⟨1⟩] := by decide
  have hreadable : ∀ p node, p.length ≤ 32 →
      Endless.nodes.nodeAt Endless.names (.stmt ⟨0⟩) p = some node →
      Endless.nodes.Readable Endless.names node := by
    intro p node _ hnode
    have hmem := follow_invariant hinside (by decide) hnode
    rcases List.mem_pair.mp hmem with rfl | rfl
    · exact ⟨_, rfl, Nat.le_refl 2⟩
    · exact ⟨_, rfl, Nat.lt_succ_self 1⟩
  obtain ⟨t, hcuts, -, htext, -⟩ := rendering_cuts Endless.nodes Endless.names (.stmt ⟨0⟩) hreadable
  have hrender : Endless.nodes.render Endless.names (.stmt ⟨0⟩) =
      .ok (String.join (List.replicate 32 "\x7b var x; ") ++ "\x7b ...; ... \x7d" ++
        String.join (List.replicate 32 " \x7d")) := by decide +kernel
  exact ⟨hreadable, t, (hcuts t).mpr rfl, Except.ok.inj (htext.symm.trans hrender)⟩

end RegisterCode
