import RegisterCode.Proofs.ScopeStack
import RegisterCode.Proofs.WellFormed

/-!
# What a node leaves alone

Code for an expression changes no scope, and code for a statement at most the innermost one: a
declaration binds its variable there. This holds whether a node is accepted or rejected. A block
may have bound variables, and opened further scopes, by the time one of its statements is rejected;
closing its own scope still gives back the chain from which it started, since all that happened
inside was bound in that scope (`leave_insertAll`).

A step settles if it succeeds or is rejected; it does neither when a reference leads nowhere or a
node contains itself. Sound nodes settle in every state whose scopes are linked.

Results:
* `lowerExpr_emits`, `lowerStmt_settles`: what one node does.
* `forM_binds`: what a list of statements does.
* `scope_discipline`: all of it together.
-/

namespace RegisterCode

namespace ScopeChain

variable {c : ScopeChain}

theorem insertAll_append (c : ScopeChain) (symbols symbols' : List Symbol) :
    c.insertAll (symbols ++ symbols') = (c.insertAll symbols).insertAll symbols' :=
  List.foldl_append

/-- Binding symbols changes no frame but the innermost one. -/
theorem insertAll_frames (c : ScopeChain) (symbols : List Symbol) :
    (c.insertAll symbols).depth = c.depth ∧
      ∀ i < c.current, (c.insertAll symbols).frames[i]? = c.frames[i]? := by
  induction symbols generalizing c with
  | nil => exact ⟨rfl, fun _ _ => rfl⟩
  | cons s symbols ih =>
    obtain ⟨hdepth, hframes⟩ := ih (c.insert s).2
    have hcurrent : (c.insert s).2.current = c.current := by
      simp [ScopeChain.insert, current]
    refine ⟨hdepth.trans (depth_insert c s), fun i hi => ?_⟩
    have hsame : (c.insert s).2.frames[i]? = c.frames[i]? := by
      simp only [ScopeChain.insert]
      rw [Array.getElem?_modify, if_neg (by omega)]
    exact (hframes i (by omega)).trans hsame

/-- Whatever was bound in a scope is gone when the scope is closed. -/
theorem leave_insertAll (c : ScopeChain) (symbols : List Symbol) :
    (c.enter.insertAll symbols).leave = .ok () c := by
  obtain ⟨hdepth, hframes⟩ := c.enter.insertAll_frames symbols
  rw [depth_enter] at hdepth
  refine leave_eq_of_frames hdepth fun i hi => ?_
  have hcurrent : c.enter.current = c.depth := by
    simp [enter, current, depth]
  rw [hframes i (by omega), enter, Array.getElem?_push, if_neg (by unfold depth at hi; omega)]

end ScopeChain

namespace Lowering

variable {α β : Type} {s s' s'' : State}

/-! ## Growing states -/

/-- Code was appended, and no register was taken back. -/
structure State.Grows (s s' : State) : Prop where
  listing : ∃ code, s'.listing = s.listing.append code
  registers : s.registers.allocated ≤ s'.registers.allocated

theorem State.Grows.refl (s : State) : s.Grows s := ⟨⟨[], by simp⟩, Nat.le_refl _⟩

theorem State.Grows.trans (h : s.Grows s') (h' : s'.Grows s'') : s.Grows s'' := by
  obtain ⟨⟨code, hcode⟩, hregs⟩ := h
  obtain ⟨⟨code', hcode'⟩, hregs'⟩ := h'
  exact ⟨⟨code ++ code', by rw [hcode', hcode, Listing.append_append]⟩, Nat.le_trans hregs hregs'⟩

/-- The state grew and its scopes are those of before. -/
structure State.Emitted (s s' : State) : Prop extends s.Grows s' where
  scopes_eq : s'.scopes = s.scopes

theorem State.Emitted.refl (s : State) : s.Emitted s := ⟨.refl s, rfl⟩

theorem State.Emitted.trans (h : s.Emitted s') (h' : s'.Emitted s'') : s.Emitted s'' :=
  ⟨h.toGrows.trans h'.toGrows, h'.scopes_eq.trans h.scopes_eq⟩

theorem State.emitted_grow (s : State) (code : List Instr) {k : Nat}
    (hk : s.registers.allocated ≤ k) : s.Emitted (s.grow code k) :=
  ⟨⟨⟨code, rfl⟩, hk⟩, rfl⟩

/-- The state grew and symbols were bound in the innermost scope. -/
structure State.Bound (s s' : State) : Prop extends s.Grows s' where
  scopes_eq : ∃ symbols, s'.scopes = s.scopes.insertAll symbols

theorem State.Emitted.bound (h : s.Emitted s') : s.Bound s' := ⟨h.toGrows, [], h.scopes_eq⟩

theorem State.Bound.trans (h : s.Bound s') (h' : s'.Bound s'') : s.Bound s'' := by
  obtain ⟨hgrows, symbols, hsymbols⟩ := h
  obtain ⟨hgrows', symbols', hsymbols'⟩ := h'
  refine ⟨hgrows.trans hgrows', symbols ++ symbols', ?_⟩
  rw [hsymbols', hsymbols, ScopeChain.insertAll_append]

theorem State.Bound.linked (h : s.Bound s') (hs : s.scopes.Linked) : s'.scopes.Linked := by
  obtain ⟨-, symbols, hsymbols⟩ := h
  rw [hsymbols]
  exact hs.insertAll symbols

/-! ## Steps that settle -/

/-- The step succeeds in a state with `Q`, or is rejected in a state with `R`. -/
def Settles (x : LowerM α) (s : State) (Q R : State → Prop) : Prop :=
  (∃ a s', x s = .ok a s' ∧ Q s') ∨ ∃ r s', x s = .error (.rejected r) s' ∧ R s'

variable {x : LowerM α} {f : α → LowerM β} {Q Q' R R' : State → Prop}

theorem Settles.imp (h : Settles x s Q R) (hQ : ∀ s', Q s' → Q' s') (hR : ∀ s', R s' → R' s') :
    Settles x s Q' R' := by
  rcases h with ⟨a, s', hrun, hq⟩ | ⟨r, s', hrun, hr⟩
  · exact .inl ⟨a, s', hrun, hQ s' hq⟩
  · exact .inr ⟨r, s', hrun, hR s' hr⟩

theorem Settles.bind (hx : Settles x s Q R) (hf : ∀ a s', Q s' → Settles (f a) s' Q' R) :
    Settles (x >>= f) s Q' R := by
  rcases hx with ⟨a, s', hrun, hq⟩ | ⟨r, s', hrun, hr⟩
  · unfold Settles
    rw [bind_of_ok hrun]
    exact hf a s' hq
  · exact .inr ⟨r, s', bind_of_error hrun f, hr⟩

/-- A step that reads something in front of another. -/
theorem Settles.of_read {a : α} (hx : x s = .ok a s) (hf : Settles (f a) s Q R) :
    Settles (x >>= f) s Q R := by
  unfold Settles
  rwa [bind_of_ok hx]

theorem Settles.of_orFault {y : Except Fault α} {a : α} (hy : y = .ok a)
    (hf : Settles (f a) s Q R) : Settles (orFault y >>= f) s Q R :=
  .of_read (orFault_eq_ok.mpr ⟨hy, rfl⟩) hf

/-- The step settles and changes no scope. -/
def Emits (x : LowerM α) (s : State) : Prop := Settles x s s.Emitted s.Emitted

theorem Emits.bind (hx : Emits x s) (hf : ∀ a s', s.Emitted s' → Emits (f a) s') :
    Emits (x >>= f) s :=
  Settles.bind hx fun a s' h => (hf a s' h).imp (fun _ => h.trans) fun _ => h.trans

theorem emits_pure (a : α) (s : State) : Emits (pure a : LowerM α) s := .inl ⟨a, s, rfl, .refl s⟩

theorem emits_reject (r : Rejection) (s : State) : Emits (reject r : LowerM α) s :=
  .inr ⟨r, s, rfl, .refl s⟩

theorem emits_emit (i : Instr) (s : State) : Emits (emit i) s :=
  .inl ⟨(), _, emit_eq i s, s.emitted_grow [i] (Nat.le_refl _)⟩

theorem emits_emitInto (i : Register → Instr) (s : State) :
    Emits (do
      let target ← freshRegister
      emit (i target)
      return .reg target : LowerM Value) s :=
  .inl ⟨_, _, emitInto_eq i s, s.emitted_grow _ (Nat.le_succ _)⟩

theorem emits_emitBinary (op : Opcode) (left right : Value) (s : State) :
    Emits (emitBinary op left right) s :=
  emits_emitInto (.binary · op left right) s

/-- A step that binds symbols in a scope of its own changes no scope. -/
theorem Settles.inScope {step : LowerM Unit}
    (h : Settles step { s with scopes := s.scopes.enter }
      (State.Bound { s with scopes := s.scopes.enter })
      (State.Bound { s with scopes := s.scopes.enter })) : Emits (inScope step) s := by
  -- wherever the step stopped, all that it bound stands in the scope that is closed now
  have hleave : ∀ s' : State, State.Bound { s with scopes := s.scopes.enter } s' →
      leaveScope s' = .ok () { s' with scopes := s.scopes } := by
    rintro s' ⟨-, symbols, hsymbols⟩
    rw [leaveScope_eq, hsymbols, ScopeChain.leave_insertAll]
  rcases h with ⟨a, s', hrun, hbound⟩ | ⟨r, s', hrun, hbound⟩
  · refine .inl ⟨(), { s' with scopes := s.scopes }, ?_, ⟨⟨hbound.listing, hbound.registers⟩, rfl⟩⟩
    simp only [inScope_eq, hrun, hleave s' hbound]
  · refine .inr ⟨r, { s' with scopes := s.scopes }, ?_, ⟨⟨hbound.listing, hbound.registers⟩, rfl⟩⟩
    simp only [inScope_eq, hrun, hleave s' hbound]

/-! ## Expressions -/

variable {ctx : Context} {n : Name}

theorem resolveSlot_emits (hs : s.scopes.Linked) (hn : n.index < ctx.names.size) (span : Span) :
    Emits (ctx.resolveSlot n span) s := by
  obtain ⟨text, htext, -⟩ := NodeStore.exists_lookup (NameTable.Extends.refl _) hn
  unfold Context.resolveSlot
  refine Settles.of_read (a := s) rfl (.of_orFault (ScopeChain.resolve_eq hs n) ?_)
  cases Layer.find s.scopes.layers n with
  | none => exact .of_orFault htext (emits_reject _ s)
  | some symbol =>
    cases hbuiltin : symbol.isBuiltin with
    | true =>
      simp only [hbuiltin, if_true]
      exact .of_orFault htext (emits_reject _ s)
    | false =>
      simp only [hbuiltin, Bool.false_eq_true, if_false]
      exact emits_pure _ s

theorem rejectExpr_emits {id : ExprId} (h : ctx.nodes.ExprSound ctx.names id) (construct : String)
    (s : State) : Emits (ctx.rejectExpr id construct : LowerM α) s := by
  have hclosed := NodeStore.sound_closed ctx.nodes ctx.names
  obtain ⟨e, he, -, -⟩ := hclosed.expr h
  obtain ⟨text, htext, -⟩ := hclosed.exprText (NameTable.Extends.refl _) 0 h
  unfold Context.rejectExpr
  exact .of_orFault he (.of_orFault htext (emits_reject _ s))

theorem rejectStmt_emits {id : StmtId} (h : ctx.nodes.StmtSound ctx.names id) (construct : String)
    (s : State) : Emits (ctx.rejectStmt id construct : LowerM α) s := by
  have hclosed := NodeStore.sound_closed ctx.nodes ctx.names
  obtain ⟨st, hst, -, -⟩ := hclosed.stmt h
  obtain ⟨text, htext, -⟩ := hclosed.stmtText (NameTable.Extends.refl _) 0 h
  unfold Context.rejectStmt
  exact .of_orFault hst (.of_orFault htext (emits_reject _ s))

/-- One level of an expression, given what the level below does. -/
theorem lowerExpr_emits_succ {level : Nat} {id : ExprId} (h : ctx.nodes.ExprSound ctx.names id)
    (below : ∀ c, ctx.nodes.ExprBelow id c → ∀ s : State, s.scopes.Linked →
      Emits (lowerExpr ctx level c) s) (hs : s.scopes.Linked) :
    Emits (lowerExpr ctx (level + 1) id) s := by
  obtain ⟨e, he, ⟨-, hkind⟩, -⟩ := (NodeStore.sound_closed ctx.nodes ctx.names).expr h
  have hchild : ∀ c ∈ e.kind.children ctx.nodes, ∀ s' : State, s.Emitted s' →
      Emits (lowerExpr ctx level c) s' :=
    fun c hc s' hs' => below c ⟨e, he, hc⟩ s' (hs'.scopes_eq ▸ hs)
  rw [lowerExpr]
  refine Settles.of_orFault he ?_
  cases hk : e.kind with
  | ident n =>
    rw [hk] at hkind
    exact (resolveSlot_emits hs hkind e.span).bind fun slot s' _ =>
      emits_emitInto (.load · slot) s'
  | int value =>
    dsimp only
    cases literal? value with
    | some value => exact emits_emitBinary _ _ _ s
    | none => exact rejectExpr_emits h _ s
  | binary op left right =>
    rw [hk] at hchild
    dsimp only
    cases op.opcode? with
    | none => exact rejectExpr_emits h _ s
    | some op =>
      refine (hchild left (by simp [ExprKind.children]) s (.refl s)).bind fun l s₁ hs₁ => ?_
      exact (hchild right (by simp [ExprKind.children]) s₁ hs₁).bind fun r s₂ _ =>
        emits_emitBinary op l r s₂
  | unary op operand =>
    rw [hk] at hchild
    have hoperand := hchild operand (by simp [ExprKind.children]) s (.refl s)
    cases op with
    | neg => exact hoperand.bind fun v s₁ _ => emits_emitBinary .sub .zero v s₁
    | pos => exact hoperand
    | not => exact rejectExpr_emits h _ s
  | paren inner =>
    rw [hk] at hchild
    exact hchild inner (by simp [ExprKind.children]) s (.refl s)
  | call f args =>
    rw [hk] at hchild hkind
    refine Settles.of_orFault (Slice.read_eq_items hkind.2) ?_
    rw [ExprKind.children] at hchild
    generalize args.items ctx.nodes.exprItems = items at hchild ⊢
    rcases items with - | ⟨arg, - | ⟨arg', items⟩⟩
    · exact rejectExpr_emits h _ s
    · refine Settles.of_read (a := s) rfl ?_
      cases s.scopes.lookupUniverse f with
      | none => exact rejectExpr_emits h _ s
      | some symbol =>
        dsimp only
        split
        · exact (hchild arg List.mem_cons_self s (.refl s)).bind fun v s₁ _ =>
            emits_emitInto (.call · symbol.label v) s₁
        · exact rejectExpr_emits h _ s
    · exact rejectExpr_emits h _ s
  | error => exact rejectExpr_emits h _ s

/-- **A sound expression settles and changes no scope.** -/
theorem lowerExpr_emits {id : ExprId} (h : ctx.nodes.ExprSound ctx.names id)
    (hs : s.scopes.Linked) : Emits (ctx.lowerExpr id) s := by
  refine NodeStore.Throughout.levels
    (P := fun level id => ∀ s : State, s.scopes.Linked → Emits (lowerExpr ctx level id) s) h
    NodeStore.exprIndex_injective ?_ ?_ s hs
  · rintro id ⟨e, he, -⟩
    exact NodeStore.index_lt_of_expr he
  · intro level id hid below s hs
    exact lowerExpr_emits_succ hid below hs

/-! ## Statements -/

/-- The scopes behind a statement that was accepted. A declaration has bound its variable to a slot
of its own in the innermost one; no other statement has changed any. -/
def Context.Declared (ctx : Context) (id : StmtId) (st : Stmt) (c c' : ScopeChain) : Prop :=
  match st.kind with
  | .var n _ => ∃ text, ctx.names.lookup n = .ok text ∧
      c' = (c.insert ⟨n, ctx.mangling.localSlot text st.span.start, .declared id⟩).2
  | .assign .. | .block _ | .expr _ | .error => c' = c

theorem Context.Declared.exists_symbols {id : StmtId} {st : Stmt} {c c' : ScopeChain}
    (h : ctx.Declared id st c c') : ∃ symbols, c' = c.insertAll symbols := by
  unfold Context.Declared at h
  split at h
  · obtain ⟨text, -, heq⟩ := h
    exact ⟨[_], heq⟩
  all_goals exact ⟨[], h⟩

/-- A statement other than a declaration declares nothing. -/
theorem Emits.declares {id : StmtId} {st : Stmt} (h : Emits x s)
    (hsame : ctx.Declared id st s.scopes s.scopes) :
    Settles x s (fun s' => s.Grows s' ∧ ctx.Declared id st s.scopes s'.scopes) s.Emitted :=
  h.imp (fun _ h' => ⟨h'.toGrows, h'.scopes_eq.symm ▸ hsame⟩) fun _ h' => h'

theorem lowerInit_emits {init : Option ExprId}
    (h : ∀ e ∈ init, ctx.nodes.ExprSound ctx.names e) (hs : s.scopes.Linked) :
    Emits (ctx.lowerInit init) s := by
  cases init with
  | none => exact emits_pure _ s
  | some e => exact lowerExpr_emits (h e rfl) hs

theorem lowerVar_settles {id : StmtId} {init : Option ExprId} {span : Span}
    (hn : n.index < ctx.names.size) (hinit : ∀ e ∈ init, ctx.nodes.ExprSound ctx.names e)
    (hs : s.scopes.Linked) :
    Settles (ctx.lowerVar id n init span) s
      (fun s' => s.Grows s' ∧ ctx.Declared id ⟨.var n init, span⟩ s.scopes s'.scopes)
      s.Emitted := by
  obtain ⟨text, htext, -⟩ := NodeStore.exists_lookup (NameTable.Extends.refl _) hn
  rw [lowerVar_eq]
  refine Settles.bind (lowerInit_emits hinit hs) fun v s₁ h₁ => ?_
  refine .inl ⟨(), _, declareVar_eq_ok.mpr ⟨text, InternTable.lookup_eq_ok_iff.mp htext, rfl⟩, ?_,
    ?_⟩
  · exact h₁.toGrows.trans ⟨⟨_, rfl⟩, Nat.le_refl _⟩
  · exact ⟨text, htext, by rw [h₁.scopes_eq]⟩

/-- What one statement after the other does, given what each of them does. -/
theorem forM_binds {step : StmtId → LowerM Unit} {ids : List StmtId}
    (h : ∀ id ∈ ids, ∀ s : State, s.scopes.Linked → Settles (step id) s s.Bound s.Bound)
    (hs : s.scopes.Linked) : Settles (ids.forM step) s s.Bound s.Bound := by
  induction ids generalizing s with
  | nil => exact .inl ⟨(), s, rfl, (State.Emitted.refl s).bound⟩
  | cons id ids ih =>
    refine Settles.bind (h id List.mem_cons_self s hs) fun _ s₁ h₁ => ?_
    have hrest := ih (fun id' hid' => h id' (List.mem_cons_of_mem id hid')) (h₁.linked hs)
    exact hrest.imp (fun _ => h₁.trans) fun _ => h₁.trans

/-- One level of a statement, given what the level below does. -/
theorem lowerStmt_settles_succ {level : Nat} {id : StmtId} {st : Stmt}
    (h : ctx.nodes.StmtSound ctx.names id) (hst : ctx.nodes.stmt id = .ok st)
    (below : ∀ c, ctx.nodes.StmtBelow id c → ∀ s : State, s.scopes.Linked →
      Settles (lowerStmt ctx level c) s s.Bound s.Bound) (hs : s.scopes.Linked) :
    Settles (lowerStmt ctx (level + 1) id) s
      (fun s' => s.Grows s' ∧ ctx.Declared id st s.scopes s'.scopes) s.Emitted := by
  obtain ⟨st', hst', hbounds, hexprs, -⟩ := (NodeStore.sound_closed ctx.nodes ctx.names).stmt h
  obtain rfl : st = st' := Except.ok.inj (hst.symm.trans hst')
  rw [lowerStmt]
  refine Settles.of_orFault hst ?_
  obtain ⟨kind, span⟩ := st
  cases kind with
  | var n init =>
    exact lowerVar_settles hbounds.var_lt (fun e he => hexprs e (Option.mem_toList.mpr he)) hs
  | assign n value =>
    refine Emits.declares ((resolveSlot_emits hs hbounds.2.1 span).bind fun slot s₁ h₁ => ?_) rfl
    have hvalue := lowerExpr_emits (hexprs value List.mem_cons_self) (h₁.scopes_eq ▸ hs)
    exact hvalue.bind fun v s₂ _ => emits_emit _ s₂
  | block body =>
    have hbody := forM_binds (s := { s with scopes := s.scopes.enter })
      (fun c hc => below c ⟨_, hst, hc⟩) hs.enter
    have hlist := Slice.read_eq_items hbounds.2
    exact Emits.declares (.inScope (.of_orFault hlist hbody)) rfl
  | expr value =>
    refine Emits.declares ((lowerExpr_emits (hexprs value List.mem_cons_self) hs).bind ?_) rfl
    exact fun _ s₁ _ => emits_pure () s₁
  | error => exact (rejectStmt_emits h _ s).declares rfl

/-- **A sound statement settles. Where it is accepted, a variable that it declares is bound, and
where it is rejected, no scope has changed.** -/
theorem lowerStmt_settles {id : StmtId} {st : Stmt} (h : ctx.nodes.StmtSound ctx.names id)
    (hst : ctx.nodes.stmt id = .ok st) (hs : s.scopes.Linked) :
    Settles (ctx.lowerStmt id) s
      (fun s' => s.Grows s' ∧ ctx.Declared id st s.scopes s'.scopes) s.Emitted := by
  refine NodeStore.Throughout.levels (P := fun level id => ∀ (s : State) st, s.scopes.Linked →
    ctx.nodes.stmt id = .ok st → Settles (lowerStmt ctx level id) s
      (fun s' => s.Grows s' ∧ ctx.Declared id st s.scopes s'.scopes) s.Emitted) h
    NodeStore.stmtIndex_injective ?_ ?_ s st hs hst
  · rintro id ⟨st, hst, -⟩
    exact NodeStore.index_lt_of_stmt hst
  · intro level id hid below s st hs hst
    refine lowerStmt_settles_succ hid hst (fun c hc s₁ hs₁ => ?_) hs
    obtain ⟨stc, hstc, -⟩ := (hid.under hc).here
    refine (below c hc s₁ stc hs₁ hstc).imp (fun s₂ h₂ => ?_) fun s₂ h₂ => h₂.bound
    exact ⟨h₂.1, h₂.2.exists_symbols⟩

/-- **Scopes are kept, whether a node is accepted or rejected.** In every state whose scopes are
linked, a sound expression is accepted or rejected, and the scopes are those of before. So is a
sound statement: the number of scopes and all but the innermost one are as before; the innermost one
has changed only if the statement is a declaration and was accepted, and then its variable was bound
to a new slot. In particular a block leaves all scopes as they were. The code grows at its end and
no register is taken back. -/
theorem scope_discipline (ctx : Context) {s : State} (hs : s.scopes.Linked) :
    (∀ id, ctx.nodes.ExprSound ctx.names id → Settles (ctx.lowerExpr id) s s.Emitted s.Emitted) ∧
    ∀ id st, ctx.nodes.StmtSound ctx.names id → ctx.nodes.stmt id = .ok st →
      Settles (ctx.lowerStmt id) s
        (fun s' => s.Grows s' ∧ ctx.Declared id st s.scopes s'.scopes ∧
          s'.scopes.depth = s.scopes.depth ∧
          ∀ i < s.scopes.current, s'.scopes.frames[i]? = s.scopes.frames[i]?)
        s.Emitted := by
  refine ⟨fun id hid => lowerExpr_emits hid hs, fun id st hid hst => ?_⟩
  refine (lowerStmt_settles hid hst hs).imp (fun s' h => ?_) fun _ h => h
  obtain ⟨hgrows, hdeclared⟩ := h
  obtain ⟨symbols, heq⟩ := hdeclared.exists_symbols
  obtain ⟨hdepth, hframes⟩ := s.scopes.insertAll_frames symbols
  rw [← heq] at hdepth hframes
  exact ⟨hgrows, hdeclared, hdepth, hframes⟩

namespace Opened

/-- The nodes and names of a unit that is not accepted. -/
def context : Context := ⟨Counter.faulty.nodes, Counter.names, ⟨"ugo"⟩⟩

/-- A function `println` and, in a scope inside, a variable `x`. -/
def state : State where
  scopes := ((ScopeChain.ofUniverse [⟨⟨3⟩, ⟨"@ugo_builtin_println"⟩, .builtin⟩]).enter.insert
    ⟨⟨2⟩, ⟨"@ugo_main_x"⟩, .global 0⟩).2

end Opened

open Opened in
/-- The call `println(tick)` is rejected. So is the body of the function, inside its inner block and
behind the declaration of `tick`, which on its own is accepted. -/
theorem scope_discipline_opened :
    state.scopes.Linked ∧ context.nodes.ExprSound context.names ⟨4⟩ ∧
    (∃ r s', context.lowerExpr ⟨4⟩ state = .error (.rejected r) s' ∧ s'.scopes = state.scopes) ∧
    context.nodes.StmtSound context.names ⟨4⟩ ∧
    (∃ r s', context.lowerStmt ⟨4⟩ state = .error (.rejected r) s' ∧
      s'.scopes = state.scopes ∧ state.Grows s') ∧
    context.nodes.StmtSound context.names ⟨0⟩ ∧
    ∃ s', context.lowerStmt ⟨0⟩ state = .ok () s' ∧ s'.scopes.depth = 2 ∧
      s'.scopes = (state.scopes.insert ⟨⟨4⟩, ⟨"%local_tick.pos.14"⟩, .declared ⟨0⟩⟩).2 ∧
      state.Grows s' := by
  have hb := Counter.faulty_inBounds.nodes
  have ha := Counter.faulty_descending.acyclic
  have hs : state.scopes.Linked := (ScopeChain.ofUniverse_layers _).1.enter.insert _
  have hcall : context.nodes.ExprSound context.names ⟨4⟩ := hb.exprSound ha (by decide)
  have hbody : context.nodes.StmtSound context.names ⟨4⟩ := hb.stmtSound ha (by decide)
  have hvar : context.nodes.StmtSound context.names ⟨0⟩ := hb.stmtSound ha (by decide)
  obtain ⟨hexprs, hstmts⟩ := scope_discipline context hs
  refine ⟨hs, hcall, ?_, hbody, ?_, hvar, ?_⟩
  · rcases hexprs ⟨4⟩ hcall with ⟨v, s', hrun, -⟩ | ⟨r, s', hrun, hkept⟩
    · exact nomatch hrun
    · exact ⟨r, s', hrun, hkept.scopes_eq⟩
  · have hfails : EStateM.Result.casesOn (motive := fun _ => Bool) (context.lowerStmt ⟨4⟩ state)
        (fun _ _ => true) (fun _ _ => false) = false := by decide +kernel
    rcases hstmts ⟨4⟩ _ hbody rfl with ⟨_, s', hrun, -⟩ | ⟨r, s', hrun, hkept⟩
    · rw [hrun] at hfails
      exact absurd hfails.symm Bool.false_ne_true
    · exact ⟨r, s', hrun, hkept.scopes_eq, hkept.toGrows⟩
  · rcases hstmts ⟨0⟩ _ hvar rfl with ⟨_, s', hrun, hgrows, hdeclared, hdepth, -⟩ | ⟨r, s', hrun, -⟩
    · obtain ⟨text, htext, hscopes⟩ := hdeclared
      cases htext
      exact ⟨s', hrun, hdepth, hscopes, hgrows⟩
    · exact nomatch hrun

end Lowering

end RegisterCode
