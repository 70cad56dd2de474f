import RegisterCode.Proofs.UnitCode
import RegisterCode.Proofs.WellFormed

/-!
# Which units are accepted

A node offends if it is a name that stands for no variable, a literal that is too large, an
operator without code, a call that is no call of a builtin function with one argument, or a mark
of an error. `StmtTree.offences` lists the offences in a tree in the order in which code is
emitted. It only knows which names are variables at each place, not how code is made.

Results:
* `Compiler.compile_judged`: a well-formed unit compiles unless a node offends, and fails at the
  first node that does; there is no other way to fail.
* `Compiler.first_offence_decides`: the same, where builtin functions are told by their texts.
* `Compiler.compile_total`: a unit in bounds whose nodes only contain earlier ones has a listing or
  a rejection.
-/

namespace RegisterCode

/-- What is wrong with a node. -/
inductive Offence where
  /-- A name that stands for nothing. -/
  | undefined (name : Name) (span : Span)
  /-- A builtin function where a variable is needed. -/
  | builtinVariable (name : Name) (span : Span)
  /-- An expression that has no code. -/
  | expr (construct : String) (site : Site ExprId)
  /-- A statement that has no code. -/
  | stmt (construct : String) (site : Site StmtId)
  deriving DecidableEq

/-- What is said about an offence. -/
def Offence.rejection (nodes : NodeStore) (names : NameTable) : Offence → Except Fault Rejection
  | .undefined name span => do
    let text ← names.lookup name
    return .undefinedVariable text span
  | .builtinVariable name span => do
    let text ← names.lookup name
    return .unsupported "identifier" ("builtin function `" ++ text ++ "` used as a variable") span
  | .expr construct site => do
    let text ← nodes.renderExpr names site.id
    return .unsupported construct text site.span
  | .stmt construct site => do
    let text ← nodes.renderStmt names site.id
    return .unsupported construct text site.span

/-! ## The offences in a tree -/

section Offences

variable (builtin : Name → Bool)

/-- The offence of a name that has to be one of `vars`. -/
def variableOffences (vars : List Name) (n : Name) (span : Span) : List Offence :=
  if n ∈ vars then [] else if builtin n then [.builtinVariable n span] else [.undefined n span]

mutual

/-- The offences in an expression, where `vars` are the variables in scope. -/
def ExprTree.offences (vars : List Name) : ExprTree → List Offence
  | .ident site n => variableOffences builtin vars n site.span
  | .int site value =>
    if -2147483648 ≤ value ∧ value ≤ 2147483647 then []
    else [.expr "integer literal outside i32 range" site]
  | .binary site op left right =>
    (if op ∈ [.add, .sub, .mul, .div] then [] else [.expr "binary operator" site]) ++
      (left.offences vars ++ right.offences vars)
  | .unary site op operand =>
    (if op ∈ [.neg, .pos] then [] else [.expr "unary operator" site]) ++ operand.offences vars
  | .paren _ inner => inner.offences vars
  | .call site callee args =>
    (if args.length = 1 then [] else [.expr "call with other than one argument" site]) ++
      ((if builtin callee then [] else [.expr "call to non-builtin function" site]) ++
        ExprTree.offencesAll vars args)
  | .error site => [.expr "error expression" site]

/-- The offences in several expressions, first to last. -/
def ExprTree.offencesAll (vars : List Name) : List ExprTree → List Offence
  | [] => []
  | t :: ts => t.offences vars ++ ExprTree.offencesAll vars ts

end

/-- The variable that a statement declares for those behind it. -/
def StmtTree.declared : StmtTree → List Name
  | .var _ n _ => [n]
  | .assign .. | .block .. | .expr .. | .error _ => []

mutual

/-- The offences in a statement, where `vars` are the variables in scope. -/
def StmtTree.offences (vars : List Name) : StmtTree → List Offence
  | .var _ _ init => init.elim [] (·.offences builtin vars)
  | .assign site n value =>
    variableOffences builtin vars n site.span ++ value.offences builtin vars
  | .block _ body => StmtTree.offencesAll vars body
  | .expr _ value => value.offences builtin vars
  | .error site => [.stmt "error statement" site]

/-- The offences in a list of statements, each of which declares variables for the next ones. -/
def StmtTree.offencesAll (vars : List Name) : List StmtTree → List Offence
  | [] => []
  | t :: ts => t.offences vars ++ StmtTree.offencesAll (t.declared ++ vars) ts

end

end Offences

/-- The operators for which there is code. -/
theorem BinaryOp.mem_iff_opcode? {op : BinaryOp} :
    op ∈ [BinaryOp.add, .sub, .mul, .div] ↔ op.opcode?.isSome = true := by
  cases op <;> decide

namespace Lowering

variable {α β : Type} {nodes : NodeStore} {names : NameTable}

/-! ## Judged steps -/

/-- The step succeeds if there are no offences, and otherwise fails for the first of them. Either
way it leaves open the scopes that were. -/
def Judged (nodes : NodeStore) (names : NameTable) (x : LowerM α) (s : State) :
    List Offence → Prop
  | [] => ∃ a s', x s = .ok a s' ∧ s.scopes.depth ≤ s'.scopes.depth
  | o :: _ => ∃ r s', o.rejection nodes names = .ok r ∧ x s = .error (.rejected r) s' ∧
      s.scopes.depth ≤ s'.scopes.depth

theorem Judged.bind {x : LowerM α} {f : α → LowerM β} {s : State} {os os' : List Offence}
    (hx : Judged nodes names x s os)
    (hf : ∀ a s', x s = .ok a s' → Judged nodes names (f a) s' os') :
    Judged nodes names (x >>= f) s (os ++ os') := by
  cases os with
  | cons o os =>
    obtain ⟨r, s', hr, hx, hdepth⟩ := hx
    exact ⟨r, s', hr, bind_of_error hx f, hdepth⟩
  | nil =>
    obtain ⟨a, s', hx, hdepth⟩ := hx
    have hfa := hf a s' hx
    rw [List.nil_append]
    cases os' with
    | nil =>
      obtain ⟨b, s'', hb, hdepth'⟩ := hfa
      exact ⟨b, s'', (bind_of_ok hx f).trans hb, Nat.le_trans hdepth hdepth'⟩
    | cons o os' =>
      obtain ⟨r, s'', hr, he, hdepth'⟩ := hfa
      exact ⟨r, s'', hr, (bind_of_ok hx f).trans he, Nat.le_trans hdepth hdepth'⟩

/-- A step in front of one without offences. -/
theorem Judged.andThen {x : LowerM α} {f : α → LowerM β} {s : State} {os : List Offence}
    (hx : Judged nodes names x s os)
    (hf : ∀ a s', x s = .ok a s' → Judged nodes names (f a) s' []) :
    Judged nodes names (x >>= f) s os :=
  List.append_nil os ▸ hx.bind hf

/-- A step without offences in front of others. -/
theorem Judged.of_ok {x : LowerM α} {f : α → LowerM β} {a : α} {s s₁ : State}
    {os : List Offence} (hx : x s = .ok a s₁) (hdepth : s.scopes.depth ≤ s₁.scopes.depth)
    (hf : Judged nodes names (f a) s₁ os) : Judged nodes names (x >>= f) s os := by
  have hnone : Judged nodes names x s [] := ⟨a, s₁, hx, hdepth⟩
  refine hnone.bind fun a' s' hx' => ?_
  rw [hx] at hx'
  cases hx'
  exact hf

/-- What is read is handed on. -/
theorem Judged.read {x : Except Fault α} {f : α → LowerM β} {a : α} {s : State}
    {os : List Offence} (hx : x = .ok a) (hf : Judged nodes names (f a) s os) :
    Judged nodes names (orFault x >>= f) s os :=
  .of_ok (orFault_eq_ok.mpr ⟨hx, rfl⟩) (Nat.le_refl _) hf

theorem Judged.pure (a : α) (s : State) : Judged nodes names (pure a : LowerM α) s [] :=
  ⟨a, s, rfl, Nat.le_refl _⟩

theorem judged_emit (i : Instr) (s : State) : Judged nodes names (emit i) s [] :=
  ⟨(), _, emit_eq i s, Nat.le_refl _⟩

theorem judged_emitInto (i : Register → Instr) (s : State) :
    Judged nodes names (do
      let target ← freshRegister
      emit (i target)
      return .reg target : LowerM Value) s [] :=
  ⟨_, _, emitInto_eq i s, Nat.le_refl _⟩

theorem judged_emitBinary (op : Opcode) (left right : Value) (s : State) :
    Judged nodes names (emitBinary op left right) s [] :=
  judged_emitInto (.binary · op left right) s

/-- A step in a scope of its own is judged as the step. -/
theorem Judged.inScope {step : LowerM Unit} {s : State} {os : List Offence}
    (h : Judged nodes names step { s with scopes := s.scopes.enter } os) :
    Judged nodes names (inScope step) s os := by
  -- wherever the step stopped, the scope opened for it is still there to be closed
  have hleave : ∀ s' : State, s.scopes.enter.depth ≤ s'.scopes.depth →
      ∃ c, s'.scopes.leave = .ok () c ∧ s.scopes.depth ≤ c.depth := by
    intro s' hs'
    rw [ScopeChain.depth_enter] at hs'
    have hlt : 1 < s'.scopes.depth := Nat.lt_of_lt_of_le (Nat.succ_lt_succ s.scopes.nonempty) hs'
    refine ⟨s'.scopes.outer hlt, ScopeChain.leave_of_lt hlt, ?_⟩
    rw [ScopeChain.depth_outer]
    exact Nat.le_sub_of_add_le hs'
  cases os with
  | nil =>
    obtain ⟨a, s', hstep, hdepth⟩ := h
    obtain ⟨c, hc, hdepth'⟩ := hleave s' hdepth
    exact ⟨(), { s' with scopes := c }, inScope_eq_ok.mpr ⟨s', c, hstep, hc, rfl⟩, hdepth'⟩
  | cons o os =>
    obtain ⟨r, s', hr, hstep, hdepth⟩ := h
    obtain ⟨c, hc, hdepth'⟩ := hleave s' hdepth
    refine ⟨r, { s' with scopes := c }, hr, ?_, hdepth'⟩
    rw [inScope_eq, hstep]
    simp only [leaveScope_eq, hc]

/-! ## The walk over the nodes -/

/-- What a judgement of nodes rests on: they are in bounds, names keep their texts while the unit is
compiled, and `builtin` tells the names of builtin functions. -/
structure Judges (builtin : Name → Bool) (names : NameTable) (ctx : Context) (univ : Layer) :
    Prop where
  inBounds : ctx.nodes.InBounds names
  keeps : names.Extends ctx.names
  builtin_iff : ∀ n, n.index < names.size → (builtin n = true ↔ (univ n).isSome = true)

/-- The layers bind exactly these variables. -/
def Binds (ls : List Layer) (vars : List Name) : Prop :=
  ∀ n, n ∈ vars ↔ (Layer.find ls n).isSome = true

variable {builtin : Name → Bool} {ctx : Context} {univ : Layer} {ls : List Layer}
  {vars : List Name} {s : State}

theorem Judges.rejectExpr (h : Judges builtin names ctx univ) {id : ExprId} {e : Expr}
    (he : ctx.nodes.expr id = .ok e) (construct : String) (os : List Offence) :
    Judged ctx.nodes names (ctx.rejectExpr id construct : LowerM α) s
      (.expr construct ⟨id, e.span⟩ :: os) := by
  have hid : id.index < ctx.nodes.exprs.size := NodeStore.index_lt_of_expr he
  obtain ⟨text, ht, ht'⟩ : ∃ text, ctx.nodes.renderExpr names id = .ok text ∧
      ctx.nodes.renderExpr ctx.names id = .ok text :=
    NodeStore.exprText_of_inBounds h.inBounds h.keeps 0 hid
  refine ⟨.unsupported construct text e.span, s, ?_, ?_, Nat.le_refl _⟩
  · simp only [Offence.rejection, ht, NodeStore.ok_bind]
    rfl
  · unfold Context.rejectExpr
    rw [orFault_bind he, orFault_bind ht']
    rfl

theorem Judges.rejectStmt (h : Judges builtin names ctx univ) {id : StmtId} {st : Stmt}
    (hst : ctx.nodes.stmt id = .ok st) (construct : String) (os : List Offence) :
    Judged ctx.nodes names (ctx.rejectStmt id construct : LowerM α) s
      (.stmt construct ⟨id, st.span⟩ :: os) := by
  have hid : id.index < ctx.nodes.stmts.size := NodeStore.index_lt_of_stmt hst
  obtain ⟨text, ht, ht'⟩ : ∃ text, ctx.nodes.renderStmt names id = .ok text ∧
      ctx.nodes.renderStmt ctx.names id = .ok text :=
    NodeStore.stmtText_of_inBounds h.inBounds h.keeps 0 hid
  refine ⟨.unsupported construct text st.span, s, ?_, ?_, Nat.le_refl _⟩
  · simp only [Offence.rejection, ht, NodeStore.ok_bind]
    rfl
  · unfold Context.rejectStmt
    rw [orFault_bind hst, orFault_bind ht']
    rfl

theorem Judges.resolveSlot (h : Judges builtin names ctx univ) (hs : s.scopes.Shows ls univ)
    (hv : Binds ls vars) {n : Name} (hn : n.index < names.size) (span : Span) :
    Judged ctx.nodes names (ctx.resolveSlot n span) s (variableOffences builtin vars n span) := by
  unfold variableOffences
  by_cases hmem : n ∈ vars
  · rw [if_pos hmem]
    obtain ⟨symbol, hfind⟩ := Option.isSome_iff_exists.mp ((hv n).mp hmem)
    exact ⟨symbol.label, s, (resolveSlot_eq_ok hs).mpr ⟨symbol, hfind, rfl, rfl⟩, Nat.le_refl _⟩
  · have hfind : Layer.find ls n = none := by
      rw [← Option.not_isSome_iff_eq_none]
      exact fun hsome => hmem ((hv n).mpr hsome)
    obtain ⟨text, ht, ht'⟩ := NodeStore.exists_lookup h.keeps hn
    have hget : (get : LowerM State) s = .ok s s := rfl
    have hresolve : s.scopes.resolve n = .ok (univ n) := by
      rw [hs.resolve, hfind, Option.none_or]
    rw [if_neg hmem]
    unfold Context.resolveSlot
    by_cases hb : builtin n = true
    · rw [if_pos hb]
      obtain ⟨symbol, hu⟩ := Option.isSome_iff_exists.mp ((h.builtin_iff n hn).mp hb)
      refine ⟨_, s, by simp only [Offence.rejection, ht, NodeStore.ok_bind]; rfl, ?_, Nat.le_refl _⟩
      rw [bind_of_ok hget, orFault_bind hresolve]
      simp only [hu, hs.funs n symbol hu, if_true]
      rw [orFault_bind ht']
      rfl
    · rw [if_neg hb]
      have hu : univ n = none := by
        rw [← Option.not_isSome_iff_eq_none]
        exact fun hsome => hb ((h.builtin_iff n hn).mpr hsome)
      refine ⟨_, s, by simp only [Offence.rejection, ht, NodeStore.ok_bind]; rfl, ?_, Nat.le_refl _⟩
      rw [bind_of_ok hget, orFault_bind hresolve]
      simp only [hu]
      rw [orFault_bind ht']
      rfl

/-- Whether there is code for an operator is judged before its operands. -/
theorem Judges.opcode (h : Judges builtin names ctx univ) {id : ExprId} {e : Expr}
    (he : ctx.nodes.expr id = .ok e) {op : BinaryOp} {x : Opcode → LowerM α} {os : List Offence}
    (hx : ∀ opcode, Judged ctx.nodes names (x opcode) s os) :
    Judged ctx.nodes names (match op.opcode? with
        | some opcode => x opcode
        | none => ctx.rejectExpr id "binary operator") s
      ((if op ∈ [BinaryOp.add, .sub, .mul, .div] then []
        else [.expr "binary operator" ⟨id, e.span⟩]) ++ os) := by
  cases hop : op.opcode? with
  | none =>
    have hmem : op ∉ [BinaryOp.add, .sub, .mul, .div] := by
      rw [BinaryOp.mem_iff_opcode?, hop]
      exact Bool.false_ne_true
    rw [if_neg hmem]
    exact h.rejectExpr he _ _
  | some opcode =>
    have hmem : op ∈ [BinaryOp.add, .sub, .mul, .div] := by
      rw [BinaryOp.mem_iff_opcode?, hop]
      rfl
    rw [if_pos hmem]
    exact hx opcode

/-- Whether a call is one of a builtin function is judged before its argument. -/
theorem Judges.callee (h : Judges builtin names ctx univ) (hs : s.scopes.Shows ls univ)
    {id : ExprId} {e : Expr} (he : ctx.nodes.expr id = .ok e) {f : Name}
    (hf : f.index < names.size) {x : Symbol → LowerM α} {os : List Offence}
    (hx : ∀ symbol, Judged ctx.nodes names (x symbol) s os) :
    Judged ctx.nodes names (match s.scopes.lookupUniverse f with
        | some symbol =>
          if symbol.isBuiltin then x symbol
          else ctx.rejectExpr id "call to non-builtin function"
        | none => ctx.rejectExpr id "call to non-builtin function") s
      ((if builtin f then [] else [.expr "call to non-builtin function" ⟨id, e.span⟩]) ++ os) := by
  rw [hs.lookupUniverse]
  cases hu : univ f with
  | none =>
    have hb : ¬ builtin f = true := by
      rw [h.builtin_iff f hf, hu]
      exact Bool.false_ne_true
    rw [if_neg hb]
    exact h.rejectExpr he _ _
  | some symbol =>
    have hb : builtin f = true := by
      rw [h.builtin_iff f hf, hu]
      rfl
    simp only [hs.funs f symbol hu, if_true, hb]
    exact hx symbol

/-- **An expression is lowered unless a node in it offends.** -/
theorem lowerExpr_judged (h : Judges builtin names ctx univ) (hv : Binds ls vars) {level : Nat}
    {id : ExprId} {t : ExprTree} (hs : s.scopes.Shows ls univ)
    (ht : ctx.nodes.unfoldExpr level id = some t) :
    Judged ctx.nodes names (lowerExpr ctx level id) s (t.offences builtin vars) := by
  induction level generalizing id s t with
  | zero => exact absurd ht (by simp [NodeStore.unfoldExpr])
  | succ level ih =>
    unfold lowerExpr
    cases NodeStore.unfoldExpr_succ.mp ht with
    | @ident span n node =>
      refine .read node ?_
      exact (h.resolveSlot hs hv (h.inBounds.expr node).2 span).andThen fun slot s' _ =>
        judged_emitInto (.load · slot) s'
    | @int span n node =>
      refine .read node ?_
      rw [ExprTree.offences]
      by_cases hn : -2147483648 ≤ n ∧ n ≤ 2147483647
      · simp only [literal?, if_pos hn]
        exact judged_emitBinary _ _ _ s
      · simp only [literal?, if_neg hn]
        exact h.rejectExpr node _ []
    | @binary span op left right l r node first second =>
      refine .read node ?_
      rw [ExprTree.offences]
      refine h.opcode node fun opcode => ?_
      refine (ih hs first).bind fun v s' hrun => ?_
      -- the left operand leaves the scopes as they are, so the right one sees the same variables
      obtain ⟨-, code, k, -, -, -, rfl⟩ := lowerExpr_translates hs hrun
      exact (ih (s := s.grow code (k + 1)) hs second).andThen fun v' s'' _ =>
        judged_emitBinary _ _ _ s''
    | @unary span op operand x node hx =>
      refine .read node ?_
      rw [ExprTree.offences]
      cases op with
      | neg => exact (ih hs hx).andThen fun v s' _ => judged_emitBinary _ _ _ s'
      | pos => exact ih hs hx
      | not => exact h.rejectExpr node _ _
    | paren node hx =>
      refine .read node ?_
      rw [ExprTree.offences]
      exact ih hs hx
    | @call span f slice ids ts node listed args =>
      refine .read node (.read listed ?_)
      rw [ExprTree.offences]
      cases args with
      | nil => exact h.rejectExpr node _ _
      | cons hx rest =>
        cases rest with
        | nil =>
          rw [if_pos List.length_singleton, List.nil_append]
          refine .of_ok (rfl : (get : LowerM State) s = .ok s s) (Nat.le_refl _) ?_
          refine h.callee hs node (h.inBounds.expr node).2.1 fun symbol => ?_
          rw [ExprTree.offencesAll, ExprTree.offencesAll, List.append_nil]
          exact (ih hs hx).andThen fun v s' _ => judged_emitInto (.call · symbol.label v) s'
        | cons =>
          rw [if_neg (by simp)]
          exact h.rejectExpr node _ _
    | error node => exact .read node (h.rejectExpr node _ [])

/-- What a statement declares is bound behind it. -/
theorem Binds.declared {m : Mangling} {t : StmtTree} {k k' : Nat} {code : List Instr}
    {ls' : List Layer} (hv : Binds ls vars)
    (h : StmtsCode m names univ ls k [t] code ls' k') : Binds ls' (t.declared ++ vars) := by
  cases h with
  | @var l ls _ _ _ _ site n text init _ _ _ _ _ _ next =>
    cases next
    intro n'
    have hn' := hv n'
    simp only [Layer.find_cons, Layer.bind_apply] at hn' ⊢
    by_cases heq : n = n'
    · simp [StmtTree.declared, heq]
    · simpa [StmtTree.declared, heq, Ne.symm heq] using hn'
  | assign _ _ next =>
    cases next
    exact hv
  | block _ next =>
    cases next
    exact hv
  | expr _ next =>
    cases next
    exact hv

theorem lowerVar_judged (h : Judges builtin names ctx univ) (hv : Binds ls vars) {id : StmtId}
    {n : Name} {init : Option ExprId} {init' : Option ExprTree} {span : Span}
    (hn : n.index < names.size) (hs : s.scopes.Shows ls univ)
    (hinit : init.mapM ctx.nodes.exprTree = some init') :
    Judged ctx.nodes names (ctx.lowerVar id n init span) s
      (init'.elim [] (·.offences builtin vars)) := by
  rw [lowerVar_eq]
  have hvalue : Judged ctx.nodes names (ctx.lowerInit init) s
      (init'.elim [] (·.offences builtin vars)) := by
    cases init with
    | none =>
      cases hinit
      exact .pure _ s
    | some e =>
      obtain ⟨t, ht, rfl⟩ := Option.map_eq_some_iff.mp hinit
      exact lowerExpr_judged h hv hs ht
  refine hvalue.andThen fun v s' _ => ?_
  obtain ⟨text, -, ht⟩ := NodeStore.exists_lookup h.keeps hn
  refine ⟨(), _, declareVar_eq_ok.mpr ⟨text, InternTable.lookup_eq_ok_iff.mp ht, rfl⟩, ?_⟩
  exact Nat.le_of_eq (ScopeChain.depth_insert _ _).symm

/-- One statement after the other, given how each of them is judged. -/
theorem forM_judged {level : Nat}
    (step : ∀ {l : Layer} {ls : List Layer} {vars : List Name} {id : StmtId} {t : StmtTree}
      {s : State}, Binds (l :: ls) vars → s.scopes.Shows (l :: ls) univ →
      ctx.nodes.unfoldStmt level id = some t →
      Judged ctx.nodes names (lowerStmt ctx level id) s (t.offences builtin vars))
    {l : Layer} {ids : List StmtId} {ts : List StmtTree} (hv : Binds (l :: ls) vars)
    (hs : s.scopes.Shows (l :: ls) univ)
    (hts : ids.mapM (ctx.nodes.unfoldStmt level) = some ts) :
    Judged ctx.nodes names (ids.forM (lowerStmt ctx level)) s
      (StmtTree.offencesAll builtin vars ts) := by
  induction ids generalizing l vars ts s with
  | nil =>
    obtain rfl : [] = ts := by simpa using hts
    exact .pure _ s
  | cons id ids ih =>
    obtain ⟨t, ht, ts', hts', rfl⟩ : ∃ t, ctx.nodes.unfoldStmt level id = some t ∧
        ∃ ts', ids.mapM (ctx.nodes.unfoldStmt level) = some ts' ∧ t :: ts' = ts := by
      simpa [Option.bind_eq_some_iff] using hts
    rw [StmtTree.offencesAll]
    refine (step hv hs ht).bind fun _ s' hrun => ?_
    obtain ⟨t', ht', code, ls', hcode, hs', -⟩ := lowerStmt_translates hs hrun
    obtain rfl := Option.some.inj (ht.symm.trans ht')
    obtain ⟨l', rfl⟩ := hcode.outer_eq
    exact ih (hv.declared hcode) hs' hts'

theorem Binds.enter (hv : Binds ls vars) : Binds (Layer.empty :: ls) vars := by
  intro n
  rw [hv n, Layer.find_cons, Layer.empty_apply, Option.none_or]

/-- **A statement is lowered unless a node in it offends.** -/
theorem lowerStmt_judged (h : Judges builtin names ctx univ) {l : Layer} {level : Nat}
    {id : StmtId} {t : StmtTree} (hv : Binds (l :: ls) vars) (hs : s.scopes.Shows (l :: ls) univ)
    (ht : ctx.nodes.unfoldStmt level id = some t) :
    Judged ctx.nodes names (lowerStmt ctx level id) s (t.offences builtin vars) := by
  induction level generalizing l ls vars id t s with
  | zero => exact absurd ht (by simp [NodeStore.unfoldStmt])
  | succ level ih =>
    unfold lowerStmt
    cases NodeStore.unfoldStmt_succ.mp ht with
    | var node value =>
      refine .read node ?_
      rw [StmtTree.offences]
      exact lowerVar_judged h hv (h.inBounds.stmt node).var_lt hs value
    | @assign span n value x node hx =>
      refine .read node ?_
      rw [StmtTree.offences]
      refine (h.resolveSlot hs hv (h.inBounds.stmt node).2.1 span).bind fun slot s' hslot => ?_
      obtain ⟨symbol, -, -, rfl⟩ := (resolveSlot_eq_ok hs).mp hslot
      exact (lowerExpr_judged h hv hs hx).andThen fun v s' _ => judged_emit _ s'
    | block node listed body =>
      refine .read node (Judged.inScope (.read listed ?_))
      rw [StmtTree.offences]
      exact forM_judged ih hv.enter hs.enter (mapM_eq_some_iff.mpr body)
    | expr node hx =>
      refine .read node ?_
      rw [StmtTree.offences]
      exact (lowerExpr_judged h hv hs hx).andThen fun v s' _ => .pure _ s'
    | error node => exact .read node (h.rejectStmt node _ [])

/-! ## Declarations -/

variable {package : String} {globals : Layer}

/-- The offences in the body of a function, if it has one. -/
theorem lowerFunction_judged (h : Judges builtin names ctx univ) (hv : Binds [globals] vars)
    (hs : s.scopes.Shows [globals] univ) {f : FunctionDecl} (hf : f.name.index < names.size)
    {body : Option StmtTree} (hbody : f.body.mapM ctx.nodes.stmtTree = some body) :
    Judged ctx.nodes names (ctx.lowerFunction package f) s
      (body.elim [] (·.offences builtin vars)) := by
  obtain ⟨text, -, htext⟩ := NodeStore.exists_lookup h.keeps hf
  unfold Context.lowerFunction
  refine .read htext ?_
  cases hid : f.body with
  | none =>
    rw [hid] at hbody
    cases hbody
    exact .of_ok rfl (Nat.le_refl _) (judged_emit _ _)
  | some id =>
    rw [hid] at hbody
    obtain ⟨t, ht, rfl⟩ := Option.map_eq_some_iff.mp hbody
    refine .of_ok (f := fun _ => inScope _) rfl (Nat.le_refl _) ?_
    refine Judged.inScope ?_
    refine .of_ok (emit_eq _ _) (Nat.le_refl _) ?_
    refine (lowerStmt_judged h hv.enter hs.enter ht).andThen fun _ s' _ => ?_
    exact (judged_emit _ _).andThen fun _ s'' _ => judged_emit _ _

/-- The functions of a unit are judged by their bodies, first to last. -/
theorem lowerFunctions_judged (h : Judges builtin names ctx univ) (hv : Binds [globals] vars)
    (hs : s.scopes.Shows [globals] univ) {fs : List FunctionDecl}
    (hfs : ∀ f ∈ fs, f.name.index < names.size) {bodies : List StmtTree}
    (hbodies : (fs.filterMap (·.body)).mapM ctx.nodes.stmtTree = some bodies) :
    Judged ctx.nodes names (fs.forM (ctx.lowerFunction package)) s
      (bodies.flatMap (·.offences builtin vars)) := by
  induction fs generalizing bodies s with
  | nil =>
    obtain rfl : [] = bodies := by simpa using hbodies
    exact .pure _ s
  | cons f fs ih =>
    have hf := hfs f List.mem_cons_self
    have hrest : ∀ f' ∈ fs, f'.name.index < names.size :=
      fun f' hf' => hfs f' (List.mem_cons_of_mem f hf')
    have hnext : ∀ s' : State, ctx.lowerFunction package f s = .ok () s' →
        s'.scopes.Shows [globals] univ :=
      fun s' hrun => (@lowerFunction_translates ctx univ globals package f fs s s' hs hrun).1
    cases hid : f.body with
    | none =>
      rw [List.filterMap_cons_none hid] at hbodies
      have hjudged : Judged ctx.nodes names (ctx.lowerFunction package f) s [] :=
        lowerFunction_judged h hv hs hf (show _ = some none by rw [hid]; rfl)
      exact hjudged.bind fun _ s' hrun => ih (hnext s' hrun) hrest hbodies
    | some id =>
      rw [List.filterMap_cons_some hid] at hbodies
      obtain ⟨t, ht, ts, hts, rfl⟩ : ∃ t, ctx.nodes.stmtTree id = some t ∧ ∃ ts,
          (fs.filterMap (·.body)).mapM ctx.nodes.stmtTree = some ts ∧ t :: ts = bodies := by
        simpa [Option.bind_eq_some_iff] using hbodies
      rw [List.flatMap_cons]
      have hjudged : Judged ctx.nodes names (ctx.lowerFunction package f) s
          (t.offences builtin vars) :=
        lowerFunction_judged h hv hs hf (show _ = some (some t) by simp [hid, ht])
      exact hjudged.bind fun _ s' hrun => ih (hnext s' hrun) hrest hts

/-- The package's variables never offend. -/
theorem lowerGlobals_judged (h : Judges builtin names ctx univ) {index : Nat}
    {gs : List GlobalDecl} (hgs : ∀ g ∈ gs, g.name.index < names.size) :
    Judged ctx.nodes names (ctx.lowerGlobals package index gs) s [] := by
  induction gs generalizing index s with
  | nil => exact .pure _ s
  | cons g gs ih =>
    obtain ⟨text, -, htext⟩ := NodeStore.exists_lookup h.keeps (hgs g List.mem_cons_self)
    unfold Context.lowerGlobals
    refine .read htext ?_
    refine .of_ok rfl (Nat.le_of_eq (ScopeChain.depth_insert s.scopes _).symm) ?_
    refine .of_ok (emit_eq _ _) (Nat.le_refl _) ?_
    exact ih fun g' hg' => hgs g' (List.mem_cons_of_mem g hg')

end Lowering

namespace Compiler

open Lowering

variable {c : Compiler} {names : NameTable} {u : SourceUnit} {package : String}

/-- The layer of the package's variables binds their names. -/
theorem binds_globals {m : Mangling} {symbols : List Symbol}
    (h : globalSymbols m names package 0 u.globals = some symbols) :
    Binds [Layer.ofSymbols symbols] (u.globals.map (·.name)) := by
  intro n
  rw [Layer.find_cons, Layer.find_nil, Option.or_none, List.mem_map]
  constructor
  · rintro ⟨g, hg, rfl⟩
    obtain ⟨symbol, hsymbol, hn⟩ := exists_mem_globalSymbols h hg
    exact hn ▸ Layer.ofSymbols_isSome hsymbol
  · intro hn
    obtain ⟨symbol, hsymbol⟩ := Option.isSome_iff_exists.mp hn
    obtain ⟨hmem, rfl⟩ := Layer.ofSymbols_eq_some hsymbol
    exact (mem_globalSymbols h hmem).2.1

/-- What the judgement of a unit's nodes rests on. -/
theorem judges {builtin : Name → Bool} (hu : u.WellFormed names)
    (hb : ∀ n, n.index < names.size →
      (builtin n = true ↔ (c.builtinLayer names n).isSome = true)) :
    Judges builtin names (c.context names u) (c.builtinLayer names) :=
  ⟨hu.nodes, tableWithBuiltins_extends c names, hb⟩

theorem lowerUnit_judged {builtin : Name → Bool} (hu : u.WellFormed names)
    (hb : ∀ n, n.index < names.size →
      (builtin n = true ↔ (c.builtinLayer names n).isSome = true)) {bodies : List StmtTree}
    (hbodies : u.bodies = some bodies) {s : State}
    (hs : s.scopes.Shows [] (c.builtinLayer names)) :
    Judged u.nodes names (c.lowerUnit (c.context names u) package u) s
      (bodies.flatMap (·.offences builtin (u.globals.map (·.name)))) := by
  have h := judges hu hb
  unfold lowerUnit
  refine .of_ok rfl (by rw [ScopeChain.depth_enter]; omega) ?_
  refine .of_ok rfl (Nat.le_refl _) ?_
  refine .of_ok rfl (Nat.le_refl _) ?_
  refine .of_ok rfl (Nat.le_refl _) ?_
  have hglobals : Judged u.nodes names ((c.context names u).lowerGlobals package 0 u.globals)
      { s with
        scopes := s.scopes.enter
        listing := ((s.listing.verbatim ("; package " ++ package ++ "\n")).verbatim
          c.builtins.preamble).blankLine } [] := lowerGlobals_judged h hu.globals
  refine hglobals.bind fun _ s₁ hrun => ?_
  obtain ⟨globals, hsymbols, hshows, -, -⟩ := lowerGlobals_translates hs.enter hrun
  have hfunctions : ∀ s₂ : State, s₂.scopes = s₁.scopes →
      Judged u.nodes names (u.functions.forM ((c.context names u).lowerFunction package)) s₂
        (bodies.flatMap (·.offences builtin (u.globals.map (·.name)))) := by
    intro s₂ hs₂
    exact lowerFunctions_judged h (binds_globals hsymbols) (hs₂ ▸ hshows) hu.functions hbodies
  have hentry : ∀ s₂ : State, Judged u.nodes names
      (if c.isEntry (c.context names u).names u then do
        report (.trampolineAppended package)
        emitVerbatim c.builtins.trampoline
      else pure ()) s₂ [] := by
    intro s₂
    split
    · exact ⟨(), _, rfl, Nat.le_refl _⟩
    · exact .pure _ s₂
  cases hempty : u.globals.isEmpty with
  | true =>
    simp only [if_true]
    exact (hfunctions s₁ rfl).andThen fun _ s₂ _ => hentry s₂
  | false =>
    simp only [Bool.false_eq_true, if_false]
    refine .of_ok rfl (Nat.le_refl _) ?_
    exact (hfunctions { s₁ with listing := s₁.listing.blankLine } rfl).andThen
      fun _ s₂ _ => hentry s₂

/-- **A well-formed unit compiles unless a node in a function offends, and otherwise fails for the
first one that does.** -/
theorem compile_judged {builtin : Name → Bool} (hu : u.WellFormed names)
    (hb : ∀ n, n.index < names.size →
      (builtin n = true ↔ (c.builtinLayer names n).isSome = true)) {bodies : List StmtTree}
    (hbodies : u.bodies = some bodies) :
    match bodies.flatMap (·.offences builtin (u.globals.map (·.name))) with
    | [] => ∃ listing, (c.compile names u).outcome = .ok listing
    | o :: _ => ∃ r, o.rejection u.nodes names = .ok r ∧
        (c.compile names u).outcome = .error (.rejected r) := by
  obtain ⟨package, hp, -⟩ := NodeStore.exists_lookup (NameTable.Extends.refl names) hu.package
  have hs : (ScopeChain.ofUniverse (c.builtinSymbols names).1).Shows [] (c.builtinLayer names) :=
    ScopeChain.ofUniverse_shows fun s hs => (mem_builtinSymbols hs).choose_spec.2.2.2
  have hjudged : Judged u.nodes names (c.lowerUnit (c.context names u) package u)
      { scopes := .ofUniverse (c.builtinSymbols names).1
        events := #[.unitStarted package u.globals.length u.functions.length] }
      (bodies.flatMap (·.offences builtin (u.globals.map (·.name)))) :=
    lowerUnit_judged hu hb hbodies hs
  have hctx : c.context names u = ⟨u.nodes, (c.builtinSymbols names).2, c.mangling⟩ := rfl
  unfold compile
  simp only [hp]
  revert hjudged
  cases bodies.flatMap (·.offences builtin (u.globals.map (·.name))) with
  | nil =>
    rintro ⟨_, s', hrun, -⟩
    rw [hctx] at hrun
    exact ⟨s'.listing, by rw [hrun]⟩
  | cons o os =>
    rintro ⟨r, s', hr, hrun, -⟩
    rw [hctx] at hrun
    exact ⟨r, hr, by rw [hrun]⟩

/-- The same with the builtin functions as compilation finds them. -/
theorem compile_judged_builtinLayer (hu : u.WellFormed names) {bodies : List StmtTree}
    (hbodies : u.bodies = some bodies) :
    match bodies.flatMap
        (·.offences (fun n => (c.builtinLayer names n).isSome) (u.globals.map (·.name))) with
    | [] => ∃ listing, (c.compile names u).outcome = .ok listing
    | o :: _ => ∃ r, o.rejection u.nodes names = .ok r ∧
        (c.compile names u).outcome = .error (.rejected r) :=
  compile_judged hu (fun _ _ => Iff.rfl) hbodies

/-- Whether a name has the text of a builtin function. -/
def callable (c : Compiler) (names : NameTable) (n : Name) : Bool :=
  (names.text? n).any c.builtins.contains

theorem callable_iff {n : Name} (hn : n.index < names.size) :
    c.callable names n = true ↔ (c.builtinLayer names n).isSome = true := by
  obtain ⟨text, ht⟩ := InternTable.exists_text hn
  have ht' := tableWithBuiltins_extends c names n text ht
  rw [builtinLayer_isSome_iff]
  simp [callable, ht, ht', Builtins.contains]

/-- The offences in the bodies of a unit's functions, in the order in which code is emitted. -/
def offences (c : Compiler) (names : NameTable) (u : SourceUnit) (bodies : List StmtTree) :
    List Offence :=
  bodies.flatMap (·.offences (c.callable names) (u.globals.map (·.name)))

/-- **A unit is accepted iff no node of its functions offends, and a unit that is not accepted is
rejected for the first offence.** -/
theorem first_offence_decides (hu : u.WellFormed names) :
    ∃ bodies, u.bodies = some bodies ∧
      ((∃ listing, (c.compile names u).outcome = .ok listing) ↔ c.offences names u bodies = []) ∧
      ∀ o rest, c.offences names u bodies = o :: rest → ∃ r, o.rejection u.nodes names = .ok r ∧
        (c.compile names u).outcome = .error (.rejected r) := by
  obtain ⟨bodies, hbodies⟩ := hu.exists_bodies
  have hjudged := compile_judged (c := c) hu (fun _ hn => callable_iff hn) hbodies
  refine ⟨bodies, hbodies, ?_, ?_⟩
  · unfold offences
    revert hjudged
    cases bodies.flatMap (·.offences (c.callable names) (u.globals.map (·.name))) with
    | nil => exact fun hok => ⟨fun _ => rfl, fun _ => hok⟩
    | cons o os =>
      rintro ⟨r, -, hfail⟩
      refine ⟨?_, fun h => absurd h (List.cons_ne_nil o os)⟩
      rintro ⟨listing, hok⟩
      exact absurd (hok.symm.trans hfail) (by simp)
  · intro o rest ho
    unfold offences at ho
    rw [ho] at hjudged
    exact hjudged

/-- Of the three offences, the first decides. -/
theorem first_offence_decides_faulty :
    Counter.faulty.WellFormed Counter.names ∧
    (∃ bodies, Counter.faulty.bodies = some bodies ∧
      ({} : Compiler).offences Counter.names Counter.faulty bodies =
        [.expr "binary operator" ⟨⟨3⟩, ⟨30, 38⟩⟩, .undefined ⟨4⟩ ⟨42, 60⟩,
          .undefined ⟨4⟩ ⟨30, 34⟩]) ∧
    (({} : Compiler).compile Counter.names Counter.faulty).outcome =
      .error (.rejected (.unsupported "binary operator" "tick % 2" ⟨30, 38⟩)) := by
  have hu := Counter.faulty_inBounds.wellFormed Counter.faulty_descending
  obtain ⟨bodies, hbodies, -, hfail⟩ := first_offence_decides (c := {}) hu
  have hoffences : Counter.faulty.bodies.map
      (({} : Compiler).offences Counter.names Counter.faulty) =
      some [.expr "binary operator" ⟨⟨3⟩, ⟨30, 38⟩⟩, .undefined ⟨4⟩ ⟨42, 60⟩,
        .undefined ⟨4⟩ ⟨30, 34⟩] := by decide +kernel
  rw [hbodies, Option.map_some, Option.some.injEq] at hoffences
  obtain ⟨r, hr, hrejected⟩ := hfail _ _ hoffences
  have htext : Offence.rejection Counter.faulty.nodes Counter.names
      (.expr "binary operator" ⟨⟨3⟩, ⟨30, 38⟩⟩) =
      .ok (.unsupported "binary operator" "tick % 2" ⟨30, 38⟩) := by decide +kernel
  obtain rfl := Except.ok.inj (htext.symm.trans hr)
  exact ⟨hu, ⟨bodies, hbodies, hoffences⟩, hrejected⟩

/-- **Compiling a unit in bounds, whose nodes only contain earlier ones, ends with a listing or a
rejection.** Nothing is looked up that is not there, no scope is closed that is not open, and the
walk does not run out of levels. -/
theorem compile_total (hb : u.InBounds names) (hd : u.nodes.Descending) :
    (∃ listing, (c.compile names u).outcome = .ok listing) ∨
      ∃ r, (c.compile names u).outcome = .error (.rejected r) := by
  have hu := hb.wellFormed hd
  obtain ⟨bodies, hbodies⟩ := hu.exists_bodies
  have hjudged := compile_judged_builtinLayer (c := c) hu hbodies
  revert hjudged
  cases bodies.flatMap
      (·.offences (fun n => (c.builtinLayer names n).isSome) (u.globals.map (·.name))) with
  | nil => exact Or.inl
  | cons o os => exact fun ⟨r, _, hfail⟩ => Or.inr ⟨r, hfail⟩

theorem compile_total_faulty :
    Counter.faulty.InBounds Counter.names ∧ Counter.faulty.nodes.Descending ∧
    ((∃ listing, (({} : Compiler).compile Counter.names Counter.faulty).outcome = .ok listing) ∨
      ∃ r, (({} : Compiler).compile Counter.names Counter.faulty).outcome = .error (.rejected r)) :=
  ⟨Counter.faulty_inBounds, Counter.faulty_descending,
    compile_total Counter.faulty_inBounds Counter.faulty_descending⟩

end Compiler

end RegisterCode
