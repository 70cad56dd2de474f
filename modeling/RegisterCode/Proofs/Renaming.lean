import RegisterCode.Proofs.Alike
import RegisterCode.Source.Builder

/-!
# Names count by their texts

The compilations of two alike units are run side by side. What they keep under names is alike
throughout and everything else is equal (`State.Alike`), so they fail together, with the same
failure, or come to the same end.

Results: one lemma for each step of the compilation, up to `lowerUnit_lockstep`; alike units have
the same outcome and events (`Compiler.compile_eq_of_alike`). In a session, in which units are
built and compiled one after the other with one table of names, every unit fares as it would alone
(`Compiler.names_count_by_text`).
-/

namespace RegisterCode

namespace Lowering

/-! ## Steps side by side -/

/-- States that differ in related names only. -/
structure State.Alike (R : Name → Name → Prop) (s s' : State) : Prop where
  scopes : s.scopes.Alike R s'.scopes
  registers_eq : s.registers = s'.registers
  listing_eq : s.listing = s'.listing
  events_eq : s.events = s'.events

/-- The same value or the same failure, in alike states. -/
inductive SameResult {α : Type} (R : Name → Name → Prop) :
    EStateM.Result Failure State α → EStateM.Result Failure State α → Prop where
  | ok {s s' : State} (a : α) (alike : s.Alike R s') : SameResult R (.ok a s) (.ok a s')
  | error {s s' : State} (e : Failure) (alike : s.Alike R s') :
      SameResult R (.error e s) (.error e s')

/-- From alike states, two steps have the same result. -/
def Lockstep {α : Type} (R : Name → Name → Prop) (x x' : LowerM α) : Prop :=
  ∀ s s' : State, s.Alike R s' → SameResult R (x s) (x' s')

namespace Lockstep

variable {R : Name → Name → Prop} {α β : Type}

theorem pure (a : α) : Lockstep R (pure a) (pure a) := fun _ _ hs => .ok a hs

theorem throw (e : Failure) : Lockstep (α := α) R (throw e) (throw e) := fun _ _ hs => .error e hs

theorem orFault (x : Except Fault α) : Lockstep R (orFault x) (orFault x) := by
  cases x with
  | ok a => exact pure a
  | error f => exact throw _

theorem bind {x x' : LowerM α} {f f' : α → LowerM β} (h : Lockstep R x x')
    (hf : ∀ a, Lockstep R (f a) (f' a)) : Lockstep R (x >>= f) (x' >>= f') := by
  intro s s' hs
  have hresult := h s s' hs
  cases hx : x s with
  | ok a s₁ =>
    cases hx' : x' s' with
    | ok a' s₁' =>
      rw [hx, hx'] at hresult
      rw [bind_of_ok hx, bind_of_ok hx']
      cases hresult with
      | ok _ hs₁ => exact hf a _ _ hs₁
    | error e s₁' =>
      rw [hx, hx'] at hresult
      cases hresult
  | error e s₁ =>
    cases hx' : x' s' with
    | ok a' s₁' =>
      rw [hx, hx'] at hresult
      cases hresult
    | error e' s₁' =>
      rw [hx, hx'] at hresult
      rw [bind_of_error hx, bind_of_error hx']
      cases hresult with
      | error _ hs₁ => exact .error _ hs₁

/-- Steps that look at the state first. -/
theorem get_bind {f f' : State → LowerM α}
    (h : ∀ s s' : State, s.Alike R s' → SameResult R (f s s) (f' s' s')) :
    Lockstep R (get >>= f) (get >>= f') := h

theorem emit (i : Instr) : Lockstep R (emit i) (emit i) :=
  fun _ _ hs =>
    .ok () ⟨hs.scopes, hs.registers_eq, congrArg (·.instr i) hs.listing_eq, hs.events_eq⟩

theorem emitVerbatim (text : String) : Lockstep R (emitVerbatim text) (emitVerbatim text) :=
  fun _ _ hs => .ok ()
    ⟨hs.scopes, hs.registers_eq, congrArg (·.verbatim text) hs.listing_eq, hs.events_eq⟩

theorem emitBlankLine : Lockstep R emitBlankLine emitBlankLine := emitVerbatim "\n"

theorem report (e : Event) : Lockstep R (report e) (report e) :=
  fun _ _ hs => .ok () ⟨hs.scopes, hs.registers_eq, hs.listing_eq, congrArg (·.push e) hs.events_eq⟩

theorem freshRegister : Lockstep R freshRegister freshRegister := by
  intro s s' hs
  have hrun : ∀ s : State, Lowering.freshRegister s = .ok ⟨s.registers.allocated⟩
      { s with registers := ⟨s.registers.allocated + 1⟩ } := fun _ => rfl
  rw [hrun, hrun, hs.registers_eq]
  exact .ok _ ⟨hs.scopes, rfl, hs.listing_eq, hs.events_eq⟩

theorem emitInto (i : Register → Instr) :
    let step : LowerM Value := do
      let target ← Lowering.freshRegister
      Lowering.emit (i target)
      return .reg target
    Lockstep R step step :=
  freshRegister.bind fun _ => (emit _).bind fun _ => pure _

theorem emitBinary (op : Opcode) (left right : Value) :
    Lockstep R (emitBinary op left right) (emitBinary op left right) :=
  emitInto (.binary · op left right)

theorem bindSymbol {symbol symbol' : Symbol} (h : symbol.Alike R symbol') :
    Lockstep R (bindSymbol symbol) (bindSymbol symbol') :=
  fun _ _ hs => .ok () ⟨hs.scopes.insert h, hs.registers_eq, hs.listing_eq, hs.events_eq⟩

theorem enterScope : Lockstep R enterScope enterScope :=
  fun _ _ hs => .ok () ⟨hs.scopes.enter, hs.registers_eq, hs.listing_eq, hs.events_eq⟩

theorem leaveScope : Lockstep R leaveScope leaveScope := by
  intro s s' hs
  rw [leaveScope_eq, leaveScope_eq]
  rcases hs.scopes.leave with ⟨f, hl, hl'⟩ | ⟨c, c', hl, hl', hc⟩
  · rw [hl, hl']
    exact .error _ hs
  · rw [hl, hl']
    exact .ok () ⟨hc, hs.registers_eq, hs.listing_eq, hs.events_eq⟩

theorem inScope {x x' : LowerM Unit} (h : Lockstep R x x') :
    Lockstep R (inScope x) (inScope x') := by
  intro s s' hs
  rw [inScope_eq, inScope_eq]
  have hstep := h { s with scopes := s.scopes.enter } { s' with scopes := s'.scopes.enter }
    ⟨hs.scopes.enter, hs.registers_eq, hs.listing_eq, hs.events_eq⟩
  generalize x { s with scopes := s.scopes.enter } = r at hstep
  generalize x' { s' with scopes := s'.scopes.enter } = r' at hstep
  cases hstep with
  | ok a hs₁ => exact leaveScope _ _ hs₁
  | @error s₁ s₁' e hs₁ =>
    have hleave := leaveScope s₁ s₁' hs₁
    dsimp only
    generalize Lowering.leaveScope s₁ = l at hleave
    generalize Lowering.leaveScope s₁' = l' at hleave
    cases hleave with
    | ok _ hs₂ => exact .error e hs₂
    | error e' hs₂ => exact .error e' hs₂

theorem forM {f f' : β → LowerM Unit} {xs xs' : List β} {S : β → β → Prop}
    (h : List.Forall₂ S xs xs') (hf : ∀ x x', S x x' → Lockstep R (f x) (f' x')) :
    Lockstep R (xs.forM f) (xs'.forM f') := by
  induction h with
  | nil => exact pure ()
  | cons hx _ ih => exact (hf _ _ hx).bind fun _ => ih

end Lockstep

theorem orFault_ok_bind {α β : Type} (a : α) (f : α → LowerM β) :
    (orFault (.ok a) >>= f) = f a := rfl

theorem orFault_error_bind {α β : Type} (e : Fault) (f : α → LowerM β) :
    (orFault (.error e) >>= f) = throw (.fault e) := rfl

/-! ## The walk over the nodes -/

/-- What stays the same in the compilations of alike units. -/
structure Context.Alike (ctx ctx' : Context) : Prop where
  nodes : ctx.nodes.Alike (SameText ctx.names ctx'.names) ctx'.nodes
  mangling_eq : ctx.mangling = ctx'.mangling
  oneToOne : OneToOne (SameText ctx.names ctx'.names)

section Walk

variable {ctx ctx' : Context} {n n' : Name}

theorem resolveSlot_lockstep (h : ctx.Alike ctx') (hn : SameText ctx.names ctx'.names n n')
    (span : Span) :
    Lockstep (SameText ctx.names ctx'.names) (ctx.resolveSlot n span)
      (ctx'.resolveSlot n' span) := by
  refine Lockstep.get_bind fun s s' hs => ?_
  have hfind := hs.scopes.resolve h.oneToOne hn
  generalize s.scopes.resolve n = found at hfind
  generalize s'.scopes.resolve n' = found' at hfind
  cases hfind with
  | failed f => exact .error _ hs
  | nothing =>
    rw [orFault_ok_bind, orFault_ok_bind]
    dsimp only
    rw [hn.lookup_eq]
    exact (Lockstep.orFault _).bind (fun _ => Lockstep.throw _) s s' hs
  | @symbol symbol symbol' halike =>
    have hbuiltin : symbol.isBuiltin = symbol'.isBuiltin := by
      rw [Symbol.isBuiltin, Symbol.isBuiltin, halike.origin_eq]
    rw [orFault_ok_bind, orFault_ok_bind]
    dsimp only
    rw [hbuiltin, hn.lookup_eq, halike.label_eq]
    cases symbol'.isBuiltin with
    | true => exact (Lockstep.orFault _).bind (fun _ => Lockstep.throw _) s s' hs
    | false => exact Lockstep.pure _ s s' hs

theorem rejectExpr_lockstep {α : Type} (h : ctx.Alike ctx') (id : ExprId) (construct : String) :
    Lockstep (α := α) (SameText ctx.names ctx'.names) (ctx.rejectExpr id construct)
      (ctx'.rejectExpr id construct) := by
  have htext : ctx.nodes.renderExpr ctx.names id = ctx'.nodes.renderExpr ctx'.names id :=
    exprText_eq h.nodes _ id
  unfold Context.rejectExpr
  rcases h.nodes.expr id with ⟨f, he, he'⟩ | ⟨e, e', he, he', halike⟩
  · rw [he, he', orFault_error_bind, orFault_error_bind]
    exact Lockstep.throw _
  · rw [he, he', orFault_ok_bind, orFault_ok_bind, htext, halike.span_eq]
    exact (Lockstep.orFault _).bind fun _ => Lockstep.throw _

theorem rejectStmt_lockstep {α : Type} (h : ctx.Alike ctx') (id : StmtId) (construct : String) :
    Lockstep (α := α) (SameText ctx.names ctx'.names) (ctx.rejectStmt id construct)
      (ctx'.rejectStmt id construct) := by
  have htext : ctx.nodes.renderStmt ctx.names id = ctx'.nodes.renderStmt ctx'.names id :=
    stmtText_eq h.nodes _ id
  unfold Context.rejectStmt
  rcases h.nodes.stmt id with ⟨f, hs, hs'⟩ | ⟨s, s', hs, hs', halike⟩
  · rw [hs, hs', orFault_error_bind, orFault_error_bind]
    exact Lockstep.throw _
  · rw [hs, hs', orFault_ok_bind, orFault_ok_bind, htext, halike.span_eq]
    exact (Lockstep.orFault _).bind fun _ => Lockstep.throw _

/-- **Alike expressions take the same steps.** -/
theorem lowerExpr_lockstep (h : ctx.Alike ctx') (level : Nat) (id : ExprId) :
    Lockstep (SameText ctx.names ctx'.names) (lowerExpr ctx level id)
      (lowerExpr ctx' level id) := by
  induction level generalizing id with
  | zero => exact Lockstep.throw _
  | succ level ih =>
    unfold lowerExpr
    rcases h.nodes.expr id with ⟨f, he, he'⟩ | ⟨⟨kind, span⟩, ⟨kind', span'⟩, he, he', halike⟩
    · rw [he, he', orFault_error_bind, orFault_error_bind]
      exact Lockstep.throw _
    · rw [he, he', orFault_ok_bind, orFault_ok_bind]
      obtain ⟨hkind, hspan⟩ := halike
      dsimp only at hkind hspan
      subst hspan
      cases hkind with
      | ident name =>
        exact (resolveSlot_lockstep h name span).bind fun slot => Lockstep.emitInto (.load · slot)
      | int value =>
        dsimp only
        cases literal? value with
        | some n => exact Lockstep.emitBinary _ _ _
        | none => exact rejectExpr_lockstep h id _
      | binary op left right =>
        dsimp only
        cases op.opcode? with
        | some opcode =>
          exact (ih left).bind fun _ => (ih right).bind fun _ => Lockstep.emitBinary _ _ _
        | none => exact rejectExpr_lockstep h id _
      | unary op operand =>
        cases op with
        | neg => exact (ih operand).bind fun _ => Lockstep.emitBinary _ _ _
        | pos => exact ih operand
        | not => exact rejectExpr_lockstep h id _
      | paren inner => exact ih inner
      | call callee args =>
        dsimp only
        rw [h.nodes.exprList_eq]
        refine (Lockstep.orFault _).bind fun ids => ?_
        rcases ids with _ | ⟨arg, _ | ⟨_, _⟩⟩
        · exact rejectExpr_lockstep h id _
        · refine Lockstep.get_bind fun s s' hs => ?_
          have hlookup := hs.scopes.lookupUniverse h.oneToOne callee
          generalize s.scopes.lookupUniverse _ = found at hlookup
          generalize s'.scopes.lookupUniverse _ = found' at hlookup
          cases hlookup with
          | none => exact rejectExpr_lockstep h id _ s s' hs
          | @some symbol symbol' halike =>
            have hbuiltin : symbol.isBuiltin = symbol'.isBuiltin := by
              rw [Symbol.isBuiltin, Symbol.isBuiltin, halike.origin_eq]
            dsimp only
            rw [hbuiltin, halike.label_eq]
            cases symbol'.isBuiltin with
            | true =>
              exact (ih arg).bind (fun v => Lockstep.emitInto (.call · symbol'.label v)) s s' hs
            | false => exact rejectExpr_lockstep h id _ s s' hs
        · exact rejectExpr_lockstep h id _
      | error => exact rejectExpr_lockstep h id _

theorem Context.lowerExpr_lockstep (h : ctx.Alike ctx') (id : ExprId) :
    Lockstep (SameText ctx.names ctx'.names) (ctx.lowerExpr id) (ctx'.lowerExpr id) := by
  unfold Context.lowerExpr
  rw [h.nodes.exprs.size_eq]
  exact Lowering.lowerExpr_lockstep h _ id

theorem lowerVar_lockstep (h : ctx.Alike ctx') (id : StmtId)
    (hn : SameText ctx.names ctx'.names n n') (init : Option ExprId) (span : Span) :
    Lockstep (SameText ctx.names ctx'.names) (ctx.lowerVar id n init span)
      (ctx'.lowerVar id n' init span) := by
  rw [lowerVar_eq, lowerVar_eq]
  refine Lockstep.bind ?_ fun v => ?_
  · cases init with
    | none => exact Lockstep.pure _
    | some init => exact Context.lowerExpr_lockstep h init
  · unfold Context.declareVar
    rw [hn.lookup_eq, h.mangling_eq]
    refine (Lockstep.orFault _).bind fun _ => (Lockstep.report _).bind fun _ =>
      Lockstep.bind (Lockstep.bindSymbol ?_) fun _ => (Lockstep.emit _).bind fun _ =>
        Lockstep.emit _
    exact ⟨hn, rfl, rfl⟩

/-- **Alike statements take the same steps.** -/
theorem lowerStmt_lockstep (h : ctx.Alike ctx') (level : Nat) (id : StmtId) :
    Lockstep (SameText ctx.names ctx'.names) (lowerStmt ctx level id)
      (lowerStmt ctx' level id) := by
  induction level generalizing id with
  | zero => exact Lockstep.throw _
  | succ level ih =>
    unfold lowerStmt
    rcases h.nodes.stmt id with ⟨f, hs, hs'⟩ | ⟨⟨kind, span⟩, ⟨kind', span'⟩, hs, hs', halike⟩
    · rw [hs, hs', orFault_error_bind, orFault_error_bind]
      exact Lockstep.throw _
    · rw [hs, hs', orFault_ok_bind, orFault_ok_bind]
      obtain ⟨hkind, hspan⟩ := halike
      dsimp only at hkind hspan
      subst hspan
      cases hkind with
      | var name init => exact lowerVar_lockstep h id name init span
      | assign target value =>
        exact (resolveSlot_lockstep h target span).bind fun _ =>
          (Context.lowerExpr_lockstep h value).bind fun _ => Lockstep.emit _
      | block body =>
        dsimp only
        rw [h.nodes.stmtList_eq]
        refine Lockstep.inScope ((Lockstep.orFault _).bind fun ids => ?_)
        exact Lockstep.forM (List.forall₂_same.mpr fun id _ => rfl)
          (fun id id' heq => heq ▸ ih id)
      | expr value =>
        exact (Context.lowerExpr_lockstep h value).bind fun _ => Lockstep.pure _
      | error => exact rejectStmt_lockstep h id _

theorem lowerFunction_lockstep (h : ctx.Alike ctx') (package : String) {f f' : FunctionDecl}
    (hname : SameText ctx.names ctx'.names f.name f'.name) (hbody : f.body = f'.body) :
    Lockstep (SameText ctx.names ctx'.names) (ctx.lowerFunction package f)
      (ctx'.lowerFunction package f') := by
  unfold Context.lowerFunction Context.lowerStmt
  rw [hname.lookup_eq, hbody, h.mangling_eq, h.nodes.stmts.size_eq]
  refine (Lockstep.orFault _).bind fun text => ?_
  cases f'.body with
  | none => exact (Lockstep.report _).bind fun _ => Lockstep.emit _
  | some body =>
    exact (Lockstep.report _).bind fun _ => Lockstep.inScope <| (Lockstep.emit _).bind fun _ =>
      (lowerStmt_lockstep h _ body).bind fun _ => (Lockstep.emit _).bind fun _ => Lockstep.emit _

theorem lowerGlobals_lockstep (h : ctx.Alike ctx') (package : String) {gs gs' : List GlobalDecl}
    (hgs : List.Forall₂ (fun g g' => SameText ctx.names ctx'.names g.name g'.name ∧
      g.span = g'.span) gs gs') (index : Nat) :
    Lockstep (SameText ctx.names ctx'.names) (ctx.lowerGlobals package index gs)
      (ctx'.lowerGlobals package index gs') := by
  induction hgs generalizing index with
  | nil => exact Lockstep.pure ()
  | cons hg _ ih =>
    unfold Context.lowerGlobals
    rw [hg.1.lookup_eq, h.mangling_eq]
    refine (Lockstep.orFault _).bind fun _ => Lockstep.bind (Lockstep.bindSymbol ?_) fun _ =>
      (Lockstep.emit _).bind fun _ => ih _
    exact ⟨hg.1, rfl, rfl⟩

end Walk

end Lowering

/-! ## Compilation -/

namespace Compiler

variable {c : Compiler}

theorem isEntry_eq {t t' : NameTable} {u u' : SourceUnit} (h : u.Alike (SameText t t') u') :
    c.isEntry t u = c.isEntry t' u' := by
  have hany : ∀ {fs fs' : List FunctionDecl}, List.Forall₂ (fun f f' =>
      SameText t t' f.name f'.name ∧ f.body = f'.body ∧ f.span = f'.span) fs fs' →
      fs.any (fun f => f.body.isSome && t.text? f.name == some c.config.entryFunction) =
        fs'.any fun f => f.body.isSome && t'.text? f.name == some c.config.entryFunction := by
    intro fs fs' hfs
    induction hfs with
    | nil => rfl
    | cons hf _ ih => rw [List.any_cons, List.any_cons, ih, hf.1.text_eq, hf.2.1]
  unfold isEntry
  rw [h.package.text_eq, hany h.functions]

open Lowering in
/-- **Alike units take the same steps.** -/
theorem lowerUnit_lockstep {ctx ctx' : Context} (h : ctx.Alike ctx') {u u' : SourceUnit}
    (hu : u.Alike (SameText ctx.names ctx'.names) u') (package : String) :
    Lockstep (SameText ctx.names ctx'.names) (c.lowerUnit ctx package u)
      (c.lowerUnit ctx' package u') := by
  have hempty : u.globals.isEmpty = u'.globals.isEmpty := by
    rw [Bool.eq_iff_iff, List.isEmpty_iff_length_eq_zero, List.isEmpty_iff_length_eq_zero,
      hu.globals.length_eq]
  unfold lowerUnit
  rw [hempty, isEntry_eq hu]
  refine Lockstep.enterScope.bind fun _ => (Lockstep.emitVerbatim _).bind fun _ =>
    (Lockstep.emitVerbatim _).bind fun _ => Lockstep.emitBlankLine.bind fun _ =>
    (lowerGlobals_lockstep h package hu.globals 0).bind fun _ => ?_
  have hfunctions : Lockstep (SameText ctx.names ctx'.names)
      (u.functions.forM (ctx.lowerFunction package))
      (u'.functions.forM (ctx'.lowerFunction package)) :=
    Lockstep.forM hu.functions fun f f' hf => lowerFunction_lockstep h package hf.1 hf.2.1
  cases u'.globals.isEmpty <;> cases c.isEntry ctx'.names u'
  · exact Lockstep.emitBlankLine.bind fun _ => hfunctions.bind fun _ => Lockstep.pure ()
  · exact Lockstep.emitBlankLine.bind fun _ => hfunctions.bind fun _ =>
      (Lockstep.report _).bind fun _ => Lockstep.emitVerbatim _
  · exact hfunctions.bind fun _ => Lockstep.pure ()
  · exact hfunctions.bind fun _ => (Lockstep.report _).bind fun _ => Lockstep.emitVerbatim _

/-- The builtin functions get alike symbols in all tables. -/
theorem builtinSymbols_alike (c : Compiler) (t t' : NameTable) :
    List.Forall₂ (Symbol.Alike (SameText (c.tableWithBuiltins t) (c.tableWithBuiltins t')))
      (c.builtinSymbols t).1 (c.builtinSymbols t').1 := by
  have hzip : ∀ {ns ns' : List Name} {fs : List String},
      List.Forall₂ (fun n f => (c.tableWithBuiltins t).text? n = some f) ns fs →
      List.Forall₂ (fun n f => (c.tableWithBuiltins t').text? n = some f) ns' fs →
      List.Forall₂ (Symbol.Alike (SameText (c.tableWithBuiltins t) (c.tableWithBuiltins t')))
        (List.zipWith (fun n f => ⟨n, c.mangling.builtin f, .builtin⟩) ns fs)
        (List.zipWith (fun n f => ⟨n, c.mangling.builtin f, .builtin⟩) ns' fs) := by
    intro ns ns' fs h h'
    induction h generalizing ns' with
    | nil =>
      cases h'
      exact .nil
    | @cons n f ns fs hn _ ih =>
      cases h' with
      | cons hn' h' => exact .cons ⟨⟨f, hn, hn'⟩, rfl, rfl⟩ (ih h')
  exact hzip (t.internAll_spec c.builtins.functions).2 (t'.internAll_spec c.builtins.functions).2

/-- **Alike units have the same outcome and the same events.** -/
theorem compile_eq_of_alike {t t' : NameTable} {u u' : SourceUnit}
    (h : u.Alike (SameText t t') u') :
    (c.compile t u).outcome = (c.compile t' u').outcome ∧
      (c.compile t u).events = (c.compile t' u').events := by
  have hu : u.Alike (SameText (c.tableWithBuiltins t) (c.tableWithBuiltins t')) u' :=
    h.imp fun n n' hn => hn.extend (c.tableWithBuiltins_extends t) (c.tableWithBuiltins_extends t')
  have hctx : (c.context t u).Alike (c.context t' u') :=
    ⟨hu.nodes, rfl, SameText.oneToOne⟩
  unfold compile
  rw [h.package.lookup_eq, h.globals.length_eq, h.functions.length_eq]
  cases t'.lookup u'.package with
  | error f => exact ⟨rfl, rfl⟩
  | ok package =>
    have hresult := lowerUnit_lockstep (c := c) hctx hu package
      { scopes := .ofUniverse (c.builtinSymbols t).1
        events := #[.unitStarted package u'.globals.length u'.functions.length] }
      { scopes := .ofUniverse (c.builtinSymbols t').1
        events := #[.unitStarted package u'.globals.length u'.functions.length] }
      ⟨ScopeChain.Alike.ofUniverse (c.builtinSymbols_alike t t'), rfl, rfl, rfl⟩
    unfold context tableWithBuiltins at hresult
    dsimp only
    generalize c.lowerUnit ⟨u.nodes, (c.builtinSymbols t).2, c.mangling⟩ package u _ = r
      at hresult
    generalize c.lowerUnit ⟨u'.nodes, (c.builtinSymbols t').2, c.mangling⟩ package u' _ = r'
      at hresult
    cases hresult with
    | ok _ hs => exact ⟨congrArg Except.ok hs.listing_eq, hs.events_eq⟩
    | error e hs => exact ⟨rfl, hs.events_eq⟩

end Compiler

/-! ## Sessions -/

/-- A step in which a unit is built. Nodes go by their numbers. -/
inductive BuildStep where
  | ident (name : String)
  | int (value : Int)
  | binary (op : BinaryOp) (left right : ExprId)
  | unary (op : UnaryOp) (operand : ExprId)
  | paren (inner : ExprId)
  | call (callee : String) (args : List ExprId)
  | errorExpr
  | var (name : String) (init : Option ExprId)
  | assign (target : String) (value : ExprId)
  | exprStmt (value : ExprId)
  | block (body : List StmtId)
  | errorStmt
  | global (name : String)
  | function (name : String) (body : Option StmtId)

/-- Take a step. -/
def BuildStep.apply (b : Builder) : BuildStep → Builder
  | .ident name => ((Builder.ident name).run b).2
  | .int value => ((Builder.int value).run b).2
  | .binary op left right => ((Builder.binary op left right).run b).2
  | .unary op operand => ((Builder.unary op operand).run b).2
  | .paren inner => ((Builder.paren inner).run b).2
  | .call callee args => ((Builder.call callee args).run b).2
  | .errorExpr => (Builder.errorExpr.run b).2
  | .var name init => ((Builder.var name init).run b).2
  | .assign target value => ((Builder.assign target value).run b).2
  | .exprStmt value => ((Builder.exprStmt value).run b).2
  | .block body => ((Builder.block body).run b).2
  | .errorStmt => (Builder.errorStmt.run b).2
  | .global name => ((Builder.global name).run b).2
  | .function name body => ((Builder.function name body).run b).2

/-- How a unit is built: its package, and the steps. -/
structure Recipe where
  package : String
  steps : List BuildStep

/-- Build a unit, with names from the given table. -/
def Recipe.build (r : Recipe) (names : NameTable) : Builder :=
  r.steps.foldl BuildStep.apply (Builder.start names r.package)

/-- Builders of alike units. -/
structure Builder.Alike (b b' : Builder) : Prop where
  unit : b.unit.Alike (SameText b.names b'.names) b'.unit
  position_eq : b.position = b'.position

theorem sameText_intern (t t' : NameTable) (s : String) :
    SameText (t.intern s).2 (t'.intern s).2 (t.intern s).1 (t'.intern s).1 :=
  ⟨s, InternTable.lookup_eq_ok_iff.mp (t.lookup_intern s),
    InternTable.lookup_eq_ok_iff.mp (t'.lookup_intern s)⟩

namespace Builder.Alike

variable {b b' : Builder}

theorem intern (h : b.Alike b') (s : String) :
    Builder.Alike { b with names := (b.names.intern s).2 }
      { b' with names := (b'.names.intern s).2 } where
  unit := h.unit.imp fun _ _ hn =>
    hn.extend (b.names.intern_extends s) (b'.names.intern_extends s)
  position_eq := h.position_eq

theorem expr (h : b.Alike b') {kind kind' : ExprKind}
    (hk : kind.Alike (SameText b.names b'.names) kind') :
    Builder.Alike ((Builder.expr kind).run b).2 ((Builder.expr kind').run b').2 where
  unit := ⟨h.unit.package, h.unit.globals, h.unit.functions,
    ⟨h.unit.nodes.exprs.push ⟨hk, congrArg Span.single h.position_eq⟩, h.unit.nodes.exprItems_eq,
      h.unit.nodes.stmts, h.unit.nodes.stmtItems_eq⟩⟩
  position_eq := congrArg (· + 1) h.position_eq

theorem stmt (h : b.Alike b') {kind kind' : StmtKind}
    (hk : kind.Alike (SameText b.names b'.names) kind') :
    Builder.Alike ((Builder.stmt kind).run b).2 ((Builder.stmt kind').run b').2 where
  unit := ⟨h.unit.package, h.unit.globals, h.unit.functions,
    ⟨h.unit.nodes.exprs, h.unit.nodes.exprItems_eq,
      h.unit.nodes.stmts.push ⟨hk, congrArg Span.single h.position_eq⟩,
      h.unit.nodes.stmtItems_eq⟩⟩
  position_eq := congrArg (· + 1) h.position_eq

theorem start (t t' : NameTable) (package : String) :
    (Builder.start t package).Alike (Builder.start t' package) where
  unit := ⟨sameText_intern t t' package, .nil, .nil,
    ⟨Pointwise.empty, rfl, Pointwise.empty, rfl⟩⟩
  position_eq := rfl

/-- The list of a call's arguments gets the same slice in both. -/
theorem exprList (h : b.Alike b') (ids : List ExprId) :
    (b.unit.nodes.addExprList ids).1 = (b'.unit.nodes.addExprList ids).1 ∧
      Builder.Alike ((Builder.onNodes (·.addExprList ids)).run b).2
        ((Builder.onNodes (·.addExprList ids)).run b').2 := by
  have hitems := h.unit.nodes.exprItems_eq
  refine ⟨?_, ⟨⟨h.unit.package, h.unit.globals, h.unit.functions, ⟨h.unit.nodes.exprs, ?_,
    h.unit.nodes.stmts, h.unit.nodes.stmtItems_eq⟩⟩, h.position_eq⟩⟩
  · simp only [NodeStore.addExprList, hitems]
  · exact congrArg (fun items => (Slice.store items ids).2) hitems

/-- The list of a block's statements gets the same slice in both. -/
theorem stmtList (h : b.Alike b') (ids : List StmtId) :
    (b.unit.nodes.addStmtList ids).1 = (b'.unit.nodes.addStmtList ids).1 ∧
      Builder.Alike ((Builder.onNodes (·.addStmtList ids)).run b).2
        ((Builder.onNodes (·.addStmtList ids)).run b').2 := by
  have hitems := h.unit.nodes.stmtItems_eq
  refine ⟨?_, ⟨⟨h.unit.package, h.unit.globals, h.unit.functions, ⟨h.unit.nodes.exprs,
    h.unit.nodes.exprItems_eq, h.unit.nodes.stmts, ?_⟩⟩, h.position_eq⟩⟩
  · simp only [NodeStore.addStmtList, hitems]
  · exact congrArg (fun items => (Slice.store items ids).2) hitems

/-- **A build step keeps builders alike.** -/
theorem apply (h : b.Alike b') (step : BuildStep) : (step.apply b).Alike (step.apply b') := by
  cases step with
  | ident name => exact (h.intern name).expr (.ident (sameText_intern ..))
  | int value => exact h.expr (.int value)
  | binary op left right => exact h.expr (.binary op left right)
  | unary op operand => exact h.expr (.unary op operand)
  | paren inner => exact h.expr (.paren inner)
  | call callee args =>
    obtain ⟨hslice, halike⟩ := (h.intern callee).exprList args
    have hkind : (ExprKind.call (b.names.intern callee).1 (b.unit.nodes.addExprList args).1).Alike
        (SameText (b.names.intern callee).2 (b'.names.intern callee).2)
        (.call (b'.names.intern callee).1 (b'.unit.nodes.addExprList args).1) :=
      hslice ▸ .call (sameText_intern ..) _
    exact halike.expr hkind
  | errorExpr => exact h.expr .error
  | var name init => exact (h.intern name).stmt (.var (sameText_intern ..) init)
  | assign target value => exact (h.intern target).stmt (.assign (sameText_intern ..) value)
  | exprStmt value => exact h.stmt (.expr value)
  | block body =>
    obtain ⟨hslice, halike⟩ := h.stmtList body
    have hkind : (StmtKind.block (b.unit.nodes.addStmtList body).1).Alike
        (SameText b.names b'.names) (.block (b'.unit.nodes.addStmtList body).1) :=
      hslice ▸ .block _
    exact halike.stmt hkind
  | errorStmt => exact h.stmt .error
  | global name =>
    have hi := h.intern name
    refine ⟨⟨hi.unit.package, List.rel_append hi.unit.globals (.cons ?_ .nil), hi.unit.functions,
      hi.unit.nodes⟩, congrArg (· + 1) h.position_eq⟩
    exact ⟨sameText_intern .., congrArg Span.single h.position_eq⟩
  | function name body =>
    have hi := h.intern name
    refine ⟨⟨hi.unit.package, hi.unit.globals, List.rel_append hi.unit.functions (.cons ?_ .nil),
      hi.unit.nodes⟩, congrArg (· + 1) h.position_eq⟩
    exact ⟨sameText_intern .., rfl, congrArg Span.single h.position_eq⟩

end Builder.Alike

/-- What is built in the same way is alike, whatever names there were before. -/
theorem Recipe.build_alike (t t' : NameTable) (r : Recipe) :
    (r.build t).Alike (r.build t') := by
  have hfold : ∀ {b b' : Builder}, b.Alike b' →
      (r.steps.foldl BuildStep.apply b).Alike (r.steps.foldl BuildStep.apply b') := by
    induction r.steps with
    | nil => exact fun h => h
    | cons step steps ih => exact fun h => ih (h.apply step)
  exact hfold (Builder.Alike.start t t' r.package)

namespace Compiler

/-- Build a unit and compile it. -/
def buildAndCompile (c : Compiler) (names : NameTable) (r : Recipe) : Run :=
  c.compile (r.build names).names (r.build names).unit

/-- Build and compile units one after the other, all with one table of names. -/
def session (c : Compiler) : NameTable → List Recipe → List (Except Failure Listing × Array Event)
  | _, [] => []
  | names, r :: rest =>
    let run := c.buildAndCompile names r
    (run.outcome, run.events) :: c.session run.names rest

/-- **Names count by their texts.** Units that differ in names only, where names at the same place
have the same text, have the same outcome and the same events. In particular a unit that is built
and compiled in a session comes out as it would with any other table, hence as it would alone:
the units before it do not matter. -/
theorem names_count_by_text (c : Compiler) (t t' : NameTable) :
    (∀ u u' : SourceUnit, u.Alike (SameText t t') u' →
      (c.compile t u).outcome = (c.compile t' u').outcome ∧
      (c.compile t u).events = (c.compile t' u').events) ∧
    ∀ rs : List Recipe, c.session t rs =
      rs.map fun r => ((c.buildAndCompile t' r).outcome, (c.buildAndCompile t' r).events) := by
  refine ⟨fun u u' h => compile_eq_of_alike h, fun rs => ?_⟩
  induction rs generalizing t with
  | nil => rfl
  | cons r rs ih =>
    obtain ⟨houtcome, hevents⟩ := compile_eq_of_alike (c := c) (r.build_alike t t').unit
    rw [session, List.map_cons, ih]
    exact congrArg (· :: _) (Prod.ext houtcome hevents)

end Compiler

/-- A function that doubles a variable of the package. -/
def Counter.recipe : Recipe where
  package := "main"
  steps := [.global "tick", .ident "tick", .ident "tick", .binary .add ⟨0⟩ ⟨1⟩,
    .assign "tick" ⟨2⟩, .block [⟨0⟩], .function "main" (some ⟨1⟩)]

/-- Built twice in a session whose table already has other names, the unit has other names than
alone, and the same outcome each time. -/
theorem Compiler.names_count_by_text_counter :
    (Counter.recipe.build Counter.names).unit ≠ (Counter.recipe.build .initial).unit ∧
      ∃ listing events,
        ({} : Compiler).session Counter.names [Counter.recipe, Counter.recipe] =
          [(.ok listing, events), (.ok listing, events)] ∧
        (({} : Compiler).buildAndCompile .initial Counter.recipe).outcome = .ok listing := by
  refine ⟨by decide +kernel, ?_⟩
  have hsession := (Compiler.names_count_by_text {} Counter.names .initial).2
    [Counter.recipe, Counter.recipe]
  have hsome : (({} : Compiler).buildAndCompile .initial
      Counter.recipe).outcome.toOption.isSome = true := by decide +kernel
  cases h : (({} : Compiler).buildAndCompile .initial Counter.recipe).outcome with
  | ok listing =>
    refine ⟨listing, (({} : Compiler).buildAndCompile .initial Counter.recipe).events, ?_, rfl⟩
    rw [hsession, List.map_cons, List.map_cons, List.map_nil, h]
  | error e =>
    rw [h] at hsome
    exact absurd hsome Bool.false_ne_true

end RegisterCode
